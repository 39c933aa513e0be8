/-!
# Binary floating-point numbers as fractions

A finite double is a sign and a magnitude `mantissa * 2 ^ exponent`. `decode` reads the two parts
off the bits, `nearest` finds the double nearest to a fraction, ties going to the even mantissa.
-/
namespace QueryCompiler.Decimal

structure Magnitude where
  mantissa : Nat
  exponent : Int
  deriving DecidableEq, Repr

/-- The sign and magnitude of a finite double; subnormal numbers share the least exponent. -/
def decode (x : Float) : Bool × Magnitude :=
  let bits : Nat := x.toBits.toNat
  let fraction : Nat := bits % Nat.pow 2 52
  let scale : Nat := bits / Nat.pow 2 52 % Nat.pow 2 11
  (decide (bits / Nat.pow 2 63 = 1),
    if scale = 0 then ⟨fraction, -1074⟩ else ⟨Nat.pow 2 52 + fraction, (scale : Int) - 1075⟩)

/-- `numerator / denominator` as the pair of naturals that `base ^ exponent` is. -/
def powerFraction (base : Nat) (exponent : Int) : Nat × Nat :=
  if 0 ≤ exponent then (base.pow exponent.toNat, 1) else (1, base.pow (-exponent).toNat)

/-- The quotient of two naturals, rounded to the nearest one, a half to the even one. -/
def roundedDiv (numerator denominator : Nat) : Nat :=
  let quotient := numerator / denominator
  let rest := 2 * (numerator % denominator)
  if rest < denominator then quotient
  else if denominator < rest then quotient + 1
  else quotient + quotient % 2

/-- The exponent at which a fraction has a mantissa of 53 bits, never below the least one. -/
def scaleOf (numerator denominator : Nat) : Int :=
  let guess : Int := (numerator.log2 : Int) - denominator.log2 - 53
  let (up, down) := powerFraction 2 (guess + 53)
  let exponent := if numerator * down < denominator * up then guess else guess + 1
  max exponent (-1074)

/-- The double nearest to a fraction; beyond the largest one it is infinite. -/
def nearest (negative : Bool) (numerator denominator : Nat) : Float :=
  let exponent := scaleOf numerator denominator
  let (up, down) := powerFraction 2 exponent
  let magnitude :=
    if numerator = 0 then 0
    else (exponent + 1074).toNat * Nat.pow 2 52 + roundedDiv (numerator * down) (denominator * up)
  let bits := min magnitude (2047 * Nat.pow 2 52)
  Float.ofBits (UInt64.ofNat (if negative then Nat.pow 2 63 + bits else bits))

/-- The double nearest to `digits * 10 ^ exponent`. Exponents far outside the range of the format
are decided by the number of digits alone. -/
def ofDecimal (negative : Bool) (digits : Nat) (exponent : Int) : Float :=
  let size : Int := (Nat.toDigits 10 digits).length + exponent
  if digits = 0 ∨ size < -400 then nearest negative 0 1
  else if 400 < size then nearest negative (Nat.pow 2 1100) 1
  else
    let (up, down) := powerFraction 10 exponent
    nearest negative (digits * up) down

end QueryCompiler.Decimal
