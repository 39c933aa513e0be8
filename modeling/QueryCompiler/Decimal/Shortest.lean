import QueryCompiler.Decimal.Binary64

/-!
# The shortest decimal that reads back

The reals that round to a double form an interval around it. On the grid of decimals with `n`
significant digits only the two neighbours of the double can be nearest to it, and the first grid
with a neighbour in the interval gives the shortest text. Of two neighbours in the interval the
nearer is taken; an exact tie goes up, or to the even digit, as the caller asks.
-/
namespace QueryCompiler.Decimal

inductive Tie where
  | up
  | even
  deriving DecidableEq, Repr

/-- A decimal `digits * 10 ^ exponent`. -/
structure Scaled where
  digits : Nat
  exponent : Int
  deriving DecidableEq, Repr

/-- The interval of a magnitude, in quarters of its unit: the reals from `low` to `high`, the ends
included if the mantissa is even. Below a power of two the spacing halves. -/
structure Interval where
  low : Nat
  middle : Nat
  high : Nat
  closed : Bool
  deriving DecidableEq, Repr

def Magnitude.interval (v : Magnitude) : Interval :=
  let narrow := v.mantissa == Nat.pow 2 52 && -1074 < v.exponent
  ⟨4 * v.mantissa - (if narrow then 1 else 2), 4 * v.mantissa, 4 * v.mantissa + 2,
    v.mantissa % 2 == 0⟩

/-- The number of decimal digits of a natural. -/
def digitCount (n : Nat) : Nat := (Nat.toDigits 10 n).length

/-- The exponent of the first significant digit of a positive fraction. -/
def leadingExponent (numerator denominator : Nat) : Int :=
  if denominator ≤ numerator then digitCount (numerator / denominator) - 1
  else -(digitCount ((denominator - 1) / numerator) : Int)

/-- The candidates on one grid: the neighbour below or above, whichever lies in the interval, and
the nearer one if both do. All quantities are multiples of one common unit. -/
def candidate (tie : Tie) (interval : Interval) (quarter step : Nat) : Option Nat :=
  let below := interval.middle * quarter / step
  let inside (k : Nat) : Bool :=
    if interval.closed then
      interval.low * quarter ≤ k * step && k * step ≤ interval.high * quarter
    else interval.low * quarter < k * step && k * step < interval.high * quarter
  let gap := 2 * (interval.middle * quarter - below * step)
  let upward := step < gap || (gap == step && (tie == .up || below % 2 == 1))
  match inside below, inside (below + 1) with
  | true, true => some (if upward then below + 1 else below)
  | true, false => some below
  | false, true => some (below + 1)
  | false, false => none

/-- The decimal on the grid of `count` significant digits, if that grid meets the interval. -/
def atPrecision (tie : Tie) (v : Magnitude) (leading : Int) (count : Nat) : Option Scaled :=
  let exponent := leading + 1 - count
  let (tens, tenths) := powerFraction 10 exponent
  let (twos, halves) := powerFraction 2 (v.exponent - 2)
  (candidate tie v.interval (twos * tenths) (tens * halves)).map fun digits =>
    if digits % 10 = 0 then ⟨digits / 10, exponent + 1⟩ else ⟨digits, exponent⟩

/-- The shortest decimal of a magnitude; seventeen digits always suffice. -/
def shortest (tie : Tie) (v : Magnitude) : Scaled :=
  if v.mantissa = 0 then ⟨0, 0⟩
  else
    let (up, down) := powerFraction 2 v.exponent
    let leading := leadingExponent (v.mantissa * up) down
    ((List.range 17).findSome? fun n => atPrecision tie v leading (n + 1)).getD ⟨0, 0⟩

end QueryCompiler.Decimal
