import QueryCompiler.Decimal.Shortest

/-!
# Decimal text of floating-point numbers

The digits are the shortest that read back. `Style` holds what a format decides beyond that: how
ties go, where positional text ends, and whether a whole number keeps a decimal place.
-/
namespace QueryCompiler.Decimal

structure Style where
  tie : Tie
  /-- The exponents of the first digit that are written positionally; all of them if `none`. -/
  positional : Option (Int × Int)
  keepsPlace : Bool

def zeros (n : Nat) : String := String.ofList (List.replicate n '0')

/-- Positional text of a decimal. -/
def Scaled.positional (d : Scaled) (keepsPlace : Bool) : String :=
  let digits := Nat.toDigits 10 d.digits
  if 0 ≤ d.exponent then
    String.ofList digits ++ zeros d.exponent.toNat ++ (if keepsPlace then ".0" else "")
  else
    let places := (-d.exponent).toNat
    if places < digits.length then
      let whole := digits.length - places
      String.ofList (digits.take whole) ++ "." ++ String.ofList (digits.drop whole)
    else "0." ++ zeros (places - digits.length) ++ String.ofList digits

/-- The exponent of the first digit. -/
def Scaled.leading (d : Scaled) : Int := digitCount d.digits - 1 + d.exponent

/-- One digit, the others after a point, and a signed exponent. -/
def Scaled.scientific (d : Scaled) : String :=
  let exponent := d.leading
  let sign := if exponent < 0 then "-" else "+"
  let tail := sign ++ toString exponent.natAbs
  match Nat.toDigits 10 d.digits with
  | [] => "0e" ++ tail
  | [c] => String.ofList [c] ++ "e" ++ tail
  | c :: rest => String.ofList [c, '.'] ++ String.ofList rest ++ "e" ++ tail

/-- The text of a finite double. -/
def Style.finite (style : Style) (x : Float) : String :=
  let (negative, magnitude) := decode x
  let d := shortest style.tie magnitude
  let body :=
    match style.positional with
    | none => d.positional style.keepsPlace
    | some (first, last) =>
      if first ≤ d.leading ∧ d.leading < last then d.positional style.keepsPlace
      else d.scientific
  if negative then "-" ++ body else body

/-- Numbers in SQL text and in messages are positional throughout. -/
def sqlStyle : Style := ⟨.up, none, false⟩

/-- Numbers in JSON text keep a decimal place and change to an exponent at both ends. -/
def jsonStyle : Style := ⟨.even, some (-5, 16), true⟩

/-- The text of any double, with words for those that are not finite. -/
def floatText (x : Float) : String :=
  if x.isNaN then "NaN"
  else if x.isInf then (if x < 0 then "-inf" else "inf")
  else sqlStyle.finite x

end QueryCompiler.Decimal
