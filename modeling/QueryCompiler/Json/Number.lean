import QueryCompiler.Json.Basic
import QueryCompiler.Decimal.Reading

/-!
# Numbers in JSON text

Whole numbers up to 64 bits, signed or unsigned, stay integers; minus zero and all others become
doubles. A double is computed from a significand of at most 64 bits, further digits being dropped,
and one multiplication or division by a power of ten after the other; so a long number may differ
from the nearest double in its last bit. A number beyond the range of doubles is refused.
-/
namespace QueryCompiler.Json

open Decimal (isDigit digitValue nearest)

/-- A significand being read: digits that no longer fit are dropped and, when they stand before the
point, counted in the exponent. -/
structure Significand where
  digits : Nat
  exponent : Int
  full : Bool

def largestWord : Nat := Nat.pow 2 64 - 1

def Significand.whole (s : Significand) (c : Char) : Significand :=
  let next := 10 * s.digits + digitValue c
  if s.full || largestWord < next then ⟨s.digits, s.exponent + 1, true⟩ else ⟨next, 0, false⟩

/-- The state of the places after the point; the flag is on once a digit no longer fitted. -/
def Significand.place (s : Significand) (c : Char) : Significand :=
  let next := 10 * s.digits + digitValue c
  if s.full || largestWord < next then { s with full := true }
  else ⟨next, s.exponent - 1, false⟩

def powerOfTen (n : Nat) : Float := nearest false (Nat.pow 10 n) 1

/-- Multiply by `10 ^ exponent`, in steps of at most 308; fuel counts the steps down. -/
def scale : Nat → Float → Int → Option Float
  | 0, x, _ => some x
  | steps + 1, x, exponent =>
    if exponent.natAbs ≤ 308 then
      let power := powerOfTen exponent.natAbs
      if exponent < 0 then some (x / power)
      else
        let product := x * power
        if product.isInf then none else some product
    else if x == 0 then some x
    else if 0 ≤ exponent then none
    else scale steps (x / powerOfTen 308) (exponent + 308)

def signed (negative : Bool) (x : Float) : Float := if negative then -x else x

/-- Three divisions by the largest power make every significand zero. -/
def assemble (negative : Bool) (digits : Nat) (exponent : Int) : Option Float :=
  (scale 5 (nearest false digits 1) exponent).map (signed negative)

def largestExponent : Nat := Nat.pow 2 31 - 1

/-- Apply a written exponent. One that does not fit in 32 bits gives zero or is refused. -/
def withExponent (negative : Bool) (s : Significand) (down : Bool) (digits : List Char) :
    Option Float :=
  let size := digits.foldl (fun n c => min (10 * n + digitValue c) (largestExponent + 1)) 0
  if largestExponent < size then
    if s.digits ≠ 0 ∧ !down then none else some (signed negative (nearest false 0 1))
  else assemble negative s.digits (s.exponent + if down then -(size : Int) else size)

def exponentDigits : List Char → Option (Bool × List Char)
  | [] => none
  | c :: rest =>
    if c = 'e' ∨ c = 'E' then
      let (down, digits) := Decimal.splitSign rest
      if digits.isEmpty || !digits.all isDigit then none else some (down, digits)
    else none

/-- A whole number without point or exponent. -/
def wholeNumber (negative : Bool) (s : Significand) : Option Json :=
  if s.full then (assemble negative s.digits s.exponent).map .float
  else if !negative then some (.int s.digits)
  else if s.digits = 0 ∨ Nat.pow 2 63 < s.digits then
    some (.float (signed true (nearest false s.digits 1)))
  else some (.int (-(s.digits : Int)))

def tailNumber (negative : Bool) (s : Significand) (tail : List Char) : Option (Option Json) :=
  if tail.isEmpty then some ((assemble negative s.digits s.exponent).map .float)
  else do
    let (down, digits) ← exponentDigits tail
    return (withExponent negative s down digits).map .float

/-- Read a number that takes up the whole text. One that is well written but beyond the range of
doubles has no value. -/
def number? (cs : List Char) : Option (Option Json) :=
  let (negative, cs) := match cs with
    | '-' :: rest => (true, rest)
    | cs => (false, cs)
  let digits := cs.takeWhile isDigit
  if digits.isEmpty || (1 < digits.length && digits.head? == some '0') then none
  else
    let s := digits.foldl Significand.whole ⟨0, 0, false⟩
    match cs.dropWhile isDigit with
    | [] => some (wholeNumber negative s)
    | '.' :: rest =>
      let places := rest.takeWhile isDigit
      if places.isEmpty then none
      else
        let s := places.foldl Significand.place { s with full := false }
        tailNumber negative s (rest.dropWhile isDigit)
    | rest => tailNumber negative s rest

end QueryCompiler.Json
