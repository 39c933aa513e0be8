import QueryCompiler.Decimal.Binary64

/-!
# Reading floating-point numbers

An optional sign, then a word for infinity or for no number in any case, or digits with an
optional point among, before or after them and an optional exponent. The value is the double
nearest to what is written.
-/
namespace QueryCompiler.Decimal

def isDigit (c : Char) : Bool := '0' ≤ c && c ≤ '9'

def digitValue (c : Char) : Nat := c.toNat - '0'.toNat

def natOfDigits (cs : List Char) : Nat := cs.foldl (fun n c => 10 * n + digitValue c) 0

/-- Split a leading sign off; the flag says that it is a minus. -/
def splitSign : List Char → Bool × List Char
  | '-' :: rest => (true, rest)
  | '+' :: rest => (false, rest)
  | cs => (false, cs)

/-- The exponent part of a number: empty, or `e` with a signed natural. -/
def exponentPart : List Char → Option Int
  | [] => some 0
  | c :: rest =>
    if c = 'e' ∨ c = 'E' then
      match splitSign rest with
      | (_, []) => none
      | (negative, digits) =>
        if digits.all isDigit then
          let n : Int := natOfDigits digits
          some (if negative then -n else n)
        else none
    else none

/-- An unsigned decimal: whole digits, places and an exponent, at least one digit in all. -/
def unsignedFloat (negative : Bool) (cs : List Char) : Option Float :=
  let whole := cs.takeWhile isDigit
  let (places, tail) :=
    match cs.dropWhile isDigit with
    | '.' :: rest => (rest.takeWhile isDigit, rest.dropWhile isDigit)
    | rest => ([], rest)
  if whole.isEmpty && places.isEmpty then none
  else (exponentPart tail).map fun exponent =>
    ofDecimal negative (natOfDigits (whole ++ places)) (exponent - places.length)

def infinity (negative : Bool) : Float := nearest negative (Nat.pow 2 1100) 1

def notANumber : Float := Float.ofBits 0x7ff8000000000000

/-- Read a floating-point number that takes up the whole text. -/
def readFloat? (s : String) : Option Float :=
  let (negative, cs) := splitSign s.toList
  match (String.ofList cs).toLower with
  | "inf" | "infinity" => some (infinity negative)
  | "nan" => some notANumber
  | _ => unsignedFloat negative cs

/-- Read a signed decimal integer of 64 bits that takes up the whole text. -/
def readInt? (s : String) : Option Int :=
  match splitSign s.toList with
  | (_, []) => none
  | (negative, digits) =>
    if digits.all isDigit then
      let n : Int := natOfDigits digits
      let value := if negative then -n else n
      if -Int.pow 2 63 ≤ value ∧ value < Int.pow 2 63 then some value else none
    else none

end QueryCompiler.Decimal
