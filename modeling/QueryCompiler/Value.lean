import QueryCompiler.Json.Reader

/-!
# Values

What a parameter, a literal or a cell of a row can hold. Equality is that of the program itself:
numbers compare as numbers, so `0.0` equals `-0.0`, and no value that is not a number equals
itself.
-/
namespace QueryCompiler

inductive Value where
  | null
  | bool (b : Bool)
  | int (n : Int)
  | float (x : Float)
  | text (s : String)
  deriving BEq, Repr, Inhabited

namespace Value

def isNull : Value → Bool
  | null => true
  | _ => false

/-- The integer that a whole double is, brought into the range of 64 bits. -/
def wholeOf (x : Float) : Option Int :=
  if !x.isFinite then none
  else
    let (negative, v) := Decimal.decode x
    let (up, down) := Decimal.powerFraction 2 v.exponent
    if v.mantissa * up % down = 0 then
      let n : Int := v.mantissa * up / down
      some (max (-Int.pow 2 63) (min (Int.pow 2 63 - 1) (if negative then -n else n)))
    else none

/-- A value read as an integer: an integer, a whole number, or the text of an integer. -/
def asInt : Value → Option Int
  | int n => some n
  | float x => wholeOf x
  | text s => Decimal.readInt? s
  | _ => none

def asText : Value → Option String
  | text s => some s
  | _ => none

/-- The text of a value in messages; the quotes of a string are not doubled here. -/
def display : Value → String
  | null => "NULL"
  | bool b => if b then "true" else "false"
  | int n => toString n
  | float x => Decimal.floatText x
  | text s => "'" ++ s ++ "'"

def toJson : Value → Json
  | null => .null
  | bool b => .bool b
  | int n => .int n
  | float x => if x.isFinite then .float x else .null
  | text s => .text s

/-- Scalars are values; a whole number beyond 64 signed bits becomes a double. -/
def ofJson? : Json → Option Value
  | .null => some null
  | .bool b => some (bool b)
  | .int n => some (if n < Int.pow 2 63 then int n else float (Decimal.nearest false n.toNat 1))
  | .float x => some (float x)
  | .text s => some (text s)
  | .list _ => none
  | .object _ => none

end Value

end QueryCompiler
