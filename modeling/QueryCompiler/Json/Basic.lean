import QueryCompiler.Decimal.Layout

/-!
# JSON values and their text

Members keep the order in which they were written. `compact` writes a value on one line without
blanks, `pretty` on several lines indented by two blanks.
-/
namespace QueryCompiler

inductive Json where
  | null
  | bool (b : Bool)
  | int (n : Int)
  | float (x : Float)
  | text (s : String)
  | list (items : List Json)
  | object (members : List (String × Json))

namespace Json

def hexDigits (n : Nat) : String :=
  String.ofList [Nat.digitChar (n / 16), Nat.digitChar (n % 16)]

/-- Only quotes, backslashes and control characters are escaped. -/
def escapeChar (c : Char) : String :=
  match c with
  | '"' => "\\\""
  | '\\' => "\\\\"
  | '\x08' => "\\b"
  | '\x0c' => "\\f"
  | '\n' => "\\n"
  | '\r' => "\\r"
  | '\t' => "\\t"
  | c => if c.toNat < 0x20 then "\\u00" ++ hexDigits c.toNat else c.toString

def quoted (s : String) : String := "\"" ++ String.join (s.toList.map escapeChar) ++ "\""

/-- Numbers that are not finite have no JSON text and become `null`. -/
def floatText (x : Float) : String := if x.isFinite then Decimal.jsonStyle.finite x else "null"

mutual
def compact : Json → String
  | null => "null"
  | bool b => if b then "true" else "false"
  | int n => toString n
  | float x => floatText x
  | text s => quoted s
  | list items => "[" ++ ",".intercalate (compactItems items) ++ "]"
  | object members => "\x7b" ++ ",".intercalate (compactMembers members) ++ "\x7d"

def compactItems : List Json → List String
  | [] => []
  | item :: rest => compact item :: compactItems rest

def compactMembers : List (String × Json) → List String
  | [] => []
  | (name, value) :: rest => (quoted name ++ ":" ++ compact value) :: compactMembers rest
end

def indent (depth : Nat) : String := "\n" ++ String.ofList (List.replicate (2 * depth) ' ')

/-- Brackets around lines, each one level deeper than the closing bracket. -/
def block (depth : Nat) (first last : String) (lines : List String) : String :=
  if lines.isEmpty then first ++ last
  else first ++ ",".intercalate (lines.map (indent (depth + 1) ++ ·)) ++ indent depth ++ last

mutual
def prettyAt (depth : Nat) : Json → String
  | list items => block depth "[" "]" (prettyItems (depth + 1) items)
  | object members => block depth "\x7b" "\x7d" (prettyMembers (depth + 1) members)
  | null => compact null
  | bool b => compact (bool b)
  | int n => compact (int n)
  | float x => compact (float x)
  | text s => compact (text s)

def prettyItems (depth : Nat) : List Json → List String
  | [] => []
  | item :: rest => prettyAt depth item :: prettyItems depth rest

def prettyMembers (depth : Nat) : List (String × Json) → List String
  | [] => []
  | (name, value) :: rest => (quoted name ++ ": " ++ prettyAt depth value) :: prettyMembers depth rest
end

def pretty (j : Json) : String := prettyAt 0 j

/-- Put a member in: a name that is already there keeps its place and takes the new value. -/
def putMember (name : String) (value : Json) : List (String × Json) → List (String × Json)
  | [] => [(name, value)]
  | (other, old) :: rest =>
    if other = name then (other, value) :: rest else (other, old) :: putMember name value rest

mutual
/-- Every name once per object, at its first place and with its last value. -/
def merged : Json → Json
  | list items => list (mergedItems items)
  | object members =>
    object ((mergedMembers members).foldl (fun done m => putMember m.1 m.2 done) [])
  | null => null
  | bool b => bool b
  | int n => int n
  | float x => float x
  | text s => text s

def mergedItems : List Json → List Json
  | [] => []
  | item :: rest => merged item :: mergedItems rest

def mergedMembers : List (String × Json) → List (String × Json)
  | [] => []
  | (name, value) :: rest => (name, merged value) :: mergedMembers rest
end

/-- The value of the first member of that name. -/
def member? (name : String) (members : List (String × Json)) : Option Json :=
  (members.find? (·.1 == name)).map (·.2)

end Json

end QueryCompiler
