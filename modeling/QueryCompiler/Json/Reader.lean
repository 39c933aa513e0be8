import QueryCompiler.Json.Number

/-!
# Reading JSON text

The text is cut into tokens, and the tokens drive a machine with a stack of the containers that
are still open; both walk over lists, so reading always ends. Repeated names are all kept:
`Json.merged` decides which of them counts. Containers are nested at most 127 deep.

A token can be well written and yet have no value: a number out of range, or a string with half of
a surrogate pair. `read?` refuses these. `skim?` is for texts of which only a part is used: it puts
`null` for a scalar without a value and has no limit of depth.
-/
namespace QueryCompiler.Json

/-- The escape sequences of one character. -/
def simpleEscape? : Char → Option Char
  | '"' => some '"'
  | '\\' => some '\\'
  | '/' => some '/'
  | 'b' => some '\x08'
  | 'f' => some '\x0c'
  | 'n' => some '\n'
  | 'r' => some '\r'
  | 't' => some '\t'
  | _ => none

def hexValue? (c : Char) : Option Nat :=
  if '0' ≤ c ∧ c ≤ '9' then some (c.toNat - '0'.toNat)
  else if 'a' ≤ c ∧ c ≤ 'f' then some (c.toNat - 'a'.toNat + 10)
  else if 'A' ≤ c ∧ c ≤ 'F' then some (c.toNat - 'A'.toNat + 10)
  else none

def unit? (a b c d : Char) : Option Nat := do
  some (4096 * (← hexValue? a) + 256 * (← hexValue? b) + 16 * (← hexValue? c) + (← hexValue? d))

def isHigh (n : Nat) : Bool := 0xd800 ≤ n && n < 0xdc00

def isLow (n : Nat) : Bool := 0xdc00 ≤ n && n < 0xe000

def pairedUnits (high low : Nat) : Char := Char.ofNat (0x10000 + 1024 * (high - 0xd800) + (low - 0xdc00))

/-- A string being read: its characters, last first, which are lost at half of a surrogate pair, and
the first half of a pair that was just read. -/
structure Unfinished where
  chars : Option (List Char)
  high : Option Nat

namespace Unfinished

def start : Unfinished := ⟨some [], none⟩

def lost : Unfinished := ⟨none, none⟩

def addChar (s : Unfinished) (c : Char) : Unfinished :=
  if s.high.isSome then lost else ⟨s.chars.map (c :: ·), none⟩

/-- Take in an escaped unit of sixteen bits. -/
def addUnit (s : Unfinished) (n : Nat) : Unfinished :=
  match s.high with
  | some high => if isLow n then ⟨s.chars.map (pairedUnits high n :: ·), none⟩ else lost
  | none =>
    if isHigh n then ⟨s.chars, some n⟩ else if isLow n then lost else s.addChar (Char.ofNat n)

def value (s : Unfinished) : Option String :=
  if s.high.isSome then none else s.chars.map fun cs => String.ofList cs.reverse

end Unfinished

/-- The rest of a string after its opening quote. -/
def stringTail (s : Unfinished) : List Char → Option (Option String × List Char)
  | [] => none
  | '"' :: rest => some (s.value, rest)
  | '\\' :: 'u' :: a :: b :: c :: d :: rest => do stringTail (s.addUnit (← unit? a b c d)) rest
  | '\\' :: c :: rest => do stringTail (s.addChar (← simpleEscape? c)) rest
  | c :: rest => if c.toNat < 0x20 then none else stringTail (s.addChar c) rest

inductive Token where
  | openList
  | openObject
  | closeList
  | closeObject
  | comma
  | colon
  | text (s : Option String)
  | scalar (value : Option Json)

def punctuation? : Char → Option Token
  | '[' => some .openList
  | ']' => some .closeList
  | '\x7b' => some .openObject
  | '\x7d' => some .closeObject
  | ',' => some .comma
  | ':' => some .colon
  | _ => none

def isSpace (c : Char) : Bool := c == ' ' || c == '\n' || c == '\t' || c == '\r'

def isNumberChar (c : Char) : Bool :=
  Decimal.isDigit c || c == '-' || c == '+' || c == '.' || c == 'e' || c == 'E'

def word? (cs : List Char) : Option Json :=
  match String.ofList cs with
  | "null" => some .null
  | "true" => some (.bool true)
  | "false" => some (.bool false)
  | _ => none

/-- One token and the text behind it. -/
def token? (c : Char) (rest : List Char) : Option (Token × List Char) :=
  match punctuation? c with
  | some token => some (token, rest)
  | none =>
    if c = '"' then (stringTail .start rest).map fun (s, rest) => (.text s, rest)
    else if c = '-' ∨ Decimal.isDigit c then do
      let value ← number? (c :: rest.takeWhile isNumberChar)
      some (.scalar value, rest.dropWhile isNumberChar)
    else do
      let value ← word? (c :: rest.takeWhile Char.isAlpha)
      some (.scalar (some value), rest.dropWhile Char.isAlpha)

/-- All tokens of a text; every one takes at least a character, so its length is fuel enough. -/
def tokens? : Nat → List Char → Option (List Token)
  | _, [] => some []
  | 0, _ => none
  | fuel + 1, c :: rest =>
    if isSpace c then tokens? fuel rest
    else do
      let (token, rest) ← token? c rest
      return token :: (← tokens? fuel rest)

/-- A container that is still open, with its contents last first. -/
inductive Frame where
  | list (items : List Json)
  | object (members : List (String × Json))
  | member (members : List (String × Json)) (name : String)

/-- What may come next, with the open containers, innermost first. -/
inductive State where
  | value (stack : List Frame)
  | opened (stack : List Frame)
  | name (stack : List Frame)
  | colon (stack : List Frame)
  | completed (stack : List Frame)
  | finished (value : Json)

def depthLimit : Nat := 127

/-- Hand a value to the innermost open container. -/
def complete (value : Json) : List Frame → Option State
  | [] => some (.finished value)
  | .list items :: stack => some (.completed (.list (value :: items) :: stack))
  | .member members name :: stack => some (.completed (.object ((name, value) :: members) :: stack))
  | .object _ :: _ => none

/-- Open a container. -/
def openWith (loose : Bool) (frame : Frame) (stack : List Frame) : Option State :=
  if loose || stack.length < depthLimit then some (.opened (frame :: stack)) else none

/-- Close the innermost container, if the bracket fits. -/
def close (bracket : Token) (stack : List Frame) : Option State :=
  match bracket, stack with
  | .closeList, .list items :: stack => complete (.list items.reverse) stack
  | .closeObject, .object members :: stack => complete (.object members.reverse) stack
  | _, _ => none

/-- What stands for a scalar without a value. -/
def placeholder? (loose : Bool) : Option Json := if loose then some .null else none

def valueStep (loose : Bool) (stack : List Frame) : Token → Option State
  | .openList => openWith loose (.list []) stack
  | .openObject => openWith loose (.object []) stack
  | .text (some s) => complete (.text s) stack
  | .text none => do complete (← placeholder? loose) stack
  | .scalar (some value) => complete value stack
  | .scalar none => do complete (← placeholder? loose) stack
  | _ => none

/-- What stands for a name without a value; the names of the outermost object all have one. -/
def placeholderName? (loose : Bool) (outer : List Frame) : Option String :=
  if loose && !outer.isEmpty then some "" else none

def nameStep (loose : Bool) (stack : List Frame) (token : Token) : Option State :=
  match token, stack with
  | .text (some name), .object members :: outer => some (.colon (.member members name :: outer))
  | .text none, .object members :: outer => do
    some (.colon (.member members (← placeholderName? loose outer) :: outer))
  | _, _ => none

def step (loose : Bool) : State → Token → Option State
  | .value stack, token => valueStep loose stack token
  | .opened (.list items :: stack), token =>
    match token with
    | .closeList => close .closeList (.list items :: stack)
    | _ => valueStep loose (.list items :: stack) token
  | .opened stack, token =>
    match token with
    | .closeObject => close .closeObject stack
    | _ => nameStep loose stack token
  | .name stack, token => nameStep loose stack token
  | .colon stack, .colon => some (.value stack)
  | .colon _, _ => none
  | .completed stack, .comma =>
    match stack with
    | .list _ :: _ => some (.value stack)
    | .object _ :: _ => some (.name stack)
    | _ => none
  | .completed stack, token => close token stack
  | .finished _, _ => none

def readWith (loose : Bool) (s : String) : Option Json := do
  let tokens ← tokens? s.length s.toList
  match ← tokens.foldlM (step loose) (.value []) with
  | .finished value => some value
  | _ => none

/-- Read a text that holds one JSON value. -/
def read? (s : String) : Option Json := readWith false s

/-- Read a text that holds one JSON value, parts of which will be passed over. -/
def skim? (s : String) : Option Json := readWith true s

end QueryCompiler.Json
