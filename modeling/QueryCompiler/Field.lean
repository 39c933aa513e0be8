import QueryCompiler.Fault
import QueryCompiler.Text.Blank
import QueryCompiler.Text.Identifier

/-!
# Field tokens

A token is a run of quoted text, parenthesized groups and other characters; blanks separate tokens
unless they stand in quotes or parentheses. `Place` says where a scan stands, and both the
tokenizer and the balance check follow it.
-/
namespace QueryCompiler.Field

/-- Where a scan stands: under a number of open parentheses, possibly inside quotes. -/
inductive Place where
  | plain (depth : Nat)
  | quoted (quote : Char) (depth : Nat)
  deriving DecidableEq, Repr

def Place.isOpen : Place → Bool
  | plain 0 => false
  | _ => true

/-- Whether a character opens quotes. The backtick does so in tokens only, outside parentheses. -/
def opensQuotes (inToken : Bool) (depth : Nat) (c : Char) : Bool :=
  c == '\'' || c == '"' || (inToken && depth == 0 && c == '\x60')

/-- Where the scan stands after one more character; `none` for a parenthesis that closes nothing. -/
def Place.next (inToken : Bool) (c : Char) : Place → Option Place
  | quoted quote depth => some (if c = quote then plain depth else quoted quote depth)
  | plain depth =>
    if c = '(' then some (plain (depth + 1))
    else if c = ')' then if depth = 0 then none else some (plain (depth - 1))
    else if opensQuotes inToken depth c then some (quoted c depth)
    else some (plain depth)

/-- Put a character in front of the first token. -/
def extendFirst (c : Char) : List (List Char) → List (List Char)
  | [] => [[c]]
  | token :: rest => (c :: token) :: rest

/-- Cut a text at the blanks outside quotes and parentheses; empty tokens stand between blanks. -/
def cut : Place → List Char → Option (List (List Char))
  | place, [] => if place.isOpen then none else some [[]]
  | place, c :: rest =>
    if !place.isOpen && Text.isSeparator c then ([] :: ·) <$> cut place rest
    else do
      let place ← place.next true c
      extendFirst c <$> cut place rest

/-- The tokens of a text; `none` if quotes or parentheses do not match. -/
def tokens? (text : String) : Option (List String) :=
  (cut (.plain 0) text.toList).map fun parts =>
    (parts.filter fun part => !part.isEmpty).map String.ofList

def tokenize (text : String) : Except Fault (List String) :=
  match tokens? text with
  | some tokens => .ok tokens
  | none => .error (.malformedField text)

def balancedFrom : Place → List Char → Bool
  | place, [] => !place.isOpen
  | place, c :: rest =>
    match place.next false c with
    | some place => balancedFrom place rest
    | none => false

/-- A text that is not empty and in which quotes and parentheses match. -/
def isBalanced (text : String) : Bool := !text.isEmpty && balancedFrom (.plain 0) text.toList

/-- Text that is written as it stands: quoted already, or an expression such as `COUNT(*)`. -/
def isVerbatim (token : String) : Bool :=
  Text.startsWithAny ['"', '\x60', '\''] token || Text.hasChar '(' token

def isAs (token : String) : Bool := Text.sameWord token "AS"

/-- A field and the name it is given, if any. -/
structure Named where
  name : String
  label : Option String
  deriving DecidableEq, Repr

/-- `name`, `name label` or `name AS label`: a field and what it is called. -/
def named? : List String → Option Named
  | [name] => if isAs name then none else some ⟨name, none⟩
  | [name, label] => if isAs name || isAs label then none else some ⟨name, some label⟩
  | [name, word, label] =>
    if !isAs word || isAs name || isAs label then none else some ⟨name, some label⟩
  | _ => none

def parse (text : String) : Except Fault Named :=
  match (tokens? text).bind named? with
  | some field => .ok field
  | none => .error (.malformedField text)

inductive Direction where
  | ascending
  | descending
  deriving DecidableEq, Repr

inductive Nulls where
  | first
  | last
  deriving DecidableEq, Repr

/-- A field to order by. -/
structure Ordered where
  name : String
  direction : Direction
  nulls : Option Nulls
  deriving DecidableEq, Repr

def direction : List String → Direction × List String
  | "ASC" :: rest => (.ascending, rest)
  | "DESC" :: rest => (.descending, rest)
  | words => (.ascending, words)

def nulls? : List String → Option (Option Nulls)
  | [] => some none
  | ["NULLS", "FIRST"] => some (some .first)
  | ["NULLS", "LAST"] => some (some .last)
  | _ => none

/-- `field`, then `ASC` or `DESC`, then `NULLS FIRST` or `NULLS LAST`. -/
def ordered? : List String → Option Ordered
  | [] => none
  | name :: words =>
    let (direction, rest) := direction (words.map String.toUpper)
    (nulls? rest).map fun nulls => ⟨name, direction, nulls⟩

def parseOrder (text : String) : Except Fault Ordered :=
  match (tokens? text).bind ordered? with
  | some order => .ok order
  | none => .error (.malformedField text)

end QueryCompiler.Field
