import QueryCompiler.Dialect.Identifier
import QueryCompiler.Fault
import QueryCompiler.Text.Blank

/-!
# Join types

A join type is `CROSS`, or `NATURAL` with or without a side, or a side; `JOIN` may follow. The text
is read keyword by keyword, without regard to case: alternatives are tried in order, and what may be
left out is left out where it cannot be read.
-/
namespace QueryCompiler

inductive JoinSide where
  | inner
  | left
  | right
  | full
  deriving DecidableEq, Repr

def JoinSide.word : JoinSide → String
  | inner => "INNER"
  | left => "LEFT"
  | right => "RIGHT"
  | full => "FULL"

structure JoinType where
  cross : Bool
  natural : Bool
  side : Option JoinSide
  outer : Bool
  deriving DecidableEq, Repr

namespace JoinType

/-- Whether the join has to say how its rows match. -/
def requiresOn (t : JoinType) : Bool := !t.cross && !t.natural

/-- The words of a join type in canonical spelling. -/
def words (t : JoinType) : List String :=
  (if t.cross then ["CROSS"]
    else (if t.natural then ["NATURAL"] else []) ++ (t.side.map JoinSide.word).toList ++
      (if t.outer then ["OUTER"] else [])) ++ ["JOIN"]

def display (t : JoinType) : String := " ".intercalate t.words

/-- A step along a text: what it reads and the text behind, if it can be taken. -/
abbrev Scan := StateT (List Char) Option

/-- The join type with a side, if any. -/
def ofSide (natural : Bool) (side : Option (JoinSide × Bool)) : JoinType :=
  ⟨false, natural, side.map (·.1), side.any (·.2)⟩

namespace Scan

/-- The text behind a word, whose letters may be in any case. -/
def spelled? : List Char → List Char → Option (List Char)
  | [], text => some text
  | _, [] => none
  | letter :: word, c :: text =>
    if Identifier.lowerChar c = Identifier.lowerChar letter then spelled? word text else none

def goesOn (text : List Char) : Bool := text.head?.any Identifier.isPlainChar

/-- Read a keyword behind any blanks. It has to end where a word ends. -/
def keyword (word : String) : Scan Unit := fun text => do
  let rest ← spelled? word.toList (text.dropWhile Text.isSeparator)
  if goesOn rest then none else some ((), rest)

def blanks : Scan Unit := fun text => some ((), text.dropWhile Text.isSeparator)

def named (side : JoinSide) : Scan JoinSide := do
  keyword side.word
  return side

/-- A side that may be followed by `OUTER`. -/
def outward : Scan JoinSide := named .left <|> named .right <|> named .full

/-- A side, and whether it is followed by `OUTER`. -/
def side : Scan (JoinSide × Bool) :=
  (do return (← named .inner, false)) <|> do
    let side ← outward
    let outer ← optional (keyword "OUTER")
    return (side, outer.isSome)

/-- A join type without its `JOIN`. -/
def kind : Scan JoinType :=
  (do
    keyword "CROSS"
    return ⟨true, false, none, false⟩) <|>
  (do
    keyword "NATURAL"
    return ofSide true (← optional side)) <|>
  (do return ofSide false (some (← side)))

def joinType : Scan JoinType := do
  let t ← kind
  let _ ← optional (keyword "JOIN")
  blanks
  return t

end Scan

/-- The join type that a text names from its start to its end. -/
def parse (text : String) : Except Fault JoinType :=
  match Scan.joinType text.toList with
  | some (t, []) => .ok t
  | _ => .error (.invalidJoinType text)

end JoinType

end QueryCompiler
