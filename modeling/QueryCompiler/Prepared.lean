import QueryCompiler.Dialect.Basic
import QueryCompiler.Param.Bag
import QueryCompiler.Text.Identifier

/-!
# Prepared statements

Compiled SQL names its parameters `:name` or leaves them as `?`; drivers want the placeholders of
the dialect. Outside quotes every mark is replaced by the next placeholder and the name it stood
for is noted. A `?` stands for the number of `?` marks so far, and `::` is a cast.
-/
namespace QueryCompiler

/-- A piece of SQL text: characters that stay, or a mark for a parameter. -/
inductive Piece where
  | char (c : Char)
  | named (name : String)
  | positional
  deriving DecidableEq, Repr

namespace Piece

/-- Cut a text into pieces. `quote` is the quote that is open, and `skip` counts the characters
that belong to the piece before. -/
def scan (quote : Option Char) (skip : Nat) : List Char → List Piece
  | [] => []
  | c :: rest =>
    match skip with
    | skip + 1 => scan quote skip rest
    | 0 =>
      match quote with
      | some _ => char c :: scan (Text.openQuote quote c) 0 rest
      | none =>
        if c = '?' then positional :: scan none 0 rest
        else if c = ':' then
          match rest with
          | ':' :: _ => char ':' :: char ':' :: scan none 1 rest
          | d :: _ =>
            if Text.isIdentifierStart d then
              let name := rest.takeWhile Text.isIdentifierPart
              named (String.ofList name) :: scan none name.length rest
            else char c :: scan none 0 rest
          | [] => [char c]
        else char c :: scan (Text.openQuote none c) 0 rest

/-- The pieces of a text that starts outside quotes. -/
def ofText (sql : String) : List Piece := scan none 0 sql.toList

end Piece

/-- SQL in the placeholders of a dialect, the names they stand for, and the values to send. -/
structure Prepared where
  sql : String
  names : List String
  values : List Value
  deriving Repr

namespace Prepared

/-- Write pieces out, given how many placeholders and `?` marks came before. -/
def write (placeholder : Nat → String) (count marks : Nat) : List Piece → List String × List String
  | [] => ([], [])
  | .char c :: rest =>
    let (texts, names) := write placeholder count marks rest
    (c.toString :: texts, names)
  | .named name :: rest =>
    let (texts, names) := write placeholder (count + 1) marks rest
    (placeholder (count + 1) :: texts, name :: names)
  | .positional :: rest =>
    let (texts, names) := write placeholder (count + 1) (marks + 1) rest
    (placeholder (count + 1) :: texts, toString (marks + 1) :: names)

def prepare (d : Dialect) (sql : String) : Prepared :=
  let (texts, names) := write d.placeholder 0 0 (Piece.ofText sql)
  ⟨String.join texts, names, []⟩

def valueOf (params : Bag) (name : String) : Except Fault Value :=
  match params.get? name with
  | some v => .ok v
  | none => .error (.missingParam name)

/-- Find the value of every placeholder, in their order. -/
def bind (p : Prepared) (params : Bag) : Except Fault Prepared := do
  return { p with values := ← p.names.mapM (valueOf params) }

end Prepared

end QueryCompiler
