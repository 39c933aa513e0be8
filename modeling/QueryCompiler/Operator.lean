import QueryCompiler.Sql
import QueryCompiler.Text.Blank
import QueryCompiler.Text.Parts

/-!
# The operator table

Operators stand in the table from the tightest to the loosest, and the place of an operator is its
rank. An operand is written for a context, the rank of what surrounds it, and is parenthesized
exactly when its own rank is looser than that.
-/
namespace QueryCompiler

/-- How many operands an operator takes and how it is written among them. -/
inductive Arity where
  | nullary
  | unaryPrefix
  | unaryPostfix
  | binary
  | variadic
  | ternary
  | inList
  | vendor
  deriving DecidableEq, Repr

namespace Arity

def label : Arity → String
  | nullary => "nullary"
  | unaryPrefix => "prefix"
  | unaryPostfix => "postfix"
  | binary => "binary"
  | variadic => "variadic"
  | ternary => "ternary"
  | inList => "in-list"
  | vendor => "custom"

def expected : Arity → String
  | nullary => "0"
  | unaryPrefix => "1"
  | unaryPostfix => "1"
  | binary => "2"
  | variadic => "any number of"
  | ternary => "3"
  | inList => "at least 1"
  | vendor => "dialect-defined"

def accepts : Arity → Nat → Bool
  | nullary, n => n == 0
  | unaryPrefix, n => n == 1
  | unaryPostfix, n => n == 1
  | binary, n => n == 2
  | variadic, _ => true
  | ternary, n => n == 3
  | inList, n => 1 ≤ n
  | vendor, _ => true

end Arity

structure Operator where
  name : String
  arity : Arity
  rank : Nat
  deriving DecidableEq, Repr

namespace Operator

def table : List (String × Arity) :=
  [("NULL", .nullary), ("TRUE", .nullary), ("FALSE", .nullary), ("CURRENT_TIMESTAMP", .nullary),
    ("CURRENT_DATE", .nullary), ("CURRENT_TIME", .nullary),
    ("INTERVAL", .unaryPrefix), ("~", .unaryPrefix),
    ("*", .variadic), ("/", .binary), ("%", .binary),
    ("+", .variadic), ("-", .binary),
    ("||", .variadic),
    ("<<", .binary), (">>", .binary), ("&", .binary), ("|", .binary),
    ("=", .binary), ("!=", .binary), ("<>", .binary), ("<", .binary), ("<=", .binary),
    (">", .binary), (">=", .binary), ("IS DISTINCT FROM", .binary), ("LIKE", .binary),
    ("NOT LIKE", .binary), ("ILIKE", .vendor), ("REGEXP", .binary),
    ("IN", .inList), ("NOT IN", .inList), ("BETWEEN", .ternary), ("NOT BETWEEN", .ternary),
    ("IS NULL", .unaryPostfix), ("IS NOT NULL", .unaryPostfix), ("IS TRUE", .unaryPostfix),
    ("IS FALSE", .unaryPostfix),
    ("NOT", .unaryPrefix), ("EXISTS", .unaryPrefix), ("NOT EXISTS", .unaryPrefix),
    ("AND", .variadic), ("OR", .variadic),
    ("CASE", .vendor)]

def numberFrom : Nat → List (String × Arity) → List Operator
  | _, [] => []
  | rank, (name, arity) :: rest => ⟨name, arity, rank⟩ :: numberFrom (rank + 1) rest

def all : List Operator := numberFrom 0 table

/-- A context in which nothing needs parentheses. -/
def loosest : Nat := table.length

/-- The spelling under which an operator is looked up: upper case, single blanks. -/
def canonical (name : String) : String :=
  " ".intercalate ((Text.words Text.isBlank name).map String.toUpper)

def find? (name : String) : Option Operator :=
  let wanted := canonical name
  all.find? (·.name == wanted)

theorem find?_eq_some {name : String} {op : Operator} (h : find? name = some op) :
    op ∈ all ∧ canonical name = op.name := by
  rw [find?] at h
  have hname := List.find?_some h
  exact ⟨List.mem_of_find?_eq_some h, (beq_iff_eq.mp hname).symm⟩

/-- What a variadic operator means without operands. -/
def identity? (name : String) : Option String :=
  match name with
  | "AND" => some "TRUE"
  | "OR" => some "FALSE"
  | "+" => some "0"
  | "*" => some "1"
  | "||" => some "''"
  | _ => none

def rankOf? (name : String) : Option Nat := (find? name).map Operator.rank

/-- The first operators of the tiers within which operators bind equally tight. -/
def tierHeads : List String :=
  ["*", "+", "||", "<<", "=", "IN", "IS NULL", "NOT", "AND", "OR", "CASE"]

/-- The rank at which the tier of a rank starts. -/
def tierStart (rank : Nat) : Nat :=
  ((tierHeads.filterMap rankOf?).filter (· ≤ rank)).foldl max 0

/-- The context of a left operand: comparisons and predicates do not associate, so on their left
all of them need parentheses. -/
def leftContext (rank : Nat) : Nat :=
  match rankOf? "=", rankOf? "IS FALSE" with
  | some first, some last => if first ≤ rank ∧ rank ≤ last then first - 1 else rank
  | _, _ => rank

/-- The context of a right operand: the operators of a tier associate to the left. -/
def rightContext (rank : Nat) : Nat := tierStart rank - 1

/-- Parenthesize what binds looser than its context. -/
def wrap (rank context : Nat) (sql : Sql) : Sql :=
  if context < rank then "(" ++ sql ++ ")" else sql

end Operator

end QueryCompiler
