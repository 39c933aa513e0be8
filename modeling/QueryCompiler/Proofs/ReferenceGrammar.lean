import QueryCompiler.Proofs.Lexing
import QueryCompiler.Proofs.SyntaxTree

/-!
# The reference grammar

Levels run from the tightest, 1, to the loosest, 9; level 0 holds names, calls, parameters and what
stands in parentheses. The operators of a level either stand in front of their operand, chain from
left to right, or do not associate. `NOT` in front of `EXISTS` always belongs to `NOT EXISTS`.

`Reads b goal text trees rest` says that the front of `text` is read as `goal`, and that `rest`
remains. Nothing here looks at the ranks of the compiler.
-/
namespace QueryCompiler

/-- Where an operator stands among its operands. -/
inductive Form where
  /-- In front of its operand. -/
  | leading
  /-- Between two operands; chains associate to the left. -/
  | chained
  /-- Between two operands of a tighter level. -/
  | between
  /-- Behind its operand. -/
  | trailing
  /-- Between an operand and a list in parentheses. -/
  | listed
  deriving DecidableEq, Repr

structure Rule where
  name : String
  level : Nat
  form : Form
  deriving DecidableEq, Repr

namespace Rule

def all : List Rule :=
  [⟨"INTERVAL", 1, .leading⟩, ⟨"~", 1, .leading⟩,
    ⟨"*", 2, .chained⟩, ⟨"/", 2, .chained⟩, ⟨"%", 2, .chained⟩,
    ⟨"+", 3, .chained⟩, ⟨"-", 3, .chained⟩,
    ⟨"||", 4, .chained⟩,
    ⟨"<<", 5, .chained⟩, ⟨">>", 5, .chained⟩, ⟨"&", 5, .chained⟩, ⟨"|", 5, .chained⟩,
    ⟨"=", 6, .between⟩, ⟨"!=", 6, .between⟩, ⟨"<>", 6, .between⟩, ⟨"<", 6, .between⟩,
    ⟨"<=", 6, .between⟩, ⟨">", 6, .between⟩, ⟨">=", 6, .between⟩,
    ⟨"IS DISTINCT FROM", 6, .between⟩, ⟨"LIKE", 6, .between⟩, ⟨"NOT LIKE", 6, .between⟩,
    ⟨"REGEXP", 6, .between⟩, ⟨"IN", 6, .listed⟩, ⟨"NOT IN", 6, .listed⟩,
    ⟨"IS NULL", 6, .trailing⟩, ⟨"IS NOT NULL", 6, .trailing⟩, ⟨"IS TRUE", 6, .trailing⟩,
    ⟨"IS FALSE", 6, .trailing⟩,
    ⟨"NOT", 7, .leading⟩, ⟨"EXISTS", 7, .leading⟩, ⟨"NOT EXISTS", 7, .leading⟩,
    ⟨"AND", 8, .chained⟩,
    ⟨"OR", 9, .chained⟩]

/-- The loosest level. -/
def loosest : Nat := 9

end Rule

/-- The rules for the operators that a dialect has, with the words of its spelling. -/
def Builtin.rules (b : Builtin) : List (Rule × List Lexeme) :=
  Rule.all.filterMap fun rule => (b.dialect.operatorName rule.name).map fun spelled =>
    (rule, (Text.words (· == ' ') spelled).map Lexeme.key)

/-- `NOT` is not read where `NOT EXISTS` stands. -/
def Longest (words m : List Lexeme) : Prop :=
  words = [.key "NOT"] → m.head? ≠ some (.key "EXISTS")

/-- What a text is read as. -/
inductive Goal where
  /-- An expression of a level. -/
  | expr (level : Nat)
  /-- What follows the left operand on a level. -/
  | rest (level : Nat) (left : Tree)
  /-- The arguments of a call, with the closing parenthesis. -/
  | args
  /-- The items of a list that is not empty, with the closing parenthesis. -/
  | items

inductive Reads (b : Builtin) : Goal → List Lexeme → List Tree → List Lexeme → Prop
  | field {path : List String} {r : List Lexeme} :
      Reads b (.expr 0) (.name path :: r) [.field path] r
  | param {name : String} {r : List Lexeme} :
      Reads b (.expr 0) (.param name :: r) [.param name] r
  | call {path : List String} {i r : List Lexeme} {ts : List Tree} (h : Reads b .args i ts r) :
      Reads b (.expr 0) (.name path :: .opening :: i) [.call path ts] r
  | group {i r : List Lexeme} {t : Tree} (h : Reads b (.expr Rule.loosest) i [t] (.closing :: r)) :
      Reads b (.expr 0) (.opening :: i) [t] r
  | leading {rule : Rule} {words i m r : List Lexeme} {k : Nat} {t : Tree}
      (hrule : (rule, words) ∈ b.rules) (hform : rule.form = .leading) (hlevel : rule.level = k)
      (hwords : i = words ++ m) (hlong : Longest words m) (h : Reads b (.expr k) m [t] r) :
      Reads b (.expr k) i [.op rule.name [t]] r
  | tighter {i m r : List Lexeme} {k : Nat} {t : Tree} {ts : List Tree}
      (h : Reads b (.expr k) i [t] m) (hrest : Reads b (.rest (k + 1) t) m ts r) :
      Reads b (.expr (k + 1)) i ts r
  | stop {k : Nat} {t : Tree} {r : List Lexeme} : Reads b (.rest k t) r [t] r
  | chained {rule : Rule} {words i m n r : List Lexeme} {k : Nat} {t u : Tree} {ts : List Tree}
      (hrule : (rule, words) ∈ b.rules) (hform : rule.form = .chained) (hlevel : rule.level = k + 1)
      (hwords : i = words ++ m) (h : Reads b (.expr k) m [u] n)
      (hrest : Reads b (.rest (k + 1) (.op rule.name [t, u])) n ts r) :
      Reads b (.rest (k + 1) t) i ts r
  | between {rule : Rule} {words i m r : List Lexeme} {k : Nat} {t u : Tree}
      (hrule : (rule, words) ∈ b.rules) (hform : rule.form = .between) (hlevel : rule.level = k + 1)
      (hwords : i = words ++ m) (h : Reads b (.expr k) m [u] r) :
      Reads b (.rest (k + 1) t) i [.op rule.name [t, u]] r
  | trailing {rule : Rule} {words i r : List Lexeme} {k : Nat} {t : Tree}
      (hrule : (rule, words) ∈ b.rules) (hform : rule.form = .trailing) (hlevel : rule.level = k)
      (hwords : i = words ++ r) : Reads b (.rest k t) i [.op rule.name [t]] r
  | listed {rule : Rule} {words i m r : List Lexeme} {k : Nat} {t : Tree} {ts : List Tree}
      (hrule : (rule, words) ∈ b.rules) (hform : rule.form = .listed) (hlevel : rule.level = k)
      (hwords : i = words ++ .opening :: m) (h : Reads b .items m ts r) :
      Reads b (.rest k t) i [.op rule.name (t :: ts)] r
  | noArgs {r : List Lexeme} : Reads b .args (.closing :: r) [] r
  | someArgs {i r : List Lexeme} {ts : List Tree} (h : Reads b .items i ts r) :
      Reads b .args i ts r
  | last {i r : List Lexeme} {t : Tree} (h : Reads b (.expr Rule.loosest) i [t] (.closing :: r)) :
      Reads b .items i [t] r
  | more {i m r : List Lexeme} {t : Tree} {ts : List Tree}
      (h : Reads b (.expr Rule.loosest) i [t] (.comma :: m)) (hrest : Reads b .items m ts r) :
      Reads b .items i (t :: ts) r

/-- A text as a whole is read as a tree. -/
def Builtin.ReadsText (b : Builtin) (text : String) (t : Tree) : Prop :=
  Reads b (.expr Rule.loosest) (Lexeme.ofText text) [t] []

end QueryCompiler
