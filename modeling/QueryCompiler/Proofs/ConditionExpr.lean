import QueryCompiler.Proofs.ConditionGrammar
import QueryCompiler.Proofs.NameReading
import QueryCompiler.Query.Expr

/-!
# Conditions

Expressions of constants, connectives, negations, tests for membership in empty lists, fields and
comparisons of fields, and the values that they have before anything is folded.
-/
namespace QueryCompiler

/-- The comparisons that are written between their operands. -/
def comparisonNames : List String :=
  ["=", "!=", "<>", "<", "<=", ">", ">=", "IS DISTINCT FROM", "LIKE", "NOT LIKE", "REGEXP"]

/-- What an operator of conditions makes of the values of its operands. Nothing is a member of an
empty list, not even a missing value. -/
def Operator.meaning? (name : String) (operands : List Truth) : Option Truth :=
  match name, operands with
  | "AND", ts => some (Connective.conj.all ts)
  | "OR", ts => some (Connective.disj.all ts)
  | "NOT", [t] => some t.not
  | "TRUE", [] => some .yes
  | "FALSE", [] => some .no
  | "IN", [_] => some .no
  | "NOT IN", [_] => some .yes
  | _, _ => none

/-- A field that is named by identifiers and not written like a word of an operator. -/
structure Builtin.PlainField (b : Builtin) (scope : Scope) (name : String) : Prop where
  identifiers : (Text.dotParts name).all Text.isIdentifier = true
  written : isOperatorWord (b.dialect.fieldName scope name) = false

namespace Expr

variable {ν : Type} (b : Builtin) (scope : Scope)

/-- What a field or a comparison of fields asks of a row. -/
def atom? : Expr ν → Option Atom
  | field name _ => some (.field (b.fieldPath scope name))
  | op name [field left _, field right _] =>
    some (.comparison (Operator.canonical name) (b.fieldPath scope left) (b.fieldPath scope right))
  | _ => none

mutual
/-- The value of a condition, given those of its atoms. Other expressions have none. -/
def value (v : Atom → Truth) : Expr ν → Truth
  | literal (.bool value) => .ofBool value
  | field name label => ((field name label : Expr ν).atom? b scope).elim .unknown v
  | op name operands =>
    (Operator.meaning? (Operator.canonical name) (values v operands)).getD
      (((op name operands).atom? b scope).elim .unknown v)
  | _ => .unknown

def values (v : Atom → Truth) : List (Expr ν) → List Truth
  | [] => []
  | e :: rest => value v e :: values v rest
end

theorem values_eq_map (v : Atom → Truth) (es : List (Expr ν)) :
    values b scope v es = es.map (value b scope v) := by
  induction es with
  | nil => rfl
  | cons e rest ih => rw [values, ih, List.map_cons]

/-- Conditions in a scope. -/
inductive IsCondition : Expr ν → Prop
  | literal {value : Bool} : IsCondition (.literal (.bool value))
  | keyword {name : String} {value : Bool} (h : Operator.canonical name = boolWord value) :
      IsCondition (.op name [])
  | field {name : String} {label : Option String} (h : b.PlainField scope name) :
      IsCondition (.field name label)
  | comparison {name left right : String} {l r : Option String}
      (h : Operator.canonical name ∈ comparisonNames) (hleft : b.PlainField scope left)
      (hright : b.PlainField scope right) : IsCondition (.op name [.field left l, .field right r])
  | neg {name : String} {operand : Expr ν} (h : Operator.canonical name = "NOT")
      (hoperand : IsCondition operand) : IsCondition (.op name [operand])
  | joined {name : String} {c : Connective} {operands : List (Expr ν)}
      (h : Operator.canonical name = c.word) (hall : ∀ e ∈ operands, IsCondition e) :
      IsCondition (.op name operands)
  | member {name : String} {subject : Expr ν} (h : Operator.canonical name ∈ ["IN", "NOT IN"]) :
      IsCondition (.op name [subject])

/-- Expressions with a part that the compiler refuses: the field `AS`, or an operator that the
dialect does not have. -/
inductive Unwritable : Expr ν → Prop
  | field {name : String} {label : Option String} (h : Field.isAs name = true) :
      Unwritable (.field name label)
  | operator {name : String} {operands : List (Expr ν)}
      (h : b.dialect.operatorName (Operator.canonical name) = none) : Unwritable (.op name operands)
  | operand {name : String} {operands : List (Expr ν)} {e : Expr ν} (he : e ∈ operands)
      (h : Unwritable e) : Unwritable (.op name operands)

variable {b scope}

theorem value_joined {name : String} {c : Connective} (h : Operator.canonical name = c.word)
    (v : Atom → Truth) (operands : List (Expr ν)) :
    (op name operands).value b scope v = c.all (operands.map (value b scope v)) := by
  rw [value, values_eq_map, h]
  cases c <;> rfl

theorem value_neg {name : String} (h : Operator.canonical name = "NOT") (v : Atom → Truth)
    (operand : Expr ν) :
    (op name [operand]).value b scope v = (operand.value b scope v).not := by
  rw [value, h]
  rfl

theorem value_keyword {name : String} {truth : Bool} (h : Operator.canonical name = boolWord truth)
    (v : Atom → Truth) : (op name [] : Expr ν).value b scope v = .ofBool truth := by
  rw [value, h]
  cases truth <;> rfl

theorem value_member {name : String} (h : Operator.canonical name ∈ ["IN", "NOT IN"])
    (v : Atom → Truth) (subject : Expr ν) :
    (op name [subject]).value b scope v = .ofBool (Operator.canonical name == "NOT IN") := by
  rw [value]
  generalize Operator.canonical name = word at h
  obtain rfl | rfl : word = "IN" ∨ word = "NOT IN" := by simpa using h
  · rfl
  · rfl

theorem value_comparison {name left right : String} {l r : Option String}
    (h : Operator.canonical name ∈ comparisonNames) (v : Atom → Truth) :
    (op name [field left l, field right r] : Expr ν).value b scope v =
      v (.comparison (Operator.canonical name) (b.fieldPath scope left)
        (b.fieldPath scope right)) := by
  have hnone : ∀ word ∈ comparisonNames, ∀ t u, Operator.meaning? word [t, u] = none := by
    intro word hword t u
    simp only [comparisonNames, List.mem_cons, List.not_mem_nil, or_false] at hword
    obtain rfl | rfl | rfl | rfl | rfl | rfl | rfl | rfl | rfl | rfl | rfl := hword <;> rfl
  rw [value, values, values, values, hnone _ h]
  rfl

end Expr

end QueryCompiler
