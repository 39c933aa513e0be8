import QueryCompiler.Proofs.NameReading
import QueryCompiler.Proofs.SyntaxTree
import QueryCompiler.Query.Expr

/-!
# Readable expressions

Expressions of fields, parameters, calls and operators that a dialect has, and the trees that they
stand for. Both what makes an expression readable and what makes the compiler refuse it can be
decided.
-/
namespace QueryCompiler

/-- The numbers of operands for which the compiler writes an operator in its own place. -/
def Operator.Takes (op : Operator) (count : Nat) : Prop :=
  match op.arity with
  | .unaryPrefix | .unaryPostfix => count = 1
  | .binary => count = 2
  | .variadic => 1 ≤ count
  | .inList => 2 ≤ count
  | .nullary | .ternary | .vendor => False

instance (op : Operator) (count : Nat) : Decidable (op.Takes count) := by
  unfold Operator.Takes
  split <;> infer_instance

theorem Operator.not_takes_zero (op : Operator) : ¬ op.Takes 0 := by
  unfold Takes
  split <;> simp

namespace Expr

variable {ν : Type}

/-- Expressions of fields, parameters, calls and operators that a dialect has. Neither fields nor
functions are named like words of operators. -/
inductive Readable (b : Builtin) : Expr ν → Prop
  | field {name : String} {label : Option String} (h : Text.isIdentifier name = true)
      (hword : isOperatorWord name = false) : Readable b (.field name label)
  | param {name : String} : Readable b (.param name)
  | call {name : String} {args : List (Expr ν)} (hword : isOperatorWord name = false)
      (h : ∀ e ∈ args, Readable b e) : Readable b (.call name args)
  | op {name : String} {op : Operator} {operands : List (Expr ν)}
      (hop : Operator.find? name = some op) (hname : (b.dialect.operatorName op.name).isSome = true)
      (htakes : op.Takes operands.length) (h : ∀ e ∈ operands, Readable b e) :
      Readable b (.op name operands)

/-- Expressions with a name that the compiler refuses: the field `AS`, or a parameter or function
whose name is no identifier. -/
inductive Refused : Expr ν → Prop
  | field {name : String} {label : Option String} (h : Field.isAs name = true) :
      Refused (.field name label)
  | param {name : String} (h : Text.isIdentifier name = false) : Refused (.param name)
  | call {name : String} {args : List (Expr ν)}
      (h : (Text.dotParts name).all Text.isIdentifier = false) : Refused (.call name args)
  | argument {name : String} {args : List (Expr ν)} {e : Expr ν} (he : e ∈ args) (h : Refused e) :
      Refused (.call name args)
  | operand {name : String} {operands : List (Expr ν)} {e : Expr ν} (he : e ∈ operands)
      (h : Refused e) : Refused (.op name operands)

mutual
def decidableReadable (b : Builtin) : (e : Expr ν) → Decidable (e.Readable b)
  | field name _ =>
    decidable_of_iff (Text.isIdentifier name = true ∧ isOperatorWord name = false)
      ⟨fun h => .field h.1 h.2, fun | .field h hword => ⟨h, hword⟩⟩
  | param _ => isTrue .param
  | call name args =>
    have := decidableAllReadable b args
    decidable_of_iff (isOperatorWord name = false ∧ ∀ e ∈ args, e.Readable b)
      ⟨fun h => .call h.1 h.2, fun | .call hword h => ⟨hword, h⟩⟩
  | op name operands =>
    have := decidableAllReadable b operands
    match hop : Operator.find? name with
    | none => isFalse fun | .op hop' _ _ _ => nomatch hop.symm.trans hop'
    | some found =>
      decidable_of_iff ((b.dialect.operatorName found.name).isSome = true ∧
          found.Takes operands.length ∧ ∀ e ∈ operands, e.Readable b)
        ⟨fun h => .op hop h.1 h.2.1 h.2.2, fun
          | .op hop' hname htakes h => by
            obtain rfl := Option.some.inj (hop.symm.trans hop')
            exact ⟨hname, htakes, h⟩⟩
  | literal _ => isFalse nofun
  | subquery _ => isFalse nofun
  | shorthand _ => isFalse nofun

def decidableAllReadable (b : Builtin) : (es : List (Expr ν)) → Decidable (∀ e ∈ es, e.Readable b)
  | [] => isTrue (List.forall_mem_nil _)
  | e :: rest =>
    have := decidableReadable b e
    have := decidableAllReadable b rest
    decidable_of_iff (e.Readable b ∧ ∀ e ∈ rest, e.Readable b) List.forall_mem_cons.symm
end

instance (b : Builtin) (e : Expr ν) : Decidable (e.Readable b) := decidableReadable b e

mutual
def decidableRefused : (e : Expr ν) → Decidable e.Refused
  | field name _ =>
    decidable_of_iff (Field.isAs name = true) ⟨.field, fun | .field h => h⟩
  | param name =>
    decidable_of_iff (Text.isIdentifier name = false) ⟨.param, fun | .param h => h⟩
  | call name args =>
    have := decidableSomeRefused args
    decidable_of_iff ((Text.dotParts name).all Text.isIdentifier = false ∨ ∃ e ∈ args, e.Refused)
      ⟨fun | .inl h => .call h | .inr ⟨_, he, h⟩ => .argument he h,
        fun | .call h => .inl h | .argument he h => .inr ⟨_, he, h⟩⟩
  | op _ operands =>
    have := decidableSomeRefused operands
    decidable_of_iff (∃ e ∈ operands, e.Refused)
      ⟨fun ⟨_, he, h⟩ => .operand he h, fun | .operand he h => ⟨_, he, h⟩⟩
  | literal _ => isFalse nofun
  | subquery _ => isFalse nofun
  | shorthand _ => isFalse nofun

def decidableSomeRefused : (es : List (Expr ν)) → Decidable (∃ e ∈ es, e.Refused)
  | [] => isFalse nofun
  | e :: rest =>
    have := decidableRefused e
    have := decidableSomeRefused rest
    decidable_of_iff (e.Refused ∨ ∃ e ∈ rest, e.Refused) (by simp)
end

instance (e : Expr ν) : Decidable e.Refused := decidableRefused e

mutual
/-- The tree of an expression in a scope. Literals, nested queries and shorthands, which are not
readable, have none of their own. -/
def tree (b : Builtin) (scope : Scope) : Expr ν → Tree
  | field name _ => .field (b.path scope name)
  | param name => .param name
  | call name args => .call (Text.dotParts name.toUpper) (trees b scope args)
  | op name operands => .op (Operator.canonical name) (trees b scope operands)
  | literal _ => .field []
  | subquery _ => .field []
  | shorthand _ => .field []

def trees (b : Builtin) (scope : Scope) : List (Expr ν) → List Tree
  | [] => []
  | e :: rest => tree b scope e :: trees b scope rest
end

theorem trees_eq_map (b : Builtin) (scope : Scope) (es : List (Expr ν)) :
    trees b scope es = es.map (tree b scope) := by
  induction es with
  | nil => rfl
  | cons e rest ih => rw [trees, ih, List.map_cons]

end Expr

end QueryCompiler
