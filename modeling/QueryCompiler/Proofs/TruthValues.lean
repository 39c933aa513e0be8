/-!
# Truth values of conditions

A condition on rows with missing values is false, unknown or true. Conjunction and disjunction are
those of Kleene: each has a value it does without, and the other constant decides it whatever else
it joins.
-/
namespace QueryCompiler

inductive Truth where
  | no
  | unknown
  | yes
  deriving DecidableEq, Repr

namespace Truth

def ofBool : Bool → Truth
  | false => no
  | true => yes

def not : Truth → Truth
  | no => yes
  | unknown => unknown
  | yes => no

def and : Truth → Truth → Truth
  | no, _ => no
  | _, no => no
  | yes, t => t
  | unknown, _ => unknown

def or : Truth → Truth → Truth
  | yes, _ => yes
  | _, yes => yes
  | no, t => t
  | unknown, _ => unknown

end Truth

/-- The operators that join conditions. -/
inductive Connective where
  | conj
  | disj
  deriving DecidableEq, Repr

namespace Connective

def word : Connective → String
  | conj => "AND"
  | disj => "OR"

def join : Connective → Truth → Truth → Truth
  | conj => Truth.and
  | disj => Truth.or

/-- The constant that a connective does without, which is what it makes of no operands. -/
def unit : Connective → Bool
  | conj => true
  | disj => false

/-- What a connective makes of the values of its operands. -/
def all (c : Connective) (ts : List Truth) : Truth := ts.foldr c.join (.ofBool c.unit)

variable (c : Connective) (t u w : Truth)

@[simp] theorem unit_join : c.join (.ofBool c.unit) t = t := by
  cases c <;> cases t <;> rfl

@[simp] theorem join_unit : c.join t (.ofBool c.unit) = t := by
  cases c <;> cases t <;> rfl

/-- The constant that is not the unit decides. -/
@[simp] theorem decided_join : c.join (.ofBool !c.unit) t = .ofBool !c.unit := by
  cases c <;> cases t <;> rfl

@[simp] theorem join_decided : c.join t (.ofBool !c.unit) = .ofBool !c.unit := by
  cases c <;> cases t <;> rfl

theorem join_assoc : c.join (c.join t u) w = c.join t (c.join u w) := by
  cases c <;> cases t <;> cases u <;> cases w <;> rfl

@[simp] theorem all_nil : c.all [] = .ofBool c.unit := rfl

@[simp] theorem all_cons (ts : List Truth) : c.all (t :: ts) = c.join t (c.all ts) := rfl

end Connective

end QueryCompiler
