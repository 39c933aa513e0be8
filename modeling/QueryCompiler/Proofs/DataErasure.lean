import QueryCompiler.Proofs.Revision

/-!
# Queries without their data

Erasing puts the empty text in the place of every value that becomes a parameter: strings that are
not SQL already, the values compared in the shorthand, and the values of an inserted row. Lists
keep their lengths and nulls in the shorthand stay, because these decide what is written. Two
queries are the same up to their data when they are equal once it is erased.
-/
namespace QueryCompiler

/-- A string in an expression that is neither a placeholder nor starts like SQL. -/
def isDataText (s : String) : Bool :=
  s != "?" && !Text.isNamedPlaceholder s && !Text.startsWithAny ['\'', '('] s

def Value.erased : Value := .text ""

/-- A literal of an expression without its data. -/
def Value.withoutData : Value → Value
  | .text s => if isDataText s then erased else .text s
  | v => v

variable {ν μ : Type}

def FieldValue.withoutData : FieldValue ν → FieldValue ν
  | null => null
  | value .null => value .null
  | value _ => value Value.erased
  | list items => list (items.map fun _ => Value.erased)
  | subquery q => subquery q

namespace Expr

mutual
def withoutData : Expr ν → Expr ν
  | literal v => literal v.withoutData
  | field name label => field name label
  | param name => param name
  | op name operands => op name (allWithoutData operands)
  | call name args => call name (allWithoutData args)
  | subquery q => subquery q
  | shorthand pairs => shorthand (pairs.map fun (name, v) => (name, v.withoutData))

def allWithoutData : List (Expr ν) → List (Expr ν)
  | [] => []
  | e :: rest => withoutData e :: allWithoutData rest
end

theorem allWithoutData_eq_map (es : List (Expr ν)) :
    allWithoutData es = es.map withoutData := by
  induction es with
  | nil => rfl
  | cons e rest ih => rw [allWithoutData, ih, List.map_cons]

end Expr

def JoinCondition.withoutData : JoinCondition ν → JoinCondition ν
  | expr e => expr e.withoutData
  | fields pairs => fields pairs

def Join.withoutData (join : Join ν) : Join ν :=
  { join with condition := join.condition.map JoinCondition.withoutData }

def Order.withoutData (order : Order ν) : Order ν := { order with expr := order.expr.withoutData }

def SelectItem.withoutData (item : SelectItem ν) : SelectItem ν :=
  { item with expr := item.expr.withoutData }

/-- A named expression without its data. -/
def pairWithoutData (pair : String × Expr ν) : String × Expr ν := (pair.1, pair.2.withoutData)

def InsertSource.withoutData : InsertSource ν → InsertSource ν
  | exprs pairs => exprs (pairs.map pairWithoutData)
  | values pairs => values (pairs.map fun (name, _) => (name, Value.erased))
  | rows fields lines => rows fields lines
  | select fields q => select fields q

def Statement.withoutData (s : Statement ν) : Statement ν :=
  { s with
    fields := s.fields.map SelectItem.withoutData
    joins := s.joins.map Join.withoutData
    filter := s.filter.map Expr.withoutData
    groups := s.groups.map Expr.withoutData
    having := s.having.map Expr.withoutData
    orders := s.orders.map Order.withoutData
    source := s.source.map InsertSource.withoutData
    assignments := s.assignments.map pairWithoutData }

/-- A query whose data is erased at every depth. -/
def Query.withoutData : Query → Query :=
  fold fun dialect bound s => mk dialect bound s.withoutData

/-! To erase the data is to revise a query. -/

/-- The revision that erases data. -/
def Revision.erasing : Revision := ⟨Value.withoutData, fun _ => none, fun _ => Value.erased⟩

theorem FieldValue.withoutData_eq (v : FieldValue ν) : v.withoutData = v.revise .erasing := by
  match v with
  | null | value .null | list _ | subquery _ => rfl
  | value (.bool _) | value (.int _) | value (.float _) | value (.text _) => rfl

theorem Expr.withoutData_eq (e : Expr ν) : e.withoutData = e.revise .erasing := by
  induction e using Expr.induct with
  | literal | field | param | subquery => rfl
  | op name operands ih | call name operands ih =>
      simp only [withoutData, revise, allWithoutData_eq_map, reviseAll_eq_map]
      congr 1
      exact List.map_congr_left ih
  | shorthand pairs => simp [withoutData, revise, FieldValue.withoutData_eq]

theorem JoinCondition.withoutData_eq (condition : JoinCondition ν) :
    condition.withoutData = condition.revise .erasing := by
  cases condition <;> simp [withoutData, revise, Expr.withoutData_eq]

theorem SelectItem.withoutData_eq (item : SelectItem ν) :
    item.withoutData = item.revise .erasing := by
  rw [withoutData, revise, Expr.withoutData_eq]

theorem InsertSource.withoutData_eq (source : InsertSource ν) :
    source.withoutData = source.revise .erasing := by
  cases source <;>
    simp [withoutData, revise, pairWithoutData, revisePair, Expr.withoutData_eq, Revision.erasing]

theorem Statement.withoutData_eq (s : Statement ν) : s.withoutData = s.revise .erasing := by
  have hexpr : @Expr.withoutData ν = Expr.revise .erasing := funext Expr.withoutData_eq
  have hcondition : @JoinCondition.withoutData ν = JoinCondition.revise .erasing :=
    funext JoinCondition.withoutData_eq
  have hsource : @InsertSource.withoutData ν = InsertSource.revise .erasing :=
    funext InsertSource.withoutData_eq
  simp [withoutData, revise, SelectItem.withoutData, SelectItem.revise, Join.withoutData,
    Join.revise, Order.withoutData, Order.revise, pairWithoutData, revisePair, hexpr, hcondition,
    hsource]

theorem Statement.withoutData_map (g : ν → μ) (s : Statement ν) :
    (s.map g).withoutData = s.withoutData.map g := by
  rw [withoutData_eq, withoutData_eq, revise_map]

namespace Query

theorem withoutData_eq (q : Query) :
    q.withoutData = mk q.dialect q.bound (q.statement.map withoutData).withoutData :=
  fold_eq _ q

theorem withoutData_eq_revise (q : Query) : q.withoutData = q.revise .erasing := by
  simp only [withoutData, revise, Statement.withoutData_eq]

theorem bound_withoutData (q : Query) : q.withoutData.bound = q.bound := by
  rw [withoutData_eq_revise, bound_revise]

theorem nestedBags_withoutData (q : Query) : q.withoutData.nestedBags = q.nestedBags := by
  rw [withoutData_eq_revise, nestedBags_revise]

end Query

end QueryCompiler
