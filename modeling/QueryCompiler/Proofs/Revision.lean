import QueryCompiler.Proofs.Nesting

/-!
# Queries with other values

A revision puts other values in the place of those of a query. Everything else stays: the clauses
and their items, the names, and which queries are nested where.
-/
namespace QueryCompiler

/-- What becomes of the literals of a query, of its parameters, some of which turn into literals,
and of the values that are compared in the shorthand or inserted. -/
structure Revision where
  literal : Value → Value
  param : String → Option Value
  data : Value → Value

variable {ν μ : Type} (r : Revision)

/-- The test for null is not a comparison with a value. -/
def FieldValue.revise : FieldValue ν → FieldValue ν
  | null => null
  | value .null => value .null
  | value v => value (r.data v)
  | list items => list (items.map r.data)
  | subquery q => subquery q

namespace Expr

mutual
def revise : Expr ν → Expr ν
  | literal v => literal (r.literal v)
  | field name label => field name label
  | param name =>
    match r.param name with
    | some v => literal v
    | none => param name
  | op name operands => op name (reviseAll operands)
  | call name args => call name (reviseAll args)
  | subquery q => subquery q
  | shorthand pairs => shorthand (pairs.map fun (name, v) => (name, v.revise r))

def reviseAll : List (Expr ν) → List (Expr ν)
  | [] => []
  | e :: rest => revise e :: reviseAll rest
end

theorem reviseAll_eq_map (es : List (Expr ν)) : reviseAll r es = es.map (revise r) := by
  induction es with
  | nil => rfl
  | cons e rest ih => rw [reviseAll, ih, List.map_cons]

end Expr

def JoinCondition.revise : JoinCondition ν → JoinCondition ν
  | expr e => expr (e.revise r)
  | fields pairs => fields pairs

def Join.revise (join : Join ν) : Join ν :=
  { join with condition := join.condition.map (JoinCondition.revise r) }

def Order.revise (order : Order ν) : Order ν := { order with expr := order.expr.revise r }

def SelectItem.revise (item : SelectItem ν) : SelectItem ν :=
  { item with expr := item.expr.revise r }

/-- A named expression with other values. -/
def revisePair (pair : String × Expr ν) : String × Expr ν := (pair.1, pair.2.revise r)

def InsertSource.revise : InsertSource ν → InsertSource ν
  | exprs pairs => exprs (pairs.map (revisePair r))
  | values pairs => values (pairs.map fun (name, v) => (name, r.data v))
  | rows fields lines => rows fields lines
  | select fields q => select fields q

def Statement.revise (s : Statement ν) : Statement ν :=
  { s with
    fields := s.fields.map (SelectItem.revise r)
    joins := s.joins.map (Join.revise r)
    filter := s.filter.map (Expr.revise r)
    groups := s.groups.map (Expr.revise r)
    having := s.having.map (Expr.revise r)
    orders := s.orders.map (Order.revise r)
    source := s.source.map (InsertSource.revise r)
    assignments := s.assignments.map (revisePair r) }

/-- A query that is revised at every depth. -/
def Query.revise : Query → Query :=
  fold fun dialect bound s => mk dialect bound (s.revise r)

/-! The revision that leaves every value as it is. -/

/-- Nothing becomes another value. -/
def Revision.unchanged : Revision := ⟨id, fun _ => none, id⟩

theorem FieldValue.revise_self {r : Revision} (h : ∀ v, r.data v = v) (v : FieldValue ν) :
    v.revise r = v := by
  match v with
  | null | value .null | subquery _ => rfl
  | value (.bool _) | value (.int _) | value (.float _) | value (.text _) => simp [revise, h]
  | list items => simp [revise, funext h]

theorem Expr.revise_unchanged (e : Expr ν) : e.revise .unchanged = e := by
  induction e using Expr.induct with
  | literal | field | param | subquery => rfl
  | op name operands ih | call name operands ih =>
      simp only [revise, reviseAll_eq_map]
      congr 1
      exact listMap_self ih
  | shorthand pairs => simp [revise, @FieldValue.revise_self _ .unchanged fun _ => rfl]

theorem Statement.revise_unchanged (s : Statement ν) : s.revise .unchanged = s := by
  have hpair : ∀ pair : String × Expr ν, revisePair .unchanged pair = pair := fun pair => by
    rw [revisePair, Expr.revise_unchanged]
  have hcondition : ∀ condition : JoinCondition ν, condition.revise .unchanged = condition := by
    intro condition
    cases condition <;> simp [JoinCondition.revise, Expr.revise_unchanged]
  have hjoin : ∀ join : Join ν, join.revise .unchanged = join := fun join => by
    rw [Join.revise, optionMap_self fun condition _ => hcondition condition]
  have hsource : ∀ source : InsertSource ν, source.revise .unchanged = source := by
    intro source
    cases source with
    | exprs pairs => rw [InsertSource.revise, listMap_self fun pair _ => hpair pair]
    | values pairs => simp [InsertSource.revise, Revision.unchanged]
    | rows | select => rfl
  have hitem : ∀ item : SelectItem ν, item.revise .unchanged = item := fun item => by
    rw [SelectItem.revise, Expr.revise_unchanged]
  have horder : ∀ order : Order ν, order.revise .unchanged = order := fun order => by
    rw [Order.revise, Expr.revise_unchanged]
  rw [revise, listMap_self fun item _ => hitem item, listMap_self fun join _ => hjoin join,
    listMap_self fun order _ => horder order, listMap_self fun pair _ => hpair pair,
    listMap_self fun e _ => e.revise_unchanged, optionMap_self fun e _ => e.revise_unchanged,
    optionMap_self fun e _ => e.revise_unchanged, optionMap_self fun source _ => hsource source]

theorem Query.revise_unchanged (q : Query) : q.revise .unchanged = q := by
  induction q using Query.induct with
  | step q ih =>
      have hself : q.statement.map (revise .unchanged) = q.statement :=
        Statement.map_self fun inner hinner => ih inner hinner.mem_subqueries
      rw [revise, fold_eq, ← revise, hself, Statement.revise_unchanged]
      cases q
      rfl

/-! Values may be replaced before nested queries or after them. -/

theorem FieldValue.revise_map (g : ν → μ) (v : FieldValue ν) :
    (v.map g).revise r = (v.revise r).map g := by
  match v with
  | null | value .null | list _ | subquery _ => rfl
  | value (.bool _) | value (.int _) | value (.float _) | value (.text _) => rfl

theorem Expr.revise_map (g : ν → μ) (e : Expr ν) : (e.map g).revise r = (e.revise r).map g := by
  induction e using Expr.induct with
  | literal | field | subquery => rfl
  | param name =>
      simp only [map, revise]
      cases r.param name <;> rfl
  | op name operands ih | call name operands ih =>
      simp only [map, revise, maps_eq_map, reviseAll_eq_map, List.map_map]
      congr 1
      exact List.map_congr_left ih
  | shorthand pairs => simp [map, revise, FieldValue.revise_map]

theorem JoinCondition.revise_map (g : ν → μ) (condition : JoinCondition ν) :
    (condition.map g).revise r = (condition.revise r).map g := by
  cases condition <;> simp [map, revise, Expr.revise_map]

theorem InsertSource.revise_map (g : ν → μ) (source : InsertSource ν) :
    (source.map g).revise r = (source.revise r).map g := by
  cases source <;> simp [map, revise, mapPair, revisePair, Expr.revise_map]

theorem Statement.revise_map (g : ν → μ) (s : Statement ν) :
    (s.map g).revise r = (s.revise r).map g := by
  simp [map, revise, Function.comp_def, SelectItem.map, SelectItem.revise, Join.map, Join.revise,
    Order.map, Order.revise, mapPair, revisePair, Expr.revise_map, JoinCondition.revise_map,
    InsertSource.revise_map]

/-! No nested query is touched. -/

theorem FieldValue.subquery?_revise (v : FieldValue ν) : (v.revise r).subquery? = v.subquery? := by
  match v with
  | null | value .null | list _ | subquery _ => rfl
  | value (.bool _) | value (.int _) | value (.float _) | value (.text _) => rfl

theorem Expr.subqueries_revise (e : Expr ν) : (e.revise r).subqueries = e.subqueries := by
  induction e using Expr.induct with
  | literal | field | subquery => rfl
  | param name =>
      simp only [revise]
      cases r.param name <;> rfl
  | op name operands ih | call name operands ih =>
      simp only [revise, subqueries, reviseAll_eq_map, subqueriesOf_eq_flatMap, List.flatMap_map]
      exact List.flatMap_congr ih
  | shorthand pairs =>
      simp [revise, subqueries, List.filterMap_map, FieldValue.subquery?_revise]

theorem JoinCondition.subqueries_revise (condition : Option (JoinCondition ν)) :
    (((condition.map (JoinCondition.revise r)).map JoinCondition.exprs).getD []).flatMap
        Expr.subqueries =
      ((condition.map JoinCondition.exprs).getD []).flatMap Expr.subqueries := by
  match condition with
  | none | some (.fields _) => rfl
  | some (.expr e) => simp [revise, exprs, Expr.subqueries_revise]

theorem InsertSource.subqueries_revise (source : Option (InsertSource ν)) :
    (((source.map (InsertSource.revise r)).map InsertSource.exprsOf).getD []).flatMap
        Expr.subqueries =
      ((source.map InsertSource.exprsOf).getD []).flatMap Expr.subqueries := by
  match source with
  | none | some (.values _) | some (.rows _ _) | some (.select _ _) => rfl
  | some (.exprs pairs) =>
      simp [revise, exprsOf, revisePair, List.flatMap_map, Expr.subqueries_revise]

theorem InsertSource.subquery?_revise (source : Option (InsertSource ν)) :
    (source.map (InsertSource.revise r)).bind InsertSource.subquery? =
      source.bind InsertSource.subquery? := by
  match source with
  | none | some (.exprs _) | some (.values _) | some (.rows _ _) | some (.select _ _) => rfl

namespace Statement

theorem allTables_revise (s : Statement ν) : (s.revise r).allTables = s.allTables := by
  simp [allTables, revise, Join.revise, Function.comp_def]

theorem subqueries_revise (s : Statement ν) : (s.revise r).subqueries = s.subqueries := by
  have hoption : ∀ e : Option (Expr ν),
      (e.map (Expr.revise r)).toList.flatMap Expr.subqueries =
        e.toList.flatMap Expr.subqueries := by
    intro e
    cases e <;> simp [Expr.subqueries_revise]
  have hexprs : (s.revise r).exprs.flatMap Expr.subqueries = s.exprs.flatMap Expr.subqueries := by
    simp only [exprs, revise, List.flatMap_append, List.flatMap_map, List.flatMap_assoc,
      Expr.subqueries_revise, SelectItem.revise, Join.revise, Order.revise, revisePair, hoption,
      JoinCondition.subqueries_revise, InsertSource.subqueries_revise]
  rw [subqueries, allTables_revise, hexprs]
  simp only [revise, InsertSource.subquery?_revise]
  rfl

end Statement

namespace Query

theorem revise_eq (q : Query) :
    q.revise r = mk q.dialect q.bound ((q.statement.map (revise r)).revise r) :=
  fold_eq _ q

theorem statement_revise (q : Query) :
    (q.revise r).statement = (q.statement.revise r).map (revise r) := by
  rw [revise_eq, statement, Statement.revise_map]

theorem fold_revise {α : Type} (algebra : Algebra α) (q : Query) :
    (q.revise r).fold algebra = algebra q.dialect q.bound
      ((q.statement.revise r).map fun inner => (inner.revise r).fold algebra) := by
  rw [fold_eq, statement_revise, Statement.map_map, revise_eq]
  rfl

theorem subqueries_revise (q : Query) : (q.revise r).subqueries = q.subqueries.map (revise r) := by
  rw [revise_eq, subqueries, statement, Statement.subqueries_revise, Statement.subqueries_map]
  rfl

theorem bound_revise (q : Query) : (q.revise r).bound = q.bound := by
  rw [revise_eq, bound]

theorem bags_revise (q : Query) : (q.revise r).bags = q.bags := by
  induction q using Query.induct with
  | step q ih =>
      rw [bags_eq, bags_eq q, bound_revise, nestedBags, nestedBags, subqueries_revise,
        List.flatMap_map, List.flatMap_congr ih]

theorem nestedBags_revise (q : Query) : (q.revise r).nestedBags = q.nestedBags := by
  simp only [nestedBags, subqueries_revise, List.flatMap_map, bags_revise]

end Query

end QueryCompiler
