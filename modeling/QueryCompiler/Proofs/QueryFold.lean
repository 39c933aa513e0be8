import Mathlib.Algebra.GroupWithZero.Nat
import Mathlib.Algebra.Order.BigOperators.Group.List
import Mathlib.Algebra.Order.Group.Nat
import Mathlib.Data.List.Basic
import QueryCompiler.Query.Basic

/-!
# Folding queries

A fold replaces the nested queries of a statement and leaves everything else as it is: it is a map.
Induction over expressions has one hypothesis for all operands, and induction over queries has one
for all queries nested one level down, whatever the clause they stand in.
-/
namespace QueryCompiler

variable {ν μ : Type}

def FieldValue.map (g : ν → μ) : FieldValue ν → FieldValue μ
  | null => null
  | value v => value v
  | list items => list items
  | subquery q => subquery (g q)

namespace Expr

mutual
def map (g : ν → μ) : Expr ν → Expr μ
  | literal v => literal v
  | field name label => field name label
  | param name => param name
  | op name operands => op name (maps g operands)
  | call name args => call name (maps g args)
  | subquery q => subquery (g q)
  | shorthand pairs => shorthand (pairs.map fun (name, v) => (name, v.map g))

def maps (g : ν → μ) : List (Expr ν) → List (Expr μ)
  | [] => []
  | e :: rest => map g e :: maps g rest
end

theorem maps_eq_map (g : ν → μ) (es : List (Expr ν)) : maps g es = es.map (map g) := by
  induction es with
  | nil => rfl
  | cons e rest ih => rw [maps, ih, List.map_cons]

theorem subqueriesOf_eq_flatMap (es : List (Expr ν)) : subqueriesOf es = es.flatMap subqueries := by
  induction es with
  | nil => rfl
  | cons e rest ih => rw [subqueriesOf, ih, List.flatMap_cons]

/-- Induction over expressions with one hypothesis for all operands. -/
@[elab_as_elim]
theorem induct {motive : Expr ν → Prop}
    (literal : ∀ v, motive (.literal v))
    (field : ∀ name label, motive (.field name label))
    (param : ∀ name, motive (.param name))
    (op : ∀ name operands, (∀ e ∈ operands, motive e) → motive (.op name operands))
    (call : ∀ name args, (∀ e ∈ args, motive e) → motive (.call name args))
    (subquery : ∀ q, motive (.subquery q))
    (shorthand : ∀ pairs, motive (.shorthand pairs)) (e : Expr ν) : motive e :=
  @Expr.rec ν motive (fun es => ∀ e ∈ es, motive e) literal field param op call subquery shorthand
    (fun _ h => absurd h List.not_mem_nil)
    (fun _ _ first rest => List.forall_mem_cons.mpr ⟨first, rest⟩) e

end Expr

namespace TableRef

def map (g : ν → μ) (t : TableRef ν) : TableRef μ :=
  match t.source with
  | .table name => ⟨.table name, t.label, t.info⟩
  | .subquery q => ⟨.subquery (g q), t.label, t.info⟩

end TableRef

def JoinCondition.map (g : ν → μ) : JoinCondition ν → JoinCondition μ
  | expr e => expr (e.map g)
  | fields pairs => fields pairs

def Join.map (g : ν → μ) (join : Join ν) : Join μ :=
  ⟨join.table.map g, join.kind, join.condition.map (JoinCondition.map g)⟩

def Order.map (g : ν → μ) (order : Order ν) : Order μ :=
  ⟨order.expr.map g, order.direction, order.nulls⟩

def SelectItem.map (g : ν → μ) (item : SelectItem ν) : SelectItem μ := ⟨item.expr.map g, item.label⟩

/-- A named expression, as assignments and inserted rows have them. -/
def mapPair (g : ν → μ) (pair : String × Expr ν) : String × Expr μ := (pair.1, pair.2.map g)

def InsertSource.map (g : ν → μ) : InsertSource ν → InsertSource μ
  | exprs pairs => exprs (pairs.map (mapPair g))
  | values pairs => values pairs
  | rows fields lines => .rows fields lines
  | select fields q => select fields (g q)

def Statement.map (g : ν → μ) (s : Statement ν) : Statement μ :=
  ⟨s.kind, s.distinct, s.fields.map (SelectItem.map g), s.tables.map (TableRef.map g),
    s.joins.map (Join.map g), s.filter.map (Expr.map g), s.groups.map (Expr.map g),
    s.having.map (Expr.map g), s.orders.map (Order.map g), s.limit, s.offset,
    s.source.map (InsertSource.map g), s.assignments.map (mapPair g)⟩

/-! Mapping twice is mapping once. -/

section MapMap

variable {κ : Type} (g : ν → μ) (f : μ → κ)

theorem FieldValue.map_map (v : FieldValue ν) : (v.map g).map f = v.map (f ∘ g) := by
  cases v <;> rfl

theorem Expr.map_map (e : Expr ν) : (e.map g).map f = e.map (f ∘ g) := by
  induction e using Expr.induct with
  | literal | field | param | subquery => rfl
  | op name operands ih | call name operands ih =>
      simp only [map, maps_eq_map, List.map_map]
      congr 1
      exact List.map_congr_left ih
  | shorthand pairs => simp [map, FieldValue.map_map]

theorem TableRef.map_map (t : TableRef ν) : (t.map g).map f = t.map (f ∘ g) := by
  obtain ⟨source, label, info⟩ := t
  cases source <;> rfl

theorem JoinCondition.map_map (condition : JoinCondition ν) :
    (condition.map g).map f = condition.map (f ∘ g) := by
  cases condition <;> simp [map, Expr.map_map]

theorem InsertSource.map_map (source : InsertSource ν) :
    (source.map g).map f = source.map (f ∘ g) := by
  cases source <;> simp [map, mapPair, Expr.map_map]

theorem Statement.map_map (s : Statement ν) : (s.map g).map f = s.map (f ∘ g) := by
  simp [map, Function.comp_def, SelectItem.map, Join.map, Order.map, mapPair, Expr.map_map,
    TableRef.map_map, JoinCondition.map_map, InsertSource.map_map]

end MapMap

namespace Query

section Fold

variable {α : Type} (f : Algebra α)

theorem foldShorthand_eq_map (pairs : List (String × FieldValue Query)) :
    foldShorthand f pairs = pairs.map fun (name, v) => (name, v.map (fold f)) := by
  induction pairs with
  | nil => rfl
  | cons pair rest ih =>
      obtain ⟨name, v⟩ := pair
      cases v <;> simp [foldShorthand, FieldValue.map, ih]

theorem foldExprs_eq_map (es : List (Expr Query)) : foldExprs f es = es.map (foldExpr f) := by
  induction es with
  | nil => rfl
  | cons e rest ih => rw [foldExprs, ih, List.map_cons]

theorem foldExpr_eq_map (e : Expr Query) : foldExpr f e = e.map (fold f) := by
  induction e using Expr.induct with
  | literal | field | param | subquery => rfl
  | op name operands ih =>
      rw [foldExpr, Expr.map, foldExprs_eq_map, Expr.maps_eq_map, List.map_congr_left ih]
  | call name args ih =>
      rw [foldExpr, Expr.map, foldExprs_eq_map, Expr.maps_eq_map, List.map_congr_left ih]
  | shorthand pairs => rw [foldExpr, Expr.map, foldShorthand_eq_map]

theorem foldExpr?_eq_map (e : Option (Expr Query)) :
    foldExpr? f e = e.map (Expr.map (fold f)) := by
  cases e with
  | none => rfl
  | some e => rw [foldExpr?, foldExpr_eq_map, Option.map_some]

theorem foldItems_eq_map (items : List (SelectItem Query)) :
    foldItems f items = items.map (SelectItem.map (fold f)) := by
  induction items with
  | nil => rfl
  | cons item rest ih => rw [foldItems, ih, foldExpr_eq_map, List.map_cons, SelectItem.map]

theorem foldTable_eq_map (t : TableRef Query) : foldTable f t = t.map (fold f) := by
  obtain ⟨source, label, info⟩ := t
  cases source <;> rfl

theorem foldTables_eq_map (tables : List (TableRef Query)) :
    foldTables f tables = tables.map (TableRef.map (fold f)) := by
  induction tables with
  | nil => rfl
  | cons t rest ih => rw [foldTables, ih, foldTable_eq_map, List.map_cons]

theorem foldCondition?_eq_map (condition : Option (JoinCondition Query)) :
    foldCondition? f condition = condition.map (JoinCondition.map (fold f)) := by
  match condition with
  | none => rfl
  | some (.expr e) => rw [foldCondition?, foldExpr_eq_map, Option.map_some, JoinCondition.map]
  | some (.fields pairs) => rfl

theorem foldJoins_eq_map (joins : List (Join Query)) :
    foldJoins f joins = joins.map (Join.map (fold f)) := by
  induction joins with
  | nil => rfl
  | cons join rest ih =>
      rw [foldJoins, ih, foldTable_eq_map, foldCondition?_eq_map, List.map_cons, Join.map]

theorem foldOrders_eq_map (orders : List (Order Query)) :
    foldOrders f orders = orders.map (Order.map (fold f)) := by
  induction orders with
  | nil => rfl
  | cons order rest ih => rw [foldOrders, ih, foldExpr_eq_map, List.map_cons, Order.map]

theorem foldPairs_eq_map (pairs : List (String × Expr Query)) :
    foldPairs f pairs = pairs.map (mapPair (fold f)) := by
  induction pairs with
  | nil => rfl
  | cons pair rest ih => rw [foldPairs, ih, foldExpr_eq_map, List.map_cons, mapPair]

theorem foldSource?_eq_map (source : Option (InsertSource Query)) :
    foldSource? f source = source.map (InsertSource.map (fold f)) := by
  match source with
  | none => rfl
  | some (.exprs pairs) => rw [foldSource?, foldPairs_eq_map, Option.map_some, InsertSource.map]
  | some (.values _) | some (.rows _ _) | some (.select _ _) => rfl

theorem foldStatement_eq_map (s : Statement Query) : foldStatement f s = s.map (fold f) := by
  cases s
  simp only [foldStatement, Statement.map, foldItems_eq_map, foldTables_eq_map, foldJoins_eq_map,
    foldExpr?_eq_map, foldExprs_eq_map, foldOrders_eq_map, foldSource?_eq_map, foldPairs_eq_map,
    funext (foldExpr_eq_map f)]

theorem fold_eq (q : Query) :
    q.fold f = f q.dialect q.bound (q.statement.map (fold f)) := by
  cases q
  rw [fold, foldStatement_eq_map, dialect, bound, statement]

end Fold

end Query

/-! The nested queries of what was mapped are those of the original, mapped. -/

theorem FieldValue.subquery?_map (g : ν → μ) (v : FieldValue ν) :
    (v.map g).subquery? = v.subquery?.map g := by
  cases v <;> rfl

theorem Expr.subqueries_map (g : ν → μ) (e : Expr ν) :
    (e.map g).subqueries = e.subqueries.map g := by
  induction e using Expr.induct with
  | literal | field | param | subquery => rfl
  | op name operands ih | call name operands ih =>
      simp only [map, subqueries, maps_eq_map, subqueriesOf_eq_flatMap, List.flatMap_map,
        List.map_flatMap]
      exact List.flatMap_congr ih
  | shorthand pairs =>
      simp [map, subqueries, List.filterMap_map, List.map_filterMap, FieldValue.subquery?_map]

theorem TableRef.subquery?_map (g : ν → μ) (t : TableRef ν) :
    (t.map g).source.subquery? = t.source.subquery?.map g := by
  obtain ⟨source, label, info⟩ := t
  cases source <;> rfl

theorem InsertSource.subquery?_map (g : ν → μ) (source : InsertSource ν) :
    (source.map g).subquery? = source.subquery?.map g := by
  cases source <;> rfl

theorem JoinCondition.exprs_map (g : ν → μ) (condition : JoinCondition ν) :
    (condition.map g).exprs = condition.exprs.map (Expr.map g) := by
  cases condition <;> rfl

theorem InsertSource.exprsOf_map (g : ν → μ) (source : InsertSource ν) :
    (source.map g).exprsOf = source.exprsOf.map (Expr.map g) := by
  cases source <;> simp [map, exprsOf, mapPair]

namespace Statement

theorem allTables_map (g : ν → μ) (s : Statement ν) :
    (s.map g).allTables = s.allTables.map (TableRef.map g) := by
  simp [allTables, map, Join.map]

theorem exprs_map (g : ν → μ) (s : Statement ν) :
    (s.map g).exprs = s.exprs.map (Expr.map g) := by
  have hjoins : ∀ join : Join ν, ((join.map g).condition.map JoinCondition.exprs).getD [] =
      ((join.condition.map JoinCondition.exprs).getD []).map (Expr.map g) := by
    intro join
    cases h : join.condition <;> simp [Join.map, h, JoinCondition.exprs_map]
  have hsource : ((s.source.map (InsertSource.map g)).map InsertSource.exprsOf).getD [] =
      ((s.source.map InsertSource.exprsOf).getD []).map (Expr.map g) := by
    cases s.source <;> simp [InsertSource.exprsOf_map]
  simp only [exprs, map, hsource, hjoins, Option.toList_map, List.flatMap_map, List.map_append,
    List.map_flatMap, List.map_map, Function.comp_def, mapPair, SelectItem.map, Order.map]

theorem subqueries_map (g : ν → μ) (s : Statement ν) :
    (s.map g).subqueries = s.subqueries.map g := by
  have hsource : ((s.source.map (InsertSource.map g)).bind InsertSource.subquery?).toList =
      (s.source.bind InsertSource.subquery?).toList.map g := by
    cases s.source with
    | none => rfl
    | some source =>
        simp only [Option.map_some, Option.bind_some, InsertSource.subquery?_map]
        cases source.subquery? <;> rfl
  have hexprs : ((s.map g).exprs).flatMap Expr.subqueries =
      (s.exprs.flatMap Expr.subqueries).map g := by
    simp [exprs_map, List.flatMap_map, List.map_flatMap, Expr.subqueries_map]
  simp only [subqueries, hexprs, allTables_map, List.map_append, List.filterMap_map,
    List.map_filterMap, TableRef.subquery?_map, Function.comp_def]
  rw [← hsource]
  rfl

end Statement

namespace Query

/-- The number of queries in a query, itself included. -/
def size : Query → Nat :=
  fold fun _ _ s => s.subqueries.sum + 1

theorem size_lt {inner q : Query} (h : inner ∈ q.subqueries) : inner.size < q.size := by
  have hq : q.size = (q.subqueries.map size).sum + 1 := by
    rw [size, fold_eq, Statement.subqueries_map, subqueries]
  rw [hq]
  exact Nat.lt_succ_of_le (List.le_sum_of_mem (List.mem_map_of_mem h))

/-- Induction over queries with one hypothesis for all queries nested one level down. -/
@[elab_as_elim]
theorem induct {motive : Query → Prop}
    (step : ∀ q, (∀ inner ∈ q.subqueries, motive inner) → motive q) (q : Query) : motive q :=
  step q fun inner _ => induct step inner
termination_by q.size
decreasing_by exact size_lt ‹_›

end Query

end QueryCompiler
