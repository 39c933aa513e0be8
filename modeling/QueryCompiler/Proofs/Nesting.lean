import QueryCompiler.Proofs.QueryFold

/-!
# Where queries are nested

The places at which a query can be nested in another one, clause by clause, and at any depth. The
list of nested queries, and so the list of their bags, misses none of these places.
-/
namespace QueryCompiler

variable {ν : Type}

/-- A query nested somewhere in an expression. -/
inductive Expr.Holds (q : ν) : Expr ν → Prop
  | subquery : Holds q (.subquery q)
  | compared {name : String} {pairs : List (String × FieldValue ν)}
      (h : (name, .subquery q) ∈ pairs) : Holds q (.shorthand pairs)
  | operand {name : String} {operands : List (Expr ν)} {e : Expr ν} (he : e ∈ operands)
      (h : Holds q e) : Holds q (.op name operands)
  | argument {name : String} {args : List (Expr ν)} {e : Expr ν} (he : e ∈ args)
      (h : Holds q e) : Holds q (.call name args)

/-- A query nested somewhere in a statement. -/
inductive Statement.Holds (q : ν) (s : Statement ν) : Prop
  | table {t : TableRef ν} (ht : t ∈ s.tables) (h : t.source = .subquery q)
  | joinedTable {join : Join ν} (hj : join ∈ s.joins) (h : join.table.source = .subquery q)
  | joinCondition {join : Join ν} {e : Expr ν} (hj : join ∈ s.joins)
      (he : join.condition = some (.expr e)) (h : e.Holds q)
  | selected {item : SelectItem ν} (hi : item ∈ s.fields) (h : item.expr.Holds q)
  | filter {e : Expr ν} (he : s.filter = some e) (h : e.Holds q)
  | group {e : Expr ν} (he : e ∈ s.groups) (h : e.Holds q)
  | having {e : Expr ν} (he : s.having = some e) (h : e.Holds q)
  | order {order : Order ν} (ho : order ∈ s.orders) (h : order.expr.Holds q)
  | assigned {name : String} {e : Expr ν} (he : (name, e) ∈ s.assignments) (h : e.Holds q)
  | inserted {pairs : List (String × Expr ν)} {name : String} {e : Expr ν}
      (hs : s.source = some (.exprs pairs)) (he : (name, e) ∈ pairs) (h : e.Holds q)
  | insertedSelection {fields : List String} (hs : s.source = some (.select fields q))

/-- A query nested in another one at any depth. -/
inductive Query.NestedIn (inner : Query) : Query → Prop
  | direct {outer : Query} (h : outer.statement.Holds inner) : NestedIn inner outer
  | deeper {middle outer : Query} (h : outer.statement.Holds middle)
      (hm : NestedIn inner middle) : NestedIn inner outer

theorem Expr.Holds.mem_subqueries {q : ν} {e : Expr ν} (h : e.Holds q) : q ∈ e.subqueries := by
  induction h with
  | subquery => simp [subqueries]
  | @compared name pairs h =>
      exact List.mem_filterMap.mpr ⟨(name, .subquery q), h, rfl⟩
  | operand he _ ih | argument he _ ih =>
      rw [subqueries, subqueriesOf_eq_flatMap]
      exact List.mem_flatMap.mpr ⟨_, he, ih⟩

theorem Expr.holds_of_mem_subqueries {q : ν} {e : Expr ν} (h : q ∈ e.subqueries) : e.Holds q := by
  induction e using Expr.induct with
  | literal | field | param => exact absurd h List.not_mem_nil
  | subquery inner =>
      obtain rfl := List.mem_singleton.mp h
      exact .subquery
  | op name operands ih =>
      rw [subqueries, subqueriesOf_eq_flatMap] at h
      obtain ⟨e, he, hq⟩ := List.mem_flatMap.mp h
      exact .operand he (ih e he hq)
  | call name args ih =>
      rw [subqueries, subqueriesOf_eq_flatMap] at h
      obtain ⟨e, he, hq⟩ := List.mem_flatMap.mp h
      exact .argument he (ih e he hq)
  | shorthand pairs =>
      obtain ⟨⟨name, v⟩, hpair, hv⟩ := List.mem_filterMap.mp h
      cases v with
      | subquery inner =>
          obtain rfl := Option.some.inj hv
          exact .compared hpair
      | null | value | list => cases hv

namespace Statement

variable {s : Statement ν} {e : Expr ν}

/-! The expressions of each clause are among all expressions. -/

theorem mem_exprs_of_field {item : SelectItem ν} (h : item ∈ s.fields) : item.expr ∈ s.exprs := by
  simp only [exprs, List.mem_append, List.mem_map_of_mem h, true_or]

theorem mem_exprs_of_join {join : Join ν} (h : join ∈ s.joins)
    (he : join.condition = some (.expr e)) : e ∈ s.exprs := by
  have hmem : e ∈ s.joins.flatMap fun join =>
      (join.condition.map JoinCondition.exprs).getD [] :=
    List.mem_flatMap.mpr ⟨join, h, by simp [he, JoinCondition.exprs]⟩
  simp only [exprs, List.mem_append, hmem, true_or, or_true]

theorem mem_exprs_of_filter (h : s.filter = some e) : e ∈ s.exprs := by
  simp [exprs, h]

theorem mem_exprs_of_group (h : e ∈ s.groups) : e ∈ s.exprs := by
  simp [exprs, h]

theorem mem_exprs_of_having (h : s.having = some e) : e ∈ s.exprs := by
  simp [exprs, h]

theorem mem_exprs_of_order {order : Order ν} (h : order ∈ s.orders) : order.expr ∈ s.exprs := by
  simp only [exprs, List.mem_append, List.mem_map_of_mem h, true_or, or_true]

theorem mem_exprs_of_assignment {pair : String × Expr ν} (h : pair ∈ s.assignments) :
    pair.2 ∈ s.exprs := by
  have hmem : pair.2 ∈ s.assignments.map (·.2) := List.mem_map_of_mem h
  simp only [exprs, List.mem_append, hmem, true_or, or_true]

theorem mem_exprs_of_source {pairs : List (String × Expr ν)} {pair : String × Expr ν}
    (hs : s.source = some (.exprs pairs)) (h : pair ∈ pairs) : pair.2 ∈ s.exprs := by
  have hmem : pair.2 ∈ pairs.map (·.2) := List.mem_map_of_mem h
  simp only [exprs, hs, Option.map_some, Option.getD_some, InsertSource.exprsOf,
    List.mem_append, hmem, or_true]

/-! What an expression, a table or an insertion nests is nested in the statement. -/

variable {q : ν}

theorem mem_subqueries_of_expr (he : e ∈ s.exprs) (h : q ∈ e.subqueries) : q ∈ s.subqueries :=
  List.mem_append_right _ (List.mem_flatMap.mpr ⟨e, he, h⟩)

theorem mem_subqueries_of_table {t : TableRef ν} (ht : t ∈ s.allTables)
    (h : t.source.subquery? = some q) : q ∈ s.subqueries :=
  List.mem_append_left _ (List.mem_append_left _ (List.mem_filterMap.mpr ⟨t, ht, h⟩))

theorem mem_subqueries_of_source {fields : List String} (h : s.source = some (.select fields q)) :
    q ∈ s.subqueries := by
  simp [subqueries, h, InsertSource.subquery?]

theorem mem_allTables_of_table {t : TableRef ν} (h : t ∈ s.tables) : t ∈ s.allTables :=
  List.mem_append_left _ h

theorem mem_allTables_of_join {join : Join ν} (h : join ∈ s.joins) : join.table ∈ s.allTables :=
  List.mem_append_right _ (List.mem_map_of_mem h)

/-- Every expression of a statement stands in one of its clauses. -/
theorem holds_of_mem_exprs (he : e ∈ s.exprs) (h : e.Holds q) : s.Holds q := by
  simp only [exprs, List.mem_append, List.mem_map, List.mem_flatMap,
    Option.mem_toList] at he
  obtain (((((((⟨item, hitem, rfl⟩ | ⟨join, hjoin, hmem⟩) | hfilter) | hgroup) | hhaving) |
    ⟨order, horder, rfl⟩) | ⟨⟨name, e⟩, hassigned, rfl⟩) | hsource) := he
  · exact .selected hitem h
  · cases hcondition : join.condition with
    | none => simp [hcondition] at hmem
    | some condition =>
        cases condition with
        | expr e' =>
            obtain rfl : e = e' := by simpa [hcondition, JoinCondition.exprs] using hmem
            exact .joinCondition hjoin hcondition h
        | fields pairs => simp [hcondition, JoinCondition.exprs] at hmem
  · exact .filter hfilter h
  · exact .group hgroup h
  · exact .having hhaving h
  · exact .order horder h
  · exact .assigned hassigned h
  · cases hs : s.source with
    | none => simp [hs] at hsource
    | some source =>
        cases source with
        | exprs pairs =>
            simp only [hs, Option.map_some, Option.getD_some, InsertSource.exprsOf,
              List.mem_map] at hsource
            obtain ⟨⟨name, e⟩, hpair, rfl⟩ := hsource
            exact .inserted hs hpair h
        | values | rows | select => simp [hs, InsertSource.exprsOf] at hsource

theorem holds_of_mem_subqueries (h : q ∈ s.subqueries) : s.Holds q := by
  simp only [subqueries, List.mem_append, List.mem_filterMap, List.mem_flatMap,
    Option.mem_toList] at h
  obtain (⟨t, ht, hq⟩ | hsource) | ⟨e, he, hq⟩ := h
  · have hq' : t.source = .subquery q := by
      cases htable : t.source with
      | table name => simp [htable, TableSource.subquery?] at hq
      | subquery inner => simpa [htable, TableSource.subquery?] using hq
    obtain htable | hjoined := List.mem_append.mp ht
    · exact .table htable hq'
    · obtain ⟨join, hjoin, rfl⟩ := List.mem_map.mp hjoined
      exact .joinedTable hjoin hq'
  · cases hs : s.source with
    | none => simp [hs] at hsource
    | some source =>
        cases source with
        | select fields inner =>
            obtain rfl : inner = q := by simpa [hs, InsertSource.subquery?] using hsource
            exact .insertedSelection hs
        | exprs | values | rows => simp [hs, InsertSource.subquery?] at hsource
  · exact holds_of_mem_exprs he (Expr.holds_of_mem_subqueries hq)

theorem Holds.mem_subqueries (h : s.Holds q) : q ∈ s.subqueries := by
  cases h with
  | table ht h => exact mem_subqueries_of_table (mem_allTables_of_table ht) (by rw [h]; rfl)
  | joinedTable hj h => exact mem_subqueries_of_table (mem_allTables_of_join hj) (by rw [h]; rfl)
  | joinCondition hj he h =>
      exact mem_subqueries_of_expr (mem_exprs_of_join hj he) h.mem_subqueries
  | selected hi h => exact mem_subqueries_of_expr (mem_exprs_of_field hi) h.mem_subqueries
  | filter he h => exact mem_subqueries_of_expr (mem_exprs_of_filter he) h.mem_subqueries
  | group he h => exact mem_subqueries_of_expr (mem_exprs_of_group he) h.mem_subqueries
  | having he h => exact mem_subqueries_of_expr (mem_exprs_of_having he) h.mem_subqueries
  | order ho h => exact mem_subqueries_of_expr (mem_exprs_of_order ho) h.mem_subqueries
  | assigned he h => exact mem_subqueries_of_expr (mem_exprs_of_assignment he) h.mem_subqueries
  | inserted hs he h => exact mem_subqueries_of_expr (mem_exprs_of_source hs he) h.mem_subqueries
  | insertedSelection hs => exact mem_subqueries_of_source hs

end Statement

/-! A map that leaves every nested query as it is leaves the statement as it is. -/

section MapSelf

variable {g : ν → ν}

theorem listMap_self {α : Type} {f : α → α} {xs : List α} (h : ∀ x ∈ xs, f x = x) : xs.map f = xs :=
  (List.map_congr_left h).trans (List.map_id' xs)

theorem optionMap_self {α : Type} {f : α → α} {x : Option α} (h : ∀ a, x = some a → f a = a) :
    x.map f = x := by
  cases x with
  | none => rfl
  | some a => rw [Option.map_some, h a rfl]

theorem Expr.map_self {e : Expr ν} (h : ∀ q, e.Holds q → g q = q) : e.map g = e := by
  induction e using Expr.induct with
  | literal | field | param => rfl
  | subquery q => rw [map, h q .subquery]
  | op name operands ih =>
      rw [map, maps_eq_map, listMap_self fun e he => ih e he fun q hq => h q (.operand he hq)]
  | call name args ih =>
      rw [map, maps_eq_map, listMap_self fun e he => ih e he fun q hq => h q (.argument he hq)]
  | shorthand pairs =>
      rw [map, listMap_self]
      rintro ⟨name, v⟩ hpair
      cases v with
      | null | value | list => rfl
      | subquery q => simp only [FieldValue.map, h q (.compared hpair)]

theorem TableRef.map_self {t : TableRef ν} (h : ∀ q, t.source = .subquery q → g q = q) :
    t.map g = t := by
  obtain ⟨source, label, info⟩ := t
  cases source with
  | table name => rfl
  | subquery q => simp only [map, h q rfl]

theorem InsertSource.map_self {source : InsertSource ν}
    (hexprs : ∀ pairs name e, source = .exprs pairs → (name, e) ∈ pairs → e.map g = e)
    (hselect : ∀ fields q, source = .select fields q → g q = q) : source.map g = source := by
  cases source with
  | values | rows => rfl
  | select fields q => simp only [map, hselect fields q rfl]
  | exprs pairs =>
      rw [map, listMap_self]
      rintro ⟨name, e⟩ hpair
      rw [mapPair, hexprs pairs name e rfl hpair]

theorem Statement.map_self {s : Statement ν} (h : ∀ q, s.Holds q → g q = q) : s.map g = s := by
  have hjoins : ∀ join ∈ s.joins, join.map g = join := by
    intro join hjoin
    have hcondition : join.condition.map (JoinCondition.map g) = join.condition := by
      refine optionMap_self fun condition hc => ?_
      cases condition with
      | fields pairs => rfl
      | expr e =>
          rw [JoinCondition.map, Expr.map_self fun q hq => h q (.joinCondition hjoin hc hq)]
    rw [Join.map, hcondition, TableRef.map_self fun q hq => h q (.joinedTable hjoin hq)]
  have hsource : s.source.map (InsertSource.map g) = s.source :=
    optionMap_self fun source hs => InsertSource.map_self
      (fun pairs name e heq hpair =>
        Expr.map_self fun q hq => h q (.inserted (hs.trans (congrArg some heq)) hpair hq))
      fun fields q heq => h q (.insertedSelection (hs.trans (congrArg some heq)))
  rw [map, hsource, listMap_self hjoins,
    listMap_self fun item hitem => by
      rw [SelectItem.map, Expr.map_self fun q hq => h q (.selected hitem hq)],
    listMap_self fun t ht => TableRef.map_self fun q hq => h q (.table ht hq),
    optionMap_self fun e he => Expr.map_self fun q hq => h q (.filter he hq),
    listMap_self fun e he => Expr.map_self fun q hq => h q (.group he hq),
    optionMap_self fun e he => Expr.map_self fun q hq => h q (.having he hq),
    listMap_self fun order horder => by
      rw [Order.map, Expr.map_self fun q hq => h q (.order horder hq)],
    listMap_self fun pair hpair => by
      rw [mapPair, Expr.map_self fun q hq => h q (.assigned hpair hq)]]

end MapSelf

namespace Query

theorem bags_eq (q : Query) : q.bags = q.bound :: q.nestedBags := by
  rw [bags, fold_eq, Statement.subqueries_map, nestedBags, List.flatMap]
  rfl

theorem mem_nestedBags {inner q : Query} {bag : Bag} (h : inner ∈ q.subqueries)
    (hbag : bag ∈ inner.bags) : bag ∈ q.nestedBags :=
  List.mem_flatMap.mpr ⟨inner, h, hbag⟩

/-- The query itself or one nested in it. -/
def PartOf (inner q : Query) : Prop := inner = q ∨ inner.NestedIn q

theorem PartOf.of_subquery {inner middle q : Query} (h : inner.PartOf middle)
    (hm : middle ∈ q.subqueries) : inner.PartOf q := by
  obtain rfl | hnested := h
  · exact .inr (.direct (Statement.holds_of_mem_subqueries hm))
  · exact .inr (.deeper (Statement.holds_of_mem_subqueries hm) hnested)

/-- A query without nested ones is its only part. -/
theorem PartOf.eq_of_flat {q inner : Query} (h : q.statement.subqueries = [])
    (hpart : inner.PartOf q) : inner = q := by
  obtain heq | hnested := hpart
  · exact heq
  · cases hnested with
    | direct hholds | deeper hholds _ =>
        have hmem := hholds.mem_subqueries
        rw [h] at hmem
        exact absurd hmem List.not_mem_nil

theorem NestedIn.bound_mem {inner q : Query} (h : inner.NestedIn q) :
    inner.bound ∈ q.nestedBags := by
  induction h with
  | direct h =>
      refine mem_nestedBags h.mem_subqueries ?_
      rw [bags_eq]
      exact List.mem_cons_self
  | deeper h _ ih =>
      refine mem_nestedBags h.mem_subqueries ?_
      rw [bags_eq]
      exact List.mem_cons_of_mem _ ih

theorem NestedIn.of_subquery {inner middle q : Query} (h : middle.NestedIn q)
    (hinner : inner ∈ middle.subqueries) : inner.NestedIn q := by
  induction h with
  | direct h => exact .deeper h (.direct (Statement.holds_of_mem_subqueries hinner))
  | deeper h _ ih => exact .deeper h ih

/-- Every bag that is taken in is that of a nested query. -/
theorem exists_nestedIn {q : Query} {bag : Bag} (h : bag ∈ q.nestedBags) :
    ∃ owner : Query, owner.NestedIn q ∧ owner.bound = bag := by
  induction q using Query.induct with
  | step q ih =>
      obtain ⟨inner, hinner, hbag⟩ := List.mem_flatMap.mp h
      have hholds := Statement.holds_of_mem_subqueries hinner
      rw [bags_eq] at hbag
      obtain rfl | hdeeper := List.mem_cons.mp hbag
      · exact ⟨inner, .direct hholds, rfl⟩
      · obtain ⟨owner, howner, hbound⟩ := ih inner hinner hdeeper
        exact ⟨owner, .deeper hholds howner, hbound⟩

end Query

end QueryCompiler
