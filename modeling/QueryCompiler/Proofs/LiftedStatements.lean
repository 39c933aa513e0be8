import QueryCompiler.Proofs.LabelAssignment
import QueryCompiler.Proofs.LiftedValues
import QueryCompiler.Proofs.Rewording
import QueryCompiler.Proofs.StatementWording

/-!
# The values that a statement lifts

Clause by clause, a statement lifts the values of its expressions and nested queries. What is
written around them keeps their names, for every clause starts with a word of the compiler.
-/
namespace QueryCompiler

open Build (LiftsAs Assembles)

namespace TableRef

/-- A named table lifts nothing. -/
def lifted (t : TableRef (List LiftedValue)) : List LiftedValue := t.source.subquery?.getD []

end TableRef

/-- Pairs of fields lift nothing. -/
def JoinCondition.lifted : JoinCondition (List LiftedValue) → List LiftedValue
  | expr e => e.lifted
  | fields _ => []

def Join.lifted (join : Join (List LiftedValue)) : List LiftedValue :=
  join.table.lifted ++ join.condition.toList.flatMap JoinCondition.lifted

/-- All values of a single row are lifted; several rows are written inline. -/
def InsertSource.lifted : InsertSource (List LiftedValue) → List LiftedValue
  | exprs pairs => pairs.flatMap fun pair => pair.2.lifted
  | values pairs => pairs.map fun pair => ⟨pair.2, true⟩
  | rows _ _ => []
  | select _ ls => ls

/-- The values that are lifted by the clauses between the selection and the orders. -/
def Statement.rowsLifted (s : Statement (List LiftedValue)) : List LiftedValue :=
  s.tables.flatMap TableRef.lifted ++ (s.joins.flatMap Join.lifted ++
    (s.filter.toList.flatMap Expr.lifted ++
      (s.groups.flatMap Expr.lifted ++ s.having.toList.flatMap Expr.lifted)))

/-- The values that a statement lifts, in the order of its clauses, if each nested query stands for
those that it lifts. -/
def Statement.lifted (s : Statement (List LiftedValue)) : List LiftedValue :=
  match s.kind with
  | .select =>
    s.fields.flatMap (fun item => item.expr.lifted) ++
      (s.rowsLifted ++ s.orders.flatMap fun order => order.expr.lifted)
  | .insert => s.source.toList.flatMap InsertSource.lifted
  | .update =>
    s.assignments.flatMap (fun pair => pair.2.lifted) ++
      ((s.tables.drop 1).flatMap TableRef.lifted ++ s.filter.toList.flatMap Expr.lifted)
  | .delete => s.filter.toList.flatMap Expr.lifted

/-! Texts that can stand behind any other. -/

namespace Sql

theorem apart_of_calm {s : String} (hcalm : Calm s) (hbreaks : Breaks s.toList) :
    Apart (s : Sql) := by
  refine ⟨breaks_text hbreaks, ?_⟩
  rw [chars_ofString]
  rw [Calm, Quiet] at hcalm
  cases hcs : s.toList with
  | nil => simp
  | cons c rest =>
      rw [hcs, quietFrom, Bool.and_eq_true] at hcalm
      rw [List.head?_cons, ne_eq, Option.some.injEq]
      rintro rfl
      exact absurd hcalm.1 (by decide)

end Sql

variable {ν : Type} {b : Builtin} {g : ν → Build Sql} {k : ν → List LiftedValue}

/-! Clauses. -/

section Clauses

variable {ι μ : Type} {f : ι → Build Sql} {word : String}

theorem listClause_apart (hne : word ≠ "")
    (hword : Breaks word.toList ∧ word.toList.head? ≠ some ':') (xs : List ι) :
    (listClause word f xs).Ensures (fun _ _ => True) Sql.Apart := by
  unfold listClause
  split
  · exact .pure (by decide)
  · exact (Build.Ensures.trivial _).bind fun _ _ => .pure (Sql.apart_word hne hword)

theorem conditionClause_apart (d : Dialect) (scope : Scope) (hne : word ≠ "")
    (hword : Breaks word.toList ∧ word.toList.head? ≠ some ':') (e : Option (Expr (Build Sql))) :
    (conditionClause d scope word e).Ensures (fun _ _ => True) Sql.Apart := by
  cases e with
  | none => exact .pure (by decide)
  | some e => exact (Build.Ensures.trivial _).bind fun _ _ => .pure (Sql.apart_word hne hword)

theorem Join.sql_apart (d : Dialect) (scope : Scope) (join : Join (Build Sql))
    (label : Option String) : (join.sql d scope label).Ensures (fun _ _ => True) Sql.Apart := by
  have hstart : ∀ text : Sql, (" " ++ text : Sql).Apart :=
    fun _ => Sql.apart_word (by decide) (by decide)
  rw [Join.sql]
  refine (Build.Ensures.trivial _).bind fun kind _ => (Build.Ensures.trivial _).bind
    fun table _ => ?_
  simp only [Sql.append_assoc]
  split
  · trivial
  · trivial
  · exact .pure (hstart _)
  · exact (Build.Ensures.trivial _).bind fun _ _ => .pure (hstart _)

theorem listClause_liftsAs {a : μ → ι} {l : μ → List LiftedValue} {xs : List μ}
    (hword : (word : Sql).Leads) (h : ∀ x ∈ xs, (f (a x)).LiftsAs Sql.shown (l x)) :
    (listClause word f (xs.map a)).LiftsAs Sql.shown (xs.flatMap l) := by
  rw [listClause, List.isEmpty_map, List.mapM_map]
  split
  · rename_i hempty
    obtain rfl := List.isEmpty_iff.mp hempty
    exact .pure _
  · refine (LiftsAs.mapM h).map ?_
    rintro sqls - name ⟨sql, hsql, hname⟩
    exact Sql.shown_behind hword (Sql.shown_commas hsql hname)

theorem conditionClause_liftsAs (scope : Scope) (hword : (word : Sql).Leads) {e : Option (Expr ν)}
    (h : ∀ e' ∈ e, ∀ q ∈ e'.subqueries, (g q).LiftsAs Sql.shown (k q)) :
    (conditionClause b.dialect scope word (e.map (Expr.map g))).LiftsAs Sql.shown
      ((e.map (Expr.map k)).toList.flatMap Expr.lifted) := by
  cases e with
  | none => exact .pure _
  | some e =>
      rw [Option.map_some, Option.map_some, Option.toList_some, List.flatMap_singleton]
      exact (e.sql_liftsAs b scope (h e rfl)).map fun _ _ => Sql.shown_behind hword

end Clauses

theorem TableRef.sql_liftsAs (d : Dialect) {t : TableRef ν} (label : Option String)
    (h : ∀ q ∈ t.source.subquery?, (g q).LiftsAs Sql.shown (k q)) :
    (TableRef.sql d (t.map g) label).LiftsAs Sql.shown (t.map k).lifted := by
  obtain ⟨source, written, info⟩ := t
  cases source with
  | table name =>
      have hnone : (TableRef.map k ⟨.table name, written, info⟩).lifted = [] := rfl
      rw [hnone]
      simp only [TableRef.map, TableRef.sql]
      split
      · split <;> exact .pure _
      · exact .pure _
  | subquery q =>
      refine (parenthesized_liftsAs (h q rfl)).map fun sql _ => ?_
      rw [Sql.append_assoc]
      exact Sql.shown_append (Sql.breaks_text_append (by decide) (by decide))

/-- An operator lifts nothing of its own. -/
theorem Expr.lifted_op_nil {operands : List (Expr (List LiftedValue))}
    (h : ∀ e ∈ operands, e.lifted = []) (name : String) : (op name operands).lifted = [] := by
  have hnil : ∀ stops, liftedUpTo stops operands = [] := by
    intro stops
    rw [liftedUpTo_eq, List.flatMap_eq_nil_iff]
    exact fun e he => h e (mem_of_mem_upTo he)
  simp [lifted, hnil]

/-- A join by pairs of fields compares columns only. -/
theorem JoinCondition.lifted_toExpr (primary : Option String) (joined : String)
    (condition : JoinCondition (List LiftedValue)) :
    (condition.toExpr primary joined).lifted = condition.lifted := by
  cases condition with
  | expr e => rfl
  | fields pairs =>
      refine Expr.lifted_op_nil (fun e he => ?_) "AND"
      obtain ⟨pair, -, rfl⟩ := List.mem_map.mp he
      exact Expr.lifted_op_nil (by simp [Expr.plainField, Expr.lifted]) "="

theorem JoinCondition.sql_liftsAs (scope : Scope) (joined : String) {condition : JoinCondition ν}
    (h : ∀ e, condition = .expr e → ∀ q ∈ e.subqueries, (g q).LiftsAs Sql.shown (k q)) :
    (((condition.map g).toExpr scope.label joined).sql b.dialect scope).LiftsAs Sql.shown
      (condition.map k).lifted := by
  rw [← JoinCondition.lifted_toExpr scope.label joined, toExpr_map, toExpr_map]
  refine Expr.sql_liftsAs b scope fun q hq => ?_
  obtain ⟨e, he, hmem⟩ := mem_subqueries_toExpr _ _ hq
  exact h e he q hmem

/-- A join is written of its table and, if it has one, of its condition. -/
theorem Join.sql_assembles (d : Dialect) (scope : Scope) (join : Join (Build Sql))
    (label : Option String) : Assembles Sql.shown ∅
      (join.table.sql d label :: join.condition.toList.map fun condition =>
        (condition.toExpr scope.label (join.shownLabel label)).sql d scope)
      (join.sql d scope label) := by
  obtain ⟨t, kind, condition⟩ := join
  refine .known fun kind _ => .part fun table _ => ?_
  have hstart : table.shown ⊆ (" " ++ kind.display ++ " " ++ table : Sql).shown :=
    Sql.shown_behind (Sql.leads_word (by decide) (by decide))
  rw [Set.empty_union]
  cases condition with
  | none =>
      cases kind.requiresOn with
      | false => exact .done hstart
      | true => exact .fail
  | some condition =>
      cases kind.requiresOn with
      | false => exact .fail
      | true =>
          refine .part fun sql _ => .done ((Set.union_subset_union_left _ hstart).trans ?_)
          exact @Sql.shown_joined _ _ " ON " (by decide) (by decide) (by decide)

theorem Join.sql_liftsAs (scope : Scope) (label : Option String) {join : Join ν}
    (htable : ∀ q ∈ join.table.source.subquery?, (g q).LiftsAs Sql.shown (k q))
    (hcondition : ∀ e, join.condition = some (.expr e) → ∀ q ∈ e.subqueries,
      (g q).LiftsAs Sql.shown (k q)) :
    ((join.map g).sql b.dialect scope label).LiftsAs Sql.shown (join.map k).lifted := by
  rw [Join.lifted, List.flatMap_def, ← List.flatten_cons]
  refine ((join.map g).sql_assembles b.dialect scope label).liftsAs _ (.cons ?_ ?_)
  · exact join.table.sql_liftsAs b.dialect label htable
  · obtain ⟨t, kind, condition⟩ := join
    cases condition with
    | none => exact .nil
    | some condition =>
        exact .cons (condition.sql_liftsAs scope _ fun e he => hcondition e (by rw [he])) .nil

theorem SelectItem.sql_liftsAs (scope : Scope) {item : SelectItem ν}
    (h : ∀ q ∈ item.expr.subqueries, (g q).LiftsAs Sql.shown (k q)) :
    ((item.map g).sql b.dialect scope).LiftsAs Sql.shown (item.map k).expr.lifted := by
  obtain ⟨e, label⟩ := item
  have hsql := Expr.sql_liftsAs b scope h
  -- a heading comes behind the column
  have hheading : ∀ (sql : Sql) (heading : String),
      sql.shown ⊆ (sql ++ " AS " ++ b.dialect.labelName heading : Sql).shown := by
    intro sql heading
    rw [Sql.append_assoc]
    exact Sql.shown_append (Sql.breaks_text_append (by decide) (by decide))
  cases e with
  | field name written =>
      refine .after (.after (.ofExcept _) fun field _ => .pure _) ?_
      rintro ⟨sql, heading⟩ -
      cases heading <;> exact .pure _
  | literal | param | op | call | subquery | shorthand =>
      simp only [SelectItem.map, SelectItem.sql]
      rw [SelectItem.parts_of_not_field (Expr.map_not_field g (by simp)), bind_map_left]
      cases label with
      | none => exact hsql.map fun _ _ => subset_rfl
      | some heading => exact hsql.map fun sql _ => hheading sql heading

theorem orderSql_shown (d : Dialect) (key : Sql) (direction : Field.Direction)
    (nulls : Option Field.Nulls) : key.shown ⊆ (orderSql d key direction nulls).shown := by
  have htarget : key.shown ⊆ (orderSql d key direction none).shown := by
    cases direction <;> exact Sql.shown_append (by decide)
  match nulls with
  | none => exact htarget
  | some .first =>
      rw [orderSql_first]
      split
      · exact htarget.trans (Sql.shown_append (by decide))
      · exact htarget.trans (Sql.shown_behind (Sql.leads_word (by decide) (by decide)))
  | some .last =>
      rw [orderSql_last]
      split
      · exact htarget.trans (Sql.shown_append (by decide))
      · exact htarget.trans (Sql.shown_behind (Sql.leads_word (by decide) (by decide)))

theorem Order.sql_liftsAs (scope : Scope) {order : Order ν}
    (h : ∀ q ∈ order.expr.subqueries, (g q).LiftsAs Sql.shown (k q)) :
    ((order.map g).sql b.dialect scope).LiftsAs Sql.shown (order.map k).expr.lifted :=
  (order.expr.sql_liftsAs b scope h).map fun key _ => orderSql_shown _ key _ _

theorem assignmentSql_liftsAs (scope : Scope) {pair : String × Expr ν}
    (h : ∀ q ∈ pair.2.subqueries, (g q).LiftsAs Sql.shown (k q)) :
    (assignmentSql b.dialect scope (mapPair g pair)).LiftsAs Sql.shown (mapPair k pair).2.lifted :=
  (pair.2.sql_liftsAs b scope h).map fun _ _ =>
    Sql.shown_behind (Sql.leads_word (by decide) (by decide))

/-! Insertions. -/

theorem rowSql_shown (d : Dialect) (columns : List String) (values : List Sql) :
    Sql.shownInAny values ⊆ (rowSql d columns values).shown := by
  rintro name ⟨value, hvalue, hname⟩
  refine Sql.shown_append (by decide) ?_
  exact Sql.shown_behind (Sql.leads_word (by decide) (by decide)) (Sql.shown_commas hvalue hname)

theorem InsertSource.sql_liftsAs (attributes : List String) {source : InsertSource ν}
    (hexprs : ∀ e ∈ source.exprsOf, ∀ q ∈ e.subqueries, (g q).LiftsAs Sql.shown (k q))
    (hquery : ∀ q ∈ source.subquery?, (g q).LiftsAs Sql.shown (k q)) :
    ((source.map g).sql b.dialect attributes).LiftsAs Sql.shown (source.map k).lifted := by
  cases source with
  | exprs pairs =>
      simp only [InsertSource.map, InsertSource.sql, InsertSource.lifted, exprRowSql,
        List.flatMap_map, List.mapM_map]
      split
      · exact .fail _
      · refine (LiftsAs.mapM fun pair hpair => ?_).map fun values _ => rowSql_shown _ _ values
        exact pair.2.sql_liftsAs b Scope.none (hexprs pair.2 (List.mem_map_of_mem hpair))
  | values pairs =>
      simp only [InsertSource.map, InsertSource.sql, InsertSource.lifted, valueRowSql]
      split
      · exact .fail _
      · rw [← List.flatMap_singleton' (List.map _ _), List.flatMap_map]
        exact (LiftsAs.mapM fun pair _ => liftPlaceholder_liftsAs pair.2).map fun values _ =>
          rowSql_shown _ _ values
  | rows fields lines => exact .after (.ofExcept _) fun _ _ => .pure _
  | select fields q =>
      exact (hquery q rfl).map fun sql _ =>
        Sql.shown_behind (Sql.leads_word (by decide) (by decide))

theorem columnsText_apart (d : Dialect) (fields : List String) :
    (columnsText d fields : Sql).Apart := by
  unfold columnsText
  split
  · decide
  · rw [Sql.Apart, Sql.chars_ofString, String.toList_append, String.toList_append,
      List.append_assoc]
    exact ⟨by rfl, by simp⟩

/-- What is inserted keeps its names behind the name of the table. -/
theorem InsertSource.sql_behind (d : Dialect) (attributes : List String)
    (source : InsertSource (Build Sql)) : (source.sql d attributes).Ensures (fun _ _ => True)
      fun text => ∀ head : Sql, text.shown ⊆ (head ++ text).shown := by
  have hapart : ∀ text : Sql, text.Apart → ∀ head : Sql, text.shown ⊆ (head ++ text).shown :=
    fun text htext head => (Set.union_subset_iff.mp (Sql.shown_apart htext)).2
  have hrow : ∀ columns values, (rowSql d columns values).Apart := by
    intro columns values
    simp only [rowSql, Sql.append_assoc]
    exact Sql.apart_word (by decide) (by decide)
  cases source with
  | exprs pairs =>
      rw [InsertSource.sql, exprRowSql]
      split
      · trivial
      · exact (Build.Ensures.trivial _).bind fun values _ => .pure (hapart _ (hrow _ values))
  | values pairs =>
      rw [InsertSource.sql, valueRowSql]
      split
      · trivial
      · exact (Build.Ensures.trivial _).bind fun values _ => .pure (hapart _ (hrow _ values))
  | rows fields lines =>
      refine (Build.Ensures.trivial _).bind fun text _ => .pure fun head => ?_
      rw [Sql.shown_ofString]
      exact Set.empty_subset _
  | select fields build =>
      refine (Build.Ensures.trivial _).bind fun sql _ => .pure (hapart _ ?_)
      rw [Sql.append_assoc]
      exact (columnsText_apart d fields).append (Sql.apart_word (by decide) (by decide))

/-! Statements. -/

namespace Statement

/-- The clauses that say which tuples the rows are made of, one behind another. -/
theorem rowsSql_assembles (d : Dialect) (s : Statement (Build Sql)) (labels : Labels) :
    Assembles Sql.shown ∅
      (listClause " FROM " (fun (t, label) => TableRef.sql d t label)
          (s.tables.zip labels.tables) ::
        ((s.joins.zip labels.joins).map fun (join, label) => join.sql d labels.scope label) ++
          [conditionClause d labels.scope " WHERE " s.filter,
            listClause " GROUP BY " (Expr.sql d labels.scope) s.groups,
            conditionClause d labels.scope " HAVING " s.having])
      (s.rowsSql d labels) := by
  refine .part fun tables _ => (Assembles.texts _ _).bind fun joins hjoins => .part fun filter
    hfilter => .part fun groups hgroups => .part fun having hhaving => .done ?_
  have hclauses : ∀ clause ∈ joins ++ [filter, groups, having], clause.Apart := by
    refine List.forall_mem_append.mpr ⟨?_, List.forall_mem_cons.mpr ⟨?_,
      List.forall_mem_cons.mpr ⟨?_, List.forall_mem_singleton.mpr ?_⟩⟩⟩
    · exact hjoins.ensured (.mapM fun (join, label) _ => join.sql_apart d labels.scope label)
    · exact hfilter.ensured (conditionClause_apart d _ (by decide) (by decide) _)
    · exact hgroups.ensured (listClause_apart (by decide) (by decide) _)
    · exact hhaving.ensured (conditionClause_apart d _ (by decide) (by decide) _)
  have hshown := @Sql.shown_clauses tables _ hclauses
  simp only [Sql.concat_append, Sql.concat_cons, Sql.append_concat_nil, Sql.shownInAny_append,
    Sql.shownInAny_cons, Sql.shownInAny_nil, Set.union_empty] at hshown
  simpa only [Sql.append_assoc, Set.empty_union, Set.union_assoc] using hshown

theorem rowsSql_apart (d : Dialect) (s : Statement (Build Sql)) (labels : Labels) :
    (s.rowsSql d labels).Ensures (fun _ _ => True) Sql.Apart := by
  refine (listClause_apart (by decide) (by decide) _).bind fun tables htables => ?_
  refine (Build.Ensures.mapM fun (join, label) _ => join.sql_apart d labels.scope label).bind
    fun joins hjoins => ?_
  refine (conditionClause_apart d _ (by decide) (by decide) _).bind fun filter hfilter => ?_
  refine (listClause_apart (by decide) (by decide) _).bind fun groups hgroups => ?_
  refine (conditionClause_apart d _ (by decide) (by decide) _).bind fun having hhaving => ?_
  exact .pure ((((htables.append (Sql.apart_concat hjoins)).append hfilter).append hgroups).append
    hhaving)

/-- A selection of nothing in particular lifts nothing. -/
theorem lifted_of_isWildcard {items : List (SelectItem (List LiftedValue))}
    (h : isWildcard items = true) : items.flatMap (fun item => item.expr.lifted) = [] := by
  unfold isWildcard at h
  split at h
  · rfl
  · simp [Expr.lifted]
  · cases h

theorem selectSql_assembles (d : Dialect) {s : Statement (Build Sql)} {labels : Labels}
    (hlabels : Labels.resolve s = .ok labels)
    (hlimit : (d.limitOffset s.limit s.offset : Sql).Apart) :
    Assembles Sql.shown ∅
      [s.selectionSql d labels, s.rowsSql d labels,
        listClause " ORDER BY " (Order.sql d labels.scope) s.orders]
      (s.selectSql d) := by
  rw [selectSql_eq, hlabels]
  refine .part fun selection _ => .part fun rows hrows => .part fun orders horders => .done ?_
  have hclauses : ∀ clause ∈ [rows, orders, (d.limitOffset s.limit s.offset : Sql)],
      clause.Apart := by
    refine List.forall_mem_cons.mpr ⟨?_, List.forall_mem_cons.mpr ⟨?_,
      List.forall_mem_singleton.mpr hlimit⟩⟩
    · exact hrows.ensured (s.rowsSql_apart d labels)
    · exact horders.ensured (listClause_apart (by decide) (by decide) _)
  have hstart : selection.shown ⊆
      ((if s.distinct then "SELECT DISTINCT " else "SELECT ") ++ selection : Sql).shown := by
    refine Sql.shown_behind ?_
    split <;> decide
  have hshown := (Set.union_subset_union_left _ hstart).trans (Sql.shown_clauses hclauses)
  simp only [Sql.concat_cons, Sql.append_concat_nil, Sql.shownInAny_cons, Sql.shownInAny_nil,
    Sql.shown_ofString, Set.union_empty] at hshown
  simpa only [Sql.append_assoc, Set.empty_union, Set.union_assoc] using hshown

/-- The table that a statement writes to has a name, so that nothing is lifted for it. -/
theorem targetSql_liftsAs (d : Dialect) {verb : String} {tables : List (TableRef (Build Sql))}
    {t : TableRef (Build Sql)} {name : String} (htarget : target verb tables = .ok (t, name))
    (label : Option String) {shown : Sql → Set String} : (t.sql d label).LiftsAs shown [] := by
  have hname := (target_spec htarget).2
  obtain ⟨source, written, info⟩ := t
  cases source with
  | table name =>
      simp only [TableRef.sql]
      split
      · split <;> exact .pure _
      · exact .pure _
  | subquery build => cases hname

theorem updateSql_assembles (d : Dialect) {s : Statement (Build Sql)} {t : TableRef (Build Sql)}
    {name : String} (htarget : target "UPDATE" s.tables = .ok (t, name)) {labels : Labels}
    (hlabels : Labels.resolve s = .ok labels) :
    Assembles Sql.shown ∅
      [t.sql d labels.primary, listClause " SET " (assignmentSql d labels.scope) s.assignments,
        listClause " FROM " (fun (t, label) => TableRef.sql d t label)
          ((s.tables.zip labels.tables).drop 1),
        conditionClause d labels.scope " WHERE " s.filter]
      (s.updateSql d) := by
  rw [updateSql, htarget, hlabels]
  refine .known fun found hfound => ?_
  cases hfound
  dsimp only
  split
  · exact .fail
  split
  · exact .fail
  refine .known fun found hfound => ?_
  cases hfound
  refine .part fun target _ => .part fun assignments hassignments => .part fun others hothers =>
    .part fun filter hfilter => .done ?_
  have hclauses : ∀ clause ∈ [assignments, others, filter], clause.Apart := by
    refine List.forall_mem_cons.mpr ⟨?_, List.forall_mem_cons.mpr ⟨?_,
      List.forall_mem_singleton.mpr ?_⟩⟩
    · exact hassignments.ensured (listClause_apart (by decide) (by decide) _)
    · exact hothers.ensured (listClause_apart (by decide) (by decide) _)
    · exact hfilter.ensured (conditionClause_apart d _ (by decide) (by decide) _)
  have hstart : target.shown ⊆ ("UPDATE " ++ target : Sql).shown := Sql.shown_behind (by decide)
  have hshown := (Set.union_subset_union_left _ hstart).trans (Sql.shown_clauses hclauses)
  simp only [Sql.concat_cons, Sql.append_concat_nil, Sql.shownInAny_cons, Sql.shownInAny_nil,
    Set.union_empty] at hshown
  simpa only [Sql.append_assoc, Set.empty_union, Set.union_assoc] using hshown

variable {s : Statement ν} (h : ∀ q ∈ s.subqueries, (g q).LiftsAs Sql.shown (k q))

include h

theorem exprSql_liftsAs (scope : Scope) {e : Expr ν} (he : e ∈ s.exprs) :
    ((e.map g).sql b.dialect scope).LiftsAs Sql.shown (e.map k).lifted :=
  e.sql_liftsAs b scope fun q hq => h q (mem_subqueries_of_expr he hq)

theorem selectionSql_liftsAs (labels : Labels) :
    ((s.map g).selectionSql b.dialect labels).LiftsAs Sql.shown
      ((s.map k).fields.flatMap fun item => item.expr.lifted) := by
  have hfields : isWildcard (s.map g).fields = isWildcard (s.map k).fields :=
    (isWildcard_map g s.fields).trans (isWildcard_map k s.fields).symm
  rw [selectionSql, hfields]
  split
  · rename_i hwildcard
    rw [lifted_of_isWildcard hwildcard]
    exact .pure _
  · change (listClause "" _ (s.fields.map (SelectItem.map g))).LiftsAs Sql.shown
      ((s.fields.map (SelectItem.map k)).flatMap _)
    rw [List.flatMap_map]
    exact listClause_liftsAs (by decide) fun item hitem => item.sql_liftsAs labels.scope fun q hq =>
      h q (mem_subqueries_of_expr (mem_exprs_of_field hitem) hq)

theorem filterClause_liftsAs (scope : Scope) :
    (conditionClause b.dialect scope " WHERE " (s.map g).filter).LiftsAs Sql.shown
      ((s.map k).filter.toList.flatMap Expr.lifted) :=
  conditionClause_liftsAs scope (by decide) fun e he q hq =>
    h q (mem_subqueries_of_expr (mem_exprs_of_filter he) hq)

/-- Tables with their labels, of which there are as many. -/
theorem tableClause_liftsAs {word : String} (hword : (word : Sql).Leads)
    {tables : List (TableRef ν)} {labels : List (Option String)}
    (hlength : labels.length = tables.length) (hmem : ∀ t ∈ tables, t ∈ s.tables) :
    (listClause word (fun (t, label) => TableRef.sql b.dialect t label)
      ((tables.map (TableRef.map g)).zip labels)).LiftsAs Sql.shown
        ((tables.map (TableRef.map k)).flatMap TableRef.lifted) := by
  have hzip : (tables.map (TableRef.map k)).flatMap TableRef.lifted =
      (tables.zip labels).flatMap fun table => (table.1.map k).lifted := by
    conv_lhs => rw [← List.map_fst_zip hlength.ge, List.map_map, List.flatMap_map]
    rfl
  rw [hzip, List.zip_map_left]
  refine listClause_liftsAs hword fun table htable => ?_
  refine table.1.sql_liftsAs b.dialect table.2 fun q hq => ?_
  have ht := hmem _ (List.of_mem_zip htable).1
  exact h q (mem_subqueries_of_table (mem_allTables_of_table ht) hq)

theorem joinSql_liftsAs (scope : Scope) (label : Option String) {join : Join ν}
    (hjoin : join ∈ s.joins) :
    ((join.map g).sql b.dialect scope label).LiftsAs Sql.shown (join.map k).lifted := by
  refine join.sql_liftsAs scope label (fun q hq => ?_) fun e he q hq => ?_
  · exact h q (mem_subqueries_of_table (mem_allTables_of_join hjoin) hq)
  · exact h q (mem_subqueries_of_expr (mem_exprs_of_join hjoin he) hq)

theorem rowsSql_liftsAs {labels : Labels} (hlabels : Labels.resolve s = .ok labels) :
    ((s.map g).rowsSql b.dialect labels).LiftsAs Sql.shown (s.map k).rowsLifted := by
  obtain ⟨htables, hjoins, -⟩ := Labels.resolve_ok hlabels
  have hzip : (s.map k).joins.map Join.lifted =
      (s.joins.zip labels.joins).map fun join => (join.1.map k).lifted := by
    change (s.joins.map _).map _ = _
    conv_lhs => rw [← List.map_fst_zip hjoins.ge, List.map_map, List.map_map]
    rfl
  have hrows : (s.map k).rowsLifted = List.flatten ((s.map k).tables.flatMap TableRef.lifted ::
      ((s.map k).joins.map Join.lifted ++ [(s.map k).filter.toList.flatMap Expr.lifted,
        (s.map k).groups.flatMap Expr.lifted, (s.map k).having.toList.flatMap Expr.lifted])) := by
    simp [rowsLifted, List.flatMap_def]
  rw [hrows]
  refine ((s.map g).rowsSql_assembles b.dialect labels).liftsAs _
    (.cons ?_ (List.rel_append ?_ (.cons ?_ (.cons ?_ (.cons ?_ .nil)))))
  · exact tableClause_liftsAs h (by decide) htables fun _ ht => ht
  · change List.Forall₂ _ (((s.joins.map (Join.map g)).zip labels.joins).map _) _
    rw [hzip, List.zip_map_left, List.map_map, List.forall₂_map_left_iff,
      List.forall₂_map_right_iff, List.forall₂_same]
    exact fun join hjoin => joinSql_liftsAs h labels.scope join.2 (List.of_mem_zip hjoin).1
  · exact filterClause_liftsAs h labels.scope
  · change (listClause " GROUP BY " _ (s.groups.map (Expr.map g))).LiftsAs Sql.shown
      ((s.groups.map (Expr.map k)).flatMap _)
    rw [List.flatMap_map]
    exact listClause_liftsAs (by decide) fun e he =>
      exprSql_liftsAs h labels.scope (mem_exprs_of_group he)
  · exact conditionClause_liftsAs labels.scope (by decide) fun e he q hq =>
      h q (mem_subqueries_of_expr (mem_exprs_of_having he) hq)

theorem selectSql_liftsAs : ((s.map g).selectSql b.dialect).LiftsAs Sql.shown
    ((s.map k).fields.flatMap (fun item => item.expr.lifted) ++
      ((s.map k).rowsLifted ++ (s.map k).orders.flatMap fun order => order.expr.lifted)) := by
  cases hlabels : Labels.resolve s with
  | error fault =>
      rw [selectSql_eq, Labels.resolve_map, hlabels]
      exact .fail fault
  | ok labels =>
      have hlimit : (b.dialect.limitOffset s.limit s.offset : Sql).Apart :=
        Sql.apart_of_calm (b.tame.limitOffset _ _).1 (b.tame.limitOffset _ _).2
      have hmap : Labels.resolve (s.map g) = .ok labels := by rw [Labels.resolve_map, hlabels]
      have horders : (listClause " ORDER BY " (Order.sql b.dialect labels.scope)
          (s.orders.map (Order.map g))).LiftsAs Sql.shown
            (s.orders.flatMap fun order => (order.map k).expr.lifted) :=
        listClause_liftsAs (by decide) fun order horder => order.sql_liftsAs labels.scope
          fun q hq => h q (mem_subqueries_of_expr (mem_exprs_of_order horder) hq)
      have hparts := (selectSql_assembles b.dialect hmap hlimit).liftsAs _
        (.cons (selectionSql_liftsAs h labels) (.cons (rowsSql_liftsAs h hlabels)
          (.cons horders .nil)))
      simpa [map, List.flatMap_map] using hparts

theorem insertSql_liftsAs : ((s.map g).insertSql b.dialect).LiftsAs Sql.shown
    ((s.map k).source.toList.flatMap InsertSource.lifted) := by
  refine .after (.ofExcept _) fun (t, name) _ => ?_
  cases hsource : s.source with
  | none =>
      simp only [map, hsource]
      exact .fail _
  | some source =>
      simp only [map, hsource, Option.map_some, Option.toList_some, List.flatMap_singleton]
      refine (source.sql_liftsAs _ (fun e he q hq => ?_) fun q hq => ?_).map fun text htext =>
        htext.ensured ((source.map g).sql_behind b.dialect _) _
      · cases source with
        | exprs pairs =>
            obtain ⟨pair, hpair, rfl⟩ := List.mem_map.mp he
            exact h q (mem_subqueries_of_expr (mem_exprs_of_source hsource hpair) hq)
        | values | rows | select => exact absurd he List.not_mem_nil
      · cases source with
        | select fields q' =>
            obtain rfl := Option.some.inj hq
            exact h _ (mem_subqueries_of_source hsource)
        | exprs | values | rows => cases hq

theorem updateSql_liftsAs : ((s.map g).updateSql b.dialect).LiftsAs Sql.shown
    ((s.map k).assignments.flatMap (fun pair => pair.2.lifted) ++
      (((s.map k).tables.drop 1).flatMap TableRef.lifted ++
        (s.map k).filter.toList.flatMap Expr.lifted)) := by
  cases htarget : target "UPDATE" (s.map g).tables with
  | error fault =>
      rw [updateSql, htarget]
      exact .fail fault
  | ok found =>
      cases hlabels : Labels.resolve (s.map g) with
      | error fault =>
          rw [updateSql, htarget, hlabels]
          obtain ⟨t, name⟩ := found
          change LiftsAs _ _ (if _ then _ else if _ then _ else _)
          split
          · exact .fail _
          split
          · exact .fail _
          · exact .fail fault
      | ok labels =>
          have hlength : labels.tables.length = s.tables.length :=
            (Labels.length_tables hlabels).trans (List.length_map _)
          have hassignments : (listClause " SET " (assignmentSql b.dialect labels.scope)
              (s.map g).assignments).LiftsAs Sql.shown
                ((s.map k).assignments.flatMap fun pair => pair.2.lifted) := by
            change (listClause " SET " _ (s.assignments.map (mapPair g))).LiftsAs Sql.shown
              ((s.assignments.map (mapPair k)).flatMap _)
            rw [List.flatMap_map]
            exact listClause_liftsAs (by decide) fun pair hpair => assignmentSql_liftsAs _
              fun q hq => h q (mem_subqueries_of_expr (mem_exprs_of_assignment hpair) hq)
          have hothers : (listClause " FROM " (fun (t, label) => TableRef.sql b.dialect t label)
              (((s.map g).tables.zip labels.tables).drop 1)).LiftsAs Sql.shown
                (((s.map k).tables.drop 1).flatMap TableRef.lifted) := by
            rw [List.zip, List.drop_zipWith, tables_map, tables_map, ← List.map_drop,
              ← List.map_drop]
            exact tableClause_liftsAs h (by decide) (by simp [hlength])
              fun t ht => List.mem_of_mem_drop ht
          have hparts := (updateSql_assembles b.dialect htarget hlabels).liftsAs _
            (.cons (targetSql_liftsAs b.dialect htarget _) (.cons hassignments (.cons hothers
              (.cons (filterClause_liftsAs h _) .nil))))
          simpa using hparts

theorem deleteSql_liftsAs : ((s.map g).deleteSql b.dialect).LiftsAs Sql.shown
    ((s.map k).filter.toList.flatMap Expr.lifted) := by
  cases htarget : target "DELETE FROM" (s.map g).tables with
  | error fault =>
      rw [deleteSql, htarget]
      exact .fail fault
  | ok found =>
      rw [deleteSql, htarget]
      obtain ⟨t, name⟩ := found
      change LiftsAs _ _ (if _ then _ else _)
      split
      · exact .fail _
      cases hfilter : s.filter with
      | none =>
          simp only [map, hfilter]
          exact .fail _
      | some filter =>
          simp only [map, hfilter, Option.map_some, Option.toList_some, List.flatMap_singleton]
          split
          · exact .fail _
          refine .after (.ofExcept _) fun labels _ => .after (targetSql_liftsAs b.dialect htarget _)
            fun target _ => ?_
          exact (exprSql_liftsAs h labels.scope (mem_exprs_of_filter hfilter)).map fun _ _ =>
            Sql.shown_behind (Sql.leads_word (by decide) (by decide))

/-- A statement lifts the values of its clauses, and keeps the names of those whose text is kept. -/
theorem sql_liftsAs : ((s.map g).sql b.dialect).LiftsAs Sql.shown (s.map k).lifted := by
  have hkind : (s.map g).kind = s.kind := rfl
  have hkind' : (s.map k).kind = s.kind := rfl
  rw [Statement.sql, lifted, hkind, hkind']
  cases s.kind with
  | select => exact selectSql_liftsAs h
  | insert => exact insertSql_liftsAs h
  | update => exact updateSql_liftsAs h
  | delete => exact deleteSql_liftsAs h

end Statement

end QueryCompiler
