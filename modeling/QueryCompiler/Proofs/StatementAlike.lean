import QueryCompiler.Compile.Query
import QueryCompiler.Proofs.ExprAlike
import QueryCompiler.Proofs.LabelLaws

/-!
# Statements are compiled alike without their data

Clause by clause, a statement and the one without its data have alike compilations, if the nested
queries have.
-/
namespace QueryCompiler

open Build (Alike)

variable {allowed : Bag → Prop} {ν : Type} {g g' : ν → Build Sql} (d : Dialect)

theorem listClause_alike {ι κ : Type} {f : ι → Build Sql} {f' : κ → Build Sql} {xs : List ι}
    {ys : List κ} (word : String)
    (h : List.Forall₂ (fun x y => Alike allowed Eq (f x) (f' y)) xs ys) :
    Alike allowed Eq (listClause word f xs) (listClause word f' ys) := by
  have hempty : xs.isEmpty = ys.isEmpty := by cases h <;> rfl
  rw [listClause, listClause, hempty]
  split
  · exact .pure rfl
  · exact (Alike.mapM_eq h).bindEq fun _ => .pure rfl

/-- The items of a clause may be compared one by one in the original list. -/
theorem listClause_alike_map {ι κ κ' : Type} {f : κ → Build Sql} {f' : κ' → Build Sql}
    {a : ι → κ} {b : ι → κ'} {xs : List ι} (word : String)
    (h : ∀ x ∈ xs, Alike allowed Eq (f (a x)) (f' (b x))) :
    Alike allowed Eq (listClause word f (xs.map a)) (listClause word f' (xs.map b)) := by
  refine listClause_alike word ?_
  rwa [List.forall₂_map_left_iff, List.forall₂_map_right_iff, List.forall₂_same]

theorem conditionClause_alike (scope : Scope) (word : String) (e : Option (Expr ν))
    (h : ∀ e' ∈ e, ∀ q ∈ e'.subqueries, Alike allowed Eq (g q) (g' q)) :
    Alike allowed Eq (conditionClause d scope word (e.map (Expr.map g)))
      (conditionClause d scope word ((e.map Expr.withoutData).map (Expr.map g'))) := by
  cases e with
  | none => exact .pure rfl
  | some e => exact (e.sql_alike d scope (h e rfl)).bindEq fun _ => .pure rfl

namespace TableRef

theorem sql_alike (t : TableRef ν) (label : Option String)
    (h : ∀ q ∈ t.source.subquery?, Alike allowed Eq (g q) (g' q)) :
    Alike allowed Eq (TableRef.sql d (t.map g) label) (TableRef.sql d (t.map g') label) := by
  obtain ⟨source, written, info⟩ := t
  cases source with
  | table name =>
      cases label with
      | none => exact .pure rfl
      | some label =>
          simp only [TableRef.map, TableRef.sql]
          split <;> exact .pure rfl
  | subquery q =>
      have hq : Alike allowed Eq (g q) (g' q) := h q rfl
      exact (hq.bindEq fun _ => .pure rfl).bindEq fun _ => .pure rfl

end TableRef

theorem JoinCondition.sql_alike (scope : Scope) (joined : String) (condition : JoinCondition ν)
    (h : ∀ e, condition = .expr e → ∀ q ∈ e.subqueries, Alike allowed Eq (g q) (g' q)) :
    Alike allowed Eq (((condition.map g).toExpr scope.label joined).sql d scope)
      (((condition.withoutData.map g').toExpr scope.label joined).sql d scope) := by
  rw [toExpr_map, toExpr_map, toExpr_withoutData]
  refine Expr.sql_alike d scope _ fun q hq => ?_
  obtain ⟨e, he, hmem⟩ := mem_subqueries_toExpr _ _ hq
  exact h e he q hmem

theorem Join.sql_alike (scope : Scope) (label : Option String) (join : Join ν)
    (htable : ∀ q ∈ join.table.source.subquery?, Alike allowed Eq (g q) (g' q))
    (hcondition : ∀ e, join.condition = some (.expr e) → ∀ q ∈ e.subqueries,
      Alike allowed Eq (g q) (g' q)) :
    Alike allowed Eq ((join.map g).sql d scope label) ((join.withoutData.map g').sql d scope label) := by
  obtain ⟨t, kind, condition⟩ := join
  simp only [Join.map, Join.withoutData, Join.sql, Join.shownLabel, TableRef.name?_map]
  refine (Alike.ofExcept _).bindEq fun kind => (t.sql_alike d label htable).bindEq fun table => ?_
  cases condition with
  | none =>
      cases kind.requiresOn with
      | false => exact .pure rfl
      | true => exact .fail _ _
  | some condition =>
      cases kind.requiresOn with
      | false => exact .fail _ _
      | true =>
          refine (condition.sql_alike d scope _ fun e he => ?_).bindEq fun _ => .pure rfl
          exact hcondition e (by rw [he])

theorem SelectItem.parts_alike (scope : Scope) (item : SelectItem ν)
    (h : ∀ q ∈ item.expr.subqueries, Alike allowed Eq (g q) (g' q)) :
    Alike allowed Eq ((item.map g).parts d scope) ((item.withoutData.map g').parts d scope) := by
  obtain ⟨e, label⟩ := item
  have hexpr := e.sql_alike d scope h
  cases e with
  | field name written => exact (Alike.ofExcept _).bindEq fun _ => .pure rfl
  | literal | param | op | call | subquery | shorthand => exact hexpr.bindEq fun _ => .pure rfl

theorem SelectItem.sql_alike (scope : Scope) (item : SelectItem ν)
    (h : ∀ q ∈ item.expr.subqueries, Alike allowed Eq (g q) (g' q)) :
    Alike allowed Eq ((item.map g).sql d scope) ((item.withoutData.map g').sql d scope) := by
  refine (item.parts_alike d scope h).bindEq fun parts => ?_
  obtain ⟨sql, label⟩ := parts
  cases label <;> exact .pure rfl

theorem Order.sql_alike (scope : Scope) (order : Order ν)
    (h : ∀ q ∈ order.expr.subqueries, Alike allowed Eq (g q) (g' q)) :
    Alike allowed Eq ((order.map g).sql d scope) ((order.withoutData.map g').sql d scope) :=
  (order.expr.sql_alike d scope h).bindEq fun _ => .pure rfl

theorem assignmentSql_alike (scope : Scope) (pair : String × Expr ν)
    (h : ∀ q ∈ pair.2.subqueries, Alike allowed Eq (g q) (g' q)) :
    Alike allowed Eq (assignmentSql d scope (mapPair g pair))
      (assignmentSql d scope (mapPair g' (pairWithoutData pair))) :=
  (pair.2.sql_alike d scope h).bindEq fun _ => .pure rfl

theorem exprRowSql_alike (pairs : List (String × Expr ν))
    (h : ∀ pair ∈ pairs, ∀ q ∈ pair.2.subqueries, Alike allowed Eq (g q) (g' q)) :
    Alike allowed Eq (exprRowSql d (pairs.map (mapPair g)))
      (exprRowSql d ((pairs.map pairWithoutData).map (mapPair g'))) := by
  have hnames : ((pairs.map pairWithoutData).map (mapPair g')).map (·.1) =
      (pairs.map (mapPair g)).map (·.1) := by
    simp [pairWithoutData, mapPair]
  have hempty : ((pairs.map pairWithoutData).map (mapPair g')).isEmpty =
      (pairs.map (mapPair g)).isEmpty := by
    simp
  rw [exprRowSql, exprRowSql, hnames, hempty]
  split
  · exact .fail _ _
  · refine (Alike.mapM_eq ?_).bindEq fun _ => .pure rfl
    rw [List.map_map, List.forall₂_map_left_iff, List.forall₂_map_right_iff, List.forall₂_same]
    exact fun pair hpair => pair.2.sql_alike d Scope.none (h pair hpair)

theorem valueRowSql_alike (pairs : List (String × Value)) :
    Alike allowed Eq (valueRowSql d pairs)
      (valueRowSql d (pairs.map fun (name, _) => (name, Value.erased))) := by
  have hnames : (pairs.map fun (name, _) => (name, Value.erased)).map (·.1) = pairs.map (·.1) := by
    simp
  rw [valueRowSql, valueRowSql, hnames, List.isEmpty_map]
  split
  · exact .fail _ _
  · refine (Alike.mapM_eq ?_).bindEq fun _ => .pure rfl
    rw [List.forall₂_map_right_iff, List.forall₂_same]
    exact fun pair _ => liftPlaceholder_alike _ _

theorem InsertSource.sql_alike (attributes : List String) (source : InsertSource ν)
    (hexprs : ∀ e ∈ source.exprsOf, ∀ q ∈ e.subqueries, Alike allowed Eq (g q) (g' q))
    (hquery : ∀ q ∈ source.subquery?, Alike allowed Eq (g q) (g' q)) :
    Alike allowed Eq ((source.map g).sql d attributes)
      ((source.withoutData.map g').sql d attributes) := by
  cases source with
  | exprs pairs =>
      exact exprRowSql_alike d pairs fun pair hpair =>
        hexprs pair.2 (List.mem_map_of_mem hpair)
  | values pairs => exact valueRowSql_alike d pairs
  | rows fields lines => exact (Alike.ofExcept _).bindEq fun _ => .pure rfl
  | select fields q =>
      have hq : Alike allowed Eq (g q) (g' q) := hquery q rfl
      exact hq.bindEq fun _ => .pure rfl

namespace Statement

variable (s : Statement ν) (h : ∀ q ∈ s.subqueries, Alike allowed Eq (g q) (g' q))

include h

theorem selectionSql_alike (labels : Labels) :
    Alike allowed Eq ((s.map g).selectionSql d labels)
      ((s.withoutData.map g').selectionSql d labels) := by
  have hfields : isWildcard (s.map g).fields = isWildcard s.fields := isWildcard_map g s.fields
  have hfields' : isWildcard (s.withoutData.map g').fields = isWildcard s.fields :=
    (isWildcard_map g' s.withoutData.fields).trans (isWildcard_withoutData s.fields)
  rw [selectionSql, selectionSql, hfields, hfields', wildcardText_map, wildcardText_map,
    wildcardText_withoutData]
  split
  · exact .pure rfl
  · simp only [map, withoutData, List.map_map]
    exact listClause_alike_map _ fun item hitem => item.sql_alike d _ fun q hq =>
      h q (mem_subqueries_of_expr (mem_exprs_of_field hitem) hq)

theorem tableSql_alike {t : TableRef ν} {label : Option String}
    {labels : List (Option String)} (ht : (t, label) ∈ s.tables.zip labels) :
    Alike allowed Eq (TableRef.sql d (t.map g) label) (TableRef.sql d (t.map g') label) :=
  t.sql_alike d label fun q hq =>
    h q (mem_subqueries_of_table (mem_allTables_of_table (List.of_mem_zip ht).1) hq)

theorem joinSql_alike (scope : Scope) {join : Join ν} (hj : join ∈ s.joins)
    (label : Option String) :
    Alike allowed Eq ((join.map g).sql d scope label)
      ((join.withoutData.map g').sql d scope label) := by
  refine join.sql_alike d scope label ?_ ?_
  · exact fun q hq => h q (mem_subqueries_of_table (mem_allTables_of_join hj) hq)
  · exact fun e he q hq => h q (mem_subqueries_of_expr (mem_exprs_of_join hj he) hq)

theorem selectSql_alike :
    Alike allowed Eq ((s.map g).selectSql d) ((s.withoutData.map g').selectSql d) := by
  have hdistinct : (s.withoutData.map g').distinct = (s.map g).distinct := rfl
  have hlimit : (s.withoutData.map g').limit = (s.map g).limit := rfl
  have hoffset : (s.withoutData.map g').offset = (s.map g).offset := rfl
  rw [selectSql, selectSql, Labels.resolve_map, Labels.resolve_map, Labels.resolve_withoutData,
    hdistinct, hlimit, hoffset]
  refine (Alike.ofExcept _).bindEq fun labels => ?_
  refine (s.selectionSql_alike d h labels).bindEq fun selection => ?_
  refine Alike.bindEq ?_ fun tables => Alike.bindEq ?_ fun joins => Alike.bindEq ?_ fun filter =>
    Alike.bindEq ?_ fun groups => Alike.bindEq ?_ fun having => Alike.bindEq ?_ fun orders =>
      .pure rfl
  · simp only [map, withoutData, List.zip_map_left]
    refine listClause_alike_map _ ?_
    rintro ⟨t, label⟩ ht
    exact s.tableSql_alike d h ht
  · simp only [map, withoutData, List.zip_map_left, List.map_map]
    refine .mapM_eq ?_
    rw [List.forall₂_map_left_iff, List.forall₂_map_right_iff, List.forall₂_same]
    rintro ⟨join, label⟩ hj
    exact s.joinSql_alike d h _ (List.of_mem_zip hj).1 label
  · exact conditionClause_alike d _ _ s.filter fun e he q hq =>
      h q (mem_subqueries_of_expr (mem_exprs_of_filter he) hq)
  · simp only [map, withoutData, List.map_map]
    exact listClause_alike_map _ fun e he => e.sql_alike d _ fun q hq =>
      h q (mem_subqueries_of_expr (mem_exprs_of_group he) hq)
  · exact conditionClause_alike d _ _ s.having fun e he q hq =>
      h q (mem_subqueries_of_expr (mem_exprs_of_having he) hq)
  · simp only [map, withoutData, List.map_map]
    exact listClause_alike_map _ fun order horder => order.sql_alike d _ fun q hq =>
      h q (mem_subqueries_of_expr (mem_exprs_of_order horder) hq)

theorem insertSql_alike :
    Alike allowed Eq ((s.map g).insertSql d) ((s.withoutData.map g').insertSql d) := by
  have htables : (s.map g).tables = s.tables.map (TableRef.map g) := rfl
  have htables' : (s.withoutData.map g').tables = s.tables.map (TableRef.map g') := rfl
  rw [insertSql, insertSql, htables, htables', target_map, target_map]
  cases target "INSERT INTO" s.tables with
  | error fault => exact .fail _ _
  | ok found =>
      obtain ⟨t, name⟩ := found
      cases hsource : s.source with
      | none =>
          simp only [map, withoutData, hsource]
          exact .fail _ _
      | some source =>
          have hattributes : (t.map g).attributes = (t.map g').attributes := by simp
          simp only [map, withoutData, hsource, Option.map_some]
          change Alike allowed Eq ((source.map g).sql d (t.map g).attributes >>= _)
            ((source.withoutData.map g').sql d (t.map g').attributes >>= _)
          rw [hattributes]
          refine (source.sql_alike d _ ?_ ?_).bindEq fun _ => .pure rfl
          · intro e he q hq
            refine h q (mem_subqueries_of_expr ?_ hq)
            cases source with
            | exprs pairs =>
                obtain ⟨pair, hpair, rfl⟩ := List.mem_map.mp he
                exact mem_exprs_of_source hsource hpair
            | values | rows | select => exact absurd he List.not_mem_nil
          · intro q hq
            cases source with
            | select fields q' =>
                obtain rfl := Option.some.inj hq
                exact h _ (mem_subqueries_of_source hsource)
            | exprs | values | rows => cases hq

theorem updateSql_alike :
    Alike allowed Eq ((s.map g).updateSql d) ((s.withoutData.map g').updateSql d) := by
  have htables : (s.map g).tables = s.tables.map (TableRef.map g) := rfl
  have htables' : (s.withoutData.map g').tables = s.tables.map (TableRef.map g') := rfl
  have hjoins : (s.withoutData.map g').joins.isEmpty = (s.map g).joins.isEmpty := by
    simp [map, withoutData]
  have hassignments : (s.withoutData.map g').assignments.isEmpty =
      (s.map g).assignments.isEmpty := by
    simp [map, withoutData]
  rw [updateSql, updateSql, htables, htables', target_map, target_map, hjoins, hassignments,
    Labels.resolve_map, Labels.resolve_map, Labels.resolve_withoutData]
  cases htarget : target "UPDATE" s.tables with
  | error fault => exact .fail _ _
  | ok found =>
      obtain ⟨t, name⟩ := found
      have ht : t ∈ s.tables := (target_spec htarget).1
      change Alike allowed Eq (if _ then _ else _) (if _ then _ else _)
      split
      · exact .fail _ _
      · split
        · exact .fail _ _
        · refine (Alike.ofExcept _).bindEq fun labels => ?_
          refine Alike.bindEq ?_ fun table => Alike.bindEq ?_ fun assignments =>
            Alike.bindEq ?_ fun others => Alike.bindEq ?_ fun filter => .pure rfl
          · exact t.sql_alike d _ fun q hq =>
              h q (mem_subqueries_of_table (mem_allTables_of_table ht) hq)
          · simp only [map, withoutData, List.map_map]
            exact listClause_alike_map _ fun pair hpair => assignmentSql_alike d _ pair fun q hq =>
              h q (mem_subqueries_of_expr (mem_exprs_of_assignment hpair) hq)
          · simp only [List.zip_map_left, ← List.map_drop]
            refine listClause_alike_map _ ?_
            rintro ⟨t, label⟩ ht
            exact s.tableSql_alike d h (List.mem_of_mem_drop ht)
          · exact conditionClause_alike d _ _ s.filter fun e he q hq =>
              h q (mem_subqueries_of_expr (mem_exprs_of_filter he) hq)

theorem deleteSql_alike :
    Alike allowed Eq ((s.map g).deleteSql d) ((s.withoutData.map g').deleteSql d) := by
  have htables : (s.map g).tables = s.tables.map (TableRef.map g) := rfl
  have htables' : (s.withoutData.map g').tables = s.tables.map (TableRef.map g') := rfl
  have hjoins : (s.withoutData.map g').joins.isEmpty = (s.map g).joins.isEmpty := by
    simp [map, withoutData]
  rw [deleteSql, deleteSql, htables, htables', target_map, target_map, List.length_map,
    List.length_map, hjoins, Labels.resolve_map, Labels.resolve_map, Labels.resolve_withoutData]
  cases htarget : target "DELETE FROM" s.tables with
  | error fault => exact .fail _ _
  | ok found =>
      obtain ⟨t, name⟩ := found
      have ht : t ∈ s.tables := (target_spec htarget).1
      change Alike allowed Eq (if _ then _ else _) (if _ then _ else _)
      split
      · exact .fail _ _
      · cases hfilter : s.filter with
        | none =>
            simp only [map, withoutData, hfilter]
            exact .fail _ _
        | some filter =>
            simp only [map, withoutData, hfilter, Option.map_some, Expr.isVacuous_map,
              Expr.isVacuous_withoutData]
            split
            · exact .fail _ _
            · refine (Alike.ofExcept _).bindEq fun labels => Alike.bindEq ?_ fun table =>
                Alike.bindEq ?_ fun condition => .pure rfl
              · exact t.sql_alike d _ fun q hq =>
                  h q (mem_subqueries_of_table (mem_allTables_of_table ht) hq)
              · exact filter.sql_alike d _ fun q hq =>
                  h q (mem_subqueries_of_expr (mem_exprs_of_filter hfilter) hq)

/-- Without its data a statement is compiled alike. -/
theorem sql_alike : Alike allowed Eq ((s.map g).sql d) ((s.withoutData.map g').sql d) := by
  have hkind : (s.withoutData.map g').kind = (s.map g).kind := rfl
  rw [Statement.sql, Statement.sql, hkind]
  cases (s.map g).kind with
  | select => exact s.selectSql_alike d h
  | insert => exact s.insertSql_alike d h
  | update => exact s.updateSql_alike d h
  | delete => exact s.deleteSql_alike d h

end Statement

end QueryCompiler
