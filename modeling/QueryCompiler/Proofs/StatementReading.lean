import QueryCompiler.Compile.Query
import QueryCompiler.Proofs.ExprReading
import QueryCompiler.Proofs.LabelLaws

/-!
# Statements are read back

Clause by clause, a plain statement is written safely in a tame dialect.
-/
namespace QueryCompiler

open Sql (Safe safe_text)

/-- A safe text that may stand behind a placeholder. -/
def Sql.SafeBehind (H : String → Value → Prop) (sql : Sql) : Prop := Safe H sql ∧ Breaks sql.chars

variable {H : String → Value → Prop}

theorem Sql.Safe.behind {a b : Sql} (ha : Safe H a) (hb : SafeBehind H b) : Safe H (a ++ b) :=
  ha.append hb.1 hb.2

theorem Trailing.safeBehind {s : String} (h : Trailing s) : Sql.SafeBehind H s :=
  ⟨safe_text h.1, Sql.breaks_text h.2⟩

theorem Trailing.safeBehind_append {s : String} (h : Trailing s) (hne : s ≠ "") {sql : Sql}
    (hsql : Safe H sql) : Sql.SafeBehind H ((s : Sql) ++ sql) :=
  ⟨Safe.text_append h.1 hsql, Sql.breaks_text_append hne h.2⟩

/-! Clauses. -/

theorem safe_listClause {ι : Type} {f : ι → Build Sql} {xs : List ι} {word : String}
    (hword : Calm word) (h : ∀ x ∈ xs, (f x).Ensures H (Safe H)) :
    (listClause word f xs).Ensures H (Safe H) := by
  unfold listClause
  split
  · exact .pure (safe_text quiet_empty)
  · exact (Build.Ensures.mapM h).bind fun sqls hsqls =>
      .pure (Safe.text_append hword (Sql.safe_commas hsqls))

theorem safeBehind_listClause {ι : Type} {f : ι → Build Sql} {xs : List ι} {word : String}
    (hword : Trailing word) (hne : word ≠ "") (h : ∀ x ∈ xs, (f x).Ensures H (Safe H)) :
    (listClause word f xs).Ensures H (Sql.SafeBehind H) := by
  unfold listClause
  split
  · exact .pure (Trailing.safeBehind (by decide))
  · exact (Build.Ensures.mapM h).bind fun sqls hsqls =>
      .pure (hword.safeBehind_append hne (Sql.safe_commas hsqls))

theorem calm_joinType (kind : JoinType) : Calm kind.display := by
  refine quiet_intercalate (by decide) ?_
  obtain ⟨cross, natural, side, outer⟩ := kind
  obtain _ | side := side
  · cases cross <;> cases natural <;> cases outer <;> decide
  · cases side <;> cases cross <;> cases natural <;> cases outer <;> decide

section Clauses

variable {d : Dialect} (hd : d.Tame)

include hd

theorem safe_orderSql {key : Sql} (hkey : Safe H key) (direction : Field.Direction)
    (nulls : Option Field.Nulls) : Safe H (orderSql d key direction nulls) := by
  have htarget : Safe H (orderSql d key direction none) := by
    cases direction with
    | ascending => exact hkey.behind (Trailing.safeBehind (by decide))
    | descending => exact hkey.behind (Trailing.safeBehind (by decide))
  have hnull := hd.markedNullKey H key hkey
  cases nulls with
  | none => exact htarget
  | some nulls =>
      cases nulls with
      | first =>
          simp only [orderSql]
          split
          · exact htarget.behind (Trailing.safeBehind (by decide))
          · rw [Sql.append_assoc]
            exact hnull.behind (Trailing.safeBehind_append (by decide) (by decide) htarget)
      | last =>
          simp only [orderSql]
          split
          · exact htarget.behind (Trailing.safeBehind (by decide))
          · rw [Sql.append_assoc]
            exact hnull.behind (Trailing.safeBehind_append (by decide) (by decide) htarget)

theorem safe_rowSql (columns : List String) {values : List Sql} (h : ∀ v ∈ values, Safe H v) :
    Safe H (rowSql d columns values) := by
  unfold rowSql
  simp only [Sql.append_assoc]
  refine Safe.text_append (by decide) (Safe.text_append (hd.composes.columnList columns) ?_)
  refine Safe.text_append (by decide) ((Sql.safe_commas h).behind ?_)
  exact Trailing.safeBehind (by decide)

end Clauses

/-! The clauses of a statement whose nested queries are written safely. -/

section Statements

variable {ν : Type} {g : ν → Build Sql} {d : Dialect} (hd : d.Tame)
  (hH : ∀ name v, H name v → Text.isIdentifier name = true)

include hd

theorem TableRef.safe_sql {t : TableRef ν} (ht : t.Plain) {label : Option String}
    (hlabel : ∀ l ∈ label, Field.isVerbatim l = false)
    (h : ∀ q ∈ t.source.subquery?, (g q).Ensures H (Safe H)) :
    (TableRef.sql d (t.map g) label).Ensures H (Safe H) := by
  obtain ⟨source, written, info⟩ := t
  cases source with
  | table name =>
      have hname : Calm (d.dotted name) := calm_dotted hd (ht.name name rfl)
      cases label with
      | none => exact .pure (safe_text hname)
      | some label =>
          simp only [TableRef.map, TableRef.sql]
          split
          · exact .pure (safe_text hname)
          · refine .pure ?_
            rw [Sql.append_assoc]
            refine Safe.text_append hname (Safe.text_append (by decide) (safe_text ?_))
            exact calm_labelName hd (hlabel label rfl)
  | subquery q =>
      have hq : (g q).Ensures H (Safe H) := h q rfl
      have hcalm : Calm (d.labelName (label.getD "sub")) := by
        refine calm_labelName hd ?_
        cases label with
        | none => exact (by decide : Field.isVerbatim "sub" = false)
        | some label => exact hlabel label rfl
      refine (safe_parenthesized hq).bind fun sql hsql => .pure ?_
      rw [Sql.append_assoc]
      exact hsql.behind ⟨Safe.text_append (by decide) (safe_text hcalm),
        Sql.breaks_text_append (by decide) (by decide)⟩

include hH

theorem safeBehind_conditionClause (scope : Scope) {word : String} (hword : Trailing word)
    (hne : word ≠ "") {e : Option (Expr ν)} (he : ∀ e' ∈ e, e'.Plain)
    (h : ∀ e' ∈ e, ∀ q ∈ e'.subqueries, (g q).Ensures H (Safe H)) :
    (conditionClause d scope word (e.map (Expr.map g))).Ensures H (Sql.SafeBehind H) := by
  cases e with
  | none => exact .pure (Trailing.safeBehind (by decide))
  | some e =>
      exact (Expr.safe_sql hH hd scope (he e rfl) (h e rfl)).bind fun sql hsql =>
        .pure (hword.safeBehind_append hne hsql)

theorem Join.safe_sql (scope : Scope) {join : Join ν} {label : Option String}
    (ht : join.table.Plain) (hlabel : ∀ l ∈ label, Field.isVerbatim l = false)
    (hcondition : ∀ condition ∈ join.condition,
      (condition.toExpr scope.label (join.shownLabel label)).Plain)
    (hnested : ∀ q ∈ join.table.source.subquery?, (g q).Ensures H (Safe H))
    (hexpr : ∀ e, join.condition = some (.expr e) → ∀ q ∈ e.subqueries,
      (g q).Ensures H (Safe H)) :
    ((join.map g).sql d scope label).Ensures H (Sql.SafeBehind H) := by
  obtain ⟨t, kind, condition⟩ := join
  simp only [Join.map, Join.sql, Join.shownLabel, TableRef.name?_map]
  refine (Build.Ensures.ofExcept (P := fun _ => True) fun _ _ => trivial).bind fun kind _ => ?_
  refine (TableRef.safe_sql hd ht hlabel hnested).bind fun table htable => ?_
  have hkind := calm_joinType kind
  have hstart : ∀ {sql : Sql}, Safe H sql →
      Sql.SafeBehind H (" " ++ (kind.display ++ (" " ++ sql))) := fun hsql =>
    Trailing.safeBehind_append (by decide) (by decide)
      (Safe.text_append hkind (Safe.text_append (by decide) hsql))
  cases condition with
  | none =>
      cases kind.requiresOn with
      | false =>
          refine .pure ?_
          simp only [Sql.append_assoc]
          exact hstart htable
      | true => trivial
  | some condition =>
      cases kind.requiresOn with
      | false => trivial
      | true =>
          simp only [Option.map_some, JoinCondition.toExpr_map]
          refine (Expr.safe_sql hH hd scope (hcondition condition rfl) ?_).bind
            fun sql hsql => .pure ?_
          · intro q hq
            obtain ⟨e, he, hmem⟩ := JoinCondition.mem_subqueries_toExpr _ _ hq
            exact hexpr e (by rw [he]) q hmem
          · simp only [Sql.append_assoc]
            exact hstart (htable.behind (Trailing.safeBehind_append (by decide) (by decide) hsql))

theorem SelectItem.safe_sql (scope : Scope) {item : SelectItem ν} (he : item.expr.Plain)
    (hlabel : ∀ label ∈ item.label, IsPlain label)
    (h : ∀ q ∈ item.expr.subqueries, (g q).Ensures H (Safe H)) :
    ((item.map g).sql d scope).Ensures H (Safe H) := by
  have hparts : ((item.map g).parts d scope).Ensures H fun parts =>
      Safe H parts.1 ∧ ∀ label ∈ parts.2, IsPlain label := by
    obtain ⟨e, label⟩ := item
    have hexpr := Expr.safe_sql hH hd scope he h
    cases e with
    | field name written =>
        cases he with
        | field hname hwritten =>
            refine (Build.Ensures.ofExcept (P := fun field => IsPlain field.name ∧
              ∀ l ∈ field.label, IsPlain l) fun field h => hname field h).bind fun field hfield => .pure ?_
            refine ⟨safe_text (calm_fieldName hd scope hfield.1), fun l hl => ?_⟩
            cases label with
            | some label => exact hlabel l hl
            | none =>
                cases written with
                | some written => exact hwritten l hl
                | none => exact hfield.2 l hl
    | literal | param | op | call | subquery | shorthand =>
        exact hexpr.bind fun sql hsql => .pure ⟨hsql, hlabel⟩
  refine hparts.bind fun parts hsafe => ?_
  obtain ⟨sql, label⟩ := parts
  cases label with
  | none => exact .pure hsafe.1
  | some label =>
      refine .pure ?_
      rw [Sql.append_assoc]
      refine hsafe.1.behind ⟨Safe.text_append (by decide) (safe_text ?_),
        Sql.breaks_text_append (by decide) (by decide)⟩
      exact calm_labelName hd (hsafe.2 label rfl).1

theorem Order.safe_sql (scope : Scope) {order : Order ν} (he : order.expr.Plain)
    (h : ∀ q ∈ order.expr.subqueries, (g q).Ensures H (Safe H)) :
    ((order.map g).sql d scope).Ensures H (Safe H) :=
  (Expr.safe_sql hH hd scope he h).bind fun _ hkey => .pure (safe_orderSql hd hkey _ _)

theorem safe_assignmentSql (scope : Scope) {pair : String × Expr ν} (he : pair.2.Plain)
    (h : ∀ q ∈ pair.2.subqueries, (g q).Ensures H (Safe H)) :
    (assignmentSql d scope (mapPair g pair)).Ensures H (Safe H) := by
  refine (Expr.safe_sql hH hd scope he h).bind fun sql hsql => .pure ?_
  rw [Sql.append_assoc]
  exact Safe.text_append (hd.quoteIdentifier _) (Safe.text_append (by decide) hsql)

theorem InsertSource.safe_sql (attributes : List String) {source : InsertSource ν}
    (hplain : ∀ e ∈ source.exprsOf, e.Plain)
    (hexprs : ∀ e ∈ source.exprsOf, ∀ q ∈ e.subqueries, (g q).Ensures H (Safe H))
    (hquery : ∀ q ∈ source.subquery?, (g q).Ensures H (Safe H)) :
    ((source.map g).sql d attributes).Ensures H (Safe H) := by
  cases source with
  | exprs pairs =>
      simp only [InsertSource.map, InsertSource.sql, exprRowSql]
      split
      · trivial
      · refine (Build.Ensures.mapM ?_).bind fun values hvalues => .pure (safe_rowSql hd _ hvalues)
        intro mapped hmapped
        obtain ⟨pair, hpair, rfl⟩ := List.mem_map.mp hmapped
        have hmem : pair.2 ∈ (InsertSource.exprs pairs).exprsOf := List.mem_map_of_mem hpair
        exact Expr.safe_sql hH hd _ (hplain _ hmem) (hexprs _ hmem)
  | values pairs =>
      simp only [InsertSource.map, InsertSource.sql, valueRowSql]
      split
      · trivial
      · refine (Build.Ensures.mapM fun pair _ => safe_liftPlaceholder hH pair.2).bind
          fun values hvalues => .pure (safe_rowSql hd _ hvalues)
  | rows fields lines =>
      refine (Build.Ensures.ofExcept (P := Calm) fun text htext => hd.composes.rowsText htext).bind
        fun text htext => .pure (safe_text htext)
  | select fields q =>
      have hq : (g q).Ensures H (Safe H) := hquery q rfl
      refine hq.bind fun sql hsql => .pure ?_
      rw [Sql.append_assoc]
      exact Safe.text_append (hd.composes.columnsText fields) (Safe.text_append (by decide) hsql)

namespace Statement

variable {s : Statement ν} (hs : s.Plain) (h : ∀ q ∈ s.subqueries, (g q).Ensures H (Safe H))

include hs h

theorem safe_selectionSql (labels : Labels) :
    ((s.map g).selectionSql d labels).Ensures H (Safe H) := by
  unfold selectionSql
  split
  · refine .pure (safe_text ?_)
    exact hd.composes.wildcardText _ labels
  · refine safe_listClause quiet_empty fun mapped hmapped => ?_
    obtain ⟨item, hitem, rfl⟩ := List.mem_map.mp hmapped
    exact SelectItem.safe_sql hd hH _ (hs.exprs _ (mem_exprs_of_field hitem)) (hs.labels item hitem)
      fun q hq => h q (mem_subqueries_of_expr (mem_exprs_of_field hitem) hq)

omit hH in
theorem safe_tableSql {labels : Labels} (hlabels : Labels.resolve s = .ok labels) {t : TableRef ν}
    {label : Option String} (ht : (t, label) ∈ s.tables.zip labels.tables) :
    (TableRef.sql d (t.map g) label).Ensures H (Safe H) := by
  obtain ⟨hmem, hlabel⟩ := List.of_mem_zip ht
  refine TableRef.safe_sql hd (hs.tables t (mem_allTables_of_table hmem)) ?_ fun q hq =>
    h q (mem_subqueries_of_table (mem_allTables_of_table hmem) hq)
  rintro l rfl
  exact isVerbatim_resolve hs.tables hlabels (.inl hlabel)

theorem safeBehind_joinSql (hpairs : s.PlainPairs) {labels : Labels}
    (hlabels : Labels.resolve s = .ok labels) {join : Join ν} {label : Option String}
    (hj : (join, label) ∈ s.joins.zip labels.joins) :
    ((join.map g).sql d labels.scope label).Ensures H (Sql.SafeBehind H) := by
  obtain ⟨hmem, hlabel⟩ := List.of_mem_zip hj
  refine Join.safe_sql hd hH _ (hs.tables _ (mem_allTables_of_join hmem)) ?_ ?_ ?_ ?_
  · rintro l rfl
    exact isVerbatim_resolve hs.tables hlabels (.inr hlabel)
  · intro condition hcondition
    cases condition with
    | expr e => exact hs.exprs e (mem_exprs_of_join hmem hcondition)
    | fields pairs =>
        have hplain := hpairs labels hlabels join label hj pairs hcondition
        refine .op fun e he => ?_
        obtain ⟨pair, hpair, rfl⟩ := List.mem_map.mp he
        obtain ⟨hhere, hthere⟩ := hplain pair hpair
        refine .op fun e he => ?_
        obtain rfl | he := List.mem_cons.mp he
        · exact .field hhere (by simp)
        · obtain rfl := List.mem_singleton.mp he
          exact .field hthere (by simp)
  · exact fun q hq => h q (mem_subqueries_of_table (mem_allTables_of_join hmem) hq)
  · exact fun e he q hq => h q (mem_subqueries_of_expr (mem_exprs_of_join hmem he) hq)

theorem safeBehind_filter (scope : Scope) {word : String} (hword : Trailing word) (hne : word ≠ "") :
    (conditionClause d scope word (s.map g).filter).Ensures H (Sql.SafeBehind H) :=
  safeBehind_conditionClause hd hH scope hword hne
    (fun e he => hs.exprs e (mem_exprs_of_filter he))
    fun _ he q hq => h q (mem_subqueries_of_expr (mem_exprs_of_filter he) hq)

omit hH in
theorem safeBehind_tableClause {labels : Labels} (hlabels : Labels.resolve s = .ok labels)
    (word : String) (hword : Trailing word) (hne : word ≠ "") (skipped : Nat) :
    (listClause word (fun (t, label) => TableRef.sql d t label)
      (((s.map g).tables.zip labels.tables).drop skipped)).Ensures H (Sql.SafeBehind H) := by
  refine safeBehind_listClause hword hne ?_
  rintro ⟨mapped, label⟩ hmapped
  simp only [map, List.zip_map_left] at hmapped
  obtain ⟨⟨t, label⟩, ht, heq⟩ := List.mem_map.mp (List.mem_of_mem_drop hmapped)
  cases heq
  exact safe_tableSql hd hs h hlabels ht

theorem ensures_joins (hpairs : s.PlainPairs) {labels : Labels}
    (hlabels : Labels.resolve s = .ok labels) :
    (((s.map g).joins.zip labels.joins).mapM fun (join, label) =>
        Join.sql d labels.scope join label).Ensures H fun joins =>
      ∀ join ∈ joins, Sql.SafeBehind H join := by
  refine Build.Ensures.mapM ?_
  rintro ⟨mapped, label⟩ hmapped
  simp only [map, List.zip_map_left] at hmapped
  obtain ⟨⟨join, label⟩, hj, heq⟩ := List.mem_map.mp hmapped
  cases heq
  exact safeBehind_joinSql hd hH hs h hpairs hlabels hj

theorem safeBehind_groups (scope : Scope) :
    (listClause " GROUP BY " (Expr.sql d scope) (s.map g).groups).Ensures H (Sql.SafeBehind H) := by
  refine safeBehind_listClause (by decide) (by decide) fun mapped hmapped => ?_
  obtain ⟨e, he, rfl⟩ := List.mem_map.mp hmapped
  exact Expr.safe_sql hH hd _ (hs.exprs e (mem_exprs_of_group he)) fun q hq =>
    h q (mem_subqueries_of_expr (mem_exprs_of_group he) hq)

theorem safeBehind_having (scope : Scope) :
    (conditionClause d scope " HAVING " (s.map g).having).Ensures H (Sql.SafeBehind H) :=
  safeBehind_conditionClause hd hH scope (by decide) (by decide)
    (fun e he => hs.exprs e (mem_exprs_of_having he))
    fun _ he q hq => h q (mem_subqueries_of_expr (mem_exprs_of_having he) hq)

theorem safeBehind_orders (scope : Scope) :
    (listClause " ORDER BY " (Order.sql d scope) (s.map g).orders).Ensures H
      (Sql.SafeBehind H) := by
  refine safeBehind_listClause (by decide) (by decide) fun mapped hmapped => ?_
  obtain ⟨order, horder, rfl⟩ := List.mem_map.mp hmapped
  exact Order.safe_sql hd hH _ (hs.exprs _ (mem_exprs_of_order horder)) fun q hq =>
    h q (mem_subqueries_of_expr (mem_exprs_of_order horder) hq)

theorem safe_selectSql (hpairs : s.PlainPairs) : ((s.map g).selectSql d).Ensures H (Safe H) := by
  rw [selectSql, Labels.resolve_map]
  refine (Build.Ensures.ofExcept fun labels hlabels => hlabels).bind fun labels hlabels => ?_
  refine (safe_selectionSql hd hH hs h labels).bind fun selection hselection => ?_
  refine (safeBehind_tableClause hd hs h hlabels " FROM " (by decide) (by decide) 0).bind
    fun tables htables => ?_
  refine (ensures_joins hd hH hs h hpairs hlabels).bind fun joins hjoins => ?_
  refine (safeBehind_filter hd hH hs h _ (by decide) (by decide)).bind fun filter hfilter => ?_
  refine (safeBehind_groups hd hH hs h _).bind fun groups hgroups => ?_
  refine (safeBehind_having hd hH hs h _).bind fun having hhaving => ?_
  refine (safeBehind_orders hd hH hs h _).bind fun orders horders => .pure ?_
  have hword : Calm (if (s.map g).distinct then "SELECT DISTINCT " else "SELECT ") := by
    split <;> decide
  exact (((((((Safe.text_append hword hselection).behind htables).behind
    (Sql.safe_concat hjoins)).behind hfilter).behind hgroups).behind hhaving).behind
      horders).behind (Trailing.safeBehind (hd.limitOffset _ _))

theorem safe_insertSql : ((s.map g).insertSql d).Ensures H (Safe H) := by
  have htables : (s.map g).tables = s.tables.map (TableRef.map g) := rfl
  rw [insertSql, htables, target_map]
  cases htarget : target "INSERT INTO" s.tables with
  | error fault => trivial
  | ok found =>
      obtain ⟨t, name⟩ := found
      obtain ⟨ht, hname⟩ := target_spec htarget
      have hplain := (hs.tables t (mem_allTables_of_table ht)).name name hname
      cases hsource : s.source with
      | none =>
          simp only [map, hsource]
          trivial
      | some source =>
          simp only [map, hsource, Option.map_some]
          change Build.Ensures H (Safe H)
            ((source.map g).sql d (TableRef.map g t).attributes >>= _)
          refine (InsertSource.safe_sql hd hH _ ?_ ?_ ?_).bind fun sql hsql => .pure ?_
          · intro e he
            cases source with
            | exprs pairs =>
                obtain ⟨pair, hpair, rfl⟩ := List.mem_map.mp he
                exact hs.exprs _ (mem_exprs_of_source hsource hpair)
            | values | rows | select => exact absurd he List.not_mem_nil
          · intro e he q hq
            cases source with
            | exprs pairs =>
                obtain ⟨pair, hpair, rfl⟩ := List.mem_map.mp he
                exact h q (mem_subqueries_of_expr (mem_exprs_of_source hsource hpair) hq)
            | values | rows | select => exact absurd he List.not_mem_nil
          · intro q hq
            cases source with
            | select fields inner =>
                obtain rfl := Option.some.inj hq
                exact h _ (mem_subqueries_of_source hsource)
            | exprs | values | rows => cases hq
          · rw [Sql.append_assoc]
            exact Safe.text_append (by decide) (Safe.text_append (calm_dotted hd hplain) hsql)

omit hH in
/-- The table that is written to, under the label of the first table. -/
theorem safe_targetSql {labels : Labels} (hlabels : Labels.resolve s = .ok labels) {t : TableRef ν}
    (ht : t ∈ s.tables) : (TableRef.sql d (t.map g) labels.primary).Ensures H (Safe H) :=
  TableRef.safe_sql hd (hs.tables t (mem_allTables_of_table ht))
    (isVerbatim_primary hs.tables hlabels)
    fun q hq => h q (mem_subqueries_of_table (mem_allTables_of_table ht) hq)

theorem safeBehind_assignments (scope : Scope) :
    (listClause " SET " (assignmentSql d scope) (s.map g).assignments).Ensures H
      (Sql.SafeBehind H) := by
  refine safeBehind_listClause (by decide) (by decide) fun mapped hmapped => ?_
  obtain ⟨pair, hpair, rfl⟩ := List.mem_map.mp hmapped
  exact safe_assignmentSql hd hH _ (hs.exprs _ (mem_exprs_of_assignment hpair))
    fun q hq => h q (mem_subqueries_of_expr (mem_exprs_of_assignment hpair) hq)

theorem safe_updateSql : ((s.map g).updateSql d).Ensures H (Safe H) := by
  have htables : (s.map g).tables = s.tables.map (TableRef.map g) := rfl
  rw [updateSql, htables, target_map, Labels.resolve_map]
  cases htarget : target "UPDATE" s.tables with
  | error fault => trivial
  | ok found =>
      obtain ⟨t, name⟩ := found
      obtain ⟨ht, hname⟩ := target_spec htarget
      change Build.Ensures H (Safe H) (if _ then _ else _)
      split
      · trivial
      · split
        · trivial
        · refine (Build.Ensures.ofExcept fun labels hlabels => hlabels).bind
            fun labels hlabels => ?_
          refine (safe_targetSql hd hs h hlabels ht).bind fun table htable => ?_
          refine (safeBehind_assignments hd hH hs h _).bind fun assignments hassignments => ?_
          refine (safeBehind_tableClause hd hs h hlabels " FROM " (by decide) (by decide) 1).bind
            fun others hothers => ?_
          refine (safeBehind_filter hd hH hs h _ (by decide) (by decide)).bind
            fun filter hfilter => .pure ?_
          exact (((Safe.text_append (by decide) htable).behind hassignments).behind
            hothers).behind hfilter

theorem safe_deleteSql : ((s.map g).deleteSql d).Ensures H (Safe H) := by
  have htables : (s.map g).tables = s.tables.map (TableRef.map g) := rfl
  rw [deleteSql, htables, target_map, Labels.resolve_map]
  cases htarget : target "DELETE FROM" s.tables with
  | error fault => trivial
  | ok found =>
      obtain ⟨t, name⟩ := found
      obtain ⟨ht, hname⟩ := target_spec htarget
      change Build.Ensures H (Safe H) (if _ then _ else _)
      split
      · trivial
      · cases hfilter : s.filter with
        | none =>
            simp only [map, hfilter]
            trivial
        | some filter =>
            simp only [map, hfilter, Option.map_some]
            split
            · trivial
            · refine (Build.Ensures.ofExcept fun labels hlabels => hlabels).bind
                fun labels hlabels => ?_
              refine (safe_targetSql hd hs h hlabels ht).bind fun table htable => ?_
              refine (Expr.safe_sql hH hd _ (hs.exprs _ (mem_exprs_of_filter hfilter)) fun q hq =>
                h q (mem_subqueries_of_expr (mem_exprs_of_filter hfilter) hq)).bind
                  fun condition hcondition => .pure ?_
              rw [Sql.append_assoc]
              exact (Safe.text_append (by decide) htable).behind
                (Trailing.safeBehind_append (by decide) (by decide) hcondition)

/-- A plain statement is written safely, if its nested queries are. -/
theorem safe_sql (hpairs : s.PlainPairs) : ((s.map g).sql d).Ensures H (Safe H) := by
  rw [Statement.sql]
  cases (s.map g).kind with
  | select => exact safe_selectSql hd hH hs h hpairs
  | insert => exact safe_insertSql hd hH hs h
  | update => exact safe_updateSql hd hH hs h
  | delete => exact safe_deleteSql hd hH hs h

end Statement

end Statements

end QueryCompiler
