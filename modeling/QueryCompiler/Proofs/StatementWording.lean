import QueryCompiler.Proofs.ExprWording
import QueryCompiler.Proofs.LabelLaws

/-!
# Statements in two wordings

Clause by clause, a statement whose texts belong to the vocabulary is compiled into related texts,
if its nested queries are.
-/
namespace QueryCompiler

variable {L : Build.Pairing} {V : Vocabulary} {b b' : Builtin} (W : Phrasing L V b b')
  {ν : Type} {g g' : ν → Build Sql}

/-! Clauses. -/

theorem listClause_related {ι κ μ : Type} {f : ι → Build Sql} {f' : κ → Build Sql} {a : μ → ι}
    {c : μ → κ} {xs : List μ} {word : String} (hword : OwnText 0 0 word)
    (h : ∀ x ∈ xs, L.Rel (W.Rel 0 0) (f (a x)) (f' (c x))) :
    L.Rel (W.Rel 0 0) (listClause word f (xs.map a)) (listClause word f' (xs.map c)) := by
  rw [listClause, listClause, List.isEmpty_map, List.isEmpty_map]
  split
  · exact L.pure (W.text (by decide))
  · exact L.bind (L.mapM_map h) fun _ _ hsqls => L.pure (W.append (W.text hword) (W.commas hsqls))

theorem conditionClause_related (scope : Scope) {word : String} (hword : OwnText 0 0 word)
    {e : Option (Expr ν)} (he : ∀ e' ∈ e, e'.Fits V W.Allowed)
    (h : ∀ e' ∈ e, ∀ q ∈ e'.subqueries, L.Rel W.Whole (g q) (g' q)) :
    L.Rel (W.Rel 0 0) (conditionClause b.dialect scope word (e.map (Expr.map g)))
      (conditionClause b'.dialect scope word
        ((e.map (Expr.revise W.revision)).map (Expr.map g'))) := by
  cases e with
  | none => exact L.pure (W.text (by decide))
  | some e =>
      exact L.bind (e.sql_related W scope (he e rfl) (h e rfl)) fun _ _ hsql =>
        L.pure (W.append (W.text hword) hsql)

theorem TableRef.sql_related {t : TableRef ν} {label : Option String}
    (hname : ∀ name ∈ t.name?, V.table name) (hlabel : ∀ l ∈ label, V.label l)
    (h : ∀ q ∈ t.source.subquery?, L.Rel W.Whole (g q) (g' q)) :
    L.Rel (W.Rel 0 0) (TableRef.sql b.dialect (t.map g) label)
      (TableRef.sql b'.dialect (t.map g') label) := by
  obtain ⟨source, written, info⟩ := t
  have hblank : W.Rel 0 0 " " " " := W.text (by decide)
  cases source with
  | table name =>
      have htable := W.table (hname name rfl)
      cases label with
      | none => exact L.pure htable
      | some label =>
          simp only [TableRef.map, TableRef.sql]
          split
          · exact L.pure htable
          · exact L.pure (W.append (W.append htable hblank) (W.label (hlabel label rfl)))
  | subquery q =>
      have hq : L.Rel W.Whole (g q) (g' q) := h q rfl
      have hsub : V.label (label.getD "sub") := by
        cases label with
        | none => exact V.sub
        | some label => exact hlabel label rfl
      exact L.bind (parenthesized_related W hq) fun _ _ hsql =>
        L.pure (W.append (W.append hsql.1 hblank) (W.label hsub))

theorem JoinCondition.sql_related (scope : Scope) {joined : String} {condition : JoinCondition ν}
    (hexpr : ∀ e, condition = .expr e → e.Fits V W.Allowed)
    (hpairs : ∀ pairs, condition = .fields pairs → ∀ pair ∈ pairs,
      V.field (qualify scope.label pair.1) ∧ V.field (qualify (some joined) pair.2))
    (h : ∀ e, condition = .expr e → ∀ q ∈ e.subqueries, L.Rel W.Whole (g q) (g' q)) :
    L.Rel (W.Rel 0 0) (((condition.map g).toExpr scope.label joined).sql b.dialect scope)
      ((((condition.revise W.revision).map g').toExpr scope.label joined).sql b'.dialect
        scope) := by
  rw [toExpr_map, toExpr_map, toExpr_revise]
  refine Expr.sql_related W scope ?_ fun q hq => ?_
  · cases condition with
    | expr e => exact hexpr e rfl
    | fields pairs =>
        refine .op fun e he => ?_
        obtain ⟨pair, hpair, rfl⟩ := List.mem_map.mp he
        obtain ⟨hhere, hthere⟩ := hpairs pairs rfl pair hpair
        refine .op fun e he => ?_
        obtain rfl | he := List.mem_cons.mp he
        · exact .field hhere
        · obtain rfl := List.mem_singleton.mp he
          exact .field hthere
  · obtain ⟨e, he, hmem⟩ := mem_subqueries_toExpr _ _ hq
    exact h e he q hmem

theorem Join.sql_related (scope : Scope) {label : Option String} {join : Join ν}
    (hname : ∀ name ∈ join.table.name?, V.table name) (hlabel : ∀ l ∈ label, V.label l)
    (hexpr : ∀ e, join.condition = some (.expr e) → e.Fits V W.Allowed)
    (hpairs : ∀ pairs, join.condition = some (.fields pairs) → ∀ pair ∈ pairs,
      V.field (qualify scope.label pair.1) ∧
        V.field (qualify (some (join.shownLabel label)) pair.2))
    (htable : ∀ q ∈ join.table.source.subquery?, L.Rel W.Whole (g q) (g' q))
    (hcondition : ∀ e, join.condition = some (.expr e) → ∀ q ∈ e.subqueries,
      L.Rel W.Whole (g q) (g' q)) :
    L.Rel (W.Rel 0 0) ((join.map g).sql b.dialect scope label)
      (((join.revise W.revision).map g').sql b'.dialect scope label) := by
  obtain ⟨t, kind, condition⟩ := join
  have hblank : W.Rel 0 0 " " " " := W.text (by decide)
  simp only [Join.map, Join.revise, Join.sql, Join.shownLabel, TableRef.name?_map]
  refine L.bind (L.ofExcept (JoinType.parse kind)) fun kind _ hkind => hkind ▸ ?_
  refine L.bind (t.sql_related W hname hlabel htable) fun table table' htable => ?_
  have hstart : W.Rel 0 0 (" " ++ kind.display ++ " " ++ table)
      (" " ++ kind.display ++ " " ++ table') :=
    W.append (W.append (W.append hblank (W.text (ownText_joinType kind))) hblank) htable
  cases condition with
  | none =>
      cases kind.requiresOn with
      | false => exact L.pure hstart
      | true => exact L.fail _
  | some condition =>
      cases kind.requiresOn with
      | false => exact L.fail _
      | true =>
          refine L.bind (condition.sql_related W scope ?_ ?_ ?_) fun _ _ hsql =>
            L.pure (W.append (W.append hstart (W.text (by decide))) hsql)
          · exact fun e he => hexpr e (by rw [he])
          · exact fun pairs hpairs' => hpairs pairs (by rw [hpairs'])
          · exact fun e he => hcondition e (by rw [he])

/-- A column and what it is called. -/
theorem labelled_related {sql sql' : Sql} {label : Option String} (hsql : W.Rel 0 0 sql sql')
    (hlabel : ∀ l ∈ label, V.label l) :
    L.Rel (W.Rel 0 0)
      (match ((sql, label) : Sql × Option String) with
        | (sql, some label) => pure (sql ++ " AS " ++ b.dialect.labelName label)
        | (sql, none) => pure sql)
      (match ((sql', label) : Sql × Option String) with
        | (sql, some label) => pure (sql ++ " AS " ++ b'.dialect.labelName label)
        | (sql, none) => pure sql) := by
  cases label with
  | none => exact L.pure hsql
  | some label =>
      exact L.pure (W.append (W.append hsql (W.text (by decide))) (W.label (hlabel label rfl)))

/-- What is not a field has the name that the item gives it. -/
theorem SelectItem.parts_of_not_field {e : Expr (Build Sql)}
    (h : ∀ name label, e ≠ .field name label) (label : Option String) (d : Dialect) (scope : Scope) :
    SelectItem.parts d scope ⟨e, label⟩ = (fun sql => (sql, label)) <$> e.sql d scope := by
  cases e with
  | field name written => exact absurd rfl (h name written)
  | literal | param | op | call | subquery | shorthand => rfl

/-- Neither nested queries nor other values make a field of what is none. -/
theorem Expr.map_not_field {μ : Type} (f : ν → μ) {e : Expr ν}
    (h : ∀ name label, e ≠ .field name label) (name : String) (label : Option String) :
    e.map f ≠ .field name label := by
  cases e with
  | field name label => exact absurd rfl (h name label)
  | literal | param | op | call | subquery | shorthand => simp [map]

theorem Expr.revise_not_field (r : Revision) {e : Expr ν}
    (h : ∀ name label, e ≠ .field name label) (name : String) (label : Option String) :
    e.revise r ≠ .field name label := by
  cases e with
  | field name label => exact absurd rfl (h name label)
  | param name =>
      rw [revise]
      split <;> simp
  | literal | op | call | subquery | shorthand => simp [revise]

/-- A selected column and its heading. -/
theorem SelectItem.sql_related (scope : Scope) {item : SelectItem ν}
    (he : item.expr.Fits V W.Allowed) (hheading : ∀ label ∈ item.heading, V.label label)
    (h : ∀ q ∈ item.expr.subqueries, L.Rel W.Whole (g q) (g' q)) :
    L.Rel (W.Rel 0 0) ((item.map g).sql b.dialect scope)
      (((item.revise W.revision).map g').sql b'.dialect scope) := by
  obtain ⟨e, label⟩ := item
  have hexpr := e.sql_related W scope he h
  cases e with
  | field name written =>
      cases he with
      | field hname =>
          simp only [SelectItem.map, SelectItem.revise, Expr.revise, Expr.map, SelectItem.sql,
            SelectItem.parts]
          cases hparse : Field.parse name with
          | error fault => exact L.fail fault
          | ok f =>
              refine labelled_related W (W.field hname scope hparse) fun l hl => hheading l ?_
              simpa [SelectItem.heading, hparse, Except.toOption] using hl
  | literal | param | op | call | subquery | shorthand =>
      simp only [SelectItem.map, SelectItem.revise, SelectItem.sql]
      rw [SelectItem.parts_of_not_field (Expr.map_not_field g (by simp)),
        SelectItem.parts_of_not_field
          (Expr.map_not_field g' (Expr.revise_not_field W.revision (by simp))),
        bind_map_left, bind_map_left]
      exact L.bind hexpr fun _ _ hsql => labelled_related W hsql hheading

/-- An order, if related keys are placed in related texts. -/
theorem Order.sql_related (scope : Scope) {order : Order ν} (he : order.expr.Fits V W.Allowed)
    (h : ∀ q ∈ order.expr.subqueries, L.Rel W.Whole (g q) (g' q))
    (hkey : ∀ key key', W.Rel 0 0 key key' →
      W.Rel 0 0 (orderSql b.dialect key order.direction order.nulls)
        (orderSql b'.dialect key' order.direction order.nulls)) :
    L.Rel (W.Rel 0 0) ((order.map g).sql b.dialect scope)
      (((order.revise W.revision).map g').sql b'.dialect scope) :=
  L.bind (order.expr.sql_related W scope he h) fun key key' hrel => L.pure (hkey key key' hrel)

theorem assignmentSql_related (scope : Scope) {pair : String × Expr ν}
    (he : pair.2.Fits V W.Allowed) (h : ∀ q ∈ pair.2.subqueries, L.Rel W.Whole (g q) (g' q)) :
    L.Rel (W.Rel 0 0) (assignmentSql b.dialect scope (mapPair g pair))
      (assignmentSql b'.dialect scope (mapPair g' (revisePair W.revision pair))) := by
  have hcolumn : W.Rel 0 0 (b.dialect.quoteIdentifier pair.1) (b'.dialect.quoteIdentifier pair.1) :=
    W.own fun b => b.composes_ownText.quoteIdentifier pair.1
  exact L.bind (pair.2.sql_related W scope he h) fun _ _ hsql =>
    L.pure (W.append (W.append hcolumn (W.text (by decide))) hsql)

/-! Insertions. -/

theorem rowSql_related (columns : List String) {values values' : List Sql}
    (h : List.Forall₂ (W.Rel 0 0) values values') :
    W.Rel 0 0 (rowSql b.dialect columns values) (rowSql b'.dialect columns values') := by
  have hcolumns : W.Rel 1 1 (b.dialect.columnList columns) (b'.dialect.columnList columns) :=
    W.own fun b => (b.composes_ownText.columnList columns).raise 1
  unfold rowSql
  exact W.append (W.append (W.append (W.append (W.text (by decide)) hcolumns)
    (W.text (by decide))) (W.raise (W.commas h) 1)) (W.text (by decide))

theorem exprRowSql_related {pairs : List (String × Expr ν)}
    (he : ∀ pair ∈ pairs, pair.2.Fits V W.Allowed)
    (h : ∀ pair ∈ pairs, ∀ q ∈ pair.2.subqueries, L.Rel W.Whole (g q) (g' q)) :
    L.Rel (W.Rel 0 0) (exprRowSql b.dialect (pairs.map (mapPair g)))
      (exprRowSql b'.dialect ((pairs.map (revisePair W.revision)).map (mapPair g'))) := by
  have hnames : (pairs.map (mapPair g)).map (·.1) = pairs.map (·.1) := by simp [mapPair]
  have hnames' : ((pairs.map (revisePair W.revision)).map (mapPair g')).map (·.1) =
      pairs.map (·.1) := by
    simp [mapPair, revisePair]
  rw [exprRowSql, exprRowSql, hnames, hnames', List.isEmpty_map, List.isEmpty_map, List.isEmpty_map,
    List.map_map]
  split
  · exact L.fail _
  · refine L.bind (L.mapM_map fun pair hpair => ?_) fun _ _ hvalues =>
      L.pure (rowSql_related W _ hvalues)
    exact pair.2.sql_related W Scope.none (he pair hpair) (h pair hpair)

theorem valueRowSql_related (pairs : List (String × Value)) :
    L.Rel (W.Rel 0 0) (valueRowSql b.dialect pairs) (valueRowSql b'.dialect pairs) := by
  rw [valueRowSql, valueRowSql]
  split
  · exact L.fail _
  · refine L.bind (L.mapM (List.forall₂_same.mpr fun pair _ => ?_)) fun _ _ hvalues =>
      L.pure (rowSql_related W _ hvalues)
    exact L.mono (liftPlaceholder_related W pair.2) fun _ _ hsql => hsql.1

theorem InsertSource.sql_related (attributes : List String) {source : InsertSource ν}
    (he : ∀ e ∈ source.exprsOf, e.Fits V W.Allowed)
    (hexprs : ∀ e ∈ source.exprsOf, ∀ q ∈ e.subqueries, L.Rel W.Whole (g q) (g' q))
    (hquery : ∀ q ∈ source.subquery?, L.Rel W.Whole (g q) (g' q)) :
    L.Rel W.Whole ((source.map g).sql b.dialect attributes)
      (((source.revise W.revision).map g').sql b'.dialect attributes) := by
  cases source with
  | exprs pairs =>
      refine L.mono (exprRowSql_related W ?_ ?_) fun _ _ => W.whole
      · exact fun pair hpair => he pair.2 (List.mem_map_of_mem hpair)
      · exact fun pair hpair => hexprs pair.2 (List.mem_map_of_mem hpair)
  | values pairs =>
      have hstay : (InsertSource.values pairs : InsertSource ν).revise W.revision =
          .values pairs := by
        simp [InsertSource.revise, Phrasing.revision, Revision.unnaming]
      rw [hstay]
      exact L.mono (valueRowSql_related W pairs) fun _ _ => W.whole
  | rows fields lines =>
      simp only [InsertSource.map, InsertSource.revise, InsertSource.sql]
      have hown := fun text =>
        @Dialect.Composes.rowsText _ _ b.composes_ownText attributes fields lines text
      have hown' := fun text =>
        @Dialect.Composes.rowsText _ _ b'.composes_ownText attributes fields lines text
      have hsame : b = b' → rowsText b.dialect attributes fields lines =
          rowsText b'.dialect attributes fields lines := fun hb => by rw [hb]
      have houtcome := rowsText_outcome b.dialect b'.dialect attributes fields lines
      generalize rowsText b.dialect attributes fields lines = x at *
      generalize rowsText b'.dialect attributes fields lines = y at *
      cases houtcome with
      | error fault => exact L.fail fault
      | ok text text' =>
          refine L.pure (W.whole (W.word (hown _ rfl) (hown' _ rfl) fun hb => ?_))
          exact Except.ok.inj (hsame hb)
  | select fields q =>
      have hq : L.Rel W.Whole (g q) (g' q) := hquery q rfl
      have hcolumns : W.Rel 0 0 (columnsText b.dialect fields) (columnsText b'.dialect fields) :=
        W.own fun b => b.composes_ownText.columnsText fields
      exact L.bind hq fun _ _ hsql =>
        L.pure (W.wholeAppend (W.whole (W.append hcolumns (W.text (by decide)))) hsql)

namespace Statement

/-- The clauses of a selection that say which tuples its rows are made of. -/
def rowsSql (d : Dialect) (s : Statement (Build Sql)) (labels : Labels) : Build Sql := do
  let tables ← listClause " FROM " (fun (t, label) => TableRef.sql d t label)
    (s.tables.zip labels.tables)
  let joins ← (s.joins.zip labels.joins).mapM fun (join, label) => join.sql d labels.scope label
  let filter ← conditionClause d labels.scope " WHERE " s.filter
  let groups ← listClause " GROUP BY " (Expr.sql d labels.scope) s.groups
  let having ← conditionClause d labels.scope " HAVING " s.having
  return tables ++ Sql.concat joins ++ filter ++ groups ++ having

theorem selectSql_eq (d : Dialect) (s : Statement (Build Sql)) : s.selectSql d = do
    let labels ← Build.ofExcept (Labels.resolve s)
    let selection ← s.selectionSql d labels
    let rows ← s.rowsSql d labels
    let orders ← listClause " ORDER BY " (Order.sql d labels.scope) s.orders
    return (if s.distinct then "SELECT DISTINCT " else "SELECT ") ++ selection ++ rows ++ orders ++
      d.limitOffset s.limit s.offset := by
  simp only [selectSql, rowsSql, bind_assoc, pure_bind, Sql.append_assoc]

section

variable {μ : Type} (f : ν → μ) (s : Statement ν)

theorem tables_map : (s.map f).tables = s.tables.map (TableRef.map f) := rfl

theorem joins_isEmpty_map : (s.map f).joins.isEmpty = s.joins.isEmpty := List.isEmpty_map

theorem assignments_isEmpty_map : (s.map f).assignments.isEmpty = s.assignments.isEmpty :=
  List.isEmpty_map

variable (r : Revision)

theorem tables_revise : (s.revise r).tables = s.tables := rfl

theorem joins_isEmpty_revise : (s.revise r).joins.isEmpty = s.joins.isEmpty := List.isEmpty_map

theorem assignments_isEmpty_revise :
    (s.revise r).assignments.isEmpty = s.assignments.isEmpty :=
  List.isEmpty_map

end

/-- The orders of a statement are written in related texts. -/
def OrdersRelated (W : Phrasing L V b b') (g g' : ν → Build Sql) (s : Statement ν) : Prop :=
  ∀ order ∈ s.orders, ∀ scope, L.Rel (W.Rel 0 0) ((order.map g).sql b.dialect scope)
    (((order.revise W.revision).map g').sql b'.dialect scope)

variable {s : Statement ν} (hs : s.Fits V W.Allowed)

theorem Uses.primary (hs : s.Uses V) {labels : Labels} (hlabels : Labels.resolve s = .ok labels) :
    ∀ label ∈ labels.primary, V.label label := by
  intro label hlabel
  refine hs.labels labels hlabels label (.inl ?_)
  rw [Labels.primary] at hlabel
  exact List.mem_of_mem_head? (by simpa [Option.join_eq_some_iff] using hlabel)

variable (h : ∀ q ∈ s.subqueries, L.Rel W.Whole (g q) (g' q))

include hs h

/-- Every expression of a statement is written in related texts. -/
theorem exprSql_related (scope : Scope) {e : Expr ν} (he : e ∈ s.exprs) :
    L.Rel (W.Rel 0 0) ((e.map g).sql b.dialect scope)
      (((e.revise W.revision).map g').sql b'.dialect scope) :=
  e.sql_related W scope (hs.fits e he) fun q hq => h q (mem_subqueries_of_expr he hq)

theorem selectionSql_related (labels : Labels) :
    L.Rel (W.Rel 0 0) ((s.map g).selectionSql b.dialect labels)
      (((s.revise W.revision).map g').selectionSql b'.dialect labels) := by
  have hfields : isWildcard (s.map g).fields = isWildcard s.fields := isWildcard_map g s.fields
  have hfields' : isWildcard ((s.revise W.revision).map g').fields = isWildcard s.fields :=
    (isWildcard_map g' (s.revise W.revision).fields).trans (isWildcard_revise W.revision s.fields)
  rw [selectionSql, selectionSql, hfields, hfields', wildcardText_map, wildcardText_map,
    wildcardText_revise]
  split
  · exact L.pure (W.own fun b => b.composes_ownText.wildcardText s labels)
  · simp only [map, revise, List.map_map]
    refine listClause_related W (by decide) fun item hitem => ?_
    exact item.sql_related W _ (hs.fits _ (mem_exprs_of_field hitem)) (hs.headings item hitem)
      fun q hq => h q (mem_subqueries_of_expr (mem_exprs_of_field hitem) hq)

theorem tableSql_related {t : TableRef ν} (ht : t ∈ s.allTables) {label : Option String}
    (hlabel : ∀ l ∈ label, V.label l) :
    L.Rel (W.Rel 0 0) (TableRef.sql b.dialect (t.map g) label)
      (TableRef.sql b'.dialect (t.map g') label) :=
  t.sql_related W (hs.tables t ht) hlabel fun q hq => h q (mem_subqueries_of_table ht hq)

theorem tableClause_related {labels : Labels} (hlabels : Labels.resolve s = .ok labels)
    {word : String} (hword : OwnText 0 0 word) {tables : List (TableRef ν × Option String)}
    (hmem : ∀ table ∈ tables, table ∈ s.tables.zip labels.tables) :
    L.Rel (W.Rel 0 0)
      (listClause word (fun (t, label) => TableRef.sql b.dialect t label)
        (tables.map fun (t, label) => (t.map g, label)))
      (listClause word (fun (t, label) => TableRef.sql b'.dialect t label)
        (tables.map fun (t, label) => (t.map g', label))) := by
  refine listClause_related W hword fun table htable => ?_
  obtain ⟨ht, hlabel⟩ := List.of_mem_zip (hmem table htable)
  refine tableSql_related W hs h (mem_allTables_of_table ht) fun l hl => ?_
  exact hs.labels labels hlabels l (.inl (by rwa [← Option.mem_def.mp hl]))

theorem joinSql_related {labels : Labels} (hlabels : Labels.resolve s = .ok labels) {join : Join ν}
    {label : Option String} (hjoin : (join, label) ∈ s.joins.zip labels.joins) :
    L.Rel (W.Rel 0 0) ((join.map g).sql b.dialect labels.scope label)
      (((join.revise W.revision).map g').sql b'.dialect labels.scope label) := by
  obtain ⟨hj, hlabel⟩ := List.of_mem_zip hjoin
  refine join.sql_related W labels.scope (hs.tables _ (mem_allTables_of_join hj)) ?_ ?_ ?_ ?_ ?_
  · exact fun l hl => hs.labels labels hlabels l (.inr (by rwa [← Option.mem_def.mp hl]))
  · exact fun e he => hs.fits e (mem_exprs_of_join hj he)
  · exact hs.pairs labels hlabels join label hjoin
  · exact fun q hq => h q (mem_subqueries_of_table (mem_allTables_of_join hj) hq)
  · exact fun e he q hq => h q (mem_subqueries_of_expr (mem_exprs_of_join hj he) hq)

theorem filterClause_related (scope : Scope) :
    L.Rel (W.Rel 0 0) (conditionClause b.dialect scope " WHERE " (s.filter.map (Expr.map g)))
      (conditionClause b'.dialect scope " WHERE "
        ((s.filter.map (Expr.revise W.revision)).map (Expr.map g'))) :=
  conditionClause_related W scope (by decide) (fun e he => hs.fits e (mem_exprs_of_filter he))
    fun e he q hq => h q (mem_subqueries_of_expr (mem_exprs_of_filter he) hq)

theorem rowsSql_related {labels : Labels} (hlabels : Labels.resolve s = .ok labels) :
    L.Rel (W.Rel 0 0) ((s.map g).rowsSql b.dialect labels)
      (((s.revise W.revision).map g').rowsSql b'.dialect labels) := by
  rw [rowsSql, rowsSql]
  refine L.bind (R := W.Rel 0 0) ?_ fun _ _ htables => ?_
  · simp only [map, revise, List.zip_map_left]
    exact tableClause_related W hs h hlabels (by decide) fun _ htable => htable
  refine L.bind (R := List.Forall₂ (W.Rel 0 0)) ?_ fun _ _ hjoins => ?_
  · simp only [map, revise, List.zip_map_left, List.map_map]
    refine L.mapM_map ?_
    rintro ⟨join, label⟩ hjoin
    exact joinSql_related W hs h hlabels hjoin
  refine L.bind (filterClause_related W hs h labels.scope) fun _ _ hfilter => ?_
  refine L.bind (R := W.Rel 0 0) ?_ fun _ _ hgroups => ?_
  · simp only [map, revise, List.map_map]
    exact listClause_related W (by decide) fun e he =>
      exprSql_related W hs h _ (mem_exprs_of_group he)
  refine L.bind (R := W.Rel 0 0) ?_ fun _ _ hhaving => L.pure ?_
  · exact conditionClause_related W _ (by decide)
      (fun e he => hs.fits e (mem_exprs_of_having he))
      fun e he q hq => h q (mem_subqueries_of_expr (mem_exprs_of_having he) hq)
  have hsource := W.append htables (W.concat hjoins)
  exact W.append (W.append (W.append hsource hfilter) hgroups) hhaving

theorem selectSql_related (horders : s.OrdersRelated W g g') :
    L.Rel W.Whole ((s.map g).selectSql b.dialect)
      (((s.revise W.revision).map g').selectSql b'.dialect) := by
  rw [selectSql_eq, selectSql_eq, Labels.resolve_map, Labels.resolve_map, Labels.resolve_revise]
  refine L.ofExcept_bind fun labels hlabels => ?_
  refine L.bind (selectionSql_related W hs h labels) fun _ _ hselection => ?_
  refine L.bind (rowsSql_related W hs h hlabels) fun _ _ hrows => ?_
  refine L.bind (R := W.Rel 0 0) ?_ fun _ _ hordered => L.pure (W.whole ?_)
  · simp only [map, revise, List.map_map]
    exact listClause_related W (by decide) fun order horder => horders order horder labels.scope
  have hstart : OwnText 0 0 (if s.distinct then "SELECT DISTINCT " else "SELECT ") := by
    split <;> decide
  have hlimit : W.Rel 0 0 (b.dialect.limitOffset s.limit s.offset)
      (b'.dialect.limitOffset s.limit s.offset) :=
    W.own fun b => b.ownText_limitOffset s.limit s.offset
  exact W.append (W.append (W.append (W.append (W.text hstart) hselection) hrows) hordered) hlimit

theorem insertSql_related :
    L.Rel W.Whole ((s.map g).insertSql b.dialect)
      (((s.revise W.revision).map g').insertSql b'.dialect) := by
  rw [insertSql, insertSql, tables_map, tables_map, tables_revise, target_map, target_map]
  cases htarget : target "INSERT INTO" s.tables with
  | error fault => exact L.fail fault
  | ok found =>
      obtain ⟨t, name⟩ := found
      obtain ⟨ht, hname⟩ := target_spec htarget
      cases hsource : s.source with
      | none =>
          simp only [map, revise, hsource]
          exact L.fail _
      | some source =>
          have hattributes : (t.map g).attributes = (t.map g').attributes := by simp
          simp only [map, revise, hsource, Option.map_some]
          change L.Rel W.Whole ((source.map g).sql b.dialect (t.map g).attributes >>= _)
            (((source.revise W.revision).map g').sql b'.dialect (t.map g').attributes >>= _)
          rw [hattributes]
          have hmem : ∀ e ∈ source.exprsOf, e ∈ s.exprs := by
            intro e he
            cases source with
            | exprs pairs =>
                obtain ⟨pair, hpair, rfl⟩ := List.mem_map.mp he
                exact mem_exprs_of_source hsource hpair
            | values | rows | select => exact absurd he List.not_mem_nil
          refine L.bind (source.sql_related W _ ?_ ?_ ?_) fun _ _ hsql => L.pure ?_
          · exact fun e he => hs.fits e (hmem e he)
          · exact fun e he q hq => h q (mem_subqueries_of_expr (hmem e he) hq)
          · intro q hq
            cases source with
            | select fields q' =>
                obtain rfl := Option.some.inj hq
                exact h _ (mem_subqueries_of_source hsource)
            | exprs | values | rows => cases hq
          · refine W.wholeAppend (W.whole (W.append (W.text (by decide)) (W.table ?_))) hsql
            exact hs.tables t (mem_allTables_of_table ht) name hname

theorem updateSql_related :
    L.Rel W.Whole ((s.map g).updateSql b.dialect)
      (((s.revise W.revision).map g').updateSql b'.dialect) := by
  rw [updateSql, updateSql, tables_map, tables_map, tables_revise, target_map, target_map,
    joins_isEmpty_map, joins_isEmpty_map, joins_isEmpty_revise, assignments_isEmpty_map,
    assignments_isEmpty_map, assignments_isEmpty_revise, Labels.resolve_map, Labels.resolve_map,
    Labels.resolve_revise]
  cases htarget : target "UPDATE" s.tables with
  | error fault => exact L.fail fault
  | ok found =>
      obtain ⟨t, name⟩ := found
      have ht : t ∈ s.tables := (target_spec htarget).1
      change L.Rel W.Whole (if _ then _ else _) (if _ then _ else _)
      split
      · exact L.fail _
      · split
        · exact L.fail _
        · refine L.ofExcept_bind fun labels hlabels => ?_
          refine L.bind (tableSql_related W hs h (mem_allTables_of_table ht)
            (hs.primary hlabels)) fun _ _ htable => ?_
          refine L.bind (R := W.Rel 0 0) ?_ fun _ _ hassigned => ?_
          · simp only [map, revise, List.map_map]
            exact listClause_related W (by decide) fun pair hpair =>
              assignmentSql_related W _ (hs.fits _ (mem_exprs_of_assignment hpair))
                fun q hq => h q (mem_subqueries_of_expr (mem_exprs_of_assignment hpair) hq)
          refine L.bind (R := W.Rel 0 0) ?_ fun _ _ hothers => ?_
          · simp only [List.zip_map_left, ← List.map_drop]
            exact tableClause_related W hs h hlabels (by decide) fun _ htable =>
              List.mem_of_mem_drop htable
          refine L.bind (filterClause_related W hs h labels.scope) fun _ _ hfilter => L.pure ?_
          exact W.whole (W.append (W.append (W.append (W.append (W.text (by decide)) htable)
            hassigned) hothers) hfilter)

theorem deleteSql_related :
    L.Rel W.Whole ((s.map g).deleteSql b.dialect)
      (((s.revise W.revision).map g').deleteSql b'.dialect) := by
  rw [deleteSql, deleteSql, tables_map, tables_map, tables_revise, target_map, target_map,
    List.length_map, List.length_map, joins_isEmpty_map, joins_isEmpty_map, joins_isEmpty_revise,
    Labels.resolve_map, Labels.resolve_map, Labels.resolve_revise]
  cases htarget : target "DELETE FROM" s.tables with
  | error fault => exact L.fail fault
  | ok found =>
      obtain ⟨t, name⟩ := found
      have ht : t ∈ s.tables := (target_spec htarget).1
      change L.Rel W.Whole (if _ then _ else _) (if _ then _ else _)
      split
      · exact L.fail _
      · cases hfilter : s.filter with
        | none =>
            simp only [map, revise, hfilter]
            exact L.fail _
        | some filter =>
            simp only [map, revise, hfilter, Option.map_some, Expr.isVacuous_map,
              Expr.isVacuous_revise]
            split
            · exact L.fail _
            · refine L.ofExcept_bind fun labels hlabels => ?_
              refine L.bind (tableSql_related W hs h (mem_allTables_of_table ht)
                (hs.primary hlabels)) fun _ _ htable => ?_
              refine L.bind (exprSql_related W hs h _ (mem_exprs_of_filter hfilter))
                fun _ _ hcondition => L.pure ?_
              exact W.whole (W.append (W.append (W.append (W.text (by decide)) htable)
                (W.text (by decide))) hcondition)

/-- A statement is written in related texts, if its orders are. -/
theorem sql_of_orders (horders : s.kind = .select → s.OrdersRelated W g g') :
    L.Rel W.Whole ((s.map g).sql b.dialect) (((s.revise W.revision).map g').sql b'.dialect) := by
  have hself : (s.map g).kind = s.kind := rfl
  have hother : ((s.revise W.revision).map g').kind = s.kind := rfl
  rw [Statement.sql, Statement.sql, hself, hother]
  cases hkind : s.kind with
  | select => exact selectSql_related W hs h (horders hkind)
  | insert => exact insertSql_related W hs h
  | update => exact updateSql_related W hs h
  | delete => exact deleteSql_related W hs h

end Statement

namespace Statement

variable (W : Wording L V b b') {s : Statement ν}

theorem orders_related (hs : s.Fits V W.Allowed)
    (h : ∀ q ∈ s.subqueries, L.Rel W.Whole (g q) (g' q)) : s.OrdersRelated W.toPhrasing g g' :=
  fun order horder scope =>
    order.sql_related W.toPhrasing scope (hs.fits _ (mem_exprs_of_order horder))
      (fun q hq => h q (mem_subqueries_of_expr (mem_exprs_of_order horder) hq))
      fun _ _ hkey => W.order hkey _ _

/-- A statement is written in related texts. -/
theorem sql_related (hs : s.Uses V) (h : ∀ q ∈ s.subqueries, L.Rel W.Whole (g q) (g' q))
    (hW : W.IsSame := by exact ⟨rfl, fun _ => trivial⟩) :
    L.Rel W.Whole ((s.map g).sql b.dialect) ((s.map g').sql b'.dialect) := by
  have hfits := hs.fits hW.allowed
  have hrelated := sql_of_orders W.toPhrasing hfits h fun _ => orders_related W hfits h
  rwa [hW.revision, revise_unchanged] at hrelated

end Statement

end QueryCompiler
