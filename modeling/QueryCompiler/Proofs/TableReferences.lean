import QueryCompiler.Proofs.LabelAssignment
import QueryCompiler.Proofs.LabelLaws
import QueryCompiler.Proofs.ParameterSafety
import QueryCompiler.Proofs.TableNames

/-!
# Tables are referenced as they are introduced

The text of a selection or an update over several tables is taken apart into the places that
introduce a table and the places that refer to one. An unqualified field, a listed column and both
sides of a pair of joined fields stand behind the very text under which their table is introduced,
if the label of that table is quoted wherever it is written. A label that is quoted already, or the
name of a function, is introduced as it stands and quoted once more in front of a field.
-/
namespace QueryCompiler

variable {ν : Type}

/-! Where tables are introduced. -/

/-- A text that introduces a table under a name: the name ends it, behind a blank or a dot unless
it is all of it. -/
def Introduces (name : String) (text : Sql) : Prop :=
  ∃ front : String, text.render = front ++ name ∧ ∀ c ∈ front.toList.getLast?, c = ' ' ∨ c = '.'

theorem introduces_blank (text : Sql) (name : String) : Introduces name (text ++ " " ++ name) :=
  ⟨text.render ++ " ", by simp, by simp⟩

/-- A dotted name ends with its last part. -/
theorem introduces_intercalate {parts : List String} {last : String}
    (h : parts.getLast? = some last) : Introduces last (".".intercalate parts : String) := by
  obtain ⟨front, htext, ⟨rfl, -⟩ | hdot⟩ := Text.intercalate_last h
  · exact ⟨"", by rw [Sql.render_ofString, htext], by simp⟩
  · refine ⟨front, by rw [Sql.render_ofString, htext], fun c hc => .inr ?_⟩
    exact Option.some.inj (hc.symm.trans hdot)

theorem TableRef.sql_introduces {d : Dialect} {t : TableRef (Build Sql)} {label : Option String}
    {text : Sql} (h : (t.sql d label).Answers text) : Introduces (t.introducedAs d label) text := by
  have hdotted : ∀ name, Introduces (d.lastPart name) (d.dotted name) := by
    intro name
    refine introduces_intercalate ?_
    obtain ⟨last, hlast⟩ := Option.isSome_iff_exists.mp
      (List.getLast?_isSome.mpr (dotParts_ne_nil name))
    rw [List.getLast?_map, hlast, Option.map_some, Dialect.lastPart, hlast, Option.getD_some]
  obtain ⟨name | q, written, info⟩ := t
  · cases label with
    | none =>
        obtain rfl := Build.Answers.pure h
        exact hdotted name
    | some label =>
        change (if label = name then pure (d.dotted name : Sql)
          else pure (d.dotted name ++ " " ++ d.labelName label) : Build Sql).Answers text at h
        change Introduces (if label = name then d.lastPart name else d.labelName label) text
        split at h
        · rename_i heq
          obtain rfl := Build.Answers.pure h
          rw [if_pos heq]
          exact hdotted name
        · rename_i hne
          obtain rfl := Build.Answers.pure h
          rw [if_neg hne]
          exact introduces_blank _ _
  · obtain ⟨sql, -, h⟩ := Build.Answers.bind h
    obtain rfl := Build.Answers.pure h
    exact introduces_blank _ _

/-- The text of a join: it introduces its table, and the condition is written in the scope of the
whole statement. -/
inductive Join.Writes (d : Dialect) (labels : Labels) (join : Join (Build Sql))
    (label : Option String) : Sql → Prop
  | alone {kind : JoinType} {table : Sql} (hkind : JoinType.parse join.kind = .ok kind)
      (htable : Introduces (join.table.introducedAs d label) table)
      (hcondition : join.condition = none) :
      Writes d labels join label (" " ++ kind.display ++ " " ++ table)
  | on {kind : JoinType} {table on : Sql} {condition : JoinCondition (Build Sql)}
      (hkind : JoinType.parse join.kind = .ok kind)
      (htable : Introduces (join.table.introducedAs d label) table)
      (hcondition : join.condition = some condition)
      (hon : ((condition.toExpr labels.primary (join.shownLabel label)).sql d labels.scope).Answers on) :
      Writes d labels join label (" " ++ kind.display ++ " " ++ table ++ " ON " ++ on)

theorem Join.sql_writes {d : Dialect} {labels : Labels} {join : Join (Build Sql)}
    {label : Option String} {text : Sql} (h : (join.sql d labels.scope label).Answers text) :
    join.Writes d labels label text := by
  unfold Join.sql at h
  obtain ⟨kind, hkind, h⟩ := h.bind
  obtain ⟨table, htable, h⟩ := h.bind
  have hkind := hkind.ofExcept
  have htable := TableRef.sql_introduces htable
  simp only at h
  split at h
  · exact h.elim
  · exact h.elim
  · rename_i hcondition _
    obtain rfl := h.pure
    exact .alone hkind htable hcondition
  · rename_i condition hcondition _
    obtain ⟨on, hon, h⟩ := h.bind
    obtain rfl := h.pure
    exact .on hkind htable hcondition hon

/-- A clause with the texts of its items. -/
def clauseOf (word : String) (texts : List Sql) : Sql :=
  if texts.isEmpty then "" else word ++ Sql.intercalate ", " texts

theorem listClause_answers {ι : Type} {word : String} {f : ι → Build Sql} {items : List ι}
    {text : Sql} (h : (listClause word f items).Answers text) :
    ∃ texts, List.Forall₂ (fun item text => (f item).Answers text) items texts ∧
      text = clauseOf word texts := by
  unfold listClause at h
  cases items with
  | nil => exact ⟨[], .nil, h.pure.symm⟩
  | cons item rest =>
      obtain ⟨texts, htexts, h⟩ := h.bind
      have htexts := htexts.mapM
      refine ⟨texts, htexts, h.pure.symm.trans ?_⟩
      cases htexts
      rfl

namespace Statement

/-- The text of a statement over several tables, clause by clause: the tables are introduced one
after another, and all expressions are written in the scope of the same labels. -/
inductive Writes (d : Dialect) (s : Statement (Build Sql)) (labels : Labels) : Sql → Prop
  | select {selection filter groups having orders : Sql} {tables joins : List Sql}
      (hkind : s.kind = .select)
      (hselection : (s.selectionSql d labels).Answers selection)
      (htables : List.Forall₂ (fun x text => Introduces (x.1.introducedAs d x.2) text)
        (s.tables.zip labels.tables) tables)
      (hjoins : List.Forall₂ (fun x text => x.1.Writes d labels x.2 text)
        (s.joins.zip labels.joins) joins)
      (hfilter : (conditionClause d labels.scope " WHERE " s.filter).Answers filter)
      (hgroups : (listClause " GROUP BY " (Expr.sql d labels.scope) s.groups).Answers groups)
      (hhaving : (conditionClause d labels.scope " HAVING " s.having).Answers having)
      (horders : (listClause " ORDER BY " (Order.sql d labels.scope) s.orders).Answers orders) :
      Writes d s labels ((if s.distinct then "SELECT DISTINCT " else "SELECT ") ++ selection ++
        clauseOf " FROM " tables ++ Sql.concat joins ++ filter ++ groups ++ having ++ orders ++
        d.limitOffset s.limit s.offset)
  | update {target assignments filter : Sql} {others : List Sql} (hkind : s.kind = .update)
      (htables : List.Forall₂ (fun x text => Introduces (x.1.introducedAs d x.2) text)
        (s.tables.zip labels.tables) (target :: others))
      (hassignments :
        (listClause " SET " (assignmentSql d labels.scope) s.assignments).Answers assignments)
      (hfilter : (conditionClause d labels.scope " WHERE " s.filter).Answers filter) :
      Writes d s labels ("UPDATE " ++ target ++ assignments ++ clauseOf " FROM " others ++ filter)

variable {d : Dialect} {s : Statement (Build Sql)} {sql : Sql}

theorem tables_introduce {word : String} {tables : List (TableRef (Build Sql) × Option String)}
    {text : Sql}
    (h : (listClause word (fun (t, label) => TableRef.sql d t label) tables).Answers text) :
    ∃ texts, List.Forall₂ (fun x text => Introduces (x.1.introducedAs d x.2) text) tables texts ∧
      text = clauseOf word texts := by
  obtain ⟨texts, htexts, rfl⟩ := listClause_answers h
  exact ⟨texts, htexts.imp fun _ _ htext => TableRef.sql_introduces htext, rfl⟩

theorem selectSql_writes (hkind : s.kind = .select) (h : (s.selectSql d).Answers sql) :
    ∃ labels, Labels.resolve s = .ok labels ∧ s.Writes d labels sql := by
  unfold selectSql at h
  obtain ⟨labels, hlabels, h⟩ := h.bind
  obtain ⟨selection, hselection, h⟩ := Build.Answers.bind h
  obtain ⟨tables, htables, h⟩ := h.bind
  obtain ⟨joins, hjoins, h⟩ := h.bind
  obtain ⟨filter, hfilter, h⟩ := h.bind
  obtain ⟨groups, hgroups, h⟩ := h.bind
  obtain ⟨having, hhaving, h⟩ := h.bind
  obtain ⟨orders, horders, h⟩ := h.bind
  obtain rfl := h.pure
  obtain ⟨introduced, hintroduced, rfl⟩ := tables_introduce htables
  have hjoins := hjoins.mapM.imp fun _ _ hjoin => Join.sql_writes hjoin
  exact ⟨labels, hlabels.ofExcept,
    .select hkind hselection hintroduced hjoins hfilter hgroups hhaving horders⟩

theorem updateSql_writes (hkind : s.kind = .update) (h : (s.updateSql d).Answers sql) :
    ∃ labels, Labels.resolve s = .ok labels ∧ s.Writes d labels sql := by
  unfold updateSql at h
  obtain ⟨⟨t, name⟩, htarget, h⟩ := h.bind
  simp only at h
  split at h
  · exact h.elim
  split at h
  · exact h.elim
  obtain ⟨labels, hlabels, h⟩ := h.bind
  obtain ⟨target, htable, h⟩ := Build.Answers.bind h
  obtain ⟨assignments, hassignments, h⟩ := h.bind
  obtain ⟨others, hothers, h⟩ := h.bind
  obtain ⟨filter, hfilter, h⟩ := h.bind
  obtain rfl := h.pure
  obtain ⟨introduced, hintroduced, rfl⟩ := tables_introduce hothers
  have hlabels := hlabels.ofExcept
  refine ⟨labels, hlabels, .update hkind ?_ hassignments hfilter⟩
  have htarget := htarget.ofExcept
  cases htables : s.tables with
  | nil =>
      rw [htables] at htarget
      cases htarget
  | cons first rest =>
      obtain ⟨label, others, hlabel⟩ := Labels.tables_cons hlabels htables
      rw [Labels.primary, hlabel] at htable
      rw [htables, hlabel] at hintroduced
      rw [hlabel]
      obtain rfl : first = t := by
        rw [htables, QueryCompiler.target] at htarget
        split at htarget
        · cases htarget
        · exact (Prod.mk.inj (Except.ok.inj htarget)).1
      exact .cons (TableRef.sql_introduces htable) hintroduced

/-! Where tables are referred to. -/

/-- The text under which the first table is introduced, if there is one. -/
def primaryName (d : Dialect) (s : Statement ν) (labels : Labels) : Option String :=
  ((s.tables.zip labels.tables).head?).map fun x => x.1.introducedAs d x.2

/-- Every reference to a table stands under the text that introduces it. -/
structure Refers (d : Dialect) (s : Statement (Build Sql)) (labels : Labels) : Prop where
  /-- An unqualified field stands behind the first table, exactly if the label of that is clear. -/
  fields : ∀ x ∈ (s.tables.zip labels.tables).head?, ∀ name, IsUnqualified name →
    (d.fieldName labels.scope name =
        behind (some (x.1.introducedAs d x.2)) (d.quoteIdentifier name) ↔ x.1.IsClear x.2)
  /-- A column that is listed for everything stands behind its own table. -/
  columns : isWildcard s.fields = true → (∃ t ∈ s.allTables, t.attributes ≠ []) →
    ∃ columns : List (List String),
      s.selectionSql d labels = pure (", ".intercalate columns.flatten : String) ∧
      List.Forall₂ (fun x columns => x.1.IsClear x.2 → x.1.Lists d x.2 columns)
        (s.allTables.zip (labels.tables ++ labels.joins)) columns
  /-- A pair of identifiers equates a column of the first table with one of the joined table. -/
  pairs : ∀ x ∈ s.joins.zip labels.joins, ∀ pairs, x.1.condition = some (.fields pairs) →
    (∀ pair ∈ pairs, Text.isIdentifier pair.1 = true ∧ Text.isIdentifier pair.2 = true) →
    (∀ l ∈ labels.primary, IsQualifier l) → (∀ l ∈ x.2, IsQualifier l) → ∀ on,
    (((JoinCondition.fields pairs).toExpr labels.primary (x.1.shownLabel x.2)).sql d
        labels.scope).Answers on →
      on.render = equationsText d (s.primaryName d labels) (x.1.table.introducedAs d x.2) pairs

theorem primary_of_head {tables : List (TableRef ν)} {labels : Labels}
    {x : TableRef ν × Option String} (h : x ∈ (tables.zip labels.tables).head?) :
    labels.primary = x.2 := by
  rw [Labels.primary]
  cases tables with
  | nil => cases h
  | cons t rest =>
      cases hlabels : labels.tables with
      | nil => simp [hlabels] at h
      | cons label others =>
          obtain rfl : (t, label) = x := by simpa [hlabels] using h
          rfl

section References

variable {labels : Labels} (hlabels : Labels.resolve s = .ok labels)
  (hseveral : 1 < s.allTables.length)

include hlabels hseveral

/-- A label of the first table that is quoted where it is introduced is quoted the same way. -/
theorem primaryName_of_clear (hclear : ∀ x ∈ (s.tables.zip labels.tables).head?, x.1.IsClear x.2) :
    s.primaryName d labels = labels.primary.map d.quoteIdentifier := by
  have hsome := (Labels.resolve_several hlabels hseveral).2
  rw [primaryName, Labels.primary]
  cases htables : s.tables with
  | nil =>
      have hlength := Labels.length_tables hlabels
      rw [htables] at hlength
      rw [List.eq_nil_of_length_eq_zero hlength]
      rfl
  | cons t rest =>
      obtain ⟨label, others, hlabel⟩ := Labels.tables_cons hlabels htables
      obtain ⟨l, rfl⟩ := Option.isSome_iff_exists.mp (hsome label (by simp [hlabel]))
      rw [htables, hlabel] at hclear
      rw [hlabel]
      exact congrArg some (TableRef.introducedAs_of_clear (hclear _ rfl))

theorem refers_of_resolve (b : Builtin) : s.Refers b.dialect labels := by
  obtain ⟨hmulti, hsome⟩ := Labels.resolve_several hlabels hseveral
  constructor
  case fields =>
    intro x hx name hname
    have hprimary := primary_of_head hx
    obtain ⟨t, label⟩ := x
    obtain ⟨l, rfl⟩ := Option.isSome_iff_exists.mp
      (hsome label (List.mem_append_left _ (List.of_mem_zip (List.mem_of_mem_head? hx)).2))
    rw [Dialect.fieldName_unqualified _ _ hname, Scope.qualifier, Labels.scope, hmulti, if_pos rfl,
      hprimary, ← TableRef.introducedAs_eq_iff (b := b)]
    simp only [Option.map_some, behind, String.append_left_inj]
    exact eq_comm
  case columns =>
    rintro hwildcard ⟨t, ht, hattributes⟩
    have hlabelled : ∀ x ∈ s.allTables.zip (labels.tables ++ labels.joins), x.2.isSome = true :=
      fun x hx => hsome x.2 (List.of_mem_zip hx).2
    obtain ⟨columns, hcolumns, hlists⟩ := allColumns_lists b.dialect [] hlabelled
    refine ⟨columns, ?_, hlists⟩
    have hknown : (s.allTables.all fun t => t.attributes.isEmpty) = false := by
      rw [List.all_eq_false]
      exact ⟨t, ht, by simpa using hattributes⟩
    rw [selectionSql, if_pos hwildcard, wildcardText, hknown, if_neg Bool.false_ne_true, hmulti,
      hcolumns]
    rfl
  case pairs =>
    intro x hx pairs hcondition hpairs hprimary hjoined on hon
    obtain ⟨l, hl⟩ := Option.isSome_iff_exists.mp
      (hsome x.2 (List.mem_append_right _ (List.of_mem_zip hx).2))
    have hshown : x.1.shownLabel x.2 = l := by rw [Join.shownLabel, hl]; rfl
    have hname : x.1.table.introducedAs b.dialect x.2 = b.dialect.quoteIdentifier l := by
      have hclear := IsQualifier.clear hjoined x.1.table
      rw [hl] at hclear ⊢
      exact TableRef.introducedAs_of_clear hclear
    rw [hshown] at hon
    -- The condition has this text for every answer, whatever it is compiled after.
    have hrender := hon.ensured (pairsSql_ensures hprimary (hjoined l hl) hpairs)
    rw [hrender, hname, primaryName_of_clear hlabels hseveral ?_]
    · rfl
    · intro first hfirst
      rw [primary_of_head hfirst] at hprimary
      exact IsQualifier.clear hprimary first.1

end References

end Statement

namespace Query

/-- The compiled text of a selection or an update over several tables introduces each of them, and
refers to them as they are introduced. -/
theorem tables_referenced_as_introduced {b : Builtin} {q : Query} {c : Compiled}
    (hkind : q.statement.kind = .select ∨ q.statement.kind = .update)
    (hseveral : 1 < q.statement.allTables.length) (hc : q.compileWith b.dialect = .ok c) :
    ∃ labels sql, Labels.resolve q.statement = .ok labels ∧ c.sql = sql.render ∧
      (prepared b.dialect q.statement).Writes b.dialect labels sql ∧
      (prepared b.dialect q.statement).Refers b.dialect labels := by
  obtain ⟨sql, hwritten, hsql⟩ := written_of_compileWith hc
  obtain ⟨reserved, after, -, hrun, -⟩ := run_compileSteps hwritten
  have hanswers : ((prepared b.dialect q.statement).sql b.dialect).Answers sql :=
    .of_run (by rw [hrun])
  have hmap : prepared b.dialect q.statement =
      q.statement.map (fold (nestedStep b.dialect)) := foldStatement_eq_map _ _
  have hprepared : (prepared b.dialect q.statement).kind = q.statement.kind := by
    rw [hmap, Statement.map]
  have htables : 1 < (prepared b.dialect q.statement).allTables.length := by
    rwa [hmap, Statement.allTables_map, List.length_map]
  obtain ⟨labels, hlabels, hwrites⟩ : ∃ labels,
      Labels.resolve (prepared b.dialect q.statement) = .ok labels ∧
        (prepared b.dialect q.statement).Writes b.dialect labels sql := by
    rw [Statement.sql, hprepared] at hanswers
    obtain hselect | hupdate := hkind
    · rw [hselect] at hanswers
      exact Statement.selectSql_writes (hprepared.trans hselect) hanswers
    · rw [hupdate] at hanswers
      exact Statement.updateSql_writes (hprepared.trans hupdate) hanswers
  refine ⟨labels, sql, ?_, hsql, hwrites, Statement.refers_of_resolve hlabels htables b⟩
  rwa [hmap, Labels.resolve_map] at hlabels

/-- Orders under a label, with the users who placed them. -/
def placedOrders (label : String) : Query :=
  .mk Dialect.postgres Bag.empty
    { Statement.empty with
      tables := [(TableRef.named "orders").withLabel label]
      joins := [⟨.named "users", "left", some (.fields [("user_id", "id")])⟩]
      filter := some (.equal (.plainField "total") (.param "x")) }

theorem tables_referenced_as_introduced_orders : ∃ c labels,
    (placedOrders "o").compileWith Dialect.postgres = .ok c ∧
      Labels.resolve (placedOrders "o").statement = .ok labels ∧
      Dialect.postgres.fieldName labels.scope "total" = "o.total" := by
  have hok : ((placedOrders "o").compileWith Dialect.postgres).toOption.map Compiled.sql =
      some "SELECT * FROM orders o LEFT JOIN users ON o.user_id = users.id WHERE o.total = :x" := by
    decide +kernel
  obtain ⟨c, hc, -⟩ := Except.exists_of_toOption hok
  obtain ⟨labels, sql, hlabels, -, -, hrefers⟩ :=
    tables_referenced_as_introduced (b := .postgres) (.inl rfl) (by decide) hc
  obtain rfl : ⟨[some "o"], [some "users"], true⟩ = labels :=
    Except.ok.inj ((by with_unfolding_all rfl : _ = Labels.resolve (placedOrders "o").statement).trans
      hlabels)
  refine ⟨c, _, hc, hlabels, ((hrefers.fields _ rfl "total" (by decide)).mpr ?_).trans ?_⟩
  · decide
  · decide +kernel

/-- A label that is quoted already introduces its table as it stands, and is quoted once more in
front of a field, but not in front of a joined one. -/
theorem quoted_label_misreferenced :
    ((placedOrders "\"o\"").compileWith Dialect.postgres).toOption.map Compiled.sql =
        some ("SELECT * FROM orders \"o\" LEFT JOIN users ON \"o\".user_id = users.id " ++
          "WHERE \"\"\"o\"\"\".total = :x") ∧
      (Labels.resolve (placedOrders "\"o\"").statement).toOption.map (fun labels =>
          ((placedOrders "\"o\"").statement.primaryName Dialect.postgres labels,
            Dialect.postgres.fieldName labels.scope "total")) =
        some (some "\"o\"", "\"\"\"o\"\"\".total") :=
  ⟨by decide +kernel, by decide +kernel⟩

end Query

end QueryCompiler
