import QueryCompiler.Proofs.Renaming
import QueryCompiler.Query.Edit

/-!
# Compiling the query that counts

A query that compiles can still be compiled with other selected columns, without its order and its
bounds: fewer names are reserved and fewer values are lifted, and the clauses that are left do not
mind. So the query that counts its rows compiles as well, be they counted from inside or outside.
-/
namespace QueryCompiler

namespace Bag

theorem put_of_not_mem {name : String} {entries : List (String × Value)} (value : Value)
    (h : name ∉ entries.map (·.1)) : put name value entries = entries ++ [(name, value)] := by
  induction entries with
  | nil => rfl
  | cons entry rest ih =>
      rw [List.map_cons, List.mem_cons, not_or] at h
      rw [put, if_neg (Ne.symm h.1), ih h.2, List.cons_append]

end Bag

namespace Binder

/-- Parameters with names of their own are taken in as they are. -/
theorem mergeEntries_append {binder : Binder} {entries : List (String × Value)}
    (h : ((binder.bag.entries ++ entries).map (·.1)).Nodup) :
    binder.mergeEntries entries = (.ok (), ⟨⟨binder.bag.entries ++ entries, h⟩, binder.count⟩) := by
  induction entries generalizing binder with
  | nil =>
      obtain ⟨⟨entries, hnodup⟩, count⟩ := binder
      simp [mergeEntries]
  | cons entry rest ih =>
      obtain ⟨name, value⟩ := entry
      have hdisjoint := (List.nodup_append.mp (List.map_append ▸ h)).2.2
      have hnew : name ∉ binder.bag.entries.map (·.1) := fun hmem =>
        hdisjoint name hmem name (by simp) rfl
      have hput : (binder.bag.insert name value).entries = binder.bag.entries ++ [(name, value)] :=
        Bag.put_of_not_mem value hnew
      have hmerge : mergeEntry binder.bag name value = .ok (binder.bag.insert name value) := by
        rw [mergeEntry, Bag.get?_eq_none.mpr hnew]
      have hrest : (((binder.bag.insert name value).entries ++ rest).map (·.1)).Nodup := by
        simpa [hput] using h
      rw [mergeEntries, hmerge]
      simp only
      rw [@ih { binder with bag := binder.bag.insert name value } hrest]
      simp [hput]

theorem merge_empty (bag : Bag) : (ofBag Bag.empty).merge bag = (.ok (), ofBag bag) :=
  @mergeEntries_append (ofBag Bag.empty) _ bag.nodup

end Binder

namespace Statement

variable {ν : Type} {d : Dialect}

/-- A selection of something else, in no order and without bounds. -/
def reselected (s : Statement ν) (fields : List (SelectItem ν)) : Statement ν :=
  { s.unbounded with fields }

/-- A selection is compiled clause by clause. -/
theorem run_selectSql {s : Statement (Build Sql)} {binder after : Binder} {sql : Sql}
    (h : (s.selectSql d).run binder = (.ok sql, after)) :
    ∃ labels selection between rows behind, Labels.resolve s = .ok labels ∧
      (s.selectionSql d labels).run binder = (.ok selection, between) ∧
      (s.rowsSql d labels).run between = (.ok rows, behind) := by
  rw [selectSql_eq] at h
  obtain ⟨labels, start, hlabels, h⟩ := Build.run_bind_eq_ok.mp h
  obtain ⟨hresolve, rfl⟩ := Prod.mk.inj ((Build.run_ofExcept _ _).1.symm.trans hlabels)
  obtain ⟨selection, between, hselection, h⟩ := Build.run_bind_eq_ok.mp h
  obtain ⟨rows, behind, hrows, -⟩ := Build.run_bind_eq_ok.mp h
  exact ⟨labels, selection, between, rows, behind, hresolve, hselection, hrows⟩

/-- Without an order nothing can fail behind the clauses for the rows. -/
theorem run_selectSql_of {s : Statement (Build Sql)} (horders : s.orders = []) {labels : Labels}
    (hlabels : Labels.resolve s = .ok labels) {binder between behind : Binder} {selection rows : Sql}
    (hselection : (s.selectionSql d labels).run binder = (.ok selection, between))
    (hrows : (s.rowsSql d labels).run between = (.ok rows, behind)) :
    ∃ sql, (s.selectSql d).run binder = (.ok sql, behind) := by
  simp only [selectSql_eq, hlabels, horders, Build.run_bind, (Build.run_ofExcept _ _).1, hselection,
    hrows]
  exact ⟨_, rfl⟩

/-- The number of rows is always selected. -/
theorem run_countAll (d : Dialect) {s : Statement (Build Sql)} (hfields : s.fields = [countAll])
    (labels : Labels) (binder : Binder) :
    ∃ sql, (s.selectionSql d labels).run binder = (.ok sql, binder) := by
  have hname : ((Text.dotParts "COUNT").all Text.isIdentifier) = true := by decide
  have hstar : Field.parse "*" = .ok ⟨"*", none⟩ := by with_unfolding_all rfl
  have hitem : (countAll : SelectItem (Build Sql)).sql d labels.scope =
      pure ("COUNT".toUpper ++ "(" ++ Sql.intercalate ", " [d.fieldName labels.scope "*"] ++ ")") := by
    simp [SelectItem.sql, SelectItem.parts, countAll, Expr.plainField, Expr.sql, Expr.sqlIn,
      Expr.fragment, Expr.fragments, Fragment.leaf, Fragment.alone, callSql, fieldSql, hname, hstar,
      Build.ofExcept]
    rfl
  have hwildcard : isWildcard s.fields = false := by
    rw [hfields]
    rfl
  rw [selectionSql, hwildcard, hfields, listClause]
  simp only [Bool.false_eq_true, if_false, List.isEmpty_cons, List.mapM_cons, List.mapM_nil, hitem,
    pure_bind]
  exact ⟨_, rfl⟩

end Statement

/-- A query is written with the binder of another one, or with its own: lifted values have
identifiers for names either way. -/
def BothIdentifiers (name name' : String) : Prop :=
  Text.isIdentifier name = true ∧ Text.isIdentifier name' = true

namespace Query

variable {b : Builtin} {q : Query}

/-! What is written with the binder of a whole query can be written with the one of a part. -/

section Part

variable {part : Query} {outer after alone : Binder} {sql : Sql}

theorem run_part {x : Build Sql} {R : Sql → Sql → Prop}
    (hx : Build.Paired (fun _ => False) (· ∈ part.nestedBags) BothIdentifiers R x x)
    (hserves : outer.Serves part.IsBound alone) (hrun : x.run outer = (.ok sql, after)) :
    ∃ sql' after', x.run alone = (.ok sql', after') ∧ after.Serves part.IsBound after' := by
  have hnamed : ∀ m n, BothIdentifiers (Binder.generatedName m) (Binder.generatedName n) :=
    fun m n => ⟨Binder.isIdentifier_generatedName m, Binder.isIdentifier_generatedName n⟩
  obtain ⟨sql', after', hrun', hserves', -⟩ :=
    hx.run_alone hnamed isBound_of_nestedBags hserves hrun
  exact ⟨sql', after', hrun', hserves'⟩

/-- Texts of a part that differ in the names of lifted values only. -/
def partWording (b : Builtin) (part : Query) :
    Wording (Build.steps (fun _ => False) (· ∈ part.nestedBags) BothIdentifiers) .all b b :=
  (b.renaming (· ∈ part.nestedBags) fun _ _ h => h).toWording

theorem partWording_isSame (b : Builtin) (part : Query) : (partWording b part).IsSame :=
  ⟨rfl, fun _ => trivial⟩

theorem inner_related (b : Builtin) (part : Query) : ∀ inner ∈ part.statement.subqueries,
    (Build.steps (fun _ => False) (· ∈ part.nestedBags) BothIdentifiers).Rel
      (partWording b part).Whole (inner.fold (nestedStep b.dialect))
      (inner.fold (nestedStep b.dialect)) :=
  fun inner hinner => nestedStep_related (partWording b part) inner.uses_all fun _ hbag =>
    Build.Paired.merge (mem_nestedBags hinner hbag)

theorem run_selection_part (labels : Labels) (hserves : outer.Serves part.IsBound alone)
    (hrun : ((prepared b.dialect part.statement).selectionSql b.dialect labels).run outer =
      (.ok sql, after)) :
    ∃ sql' after', ((prepared b.dialect part.statement).selectionSql b.dialect labels).run alone =
      (.ok sql', after') ∧ after.Serves part.IsBound after' := by
  rw [prepared, foldStatement_eq_map] at hrun ⊢
  have hselection := Statement.selectionSql_related (partWording b part).toPhrasing
    (part.statement.uses_all.fits (partWording_isSame b part).allowed) (inner_related b part) labels
  rw [(partWording_isSame b part).revision, Statement.revise_unchanged] at hselection
  exact run_part hselection hserves hrun

theorem run_rows_part {labels : Labels} (hlabels : Labels.resolve part.statement = .ok labels)
    (hserves : outer.Serves part.IsBound alone)
    (hrun : ((prepared b.dialect part.statement).rowsSql b.dialect labels).run outer =
      (.ok sql, after)) :
    ∃ sql' after', ((prepared b.dialect part.statement).rowsSql b.dialect labels).run alone =
      (.ok sql', after') ∧ after.Serves part.IsBound after' := by
  rw [prepared, foldStatement_eq_map] at hrun ⊢
  have hrows := Statement.rowsSql_related (partWording b part).toPhrasing
    (part.statement.uses_all.fits (partWording_isSame b part).allowed) (inner_related b part)
    hlabels
  rw [(partWording_isSame b part).revision, Statement.revise_unchanged] at hrows
  exact run_part hrows hserves hrun

/-- A binder of its own for a part of a query whose bags are taken in from the start. -/
theorem reserve_part (hbound : part.bound = q.bound)
    (hpart : part.nestedBags.Sublist q.nestedBags) {reserved : Binder}
    (hreserve : (reserve q.nestedBags).run (Binder.ofBag q.bound) = (.ok (), reserved)) :
    ∃ alone, (reserve part.nestedBags).run (Binder.ofBag part.bound) = (.ok (), alone) ∧
      reserved.Serves part.IsBound alone := by
  have hstart : Bag.Follows part.IsBound (Binder.ofBag q.bound).bag
      (Binder.ofBag part.bound).bag := by
    rw [hbound]
    exact Bag.follows_of_keeps fun _ hentry => Bag.keeps_of_mem hentry
  obtain ⟨alone, halone, hfollows⟩ :=
    reserve_follows hpart isBound_of_nestedBags hstart hreserve
  refine ⟨alone, halone, hfollows, ?_⟩
  rintro name ⟨value, hbinds⟩
  exact (reserved_keeps halone hbinds).name_taken

end Part

/-! Selections, by their clauses. -/

section Selection

variable {d : Dialect}

theorem resolve_prepared (s : Statement Query) :
    Labels.resolve (prepared d s) = Labels.resolve s := by
  rw [prepared, foldStatement_eq_map, Labels.resolve_map]

theorem sql_prepared {s : Statement Query} (hkind : s.kind = .select) :
    (prepared d s).sql d = (prepared d s).selectSql d := by
  have hprepared : (prepared d s).kind = .select := by
    rw [prepared, foldStatement_eq_map]
    exact hkind
  rw [Statement.sql, hprepared]

/-- A selection that compiles is compiled clause by clause. -/
theorem selection_of_written (hkind : q.statement.kind = .select) {sql : Sql} {params : Bag}
    (hwritten : q.written d = .ok (sql, params)) :
    ∃ reserved labels selection between rows behind,
      (reserve q.nestedBags).run (Binder.ofBag q.bound) = (.ok (), reserved) ∧
      Labels.resolve q.statement = .ok labels ∧
      ((prepared d q.statement).selectionSql d labels).run reserved = (.ok selection, between) ∧
      ((prepared d q.statement).rowsSql d labels).run between = (.ok rows, behind) := by
  obtain ⟨reserved, after, hreserve, hrun, -⟩ := run_compileSteps hwritten
  rw [sql_prepared hkind] at hrun
  obtain ⟨labels, selection, between, rows, behind, hlabels, hselection, hrows⟩ :=
    Statement.run_selectSql hrun
  rw [resolve_prepared] at hlabels
  exact ⟨reserved, labels, selection, between, rows, behind, hreserve, hlabels, hselection, hrows⟩

/-- A selection without an order compiles if its other clauses can be written. -/
theorem compileWith_of_selection (hkind : q.statement.kind = .select)
    (horders : q.statement.orders = []) {reserved between behind : Binder} {labels : Labels}
    {selection rows : Sql}
    (hreserve : (reserve q.nestedBags).run (Binder.ofBag q.bound) = (.ok (), reserved))
    (hlabels : Labels.resolve q.statement = .ok labels)
    (hselection : ((prepared d q.statement).selectionSql d labels).run reserved =
      (.ok selection, between))
    (hrows : ((prepared d q.statement).rowsSql d labels).run between = (.ok rows, behind)) :
    ∃ c, q.compileWith d = .ok c := by
  have hnone : (prepared d q.statement).orders = [] := by
    rw [prepared, foldStatement_eq_map]
    exact List.map_eq_nil_iff.mpr horders
  obtain ⟨sql, hrun⟩ := Statement.run_selectSql_of hnone ((resolve_prepared _).trans hlabels)
    hselection hrows
  rw [← sql_prepared hkind] at hrun
  refine ⟨⟨sql.render, behind.bag⟩, ?_⟩
  rw [compileWith, written_of_runs hreserve hrun]
  rfl

end Selection

/-! A selection of something else. -/

section Reselected

variable {fields : List (SelectItem Query)}

/-- Fewer bags belong to a selection of less. -/
theorem nestedBags_reselected (hfields : (fields.flatMap fun item => item.expr.subqueries).Sublist
      (q.statement.fields.flatMap fun item => item.expr.subqueries)) :
    (q.edit (·.reselected fields)).nestedBags.Sublist q.nestedBags := by
  have hflatMap : ∀ {part whole : List Query}, part.Sublist whole →
      (part.flatMap bags).Sublist (whole.flatMap bags) := by
    intro part whole h
    induction h with
    | slnil => exact .slnil
    | cons inner _ ih => exact ih.trans (List.sublist_append_right _ _)
    | cons_cons inner _ ih => exact ih.append_left _
  refine hflatMap (.append_left ?_ _)
  simp only [Statement.exprs, Statement.reselected, Statement.unbounded, edit, statement,
    List.flatMap_append, List.flatMap_map, List.map_nil, List.append_nil]
  refine .append (.append ?_ (.refl _)) (.refl _)
  refine .trans ?_ (List.sublist_append_left _ _)
  exact .append (.append (.append (.append hfields (.refl _)) (.refl _)) (.refl _)) (.refl _)

/-- The clauses for the rows stay. -/
theorem rowsSql_reselected (d : Dialect) (labels : Labels) :
    (prepared d (q.statement.reselected fields)).rowsSql d labels =
      (prepared d q.statement).rowsSql d labels := by
  rw [prepared, prepared, foldStatement_eq_map, foldStatement_eq_map]
  rfl

/-- A query compiles without its order and its bounds, be its rows selected or their number. -/
theorem reselected_compiles (hkind : q.statement.kind = .select) {c : Compiled}
    (hc : q.compileWith b.dialect = .ok c)
    (hfields : fields = q.statement.fields ∨ fields = [Statement.countAll]) :
    ∃ c, (q.edit (·.reselected fields)).compileWith b.dialect = .ok c := by
  let part := q.edit (·.reselected fields)
  obtain ⟨sql, hwritten, -⟩ := written_of_compileWith hc
  obtain ⟨reserved, labels, selection, between, rows, behind, hreserve, hlabels, hselection,
    hrows⟩ := selection_of_written hkind hwritten
  have hpart : part.nestedBags.Sublist q.nestedBags := by
    refine nestedBags_reselected ?_
    obtain rfl | rfl := hfields
    · exact .refl _
    · exact List.nil_sublist _
  obtain ⟨alone, halone, hserves⟩ := @reserve_part q part rfl hpart _ hreserve
  have hselected : ∃ selection' between',
      ((prepared b.dialect part.statement).selectionSql b.dialect labels).run alone =
        (.ok selection', between') ∧ between.Serves part.IsBound between' := by
    obtain hsame | hcount := hfields
    · have hstay : (prepared b.dialect part.statement).selectionSql b.dialect labels =
          (prepared b.dialect q.statement).selectionSql b.dialect labels := by
        rw [prepared, prepared, foldStatement_eq_map, foldStatement_eq_map]
        subst hsame
        rfl
      rw [← hstay] at hselection
      exact run_selection_part labels hserves hselection
    · have hprepared : (prepared b.dialect part.statement).fields = [Statement.countAll] := by
        rw [prepared, foldStatement_eq_map]
        subst hcount
        rfl
      obtain ⟨selection', hselection'⟩ := Statement.run_countAll b.dialect hprepared labels alone
      have hgrown := Build.run_within
        ((prepared b.dialect q.statement).selectionSql b.dialect labels) reserved
      rw [hselection] at hgrown
      exact ⟨selection', alone, hselection', hserves.within hgrown⟩
  obtain ⟨selection', between', hselection', hserves'⟩ := hselected
  have hlabels' : Labels.resolve part.statement = .ok labels := hlabels
  rw [← rowsSql_reselected] at hrows
  obtain ⟨rows', behind', hrows', -⟩ := run_rows_part hlabels' hserves' hrows
  exact compileWith_of_selection rfl rfl halone hlabels' hselection' hrows'

end Reselected

/-! The number of rows. -/

section Counted

variable {d : Dialect}

/-- The query that counts the rows of another one from outside. -/
def around (d : Dialect) (inner : Query) : Query :=
  mk d Bag.empty
    { Statement.empty with
      fields := [Statement.countAll]
      tables := [(TableRef.ofQuery inner).withLabel "counted"] }

theorem counted_of_distinct (h : q.statement.distinct = true) :
    q.counted = around q.dialect (q.edit Statement.unbounded) := by
  rw [counted, if_pos h]
  rfl

theorem counted_of_not_distinct (h : q.statement.distinct = false) :
    q.counted = q.edit (·.reselected [Statement.countAll]) := by
  rw [counted, if_neg (ne_true_of_eq_false h)]
  rfl

/-- Around a nested query its parameters are taken in first; what they are is known then. -/
theorem reserve_around {inner : Query} {reserved : Binder}
    (hreserve : (reserve inner.nestedBags).run (Binder.ofBag inner.bound) = (.ok (), reserved)) :
    (reserve (around d inner).nestedBags).run (Binder.ofBag (around d inner).bound) =
      (.ok (), reserved) := by
  have hbags : (around d inner).nestedBags = inner.bound :: inner.nestedBags := by
    rw [← bags_eq]
    exact List.append_nil _
  have hbound : (around d inner).bound = Bag.empty := rfl
  rw [hbags, hbound, reserve_cons, Build.run, Binder.merge_empty]
  exact hreserve

/-- A query is written inside of another one if each value bound to it equals itself. -/
theorem run_nested {inner : Query} (hequal : ∀ entry ∈ inner.bound.entries,
      (entry.2 == entry.2) = true) {reserved after : Binder} {sql : Sql}
    (hreserve : (reserve inner.nestedBags).run (Binder.ofBag inner.bound) = (.ok (), reserved))
    (hrun : ((prepared d inner.statement).sql d).run reserved = (.ok sql, after)) :
    (inner.fold (nestedStep d)).run reserved = (.ok sql, after) := by
  have hwithin := Build.run_within (reserve inner.nestedBags) (Binder.ofBag inner.bound)
  rw [hreserve] at hwithin
  have hmerge : reserved.merge inner.bound = (.ok (), reserved) :=
    Binder.mergeEntries_held fun entry hentry =>
      ⟨entry.2, hwithin _ _ (Bag.get?_of_mem hentry), hequal entry hentry⟩
  have hstep : inner.fold (nestedStep d) =
      .takeIn inner.bound ((prepared d inner.statement).sql d) := by
    rw [fold_eq, prepared, foldStatement_eq_map]
    rfl
  rw [hstep, Build.run, hmerge]
  exact hrun

theorem around_compiles {inner : Query} (hequal : ∀ entry ∈ inner.bound.entries,
      (entry.2 == entry.2) = true) {c : Compiled} (hc : inner.compileWith d = .ok c) :
    ∃ c, (around d inner).compileWith d = .ok c := by
  obtain ⟨sql, hwritten, -⟩ := written_of_compileWith hc
  obtain ⟨reserved, after, hreserve, hrun, -⟩ := run_compileSteps hwritten
  have hnested := run_nested hequal hreserve hrun
  let labels : Labels := ⟨[some "counted"], [], false⟩
  obtain ⟨selection, hselection⟩ := Statement.run_countAll d
    (s := prepared d (around d inner).statement) rfl labels reserved
  have hrows : ∃ rows, ((prepared d (around d inner).statement).rowsSql d labels).run reserved =
      (.ok rows, after) := by
    have htables : (prepared d (around d inner).statement).tables =
        [⟨.subquery (inner.fold (nestedStep d)), some "counted", none⟩] := rfl
    have hclause : (prepared d (around d inner).statement).rowsSql d labels = do
        let sql ← inner.fold (nestedStep d)
        return " FROM " ++ ("(" ++ sql ++ ")" ++ " " ++ d.labelName "counted") ++ Sql.concat [] ++
          "" ++ "" ++ "" := by
      rw [Statement.rowsSql, htables]
      simp only [labels, listClause, TableRef.sql, parenthesized, List.zip_cons_cons,
        List.zip_nil_left, List.isEmpty_cons, Bool.false_eq_true, if_false, List.mapM_cons,
        List.mapM_nil, bind_assoc, pure_bind, Option.getD_some]
      rfl
    rw [hclause]
    exact ⟨_, Build.run_bind_eq_ok.mpr ⟨sql, after, hnested, rfl⟩⟩
  obtain ⟨rows, hrows⟩ := hrows
  exact compileWith_of_selection rfl rfl (reserve_around hreserve) rfl hselection hrows

/-- The query that counts the rows of a query compiles if the query itself does. A value that does
not equal itself is in conflict with itself where the rows are counted from outside. -/
theorem counted_compiles (hdialect : q.dialect = b.dialect) (hkind : q.statement.kind = .select)
    (hequal : q.statement.distinct = true → ∀ entry ∈ q.bound.entries,
      (entry.2 == entry.2) = true) {c : Compiled} (hc : q.compile = .ok c) :
    ∃ c, q.counted.compile = .ok c := by
  rw [compile, hdialect] at hc
  cases hdistinct : q.statement.distinct with
  | true =>
      obtain ⟨c', hc'⟩ := reselected_compiles hkind hc (.inl rfl)
      rw [counted_of_distinct hdistinct]
      exact around_compiles (hequal hdistinct) (hdialect ▸ hc')
  | false =>
      obtain ⟨c', hc'⟩ := reselected_compiles hkind hc (.inr rfl)
      rw [counted_of_not_distinct hdistinct]
      exact ⟨c', by rw [← hc', ← hdialect]; rfl⟩

end Counted

end Query

end QueryCompiler
