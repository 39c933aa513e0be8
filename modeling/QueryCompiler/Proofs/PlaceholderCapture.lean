import QueryCompiler.Proofs.DataIndependence
import QueryCompiler.Proofs.SessionReads

/-!
# Names that nobody bound

The parameters of a compiled query are what was bound to it and to its nested queries, and what was
lifted, under the names `p1`, `p2`, … up to the number of parameters. Any other name that the query
refers to is missing when its statement is prepared. A reference to one of those names is not: it
gets a value that was lifted for something else.
-/
namespace QueryCompiler

namespace Binder

/-- All generated names up to the last one are taken. -/
def Dense (binder : Binder) : Prop :=
  ∀ n, 1 ≤ n → n ≤ binder.count → binder.bag.get? (generatedName n) ≠ none

theorem dense_ofBag (bag : Bag) : (ofBag bag).Dense := by
  intro n hlow hhigh
  have hcount : (ofBag bag).count = 0 := rfl
  omega

/-- What a lift counts up to: the number of the name that it generates. -/
theorem lift_generated (binder : Binder) (value : Value) :
    ∃ n, binder.count < n ∧ (binder.lift value).1 = generatedName n ∧
      (binder.lift value).2.count = n := by
  obtain ⟨n, hsearch, hlift⟩ := binder.lift_search value
  exact ⟨n, hsearch.start_le, by rw [hlift], by rw [hlift]⟩

theorem Dense.lift {binder : Binder} (h : binder.Dense) (value : Value) :
    (binder.lift value).2.Dense := by
  obtain ⟨m, hsearch, hlift⟩ := binder.lift_search value
  intro n hlow hhigh
  rw [hlift] at hhigh ⊢
  rw [Bag.get?_insert]
  split
  · exact nofun
  · rename_i hne
    obtain hold | hnew := Nat.lt_or_ge binder.count n
    · have hlt : n < m := Nat.lt_of_le_of_ne hhigh fun heq => hne (heq ▸ rfl)
      exact Option.isSome_iff_ne_none.mp (hsearch.used_below hold hlt)
    · exact h n hlow hnew

theorem mergeEntries_count (binder : Binder) (entries : List (String × Value)) :
    (binder.mergeEntries entries).2.count = binder.count := by
  induction entries generalizing binder with
  | nil => rfl
  | cons entry rest ih =>
      rw [mergeEntries]
      split
      · rename_i bag _
        exact ih { binder with bag }
      · rfl

theorem Dense.merge {binder : Binder} (h : binder.Dense) (bag : Bag) :
    (binder.merge bag).2.Dense := by
  intro n hlow hhigh
  rw [Binder.merge, mergeEntries_count] at hhigh
  exact fun hnone => h n hlow hhigh ((merge_within binder bag).free hnone)

/-- No more names are counted than there are parameters. -/
theorem Dense.count_le {binder : Binder} (h : binder.Dense) : binder.count ≤ binder.bag.size := by
  have hsub : (List.range' 1 binder.count).map generatedName ⊆ binder.bag.names := by
    intro name hname
    obtain ⟨n, hn, rfl⟩ := List.mem_map.mp hname
    obtain ⟨hlow, hhigh⟩ := List.mem_range'_1.mp hn
    by_contra hfree
    exact h n hlow (by omega) (Bag.get?_eq_none.mpr hfree)
  have hnodup : ((List.range' 1 binder.count).map generatedName).Nodup :=
    List.Nodup.map generatedName_injective List.nodup_range'
  simpa [Bag.names, Bag.size] using (hnodup.subperm hsub).length_le

theorem mergeEntry_names {bag bag' : Bag} {name other : String} {value : Value}
    (h : mergeEntry bag name value = .ok bag') (hother : bag'.get? other ≠ none) :
    bag.get? other ≠ none ∨ other = name := by
  unfold mergeEntry at h
  split at h
  · split at h
    · cases h
      exact .inl hother
    · cases h
  · cases h
    rw [Bag.get?_insert] at hother
    split at hother
    · exact .inr ‹_›
    · exact .inl hother

theorem mergeEntries_names {binder : Binder} {entries : List (String × Value)} {name : String}
    (h : (binder.mergeEntries entries).2.bag.get? name ≠ none) :
    binder.bag.get? name ≠ none ∨ name ∈ entries.map (·.1) := by
  induction entries generalizing binder with
  | nil => exact .inl h
  | cons entry rest ih =>
      obtain ⟨first, value⟩ := entry
      rw [mergeEntries] at h
      split at h
      · rename_i bag hbag
        obtain htaken | hmem := ih h
        · obtain hold | rfl := mergeEntry_names hbag htaken
          · exact .inl hold
          · exact .inr List.mem_cons_self
        · exact .inr (List.mem_cons_of_mem _ hmem)
      · exact .inl h

end Binder

namespace Build

variable {α : Type}

/-- Names are generated in their order, up to the count of the binder at the end. -/
theorem lifts_numbered (build : Build α) {binder : Binder} (h : binder.Dense) :
    (build.run binder).2.Dense ∧ binder.count ≤ (build.run binder).2.count ∧
      ∀ lifted ∈ build.lifts binder, ∃ n, 1 ≤ n ∧ n ≤ (build.run binder).2.count ∧
        lifted.1 = Binder.generatedName n := by
  induction build generalizing binder with
  | done | fail => exact ⟨h, Nat.le_refl _, fun _ hmem => absurd hmem List.not_mem_nil⟩
  | bindValue value next ih =>
      obtain ⟨n, hn, hname, hcount⟩ := binder.lift_generated value
      obtain ⟨hdense, hle, hlifts⟩ := ih (binder.lift value).1 (h.lift value)
      rw [run, lifts]
      refine ⟨hdense, by omega, List.forall_mem_cons.mpr ⟨⟨n, by omega, by omega, hname⟩, hlifts⟩⟩
  | takeIn bag next ih =>
      have hmerge := h.merge bag
      have hcount := Binder.mergeEntries_count binder bag.entries
      rw [← Binder.merge] at hcount
      rw [run, lifts]
      split
      · rename_i after hafter
        rw [hafter] at hmerge hcount
        exact hcount ▸ ih hmerge
      · rename_i after hafter
        rw [hafter] at hmerge hcount
        exact ⟨hmerge, hcount.ge, fun _ hmem => absurd hmem List.not_mem_nil⟩

/-- The names at the end of a run were there before, were taken in or were generated. -/
theorem Alike.run_names {allowed : Bag → Prop} {x y : Build α} (h : Alike allowed Eq x y)
    {binder : Binder} {name : String} (hname : (x.run binder).2.bag.get? name ≠ none) :
    binder.bag.get? name ≠ none ∨ (∃ bag, allowed bag ∧ name ∈ bag.names) ∨
      name ∈ (x.lifts binder).map (·.1) := by
  induction h generalizing binder with
  | done | fail => exact .inl hname
  | @bindValue value _ next _ _ ih =>
      obtain hold | htaken | hlifted := ih (binder.lift value).1 hname
      · rw [Binder.lift_bag, Bag.get?_insert] at hold
        split at hold
        · rename_i heq
          exact .inr (.inr (heq ▸ List.mem_cons_self))
        · exact .inl hold
      · exact .inr (.inl htaken)
      · exact .inr (.inr (List.mem_cons_of_mem _ hlifted))
  | @takeIn bag next _ hbag _ ih =>
      have hmerged := @Binder.mergeEntries_names binder bag.entries name
      rw [← Binder.merge] at hmerged
      rw [Build.run] at hname
      rw [Build.lifts]
      split at hname
      · rename_i after hafter
        rw [hafter] at hmerged
        obtain hold | hrest := ih hname
        · obtain hold | htaken := hmerged hold
          · exact .inl hold
          · exact .inr (.inl ⟨bag, hbag, htaken⟩)
        · exact .inr hrest
      · rename_i after hafter
        rw [hafter] at hmerged
        obtain hold | htaken := hmerged hname
        · exact .inl hold
        · exact .inr (.inl ⟨bag, hbag, htaken⟩)

end Build

namespace Query

open Build (Alike)

theorem reserve_alike {allowed : Bag → Prop} {bags : List Bag} (h : ∀ bag ∈ bags, allowed bag) :
    Alike allowed Eq (reserve bags) (reserve bags) := by
  induction bags with
  | nil => exact .done rfl
  | cons bag rest ih =>
      obtain ⟨hbag, hrest⟩ := List.forall_mem_cons.mp h
      exact .takeIn hbag (ih hrest)

/-- A compilation takes in the bags of nested queries only. -/
theorem compileSteps_takes (d : Dialect) (q : Query) :
    Alike (· ∈ q.nestedBags) Eq (compileSteps d q) (compileSteps d q) :=
  (reserve_alike fun _ hbag => hbag).bindEq fun _ => compileSteps_alike d rfl

theorem binds_of_mem {owner q : Query} (hpart : owner.PartOf q) {name : String}
    (h : name ∈ owner.bound.names) : ∃ value, q.Binds name value := by
  obtain ⟨⟨_, value⟩, hentry, rfl⟩ := List.mem_map.mp h
  exact ⟨value, owner, hpart, hentry⟩

/-- Every parameter was bound or lifted. -/
theorem names_of_written {d : Dialect} {q : Query} {sql : Sql} {params : Bag}
    (h : q.written d = .ok (sql, params)) {name : String} (hname : params.get? name ≠ none) :
    (∃ value, q.Binds name value) ∨ name ∈ (q.lifts d).map (·.1) := by
  have htakes := @Alike.run_names _ _ _ _ (compileSteps_takes d q) (Binder.ofBag q.bound) name
  rw [written] at h
  split at h
  · rename_i sql' after hrun
    obtain ⟨-, rfl⟩ := Prod.mk.inj (Except.ok.inj h)
    rw [hrun] at htakes
    obtain hbound | ⟨bag, hbag, hmem⟩ | hlifted := htakes hname
    · refine .inl (binds_of_mem (.inl rfl) ?_)
      by_contra hfree
      exact hbound (Bag.get?_eq_none.mpr hfree)
    · obtain ⟨owner, hnested, rfl⟩ := exists_nestedIn hbag
      exact .inl (binds_of_mem (.inr hnested) hmem)
    · exact .inr hlifted
  · cases h

/-- The parameters of a compiled query are the bound and the lifted values, the lifted ones under
numbered names up to the number of parameters. -/
theorem compile_names {q : Query} {c : Compiled} (h : q.compile = .ok c) {name : String}
    (hname : c.params.get? name ≠ none) :
    (∃ value, q.Binds name value) ∨
      ∃ n, 1 ≤ n ∧ n ≤ c.params.size ∧ name = Binder.generatedName n := by
  obtain ⟨sql, hwritten, -⟩ := written_of_compileWith h
  refine (names_of_written hwritten hname).imp_right fun hlifted => ?_
  obtain ⟨lifted, hmem, rfl⟩ := List.mem_map.mp hlifted
  obtain ⟨hdense, -, hnumbered⟩ :=
    (compileSteps q.dialect q).lifts_numbered (Binder.dense_ofBag q.bound)
  obtain ⟨n, hlow, hhigh, hgenerated⟩ := hnumbered lifted hmem
  refine ⟨n, hlow, hhigh.trans ?_, hgenerated⟩
  rw [written] at hwritten
  split at hwritten
  · rename_i sql' after hrun
    obtain ⟨-, hbag⟩ := Prod.mk.inj (Except.ok.inj hwritten)
    rw [hrun] at hdense ⊢
    rw [← hbag]
    exact hdense.count_le
  · cases hwritten

end Query

namespace Prepared

theorem bind_of_missing {p : Prepared} {params : Bag} {name : String} (hmem : name ∈ p.names)
    (hname : params.get? name = none) :
    ∃ missing, p.bind params = .error (.missingParam missing) ∧ params.get? missing = none := by
  have hfails : ∃ missing, p.names.mapM (valueOf params) = .error (.missingParam missing) ∧
      params.get? missing = none := by
    generalize p.names = names at hmem
    induction names with
    | nil => exact absurd hmem List.not_mem_nil
    | cons first rest ih =>
        rw [List.mapM_cons]
        cases hfirst : params.get? first with
        | none => exact ⟨first, by simp [valueOf, hfirst, Bind.bind, Except.bind], hfirst⟩
        | some value =>
            obtain rfl | hrest := List.mem_cons.mp hmem
            · simp [hname] at hfirst
            · obtain ⟨missing, hmissing, hnone⟩ := ih hrest
              exact ⟨missing, by simp [valueOf, hfirst, hmissing, Bind.bind, Except.bind], hnone⟩
  obtain ⟨missing, hmissing, hnone⟩ := hfails
  exact ⟨missing, by simp [Prepared.bind, hmissing, Bind.bind, Except.bind], hnone⟩

end Prepared

/-- An expression refers to a parameter by its name. -/
inductive Expr.Refers {ν : Type} (name : String) : Expr ν → Prop
  | param : Refers name (.param name)
  | placeholder {s : String} (h : Mark.ofText? s = some (.reference name)) :
      Refers name (.literal (.text s))
  | operand {op : String} {operands : List (Expr ν)} {e : Expr ν} (he : e ∈ operands)
      (h : Refers name e) : Refers name (.op op operands)
  | argument {f : String} {args : List (Expr ν)} {e : Expr ν} (he : e ∈ args)
      (h : Refers name e) : Refers name (.call f args)

namespace Query

/-- A query or a query nested in it refers to a parameter by its name. -/
def Refers (q : Query) (name : String) : Prop :=
  ∃ part : Query, part.PartOf q ∧ ∃ e ∈ part.statement.exprs, e.Refers name

/-- A name that nobody bound and that no lift can have generated has no value: when it occurs in
the text, no statement is sent. -/
theorem compile_leaves_unbound {q : Query} {c : Compiled} (h : q.compile = .ok c) {name : String}
    (hunbound : ∀ value, ¬ q.Binds name value)
    (hother : ∀ n, 1 ≤ n → n ≤ c.params.size → name ≠ Binder.generatedName n) :
    c.params.get? name = none ∧ (name ∈ (Prepared.prepare q.dialect c.sql).names →
      ∃ missing, q.driverStatement = .error (.missingParam missing) ∧
        c.params.get? missing = none) := by
  have hnone : c.params.get? name = none := by
    by_contra htaken
    obtain ⟨value, hbinds⟩ | ⟨n, hlow, hhigh, heq⟩ := compile_names h htaken
    · exact hunbound value hbinds
    · exact hother n hlow hhigh heq
  refine ⟨hnone, fun hmem => ?_⟩
  obtain ⟨missing, hmissing, hfree⟩ := Prepared.bind_of_missing hmem hnone
  exact ⟨missing, by rw [driverStatement, h]; exact hmissing, hfree⟩

/-- A selection that refers to a parameter after a string that is lifted. -/
def referringTo (name : String) : Query :=
  mk Dialect.postgres Bag.empty
    { Statement.empty with
      tables := [.named "users"],
      filter := some (.conj [.equal (.plainField "name") (.literal (.text "ada")),
        .equal (.plainField "id") (.param name)]) }

theorem referringTo_refers (name : String) : (referringTo name).Refers name := by
  refine ⟨_, .inl rfl, _, Statement.mem_exprs_of_filter rfl, ?_⟩
  refine .operand (e := .equal (.plainField "id") (.param name)) (by simp) ?_
  exact .operand (e := .param name) (by simp) .param

theorem referringTo_unbound (name other : String) (value : Value) :
    ¬ (referringTo name).Binds other value := by
  rintro ⟨owner, hpart, hentry⟩
  obtain rfl := hpart.eq_of_flat rfl
  exact absurd hentry List.not_mem_nil

theorem compile_leaves_unbound_referringTo :
    ∃ c, (referringTo "who").compile = .ok c ∧ c.params.get? "who" = none ∧
      ∃ missing, (referringTo "who").driverStatement = .error (.missingParam missing) ∧
        c.params.get? missing = none := by
  have hnames : (referringTo "who").compile.map (fun c => (c.params.size,
      (Prepared.prepare (referringTo "who").dialect c.sql).names)) = .ok (1, ["p1", "who"]) := by
    with_unfolding_all rfl
  cases hcompile : (referringTo "who").compile with
  | error fault => simp [hcompile, Except.map] at hnames
  | ok c =>
      obtain ⟨hsize, hnames⟩ : c.params.size = 1 ∧ _ = ["p1", "who"] := by
        simpa [hcompile, Except.map] using hnames
      have hother : ∀ n, 1 ≤ n → n ≤ c.params.size → "who" ≠ Binder.generatedName n := by
        intro n hlow hhigh
        obtain rfl : n = 1 := by omega
        decide
      obtain ⟨hnone, hmissing⟩ :=
        compile_leaves_unbound hcompile (referringTo_unbound "who" "who") hother
      exact ⟨c, rfl, hnone, hmissing (by simp [hnames])⟩

/-- A reference to a generated name that nobody bound gets the value that was lifted under it. -/
theorem referringTo_captured :
    (referringTo "p1").Refers "p1" ∧ (∀ value, ¬ (referringTo "p1").Binds "p1" value) ∧
      (referringTo "p1").compile.map (fun c => c.params.get? "p1") = .ok (some (.text "ada")) ∧
      (referringTo "p1").driverStatement.map (fun p => (p.names, p.values)) =
        .ok (["p1", "p1"], [.text "ada", .text "ada"]) :=
  ⟨referringTo_refers "p1", referringTo_unbound "p1" "p1", by with_unfolding_all rfl,
    by with_unfolding_all rfl⟩

end Query

end QueryCompiler
