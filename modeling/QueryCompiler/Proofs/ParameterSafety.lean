import QueryCompiler.Compile.Query
import QueryCompiler.Dialect.Builtin
import QueryCompiler.Proofs.BinderGrowth
import QueryCompiler.Proofs.Nesting

/-!
# Generated parameters beside bound ones

A compilation takes in the bags of all nested queries before it lifts anything, so a generated name
is free of all bound names, wherever the query that binds them is nested.
-/
namespace QueryCompiler.Query

/-- A value bound to the query itself or to a query nested in it at any depth. -/
def Binds (q : Query) (name : String) (value : Value) : Prop :=
  ∃ owner : Query, owner.PartOf q ∧ (name, value) ∈ owner.bound.entries

theorem reserve_cons (bag : Bag) (bags : List Bag) :
    reserve (bag :: bags) = .takeIn bag (reserve bags) := rfl

theorem lifts_reserve (bags : List Bag) (binder : Binder) : (reserve bags).lifts binder = [] := by
  induction bags generalizing binder with
  | nil => rfl
  | cons bag rest ih =>
      rw [reserve_cons, Build.lifts]
      split
      · exact ih _
      · rfl

theorem reserve_keeps {bags : List Bag} {binder after : Binder}
    (hrun : (reserve bags).run binder = (.ok (), after)) {bag : Bag} (hbag : bag ∈ bags)
    {entry : String × Value} (hentry : entry ∈ bag.entries) : after.bag.Keeps entry := by
  induction bags generalizing binder with
  | nil => exact absurd hbag List.not_mem_nil
  | cons first rest ih =>
      rw [reserve_cons, Build.run] at hrun
      split at hrun
      · rename_i between hmerge
        obtain rfl | hrest := List.mem_cons.mp hbag
        · have hkeeps : between.bag.Keeps entry := by
            have hok : (binder.mergeEntries bag.entries).1 = .ok () := by
              rw [← Binder.merge, hmerge]
            have hentries := Binder.mergeEntries_keeps hok hentry
            rwa [← Binder.merge, hmerge] at hentries
          have hwithin := Build.run_within (reserve rest) between
          rw [hrun] at hwithin
          exact hkeeps.mono hwithin
        · exact ih hrun hrest
      · cases hrun

/-- A successful compilation reserves first, and then writes the statement. -/
theorem run_compileSteps {d : Dialect} {q : Query} {sql : Sql} {params : Bag}
    (h : q.written d = .ok (sql, params)) :
    ∃ reserved after, (reserve q.nestedBags).run (Binder.ofBag q.bound) = (.ok (), reserved) ∧
      ((prepared d q.statement).sql d).run reserved = (.ok sql, after) ∧ after.bag = params := by
  rw [written, compileSteps, Build.run_bind] at h
  split at h
  · rename_i sql' after hrun
    cases h
    split at hrun
    · rename_i reserved hreserve
      exact ⟨reserved, after, hreserve, hrun, rfl⟩
    · cases hrun
  · cases h

theorem lifts_eq {d : Dialect} {q : Query} {reserved : Binder}
    (h : (reserve q.nestedBags).run (Binder.ofBag q.bound) = (.ok (), reserved)) :
    q.lifts d = ((prepared d q.statement).sql d).lifts reserved := by
  rw [lifts, compileSteps, Build.lifts_bind, lifts_reserve, h, List.nil_append]

/-- Once the nested bags are reserved, every bound name is taken by an equal value. -/
theorem reserved_keeps {q : Query} {reserved : Binder}
    (h : (reserve q.nestedBags).run (Binder.ofBag q.bound) = (.ok (), reserved))
    {name : String} {value : Value} (hbinds : q.Binds name value) :
    reserved.bag.Keeps (name, value) := by
  obtain ⟨owner, rfl | hnested, hentry⟩ := hbinds
  · have hwithin := Build.run_within (reserve owner.nestedBags) (Binder.ofBag owner.bound)
    rw [h] at hwithin
    exact (Bag.keeps_of_mem hentry).mono hwithin
  · exact reserve_keeps h hnested.bound_mem hentry

theorem written_params {d : Dialect} {q : Query} {sql : Sql} {params : Bag}
    (h : q.written d = .ok (sql, params)) :
    (∀ name value, q.Binds name value → params.Keeps (name, value)) ∧
      ∀ lifted ∈ q.lifts d, (∀ value, ¬ q.Binds lifted.1 value) ∧
        params.get? lifted.1 = some lifted.2 := by
  obtain ⟨reserved, after, hreserve, hrun, rfl⟩ := run_compileSteps h
  have hwithin := Build.run_within ((prepared d q.statement).sql d) reserved
  have hlifts := Build.lifts_spec ((prepared d q.statement).sql d) reserved
  rw [hrun] at hwithin hlifts
  constructor
  · intro name value hbinds
    exact (reserved_keeps hreserve hbinds).mono hwithin
  · intro lifted hmem
    rw [lifts_eq hreserve] at hmem
    obtain ⟨hfree, hkept⟩ := hlifts lifted hmem
    refine ⟨fun value hbinds => ?_, hkept⟩
    exact (reserved_keeps hreserve hbinds).name_taken hfree

theorem lifts_names_nodup (d : Dialect) (q : Query) : ((q.lifts d).map (·.1)).Nodup :=
  Build.lifts_nodup _ _

theorem written_of_compileWith {d : Dialect} {q : Query} {c : Compiled}
    (h : q.compileWith d = .ok c) : ∃ sql, q.written d = .ok (sql, c.params) ∧ c.sql = sql.render := by
  rw [compileWith] at h
  cases hwritten : q.written d with
  | error fault => simp [hwritten, Except.map] at h
  | ok result =>
      obtain ⟨sql, params⟩ := result
      obtain rfl : (⟨sql.render, params⟩ : Compiled) = c := by simpa [hwritten, Except.map] using h
      exact ⟨sql, rfl, rfl⟩

/-- Generated parameters never disturb bound ones: every bound value is kept, every generated name
differs from all bound ones and from each other and stands for its value at the end, no name occurs
twice, and the search for a free name ends. -/
theorem compile_keeps_params {q : Query} {c : Compiled} (h : q.compile = .ok c) :
    (∀ name value, q.Binds name value →
        ∃ held, c.params.get? name = some held ∧ held.Equals value) ∧
      (∀ lifted ∈ q.lifts q.dialect, (∀ value, ¬ q.Binds lifted.1 value) ∧
        c.params.get? lifted.1 = some lifted.2) ∧
      ((q.lifts q.dialect).map (·.1)).Nodup ∧
      c.params.names.Nodup ∧
      ∀ (binder : Binder) (value : Value), ∃ n,
        Search binder.bag.contains Binder.generatedName (binder.count + 1) n ∧
        binder.lift value = (Binder.generatedName n,
          ⟨binder.bag.insert (Binder.generatedName n) value, n⟩) := by
  obtain ⟨sql, hwritten, _⟩ := written_of_compileWith h
  obtain ⟨hbound, hlifted⟩ := written_params hwritten
  exact ⟨hbound, hlifted, lifts_names_nodup q.dialect q, c.params.nodup, Binder.lift_search⟩

/-- A nested query that binds the first of the generated names. -/
def bindingFirst : Query :=
  mk Dialect.sqlite (Bag.ofList [("p1", .int 7)])
    { Statement.empty with
      fields := [⟨.plainField "id", none⟩], tables := [.named "b"],
      filter := some (.equal (.plainField "k") (.param "p1")) }

/-- A selection that lifts a string before its nested query is written. -/
def aroundBinding : Query :=
  mk Dialect.postgres Bag.empty
    { Statement.empty with
      tables := [.named "a"],
      filter := some (.conj [.equal (.plainField "name") (.literal (.text "ada")),
        .op "IN" [.plainField "id", .subquery bindingFirst]]) }

theorem aroundBinding_binds : aroundBinding.Binds "p1" (.int 7) := by
  refine ⟨bindingFirst, .inr (.direct (.filter rfl ?_)), List.mem_cons_self⟩
  refine .operand (e := .op "IN" [.plainField "id", .subquery bindingFirst]) (by simp) ?_
  exact .operand (e := .subquery bindingFirst) (by simp) .subquery

theorem compile_keeps_params_aroundBinding :
    ∃ c, aroundBinding.compile = .ok c ∧ c.params.names = ["p1", "p2"] ∧
      (aroundBinding.lifts aroundBinding.dialect).map (·.1) = ["p2"] ∧
      ∃ held, c.params.get? "p1" = some held ∧ held.Equals (.int 7) := by
  have hnames : (aroundBinding.compile.map (·.params.names)).toOption = some ["p1", "p2"] := by
    decide +kernel
  cases hcompile : aroundBinding.compile with
  | error fault => simp [hcompile, Except.map, Except.toOption] at hnames
  | ok c =>
      have hsafe := compile_keeps_params hcompile
      refine ⟨c, rfl, ?_, by decide +kernel, hsafe.1 _ _ aroundBinding_binds⟩
      simpa [hcompile, Except.map, Except.toOption] using hnames

end QueryCompiler.Query
