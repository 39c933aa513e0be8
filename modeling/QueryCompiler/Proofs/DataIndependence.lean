import QueryCompiler.Proofs.ParameterSafety
import QueryCompiler.Proofs.StatementAlike

/-!
# Data does not show in the text

Two queries that are the same up to their data are written in the same text, with the same names of
parameters in the same order, or neither of them can be written.
-/
namespace QueryCompiler.Query

open Build (Alike)

theorem nestedStep_alike (d : Dialect) {allowed : Bag → Prop} (q : Query)
    (h : ∀ bag ∈ q.bags, allowed bag) :
    Alike allowed Eq (q.fold (nestedStep d)) (q.withoutData.fold (nestedStep d)) := by
  induction q using Query.induct with
  | step q ih =>
      have hbound : allowed q.bound := h _ (by simp [bags_eq])
      have hnested : ∀ inner ∈ q.statement.subqueries, Alike allowed Eq
          (inner.fold (nestedStep d)) ((fold (nestedStep d) ∘ withoutData) inner) := by
        intro inner hinner
        refine ih inner hinner fun bag hbag => h bag ?_
        rw [bags_eq]
        exact List.mem_cons_of_mem _ (mem_nestedBags hinner hbag)
      rw [fold_eq, fold_eq, withoutData_eq, dialect, bound, statement, Statement.withoutData_map,
        Statement.map_map]
      exact (Alike.merge hbound).bindEq fun _ => q.statement.sql_alike d hnested

theorem statementSteps_alike (d : Dialect) (q : Query) :
    Alike (· ∈ q.nestedBags) Eq ((prepared d q.statement).sql d)
      ((prepared d q.withoutData.statement).sql d) := by
  have hnested : ∀ inner ∈ q.statement.subqueries, Alike (· ∈ q.nestedBags) Eq
      (inner.fold (nestedStep d)) ((fold (nestedStep d) ∘ withoutData) inner) := fun inner hinner =>
    nestedStep_alike d inner fun _ hbag => mem_nestedBags hinner hbag
  rw [prepared, prepared, foldStatement_eq_map, foldStatement_eq_map, withoutData_eq, statement,
    Statement.withoutData_map, Statement.map_map]
  exact q.statement.sql_alike d hnested

/-- Queries that are the same up to their data are written alike. -/
theorem compileSteps_alike (d : Dialect) {q q' : Query} (h : q.withoutData = q'.withoutData) :
    Alike (· ∈ q.nestedBags) Eq ((prepared d q.statement).sql d)
      ((prepared d q'.statement).sql d) := by
  have hbags : q'.nestedBags = q.nestedBags := by
    rw [← nestedBags_withoutData, ← h, nestedBags_withoutData]
  have hq := statementSteps_alike d q
  have hq' := statementSteps_alike d q'
  rw [hbags] at hq'
  rw [h] at hq
  exact hq.trans hq'.symm

/-- The binder at the end of a reservation agrees with itself on what was reserved. -/
theorem reserved_agrees {q : Query} {reserved : Binder}
    (h : (reserve q.nestedBags).run (Binder.ofBag q.bound) = (.ok (), reserved)) :
    Binder.Agree q.nestedBags reserved reserved :=
  ⟨rfl, rfl, fun _ hbag _ hentry => ⟨rfl, (reserve_keeps h hbag hentry).name_taken⟩⟩

/-- After a reservation the answer is that of writing the statement. -/
theorem compileWith_of_reserved (d : Dialect) {q : Query} {reserved : Binder}
    (h : (reserve q.nestedBags).run (Binder.ofBag q.bound) = (.ok (), reserved)) :
    q.compileWith d = (((prepared d q.statement).sql d).run reserved).1.map fun sql =>
      ⟨sql.render, (((prepared d q.statement).sql d).run reserved).2.bag⟩ := by
  rw [compileWith, written, compileSteps, Build.run_bind, h]
  simp only
  cases ((prepared d q.statement).sql d).run reserved with
  | mk answer after => cases answer <;> rfl

theorem compileWith_of_conflict (d : Dialect) {q : Query} {fault : Fault} {after : Binder}
    (h : (reserve q.nestedBags).run (Binder.ofBag q.bound) = (.error fault, after)) :
    q.compileWith d = .error fault := by
  rw [compileWith, written, compileSteps, Build.run_bind, h]
  rfl

/-- Bound data never influences the text: two queries that differ in their data only have the same
text and the same names of parameters in the same order, or both cannot be compiled. -/
theorem compile_independent_of_data (d : Dialect) {q q' : Query}
    (h : q.withoutData = q'.withoutData) :
    (∃ fault fault', q.compileWith d = .error fault ∧ q'.compileWith d = .error fault') ∨
      ∃ c c', q.compileWith d = .ok c ∧ q'.compileWith d = .ok c' ∧ c.sql = c'.sql ∧
        c.params.names = c'.params.names := by
  have hbound : q'.bound = q.bound := by rw [← bound_withoutData, ← h, bound_withoutData]
  have hbags : q'.nestedBags = q.nestedBags := by
    rw [← nestedBags_withoutData, ← h, nestedBags_withoutData]
  have hsame : (reserve q'.nestedBags).run (Binder.ofBag q'.bound) =
      (reserve q.nestedBags).run (Binder.ofBag q.bound) := by rw [hbound, hbags]
  cases hreserve : (reserve q.nestedBags).run (Binder.ofBag q.bound) with
  | mk answer reserved =>
      rw [hreserve] at hsame
      cases answer with
      | error fault =>
          exact .inl ⟨fault, fault, compileWith_of_conflict d hreserve,
            compileWith_of_conflict d hsame⟩
      | ok _ =>
          have hrun := (compileSteps_alike d h).run (reserved_agrees hreserve)
          rw [compileWith_of_reserved d hreserve, compileWith_of_reserved d hsame]
          generalize (prepared d q.statement).sql d = steps at hrun ⊢
          generalize (prepared d q'.statement).sql d = steps' at hrun ⊢
          obtain ⟨fault, fault', hq, hq'⟩ | ⟨sql, hq, hq', hagree⟩ := hrun
          · rw [hq, hq']
            exact .inl ⟨fault, fault', rfl, rfl⟩
          · rw [hq, hq']
            exact .inr ⟨⟨sql.render, (steps.run reserved).2.bag⟩,
              ⟨sql.render, (steps'.run reserved).2.bag⟩, rfl, rfl, rfl, hagree.names⟩

/-- A selection by a name, outside, and by two identifiers, in a nested query. -/
def lookup (name : String) (first second : Value) : Query :=
  mk Dialect.mysql Bag.empty
    { Statement.empty with
      tables := [.ofQuery (mk Dialect.mysql Bag.empty
        { Statement.empty with
          tables := [.named "b"], filter := some (.shorthand [("id", .list [first, second])]) })],
      filter := some (.equal (.plainField "name") (.literal (.text name))) }

theorem compile_independent_of_data_lookup :
    (lookup "ada" (.int 1) (.int 2)).withoutData =
        (lookup "x OR 1 = 1" .null (.text "--")).withoutData ∧
      ∃ c c', (lookup "ada" (.int 1) (.int 2)).compileWith Dialect.mysql = .ok c ∧
        (lookup "x OR 1 = 1" .null (.text "--")).compileWith Dialect.mysql = .ok c' ∧
        c.sql = c'.sql ∧ c.params.names = c'.params.names := by
  have hsame : (lookup "ada" (.int 1) (.int 2)).withoutData =
      (lookup "x OR 1 = 1" .null (.text "--")).withoutData := rfl
  refine ⟨hsame, ?_⟩
  obtain ⟨fault, _, hfault, _⟩ | halike := compile_independent_of_data Dialect.mysql hsame
  · have hok : ((lookup "ada" (.int 1) (.int 2)).compileWith Dialect.mysql).isOk = true := by
      decide +kernel
    simp [hfault, Except.isOk, Except.toBool] at hok
  · exact halike

end QueryCompiler.Query
