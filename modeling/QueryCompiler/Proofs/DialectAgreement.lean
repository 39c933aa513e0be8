import QueryCompiler.Proofs.QueryWording

/-!
# Agreement across dialects

A query takes the same steps in every dialect: the same values are lifted under the same names, and
it fails with the same fault. Only MySQL may stop earlier, at an operator that it lacks.
-/
namespace QueryCompiler

/-- The faults with which a dialect stops where PostgreSQL goes on. -/
def Builtin.GivesUp (b : Builtin) (fault : Fault) : Prop :=
  b = .mysql ∧ ∃ op ∈ mysqlLacks, fault = .unsupported op "mysql"

/-- Compiling for PostgreSQL and for another dialect, step by step. -/
def Builtin.beside (b : Builtin) : Build.Pairing := Build.steps b.GivesUp (fun _ => True) Eq

namespace Builtin

/-- Texts need not be related for the steps to be the same. -/
def anyWording (b : Builtin) (hb : b ≠ .postgres) : Wording b.beside .all .postgres b where
  Rel _ _ _ _ := True
  Whole _ _ := True
  word _ _ _ := trivial
  nothing := trivial
  append _ _ := trivial
  raise _ _ := trivial
  mark _ _ := trivial
  lifted _ := trivial
  string _ _ _ := trivial
  field _ _ _ _ := trivial
  table _ := trivial
  label _ := trivial
  spelling := spelling_related (by decide) fun op hop hmysql => ⟨hmysql, op, hop, rfl⟩
  ilike _ _ := by cases b <;> exact ⟨_, _, rfl, rfl, trivial⟩
  bracketed _ := trivial
  order _ _ _ := trivial
  whole _ := trivial
  wholeAppend _ _ := trivial
  group _ := trivial

end Builtin

/-- A dialect gives up, or a query has there the parameters or the fault that it has in
PostgreSQL. -/
theorem Query.compileWith_params (b : Builtin) (hb : b ≠ .postgres) (q : Query) :
    (∃ fault, b.GivesUp fault ∧ q.compileWith b.dialect = .error fault) ∨
      (q.compileWith b.dialect).map Compiled.params =
        (q.compileWith Builtin.postgres.dialect).map Compiled.params := by
  have hsteps := compileSteps_related (b.anyWording hb) q.uses_all fun _ _ =>
    Build.Paired.merge trivial
  unfold compileWith written
  obtain ⟨fault, _, hgives, hrun⟩ | ⟨_, _, hrun, hrun'⟩ | ⟨_, _, _, -, hrun, hrun'⟩ :=
    Build.Paired.run (fun _ => rfl) hsteps (Binder.ofBag q.bound)
  · rw [hrun]
    exact .inl ⟨fault, hgives, rfl⟩
  · rw [hrun, hrun']
    exact .inr rfl
  · rw [hrun, hrun']
    exact .inr rfl

/-- Compiling a query for PostgreSQL and for SQLite fails with the same fault or gives the same
parameters: the same names and values in the same order. So does compiling it for MySQL, unless an
operator is met there that MySQL lacks. -/
theorem Query.compileWith_agrees (q : Query) :
    (q.compileWith Dialect.sqlite).map Compiled.params =
        (q.compileWith Dialect.postgres).map Compiled.params ∧
      ((∃ op ∈ ["||", "IS DISTINCT FROM"],
          q.compileWith Dialect.mysql = .error (.unsupported op "mysql")) ∨
        (q.compileWith Dialect.mysql).map Compiled.params =
          (q.compileWith Dialect.postgres).map Compiled.params) := by
  constructor
  · obtain ⟨_, ⟨hb, _⟩, _⟩ | hsame := compileWith_params .sqlite (by decide) q
    · cases hb
    · exact hsame
  · obtain ⟨_, ⟨_, op, hop, rfl⟩, hfault⟩ | hsame := compileWith_params .mysql (by decide) q
    · exact .inl ⟨op, hop, hfault⟩
    · exact .inr hsame

end QueryCompiler
