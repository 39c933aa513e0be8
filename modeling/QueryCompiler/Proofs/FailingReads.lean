import QueryCompiler.Proofs.BuildFaults
import QueryCompiler.Proofs.SessionReads

/-!
# Reads that fail before anything is sent

A read is over before it sends anything, or the fault it ends in is not one that callers may take
for a sign that nothing was sent. Each part of a read is quiet, fails late, or keeps this promise as
a whole, and so does what is put together of such parts.
-/
namespace QueryCompiler

/-- A fault that is reported before anything is sent: the query was refused, it has no connection,
or a parameter has no value. -/
def Fault.isEarly : Fault → Bool
  | .notConnected => true
  | .missingParam _ => true
  | fault => fault.isBuildFault

theorem Fault.isEarly_of_isBuildFault {fault : Fault} (h : fault.isBuildFault = true) :
    fault.isEarly = true := by
  cases fault <;> first | rfl | cases h

/-- A connection that never reports an early fault of its own. -/
structure Connection.FailsLate (connection : Connection) : Prop where
  fetch : ∀ before p, FailsWith (fun fault => fault.isEarly = false) (connection.fetch before p)
  execute : ∀ before p, FailsWith (fun fault => fault.isEarly = false) (connection.execute before p)

namespace Read

variable {α β : Type}

/-- A read from a session on that sends nothing, and stays with its connection. -/
def Quiet (s : Session) (r : Read α) : Prop :=
  (r.runFrom s).2.log = s.log ∧ (r.runFrom s).2.connection = s.connection

/-- A read from a session on that does not end in an early fault. -/
def Late (s : Session) (r : Read α) : Prop :=
  FailsWith (fun fault => fault.isEarly = false) (r.runFrom s).1

/-- A read from a session on that has sent nothing when it ends in an early fault. -/
def Honest (s : Session) (r : Read α) : Prop :=
  ∀ fault, (r.runFrom s).1 = .error fault → fault.isEarly = true → (r.runFrom s).2.log = s.log

theorem late_pure (a : α) (s : Session) : Late s (pure a) := FailsWith.ok a

theorem late_throw {fault : Fault} (h : fault.isEarly = false) (s : Session) :
    Late s (throw fault : Read α) :=
  FailsWith.error h

theorem late_liftExcept {answer : Except Fault α}
    (h : FailsWith (fun fault => fault.isEarly = false) answer) (s : Session) :
    Late s (liftExcept answer) := by
  rw [Late, runFrom_liftExcept]
  exact h

theorem Late.bind {s : Session} {r : Read α} {next : α → Read β} (hr : Late s r)
    (hnext : ∀ a s', Late s' (next a)) : Late s (r >>= next) := by
  unfold Late at hr ⊢
  rw [runFrom_bind]
  generalize r.runFrom s = outcome at hr ⊢
  obtain ⟨fault | a, after⟩ := outcome
  · exact FailsWith.error (hr fault rfl)
  · exact hnext a after

theorem Late.honest {s : Session} {r : Read α} (hr : Late s r) : Honest s r := by
  intro fault hfault hearly
  rw [hr fault hfault] at hearly
  cases hearly

theorem Quiet.honest {s : Session} {r : Read α} (hr : Quiet s r) : Honest s r :=
  fun _ _ _ => hr.1

/-- What is sent behind a quiet part is sent by the rest. -/
theorem Quiet.bind_honest {s : Session} {r : Read α} {next : α → Read β} (hr : Quiet s r)
    (hnext : ∀ a s', s'.connection = s.connection → (r.runFrom s).1 = .ok a →
      Honest s' (next a)) : Honest s (r >>= next) := by
  obtain ⟨hlog, hconnection⟩ := hr
  unfold Honest
  rw [runFrom_bind]
  generalize r.runFrom s = outcome at hlog hconnection hnext ⊢
  obtain ⟨_ | a, after⟩ := outcome
  · exact fun _ _ _ => hlog
  · intro fault hfault hearly
    exact (hnext a after hconnection rfl fault hfault hearly).trans hlog

/-- Behind the part that may send something nothing may end in an early fault. -/
theorem Honest.bind {s : Session} {r : Read α} {next : α → Read β} (hr : Honest s r)
    (hnext : ∀ a s', Late s' (next a)) : Honest s (r >>= next) := by
  unfold Honest at hr ⊢
  rw [runFrom_bind]
  generalize r.runFrom s = outcome at hr ⊢
  obtain ⟨fault | a, after⟩ := outcome
  · rintro _ ⟨⟩
    exact hr fault rfl
  · intro fault hfault hearly
    rw [hnext a after fault hfault] at hearly
    cases hearly

theorem quiet_compiled (s : Session) : Quiet s compiled := by
  rw [compiled, Quiet, runFrom_get_bind]
  cases s.compiled with
  | some c => exact ⟨rfl, rfl⟩
  | none =>
      simp only [runFrom_bind, runFrom_get, runFrom_liftExcept]
      cases s.query.compile <;> exact ⟨rfl, rfl⟩

theorem quiet_statement (s : Session) : Quiet s statement := by
  have hcompiled := quiet_compiled s
  unfold Quiet at hcompiled ⊢
  rw [statement, runFrom_bind]
  generalize compiled.runFrom s = outcome at hcompiled ⊢
  obtain ⟨fault | c, after⟩ := outcome
  · exact hcompiled
  · simpa only [runFrom_get_bind, runFrom_liftExcept] using hcompiled

theorem quiet_connection (s : Session) : Quiet s connection := by
  rw [Quiet, runFrom_connection]
  split <;> exact ⟨rfl, rfl⟩

theorem late_send (kind : CallKind) (p : Prepared)
    {answer : List Call → Prepared → Except Fault α}
    (h : ∀ before, FailsWith (fun fault => fault.isEarly = false) (answer before p))
    (s : Session) : Late s (send kind p answer) := by
  rw [Late, runFrom_send]
  exact h s.log

/-- The connection, the statement and then the call: the part that all reads share. -/
theorem honest_call {s : Session} (hs : ∀ connection ∈ s.connection, connection.FailsLate)
    {next : Connection → Prepared → Read α}
    (hnext : ∀ connection p s', connection.FailsLate → Late s' (next connection p)) :
    Honest s (do
      let connection ← connection
      let p ← statement
      next connection p) := by
  refine (quiet_connection s).bind_honest fun connection s' _ hconnection => ?_
  refine (quiet_statement s').bind_honest fun p s'' _ _ => Late.honest ?_
  refine hnext connection p s'' (hs connection ?_)
  rw [runFrom_connection] at hconnection
  cases hattached : s.connection with
  | none =>
      rw [hattached] at hconnection
      cases hconnection
  | some attached =>
      rw [hattached] at hconnection
      cases hconnection
      rfl

section

variable {s : Session} (hs : ∀ connection ∈ s.connection, connection.FailsLate)

include hs

theorem honest_all : Honest s all := by
  unfold all Honest
  rw [runFrom_get_bind]
  cases s.rows with
  | some rows => exact (late_pure rows s).honest
  | none =>
      refine honest_call hs fun connection p s' hconnection => ?_
      refine (late_send .fetch p (fun before => hconnection.fetch before p) s').bind fun rows s'' => ?_
      exact FailsWith.ok rows

theorem honest_one : Honest s one :=
  (honest_all hs).bind fun rows s' => late_pure rows.head? s'

theorem honest_column : Honest s column :=
  (honest_all hs).bind fun rows s' => late_pure (rows.map Row.first) s'

theorem honest_scalar : Honest s scalar := by
  refine (honest_one hs).bind fun row s' => ?_
  cases row with
  | none => exact late_throw rfl s'
  | some row => exact late_pure row.first s'

theorem honest_perform : Honest s perform := by
  unfold perform Honest
  rw [runFrom_get_bind]
  split
  · exact (honest_all hs).bind fun rows s' => late_pure rows.length s'
  · refine honest_call hs fun connection p s' hconnection => ?_
    exact late_send .execute p (fun before => hconnection.execute before p) s'

theorem honest_execute : Honest s execute := by
  unfold execute Honest
  rw [runFrom_get_bind]
  cases s.affected with
  | some n => exact (late_pure n s).honest
  | none =>
      exact (honest_perform hs).bind fun n s' => FailsWith.ok n

omit hs in
theorem countOf_late (v : Value) : FailsWith (fun fault => fault.isEarly = false) (countOf v) := by
  unfold countOf
  split
  · split
    · exact .ok _
    · exact .error rfl
  · exact .error rfl

/-- Counting asks a query of its own, on the same connection and with the same log. -/
theorem honest_count : Honest s count := by
  have hscalar : Honest s.counting scalar := honest_scalar hs
  unfold Honest at hscalar ⊢
  rw [runFrom_count]
  generalize scalar.runFrom s.counting = outcome at hscalar ⊢
  obtain ⟨fault | v, after⟩ := outcome
  · rintro _ ⟨⟩
    exact hscalar fault rfl
  · intro fault hfault hearly
    rw [countOf_late v fault hfault] at hearly
    cases hearly

omit hs in
theorem hydrate_late (decode : Json → Option α) (row : Row) :
    FailsWith (fun fault => fault.isEarly = false) (row.hydrate decode) := by
  unfold Row.hydrate
  split
  · exact .ok _
  · exact .error rfl

theorem honest_allAs (decode : Json → Option α) : Honest s (allAs decode) :=
  (honest_all hs).bind fun rows s' =>
    late_liftExcept (FailsWith.mapM (hydrate_late decode) rows) s'

theorem honest_oneAs (decode : Json → Option α) : Honest s (oneAs decode) := by
  refine (honest_one hs).bind fun row s' => ?_
  cases row with
  | none => exact late_throw rfl s'
  | some row => exact late_liftExcept (hydrate_late decode row) s'

end

/-- The reads that fetch: they need a connection, and send it what is not remembered. -/
inductive Fetches : {α : Type} → Read α → Prop
  | all : Fetches Read.all
  | one : Fetches Read.one
  | column : Fetches Read.column
  | scalar : Fetches Read.scalar
  | count : Fetches Read.count
  | execute : Fetches Read.execute
  | allAs {α : Type} (decode : Json → Option α) : Fetches (Read.allAs decode)
  | oneAs {α : Type} (decode : Json → Option α) : Fetches (Read.oneAs decode)

theorem Fetches.honest {r : Read α} (hr : r.Fetches) {s : Session}
    (hs : ∀ connection ∈ s.connection, connection.FailsLate) : Honest s r := by
  cases hr with
  | all => exact honest_all hs
  | one => exact honest_one hs
  | column => exact honest_column hs
  | scalar => exact honest_scalar hs
  | count => exact honest_count hs
  | execute => exact honest_execute hs
  | allAs decode => exact honest_allAs hs decode
  | oneAs decode => exact honest_oneAs hs decode

end Read

namespace Query

/-- Refusals never reach the database. Whatever refuses a query under a built-in dialect is a fault
of compilation; and a read that ends in such a fault, or for want of a connection or of a value,
has left the log of the connection as it was, as long as the connection itself does not report such
faults. -/
theorem refusals_send_nothing :
    (∀ (b : Builtin) (q : Query) (fault : Fault), q.dialect = b.dialect →
        q.compile = .error fault → fault.isBuildFault = true) ∧
      ∀ {α : Type} (r : Read α) (s : Session) (fault : Fault), r.Fetches →
        (∀ connection ∈ s.connection, connection.FailsLate) →
        (r.runFrom s).1 = .error fault →
        fault.isBuildFault = true ∨ fault = .notConnected ∨ (∃ name, fault = .missingParam name) →
        (r.runFrom s).2.log = s.log := by
  constructor
  · intro b q fault hdialect hcompile
    rw [compile, hdialect] at hcompile
    exact compileWith_onlyBuildFaults b.buildsSafely q fault hcompile
  · intro α r s fault hr hs hfault hcause
    refine hr.honest hs fault hfault ?_
    obtain hbuild | rfl | ⟨name, rfl⟩ := hcause
    · exact Fault.isEarly_of_isBuildFault hbuild
    · rfl
    · rfl

/-- A deletion that would leave nothing. -/
def clearing : Query :=
  mk Dialect.postgres Bag.empty
    { Statement.empty with kind := .delete, tables := [.named "users"] }

/-- A selection by a value that is not bound. -/
def lookingUp : Query :=
  mk Dialect.postgres Bag.empty
    { Statement.empty with
      tables := [.named "users"], filter := some (.equal (.plainField "id") (.param "id")) }

/-- A database without rows. -/
def barren : Connection := ⟨Dialect.postgres, fun _ _ => .ok [], fun _ _ => .ok 0⟩

theorem barren_failsLate : barren.FailsLate :=
  ⟨fun _ _ => FailsWith.ok [], fun _ _ => FailsWith.ok 0⟩

theorem refusals_send_nothing_barren :
    (∃ fault, clearing.compile = .error fault ∧ fault.isBuildFault = true) ∧
      (Read.count.runFrom (Session.ofQuery lookingUp (some barren) [])).1 =
        .error (.missingParam "id") ∧
      (Read.count.runFrom (Session.ofQuery lookingUp (some barren) [])).2.log = [] := by
  have hclearing : clearing.compile = .error (.invalidQuery .deleteWithoutFilter) := by
    with_unfolding_all rfl
  have hcount : (Read.count.runFrom (Session.ofQuery lookingUp (some barren) [])).1 =
      .error (.missingParam "id") := by
    with_unfolding_all rfl
  have hattached : ∀ connection ∈ (Session.ofQuery lookingUp (some barren) []).connection,
      connection.FailsLate := by
    rintro connection ⟨⟩
    exact barren_failsLate
  refine ⟨⟨_, hclearing, refusals_send_nothing.1 .postgres _ _ rfl hclearing⟩, hcount, ?_⟩
  exact refusals_send_nothing.2 _ _ _ .count hattached hcount (.inr (.inr ⟨"id", rfl⟩))

end Query

end QueryCompiler
