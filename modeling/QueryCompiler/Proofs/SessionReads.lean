import Mathlib.Logic.Relation
import QueryCompiler.Workspace

/-!
# What reads do to a session

A session is coherent when everything it remembers is what its query would give now. On coherent
sessions a read can be told in terms of the query alone: it fills in what is missing, and what one
step of it may do is listed once, in `Session.Step`.
-/
namespace QueryCompiler

/-- The statement that is sent for a query, computed from the query alone. -/
def Query.driverStatement (q : Query) : Except Fault Prepared :=
  q.compile.bind fun c => (Prepared.prepare q.dialect c.sql).bind c.params

/-- Whether a connection gives an answer to a call, and not a fault. -/
def Connection.accepts (connection : Connection) (before : List Call) (call : Call) : Bool :=
  match call.kind with
  | .fetch => (connection.fetch before call.statement).isOk
  | .execute => (connection.execute before call.statement).isOk

/-- A log holds a call that got this answer, after the calls before it. -/
def Answered {α : Type} (answer : List Call → Prepared → Except Fault α) (kind : CallKind)
    (log : List Call) (p : Prepared) (a : α) : Prop :=
  ∃ before, before ++ [⟨kind, p⟩] <+: log ∧ answer before p = .ok a

theorem Answered.mono {α : Type} {answer : List Call → Prepared → Except Fault α} {kind : CallKind}
    {log log' : List Call} {p : Prepared} {a : α} (h : Answered answer kind log p a)
    (hlog : log <+: log') : Answered answer kind log' p a := by
  obtain ⟨before, hbefore, ha⟩ := h
  exact ⟨before, hbefore.trans hlog, ha⟩

theorem answered_last {α : Type} {answer : List Call → Prepared → Except Fault α} {kind : CallKind}
    {log : List Call} {p : Prepared} {a : α} (h : answer log p = .ok a) :
    Answered answer kind (log ++ [⟨kind, p⟩]) p a :=
  ⟨log, List.prefix_rfl, h⟩

namespace Session

/-- What a session remembers is what its query gives now: the compiled statement, the rows that the
attached connection answered to the statement of the query, and the number that executing the query
gave, which for a selection is the number of its rows. -/
structure Coherent (s : Session) : Prop where
  compiled : ∀ c, s.compiled = some c → s.query.compile = .ok c
  rows : ∀ rows, s.rows = some rows → ∃ connection p, s.connection = some connection ∧
    s.query.driverStatement = .ok p ∧ Answered connection.fetch .fetch s.log p rows
  selected : s.query.statement.kind = .select → ∀ n, s.affected = some n →
    ∃ rows, s.rows = some rows ∧ n = rows.length
  changed : s.query.statement.kind ≠ .select → ∀ n, s.affected = some n →
    ∃ connection p, s.connection = some connection ∧ s.query.driverStatement = .ok p ∧
      Answered connection.execute .execute s.log p n

theorem coherent_ofQuery (q : Query) (connection : Option Connection) (log : List Call) :
    (ofQuery q connection log).Coherent where
  compiled _ h := by cases h
  rows _ h := by cases h
  selected _ _ h := by cases h
  changed _ _ h := by cases h

/-- What others send to the connection does not matter. -/
theorem Coherent.extend {s : Session} (h : s.Coherent) {log : List Call} (hlog : s.log <+: log) :
    { s with log := log }.Coherent where
  compiled := h.compiled
  rows rows hrows := by
    obtain ⟨connection, p, hconnection, hp, hanswered⟩ := h.rows rows hrows
    exact ⟨connection, p, hconnection, hp, hanswered.mono hlog⟩
  selected := h.selected
  changed hkind n hn := by
    obtain ⟨connection, p, hconnection, hp, hanswered⟩ := h.changed hkind n hn
    exact ⟨connection, p, hconnection, hp, hanswered.mono hlog⟩

/-- One step of a read. The statement that is sent is always the one of the query; a fault of the
connection leaves only the call behind. -/
inductive Step (s : Session) : Session → Prop
  | compiled {c : Compiled} (missing : s.compiled = none) (hc : s.query.compile = .ok c) :
      Step s { s with compiled := some c }
  | refused {connection : Connection} {p : Prepared} (kind : CallKind)
      (hconnection : s.connection = some connection) (hp : s.query.driverStatement = .ok p)
      (hrefused : connection.accepts s.log ⟨kind, p⟩ = false) :
      Step s { s with log := s.log ++ [⟨kind, p⟩] }
  | fetched {connection : Connection} {p : Prepared} {rows : List Row} (missing : s.rows = none)
      (hconnection : s.connection = some connection) (hp : s.query.driverStatement = .ok p)
      (hrows : connection.fetch s.log p = .ok rows) :
      Step s { s with log := s.log ++ [⟨.fetch, p⟩], rows := some rows }
  | executed {connection : Connection} {p : Prepared} {n : Nat}
      (hkind : s.query.statement.kind ≠ .select) (hconnection : s.connection = some connection)
      (hp : s.query.driverStatement = .ok p) (hn : connection.execute s.log p = .ok n) :
      Step s { s with log := s.log ++ [⟨.execute, p⟩], affected := some n }
  | counted {rows : List Row} (hkind : s.query.statement.kind = .select)
      (hrows : s.rows = some rows) : Step s { s with affected := some rows.length }

/-- A read takes some steps. -/
abbrev Steps : Session → Session → Prop := Relation.ReflTransGen Step

theorem Step.coherent {s s' : Session} (h : s.Step s') (hs : s.Coherent) : s'.Coherent := by
  cases h with
  | compiled missing hc =>
      exact ⟨fun c h => by cases h; exact hc, hs.rows, hs.selected, hs.changed⟩
  | refused kind => exact hs.extend (List.prefix_append _ _)
  | fetched missing hconnection hp hrows =>
      refine ⟨hs.compiled, fun rows h => ?_, fun hkind n hn => ?_, ?_⟩
      · cases h
        exact ⟨_, _, hconnection, hp, answered_last hrows⟩
      · obtain ⟨rows, hsome, -⟩ := hs.selected hkind n hn
        cases missing ▸ hsome
      · exact (hs.extend (List.prefix_append _ _)).changed
  | executed hkind hconnection hp hn =>
      refine ⟨hs.compiled, (hs.extend (List.prefix_append _ _)).rows,
        fun h => absurd h hkind, fun _ n h => ?_⟩
      cases h
      exact ⟨_, _, hconnection, hp, answered_last hn⟩
  | counted hkind hrows =>
      exact ⟨hs.compiled, hs.rows, fun _ n h => by cases h; exact ⟨_, hrows, rfl⟩,
        fun h => absurd hkind h⟩

theorem Step.query {s s' : Session} (h : s.Step s') : s'.query = s.query := by cases h <;> rfl

theorem Step.connection {s s' : Session} (h : s.Step s') : s'.connection = s.connection := by
  cases h <;> rfl

theorem Step.log {s s' : Session} (h : s.Step s') : s.log <+: s'.log := by
  cases h with
  | compiled | counted => exact List.prefix_rfl
  | refused | fetched | executed => exact List.prefix_append _ _

theorem Step.log_of_offline {s s' : Session} (h : s.Step s') (hoff : s.connection = none) :
    s'.log = s.log := by
  cases h with
  | compiled | counted => rfl
  | refused _ hconnection | fetched _ hconnection | executed _ hconnection =>
      cases hoff ▸ hconnection

theorem Steps.coherent {s s' : Session} (h : s.Steps s') (hs : s.Coherent) : s'.Coherent := by
  induction h with
  | refl => exact hs
  | tail _ hstep ih => exact hstep.coherent ih

/-- Reads leave the query and the connection as they are; the log only gets longer, and without a
connection it stays. -/
theorem Steps.frame {s s' : Session} (h : s.Steps s') : s'.query = s.query ∧
    s'.connection = s.connection ∧ s.log <+: s'.log ∧ (s.connection = none → s'.log = s.log) := by
  induction h with
  | refl => exact ⟨rfl, rfl, List.prefix_rfl, fun _ => rfl⟩
  | tail _ hstep ih =>
      obtain ⟨hquery, hconnection, hlog, hoff⟩ := ih
      refine ⟨hstep.query.trans hquery, hstep.connection.trans hconnection, hlog.trans hstep.log, ?_⟩
      intro hnone
      rw [hstep.log_of_offline (hconnection.trans hnone), hoff hnone]

/-- The session with its compiled statement filled in, where there is one. -/
def filled (s : Session) : Session := { s with compiled := s.query.compile.toOption }

theorem Coherent.steps_filled {s : Session} (hs : s.Coherent) : s.Steps s.filled := by
  unfold filled
  cases hcompiled : s.compiled with
  | some c =>
      rw [hs.compiled c hcompiled, Except.toOption, ← hcompiled]
  | none =>
      cases hc : s.query.compile with
      | error fault =>
          rw [Except.toOption, ← hcompiled]
      | ok c => exact .single (.compiled hcompiled hc)

end Session

namespace Read

variable {α β : Type}

@[simp]
theorem runFrom_pure (a : α) (s : Session) : (pure a : Read α).runFrom s = (.ok a, s) := rfl

@[simp]
theorem runFrom_throw (fault : Fault) (s : Session) :
    (throw fault : Read α).runFrom s = (.error fault, s) := rfl

@[simp]
theorem runFrom_modify (f : Session → Session) (s : Session) :
    (modify f : Read Unit).runFrom s = (.ok (), f s) := rfl

@[simp]
theorem runFrom_liftExcept (answer : Except Fault α) (s : Session) :
    (liftExcept answer : Read α).runFrom s = (answer, s) := by
  cases answer <;> rfl

theorem runFrom_bind (r : Read α) (next : α → Read β) (s : Session) :
    (r >>= next).runFrom s =
      match r.runFrom s with
      | (.ok a, s') => (next a).runFrom s'
      | (.error fault, s') => (.error fault, s') := by
  change (ExceptT.bindCont next (r.runFrom s).1).run (r.runFrom s).2 = _
  obtain ⟨_ | _, _⟩ := r.runFrom s <;> rfl

@[simp]
theorem runFrom_get (s : Session) : (get : Read Session).runFrom s = (.ok s, s) := rfl

theorem runFrom_get_bind (next : Session → Read β) (s : Session) :
    (get >>= next).runFrom s = (next s).runFrom s := rfl

theorem runFrom_compiled {s : Session} (hs : s.Coherent) :
    compiled.runFrom s = (s.query.compile, s.filled) := by
  rw [compiled, runFrom_get_bind]
  cases hcompiled : s.compiled with
  | some c => simp [Session.filled, hs.compiled c hcompiled, Except.toOption, ← hcompiled]
  | none =>
      simp only [runFrom_bind, runFrom_get, runFrom_liftExcept]
      cases hc : s.query.compile with
      | error fault => simp [Session.filled, hc, Except.toOption, ← hcompiled]
      | ok c => simp [Session.filled, hc, Except.toOption]

theorem runFrom_statement {s : Session} (hs : s.Coherent) :
    statement.runFrom s = (s.query.driverStatement, s.filled) := by
  rw [statement, runFrom_bind, runFrom_compiled hs, Query.driverStatement]
  cases s.query.compile with
  | error fault => rfl
  | ok c => simp [runFrom_get_bind, Session.filled, Except.bind]

theorem runFrom_connection (s : Session) :
    connection.runFrom s =
      match s.connection with
      | some connection => (.ok connection, s)
      | none => (.error .notConnected, s) := by
  rw [connection, runFrom_get_bind]
  cases s.connection <;> rfl

theorem runFrom_send (kind : CallKind) (p : Prepared)
    (answer : List Call → Prepared → Except Fault α) (s : Session) :
    (send kind p answer).runFrom s = (answer s.log p, { s with log := s.log ++ [⟨kind, p⟩] }) := by
  simp [send, runFrom_bind]

/-- Fetching all rows takes some steps, and leaves the rows it returns. -/
theorem all_spec {s : Session} (hs : s.Coherent) :
    s.Steps (all.runFrom s).2 ∧ (all.runFrom s).2.rows = (all.runFrom s).1.toOption ∧
      (all.runFrom s).2.affected = s.affected := by
  rw [all, runFrom_get_bind]
  cases hrows : s.rows with
  | some rows => exact ⟨.refl, hrows, rfl⟩
  | none =>
      simp only [runFrom_bind, runFrom_connection]
      cases hconnection : s.connection with
      | none => exact ⟨.refl, hrows, rfl⟩
      | some connection =>
          simp only [runFrom_statement hs]
          cases hp : s.query.driverStatement with
          | error fault => exact ⟨hs.steps_filled, hrows, rfl⟩
          | ok p =>
              simp only [runFrom_send]
              cases hanswer : connection.fetch s.filled.log p with
              | error fault =>
                  have hrefused : connection.accepts s.filled.log ⟨.fetch, p⟩ = false := by
                    simp [Connection.accepts, hanswer, Except.isOk, Except.toBool]
                  exact ⟨hs.steps_filled.tail (.refused .fetch hconnection hp hrefused), hrows, rfl⟩
              | ok rows =>
                  exact ⟨hs.steps_filled.tail (.fetched hrows hconnection hp hanswer), rfl, rfl⟩

/-- Executing takes some steps, and leaves the number it returns. -/
theorem execute_spec {s : Session} (hs : s.Coherent) :
    s.Steps (execute.runFrom s).2 ∧
      (execute.runFrom s).2.affected = (execute.runFrom s).1.toOption := by
  rw [execute, runFrom_get_bind]
  cases haffected : s.affected with
  | some n => exact ⟨.refl, haffected⟩
  | none =>
      simp only [runFrom_bind, perform, runFrom_get]
      by_cases hkind : s.query.statement.kind = .select
      · simp only [if_pos hkind, runFrom_bind]
        obtain ⟨hsteps, hrows, hkept⟩ := all_spec hs
        generalize all.runFrom s = outcome at hsteps hrows hkept ⊢
        obtain ⟨fault | rows, after⟩ := outcome
        · exact ⟨hsteps, hkept.trans haffected⟩
        · have hcounted : after.query.statement.kind = .select := by
            rw [hsteps.frame.1]
            exact hkind
          exact ⟨hsteps.tail (.counted hcounted hrows), rfl⟩
      · simp only [if_neg hkind, runFrom_bind, runFrom_connection]
        cases hconnection : s.connection with
        | none => exact ⟨.refl, haffected⟩
        | some connection =>
            simp only [runFrom_statement hs]
            cases hp : s.query.driverStatement with
            | error fault => exact ⟨hs.steps_filled, haffected⟩
            | ok p =>
                simp only [runFrom_send]
                cases hanswer : connection.execute s.filled.log p with
                | error fault =>
                    have hrefused : connection.accepts s.filled.log ⟨.execute, p⟩ = false := by
                      simp [Connection.accepts, hanswer, Except.isOk, Except.toBool]
                    exact ⟨hs.steps_filled.tail (.refused .execute hconnection hp hrefused),
                      haffected⟩
                | ok n =>
                    exact ⟨hs.steps_filled.tail (.executed hkind hconnection hp hanswer), rfl⟩

theorem runFrom_count (s : Session) :
    count.runFrom s = ((scalar.runFrom s.counting).1.bind countOf,
      { s with log := (scalar.runFrom s.counting).2.log }) := by
  rw [count, runFrom_get_bind]
  change (match scalar.runFrom s.counting with
    | (answer, after) => do
      modify fun s => { s with log := after.log }
      liftExcept (answer.bind countOf) : Read Nat).runFrom s = _
  obtain ⟨answer, after⟩ := scalar.runFrom s.counting
  simp only [runFrom_bind, runFrom_modify, runFrom_liftExcept]

end Read

namespace Reading

open Read

/-- What a read makes of the compiled statement, where it needs no more than that. -/
def ofCompiled? : Reading → Option (Dialect → Compiled → Except Fault Unit)
  | compile | sql | params => some fun _ _ => .ok ()
  | statement => some fun d c => ((Prepared.prepare d c.sql).bind c.params).map fun _ => ()
  | _ => none

/-- What a read makes of the fetched rows, where it needs them. -/
def ofRows? : Reading → Option (List Row → Except Fault Unit)
  | all | one | column => some fun _ => .ok ()
  | scalar => some fun rows => if rows = [] then .error .rowNotFound else .ok ()
  | allAs decode => some fun rows => (rows.mapM (Row.hydrate decode)).map fun _ => ()
  | oneAs decode => some fun rows =>
    match rows.head? with
    | some row => (row.hydrate decode).map fun _ => ()
    | none => .error .rowNotFound
  | _ => none

theorem ending_ofCompiled {s : Session} (hs : s.Coherent) {r : Reading}
    {f : Dialect → Compiled → Except Fault Unit} (hf : r.ofCompiled? = some f) :
    r.ending s = (s.query.compile.bind (f s.query.dialect), s.filled) := by
  cases r with
  | compile | sql | params =>
      cases hf
      simp only [Reading.ending, Read.ending, Read.sql, Read.params, runFrom_bind,
        runFrom_compiled hs]
      cases s.query.compile <;> rfl
  | statement =>
      cases hf
      simp only [Reading.ending, Read.ending, runFrom_statement hs, Query.driverStatement]
      cases s.query.compile <;> rfl
  | _ => cases hf

theorem ending_ofRows {r : Reading} {f : List Row → Except Fault Unit} (hf : r.ofRows? = some f)
    (s : Session) : r.ending s = ((Read.all.runFrom s).1.bind f, (Read.all.runFrom s).2) := by
  cases r with
  | all | one | column =>
      cases hf
      simp only [Reading.ending, Read.ending, Read.one, Read.column, runFrom_bind]
      obtain ⟨_ | rows, after⟩ := Read.all.runFrom s <;> rfl
  | scalar =>
      cases hf
      simp only [Reading.ending, Read.ending, Read.scalar, Read.one, runFrom_bind]
      obtain ⟨_ | _ | ⟨row, rows⟩, after⟩ := Read.all.runFrom s <;> rfl
  | allAs decode =>
      cases hf
      simp only [Reading.ending, Read.ending, Read.allAs, runFrom_bind]
      obtain ⟨_ | rows, after⟩ := Read.all.runFrom s
      · rfl
      · simp only [runFrom_liftExcept]
        rfl
  | oneAs decode =>
      cases hf
      simp only [Reading.ending, Read.ending, Read.oneAs, Read.one, runFrom_bind]
      obtain ⟨_ | _ | ⟨row, rows⟩, after⟩ := Read.all.runFrom s
      · rfl
      · rfl
      · simp [Except.bind]
  | _ => cases hf

/-- Counting asks a query of its own; of the session it only leaves the calls in the log. -/
theorem ending_count (s : Session) :
    (count.ending s).2 = { s with log := (Read.all.runFrom s.counting).2.log } := by
  have hscalar := congrArg Prod.snd (ending_ofRows (r := .scalar) rfl s.counting)
  simp only [Reading.ending, Read.ending] at hscalar ⊢
  rw [runFrom_count, ← hscalar]

/-- Every read but counting takes some steps. -/
theorem steps {s : Session} (hs : s.Coherent) {r : Reading} (hr : r ≠ .count) :
    s.Steps (r.ending s).2 := by
  cases r with
  | compile | sql | params | statement =>
      rw [ending_ofCompiled hs rfl]
      exact hs.steps_filled
  | all | one | column | scalar | allAs | oneAs =>
      rw [ending_ofRows rfl]
      exact (Read.all_spec hs).1
  | execute => exact (Read.execute_spec hs).1
  | count => exact absurd rfl hr

theorem coherent {s : Session} (hs : s.Coherent) (r : Reading) : (r.ending s).2.Coherent := by
  by_cases hr : r = .count
  · subst hr
    rw [ending_count]
    have hsteps := (Read.all_spec (Session.coherent_ofQuery s.query.counted s.connection s.log)).1
    exact hs.extend hsteps.frame.2.2.1
  · exact (steps hs hr).coherent hs

/-- A read leaves the query and the connection as they are; the log only gets longer, and without a
connection it stays. -/
theorem frame {s : Session} (hs : s.Coherent) (r : Reading) : (r.ending s).2.query = s.query ∧
    (r.ending s).2.connection = s.connection ∧ s.log <+: (r.ending s).2.log ∧
    (s.connection = none → (r.ending s).2.log = s.log) := by
  by_cases hr : r = .count
  · subst hr
    rw [ending_count]
    have hsteps := (Read.all_spec (Session.coherent_ofQuery s.query.counted s.connection s.log)).1
    exact ⟨rfl, rfl, hsteps.frame.2.2⟩
  · exact (steps hs hr).frame

/-- What a failing read leaves behind: what it could not compute is missing. A read that makes more
of the compiled statement or of the rows may fail where these are there. -/
def Unfilled (before after : Session) : Reading → Prop
  | compile | sql | params => after.compiled = none
  | statement => ∀ c, after.compiled = some c →
    ∃ fault, (Prepared.prepare after.query.dialect c.sql).bind c.params = .error fault
  | all | one | column => after.rows = none
  | scalar => ∀ rows, after.rows = some rows → rows = []
  | allAs decode => ∀ rows, after.rows = some rows →
    ∃ fault, rows.mapM (Row.hydrate decode) = .error fault
  | oneAs decode => ∀ row rows, after.rows = some (row :: rows) →
    ∃ fault, row.hydrate decode = .error fault
  | execute => after.affected = none
  | count => after = { before with log := after.log }

theorem error_of_map {α β : Type} {answer : Except Fault α} {f : α → β} {fault : Fault}
    (h : answer.map f = .error fault) : answer = .error fault := by
  cases answer with
  | error _ => exact congrArg Except.error (Except.error.inj h)
  | ok _ => cases h

/-- What is left over from a failing computation is not what failed. -/
theorem error_of_bind {α β : Type} {answer : Except Fault α} {f : α → Except Fault β}
    {fault : Fault} (h : answer.bind f = .error fault) {a : α} (ha : answer.toOption = some a) :
    f a = .error fault := by
  cases answer with
  | error _ => cases ha
  | ok _ =>
      cases ha
      exact h

theorem unfilled {s : Session} (hs : s.Coherent) {r : Reading} {fault : Fault}
    (h : (r.ending s).1 = .error fault) : r.Unfilled s (r.ending s).2 := by
  have hleft := (Read.all_spec hs).2.1
  cases r with
  | compile | sql | params =>
      rw [ending_ofCompiled hs rfl] at h ⊢
      exact Option.eq_none_iff_forall_ne_some.mpr fun c hc => nomatch error_of_bind h hc
  | statement =>
      rw [ending_ofCompiled hs rfl] at h ⊢
      exact fun c hc => ⟨fault, error_of_map (error_of_bind h hc)⟩
  | all | one | column =>
      rw [ending_ofRows rfl] at h ⊢
      exact Option.eq_none_iff_forall_ne_some.mpr fun rows hrows =>
        nomatch error_of_bind h (hleft ▸ hrows)
  | scalar =>
      rw [ending_ofRows rfl] at h ⊢
      intro rows hrows
      have hfailed := error_of_bind h (hleft ▸ hrows)
      cases rows with
      | nil => rfl
      | cons row rows => simp at hfailed
  | allAs decode =>
      rw [ending_ofRows rfl] at h ⊢
      exact fun rows hrows => ⟨fault, error_of_map (error_of_bind h (hleft ▸ hrows))⟩
  | oneAs decode =>
      rw [ending_ofRows rfl] at h ⊢
      intro row rows hrows
      have hfetched : (Read.all.runFrom s).1.toOption = some (row :: rows) := hleft ▸ hrows
      exact ⟨fault, error_of_map (error_of_bind h hfetched)⟩
  | execute =>
      exact (Read.execute_spec hs).2.trans (by rw [error_of_map h]; rfl)
  | count =>
      rw [ending_count]
      rfl

end Reading

end QueryCompiler
