import QueryCompiler.Dialect.Builtin
import QueryCompiler.Proofs.SessionReads

/-!
# How often a statement is sent

Rows and the number of changed rows are remembered apart. A read sends a call only while the answer
to calls of that kind is not remembered, and the answer is remembered from then on; so between two
changes at most one call of each kind is sent. A selection only ever fetches and is sent once. A
statement that writes is sent a second time when its rows are asked for besides executing it.
-/
namespace QueryCompiler

/-- No call to the connection ends in a fault. -/
def Connection.Answers (connection : Connection) : Prop :=
  ∀ before call, connection.accepts before call = true

theorem Except.exists_of_isOk {α : Type} {answer : Except Fault α} (h : answer.isOk = true) :
    ∃ a, answer = .ok a := by
  cases answer with
  | error fault => cases h
  | ok a => exact ⟨a, rfl⟩

namespace Session

/-- Whether the answer to calls of a kind is remembered. -/
def remembers (s : Session) : CallKind → Bool
  | .fetch => s.rows.isSome
  | .execute => s.affected.isSome

/-- Between two states of a session these calls were sent: only of allowed kinds, no two of the same
kind, and each of a kind whose answer was not remembered before and is remembered after. -/
structure Sends (allowed : CallKind → Prop) (s s' : Session) (calls : List Call) : Prop where
  log : s'.log = s.log ++ calls
  once : (calls.map Call.kind).Nodup
  asked : ∀ call ∈ calls, allowed call.kind ∧ s.remembers call.kind = false
  answered : ∀ call ∈ calls, s'.remembers call.kind = true
  kept : ∀ kind, s.remembers kind = true → s'.remembers kind = true

namespace Sends

variable {allowed : CallKind → Prop} {s s' s'' : Session} {calls more : List Call}

theorem nothing (hlog : s'.log = s.log)
    (hkept : ∀ kind, s.remembers kind = true → s'.remembers kind = true) :
    Sends allowed s s' [] where
  log := hlog.trans (List.append_nil _).symm
  once := .nil
  asked _ h := absurd h List.not_mem_nil
  answered _ h := absurd h List.not_mem_nil
  kept := hkept

theorem single {call : Call} (hlog : s'.log = s.log ++ [call])
    (hasked : allowed call.kind ∧ s.remembers call.kind = false)
    (hanswered : s'.remembers call.kind = true)
    (hkept : ∀ kind, s.remembers kind = true → s'.remembers kind = true) :
    Sends allowed s s' [call] where
  log := hlog
  once := List.pairwise_singleton _ _
  asked _ h := List.mem_singleton.mp h ▸ hasked
  answered _ h := List.mem_singleton.mp h ▸ hanswered
  kept := hkept

/-- A kind that was asked for in the first part is remembered in the second. -/
theorem trans (h : Sends allowed s s' calls) (h' : Sends allowed s' s'' more) :
    Sends allowed s s'' (calls ++ more) where
  log := by rw [h'.log, h.log, List.append_assoc]
  once := by
    rw [List.map_append]
    refine List.nodup_append.mpr ⟨h.once, h'.once, fun kind hkind kind' hkind' heq => ?_⟩
    obtain ⟨call, hcall, rfl⟩ := List.mem_map.mp hkind
    obtain ⟨call', hcall', rfl⟩ := List.mem_map.mp hkind'
    have hknown := h.answered call hcall
    have hunknown := (h'.asked call' hcall').2
    rw [← heq, hknown] at hunknown
    cases hunknown
  asked call hcall := by
    obtain hcall | hcall := List.mem_append.mp hcall
    · exact h.asked call hcall
    · obtain ⟨hallowed, hunknown⟩ := h'.asked call hcall
      refine ⟨hallowed, ?_⟩
      cases hbefore : s.remembers call.kind with
      | false => rfl
      | true => rw [h.kept _ hbefore] at hunknown; cases hunknown
  answered call hcall := by
    obtain hcall | hcall := List.mem_append.mp hcall
    · exact h'.kept _ (h.answered call hcall)
    · exact h'.answered call hcall
  kept kind hkind := h'.kept kind (h.kept kind hkind)

theorem mono {allowed' : CallKind → Prop} (h : Sends allowed s s' calls)
    (himp : ∀ kind, allowed kind → allowed' kind) : Sends allowed' s s' calls :=
  { h with asked := fun call hcall => ⟨himp _ (h.asked call hcall).1, (h.asked call hcall).2⟩ }

/-- If only calls of one kind may be sent, at most one is. -/
theorem length_le_one {kind : CallKind} (h : Sends (· = kind) s s' calls) : calls.length ≤ 1 := by
  match calls with
  | [] => exact Nat.zero_le 1
  | [_] => exact Nat.le_refl 1
  | first :: second :: rest =>
      have hfirst := (h.asked first List.mem_cons_self).1
      have hsecond := (h.asked second (List.mem_cons_of_mem _ List.mem_cons_self)).1
      have hne := (List.nodup_cons.mp h.once).1
      exact absurd (by simp [hfirst, hsecond]) hne

end Sends

/-- The session after some reads, whatever they answer. -/
def after (s : Session) (readings : List Reading) : Session :=
  readings.foldl (fun s r => (r.ending s).2) s

end Session

open Session (Sends)

variable {s : Session} {connection : Connection}

theorem Read.all_sends (hs : s.Coherent) (hattached : s.connection = some connection)
    (hanswers : connection.Answers) :
    ∃ calls, Sends (· = .fetch) s (Read.all.runFrom s).2 calls := by
  rw [all, runFrom_get_bind]
  cases hrows : s.rows with
  | some rows => exact ⟨[], .nothing rfl fun _ h => h⟩
  | none =>
      simp only [runFrom_bind, runFrom_connection, hattached, runFrom_statement hs]
      cases s.query.driverStatement with
      | error fault => exact ⟨[], .nothing rfl fun kind h => by cases kind <;> exact h⟩
      | ok p =>
          obtain ⟨rows, hanswer⟩ := Except.exists_of_isOk (hanswers s.filled.log ⟨.fetch, p⟩)
          simp only [runFrom_send, hanswer, runFrom_modify]
          refine ⟨[⟨.fetch, p⟩], .single rfl ⟨rfl, ?_⟩ rfl fun kind h => ?_⟩
          · simp [Session.remembers, hrows]
          · cases kind with
            | fetch => rfl
            | execute => exact h

namespace Reading

/-- The reads of a query's result: its rows, or the number of rows that it selects or changes. -/
def runsQuery : Reading → Bool
  | all | one | column | scalar | allAs _ | oneAs _ | execute => true
  | _ => false

/-- The kind of call that a read sends for a statement of a kind. -/
def callKind (kind : StatementKind) : Reading → CallKind
  | execute => if kind = .select then .fetch else .execute
  | _ => .fetch

theorem execute_sends (hs : s.Coherent) (hattached : s.connection = some connection)
    (hanswers : connection.Answers) :
    ∃ calls, Sends (· = execute.callKind s.query.statement.kind) s (execute.ending s).2 calls := by
  simp only [ending, Read.ending, Read.execute, Read.runFrom_get_bind]
  cases haffected : s.affected with
  | some n => exact ⟨[], .nothing rfl fun _ h => h⟩
  | none =>
      simp only [Read.runFrom_bind, Read.perform, Read.runFrom_get]
      by_cases hkind : s.query.statement.kind = .select
      · -- a selection is fetched, and the number of its rows is remembered besides
        obtain ⟨calls, hcalls⟩ := Read.all_sends hs hattached hanswers
        simp only [if_pos hkind, callKind, Read.runFrom_bind]
        refine ⟨calls, ?_⟩
        generalize Read.all.runFrom s = outcome at hcalls ⊢
        obtain ⟨fault | rows, after⟩ := outcome
        · exact hcalls
        · have hcounted : Sends (· = .fetch) after { after with affected := some rows.length } [] :=
            .nothing rfl fun kind h => by
              cases kind with
              | fetch => exact h
              | execute => rfl
          simpa using hcalls.trans hcounted
      · simp only [if_neg hkind, callKind, Read.runFrom_bind, Read.runFrom_connection, hattached,
          Read.runFrom_statement hs]
        cases s.query.driverStatement with
        | error fault => exact ⟨[], .nothing rfl fun kind h => by cases kind <;> exact h⟩
        | ok p =>
            obtain ⟨n, hanswer⟩ := Except.exists_of_isOk (hanswers s.filled.log ⟨.execute, p⟩)
            simp only [Read.runFrom_send, hanswer, Read.runFrom_modify]
            refine ⟨[⟨.execute, p⟩], .single rfl ⟨rfl, ?_⟩ rfl fun kind h => ?_⟩
            · simp [Session.remembers, haffected]
            · cases kind with
              | fetch => exact h
              | execute => rfl

/-- What one read may send. -/
theorem sends (hs : s.Coherent) (hattached : s.connection = some connection)
    (hanswers : connection.Answers) {r : Reading} (hr : r.runsQuery = true) :
    ∃ calls, Sends (· = r.callKind s.query.statement.kind) s (r.ending s).2 calls := by
  cases r with
  | all | one | column | scalar | allAs | oneAs =>
      rw [ending_ofRows rfl]
      exact Read.all_sends hs hattached hanswers
  | execute => exact execute_sends hs hattached hanswers
  | compile | sql | params | statement | count => cases hr

end Reading

namespace Session

/-- What any number of reads may send. -/
theorem after_sends (hs : s.Coherent) (hattached : s.connection = some connection)
    (hanswers : connection.Answers) {readings : List Reading}
    (hreadings : ∀ r ∈ readings, r.runsQuery = true) :
    ∃ calls, Sends (· ∈ readings.map (Reading.callKind s.query.statement.kind)) s
      (s.after readings) calls := by
  induction readings generalizing s with
  | nil => exact ⟨[], .nothing rfl fun _ h => h⟩
  | cons r rest ih =>
      obtain ⟨hr, hrest⟩ := List.forall_mem_cons.mp hreadings
      obtain ⟨hquery, hconnection, -⟩ := r.frame hs
      obtain ⟨calls, hcalls⟩ := Reading.sends hs hattached hanswers hr
      obtain ⟨more, hmore⟩ := ih (r.coherent hs) (hconnection.trans hattached) hrest
      rw [hquery] at hmore
      refine ⟨calls ++ more,
        (hcalls.mono fun kind hkind => ?_).trans (hmore.mono fun kind hkind => ?_)⟩
      · exact hkind ▸ List.mem_cons_self
      · exact List.mem_cons_of_mem _ hkind

/-- A statement is sent at most once in each way: however the rows and the result of an attached
query are read, as records of whatever types, in whatever order and how often, no two calls of one
kind are sent. If the query is a selection, or if it is only ever executed, or never, at most one
call is sent in all. -/
theorem after_sends_once (hs : s.Coherent) (hattached : s.connection = some connection)
    (hanswers : connection.Answers) {readings : List Reading}
    (hreadings : ∀ r ∈ readings, r.runsQuery = true) :
    ∃ calls, (s.after readings).log = s.log ++ calls ∧ (calls.map Call.kind).Nodup ∧
      ((s.query.statement.kind = .select ∨ (∀ r ∈ readings, r = .execute) ∨ .execute ∉ readings) →
        calls.length ≤ 1) := by
  obtain ⟨calls, hcalls⟩ := after_sends hs hattached hanswers hreadings
  refine ⟨calls, hcalls.log, hcalls.once, fun hkinds => ?_⟩
  have hone : ∃ kind, ∀ r ∈ readings, r.callKind s.query.statement.kind = kind := by
    obtain hselect | hexecute | hnever := hkinds
    · refine ⟨.fetch, fun r _ => ?_⟩
      cases r <;> simp [Reading.callKind, hselect]
    · exact ⟨Reading.execute.callKind s.query.statement.kind, fun r hr => by rw [hexecute r hr]⟩
    · refine ⟨.fetch, fun r hr => ?_⟩
      cases r with
      | execute => exact absurd hr hnever
      | _ => rfl
  obtain ⟨kind, hkind⟩ := hone
  have hkinds : ∀ other ∈ readings.map (Reading.callKind s.query.statement.kind), other = kind := by
    intro other hother
    obtain ⟨r, hr, rfl⟩ := List.mem_map.mp hother
    exact hkind r hr
  exact (hcalls.mono hkinds).length_le_one

/-- A connection that answers a row whenever it is asked for some, and changes three. -/
def threeChanged : Connection where
  dialect := Dialect.postgres
  fetch _ _ := .ok [⟨["id", "name"], [.int 7, .text "ann"]⟩]
  execute _ _ := .ok 3

/-- An insertion that nobody has run yet. -/
def inserting : Session :=
  (attached threeChanged).edit fun s =>
    (s.setTarget .insert (.named "users")).setSource (.values [("name", .text "ann")])

/-- An insertion whose rows are read as users, as numbers, which they are not, and as they are: it
is sent once. -/
theorem after_sends_once_inserting :
    let readings : List Reading :=
      [.allAs User.decode, .oneAs fun _ => (none : Option Nat), .scalar, .oneAs User.decode]
    (∃ calls, (inserting.after readings).log = inserting.log ++ calls ∧ calls.length ≤ 1) ∧
      (inserting.after readings).log.length = 1 ∧
      ((Read.oneAs User.decode).runFrom (inserting.after readings)).1.toOption =
        some ⟨7, "ann", none⟩ := by
  intro readings
  have hs : inserting.Coherent := coherent_ofQuery _ _ _
  have hanswers : threeChanged.Answers := by
    rintro before ⟨_ | _, p⟩ <;> rfl
  have hreadings : ∀ r ∈ readings, r.runsQuery = true := by simp [readings, Reading.runsQuery]
  have hnever : Reading.execute ∉ readings := by simp [readings]
  obtain ⟨calls, hlog, -, hone⟩ := after_sends_once hs rfl hanswers hreadings
  exact ⟨⟨calls, hlog, hone (.inr (.inr hnever))⟩, by decide +kernel⟩

/-- Executing an insertion and then asking for its rows runs it twice. -/
theorem inserting_runs_twice :
    (inserting.after [.execute, .all]).log.map (fun call => (call.kind, call.statement.sql)) =
      [(.execute, "INSERT INTO users (name) VALUES ($1)"),
        (.fetch, "INSERT INTO users (name) VALUES ($1)")] := by
  decide +kernel

end Session

end QueryCompiler
