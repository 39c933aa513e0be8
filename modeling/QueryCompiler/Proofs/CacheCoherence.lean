import QueryCompiler.Dialect.Builtin
import QueryCompiler.Proofs.SessionReads

/-!
# Caches are coherent over whole runs

Whatever is done with the queries that are held, in whatever order and on whatever connections:
what a query remembers is what it would give now. A move that fails leaves all descriptions as they
are and what it could not compute missing, and the reads of an unchanged selection send at most one
statement that is answered.
-/
namespace QueryCompiler

namespace Connection

/-- How many of some calls are answered, given what was sent before them. -/
def answered (connection : Connection) (before : List Call) : List Call → Nat
  | [] => 0
  | call :: rest =>
    (connection.accepts before call).toNat + connection.answered (before ++ [call]) rest

theorem answered_append (connection : Connection) (before calls rest : List Call) :
    connection.answered before (calls ++ rest) =
      connection.answered before calls + connection.answered (before ++ calls) rest := by
  induction calls generalizing before with
  | nil => simp [answered]
  | cons call calls ih => simp [answered, ih, Nat.add_assoc]

end Connection

/-- How many answered statements the reads of a selection may still send. -/
def owed (rows : Option (List Row)) : Nat := if rows.isSome then 0 else 1

theorem owed_le_one (rows : Option (List Row)) : owed rows ≤ 1 := by
  rw [owed]
  split <;> decide

namespace Session

theorem Steps.owed_le {s s' : Session} (h : s.Steps s') : owed s'.rows ≤ owed s.rows := by
  induction h with
  | refl => exact Nat.le_refl _
  | tail _ hstep ih =>
      refine Nat.le_trans ?_ ih
      cases hstep with
      | fetched => exact Nat.zero_le _
      | _ => exact Nat.le_refl _

theorem Step.answered {s s' : Session} (h : s.Step s')
    (hkind : s.query.statement.kind = .select) {connection : Connection}
    (hconnection : s.connection = some connection) :
    ∃ calls, s'.log = s.log ++ calls ∧ connection.answered s.log calls + owed s'.rows ≤ owed s.rows := by
  cases h with
  | compiled | counted => exact ⟨[], (List.append_nil _).symm, by simp [Connection.answered, owed]⟩
  | refused kind hattached hp hrefused =>
      cases hconnection.symm.trans hattached
      exact ⟨_, rfl, by simp [Connection.answered, hrefused, owed]⟩
  | @fetched _ p _ missing =>
      have hone := Bool.toNat_le (connection.accepts s.log ⟨.fetch, p⟩)
      exact ⟨_, rfl, by simpa [Connection.answered, owed, missing] using hone⟩
  | executed hother => exact absurd hkind hother

theorem Steps.answered {s s' : Session} (h : s.Steps s')
    (hkind : s.query.statement.kind = .select) {connection : Connection}
    (hconnection : s.connection = some connection) :
    ∃ calls, s'.log = s.log ++ calls ∧ connection.answered s.log calls + owed s'.rows ≤ owed s.rows := by
  induction h with
  | refl => exact ⟨[], (List.append_nil _).symm, by simp [Connection.answered]⟩
  | @tail t t' hsteps hstep ih =>
      obtain ⟨calls, hlog, hcalls⟩ := ih
      obtain ⟨hquery, hsame, -⟩ := Steps.frame hsteps
      obtain ⟨more, hlog', hmore⟩ :=
        hstep.answered (hquery ▸ hkind) (hsame.trans hconnection)
      refine ⟨calls ++ more, by rw [hlog', hlog, List.append_assoc], ?_⟩
      rw [Connection.answered_append, ← hlog]
      omega

end Session

namespace Holding

variable (connections : Nat → Connection) (sent : Nat → List Call) (h : Holding)

@[simp]
theorem session_query : (h.session connections sent).query = h.query := rfl

@[simp]
theorem session_rows : (h.session connections sent).rows = h.rows := rfl

variable (line : Option Nat) (s : Session)

@[simp]
theorem ofSession_query : (ofSession line s).query = s.query := rfl

@[simp]
theorem ofSession_rows : (ofSession line s).rows = s.rows := rfl

end Holding

/-- A mutator leaves the connection and its log, and forgets what was computed. -/
theorem Mutator.apply_eq {s s' : Session} {m : Mutator} (h : m.apply s = .ok s') :
    ∃ q, s' = Session.ofQuery q s.connection s.log := by
  cases m with
  | orderByText text =>
      rw [apply] at h
      cases hparse : Field.parseOrder text <;> rw [hparse] at h <;> cases h
      exact ⟨_, rfl⟩
  | _ =>
      cases h
      exact ⟨_, rfl⟩

namespace Workspace

variable (connections : Nat → Connection) {ws : Workspace}

/-- Every query that is held is coherent on its connection. -/
def Coherent (ws : Workspace) : Prop :=
  ∀ h ∈ ws.holdings, (h.session connections ws.sent).Coherent

/-- The queries that are held and their connections, without what was computed for them. -/
def descriptions (ws : Workspace) : List (Query × Option Nat) :=
  ws.holdings.map fun h => (h.query, h.line)

/-- A session is the one of a holding on a line, its log going on from what the line was sent. -/
structure Continues (ws : Workspace) (line : Option Nat) (s : Session) : Prop where
  connection : s.connection = line.map connections
  log : (line.map ws.sent).getD [] <+: s.log
  offline : line = none → s.log = []

variable {connections}

theorem Continues.sent {line : Option Nat} {s : Session} (h : ws.Continues connections line s)
    (place k : Nat) : ws.sent k <+: (ws.putBack place line s).sent k := by
  by_cases hline : line = some k
  · simpa [putBack, hline] using h.log
  · simp [putBack, hline]

/-- What is put back is found again. -/
theorem Continues.session_putBack {line : Option Nat} {s : Session}
    (h : ws.Continues connections line s) (place : Nat) :
    (Holding.ofSession line s).session connections (ws.putBack place line s).sent = s := by
  obtain ⟨query, connection, compiled, rows, affected, log⟩ := s
  obtain ⟨rfl, -, hoff⟩ := h
  cases line with
  | none =>
      obtain rfl := hoff rfl
      rfl
  | some k => simp [Holding.session, Holding.ofSession, putBack]

theorem coherent_hold (hws : ws.Coherent connections) {h : Holding}
    (hh : (h.session connections ws.sent).Coherent) : (ws.hold h).Coherent connections := by
  intro other hother
  obtain hother | hother := List.mem_append.mp hother
  · exact hws other hother
  · exact List.mem_singleton.mp hother ▸ hh

theorem coherent_putBack (hws : ws.Coherent connections) (place : Nat) {line : Option Nat}
    {s : Session} (hs : s.Coherent) (hcontinues : ws.Continues connections line s) :
    (ws.putBack place line s).Coherent connections := by
  intro h hmem
  obtain hmem | rfl := List.mem_or_eq_of_mem_set hmem
  · have hlog : ((h.line.map ws.sent).getD []) <+:
        (h.line.map (ws.putBack place line s).sent).getD [] := by
      cases h.line with
      | none => exact List.prefix_rfl
      | some k => exact hcontinues.sent place k
    exact (hws h hmem).extend hlog
  · rwa [hcontinues.session_putBack place]

theorem continues_reading (hws : ws.Coherent connections) {h : Holding} (hmem : h ∈ ws.holdings)
    (r : Reading) :
    ws.Continues connections h.line (r.ending (h.session connections ws.sent)).2 := by
  obtain ⟨-, hconnection, hlog, hoff⟩ := r.frame (hws h hmem)
  refine ⟨hconnection, hlog, fun hline => ?_⟩
  rw [hoff (by simp [Holding.session, hline])]
  simp [Holding.session, hline]

theorem step_read {place : Nat} {h : Holding} (hplace : ws.holdings[place]? = some h) (r : Reading) :
    ws.step connections (.read place r) =
      ((r.ending (h.session connections ws.sent)).1,
        ws.putBack place h.line (r.ending (h.session connections ws.sent)).2) := by
  rw [step, hplace]

theorem getElem?_putBack {place : Nat} {h : Holding} (hplace : ws.holdings[place]? = some h)
    (s : Session) : (ws.putBack place h.line s).holdings[place]? = some (.ofSession h.line s) := by
  obtain ⟨hlt, -⟩ := List.getElem?_eq_some_iff.mp hplace
  exact List.getElem?_set_self hlt

theorem step_coherent (hws : ws.Coherent connections) (m : Move) :
    (ws.step connections m).2.Coherent connections := by
  cases m with
  | create d => exact coherent_hold hws (Session.coherent_ofQuery _ _ _)
  | createOn line => exact coherent_hold hws (Session.coherent_ofQuery _ _ _)
  | mutate place m =>
      rw [step]
      split
      · exact hws
      · rename_i h hplace
        split
        · rename_i s hs
          obtain ⟨q, rfl⟩ := Mutator.apply_eq hs
          refine coherent_putBack hws place (Session.coherent_ofQuery _ _ _) ⟨rfl, List.prefix_rfl, ?_⟩
          rintro hline
          simp [Session.ofQuery, Holding.session, hline]
        · exact hws
  | connect place line =>
      rw [step]
      split
      · exact hws
      · exact coherent_putBack hws place (Session.coherent_ofQuery _ _ _)
          ⟨rfl, List.prefix_rfl, nofun⟩
  | read place r =>
      cases hplace : ws.holdings[place]? with
      | none => simpa [step, hplace] using hws
      | some h =>
          have hmem := List.mem_of_getElem? hplace
          rw [step_read hplace]
          exact coherent_putBack hws place (r.coherent (hws h hmem)) (continues_reading hws hmem r)
  | clone place =>
      rw [step]
      split
      · exact hws
      · rename_i h hplace
        exact coherent_hold hws (hws h (List.mem_of_getElem? hplace))
  | countQuery place =>
      rw [step]
      split
      · exact hws
      · exact coherent_hold hws (Session.coherent_ofQuery _ _ _)

theorem coherent_start (sent : Nat → List Call) : (start sent).Coherent connections :=
  fun _ h => absurd h List.not_mem_nil

theorem run_coherent (hws : ws.Coherent connections) (moves : List Move) :
    (ws.run connections moves).Coherent connections := by
  induction moves generalizing ws with
  | nil => exact hws
  | cons m moves ih => exact ih (step_coherent hws m)

/-- How a move fails: all descriptions stay, a mutator leaves everything as it was, and a read leaves
missing what it could not compute. No other move fails. -/
def FailsCleanly (connections : Nat → Connection) (before after : Workspace) (m : Move) : Prop :=
  after.descriptions = before.descriptions ∧
    match m with
    | .mutate _ _ => after = before
    | .read place r => ∃ h h', before.holdings[place]? = some h ∧ after.holdings[place]? = some h' ∧
      r.Unfilled (h.session connections before.sent) (h'.session connections after.sent)
    | _ => False

theorem descriptions_putBack {place : Nat} {h : Holding} (hplace : ws.holdings[place]? = some h)
    {s : Session} (hquery : s.query = h.query) :
    (ws.putBack place h.line s).descriptions = ws.descriptions := by
  have hsame : ws.descriptions[place]? = some (h.query, h.line) := by
    simp [descriptions, hplace]
  obtain ⟨hlt, heq⟩ := List.getElem?_eq_some_iff.mp hsame
  simp only [descriptions, putBack, List.map_set, Holding.ofSession, hquery] at heq ⊢
  rw [← heq, List.set_getElem_self]

theorem step_failsCleanly (hws : ws.Coherent connections) {m : Move} {fault : Fault}
    (h : (ws.step connections m).1 = .error fault) :
    FailsCleanly connections ws (ws.step connections m).2 m := by
  cases m with
  | create | createOn => cases h
  | mutate place m =>
      rw [step] at h ⊢
      split at h
      · cases h
      · split at h
        · cases h
        · exact ⟨rfl, rfl⟩
  | connect place line | clone place | countQuery place =>
      rw [step] at h
      split at h <;> cases h
  | read place r =>
      cases hplace : ws.holdings[place]? with
      | none => simp [step, hplace] at h
      | some held =>
          have hmem := List.mem_of_getElem? hplace
          rw [step_read hplace] at h ⊢
          have hkept := (r.frame (hws held hmem)).1
          refine ⟨descriptions_putBack hplace hkept, held, _, hplace, getElem?_putBack hplace _, ?_⟩
          rw [(continues_reading hws hmem r).session_putBack place]
          exact r.unfilled (hws held hmem) h

end Workspace

namespace Move

/-- Whether a move changes the query at a place or attaches it elsewhere. -/
def changes (place : Nat) : Move → Bool
  | mutate other _ => other = place
  | connect other _ => other = place
  | _ => false

/-- Whether a move reads the query at a place; counting its rows is a query of its own. -/
def asks (place : Nat) : Move → Bool
  | read other r => other = place && r ≠ .count
  | _ => false

end Move

namespace Workspace

variable (connections : Nat → Connection)

/-- How many of the calls are answered that a connection was sent since an earlier state. -/
def answeredOn (line : Option Nat) (before after : Workspace) : Nat :=
  match line with
  | some k => (connections k).answered (before.sent k) ((after.sent k).drop (before.sent k).length)
  | none => 0

/-- How many answered calls the reads of the query at a place send over some moves. -/
def answersAt (place : Nat) (ws : Workspace) : List Move → Nat
  | [] => 0
  | m :: rest =>
    let after := (ws.step connections m).2
    let line := ws.holdings[place]?.bind Holding.line
    (if m.asks place then answeredOn connections line ws after else 0) + after.answersAt place rest

variable {connections} {ws : Workspace}

theorem getElem?_hold {place : Nat} {h : Holding} (hplace : ws.holdings[place]? = some h)
    (other : Holding) : (ws.hold other).holdings[place]? = some h := by
  obtain ⟨hlt, -⟩ := List.getElem?_eq_some_iff.mp hplace
  rw [hold, List.getElem?_append_left hlt, hplace]

theorem getElem?_putBack_ne {place other : Nat} (hne : other ≠ place) (line : Option Nat)
    (s : Session) : (ws.putBack other line s).holdings[place]? = ws.holdings[place]? :=
  List.getElem?_set_ne hne

/-- A move that is not about the query at a place leaves it there. -/
theorem step_elsewhere {place : Nat} {h : Holding} (hplace : ws.holdings[place]? = some h) {m : Move}
    (hchanges : m.changes place = false) (hread : ∀ r, m ≠ .read place r) :
    (ws.step connections m).2.holdings[place]? = some h := by
  cases m with
  | create | createOn => exact getElem?_hold hplace _
  | clone other | countQuery other =>
      rw [step]
      split
      · exact hplace
      · exact getElem?_hold hplace _
  | connect other line =>
      rw [step]
      split
      · exact hplace
      · exact (getElem?_putBack_ne (by simpa [Move.changes] using hchanges) _ _).trans hplace
  | mutate other m =>
      rw [step]
      split
      · exact hplace
      · split
        · exact (getElem?_putBack_ne (by simpa [Move.changes] using hchanges) _ _).trans hplace
        · exact hplace
  | read other r =>
      have hne : other ≠ place := fun heq => hread r (heq ▸ rfl)
      rw [step]
      split
      · exact hplace
      · exact (getElem?_putBack_ne hne _ _).trans hplace

/-- One read of a selection pays for what it sends. -/
theorem read_answered (hws : ws.Coherent connections) {place : Nat} {h : Holding}
    (hplace : ws.holdings[place]? = some h) (hkind : h.query.statement.kind = .select)
    {r : Reading} (hr : r ≠ .count) :
    answeredOn connections h.line ws (ws.step connections (.read place r)).2 +
      owed (r.ending (h.session connections ws.sent)).2.rows ≤ owed h.rows := by
  have hsteps := r.steps (hws h (List.mem_of_getElem? hplace)) hr
  rw [step_read hplace]
  cases hline : h.line with
  | none => simpa [answeredOn] using hsteps.owed_le
  | some k =>
      have hconnection : (h.session connections ws.sent).connection = some (connections k) := by
        simp [Holding.session, hline]
      obtain ⟨calls, hlog, hcalls⟩ := hsteps.answered hkind hconnection
      have hsent : (h.session connections ws.sent).log = ws.sent k := by
        simp [Holding.session, hline]
      simpa [answeredOn, putBack, hlog, hsent] using hcalls

theorem step_answered (hws : ws.Coherent connections) {place : Nat} {h : Holding}
    (hplace : ws.holdings[place]? = some h) (hkind : h.query.statement.kind = .select)
    {m : Move} (hm : m.changes place = false) :
    ∃ h', (ws.step connections m).2.holdings[place]? = some h' ∧
      h'.query.statement.kind = .select ∧
      (if m.asks place then answeredOn connections h.line ws (ws.step connections m).2 else 0) +
        owed h'.rows ≤ owed h.rows := by
  by_cases hread : ∃ r, m = .read place r
  · obtain ⟨r, rfl⟩ := hread
    have hquery := (r.frame (hws h (List.mem_of_getElem? hplace))).1
    refine ⟨.ofSession h.line (r.ending (h.session connections ws.sent)).2, ?_, ?_, ?_⟩
    · rw [step_read hplace]
      exact getElem?_putBack hplace _
    · rwa [Holding.ofSession_query, hquery]
    by_cases hr : r = .count
    · subst hr
      simp [Move.asks, Reading.ending_count]
    · simpa [Move.asks, hr] using read_answered hws hplace hkind hr
  · have hstays : (ws.step connections m).2.holdings[place]? = some h :=
      step_elsewhere hplace hm fun r h => hread ⟨r, h⟩
    refine ⟨h, hstays, hkind, ?_⟩
    have hsilent : m.asks place = false := by
      cases m with
      | read other r =>
          have hne : other ≠ place := fun heq => hread ⟨r, heq ▸ rfl⟩
          simp [Move.asks, hne]
      | _ => rfl
    simp [hsilent]

theorem answersAt_le (hws : ws.Coherent connections) {place : Nat} {h : Holding}
    (hplace : ws.holdings[place]? = some h) (hkind : h.query.statement.kind = .select)
    {later : List Move} (hlater : ∀ m ∈ later, m.changes place = false) :
    ws.answersAt connections place later ≤ owed h.rows := by
  induction later generalizing ws h with
  | nil => exact Nat.zero_le _
  | cons m later ih =>
      obtain ⟨hm, hrest⟩ := List.forall_mem_cons.mp hlater
      obtain ⟨h', hplace', hkind', hpaid⟩ := step_answered hws hplace hkind hm
      have hmore := ih (step_coherent hws m) hplace' hkind' hrest
      simp only [answersAt, hplace, Option.bind_some]
      omega

/-- Caches are coherent over whole runs: in every state that is reached, whatever is remembered is
what would be computed now; a move that fails there fails cleanly; and however the reads of a
selection go on, as long as nobody changes it they send at most one statement that is answered. -/
theorem run_caches_coherent (connections : Nat → Connection) (sent : Nat → List Call)
    (moves : List Move) :
    let ws := (start sent).run connections moves
    ws.Coherent connections ∧
      (∀ m fault, (ws.step connections m).1 = .error fault →
        FailsCleanly connections ws (ws.step connections m).2 m) ∧
      ∀ place h later, ws.holdings[place]? = some h → h.query.statement.kind = .select →
        (∀ m ∈ later, m.changes place = false) → ws.answersAt connections place later ≤ 1 := by
  intro ws
  have hws : ws.Coherent connections := run_coherent (coherent_start sent) moves
  refine ⟨hws, fun m fault => step_failsCleanly hws, ?_⟩
  exact fun place h later hplace hkind hlater =>
    Nat.le_trans (answersAt_le hws hplace hkind hlater) (owed_le_one h.rows)

/-- A connection that has two rows for everything. -/
def twoRows : Connection where
  dialect := Dialect.sqlite
  fetch _ _ := .ok [⟨["id"], [.int 1]⟩, ⟨["id"], [.int 2]⟩]
  execute _ _ := .ok 0

/-- A selection and its clone, read in turns: each asks once. -/
theorem run_caches_coherent_clone :
    let ws := (start fun _ => []).run (fun _ => twoRows)
      [.createOn 0, .mutate 0 (.select ["id"]), .mutate 0 (.fromTable (.named "t"))]
    let later : List Move :=
      [.read 0 .scalar, .clone 0, .read 0 .execute, .mutate 1 (.limit 1), .read 1 .all, .read 0 .all]
    ws.answersAt (fun _ => twoRows) 0 later = 1 ∧ ws.answersAt (fun _ => twoRows) 0 later ≤ 1 ∧
      ((ws.run (fun _ => twoRows) later).sent 0).length = 2 := by
  intro ws later
  obtain ⟨-, -, hone⟩ := run_caches_coherent (fun _ => twoRows) (fun _ => [])
    [.createOn 0, .mutate 0 (.select ["id"]), .mutate 0 (.fromTable (.named "t"))]
  refine ⟨by decide +kernel, hone 0 _ later rfl rfl (by decide), by decide +kernel⟩

end Workspace

end QueryCompiler
