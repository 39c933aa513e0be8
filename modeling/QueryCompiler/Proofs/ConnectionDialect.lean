import Mathlib.Data.List.Forall2
import Mathlib.Data.List.Induction
import QueryCompiler.Dialect.Builtin
import QueryCompiler.Proofs.CacheCoherence

/-!
# The dialect in which a connection is addressed

A query takes over the dialect of its connection when it is attached, and keeps it through all
changes, in its clones and in the queries that count its rows, until another dialect is chosen for
it. Every statement that is sent is compiled and prepared in the dialect that the query then has. So
the statements reach a connection in its own dialect exactly as long as no other one was chosen.
-/
namespace QueryCompiler

/-- The statement that is sent for a query, compiled and prepared in a dialect. -/
def Query.driverStatementIn (d : Dialect) (q : Query) : Except Fault Prepared :=
  (q.compileWith d).bind fun c => (Prepared.prepare d c.sql).bind c.params

theorem Query.driverStatement_eq (q : Query) : q.driverStatement = q.driverStatementIn q.dialect :=
  rfl

theorem Query.counted_dialect (q : Query) : q.counted.dialect = q.dialect := by
  unfold counted
  split <;> rfl

/-! What is sent. -/

namespace Session

/-- Between two states of a session only the statement of a query was sent. -/
def SendsFor (q : Query) (s s' : Session) : Prop :=
  ∃ calls, s'.log = s.log ++ calls ∧ ∀ call ∈ calls, q.driverStatement = .ok call.statement

variable {q : Query} {s s' s'' : Session}

theorem SendsFor.nothing (h : s'.log = s.log) : SendsFor q s s' :=
  ⟨[], h.trans (List.append_nil _).symm, fun _ hcall => absurd hcall List.not_mem_nil⟩

theorem SendsFor.single {call : Call} (h : s'.log = s.log ++ [call])
    (hcall : q.driverStatement = .ok call.statement) : SendsFor q s s' :=
  ⟨[call], h, fun _ hmem => List.mem_singleton.mp hmem ▸ hcall⟩

theorem SendsFor.trans (h : SendsFor q s s') (h' : SendsFor q s' s'') : SendsFor q s s'' := by
  obtain ⟨calls, hlog, hcalls⟩ := h
  obtain ⟨more, hlog', hmore⟩ := h'
  refine ⟨calls ++ more, by rw [hlog', hlog, List.append_assoc], fun call hcall => ?_⟩
  exact (List.mem_append.mp hcall).elim (hcalls call) (hmore call)

theorem Step.sendsFor (h : s.Step s') : SendsFor s.query s s' := by
  cases h with
  | compiled | counted => exact .nothing rfl
  | refused kind hconnection hp => exact .single rfl hp
  | fetched missing hconnection hp => exact .single rfl hp
  | executed hkind hconnection hp => exact .single rfl hp

theorem Steps.sendsFor (h : s.Steps s') : SendsFor s.query s s' := by
  induction h with
  | refl => exact .nothing rfl
  | tail hsteps hstep ih => exact ih.trans ((Steps.frame hsteps).1 ▸ hstep.sendsFor)

end Session

namespace Reading

/-- The query whose statement a read sends. -/
def asked (q : Query) : Reading → Query
  | count => q.counted
  | _ => q

theorem asked_dialect (q : Query) (r : Reading) : (r.asked q).dialect = q.dialect := by
  cases r with
  | count => exact q.counted_dialect
  | _ => rfl

theorem sendsFor {s : Session} (hs : s.Coherent) (r : Reading) :
    s.SendsFor (r.asked s.query) (r.ending s).2 := by
  by_cases hr : r = .count
  · subst hr
    rw [ending_count]
    have hsteps := (Read.all_spec (Session.coherent_ofQuery s.query.counted s.connection s.log)).1
    exact hsteps.sendsFor
  · have hsteps := (steps hs hr).sendsFor
    cases r with
    | count => exact absurd rfl hr
    | _ => exact hsteps

end Reading

/-! What is chosen. -/

/-- The dialect that a change chooses. -/
def Mutator.dialect? : Mutator → Option Dialect
  | dialect d => some d
  | _ => none

theorem Mutator.apply_dialect {s s' : Session} {m : Mutator} (h : m.apply s = .ok s') :
    s'.query.dialect = m.dialect?.getD s.query.dialect := by
  cases m with
  | orderByText text =>
      rw [apply] at h
      cases hparse : Field.parseOrder text <;> rw [hparse] at h <;> cases h
      rfl
  | _ =>
      cases h
      rfl

theorem Mutator.dialect?_of_error {s : Session} {m : Mutator} {fault : Fault}
    (h : m.apply s = .error fault) : m.dialect? = none := by
  cases m with
  | orderByText => rfl
  | _ => cases h

/-- For each query that is held, the dialect that was chosen for it since it was attached, if there was
one: how a move changes that. Copies and counting queries start with the choice of their query. -/
def Move.choose (choices : List (Option Dialect)) : Move → List (Option Dialect)
  | create d => choices ++ [some d]
  | createOn _ => choices ++ [none]
  | mutate place m => choices.modify place m.dialect?.or
  | connect place _ => choices.modify place fun _ => none
  | read _ _ => choices
  | clone place => choices ++ choices[place]?.toList
  | countQuery place => choices ++ choices[place]?.toList

/-- What is chosen after some moves. -/
def chosenDialects (moves : List Move) : List (Option Dialect) := moves.foldl Move.choose []

theorem forall₂_set_modify {α β : Type} {R : α → β → Prop} {as : List α} {bs : List β}
    (h : List.Forall₂ R as bs) {i : Nat} {a : α} {f : β → β}
    (hR : ∀ b, bs[i]? = some b → R a (f b)) : List.Forall₂ R (as.set i a) (bs.modify i f) := by
  induction h generalizing i with
  | nil =>
      rw [List.modify_nil]
      exact .nil
  | cons hfirst hrest ih =>
      cases i with
      | zero => exact .cons (hR _ rfl) hrest
      | succ i => exact .cons hfirst (ih hR)

theorem forall₂_getElem? {α β : Type} {R : α → β → Prop} {as : List α} {bs : List β}
    (h : List.Forall₂ R as bs) (i : Nat) : Option.Rel R as[i]? bs[i]? := by
  induction h generalizing i with
  | nil => exact .none
  | cons hfirst hrest ih =>
      cases i with
      | zero => exact .some hfirst
      | succ i => exact ih i

namespace Workspace

variable (connections : Nat → Connection) {ws : Workspace} {choices : List (Option Dialect)}

/-- A query is in the dialect that was chosen for it, or else in that of its connection. -/
def Speaks (h : Holding) (choice : Option Dialect) : Prop :=
  choice.or (h.line.map fun k => (connections k).dialect) = some h.query.dialect

variable {connections}

theorem Speaks.of_dialect {h h' : Holding} {choice : Option Dialect}
    (hspeaks : Speaks connections h choice) (hline : h'.line = h.line)
    (hdialect : h'.query.dialect = h.query.dialect) : Speaks connections h' choice := by
  rwa [Speaks, hline, hdialect]

theorem Speaks.mutate {h : Holding} {choice : Option Dialect} (hspeaks : Speaks connections h choice)
    {sent : Nat → List Call} {m : Mutator} {s : Session}
    (hs : m.apply (h.session connections sent) = .ok s) :
    Speaks connections (.ofSession h.line s) (m.dialect?.or choice) := by
  rw [Speaks, Holding.ofSession_query, Mutator.apply_dialect hs]
  cases m.dialect? with
  | none => exact hspeaks
  | some d => rfl

variable (hspeaks : List.Forall₂ (Speaks connections) ws.holdings choices)

include hspeaks

/-- Nothing is held at a place and nothing chosen, or a query in the dialect chosen for it. -/
theorem speaks_at (place : Nat) : (ws.holdings[place]? = none ∧ choices[place]? = none) ∨
    ∃ h choice, ws.holdings[place]? = some h ∧ choices[place]? = some choice ∧
      Speaks connections h choice := by
  have hplace := forall₂_getElem? hspeaks place
  generalize ws.holdings[place]? = held, choices[place]? = chosen at hplace
  cases hplace with
  | none => exact .inl ⟨rfl, rfl⟩
  | some h => exact .inr ⟨_, _, rfl, rfl, h⟩

theorem hold_speaks {h : Holding} {choice : Option Dialect} (hh : Speaks connections h choice) :
    List.Forall₂ (Speaks connections) (ws.hold h).holdings (choices ++ [choice]) :=
  List.rel_append hspeaks (.cons hh .nil)

theorem step_speaks (hws : ws.Coherent connections) (m : Move) :
    List.Forall₂ (Speaks connections) (ws.step connections m).2.holdings (m.choose choices) := by
  cases m with
  | create d => exact hold_speaks hspeaks rfl
  | createOn line => exact hold_speaks hspeaks rfl
  | mutate place m =>
      obtain ⟨hnone, hchoice⟩ | ⟨h, choice, hplace, hchoice, hh⟩ := speaks_at hspeaks place
      · rw [step, hnone, Move.choose, List.modify_eq_self (List.getElem?_eq_none_iff.mp hchoice)]
        exact hspeaks
      · simp only [step, hplace, Move.choose]
        cases hs : m.apply (h.session connections ws.sent) with
        | ok s =>
            refine forall₂_set_modify hspeaks fun other hother => ?_
            cases hchoice.symm.trans hother
            exact hh.mutate hs
        | error fault =>
            have hsame : m.dialect?.or = (id : Option Dialect → Option Dialect) := by
              rw [Mutator.dialect?_of_error hs]
              funext other
              exact Option.none_or
            rw [hsame, List.modify_id]
            exact hspeaks
  | connect place line =>
      obtain ⟨hnone, hchoice⟩ | ⟨h, choice, hplace, -⟩ := speaks_at hspeaks place
      · rw [step, hnone, Move.choose, List.modify_eq_self (List.getElem?_eq_none_iff.mp hchoice)]
        exact hspeaks
      · rw [step, hplace, Move.choose]
        exact forall₂_set_modify hspeaks fun _ _ => rfl
  | read place r =>
      obtain ⟨hnone, -⟩ | ⟨h, choice, hplace, hchoice, hh⟩ := speaks_at hspeaks place
      · rw [step, hnone]
        exact hspeaks
      · have hquery := (r.frame (hws h (List.mem_of_getElem? hplace))).1
        rw [step_read hplace, Move.choose, ← List.modify_id place choices]
        refine forall₂_set_modify hspeaks fun other hother => ?_
        cases hchoice.symm.trans hother
        exact hh.of_dialect rfl (congrArg Query.dialect hquery)
  | clone place =>
      obtain ⟨hnone, hchoice⟩ | ⟨h, choice, hplace, hchoice, hh⟩ := speaks_at hspeaks place
      · simpa [step, hnone, Move.choose, hchoice] using hspeaks
      · rw [step, hplace, Move.choose, hchoice]
        exact hold_speaks hspeaks hh
  | countQuery place =>
      obtain ⟨hnone, hchoice⟩ | ⟨h, choice, hplace, hchoice, hh⟩ := speaks_at hspeaks place
      · simpa [step, hnone, Move.choose, hchoice] using hspeaks
      · rw [step, hplace, Move.choose, hchoice]
        exact hold_speaks hspeaks (hh.of_dialect rfl h.query.counted_dialect)

omit hspeaks

theorem run_speaks (connections : Nat → Connection) (sent : Nat → List Call) (moves : List Move) :
    List.Forall₂ (Speaks connections) ((start sent).run connections moves).holdings
      (chosenDialects moves) := by
  induction moves using List.reverseRecOn with
  | nil => exact .nil
  | append_singleton moves m ih =>
      have hws : ((start sent).run connections moves).Coherent connections :=
        run_coherent (coherent_start sent) moves
      have hstep := step_speaks ih hws m
      simpa [run, chosenDialects] using hstep

/-- Putting a session back sends nothing if its log is what its connection was sent. -/
theorem sent_putBack {line : Option Nat} {s : Session} (hlog : s.log = (line.map ws.sent).getD [])
    (place : Nat) : (ws.putBack place line s).sent = ws.sent := by
  funext k
  by_cases hline : line = some k <;> simp [putBack, hline, hlog]

/-- A call that a query at a place sends to its connection when it is read. -/
def IsSentBy (ws : Workspace) (k : Nat) (call : Call) : Move → Prop
  | .read place r => ∃ h, ws.holdings[place]? = some h ∧ h.line = some k ∧
    (r.asked h.query).driverStatementIn h.query.dialect = .ok call.statement
  | _ => False

/-- Only reads send something: statements of the query that is read, to its own connection. -/
theorem step_sends (hws : ws.Coherent connections) (m : Move) (k : Nat) :
    ∃ calls, (ws.step connections m).2.sent k = ws.sent k ++ calls ∧
      ∀ call ∈ calls, ws.IsSentBy k call m := by
  have hnothing : ∀ after : Workspace, after.sent = ws.sent → ∃ calls,
      after.sent k = ws.sent k ++ calls ∧ ∀ call ∈ calls, ws.IsSentBy k call m :=
    fun after h => ⟨[], by rw [h, List.append_nil], fun _ hcall => absurd hcall List.not_mem_nil⟩
  cases m with
  | create | createOn => exact hnothing _ rfl
  | mutate place m =>
      rw [step]
      split
      · exact hnothing _ rfl
      · split
        · rename_i s hs
          obtain ⟨q, rfl⟩ := Mutator.apply_eq hs
          exact hnothing _ (sent_putBack rfl place)
        · exact hnothing _ rfl
  | connect place line =>
      rw [step]
      split
      · exact hnothing _ rfl
      · exact hnothing _ (sent_putBack rfl place)
  | clone | countQuery =>
      rw [step]
      split <;> exact hnothing _ rfl
  | read place r =>
      cases hplace : ws.holdings[place]? with
      | none =>
          rw [step, hplace]
          exact hnothing _ rfl
      | some h =>
          rw [step_read hplace]
          by_cases hline : h.line = some k
          · obtain ⟨calls, hlog, hcalls⟩ := r.sendsFor (hws h (List.mem_of_getElem? hplace))
            refine ⟨calls, ?_, fun call hcall => ⟨h, hplace, hline, ?_⟩⟩
            · simpa [putBack, hline, Holding.session] using hlog
            · rw [← r.asked_dialect h.query, ← Query.driverStatement_eq]
              exact hcalls call hcall
          · exact ⟨[], by simp [putBack, hline], fun _ hcall => absurd hcall List.not_mem_nil⟩

/-- In every state that is reached an attached query is in the dialect that was chosen for it since it
was attached, or else in the dialect of its connection. Whatever is done next, all that a connection
is sent are statements of queries attached to it, compiled and prepared in the dialects that these
have. -/
theorem run_in_dialect (connections : Nat → Connection) (sent : Nat → List Call)
    (moves : List Move) :
    let ws := (start sent).run connections moves
    (∀ (place : Nat) (h : Holding) (k : Nat), ws.holdings[place]? = some h → h.line = some k →
      ∃ choice, (chosenDialects moves)[place]? = some choice ∧
        h.query.dialect = choice.getD (connections k).dialect) ∧
      ∀ m k, ∃ calls, (ws.step connections m).2.sent k = ws.sent k ++ calls ∧
        ∀ call ∈ calls, ws.IsSentBy k call m := by
  intro ws
  refine ⟨fun place h k hplace hline => ?_,
    step_sends (run_coherent (coherent_start sent) moves)⟩
  obtain ⟨hnone, -⟩ | ⟨held, choice, hheld, hchoice, hspeaks⟩ :=
    speaks_at (run_speaks connections sent moves) place
  · cases hnone.symm.trans hplace
  · cases hheld.symm.trans hplace
    rw [Speaks, hline] at hspeaks
    refine ⟨choice, hchoice, ?_⟩
    cases choice <;> exact (Option.some.inj hspeaks).symm

/-- Connections that have no rows, with even numbers for one dialect and odd ones for another. -/
def alternating (k : Nat) : Connection where
  dialect := if k % 2 = 0 then Dialect.postgres else Dialect.mysql
  fetch _ _ := .ok []
  execute _ _ := .ok 0

/-- A query that is looking for a name, attached to the first of these connections. -/
def lookingUp : List Move :=
  [.createOn 0, .mutate 0 (.fromTable (.named "t")),
    .mutate 0 (.filter (.equal (.plainField "a") (.literal (.text "x"))))]

/-- Another connection takes its own dialect along, whatever was chosen before. -/
theorem run_in_dialect_reattached :
    let moves := lookingUp ++ [.mutate 0 (.dialect Dialect.sqlite), .clone 0, .connect 0 2]
    let ws := (start fun _ => []).run alternating moves
    (∃ h, ws.holdings[0]? = some h ∧ h.line = some 2 ∧
      h.query.dialect = (alternating 2).dialect) ∧
      ((ws.step alternating (.read 0 .all)).2.sent 2).map (·.statement.sql) =
        ["SELECT * FROM t WHERE a = $1"] := by
  intro moves ws
  obtain ⟨hdialect, -⟩ := run_in_dialect alternating (fun _ => []) moves
  obtain ⟨choice, hchoice, hspeaks⟩ := hdialect 0 _ 2 rfl rfl
  cases hchoice
  exact ⟨⟨_, rfl, rfl, hspeaks⟩, by decide +kernel⟩

/-- A connection is sent a statement in a dialect that is not its own once that was chosen for the
query. -/
theorem chosen_dialect_sent :
    let ws := (start fun _ => []).run alternating
      (lookingUp ++ [.mutate 0 (.dialect Dialect.mysql), .read 0 .all])
    ws.holdings.map (fun h => (h.line, h.query.dialect.name)) = [(some 0, "mysql")] ∧
      (alternating 0).dialect.name = "postgres" ∧
      (ws.sent 0).map (·.statement.sql) = ["SELECT * FROM t WHERE a = ?"] := by
  decide +kernel

end Workspace

end QueryCompiler
