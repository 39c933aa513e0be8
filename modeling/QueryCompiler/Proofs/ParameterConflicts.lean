import QueryCompiler.Proofs.BuildFaults
import QueryCompiler.Proofs.DataIndependence
import QueryCompiler.Proofs.ValueEquality

/-!
# Conflicts of parameters

Two queries of a tree disagree where they bind one name to values that are not equal. The
reservation succeeds exactly if no two of them do. Afterwards the bag of a nested query is taken in
a second time, next to itself, and that goes well for every value that equals itself.
-/
namespace QueryCompiler

/-- Two bags have equal values for the names that they share. -/
def Bag.Agrees (a b : Bag) : Prop :=
  ∀ name v w, a.get? name = some v → b.get? name = some w → (v == w) = true

namespace Value

theorem Equals.beq {a b c : Value} (h : a.Equals b) (hc : (a == c) = true) : (b == c) = true := by
  obtain rfl | hb := h
  · exact hc
  · exact equals_trans (equals_symm hb) hc

end Value

namespace Bag

theorem mem_of_get? {bag : Bag} {name : String} {value : Value} (h : bag.get? name = some value) :
    (name, value) ∈ bag.entries := by
  obtain ⟨⟨found, _⟩, hfind, rfl⟩ := Option.map_eq_some_iff.mp h
  obtain rfl : found = name := by simpa using List.find?_some hfind
  exact List.mem_of_find?_eq_some hfind

end Bag

namespace Binder

/-- A name that was there stands for an equal value in what was taken in. -/
theorem mergeEntries_equal {binder after : Binder} {entries : List (String × Value)}
    (h : binder.mergeEntries entries = (.ok (), after)) {name : String} {value : Value}
    (hmem : (name, value) ∈ entries) {held : Value} (hheld : binder.bag.get? name = some held) :
    (held == value) = true := by
  induction entries generalizing binder with
  | nil => exact absurd hmem List.not_mem_nil
  | cons first rest ih =>
      obtain ⟨other, old⟩ := first
      rw [mergeEntries] at h
      split at h
      · rename_i bag hbag
        obtain heq | hrest := List.mem_cons.mp hmem
        · cases heq
          simp only [mergeEntry, hheld] at hbag
          split at hbag
          · assumption
          · cases hbag
        · exact ih h hrest ((mergeEntry_within hbag).1 _ _ hheld)
      · cases h

/-- Parameters that are equal to what is there are taken in, and bring nothing else. -/
theorem mergeEntries_of_equal (binder : Binder) {entries : List (String × Value)}
    (hnodup : (entries.map (·.1)).Nodup)
    (h : ∀ entry ∈ entries, ∀ held, binder.bag.get? entry.1 = some held →
      (held == entry.2) = true) :
    ∃ after, binder.mergeEntries entries = (.ok (), after) ∧ ∀ name held,
      after.bag.get? name = some held → binder.bag.get? name = some held ∨ (name, held) ∈ entries := by
  induction entries generalizing binder with
  | nil => exact ⟨binder, rfl, fun _ _ => .inl⟩
  | cons entry rest ih =>
      obtain ⟨name, value⟩ := entry
      rw [List.map_cons, List.nodup_cons] at hnodup
      obtain ⟨hequal, hrest⟩ := List.forall_mem_cons.mp h
      cases hold : binder.bag.get? name with
      | some old =>
          obtain ⟨after, hafter, hsource⟩ := ih binder hnodup.2 hrest
          refine ⟨after, by simpa [mergeEntries, mergeEntry, hold, hequal old hold] using hafter, ?_⟩
          exact fun other held hheld => (hsource other held hheld).imp_right (List.mem_cons_of_mem _)
      | none =>
          have hother : ∀ entry ∈ rest, ∀ held,
              (binder.bag.insert name value).get? entry.1 = some held → (held == entry.2) = true := by
            intro entry hentry held hheld
            have hne : entry.1 ≠ name := by
              rintro rfl
              exact hnodup.1 (List.mem_map.mpr ⟨entry, hentry, rfl⟩)
            rw [Bag.get?_insert, if_neg hne] at hheld
            exact hrest entry hentry held hheld
          obtain ⟨after, hafter, hsource⟩ :=
            @ih { binder with bag := binder.bag.insert name value } hnodup.2 hother
          refine ⟨after, by simpa [mergeEntries, mergeEntry, hold] using hafter, ?_⟩
          intro other held hheld
          obtain hinserted | hmem := hsource other held hheld
          · simp only [Bag.get?_insert] at hinserted
            split at hinserted
            · subst other
              cases hinserted
              exact .inr List.mem_cons_self
            · exact .inl hinserted
          · exact .inr (List.mem_cons_of_mem _ hmem)

end Binder

namespace Query

/-- What is there when bags are taken in is equal to what they hold. -/
theorem reserve_equal {bags : List Bag} {binder after : Binder}
    (h : (reserve bags).run binder = (.ok (), after)) {name : String} {held value : Value}
    (hheld : binder.bag.get? name = some held) {bag : Bag} (hbag : bag ∈ bags)
    (hvalue : bag.get? name = some value) : (held == value) = true := by
  induction bags generalizing binder with
  | nil => exact absurd hbag List.not_mem_nil
  | cons first rest ih =>
      rw [reserve_cons, Build.run] at h
      split at h
      · rename_i between hmerge
        obtain rfl | hrest := List.mem_cons.mp hbag
        · exact Binder.mergeEntries_equal hmerge (Bag.mem_of_get? hvalue) hheld
        · have hwithin := binder.merge_within first
          rw [hmerge] at hwithin
          exact ih h (hwithin _ _ hheld) hrest
      · cases h

theorem agrees_of_reserve {bags : List Bag} {binder after : Binder}
    (h : (reserve bags).run binder = (.ok (), after)) : bags.Pairwise Bag.Agrees := by
  induction bags generalizing binder with
  | nil => exact .nil
  | cons first rest ih =>
      rw [reserve_cons, Build.run] at h
      split at h
      · rename_i between hmerge
        refine .cons (fun bag hbag name v w hv hw => ?_) (ih h)
        have hkeeps := Binder.mergeEntries_keeps (congrArg Prod.fst hmerge) (Bag.mem_of_get? hv)
        rw [← Binder.merge, hmerge] at hkeeps
        obtain ⟨held, hheld, hequals⟩ := hkeeps
        exact hequals.beq (reserve_equal h hheld hbag hw)
      · cases h

theorem reserve_of_agrees (earlier : List Bag) {bags : List Bag} {binder : Binder}
    (hsource : ∀ name held, binder.bag.get? name = some held →
      ∃ bag ∈ earlier, bag.get? name = some held)
    (hagrees : (earlier ++ bags).Pairwise Bag.Agrees) :
    ∃ after, (reserve bags).run binder = (.ok (), after) := by
  induction bags generalizing earlier binder with
  | nil => exact ⟨binder, rfl⟩
  | cons first rest ih =>
      have hfirst := (List.pairwise_append.mp hagrees).2.2
      obtain ⟨between, hmerge, hbetween⟩ := Binder.mergeEntries_of_equal binder first.nodup
        fun entry hentry held hheld => by
          obtain ⟨bag, hbag, hget⟩ := hsource _ _ hheld
          exact hfirst bag hbag first List.mem_cons_self _ _ _ hget (Bag.get?_of_mem hentry)
      have hmerge : binder.merge first = (.ok (), between) := hmerge
      rw [reserve_cons, Build.run, hmerge]
      refine ih (earlier ++ [first]) (fun name held hheld => ?_) (by simpa using hagrees)
      obtain hold | hnew := hbetween name held hheld
      · obtain ⟨bag, hbag, hget⟩ := hsource _ _ hold
        exact ⟨bag, List.mem_append_left _ hbag, hget⟩
      · exact ⟨first, by simp, Bag.get?_of_mem hnew⟩

/-- The parameters of a tree of queries can be reserved exactly if no two of its queries disagree. -/
theorem reserve_iff_agrees (q : Query) :
    (∃ reserved, (reserve q.nestedBags).run (Binder.ofBag q.bound) = (.ok (), reserved)) ↔
      q.bags.Pairwise Bag.Agrees := by
  rw [bags_eq]
  constructor
  · rintro ⟨reserved, h⟩
    exact .cons (fun bag hbag name v w hv hw => reserve_equal h hv hbag hw) (agrees_of_reserve h)
  · exact fun h => reserve_of_agrees [q.bound]
      (fun name held hheld => ⟨q.bound, List.mem_cons_self, hheld⟩) h

end Query

/-- A binder has an equal value for every entry of some bags. -/
def Binder.Covers (binder : Binder) (bags : List Bag) : Prop :=
  ∀ bag ∈ bags, ∀ entry ∈ bag.entries,
    ∃ held, binder.bag.get? entry.1 = some held ∧ (held == entry.2) = true

theorem Binder.Covers.mono {binder after : Binder} {bags : List Bag} (h : binder.Covers bags)
    (hwithin : binder.bag.Within after.bag) : after.Covers bags := by
  intro bag hbag entry hentry
  obtain ⟨held, hheld, hequal⟩ := h bag hbag entry hentry
  exact ⟨held, hwithin _ _ hheld, hequal⟩

theorem Binder.Covers.merge {binder : Binder} {bags : List Bag} (h : binder.Covers bags)
    {bag : Bag} (hbag : bag ∈ bags) : binder.merge bag = (.ok (), binder) :=
  Binder.mergeEntries_held (h bag hbag)

namespace Build

variable {α β : Type}

/-- Whenever a run takes in a bag, this succeeds and changes nothing. -/
def MergesIdly : Build α → Binder → Prop
  | done _, _ => True
  | fail _, _ => True
  | bindValue value next, binder => (next (binder.lift value).1).MergesIdly (binder.lift value).2
  | takeIn bag next, binder => binder.merge bag = (.ok (), binder) ∧ next.MergesIdly binder

/-- A run on a binder that covers all bags to come merges idly, and if it fails then where the
compilation stops by itself. -/
theorem Alike.mergesIdly {bags : List Bag} {R : α → β → Prop} {x : Build α} {y : Build β}
    (h : Alike (· ∈ bags) R x y) {binder : Binder} (hcovers : binder.Covers bags) :
    x.MergesIdly binder ∧ (x.StopsInBuild → OnlyBuildFaults (x.run binder).1) := by
  induction h generalizing binder with
  | done h => exact ⟨trivial, fun _ => .ok _⟩
  | fail fault fault' => exact ⟨trivial, fun hstops => .error hstops⟩
  | @bindValue v v' next next' _ ih =>
      have hnext := ih (binder.lift v).1 (hcovers.mono (binder.lift_within v))
      exact ⟨hnext.1, fun hstops => hnext.2 (hstops _)⟩
  | takeIn hbag _ ih =>
      have hmerge := hcovers.merge hbag
      refine ⟨⟨hmerge, (ih hcovers).1⟩, fun hstops => ?_⟩
      rw [Build.run, hmerge]
      exact (ih hcovers).2 hstops

end Build

namespace Query

/-- A reservation covers what was reserved, if each value there equals itself. -/
theorem reserved_covers {q : Query} {reserved : Binder}
    (h : (reserve q.nestedBags).run (Binder.ofBag q.bound) = (.ok (), reserved))
    (hself : ∀ bag ∈ q.nestedBags, ∀ entry ∈ bag.entries, (entry.2 == entry.2) = true) :
    reserved.Covers q.nestedBags := by
  intro bag hbag entry hentry
  obtain ⟨held, hheld, rfl | hequal⟩ := reserve_keeps h hbag hentry
  · exact ⟨entry.2, hheld, hself bag hbag entry hentry⟩
  · exact ⟨held, hheld, hequal⟩

theorem reserve_conflict {bags : List Bag} {binder after : Binder} {fault : Fault}
    (h : (reserve bags).run binder = (.error fault, after)) : ∃ name, fault = .paramConflict name := by
  induction bags generalizing binder with
  | nil => cases h
  | cons bag rest ih =>
      rw [reserve_cons, Build.run] at h
      split at h
      · exact ih h
      · rename_i fault' _ hmerge
        have hconflict := Build.StopsInBuild.mergeEntries_conflict binder bag.entries
        cases h
        exact hconflict _ (congrArg Prod.fst hmerge)

/-- Parameter conflicts are reported for queries that disagree, before anything else can go wrong.
If each value bound to a nested query equals itself they are reported for no other queries, and once
the reservation succeeded every later merge succeeds and changes nothing. -/
theorem compileWith_conflicts {d : Dialect} (hd : d.BuildsSafely) (q : Query) :
    (¬ q.bags.Pairwise Bag.Agrees →
        ∃ name, q.compileWith d = .error (.paramConflict name)) ∧
      ((∀ bag ∈ q.nestedBags, ∀ entry ∈ bag.entries, (entry.2 == entry.2) = true) →
        (q.bags.Pairwise Bag.Agrees → ∀ name, q.compileWith d ≠ .error (.paramConflict name)) ∧
        ∀ reserved, (reserve q.nestedBags).run (Binder.ofBag q.bound) = (.ok (), reserved) →
          ((prepared d q.statement).sql d).MergesIdly reserved) := by
  refine ⟨fun hdisagree => ?_, fun hself => ⟨fun hagrees name hconflict => ?_, fun reserved h => ?_⟩⟩
  · cases hreserve : (reserve q.nestedBags).run (Binder.ofBag q.bound) with
    | mk answer after =>
        cases answer with
        | ok _ => exact absurd ((reserve_iff_agrees q).mp ⟨after, hreserve⟩) hdisagree
        | error fault =>
            obtain ⟨name, rfl⟩ := reserve_conflict hreserve
            exact ⟨name, compileWith_of_conflict d hreserve⟩
  · obtain ⟨reserved, hreserve⟩ := (reserve_iff_agrees q).mpr hagrees
    have hrun := ((statementSteps_alike d q).mergesIdly (reserved_covers hreserve hself)).2
      (statementSteps_stopsInBuild hd q)
    rw [compileWith_of_reserved d hreserve] at hconflict
    cases hanswer : (((prepared d q.statement).sql d).run reserved).1 with
    | ok sql => simp [hanswer, Except.map] at hconflict
    | error fault =>
        obtain rfl : fault = .paramConflict name := by
          simpa [hanswer, Except.map] using hconflict
        exact absurd (hrun _ hanswer) (by simp [Fault.isRefusal])
  · exact ((statementSteps_alike d q).mergesIdly (reserved_covers h hself)).1

/-- A selection from a nested query, each with parameters of its own. -/
def overNested (outer inner : List (String × Value)) : Query :=
  mk Dialect.postgres (Bag.ofList outer)
    { Statement.empty with
      tables := [.ofQuery (mk Dialect.postgres (Bag.ofList inner)
        { Statement.empty with tables := [.named "t"] })] }

theorem compileWith_conflicts_overNested :
    (∃ name, (overNested [("x", .int 1)] [("x", .int 2)]).compileWith Dialect.postgres =
        .error (.paramConflict name)) ∧
      ∀ name, (overNested [("x", .int 1)] [("x", .int 1), ("y", .int 2)]).compileWith
        Dialect.postgres ≠ .error (.paramConflict name) := by
  have hsafe := Builtin.postgres.buildsSafely
  refine ⟨(compileWith_conflicts hsafe _).1 fun h => ?_,
    ((compileWith_conflicts hsafe _).2 ?_).1 ?_⟩
  · obtain ⟨hnested, -⟩ := List.pairwise_cons.mp h
    exact absurd (hnested _ List.mem_cons_self "x" (.int 1) (.int 2) rfl rfl) (by decide)
  · rintro bag hbag
    obtain rfl := List.mem_singleton.mp hbag
    decide
  · refine .cons (fun bag hbag name v w hv hw => ?_) (List.pairwise_singleton _ _)
    obtain rfl := List.mem_singleton.mp hbag
    obtain ⟨rfl, rfl⟩ := Prod.mk.inj (List.mem_singleton.mp (Bag.mem_of_get? hv))
    obtain rfl : .int 1 = w := Option.some.inj hw
    decide

/-- What is not a number differs from itself: a name that is bound once conflicts with itself. -/
theorem nestedNaN_conflicts :
    (overNested [] [("x", .float Decimal.notANumber)]).bags.map Bag.names = [[], ["x"]] ∧
      (overNested [] [("x", .float Decimal.notANumber)]).compile = .error (.paramConflict "x") :=
  ⟨rfl, rfl⟩

end Query

end QueryCompiler
