import QueryCompiler.Proofs.BuildPairing
import QueryCompiler.Proofs.ParameterSafety
import QueryCompiler.Proofs.ValueEquality

/-!
# Compiling a part with a binder of its own

A nested query is compiled with the binder of the outer query, which holds more names and has
counted further. Compiled alone it has a binder of its own, which knows only its own bags. As long
as the second binder follows the first, every bag that the first takes in is taken in by the second,
and both lift the same values.
-/
namespace QueryCompiler

/-- Whatever equals the one value equals the other. -/
def Value.Stands (held old : Value) : Prop := ∀ v, (old == v) = true → (held == v) = true

theorem Value.stands_of_beq {held old : Value} (h : (old == held) = true) : held.Stands old :=
  fun _ hv => equals_trans (equals_symm h) hv

theorem Value.Equals.stands {held old : Value} (h : old.Equals held) : held.Stands old := by
  obtain rfl | h := h
  · exact fun _ hv => hv
  · exact stands_of_beq h

namespace Bag

/-- What the second bag holds under some names is in the first one as well, and conflicts there
with at least as many values. -/
def Follows (names : String → Prop) (outer alone : Bag) : Prop :=
  ∀ name, names name → ∀ held, alone.get? name = some held →
    ∃ old, outer.get? name = some old ∧ held.Stands old

variable {names : String → Prop} {outer outer' alone alone' : Bag} {name : String} {v : Value}

theorem Follows.mono (h : Follows names outer alone) (hwithin : outer.Within outer') :
    Follows names outer' alone := by
  intro name hname held hheld
  obtain ⟨old, hold, hstands⟩ := h name hname held hheld
  exact ⟨old, hwithin _ _ hold, hstands⟩

/-- The first bag follows a bag that keeps all of its entries. -/
theorem follows_of_keeps (h : ∀ entry ∈ alone.entries, outer.Keeps entry) :
    Follows names outer alone := by
  intro name _ held hheld
  obtain ⟨entry, hentry, rfl⟩ := Option.map_eq_some_iff.mp hheld
  obtain rfl : entry.1 = name := by simpa using List.find?_some hentry
  obtain ⟨old, hold, hequals⟩ := h entry (List.mem_of_find?_eq_some hentry)
  exact ⟨old, hold, hequals.stands⟩

/-- Another name does not matter. -/
theorem Follows.insert_other (h : Follows names outer alone) (hname : ¬ names name) (v : Value) :
    Follows names outer (alone.insert name v) := by
  intro other hother held hheld
  have hne : other ≠ name := fun heq => hname (heq ▸ hother)
  rw [get?_insert, if_neg hne] at hheld
  exact h other hother held hheld

/-- One parameter that the first bag takes in. -/
theorem Follows.mergeEntry (h : Follows names outer alone) (hname : names name)
    (hok : Binder.mergeEntry outer name v = .ok outer') :
    ∃ alone', Binder.mergeEntry alone name v = .ok alone' ∧ Follows names outer' alone' := by
  obtain ⟨hwithin, hkeeps⟩ := Binder.mergeEntry_within hok
  unfold Binder.mergeEntry
  cases htaken : alone.get? name with
  | some held =>
      obtain ⟨old, hold, hstands⟩ := h name hname held htaken
      have hequal : (old == v) = true := by
        unfold Binder.mergeEntry at hok
        rw [hold] at hok
        simp only at hok
        split at hok
        · assumption
        · cases hok
      exact ⟨alone, if_pos (hstands v hequal), h.mono hwithin⟩
  | none =>
      refine ⟨alone.insert name v, rfl, fun other hother held hheld => ?_⟩
      rw [get?_insert] at hheld
      split at hheld
      · rename_i heq
        subst heq
        obtain rfl := Option.some.inj hheld
        obtain ⟨old, hold, hequals⟩ := hkeeps
        exact ⟨old, hold, hequals.stands⟩
      · exact h.mono hwithin other hother held hheld

end Bag

namespace Binder

variable {names : String → Prop} {outer outer' alone : Binder}

theorem mergeEntries_follows (h : Bag.Follows names outer.bag alone.bag)
    {entries : List (String × Value)} (hnames : ∀ entry ∈ entries, names entry.1)
    (hok : outer.mergeEntries entries = (.ok (), outer')) :
    ∃ alone', alone.mergeEntries entries = (.ok (), alone') ∧
      Bag.Follows names outer'.bag alone'.bag := by
  induction entries generalizing outer alone with
  | nil =>
      cases hok
      exact ⟨alone, rfl, h⟩
  | cons entry rest ih =>
      obtain ⟨name, v⟩ := entry
      obtain ⟨hname, hrest⟩ := List.forall_mem_cons.mp hnames
      rw [mergeEntries] at hok
      split at hok
      · rename_i bag hbag
        obtain ⟨bag', hbag', hfollows⟩ := h.mergeEntry hname hbag
        obtain ⟨alone', hrun, hfollows'⟩ :=
          @ih { outer with bag } { alone with bag := bag' } hfollows hrest hok
        refine ⟨alone', ?_, hfollows'⟩
        rw [mergeEntries, hbag']
        exact hrun
      · cases hok

/-- A binder of its own for a part: it follows the other one, and has all names of the part. -/
structure Serves (names : String → Prop) (outer alone : Binder) : Prop where
  follows : Bag.Follows names outer.bag alone.bag
  taken : ∀ name, names name → alone.bag.get? name ≠ none

theorem Serves.within (h : Serves names outer alone) (hwithin : outer.bag.Within outer'.bag) :
    Serves names outer' alone :=
  ⟨h.follows.mono hwithin, h.taken⟩

theorem Serves.lift (h : Serves names outer alone) (v : Value) :
    Serves names (outer.lift v).2 (alone.lift v).2 where
  follows := by
    have hfresh : ¬ names (alone.lift v).1 := fun hname =>
      h.taken _ hname (alone.lift_fresh v)
    exact (h.follows.insert_other hfresh v).mono (outer.lift_within v)
  taken name hname hnone := h.taken name hname ((alone.lift_within v).free hnone)

theorem Serves.merge (h : Serves names outer alone) {bag : Bag}
    (hnames : ∀ entry ∈ bag.entries, names entry.1) (hok : outer.merge bag = (.ok (), outer')) :
    ∃ alone', alone.merge bag = (.ok (), alone') ∧ Serves names outer' alone' := by
  obtain ⟨alone', hrun, hfollows⟩ := mergeEntries_follows h.follows hnames hok
  refine ⟨alone', hrun, hfollows, fun name hname hnone => ?_⟩
  have hwithin := alone.merge_within bag
  rw [Binder.merge, hrun] at hwithin
  exact h.taken name hname (hwithin.free hnone)

end Binder

namespace Build

variable {allowed : Bag → Prop} {named : String → String → Prop} {names : String → Prop}
  {α β : Type} {R : α → β → Prop} {x : Build α} {y : Build β} {outer alone : Binder}

/-- A compilation that succeeds with the outer binder succeeds with its own, and lifts the same
values in the same order. -/
theorem Paired.run_alone (hnamed : ∀ m n, named (Binder.generatedName m) (Binder.generatedName n))
    (hallowed : ∀ bag, allowed bag → ∀ entry ∈ bag.entries, names entry.1)
    (h : Paired (fun _ => False) allowed named R x y) (hserves : outer.Serves names alone)
    {a : α} {after : Binder} (hrun : x.run outer = (.ok a, after)) :
    ∃ b after', y.run alone = (.ok b, after') ∧ after.Serves names after' ∧
      List.Forall₂ (fun l l' => l.2 = l'.2) (x.lifts outer) (y.lifts alone) := by
  induction h generalizing outer alone with
  | done h =>
      cases hrun
      exact ⟨_, alone, rfl, hserves, .nil⟩
  | fail fault => cases hrun
  | refused x h => exact h.elim
  | bindValue v _ ih =>
      obtain ⟨b, after', hrun', hserves', hlifts⟩ := ih _ _ (hnamed _ _) (hserves.lift v) hrun
      exact ⟨b, after', hrun', hserves', .cons rfl hlifts⟩
  | @takeIn bag next next' hbag _ ih =>
      rw [Build.run] at hrun
      rw [Build.lifts, Build.run, Build.lifts]
      cases hmerge : outer.merge bag with
      | mk answer between =>
          rw [hmerge] at hrun
          cases answer with
          | error fault => cases hrun
          | ok _ =>
              obtain ⟨between', hmerge', hserves'⟩ := hserves.merge (hallowed bag hbag) hmerge
              rw [hmerge']
              exact ih hserves' hrun

/-- Answers are related if the names are that were generated on both sides. -/
theorem Paired.run_related (h : Paired (fun _ => False) allowed named R x y)
    (hnames : List.Forall₂ (fun l l' => named l.1 l'.1) (x.lifts outer) (y.lifts alone))
    {a : α} {b : β} {after after' : Binder} (hrun : x.run outer = (.ok a, after))
    (hrun' : y.run alone = (.ok b, after')) : R a b := by
  induction h generalizing outer alone with
  | done h =>
      cases hrun
      cases hrun'
      exact h
  | fail fault => cases hrun
  | refused x h => exact h.elim
  | bindValue v _ ih =>
      obtain ⟨hname, hrest⟩ := List.forall₂_cons.mp hnames
      exact ih _ _ hname hrest hrun hrun'
  | @takeIn bag next next' hbag _ ih =>
      rw [Build.run] at hrun hrun'
      rw [Build.lifts, Build.lifts] at hnames
      cases hmerge : outer.merge bag with
      | mk answer between =>
          cases hmerge' : alone.merge bag with
          | mk answer' between' =>
              rw [hmerge] at hrun hnames
              rw [hmerge'] at hrun' hnames
              cases answer with
              | error fault => cases hrun
              | ok _ =>
                  cases answer' with
                  | error fault => cases hrun'
                  | ok _ => exact ih hnames hrun hrun'

end Build

namespace Query

/-- A part of the bags can be taken in alone, in their order. -/
theorem reserve_follows {names : String → Prop} {bags part : List Bag} (hpart : part.Sublist bags)
    (hnames : ∀ bag ∈ part, ∀ entry ∈ bag.entries, names entry.1) {outer outer' alone : Binder}
    (h : Bag.Follows names outer.bag alone.bag)
    (hok : (reserve bags).run outer = (.ok (), outer')) :
    ∃ alone', (reserve part).run alone = (.ok (), alone') ∧
      Bag.Follows names outer'.bag alone'.bag := by
  induction hpart generalizing outer alone with
  | slnil =>
      cases hok
      exact ⟨alone, rfl, h⟩
  | cons bag _ ih =>
      have hgrown := outer.merge_within bag
      rw [reserve_cons, Build.run] at hok
      split at hok
      · rename_i between hmerge
        rw [hmerge] at hgrown
        exact ih hnames (h.mono hgrown) hok
      · cases hok
  | cons_cons bag _ ih =>
      obtain ⟨hbag, hrest⟩ := List.forall_mem_cons.mp hnames
      rw [reserve_cons, Build.run] at hok
      split at hok
      · rename_i between hmerge
        obtain ⟨between', hmerge', hfollows⟩ := Binder.mergeEntries_follows h hbag hmerge
        obtain ⟨alone', hrun, hfollows'⟩ := ih hrest hfollows hok
        refine ⟨alone', ?_, hfollows'⟩
        rw [reserve_cons, Build.run, Binder.merge, hmerge']
        exact hrun
      · cases hok

theorem reserve_append (bags rest : List Bag) :
    reserve (bags ++ rest) = reserve bags >>= fun _ => reserve rest := by
  induction bags with
  | nil => rfl
  | cons bag bags ih =>
      rw [List.cons_append, reserve_cons, ih]
      rfl

theorem reserve_append_ok {bags rest : List Bag} {binder after : Binder}
    (h : (reserve (bags ++ rest)).run binder = (.ok (), after)) :
    ∃ between, (reserve bags).run binder = (.ok (), between) ∧
      (reserve rest).run between = (.ok (), after) := by
  rw [reserve_append, Build.run_bind] at h
  split at h
  · exact ⟨_, ‹_›, h⟩
  · cases h

theorem nestedBags_split {inner q : Query} (h : inner ∈ q.subqueries) :
    ∃ before behind, q.nestedBags = before ++ (inner.bags ++ behind) := by
  obtain ⟨before, behind, hsplit⟩ := List.append_of_mem h
  refine ⟨before.flatMap bags, behind.flatMap bags, ?_⟩
  rw [nestedBags, hsplit, List.flatMap_append, List.flatMap_cons]

/-- The bags of a nested query are taken in one after another. -/
theorem NestedIn.bags_split {inner q : Query} (h : inner.NestedIn q) :
    ∃ before behind, q.nestedBags = before ++ (inner.bags ++ behind) := by
  induction h with
  | direct h => exact nestedBags_split h.mem_subqueries
  | @deeper middle outer h _ ih =>
      obtain ⟨before, behind, hsplit⟩ := ih
      obtain ⟨start, stop, houter⟩ := nestedBags_split h.mem_subqueries
      refine ⟨start ++ middle.bound :: before, behind ++ stop, ?_⟩
      rw [houter, bags_eq middle, hsplit]
      simp

/-- The names that are bound to a query or to the queries nested in it. -/
def IsBound (q : Query) (name : String) : Prop := ∃ value, q.Binds name value

theorem isBound_of_nestedBags {q : Query} :
    ∀ bag ∈ q.nestedBags, ∀ entry ∈ bag.entries, q.IsBound entry.1 := by
  intro bag hbag entry hentry
  obtain ⟨owner, hnested, rfl⟩ := exists_nestedIn hbag
  exact ⟨entry.2, owner, .inr hnested, hentry⟩

/-- A nested query can reserve its names alone if the outer query could reserve its own. -/
theorem NestedIn.reserve_alone {inner q : Query} (h : inner.NestedIn q) {reserved : Binder}
    (hreserve : (reserve q.nestedBags).run (Binder.ofBag q.bound) = (.ok (), reserved)) :
    ∃ alone, (reserve inner.nestedBags).run (Binder.ofBag inner.bound) = (.ok (), alone) ∧
      reserved.Serves inner.IsBound alone := by
  obtain ⟨before, behind, hsplit⟩ := h.bags_split
  rw [hsplit] at hreserve
  obtain ⟨first, -, hrest⟩ := reserve_append_ok hreserve
  obtain ⟨last, hinner, hbehind⟩ := reserve_append_ok hrest
  rw [bags_eq, reserve_cons, Build.run] at hinner
  split at hinner
  · rename_i next hmerge
    have hkeeps : ∀ entry ∈ inner.bound.entries, next.bag.Keeps entry := by
      intro entry hentry
      have hok : (first.mergeEntries inner.bound.entries).1 = .ok () := congrArg Prod.fst hmerge
      have hentries := Binder.mergeEntries_keeps hok hentry
      rwa [← Binder.merge, hmerge] at hentries
    have hstart : Bag.Follows inner.IsBound next.bag (Binder.ofBag inner.bound).bag :=
      Bag.follows_of_keeps hkeeps
    obtain ⟨alone, halone, hfollows⟩ :=
      reserve_follows (.refl _) isBound_of_nestedBags hstart hinner
    have hwithin := Build.run_within (reserve behind) last
    rw [hbehind] at hwithin
    refine ⟨alone, halone, hfollows.mono hwithin, ?_⟩
    rintro name ⟨value, hbinds⟩
    exact (reserved_keeps halone hbinds).name_taken
  · cases hinner

end Query

end QueryCompiler
