import QueryCompiler.Compile.Build
import QueryCompiler.Proofs.FreshName
import QueryCompiler.Text.Identifier

/-!
# Bags and binders only grow

Neither taking in a bag nor lifting a value changes what a name stood for before. What is taken in
is there afterwards with an equal value, and a lifted value is there under a name that was free.
-/
namespace QueryCompiler

/-- The same value, or an equal one as far as the comparison of values can tell. -/
def Value.Equals (a b : Value) : Prop := a = b ∨ (a == b) = true

namespace Bag

theorem find?_put (name other : String) (value : Value) (entries : List (String × Value)) :
    ((put name value entries).find? (·.1 == other)).map (·.2) =
      if other = name then some value else (entries.find? (·.1 == other)).map (·.2) := by
  induction entries with
  | nil =>
      by_cases h : other = name
      · simp [put, h]
      · have hne : name ≠ other := fun e => h e.symm
        simp [put, h, hne]
  | cons entry rest ih =>
      obtain ⟨first, old⟩ := entry
      by_cases hfirst : first = name
      · subst hfirst
        by_cases h : other = first
        · simp [put, h]
        · have hne : first ≠ other := fun e => h e.symm
          simp [put, h, hne]
      · by_cases hother : first = other
        · subst hother
          simp [put, hfirst]
        · simpa [put, hfirst, hother] using ih

@[simp]
theorem get?_insert (bag : Bag) (name other : String) (value : Value) :
    (bag.insert name value).get? other = if other = name then some value else bag.get? other :=
  find?_put name other value bag.entries

theorem get?_eq_none {bag : Bag} {name : String} : bag.get? name = none ↔ name ∉ bag.names := by
  simp only [get?, Option.map_eq_none_iff, List.find?_eq_none, names, List.mem_map, not_exists,
    not_and]
  constructor
  · rintro h entry hentry rfl
    simpa using h entry hentry
  · intro h entry hentry hname
    exact h entry hentry (by simpa using hname)

theorem contains_iff {bag : Bag} {name : String} : bag.contains name = true ↔ name ∈ bag.names := by
  rw [contains, Option.isSome_iff_ne_none, ne_eq, get?_eq_none, not_not]

theorem find?_of_mem {name : String} {value : Value} :
    ∀ {entries : List (String × Value)}, (entries.map (·.1)).Nodup → (name, value) ∈ entries →
      (entries.find? (·.1 == name)).map (·.2) = some value
  | (first, old) :: rest, hnodup, hmem => by
    rw [List.map_cons, List.nodup_cons] at hnodup
    obtain heq | hrest := List.mem_cons.mp hmem
    · cases heq
      simp
    · have hne : first ≠ name := by
        rintro rfl
        exact hnodup.1 (List.mem_map.mpr ⟨_, hrest, rfl⟩)
      simpa [hne] using find?_of_mem hnodup.2 hrest

theorem get?_of_mem {bag : Bag} {name : String} {value : Value} (h : (name, value) ∈ bag.entries) :
    bag.get? name = some value :=
  find?_of_mem bag.nodup h

/-- Every name of one bag stands for the same value in another. -/
def Within (small large : Bag) : Prop :=
  ∀ name value, small.get? name = some value → large.get? name = some value

theorem Within.refl (bag : Bag) : bag.Within bag := fun _ _ h => h

theorem Within.trans {a b c : Bag} (hab : a.Within b) (hbc : b.Within c) : a.Within c :=
  fun name value h => hbc name value (hab name value h)

theorem Within.free {small large : Bag} {name : String} (hw : small.Within large)
    (h : large.get? name = none) : small.get? name = none := by
  cases hold : small.get? name with
  | none => rfl
  | some old => simp [hw name old hold] at h

theorem within_insert {bag : Bag} {name : String} (h : bag.get? name = none) (value : Value) :
    bag.Within (bag.insert name value) := by
  intro other old hold
  have hne : other ≠ name := by
    rintro rfl
    simp [h] at hold
  rw [get?_insert, if_neg hne, hold]

/-- A bag stands by an entry: its name is there with an equal value. -/
def Keeps (bag : Bag) (entry : String × Value) : Prop :=
  ∃ held, bag.get? entry.1 = some held ∧ held.Equals entry.2

theorem Keeps.mono {small large : Bag} {entry : String × Value} (h : small.Keeps entry)
    (hw : small.Within large) : large.Keeps entry := by
  obtain ⟨held, hheld, hequals⟩ := h
  exact ⟨held, hw _ _ hheld, hequals⟩

theorem keeps_of_mem {bag : Bag} {entry : String × Value} (h : entry ∈ bag.entries) :
    bag.Keeps entry :=
  ⟨entry.2, get?_of_mem h, .inl rfl⟩

theorem Keeps.name_taken {bag : Bag} {entry : String × Value} (h : bag.Keeps entry) :
    bag.get? entry.1 ≠ none := by
  obtain ⟨held, hheld, _⟩ := h
  simp [hheld]

end Bag

namespace Binder

theorem mergeEntry_within {bag bag' : Bag} {name : String} {value : Value}
    (h : mergeEntry bag name value = .ok bag') : bag.Within bag' ∧ bag'.Keeps (name, value) := by
  unfold mergeEntry at h
  cases hold : bag.get? name with
  | none =>
      obtain rfl : bag.insert name value = bag' := by simpa [hold] using h
      exact ⟨Bag.within_insert hold value, value, by simp, .inl rfl⟩
  | some old =>
      simp only [hold] at h
      split at h
      · rename_i hequal
        cases h
        exact ⟨.refl bag, old, hold, .inr hequal⟩
      · cases h

theorem mergeEntries_within (binder : Binder) (entries : List (String × Value)) :
    binder.bag.Within (binder.mergeEntries entries).2.bag := by
  induction entries generalizing binder with
  | nil => exact .refl _
  | cons entry rest ih =>
      obtain ⟨name, value⟩ := entry
      rw [mergeEntries]
      split
      · rename_i bag hbag
        exact (mergeEntry_within hbag).1.trans (ih { binder with bag })
      · exact .refl _

theorem mergeEntries_keeps {binder : Binder} {entries : List (String × Value)}
    (hok : (binder.mergeEntries entries).1 = .ok ()) {entry : String × Value}
    (h : entry ∈ entries) : (binder.mergeEntries entries).2.bag.Keeps entry := by
  induction entries generalizing binder with
  | nil => exact absurd h List.not_mem_nil
  | cons first rest ih =>
      obtain ⟨name, value⟩ := first
      rw [mergeEntries] at hok ⊢
      split at hok
      · rename_i bag hbag
        obtain rfl | hrest := List.mem_cons.mp h
        · exact (mergeEntry_within hbag).2.mono (mergeEntries_within { binder with bag } rest)
        · exact ih hok hrest
      · cases hok

/-- Taking in what is there already changes nothing. -/
theorem mergeEntries_held {binder : Binder} {entries : List (String × Value)}
    (h : ∀ entry ∈ entries, ∃ held, binder.bag.get? entry.1 = some held ∧
      (held == entry.2) = true) : binder.mergeEntries entries = (.ok (), binder) := by
  induction entries with
  | nil => rfl
  | cons entry rest ih =>
      obtain ⟨name, value⟩ := entry
      obtain ⟨⟨held, hheld, hequal⟩, hrest⟩ := List.forall_mem_cons.mp h
      rw [mergeEntries, mergeEntry, hheld]
      simp only [hequal, if_true]
      exact ih hrest

theorem merge_within (binder : Binder) (bag : Bag) :
    binder.bag.Within (binder.merge bag).2.bag :=
  binder.mergeEntries_within bag.entries

theorem generatedName_injective : Function.Injective generatedName := by
  intro m n h
  have hdigits : Nat.toDigits 10 m = Nat.toDigits 10 n := by
    simpa [generatedName] using congrArg String.toList h
  simpa [Nat.ofDigitChars_toDigits] using congrArg (Nat.ofDigitChars 10 · 0) hdigits

theorem isIdentifier_generatedName (n : Nat) :
    Text.isIdentifier (generatedName n) = true := by
  have hdigits : ∀ c ∈ (toString n).toList, Text.isIdentifierPart c = true := by
    intro c hc
    rw [Nat.toString_eq_repr, Nat.toList_repr] at hc
    have hdigit := Nat.isDigit_of_mem_toDigits (by decide) (by decide) hc
    simp [Text.isIdentifierPart, Char.isAlphanum, hdigit]
  have hcs : (generatedName n).toList = 'p' :: (toString n).toList := by
    simp [generatedName]
  rw [Text.isIdentifier, hcs]
  exact List.all_eq_true.mpr hdigits

/-- The bounded search of a lift finds the number at which the unbounded one ends. -/
theorem lift_search (binder : Binder) (value : Value) :
    ∃ n, Search binder.bag.contains generatedName (binder.count + 1) n ∧
      binder.lift value = (generatedName n, ⟨binder.bag.insert (generatedName n) value, n⟩) := by
  have hused : ∀ s, binder.bag.contains s = true → s ∈ binder.bag.names :=
    fun _ => Bag.contains_iff.mp
  have hlimit : binder.bag.names.length ≤ binder.bag.size := Nat.le_of_eq (List.length_map _)
  exact ⟨_, firstFree_search_of_used generatedName_injective hused hlimit _, rfl⟩

theorem lift_fresh (binder : Binder) (value : Value) :
    binder.bag.get? (binder.lift value).1 = none := by
  obtain ⟨n, hsearch, hlift⟩ := binder.lift_search value
  have hfree := hsearch.free
  rw [Bag.contains, Option.isSome_eq_false_iff, Option.isNone_iff_eq_none] at hfree
  rwa [hlift]

theorem lift_bag (binder : Binder) (value : Value) :
    (binder.lift value).2.bag = binder.bag.insert (binder.lift value).1 value := rfl

theorem lift_within (binder : Binder) (value : Value) :
    binder.bag.Within (binder.lift value).2.bag := by
  rw [lift_bag]
  exact Bag.within_insert (binder.lift_fresh value) value

end Binder

namespace Build

variable {α β : Type}

theorem run_within (build : Build α) (binder : Binder) :
    binder.bag.Within (build.run binder).2.bag := by
  induction build generalizing binder with
  | done | fail => exact .refl _
  | bindValue value next ih =>
      exact (binder.lift_within value).trans (ih _ (binder.lift value).2)
  | takeIn bag next ih =>
      have hmerge := binder.merge_within bag
      rw [run]
      split
      · rename_i after h
        rw [h] at hmerge
        exact hmerge.trans (ih after)
      · rename_i after h
        rwa [h] at hmerge

/-- A lifted value has a name that was free before the run, and stands under it afterwards. -/
theorem lifts_spec (build : Build α) (binder : Binder) :
    ∀ lifted ∈ build.lifts binder, binder.bag.get? lifted.1 = none ∧
      (build.run binder).2.bag.get? lifted.1 = some lifted.2 := by
  induction build generalizing binder with
  | done | fail => simp [lifts]
  | bindValue value next ih =>
      intro lifted hmem
      obtain rfl | hmem := List.mem_cons.mp hmem
      · refine ⟨binder.lift_fresh value, run_within (next _) (binder.lift value).2 _ _ ?_⟩
        simp [Binder.lift_bag]
      · obtain ⟨hfree, hkept⟩ := ih _ _ lifted hmem
        exact ⟨(binder.lift_within value).free hfree, hkept⟩
  | takeIn bag next ih =>
      intro lifted hmem
      have hmerge := binder.merge_within bag
      rw [lifts] at hmem
      rw [run]
      split at hmem
      · rename_i after h
        rw [h] at hmerge
        obtain ⟨hfree, hkept⟩ := ih after lifted hmem
        exact ⟨hmerge.free hfree, hkept⟩
      · exact absurd hmem List.not_mem_nil

theorem lifts_nodup (build : Build α) (binder : Binder) :
    ((build.lifts binder).map (·.1)).Nodup := by
  induction build generalizing binder with
  | done | fail => exact .nil
  | bindValue value next ih =>
      rw [lifts, List.map_cons, List.nodup_cons]
      refine ⟨?_, ih _ _⟩
      intro hmem
      obtain ⟨lifted, hlifted, hname⟩ := List.mem_map.mp hmem
      obtain ⟨hfree, _⟩ := lifts_spec _ _ lifted hlifted
      simp [hname, Binder.lift_bag] at hfree
  | takeIn bag next ih =>
      rw [lifts]
      split
      · exact ih _
      · exact .nil

/-- Every lifted value is known by a generated name. -/
theorem lifts_generated (x : Build α) (binder : Binder) :
    ∀ lifted ∈ x.lifts binder, ∃ n, lifted.1 = Binder.generatedName n := by
  induction x generalizing binder with
  | done | fail => exact fun _ h => absurd h List.not_mem_nil
  | bindValue value next ih =>
      rw [lifts, List.forall_mem_cons]
      exact ⟨⟨_, rfl⟩, ih _ _⟩
  | takeIn bag next ih =>
      rw [lifts]
      split
      · exact ih _
      · exact fun _ h => absurd h List.not_mem_nil

theorem isIdentifier_of_lifts {build : Build α} {binder : Binder} {lifted : String × Value}
    (h : lifted ∈ build.lifts binder) : Text.isIdentifier lifted.1 = true := by
  obtain ⟨n, hname⟩ := build.lifts_generated binder lifted h
  rw [hname]
  exact Binder.isIdentifier_generatedName n

theorem run_bind (build : Build α) (next : α → Build β) (binder : Binder) :
    (build >>= next).run binder =
      match build.run binder with
      | (.ok a, after) => (next a).run after
      | (.error fault, after) => (.error fault, after) := by
  change (build.bind next).run binder = _
  induction build generalizing binder with
  | done | fail => rfl
  | bindValue value more ih => exact ih _ _
  | takeIn bag more ih =>
      simp only [Build.bind, run]
      split
      · exact ih _
      · rfl

theorem run_bind_eq_ok {build : Build α} {next : α → Build β} {binder after : Binder} {answer : β} :
    (build >>= next).run binder = (.ok answer, after) ↔
      ∃ a between, build.run binder = (.ok a, between) ∧
        (next a).run between = (.ok answer, after) := by
  rw [run_bind]
  constructor
  · intro h
    split at h
    · rename_i a between hbuild
      exact ⟨a, between, hbuild, h⟩
    · cases h
  · rintro ⟨a, between, hbuild, hnext⟩
    rw [hbuild]
    exact hnext

theorem run_ofExcept (x : Except Fault α) (binder : Binder) :
    (ofExcept x).run binder = (x, binder) ∧ (ofExcept x).lifts binder = [] := by
  cases x <;> exact ⟨rfl, rfl⟩

theorem lifts_bind (build : Build α) (next : α → Build β) (binder : Binder) :
    (build >>= next).lifts binder = build.lifts binder ++
      match build.run binder with
      | (.ok a, after) => (next a).lifts after
      | (.error _, _) => [] := by
  change (build.bind next).lifts binder = _
  induction build generalizing binder with
  | done | fail => rfl
  | bindValue value more ih =>
      simp only [Build.bind, lifts, run, List.cons_append, List.cons.injEq, true_and]
      exact ih _ _
  | takeIn bag more ih =>
      simp only [Build.bind, lifts, run]
      split
      · exact ih _
      · rfl

end Build

end QueryCompiler
