import Mathlib.Data.List.Nodup
import Mathlib.Data.List.Perm.Subperm
import QueryCompiler.Param.Fresh

/-!
# The search for a fresh name

`Search` counts upwards without a bound for as long as names are taken. The bounded search of
`firstFree` finds the same number, because not all of its candidates can be taken: that would be
more names than there are in use.
-/
namespace QueryCompiler

/-- Counting upwards from the first number, the second is the first whose name is not taken. -/
inductive Search (taken : String → Bool) (name : Nat → String) : Nat → Nat → Prop
  | found {n : Nat} (free : taken (name n) = false) : Search taken name n n
  | next {n m : Nat} (used : taken (name n) = true) (rest : Search taken name (n + 1) m) :
      Search taken name n m

variable {taken : String → Bool} {name : Nat → String}

namespace Search

theorem free {start n : Nat} (h : Search taken name start n) : taken (name n) = false := by
  induction h with
  | found free => exact free
  | next _ _ ih => exact ih

theorem start_le {start n : Nat} (h : Search taken name start n) : start ≤ n := by
  induction h with
  | found _ => exact Nat.le_refl _
  | next _ _ ih => omega

theorem used_below {start n k : Nat} (h : Search taken name start n) (hk : start ≤ k)
    (hn : k < n) : taken (name k) = true := by
  induction h with
  | found _ => omega
  | @next n m used _ ih =>
      obtain rfl | hlt := Nat.eq_or_lt_of_le hk
      · exact used
      · exact ih hlt hn

end Search

/-- One of the candidates is free if the names in use are no more than the limit. -/
theorem exists_free (hinj : Function.Injective name) {used : List String} {limit : Nat}
    (hused : ∀ s, taken s = true → s ∈ used) (hlimit : used.length ≤ limit) (start : Nat) :
    ∃ n, start ≤ n ∧ n ≤ start + limit ∧ taken (name n) = false := by
  by_contra hnone
  have htaken : ∀ n, start ≤ n → n ≤ start + limit → taken (name n) = true := by
    intro n hlow hhigh
    by_contra hfree
    exact hnone ⟨n, hlow, hhigh, by simpa using hfree⟩
  have hsub : (List.range' start (limit + 1)).map name ⊆ used := by
    intro s hs
    obtain ⟨n, hn, rfl⟩ := List.mem_map.mp hs
    obtain ⟨hlow, hhigh⟩ := List.mem_range'_1.mp hn
    exact hused _ (htaken n hlow (by omega))
  have hnodup : ((List.range' start (limit + 1)).map name).Nodup :=
    List.Nodup.map hinj List.nodup_range'
  have hlength := (hnodup.subperm hsub).length_le
  simp at hlength
  omega

theorem firstFree_search (limit start : Nat)
    (h : ∃ n, start ≤ n ∧ n ≤ start + limit ∧ taken (name n) = false) :
    Search taken name start (firstFree taken name limit start) := by
  induction limit generalizing start with
  | zero =>
      obtain ⟨n, hlow, hhigh, hfree⟩ := h
      obtain rfl : n = start := by omega
      exact .found hfree
  | succ limit ih =>
      cases hstart : taken (name start) with
      | false =>
          rw [firstFree, if_neg (by simp [hstart])]
          exact .found hstart
      | true =>
          obtain ⟨n, hlow, hhigh, hfree⟩ := h
          have hne : n ≠ start := by
            rintro rfl
            simp [hstart] at hfree
          rw [firstFree, if_pos hstart]
          exact .next hstart (ih (start + 1) ⟨n, by omega, by omega, hfree⟩)

/-- The bounded search is the unbounded one, which therefore ends. -/
theorem firstFree_search_of_used (hinj : Function.Injective name) {used : List String}
    {limit : Nat} (hused : ∀ s, taken s = true → s ∈ used) (hlimit : used.length ≤ limit)
    (start : Nat) : Search taken name start (firstFree taken name limit start) :=
  firstFree_search limit start (exists_free hinj hused hlimit start)

end QueryCompiler
