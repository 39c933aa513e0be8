import QueryCompiler.Operator
import QueryCompiler.Proofs.IdentifierText

/-!
# Names of operators

An operator is looked up by the words of its name. Where one word is asked for, that is the name
without the blanks around it.
-/
namespace QueryCompiler

namespace Text

variable {cut : Char → Bool} {cs part : List Char}

theorem cut_of_parts_nil (h : (partsWhere cut cs).filter (fun part => !part.isEmpty) = []) :
    ∀ c ∈ cs, cut c = true := by
  intro c hc
  by_contra hcut
  obtain ⟨part, hpart, hmem⟩ := mem_partsWhere cut (by simpa using hcut) hc
  have hempty : part = [] := by simpa using List.filter_eq_nil_iff.mp h part hpart
  exact absurd (hempty ▸ hmem) List.not_mem_nil

/-- What the first part leaves over holds the other parts. -/
theorem first_part {others : List (List Char)} (h : partsWhere cut cs = part :: others)
    (hothers : others.filter (fun part => !part.isEmpty) = []) :
    ∃ blanks, cs = part ++ blanks ∧ ∀ c ∈ blanks, cut c = true := by
  induction cs generalizing part others with
  | nil =>
      obtain ⟨rfl, -⟩ := List.cons.inj h
      exact ⟨[], rfl, fun c hc => absurd hc List.not_mem_nil⟩
  | cons first rest ih =>
      rw [partsWhere] at h
      split at h
      · rename_i hfirst
        obtain ⟨rfl, rfl⟩ := List.cons.inj h
        exact ⟨first :: rest, rfl, List.forall_mem_cons.mpr ⟨hfirst, cut_of_parts_nil hothers⟩⟩
      · split at h
        · rename_i hnil
          exact absurd hnil (partsWhere_ne_nil cut rest)
        · rename_i head tail hparts
          obtain ⟨rfl, rfl⟩ := List.cons.inj h
          obtain ⟨blanks, rfl, hblanks⟩ := ih hparts hothers
          exact ⟨blanks, rfl, hblanks⟩

theorem trimEnd_append {blanks : List Char} (hblanks : ∀ c ∈ blanks, cut c = true)
    (hpart : ∀ c ∈ part, cut c = false) : trimEnd cut (part ++ blanks) = part := by
  have hrest : ((part ++ blanks).reverse.dropWhile cut) = part.reverse := by
    rw [List.reverse_append, List.dropWhile_append_of_pos (by simpa using hblanks)]
    cases hrev : part.reverse with
    | nil => rfl
    | cons c rest =>
        have hc : cut c = false := hpart c (List.mem_reverse.mp (hrev ▸ List.mem_cons_self))
        rw [List.dropWhile_cons_of_neg (by simp [hc])]
  rw [trimEnd, hrest, List.reverse_reverse]

theorem trim_of_single_part
    (h : (partsWhere cut cs).filter (fun part => !part.isEmpty) = [part]) :
    trimEnd cut (trimStart cut cs) = part := by
  induction cs with
  | nil => exact absurd h (by simp [partsWhere])
  | cons first rest ih =>
      have hparts := h
      rw [partsWhere] at h
      split at h
      · rename_i hfirst
        rw [trimStart, List.dropWhile_cons_of_pos hfirst]
        exact ih (by simpa using h)
      · rename_i hfirst
        rw [trimStart, List.dropWhile_cons_of_neg hfirst]
        split at h
        · rename_i hnil
          exact absurd hnil (partsWhere_ne_nil cut rest)
        · rename_i head others hrest
          obtain ⟨rfl, hothers⟩ : first :: head = part ∧
              others.filter (fun part => !part.isEmpty) = [] := by simpa using h
          obtain ⟨blanks, rfl, hblanks⟩ := first_part hrest hothers
          have hpart : ∀ c ∈ first :: head, cut c = false := by
            refine List.forall_mem_cons.mpr ⟨by simpa using hfirst, fun c hc => ?_⟩
            exact cut_of_mem_partsWhere (hrest ▸ List.mem_cons_self) hc
          exact trimEnd_append hblanks hpart

/-- A text of a single word is that word between blanks. -/
theorem trim_of_words {s word : String} (h : words cut s = [word]) : trim cut s = word := by
  obtain ⟨part, hpart, rfl⟩ := List.map_eq_singleton_iff.mp h
  rw [trim, trim_of_single_part hpart]

end Text

namespace Operator

/-- A name that is looked up as a single word is that word, in upper or lower case, between
blanks. -/
theorem trim_of_canonical {name word : String} (h : canonical name = word) (hne : word ≠ "")
    (hblank : ' ' ∉ word.toList) : (Text.trim Text.isBlank name).toUpper = word := by
  rw [canonical] at h
  match hwords : Text.words Text.isBlank name with
  | [] => exact absurd (by simpa [hwords] using h.symm) hne
  | [single] =>
      rw [Text.trim_of_words hwords]
      simpa [hwords] using h
  | first :: second :: rest =>
      refine absurd ?_ hblank
      rw [← h, hwords, List.map_cons, List.map_cons, String.intercalate_cons_cons]
      simp

end Operator

end QueryCompiler
