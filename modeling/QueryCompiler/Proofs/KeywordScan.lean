import Mathlib.Data.List.TakeWhile
import QueryCompiler.JoinType
import QueryCompiler.Proofs.IdentifierText

/-!
# Keywords in a text

A keyword is read behind blanks and has to end where a word does. Folding case adds no spelling of
the letters of these keywords, so a keyword is read exactly where it is the first word, and a text
from which keywords are read one after another, up to blanks at its end, has them as its words.
-/
namespace QueryCompiler

open Identifier (lowerChar isPlainChar)
open Text (EndsPart isSeparator partsWhere)

/-! Letters in any case. -/

namespace Text

theorem toNat_toLower {c : Char} (h : 65 ≤ c.toNat ∧ c.toNat ≤ 90) :
    c.toLower.toNat = c.toNat + 32 := by
  have hupper : c.val ≥ 'A'.val ∧ c.val ≤ 'Z'.val := by
    simpa [UInt32.le_iff_toNat_le] using h
  have hlower : c.toLower = ⟨c.val + ('a'.val - 'A'.val), _⟩ := dif_pos hupper
  have hshift : ('a'.val - 'A'.val).toNat = 32 := by decide
  rw [hlower]
  change (c.val + ('a'.val - 'A'.val)).toNat = c.val.toNat + 32
  have hval : c.val.toNat = c.toNat := rfl
  rw [UInt32.toNat_add]
  omega

theorem toLower_of_not_upper {c : Char} (h : ¬ (65 ≤ c.toNat ∧ c.toNat ≤ 90)) : c.toLower = c := by
  have hupper : ¬ (c.val ≥ 'A'.val ∧ c.val ≤ 'Z'.val) := by
    simpa [UInt32.le_iff_toNat_le] using h
  exact dif_neg hupper

theorem isAlphabetic_of_letter {c : Char}
    (h : 65 ≤ c.toNat ∧ c.toNat ≤ 90 ∨ 97 ≤ c.toNat ∧ c.toNat ≤ 122) : isAlphabetic c = true := by
  obtain ⟨rest, hranges⟩ : ∃ rest, alphabeticRanges = (65, 90) :: (97, 122) :: rest := ⟨_, rfl⟩
  rw [isAlphabetic, hranges, inRanges, inRanges]
  split
  · split
    · omega
    · exact decide_eq_true (by omega)
  · exact decide_eq_true (by omega)

end Text

namespace JoinType

/-- A capital letter other than the one to which the Kelvin sign folds. -/
def IsLetter (c : Char) : Prop := 65 ≤ c.toNat ∧ c.toNat ≤ 90 ∧ c ≠ 'K'

instance : DecidablePred IsLetter := fun _ => inferInstanceAs (Decidable (_ ∧ _ ∧ _))

/-- Folding case as Unicode does adds no spelling of such a letter. -/
theorem lowerChar_eq_iff {letter c : Char} (h : IsLetter letter) :
    lowerChar c = lowerChar letter ↔ c.toUpper = letter := by
  obtain ⟨hlow, hhigh, hk⟩ := h
  have hkelvin : letter ≠ '\u212a' := by
    rintro rfl
    exact absurd hhigh (by decide)
  have hletter : (lowerChar letter).toNat = letter.toNat + 32 := by
    rw [lowerChar, if_neg hkelvin, Text.toNat_toLower ⟨hlow, hhigh⟩]
  have hnotk : letter.toNat ≠ 75 := fun h => hk (Char.toNat_inj.mp h)
  rw [← Char.toNat_inj, ← Char.toNat_inj, hletter, lowerChar]
  split
  · -- The Kelvin sign folds to a letter that is left out, and has no other case itself.
    rename_i hc
    subst hc
    have hupper : ('\u212a').toUpper.toNat = 8490 := by decide
    have hfold : 'k'.toNat = 107 := by decide
    omega
  · by_cases hupper : 65 ≤ c.toNat ∧ c.toNat ≤ 90
    · rw [Text.toNat_toLower hupper, Text.toUpper_of_not_lower (by omega)]
      omega
    · rw [Text.toLower_of_not_upper hupper]
      by_cases hlower : 97 ≤ c.toNat ∧ c.toNat ≤ 122
      · rw [Text.toNat_toUpper hlower]
        omega
      · rw [Text.toUpper_of_not_lower hlower]
        omega

/-- Such a letter is part of a word. -/
theorem isPlainChar_of_toUpper {c : Char} (h : IsLetter c.toUpper) : isPlainChar c = true := by
  obtain ⟨hlow, hhigh, -⟩ := h
  have hletter : 65 ≤ c.toNat ∧ c.toNat ≤ 90 ∨ 97 ≤ c.toNat ∧ c.toNat ≤ 122 := by
    by_cases hlower : 97 ≤ c.toNat ∧ c.toNat ≤ 122
    · exact .inr hlower
    · rw [Text.toUpper_of_not_lower hlower] at hlow hhigh
      exact .inl ⟨hlow, hhigh⟩
  rw [isPlainChar, Text.isAlphanumeric, Text.isAlphabetic_of_letter hletter]
  rfl

theorem isPlainChar_separator {c : Char} (h : isSeparator c = true) : isPlainChar c = false := by
  have hcases : ((c = ' ' ∨ c = '\t') ∨ c = '\r') ∨ c = '\n' := by simpa [isSeparator] using h
  obtain ((rfl | rfl) | rfl) | rfl := hcases <;> decide +kernel

/-! Reading a keyword. -/

/-- The word with which a text starts, behind blanks. -/
def firstWord (text : List Char) : List Char := (text.dropWhile isSeparator).takeWhile isPlainChar

/-- What stands behind that word. -/
def behindWord (text : List Char) : List Char := (text.dropWhile isSeparator).dropWhile isPlainChar

namespace Scan

theorem spelled?_eq_some_iff {word text rest : List Char} (hword : ∀ c ∈ word, IsLetter c) :
    spelled? word text = some rest ↔
      ∃ part, text = part ++ rest ∧ part.map Char.toUpper = word := by
  induction word generalizing text with
  | nil =>
      simp only [spelled?, Option.some.injEq, List.map_eq_nil_iff]
      exact ⟨fun h => ⟨[], h, rfl⟩, fun ⟨_, h, hnil⟩ => by rw [h, hnil, List.nil_append]⟩
  | cons letter word ih =>
      obtain ⟨hletter, hrest⟩ := List.forall_mem_cons.mp hword
      cases text with
      | nil =>
          simp only [spelled?, reduceCtorEq, false_iff]
          rintro ⟨part, htext, hpart⟩
          rw [(List.append_eq_nil_iff.mp htext.symm).1] at hpart
          cases hpart
      | cons c text =>
          rw [spelled?, Option.ite_none_right_eq_some, lowerChar_eq_iff hletter, ih hrest]
          constructor
          · rintro ⟨rfl, part, rfl, rfl⟩
            exact ⟨c :: part, rfl, rfl⟩
          · rintro ⟨part, htext, hpart⟩
            obtain ⟨first, others, rfl, hfirst, hothers⟩ := List.map_eq_cons_iff.mp hpart
            obtain ⟨rfl, rfl⟩ := List.cons.inj htext
            exact ⟨hfirst, others, rfl, hothers⟩

theorem takeWhile_goesOn {rest : List Char} (h : goesOn rest = false) :
    rest.takeWhile isPlainChar = [] ∧ rest.dropWhile isPlainChar = rest := by
  cases rest with
  | nil => exact ⟨rfl, rfl⟩
  | cons c rest =>
      have hc : ¬ isPlainChar c = true := by simpa [goesOn] using h
      exact ⟨List.takeWhile_cons_of_neg hc, List.dropWhile_cons_of_neg hc⟩

theorem goesOn_dropWhile (text : List Char) : goesOn (text.dropWhile isPlainChar) = false := by
  induction text with
  | nil => rfl
  | cons c text ih =>
      rw [List.dropWhile_cons]
      split
      · exact ih
      · rename_i hc
        simpa [goesOn] using hc

theorem keyword_eq_some {word : String} {text rest : List Char} :
    keyword word text = some ((), rest) ↔
      spelled? word.toList (text.dropWhile isSeparator) = some rest ∧ goesOn rest = false := by
  simp [keyword, Option.bind_eq_some_iff]

theorem goesOn_of_keyword {word : String} {text rest : List Char}
    (h : keyword word text = some ((), rest)) : goesOn rest = false := (keyword_eq_some.mp h).2

/-- A keyword is read where it is the first word. -/
theorem keyword_eq_some_iff {word : String} {text rest : List Char}
    (hword : ∀ c ∈ word.toList, IsLetter c) : keyword word text = some ((), rest) ↔
      (firstWord text).map Char.toUpper = word.toList ∧ behindWord text = rest := by
  rw [keyword_eq_some, spelled?_eq_some_iff hword, firstWord, behindWord]
  constructor
  · rintro ⟨⟨part, htext, hpart⟩, hrest⟩
    have hplain : ∀ c ∈ part, isPlainChar c = true := fun c hc =>
      isPlainChar_of_toUpper (hword _ (hpart ▸ List.mem_map_of_mem hc))
    rw [htext, List.takeWhile_append_of_pos hplain, List.dropWhile_append_of_pos hplain,
      (takeWhile_goesOn hrest).1, (takeWhile_goesOn hrest).2, List.append_nil]
    exact ⟨hpart, rfl⟩
  · rintro ⟨hfirst, rfl⟩
    exact ⟨⟨_, List.takeWhile_append_dropWhile.symm, hfirst⟩, goesOn_dropWhile _⟩

/-- The keywords of join types. -/
def keywords : List String :=
  ["CROSS", "NATURAL", "INNER", "LEFT", "RIGHT", "FULL", "OUTER", "JOIN"]

theorem isLetter_of_keyword {word : String} (h : word ∈ keywords) :
    ∀ c ∈ word.toList, IsLetter c := by
  have hall : ∀ word ∈ keywords, word.toList.all (fun c => decide (IsLetter c)) = true := by decide
  intro c hc
  exact of_decide_eq_true (List.all_eq_true.mp (hall word h) c hc)

theorem toList_ne_nil_of_keyword {word : String} (h : word ∈ keywords) : word.toList ≠ [] :=
  (by decide : ∀ word ∈ keywords, word.toList ≠ []) word h

/-- At most one keyword can be read. -/
theorem keyword_eq_none {word other : String} {text rest : List Char} (hword : word ∈ keywords)
    (hother : other ∈ keywords) (h : keyword word text = some ((), rest)) (hne : other ≠ word) :
    keyword other text = none := by
  rw [Option.eq_none_iff_forall_ne_some]
  rintro ⟨⟨⟩, rest'⟩ h'
  rw [keyword_eq_some_iff (isLetter_of_keyword hword)] at h
  rw [keyword_eq_some_iff (isLetter_of_keyword hother)] at h'
  exact hne (String.toList_injective (h'.1.symm.trans h.1))

/-- No keyword is read from blanks. -/
theorem keyword_blank {word : String} {text : List Char} (hword : word ∈ keywords)
    (h : text.dropWhile isSeparator = []) : keyword word text = none := by
  rw [Option.eq_none_iff_forall_ne_some]
  rintro ⟨⟨⟩, rest⟩ hread
  rw [keyword_eq_some_iff (isLetter_of_keyword hword), firstWord, h] at hread
  exact toList_ne_nil_of_keyword hword hread.1.symm

/-- Keywords read one after another from the start of a text, and what is left of it. -/
inductive Reads : List String → List Char → List Char → Prop where
  | done {text : List Char} : Reads [] text text
  | word {word : String} {words : List String} {text between rest : List Char}
      (hword : keyword word text = some ((), between)) (hwords : Reads words between rest) :
      Reads (word :: words) text rest

namespace Reads

variable {words others : List String} {text between rest : List Char}

theorem single {word : String} (h : keyword word text = some ((), rest)) :
    Reads [word] text rest := .word h .done

theorem append (h : Reads words text between) (hothers : Reads others between rest) :
    Reads (words ++ others) text rest := by
  induction h with
  | done => exact hothers
  | word hword _ ih => exact .word hword (ih hothers)

theorem split (h : Reads (words ++ others) text rest) :
    ∃ between, Reads words text between ∧ Reads others between rest := by
  induction words generalizing text with
  | nil => exact ⟨text, .done, h⟩
  | cons word words ih =>
      cases h with
      | word hword hwords =>
          obtain ⟨between, hbefore, hbehind⟩ := ih hwords
          exact ⟨between, .word hword hbefore, hbehind⟩

end Reads

end Scan

/-! The words of a text. -/

/-- The words between blanks, as characters. -/
def textWords (text : List Char) : List (List Char) :=
  (partsWhere isSeparator text).filter fun part => !part.isEmpty

theorem textWords_separator {c : Char} (h : isSeparator c = true) (text : List Char) :
    textWords (c :: text) = textWords text := by
  rw [textWords, partsWhere, if_pos h]
  rfl

theorem textWords_dropWhile (text : List Char) :
    textWords (text.dropWhile isSeparator) = textWords text := by
  induction text with
  | nil => rfl
  | cons c text ih =>
      rw [List.dropWhile_cons]
      split
      · rename_i hc
        rw [ih, textWords_separator hc]
      · rfl

theorem textWords_append {part rest : List Char} (hne : part ≠ [])
    (hpart : ∀ c ∈ part, isSeparator c = false) (hrest : EndsPart rest) :
    textWords (part ++ rest) = part :: textWords rest := by
  have hkept : (!part.isEmpty) = true := by simpa using hne
  cases rest with
  | nil =>
      rw [List.append_nil, textWords, Text.partsWhere_of_uncut hpart, List.filter_cons,
        if_pos hkept]
      rfl
  | cons c rest =>
      have hc : isSeparator c = true := hrest c rfl
      rw [textWords_separator hc, textWords, Text.partsWhere_append_cut hpart hc,
        List.filter_cons, if_pos hkept]
      rfl

/-- A text without its first blanks is empty or goes on with its first word. -/
theorem textWords_cases (text : List Char) :
    (text.dropWhile isSeparator = [] ∧ textWords text = []) ∨
      ∃ part rest, text.dropWhile isSeparator = part ++ rest ∧ part ≠ [] ∧
        (∀ c ∈ part, isSeparator c = false) ∧ EndsPart rest ∧
        textWords text = part :: textWords rest := by
  rw [← textWords_dropWhile]
  cases hbody : text.dropWhile isSeparator with
  | nil => exact .inl ⟨rfl, rfl⟩
  | cons first body =>
      have hfirst : isSeparator first = false := by
        have hhead := List.head?_dropWhile_not isSeparator text
        simpa [hbody] using hhead
      let part := (first :: body).takeWhile fun c => !isSeparator c
      let rest := (first :: body).dropWhile fun c => !isSeparator c
      have hsplit : part ++ rest = first :: body := List.takeWhile_append_dropWhile
      have hne : part ≠ [] := by simp [part, hfirst]
      have hpart : ∀ c ∈ part, isSeparator c = false := by
        intro c hc
        simpa using List.mem_takeWhile_imp hc
      have hrest : EndsPart rest := by
        intro c hc
        have hhead := List.head?_dropWhile_not (fun c => !isSeparator c) (first :: body)
        rw [Option.mem_def] at hc
        simpa [rest, hc] using hhead
      exact .inr ⟨part, rest, hsplit.symm, hne, hpart, hrest,
        hsplit ▸ textWords_append hne hpart hrest⟩

theorem goesOn_of_endsPart {text : List Char} (h : EndsPart text) : Scan.goesOn text = false := by
  cases text with
  | nil => rfl
  | cons c text => simpa [Scan.goesOn] using isPlainChar_separator (h c rfl)

namespace Scan

variable {words : List String} {text rest : List Char}

/-- Where one keyword ends and the next one is read, or blanks are left, there is a blank. -/
theorem endsPart_of_reads (hgoesOn : goesOn text = false) (hwords : ∀ word ∈ words, word ∈ keywords)
    (h : Reads words text rest) (hrest : rest.dropWhile isSeparator = []) : EndsPart text := by
  -- A character that is neither a blank nor part of a word ends a keyword as well, but no other
  -- keyword starts with it, and it is not left at the end.
  intro c hc
  obtain ⟨others, rfl⟩ := List.head?_eq_some_iff.mp hc
  by_contra hseparator
  have hplain : isPlainChar c = false := by simpa [goesOn] using hgoesOn
  have hbody : (c :: others).dropWhile isSeparator = c :: others :=
    List.dropWhile_cons_of_neg hseparator
  cases h with
  | done =>
      rw [hbody] at hrest
      cases hrest
  | word hword hbehind =>
      rename_i word words between
      have hmem := hwords word List.mem_cons_self
      have hread := (keyword_eq_some_iff (isLetter_of_keyword hmem)).mp hword
      rw [firstWord, hbody, List.takeWhile_cons_of_neg (by simp [hplain])] at hread
      exact toList_ne_nil_of_keyword hmem hread.1.symm

/-- A keyword that is read up to the end of a word is the first word. -/
theorem textWords_of_keyword {word : String} (hword : word ∈ keywords)
    (h : keyword word text = some ((), rest)) (hends : EndsPart rest) :
    ∃ part, part.map Char.toUpper = word.toList ∧ textWords text = part :: textWords rest := by
  obtain ⟨hfirst, rfl⟩ := (keyword_eq_some_iff (isLetter_of_keyword hword)).mp h
  have hne : firstWord text ≠ [] := by
    intro hnil
    rw [hnil] at hfirst
    exact toList_ne_nil_of_keyword hword hfirst.symm
  have huncut : ∀ c ∈ firstWord text, isSeparator c = false := by
    intro c hc
    by_contra hseparator
    have hplain := List.mem_takeWhile_imp hc
    rw [isPlainChar_separator (by simpa using hseparator)] at hplain
    cases hplain
  have hbody : text.dropWhile isSeparator = firstWord text ++ behindWord text :=
    List.takeWhile_append_dropWhile.symm
  exact ⟨firstWord text, hfirst, by
    rw [← textWords_dropWhile, hbody, textWords_append hne huncut hends]⟩

/-- A keyword that is the first word is read. -/
theorem keyword_of_textWords {word : String} {part : List Char} {others : List (List Char)}
    (hword : word ∈ keywords) (h : textWords text = part :: others)
    (hpart : part.map Char.toUpper = word.toList) :
    ∃ rest, keyword word text = some ((), rest) ∧ textWords rest = others := by
  have hletters := isLetter_of_keyword hword
  obtain ⟨-, hnil⟩ | ⟨part', rest, hbody, -, -, hends, hparts⟩ := textWords_cases text
  · rw [hnil] at h
    cases h
  · obtain ⟨rfl, rfl⟩ := List.cons.inj (hparts.symm.trans h)
    have hplain : ∀ c ∈ part', isPlainChar c = true := fun c hc =>
      isPlainChar_of_toUpper (hletters _ (hpart ▸ List.mem_map_of_mem hc))
    have hrest := takeWhile_goesOn (goesOn_of_endsPart hends)
    refine ⟨rest, ?_, rfl⟩
    rw [keyword_eq_some_iff hletters, firstWord, behindWord, hbody,
      List.takeWhile_append_of_pos hplain, List.dropWhile_append_of_pos hplain, hrest.1, hrest.2,
      List.append_nil]
    exact ⟨hpart, rfl⟩

/-- Keywords can be read from a text up to blanks at its end if they are its words. -/
theorem reads_iff (hwords : ∀ word ∈ words, word ∈ keywords) :
    (∃ rest, Reads words text rest ∧ rest.dropWhile isSeparator = []) ↔
      (textWords text).map (·.map Char.toUpper) = words.map String.toList := by
  induction words generalizing text with
  | nil =>
      rw [List.map_nil, List.map_eq_nil_iff]
      constructor
      · rintro ⟨rest, h, hrest⟩
        cases h
        rw [← textWords_dropWhile, hrest]
        rfl
      · intro h
        obtain ⟨hblank, -⟩ | ⟨part, rest, -, -, -, -, hparts⟩ := textWords_cases text
        · exact ⟨text, .done, hblank⟩
        · rw [h] at hparts
          cases hparts
  | cons word words ih =>
      obtain ⟨hword, hothers⟩ := List.forall_mem_cons.mp hwords
      constructor
      · rintro ⟨rest, h, hrest⟩
        cases h with
        | word hread hreads =>
            have hends := endsPart_of_reads (goesOn_of_keyword hread) hothers hreads hrest
            obtain ⟨part, hpart, htext⟩ := textWords_of_keyword hword hread hends
            rw [htext, List.map_cons, List.map_cons, hpart, (ih hothers).mp ⟨rest, hreads, hrest⟩]
      · intro h
        rw [List.map_cons, List.map_eq_cons_iff] at h
        obtain ⟨part, others, htext, hpart, htail⟩ := h
        obtain ⟨between, hread, rfl⟩ := keyword_of_textWords hword htext hpart
        obtain ⟨rest, hreads, hrest⟩ := (ih hothers).mpr htail
        exact ⟨rest, .word hread hreads, hrest⟩

end Scan

end JoinType

end QueryCompiler
