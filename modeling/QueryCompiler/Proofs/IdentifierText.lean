import Mathlib.Tactic.FinCases
import Mathlib.Tactic.Tauto
import QueryCompiler.Field
import QueryCompiler.Text.Identifier
import QueryCompiler.Text.Parts

/-!
# Characters of identifiers

The names of functions are identifiers between dots and are written in upper case.
-/
namespace QueryCompiler.Text

theorem mem_partsWhere (cut : Char → Bool) {c : Char} (hc : cut c = false) {cs : List Char}
    (h : c ∈ cs) : ∃ part ∈ partsWhere cut cs, c ∈ part := by
  induction cs with
  | nil => exact absurd h List.not_mem_nil
  | cons first rest ih =>
      rw [partsWhere]
      split
      · rename_i hfirst
        have hne : c ≠ first := by
          rintro rfl
          simp [hc] at hfirst
        obtain ⟨part, hpart, hmem⟩ := ih (List.mem_of_ne_of_mem hne h)
        exact ⟨part, List.mem_cons_of_mem _ hpart, hmem⟩
      · obtain rfl | hrest := List.mem_cons.mp h
        · split
          · exact ⟨[c], List.mem_cons_self, List.mem_cons_self⟩
          · exact ⟨_, List.mem_cons_self, List.mem_cons_self⟩
        · obtain ⟨part, hpart, hmem⟩ := ih hrest
          split
          · rename_i hnil
            rw [hnil] at hpart
            exact absurd hpart List.not_mem_nil
          · rename_i head others hparts
            rw [hparts] at hpart
            obtain rfl | hothers := List.mem_cons.mp hpart
            · exact ⟨_, List.mem_cons_self, List.mem_cons_of_mem _ hmem⟩
            · exact ⟨part, List.mem_cons_of_mem _ hothers, hmem⟩

theorem partsWhere_ne_nil (cut : Char → Bool) (cs : List Char) : partsWhere cut cs ≠ [] := by
  cases cs with
  | nil => simp [partsWhere]
  | cons c rest =>
      rw [partsWhere]
      split
      · simp
      · split <;> simp

theorem partsWhere_of_uncut {cut : Char → Bool} {cs : List Char} (h : ∀ c ∈ cs, cut c = false) :
    partsWhere cut cs = [cs] := by
  induction cs with
  | nil => rfl
  | cons c rest ih =>
      rw [partsWhere, h c List.mem_cons_self, ih fun c hc => h c (List.mem_cons_of_mem _ hc)]
      rfl

theorem partsWhere_append_cut {cut : Char → Bool} {cs rest : List Char} {c : Char}
    (hcs : ∀ c ∈ cs, cut c = false) (hc : cut c = true) :
    partsWhere cut (cs ++ c :: rest) = cs :: partsWhere cut rest := by
  induction cs with
  | nil => rw [List.nil_append, partsWhere, if_pos hc]
  | cons first others ih =>
      rw [List.cons_append, partsWhere, hcs first List.mem_cons_self,
        ih fun c hc => hcs c (List.mem_cons_of_mem _ hc)]
      rfl

/-- A text that goes on with a separator, if at all. -/
def EndsPart (cs : List Char) : Prop := ∀ c ∈ cs.head?, isSeparator c = true

theorem cut_of_mem_partsWhere {cut : Char → Bool} {cs part : List Char}
    (h : part ∈ partsWhere cut cs) {c : Char} (hc : c ∈ part) : cut c = false := by
  induction cs generalizing part with
  | nil =>
      obtain rfl : part = [] := by simpa [partsWhere] using h
      exact absurd hc List.not_mem_nil
  | cons first rest ih =>
      rw [partsWhere] at h
      split at h
      · obtain rfl | hrest := List.mem_cons.mp h
        · exact absurd hc List.not_mem_nil
        · exact ih hrest hc
      · rename_i hfirst
        have hfirst : cut first = false := by simpa using hfirst
        split at h
        · obtain rfl := List.mem_singleton.mp h
          obtain rfl := List.mem_singleton.mp hc
          exact hfirst
        · rename_i head others hparts
          rw [hparts] at ih
          obtain rfl | hothers := List.mem_cons.mp h
          · obtain rfl | hmem := List.mem_cons.mp hc
            · exact hfirst
            · exact ih List.mem_cons_self hmem
          · exact ih (List.mem_cons_of_mem _ hothers) hc

theorem isIdentifierPart_of_start {c : Char} (h : isIdentifierStart c = true) :
    isIdentifierPart c = true := by
  simp only [isIdentifierStart, isIdentifierPart, Char.isAlphanum, Bool.or_eq_true] at h ⊢
  tauto

theorem isIdentifierPart_of_mem {name : String} (h : isIdentifier name = true) {c : Char}
    (hc : c ∈ name.toList) : isIdentifierPart c = true := by
  unfold isIdentifier at h
  split at h
  · cases h
  · rename_i first rest hcs
    rw [Bool.and_eq_true, List.all_eq_true] at h
    rw [hcs] at hc
    obtain rfl | hrest := List.mem_cons.mp hc
    · exact isIdentifierPart_of_start h.1
    · exact h.2 c hrest

/-- The upper case of a lower-case letter, by its number. -/
theorem toNat_toUpper {c : Char} (h : 97 ≤ c.toNat ∧ c.toNat ≤ 122) :
    c.toUpper.toNat = c.toNat - 32 := by
  have hlower : 'a'.val ≤ c.val ∧ c.val ≤ 'z'.val := by
    simpa [UInt32.le_iff_toNat_le] using h
  have hshift : ('A'.val - 'a'.val).toNat = 2 ^ 32 - 32 := by decide
  have hupper : c.toUpper = ⟨c.val + ('A'.val - 'a'.val), _⟩ := dif_pos hlower
  rw [hupper]
  change (c.val + ('A'.val - 'a'.val)).toNat = c.val.toNat - 32
  have hval : c.val.toNat = c.toNat := rfl
  rw [UInt32.toNat_add]
  omega

theorem toUpper_of_not_lower {c : Char} (h : ¬ (97 ≤ c.toNat ∧ c.toNat ≤ 122)) : c.toUpper = c := by
  have hlower : ¬ ('a'.val ≤ c.val ∧ c.val ≤ 'z'.val) := by
    simpa [UInt32.le_iff_toNat_le] using h
  exact dif_neg hlower

theorem toUpper_eq_iff {s word : String} :
    s.toUpper = word ↔ s.toList.map Char.toUpper = word.toList := by
  rw [← String.toList_inj, String.toUpper, String.toList_map]

theorem toUpper_toUpper (s : String) : s.toUpper.toUpper = s.toUpper := by
  have hchar : ∀ c : Char, c.toUpper.toUpper = c.toUpper := by
    intro c
    by_cases h : 97 ≤ c.toNat ∧ c.toNat ≤ 122
    · refine toUpper_of_not_lower ?_
      rw [toNat_toUpper h]
      omega
    · rw [toUpper_of_not_lower h, toUpper_of_not_lower h]
  apply String.toList_injective
  simp [String.toUpper, String.toList_map, Function.comp_def, hchar]

theorem isIdentifierPart_toUpper {c : Char} (h : isIdentifierPart c = true) :
    isIdentifierPart c.toUpper = true := by
  by_cases hlower : 97 ≤ c.toNat ∧ c.toNat ≤ 122
  · have hnat : c.toUpper.val.toNat = c.toNat - 32 := toNat_toUpper hlower
    have hupper : c.toUpper.isUpper = true := by
      refine decide_eq_true (?_ : 65 ≤ c.toUpper.val.toNat ∧ c.toUpper.val.toNat ≤ 90)
      omega
    have halpha : c.toUpper.isAlpha = true := Bool.or_eq_true_iff.mpr (.inl hupper)
    simp [isIdentifierPart, Char.isAlphanum, halpha]
  · rwa [toUpper_of_not_lower hlower]

/-- The characters of a dotted name. -/
theorem mem_dotted {name : String} (h : (dotParts name).all isIdentifier = true) {c : Char}
    (hc : c ∈ name.toList) : c = '.' ∨ isIdentifierPart c = true := by
  by_cases hdot : c = '.'
  · exact .inl hdot
  · have hcut : (c == '.') = false := by simpa using hdot
    obtain ⟨part, hpart, hmem⟩ := mem_partsWhere (· == '.') hcut hc
    have hpart := List.all_eq_true.mp h _ (List.mem_map_of_mem hpart)
    refine .inr (isIdentifierPart_of_mem hpart ?_)
    rwa [String.toList_ofList]

/-- The characters of an upper-cased name of a function. -/
theorem mem_toUpper_function {name : String} (h : (dotParts name).all isIdentifier = true) {c : Char}
    (hc : c ∈ name.toUpper.toList) : c = '.' ∨ isIdentifierPart c = true := by
  rw [String.toUpper, String.toList_map] at hc
  obtain ⟨original, horiginal, rfl⟩ := List.mem_map.mp hc
  obtain rfl | hpart := mem_dotted h horiginal
  · exact .inl rfl
  · exact .inr (isIdentifierPart_toUpper hpart)

/-- A name without dots is its only part. -/
theorem dotParts_of_undotted {name : String} (h : '.' ∉ name.toList) : dotParts name = [name] := by
  rw [dotParts, partsWhere_of_uncut, List.map_singleton, String.ofList_toList]
  intro c hc
  rw [beq_eq_false_iff_ne]
  rintro rfl
  exact h hc

theorem dotParts_identifier {name : String} (h : isIdentifier name = true) :
    dotParts name = [name] := by
  refine dotParts_of_undotted fun hdot => ?_
  exact absurd (isIdentifierPart_of_mem h hdot) (by decide)

end QueryCompiler.Text

namespace QueryCompiler

theorem isVerbatim_eq_false {token : String} : Field.isVerbatim token = false ↔
    (∀ c ∈ token.toList.head?, c ∉ ['"', '\x60', '\'']) ∧ '(' ∉ token.toList := by
  rw [Field.isVerbatim, Bool.or_eq_false_iff, Text.hasChar, Text.startsWithAny]
  refine and_congr ?_ (by simp)
  cases token.toList with
  | nil => simp
  | cons c rest => simp

/-- A name of identifiers between dots is a single token of a field. -/
theorem parse_dotted {name : String} (h : (Text.dotParts name).all Text.isIdentifier = true) :
    Field.parse name =
      if Field.isAs name then .error (.malformedField name) else .ok ⟨name, none⟩ := by
  have hchar : ∀ c, c = '.' ∨ Text.isIdentifierPart c = true →
      c ∉ [' ', '\t', '\r', '\n', '(', ')', '\'', '"', '\x60'] := by
    rintro c (rfl | hc) hmem
    · exact absurd hmem (by decide)
    · fin_cases hmem <;> revert hc <;> decide
  have hcut : ∀ cs : List Char, (∀ c ∈ cs, c = '.' ∨ Text.isIdentifierPart c = true) →
      Field.cut (.plain 0) cs = some [cs] := by
    intro cs hcs
    induction cs with
    | nil => rfl
    | cons c rest ih =>
        have hc := hchar c (hcs c List.mem_cons_self)
        simp only [List.mem_cons, List.not_mem_nil, or_false, not_or] at hc
        have hrest := ih fun c hc => hcs c (List.mem_cons_of_mem _ hc)
        rw [Field.cut]
        simp [Field.Place.isOpen, Text.isSeparator, Field.Place.next, Field.opensQuotes,
          Field.extendFirst, hc, hrest]
  have hne : name.toList ≠ [] := by
    intro hempty
    rw [Text.dotParts, hempty] at h
    exact absurd h (by decide)
  have htokens : Field.tokens? name = some [name] := by
    rw [Field.tokens?, hcut _ fun c hc => Text.mem_dotted h hc]
    simp [hne]
  rw [Field.parse, htokens, Option.bind_some, Field.named?]
  cases Field.isAs name <;> rfl

theorem parse_identifier {name : String} (h : Text.isIdentifier name = true) :
    Field.parse name =
      if Field.isAs name then .error (.malformedField name) else .ok ⟨name, none⟩ :=
  parse_dotted (by simp [Text.dotParts_identifier h, h])

end QueryCompiler
