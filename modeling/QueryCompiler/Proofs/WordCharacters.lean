import QueryCompiler.Dialect.Identifier

/-!
# The characters of a word

A bare word is made of letters, digits and underscores. Letters are those of ASCII and, beyond
ASCII, the characters with the property Alphabetic; digits are the decimal digits of all scripts.
Names are written bare by a wider test, which takes every numeral: superscripts, fractions and
enclosed numbers pass it too and are none of these.
-/
namespace QueryCompiler.Text

/-- A numeral is a decimal digit (general category Nd), a letter that stands for a number (Nl), or
another character with a numeric value (No). -/
inductive NumeralKind where
  | decimal
  | letter
  | other
  deriving DecidableEq

/-- The ranges of the three categories, in ascending order. -/
def numeralRanges : List (NumeralKind × Nat × Nat) := [
   (.decimal, 0x30, 0x39), (.other, 0xb2, 0xb3), (.other, 0xb9, 0xb9), (.other, 0xbc, 0xbe),
   (.decimal, 0x660, 0x669), (.decimal, 0x6f0, 0x6f9), (.decimal, 0x7c0, 0x7c9),
   (.decimal, 0x966, 0x96f), (.decimal, 0x9e6, 0x9ef), (.other, 0x9f4, 0x9f9),
   (.decimal, 0xa66, 0xa6f), (.decimal, 0xae6, 0xaef), (.decimal, 0xb66, 0xb6f),
   (.other, 0xb72, 0xb77), (.decimal, 0xbe6, 0xbef), (.other, 0xbf0, 0xbf2),
   (.decimal, 0xc66, 0xc6f), (.other, 0xc78, 0xc7e), (.decimal, 0xce6, 0xcef),
   (.other, 0xd58, 0xd5e), (.decimal, 0xd66, 0xd6f), (.other, 0xd70, 0xd78),
   (.decimal, 0xde6, 0xdef), (.decimal, 0xe50, 0xe59), (.decimal, 0xed0, 0xed9),
   (.decimal, 0xf20, 0xf29), (.other, 0xf2a, 0xf33), (.decimal, 0x1040, 0x1049),
   (.decimal, 0x1090, 0x1099), (.other, 0x1369, 0x137c), (.letter, 0x16ee, 0x16f0),
   (.decimal, 0x17e0, 0x17e9), (.other, 0x17f0, 0x17f9), (.decimal, 0x1810, 0x1819),
   (.decimal, 0x1946, 0x194f), (.decimal, 0x19d0, 0x19d9), (.other, 0x19da, 0x19da),
   (.decimal, 0x1a80, 0x1a89), (.decimal, 0x1a90, 0x1a99), (.decimal, 0x1b50, 0x1b59),
   (.decimal, 0x1bb0, 0x1bb9), (.decimal, 0x1c40, 0x1c49), (.decimal, 0x1c50, 0x1c59),
   (.other, 0x2070, 0x2070), (.other, 0x2074, 0x2079), (.other, 0x2080, 0x2089),
   (.other, 0x2150, 0x215f), (.letter, 0x2160, 0x2182), (.letter, 0x2185, 0x2188),
   (.other, 0x2189, 0x2189), (.other, 0x2460, 0x249b), (.other, 0x24ea, 0x24ff),
   (.other, 0x2776, 0x2793), (.other, 0x2cfd, 0x2cfd), (.letter, 0x3007, 0x3007),
   (.letter, 0x3021, 0x3029), (.letter, 0x3038, 0x303a), (.other, 0x3192, 0x3195),
   (.other, 0x3220, 0x3229), (.other, 0x3248, 0x324f), (.other, 0x3251, 0x325f),
   (.other, 0x3280, 0x3289), (.other, 0x32b1, 0x32bf), (.decimal, 0xa620, 0xa629),
   (.letter, 0xa6e6, 0xa6ef), (.other, 0xa830, 0xa835), (.decimal, 0xa8d0, 0xa8d9),
   (.decimal, 0xa900, 0xa909), (.decimal, 0xa9d0, 0xa9d9), (.decimal, 0xa9f0, 0xa9f9),
   (.decimal, 0xaa50, 0xaa59), (.decimal, 0xabf0, 0xabf9), (.decimal, 0xff10, 0xff19),
   (.other, 0x10107, 0x10133), (.letter, 0x10140, 0x10174), (.other, 0x10175, 0x10178),
   (.other, 0x1018a, 0x1018b), (.other, 0x102e1, 0x102fb), (.other, 0x10320, 0x10323),
   (.letter, 0x10341, 0x10341), (.letter, 0x1034a, 0x1034a), (.letter, 0x103d1, 0x103d5),
   (.decimal, 0x104a0, 0x104a9), (.other, 0x10858, 0x1085f), (.other, 0x10879, 0x1087f),
   (.other, 0x108a7, 0x108af), (.other, 0x108fb, 0x108ff), (.other, 0x10916, 0x1091b),
   (.other, 0x109bc, 0x109bd), (.other, 0x109c0, 0x109cf), (.other, 0x109d2, 0x109ff),
   (.other, 0x10a40, 0x10a48), (.other, 0x10a7d, 0x10a7e), (.other, 0x10a9d, 0x10a9f),
   (.other, 0x10aeb, 0x10aef), (.other, 0x10b58, 0x10b5f), (.other, 0x10b78, 0x10b7f),
   (.other, 0x10ba9, 0x10baf), (.other, 0x10cfa, 0x10cff), (.decimal, 0x10d30, 0x10d39),
   (.decimal, 0x10d40, 0x10d49), (.other, 0x10e60, 0x10e7e), (.other, 0x10f1d, 0x10f26),
   (.other, 0x10f51, 0x10f54), (.other, 0x10fc5, 0x10fcb), (.other, 0x11052, 0x11065),
   (.decimal, 0x11066, 0x1106f), (.decimal, 0x110f0, 0x110f9), (.decimal, 0x11136, 0x1113f),
   (.decimal, 0x111d0, 0x111d9), (.other, 0x111e1, 0x111f4), (.decimal, 0x112f0, 0x112f9),
   (.decimal, 0x11450, 0x11459), (.decimal, 0x114d0, 0x114d9), (.decimal, 0x11650, 0x11659),
   (.decimal, 0x116c0, 0x116c9), (.decimal, 0x116d0, 0x116e3), (.decimal, 0x11730, 0x11739),
   (.other, 0x1173a, 0x1173b), (.decimal, 0x118e0, 0x118e9), (.other, 0x118ea, 0x118f2),
   (.decimal, 0x11950, 0x11959), (.decimal, 0x11bf0, 0x11bf9), (.decimal, 0x11c50, 0x11c59),
   (.other, 0x11c5a, 0x11c6c), (.decimal, 0x11d50, 0x11d59), (.decimal, 0x11da0, 0x11da9),
   (.decimal, 0x11f50, 0x11f59), (.other, 0x11fc0, 0x11fd4), (.letter, 0x12400, 0x1246e),
   (.decimal, 0x16130, 0x16139), (.decimal, 0x16a60, 0x16a69), (.decimal, 0x16ac0, 0x16ac9),
   (.decimal, 0x16b50, 0x16b59), (.other, 0x16b5b, 0x16b61), (.decimal, 0x16d70, 0x16d79),
   (.other, 0x16e80, 0x16e96), (.decimal, 0x1ccf0, 0x1ccf9), (.other, 0x1d2c0, 0x1d2d3),
   (.other, 0x1d2e0, 0x1d2f3), (.other, 0x1d360, 0x1d378), (.decimal, 0x1d7ce, 0x1d7ff),
   (.decimal, 0x1e140, 0x1e149), (.decimal, 0x1e2f0, 0x1e2f9), (.decimal, 0x1e4f0, 0x1e4f9),
   (.decimal, 0x1e5f1, 0x1e5fa), (.other, 0x1e8c7, 0x1e8cf), (.decimal, 0x1e950, 0x1e959),
   (.other, 0x1ec71, 0x1ecab), (.other, 0x1ecad, 0x1ecaf), (.other, 0x1ecb1, 0x1ecb4),
   (.other, 0x1ed01, 0x1ed2d), (.other, 0x1ed2f, 0x1ed3d), (.other, 0x1f100, 0x1f10c),
   (.decimal, 0x1fbf0, 0x1fbf9)
  ]

/-- The kind of the first range that ends at or after a code point, if it is in it. -/
def kindIn (n : Nat) : List (NumeralKind × Nat × Nat) → Option NumeralKind
  | [] => none
  | (kind, low, high) :: rest =>
    if high < n then kindIn n rest else if low ≤ n then some kind else none

def numeralKind? (c : Char) : Option NumeralKind := kindIn c.toNat numeralRanges

def isLetter (c : Char) : Bool :=
  numeralKind? c == some .letter || if c.toNat < 128 then c.isAlpha else isAlphabetic c

def isDecimalDigit (c : Char) : Bool := numeralKind? c == some .decimal

def isOtherNumeral (c : Char) : Bool := numeralKind? c == some .other

/-- The characters with which a bare word goes on. -/
def isWordChar (c : Char) : Bool := isLetter c || isDecimalDigit c || c == '_'

/-! The ranges hold exactly the numerals. -/

theorem exists_range_of_inRanges {n : Nat} {ranges : List (Nat × Nat)}
    (h : inRanges n ranges = true) : ∃ range ∈ ranges, range.1 ≤ n ∧ n ≤ range.2 := by
  induction ranges with
  | nil => cases h
  | cons range rest ih =>
      rw [inRanges] at h
      split at h
      · obtain ⟨range', hmem, hrange⟩ := ih h
        exact ⟨range', List.mem_cons_of_mem _ hmem, hrange⟩
      · exact ⟨range, List.mem_cons_self, of_decide_eq_true h, by omega⟩

/-- Whether ascending ranges cover all from one code point to another. -/
def covers (low high : Nat) : List (NumeralKind × Nat × Nat) → Bool
  | [] => high < low
  | (_, first, last) :: rest =>
    if last < low then covers low high rest
    else high < low || first ≤ low && covers (last + 1) high rest

theorem kindIn_of_covers {low high : Nat} {ranges : List (NumeralKind × Nat × Nat)}
    (h : covers low high ranges = true) {n : Nat} (hlow : low ≤ n) (hhigh : n ≤ high) :
    ∃ kind, kindIn n ranges = some kind := by
  induction ranges generalizing low with
  | nil =>
      have hempty : high < low := of_decide_eq_true h
      omega
  | cons range rest ih =>
      rw [covers] at h
      rw [kindIn]
      split at h
      · rw [if_pos (by omega)]
        exact ih h hlow
      · simp only [Bool.or_eq_true, Bool.and_eq_true, decide_eq_true_eq] at h
        obtain ⟨hfirst, hrest⟩ := h.resolve_left (by omega)
        split
        · exact ih hrest (by omega)
        · exact ⟨range.1, if_pos (by omega)⟩

theorem exists_range_of_kindIn {n : Nat} {kind : NumeralKind}
    {ranges : List (NumeralKind × Nat × Nat)} (h : kindIn n ranges = some kind) :
    ∃ low high, (kind, low, high) ∈ ranges ∧ low ≤ n ∧ n ≤ high := by
  induction ranges with
  | nil => cases h
  | cons range rest ih =>
      obtain ⟨found, first, last⟩ := range
      rw [kindIn] at h
      split at h
      · obtain ⟨low, high, hmem, hrange⟩ := ih h
        exact ⟨low, high, List.mem_cons_of_mem _ hmem, hrange⟩
      · rw [Option.ite_none_right_eq_some, Option.some.injEq] at h
        obtain ⟨hfirst, rfl⟩ := h
        exact ⟨first, last, List.mem_cons_self, hfirst, by omega⟩

/-- Whether ascending ranges leave out all from one code point to another. -/
def leavesOut (low high : Nat) : List (Nat × Nat) → Bool
  | [] => true
  | (first, last) :: rest =>
    if last < low then leavesOut low high rest else high < first && first ≤ last

theorem inRanges_of_leavesOut {low high : Nat} {ranges : List (Nat × Nat)}
    (h : leavesOut low high ranges = true) {n : Nat} (hlow : low ≤ n) (hhigh : n ≤ high) :
    inRanges n ranges = false := by
  induction ranges with
  | nil => rfl
  | cons range rest ih =>
      rw [leavesOut] at h
      rw [inRanges]
      split at h
      · rw [if_pos (by omega), ih h]
      · simp only [Bool.and_eq_true, decide_eq_true_eq] at h
        rw [if_neg (by omega)]
        exact decide_eq_false (by omega)

variable {c : Char}

theorem numeralKind?_of_isNumeric (h : isNumeric c = true) :
    ∃ kind, numeralKind? c = some kind := by
  have hall : numericRanges.all (fun range => covers range.1 range.2 numeralRanges) = true := by
    decide +kernel
  obtain ⟨range, hmem, hlow, hhigh⟩ := exists_range_of_inRanges h
  exact kindIn_of_covers (List.all_eq_true.mp hall range hmem) hlow hhigh

/-! A character that is written bare belongs to a word unless it is one of the other numerals. -/

theorem isLetter_of_isAlphabetic (h : isAlphabetic c = true) : isLetter c = true := by
  have hascii : ∀ n < 128, isAlphabetic (Char.ofNat n) = true → (Char.ofNat n).isAlpha = true := by
    decide +kernel
  rw [isLetter, Bool.or_eq_true]
  right
  split
  · rename_i hsmall
    have halpha := hascii c.toNat hsmall
    rw [Char.ofNat_toNat] at halpha
    exact halpha h
  · exact h

/-- The other numerals begin beyond ASCII, and none of them is alphabetic. -/
theorem not_isAlphabetic_of_isOtherNumeral (h : isOtherNumeral c = true) :
    128 ≤ c.toNat ∧ isAlphabetic c = false := by
  have hall : numeralRanges.all (fun (kind, low, high) =>
      kind != .other || 128 ≤ low && leavesOut low high alphabeticRanges) = true := by
    decide +kernel
  obtain ⟨low, high, hmem, hlow, hhigh⟩ := exists_range_of_kindIn (beq_iff_eq.mp h)
  have hrange := List.all_eq_true.mp hall _ hmem
  simp only [bne_self_eq_false, Bool.false_or, Bool.and_eq_true, decide_eq_true_eq] at hrange
  obtain ⟨hbeyond, hleft⟩ := hrange
  exact ⟨by omega, inRanges_of_leavesOut hleft hlow hhigh⟩

theorem isWordChar_eq (h : Identifier.isPlainChar c = true) :
    isWordChar c = !isOtherNumeral c := by
  cases hother : isOtherNumeral c with
  | true =>
      obtain ⟨hbeyond, halphabetic⟩ := not_isAlphabetic_of_isOtherNumeral hother
      have hkind : numeralKind? c = some .other := beq_iff_eq.mp hother
      have hascii : ¬ c.toNat < 128 := Nat.not_lt.mpr hbeyond
      have hunderscore : c ≠ '_' := by
        rintro rfl
        simp at hbeyond
      simp [isWordChar, isLetter, isDecimalDigit, hkind, hascii, halphabetic, hunderscore]
  | false =>
      simp only [Identifier.isPlainChar, isAlphanumeric, Bool.or_eq_true] at h
      rcases h with (halphabetic | hnumeric) | hunderscore
      · simp [isWordChar, isLetter_of_isAlphabetic halphabetic]
      · obtain ⟨kind, hkind⟩ := numeralKind?_of_isNumeric hnumeric
        cases kind with
        | decimal => simp [isWordChar, isDecimalDigit, hkind]
        | letter => simp [isWordChar, isLetter, hkind]
        | other => simp [isOtherNumeral, hkind] at hother
      · simp [isWordChar, hunderscore]

end QueryCompiler.Text
