import Mathlib.Logic.Basic
import Mathlib.Tactic.ByContra
import Mathlib.Tactic.Tauto
import QueryCompiler.Dialect.Builtin
import QueryCompiler.Compile.Name
import QueryCompiler.Prepared
import QueryCompiler.Proofs.QuietText

/-!
# Text without placeholders

A calm text has no question mark and no colon outside quotes and closes every quote it opens, so
the scan for placeholders passes over it unchanged. What is quoted is calm whatever it holds, and
so are numbers and plain words.
-/
namespace QueryCompiler

open Text (isQuote openQuote)

/-- A character with which a placeholder may start. -/
def isMark (c : Char) : Bool := c == ':' || c == '?'

abbrev Calm (s : String) : Prop := Quiet isMark s

/-- The scan passes over a calm text. -/
theorem scan_quiet {quote : Option Char} {cs : List Char} (h : quietFrom isMark quote cs = true)
    (rest : List Char) :
    Piece.scan quote 0 (cs ++ rest) = cs.map Piece.char ++ Piece.scan none 0 rest := by
  induction cs generalizing quote with
  | nil =>
      obtain rfl : quote = none := by simpa [quietFrom] using h
      rfl
  | cons c cs ih =>
      cases quote with
      | none =>
          simp only [quietFrom, isMark, Bool.and_eq_true, Bool.not_eq_true', Bool.or_eq_false_iff,
            beq_eq_false_iff_ne] at h
          obtain ⟨⟨hcolon, hmark⟩, hrest⟩ := h
          simp only [List.cons_append, Piece.scan, hcolon, hmark, if_false, ih hrest, List.map_cons]
      | some q => simp only [List.cons_append, Piece.scan, ih h, List.map_cons]

theorem head_of_calm {s : String} (h : Calm s) : s.toList.head? ≠ some ':' := by
  rw [Calm, Quiet] at h
  cases hcs : s.toList with
  | nil => simp
  | cons c rest =>
      rw [hcs, quietFrom, Bool.and_eq_true] at h
      rintro hc
      obtain rfl : c = ':' := by simpa using hc
      exact absurd h.1 (by decide)

/-- A character that neither starts a placeholder nor opens quotes. -/
def isHarmless (c : Char) : Bool := c != ':' && c != '?' && !isQuote c

theorem unmarked_of_harmless {c : Char} (h : isHarmless c = true) :
    isMark c = false ∧ isQuote c = false := by
  simp only [isHarmless, Bool.and_eq_true, bne_iff_ne, Bool.not_eq_true'] at h
  simp [isMark, h]

theorem calm_of_harmless {s : String} (h : ∀ c ∈ s.toList, isHarmless c = true) : Calm s :=
  quiet_of_forall fun c hc => unmarked_of_harmless (h c hc)

/-- To be harmless is to differ from five characters. -/
theorem harmless_of {p : Char → Bool} (h : [':', '?', '\'', '"', '\x60'].any p = false)
    {c : Char} (hc : p c = true) : isHarmless c = true := by
  rw [List.any_eq_false] at h
  by_contra hharm
  have hmem : c ∈ [':', '?', '\'', '"', '\x60'] := by
    simp only [isHarmless, isQuote, Bool.and_eq_true, Bool.not_eq_true', Bool.or_eq_false_iff,
      bne_iff_ne, beq_eq_false_iff_ne, not_and_or, not_not] at hharm
    simp only [List.mem_cons, List.not_mem_nil, or_false]
    tauto
  exact h c hmem hc

theorem harmless_of_identifierPart {c : Char} (h : Text.isIdentifierPart c = true) :
    isHarmless c = true :=
  harmless_of (by decide) h

theorem harmless_of_plainChar {c : Char} (h : Identifier.isPlainChar c = true) :
    isHarmless c = true :=
  harmless_of (by decide) h

theorem harmless_of_digit {c : Char} (h : c.isDigit = true) : isHarmless c = true :=
  harmless_of (by decide) h

/-! Quoting. -/

theorem isMark_of_isQuote {quote : Char} (h : isQuote quote = true) : isMark quote = false := by
  by_contra hmark
  simp only [isMark, Bool.not_eq_false, Bool.or_eq_true, beq_iff_eq] at hmark
  obtain rfl | rfl := hmark <;> simp [isQuote] at h

theorem calm_enclose {quote : Char} (hquote : isQuote quote = true) (s : String) :
    Calm (Text.enclose quote s) :=
  quiet_enclose hquote (isMark_of_isQuote hquote) s

theorem calm_quoteName {quote : Char} (hquote : isQuote quote = true) (name : String) :
    Calm (Identifier.quoteName quote name) :=
  quiet_quoteName hquote (isMark_of_isQuote hquote)
    (fun _ hc => unmarked_of_harmless (harmless_of_plainChar hc)) rfl name

/-- A backslash is written as two, which changes nothing for the quotes. -/
theorem quotedRun_mysqlString (cs : List Char) : QuotedRun '\''
    ((cs.flatMap fun c => if c = '\\' ∨ c = '\'' then [c, c] else [c]) ++ ['\'']) := by
  refine .of_flatMap (by simp) (fun c hc => ?_) cs
  by_cases hslash : c = '\\'
  · simp [hslash]
  · simpa [hslash, hc] using Ne.symm hc

theorem quiet_mysqlString {loud : Char → Bool} (hloud : loud '\'' = false) (s : String) :
    Quiet loud (Dialect.mysqlString s) :=
  quiet_quoted rfl hloud (quotedRun_mysqlString s.toList)

theorem calm_mysqlString (s : String) : Calm (Dialect.mysqlString s) := quiet_mysqlString rfl s

/-! Numbers. -/

section Numbers

variable {loud : Char → Bool} (hdigit : ∀ c, c.isDigit = true → loud c = false ∧ isQuote c = false)

include hdigit

theorem quiet_digits {cs : List Char} {n : Nat} (h : ∀ c ∈ cs, c ∈ Nat.toDigits 10 n) :
    Quiet loud (String.ofList cs) := by
  refine quiet_of_forall fun c hc => hdigit c ?_
  rw [String.toList_ofList] at hc
  exact Nat.isDigit_of_mem_toDigits (by decide) (by decide) (h c hc)

theorem quiet_nat (n : Nat) : Quiet loud (toString n) := by
  have hdigits := quiet_digits hdigit fun c (hc : c ∈ Nat.toDigits 10 n) => hc
  rwa [← Nat.toList_repr, String.ofList_toList] at hdigits

theorem quiet_int (hminus : Quiet loud "-") (n : Int) : Quiet loud (toString n) := by
  change Quiet loud n.repr
  rw [Int.repr_eq_if]
  split
  · exact quiet_nat hdigit _
  · exact hminus.append (quiet_nat hdigit _)

theorem quiet_zeros (n : Nat) : Quiet loud (Decimal.zeros n) := by
  refine quiet_of_forall fun c hc => ?_
  rw [Decimal.zeros, String.toList_ofList] at hc
  obtain rfl := List.eq_of_mem_replicate hc
  exact hdigit '0' rfl

theorem quiet_positional (hpoint : Quiet loud ".") (d : Decimal.Scaled) :
    Quiet loud (d.positional false) := by
  unfold Decimal.Scaled.positional
  have hall : Quiet loud (String.ofList (Nat.toDigits 10 d.digits)) :=
    quiet_digits hdigit fun _ h => h
  split
  · exact (hall.append (quiet_zeros hdigit _)).append quiet_empty
  · simp only
    split
    · refine Quiet.append (Quiet.append ?_ hpoint) ?_
      · exact quiet_digits hdigit fun _ h => List.mem_of_mem_take h
      · exact quiet_digits hdigit fun _ h => List.mem_of_mem_drop h
    · have hzero : Quiet loud ("0" ++ ".") := (quiet_zeros hdigit 1).append hpoint
      exact (hzero.append (quiet_zeros hdigit _)).append hall

theorem quiet_floatText (hminus : Quiet loud "-") (hpoint : Quiet loud ".")
    (hwords : ∀ word ∈ ["NaN", "inf", "-inf"], Quiet loud word) (x : Float) :
    Quiet loud (Decimal.floatText x) := by
  unfold Decimal.floatText
  split
  · exact hwords _ (by simp)
  · split
    · split <;> exact hwords _ (by simp)
    · simp only [Decimal.Style.finite, Decimal.sqlStyle]
      split
      · exact hminus.append (quiet_positional hdigit hpoint _)
      · exact quiet_positional hdigit hpoint _

end Numbers

theorem unmarked_of_digit (c : Char) (h : c.isDigit = true) : isMark c = false ∧ isQuote c = false :=
  unmarked_of_harmless (harmless_of_digit h)

theorem calm_nat (n : Nat) : Calm (toString n) := quiet_nat unmarked_of_digit n

theorem calm_int (n : Int) : Calm (toString n) := quiet_int unmarked_of_digit (by decide) n

theorem calm_floatText (x : Float) : Calm (Decimal.floatText x) :=
  quiet_floatText unmarked_of_digit (by decide) (by decide) (by decide) x

end QueryCompiler
