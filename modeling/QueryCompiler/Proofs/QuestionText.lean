import QueryCompiler.Proofs.OwnText
import QueryCompiler.Proofs.PlaceholderScan

/-!
# The question marks of a text

Outside quotes a question mark asks for the next parameter. Which text stands in the place of which
question mark is said by a relation with one rule for each character, so that it can be put together
from texts that close their quotes, and read off the pieces of the scan.
-/
namespace QueryCompiler

open Text (isQuote openQuote)

/-- The question marks that stand outside quotes, if `quote` is open in front of a text. -/
def questionsFrom : Option Char → List Char → List String
  | _, [] => []
  | quote, c :: rest =>
    (if quote = none ∧ c = '?' then ["?"] else []) ++ questionsFrom (openQuote quote c) rest

/-- The question marks of a text outside quotes. -/
def questions (s : String) : List String := questionsFrom none s.toList

theorem questionsFrom_append (quote : Option Char) (a b : List Char) :
    questionsFrom quote (a ++ b) =
      questionsFrom quote a ++ questionsFrom (a.foldl openQuote quote) b := by
  induction a generalizing quote with
  | nil => rfl
  | cons c rest ih =>
      rw [List.cons_append, questionsFrom, questionsFrom, ih, List.append_assoc, List.foldl_cons]

theorem questions_append {s t : String} (hs : Closed s.toList) :
    questions (s ++ t) = questions s ++ questions t := by
  rw [questions, String.toList_append, questionsFrom_append, hs]
  rfl

theorem questions_of_unasking {s : String} (h : Unasking s) : questions s = [] := by
  have hfrom : ∀ (cs : List Char) (quote : Option Char), quietFrom isQuestion quote cs = true →
      questionsFrom quote cs = [] := by
    intro cs
    induction cs with
    | nil => exact fun _ _ => rfl
    | cons c rest ih =>
        intro quote h
        cases quote with
        | some q =>
            rw [questionsFrom, ih _ h]
            simp
        | none =>
            simp only [quietFrom, isQuestion, Bool.and_eq_true, Bool.not_eq_true',
              beq_eq_false_iff_ne] at h
            rw [questionsFrom, ih _ h.2]
            simp [h.1]
  exact hfrom s.toList none h

/-- A text with other texts in the place of its question marks outside quotes, one after another. -/
inductive Fills : Option Char → List String → List Char → List Char → Prop
  | done {quote : Option Char} : Fills quote [] [] []
  | question {text : String} {texts : List String} {cs filled : List Char}
      (next : Fills none texts cs filled) :
      Fills none (text :: texts) ('?' :: cs) (text.toList ++ filled)
  | char {quote : Option Char} {c : Char} {texts : List String} {cs filled : List Char}
      (hc : quote = none → c ≠ '?') (next : Fills (openQuote quote c) texts cs filled) :
      Fills quote texts (c :: cs) (c :: filled)

namespace Fills

variable {quote : Option Char} {texts texts' : List String} {cs cs' filled filled' : List Char}

theorem append (h : Fills quote texts cs filled)
    (h' : Fills (cs.foldl openQuote quote) texts' cs' filled') :
    Fills quote (texts ++ texts') (cs ++ cs') (filled ++ filled') := by
  induction h with
  | done => exact h'
  | question _ ih =>
      rw [List.append_assoc]
      exact .question (ih h')
  | char hc _ ih => exact .char hc (ih h')

/-- Every question mark may stand for itself. -/
theorem questions (quote : Option Char) (cs : List Char) :
    Fills quote (questionsFrom quote cs) cs cs := by
  induction cs generalizing quote with
  | nil => exact .done
  | cons c rest ih =>
      rw [questionsFrom]
      split
      · rename_i hmark
        obtain ⟨rfl, rfl⟩ := hmark
        exact .question (ih none)
      · rename_i hmark
        exact .char (fun hquote hc => hmark ⟨hquote, hc⟩) (ih _)

/-- Nothing happens to characters that neither ask nor quote. -/
theorem passed {front rest : List Char} (hfront : ∀ c ∈ front, c ≠ '?' ∧ isQuote c = false)
    (h : Fills none texts (front ++ rest) filled) :
    ∃ filled', filled = front ++ filled' ∧ Fills none texts rest filled' := by
  induction front generalizing filled with
  | nil => exact ⟨filled, rfl, h⟩
  | cons c front ih =>
      obtain ⟨⟨hmark, hquote⟩, hrest⟩ := List.forall_mem_cons.mp hfront
      cases h with
      | question => exact absurd rfl hmark
      | char _ next =>
          have hopen : openQuote none c = none := by simp [openQuote, hquote]
          rw [hopen] at next
          obtain ⟨filled', rfl, hfills⟩ := ih hrest next
          exact ⟨filled', rfl, hfills⟩

end Fills

namespace Piece

/-- The text of some pieces with other texts in the place of the question marks, one after
another. -/
def fill : List String → List Piece → List Char
  | _, [] => []
  | texts, char c :: rest => c :: fill texts rest
  | texts, named name :: rest => ':' :: name.toList ++ fill texts rest
  | texts, positional :: rest => (texts.headD "?").toList ++ fill texts.tail rest

theorem passed_name {name : String} (h : Text.isIdentifier name = true) :
    ∀ c ∈ ':' :: name.toList, c ≠ '?' ∧ isQuote c = false := by
  refine List.forall_mem_cons.mpr ⟨by decide, fun c hc => ?_⟩
  have hharmless := harmless_of_identifierPart (Text.isIdentifierPart_of_mem h hc)
  simp only [isHarmless, Bool.and_eq_true, bne_iff_ne, Bool.not_eq_true'] at hharmless
  exact ⟨hharmless.1.2, hharmless.2⟩

/-- The question marks that are filled are those that the scan finds. -/
theorem Scans.fill_eq {quote : Option Char} {cs filled : List Char} {ps : List Piece}
    {texts : List String} (h : Scans quote cs ps) (hfills : Fills quote texts cs filled) :
    ps.count .positional = texts.length ∧ fill texts ps = filled := by
  induction h generalizing texts filled with
  | done =>
      cases hfills
      exact ⟨rfl, rfl⟩
  | quoted _ ih =>
      cases hfills with
      | char _ next =>
          obtain ⟨hcount, rfl⟩ := ih next
          exact ⟨by simpa using hcount, rfl⟩
  | plain unmarked _ ih =>
      cases hfills with
      | question => exact absurd unmarked (by decide)
      | char _ next =>
          obtain ⟨hcount, rfl⟩ := ih next
          exact ⟨by simpa using hcount, rfl⟩
  | @cast rest _ _ ih =>
      obtain ⟨filled', rfl, next⟩ := @Fills.passed _ _ [':', ':'] rest (by simp [isQuote]) hfills
      obtain ⟨hcount, rfl⟩ := ih next
      exact ⟨by simpa using hcount, rfl⟩
  | @colon rest _ _ _ ih =>
      obtain ⟨filled', rfl, next⟩ := @Fills.passed _ _ [':'] rest (by simp [isQuote]) hfills
      obtain ⟨hcount, rfl⟩ := ih next
      exact ⟨by simpa using hcount, rfl⟩
  | named identifier _ _ ih =>
      obtain ⟨filled', rfl, next⟩ := hfills.passed (passed_name identifier)
      obtain ⟨hcount, rfl⟩ := ih next
      exact ⟨by simpa using hcount, rfl⟩
  | positional _ ih =>
      cases hfills with
      | question next =>
          obtain ⟨hcount, rfl⟩ := ih next
          exact ⟨by simpa using hcount, rfl⟩
      | char hc => exact absurd rfl (hc rfl)

/-- No name of a parameter is a number. -/
theorem isIdentifier_nat (n : Nat) : Text.isIdentifier (toString n) = false := by
  by_contra h
  obtain ⟨c, others, hname, hstart⟩ := exists_start (by simpa using h)
  have hdigits : (toString n).toList = Nat.toDigits 10 n := Nat.toList_repr
  have hmem : c ∈ Nat.toDigits 10 n := by simp [← hdigits, hname]
  have hdigit : c.isDigit = true := Nat.isDigit_of_mem_toDigits (by decide) (by decide) hmem
  have hsmall : c.val ≤ '9'.val := of_decide_eq_true (Bool.and_eq_true_iff.mp hdigit).2
  have hlarge : ∀ low : Char, '9'.val < low.val → ¬ low.val ≤ c.val := fun low hlow hle =>
    absurd (UInt32.le_trans hle hsmall) (UInt32.not_le.mpr hlow)
  obtain halpha | hline := Bool.or_eq_true_iff.mp hstart
  · obtain hupper | hlower := Bool.or_eq_true_iff.mp halpha
    · exact hlarge 'A' (by decide) (of_decide_eq_true hupper).1
    · exact hlarge 'a' (by decide) (of_decide_eq_true (Bool.and_eq_true_iff.mp hlower).1)
  · obtain rfl := beq_iff_eq.mp hline
    exact absurd hdigit (by decide)

/-- The question marks of a text are numbered from one on when it is prepared. -/
theorem Scans.numbers {quote : Option Char} {cs : List Char} {ps : List Piece}
    (h : Scans quote cs ps) (placeholder : Nat → String) (count marks : Nat) :
    (Prepared.write placeholder count marks ps).2.filter (fun name => !Text.isIdentifier name) =
      (List.range' (marks + 1) (ps.count .positional)).map toString := by
  induction h generalizing count marks with
  | done => rfl
  | quoted _ ih | plain _ _ ih | colon _ _ ih => simpa [Prepared.write] using ih count marks
  | cast _ ih => simpa [Prepared.write] using ih count marks
  | named identifier _ _ ih => simpa [Prepared.write, identifier] using ih (count + 1) marks
  | positional _ ih =>
      rw [List.count_cons_self, List.range'_succ, List.map_cons, ← ih (count + 1) (marks + 1)]
      exact List.filter_cons_of_pos (by rw [isIdentifier_nat, Bool.not_false])

example : fill [":x", ":y"] (ofText "a = ? OR b = '?' OR c = ?") =
    "a = :x OR b = '?' OR c = :y".toList := by
  decide

end Piece

end QueryCompiler
