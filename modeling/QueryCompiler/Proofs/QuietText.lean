import Mathlib.Logic.Basic
import QueryCompiler.Dialect.Identifier
import QueryCompiler.Proofs.QuotedText

/-!
# Quiet text

A reader of text outside quotes takes notice of some characters, the loud ones. A quiet text has
none of them outside quotes and closes every quote it opens, so it is passed over as a whole. What
is quoted is quiet whatever it holds.
-/
namespace QueryCompiler

open Text (isQuote openQuote)

def quietFrom (loud : Char → Bool) : Option Char → List Char → Bool
  | quote, [] => quote.isNone
  | some q, c :: rest => quietFrom loud (openQuote (some q) c) rest
  | none, c :: rest => !loud c && quietFrom loud (openQuote none c) rest

def Quiet (loud : Char → Bool) (s : String) : Prop := quietFrom loud none s.toList = true

instance (loud : Char → Bool) : DecidablePred (Quiet loud) := fun s =>
  inferInstanceAs (Decidable (quietFrom loud none s.toList = true))

variable {loud : Char → Bool}

theorem quietFrom_append {quote : Option Char} {a : List Char} (h : quietFrom loud quote a = true)
    (b : List Char) : quietFrom loud quote (a ++ b) = quietFrom loud none b := by
  induction a generalizing quote with
  | nil =>
      obtain rfl : quote = none := by simpa [quietFrom] using h
      rfl
  | cons c rest ih =>
      cases quote with
      | none =>
          simp only [quietFrom, Bool.and_eq_true] at h
          simp only [List.cons_append, quietFrom, h.1, Bool.true_and]
          exact ih h.2
      | some q => exact ih h

theorem Quiet.append {s t : String} (hs : Quiet loud s) (ht : Quiet loud t) :
    Quiet loud (s ++ t) := by
  rw [Quiet, String.toList_append, quietFrom_append hs]
  exact ht

theorem quiet_empty : Quiet loud "" := rfl

/-- Text without loud characters and without quotes. -/
theorem quiet_of_forall {s : String} (h : ∀ c ∈ s.toList, loud c = false ∧ isQuote c = false) :
    Quiet loud s := by
  have hfrom : ∀ cs : List Char, (∀ c ∈ cs, loud c = false ∧ isQuote c = false) →
      quietFrom loud none cs = true := by
    intro cs hcs
    induction cs with
    | nil => rfl
    | cons c rest ih =>
        obtain ⟨hloud, hquote⟩ := hcs c List.mem_cons_self
        simp only [quietFrom, openQuote, hloud, hquote, Bool.not_false, Bool.true_and,
          Bool.false_eq_true, if_false]
        exact ih fun c hc => hcs c (List.mem_cons_of_mem _ hc)
  exact hfrom s.toList h

theorem quiet_intercalate {separator : String} (hseparator : Quiet loud separator)
    {parts : List String} (h : ∀ part ∈ parts, Quiet loud part) :
    Quiet loud (separator.intercalate parts) := by
  induction parts with
  | nil => exact quiet_empty
  | cons part rest ih =>
      cases rest with
      | nil => simpa using h part List.mem_cons_self
      | cons next rest =>
          rw [String.intercalate_cons_cons]
          have hrest := ih fun part hpart => h part (List.mem_cons_of_mem _ hpart)
          exact ((h part List.mem_cons_self).append hseparator).append hrest

/-! Quoting. -/

/-- What a name is that needs no quotes. -/
theorem needsQuotes_eq_false_iff {name : String} : Identifier.needsQuotes name = false ↔
    Identifier.isReserved name = false ∧ name ≠ "" ∧
      (∀ c ∈ name.toList, Identifier.isPlainChar c = true) ∧
      Identifier.startsNumeric name = false := by
  simp [Identifier.needsQuotes, and_assoc]

section Quoting

variable {quote : Char} (hquote : isQuote quote = true) (hloud : loud quote = false)

include hquote hloud

/-- Doubled quotes inside quotes leave them open. -/
theorem quietFrom_run {cs : List Char} (h : QuotedRun quote cs) (rest : List Char) :
    quietFrom loud (some quote) (cs ++ rest) = quietFrom loud none rest := by
  have hopen : openQuote none quote = some quote := by simp [openQuote, hquote]
  have hclose : openQuote (some quote) quote = none := by simp [openQuote]
  induction h with
  | done => simp [quietFrom, hclose]
  | @char c _ other next ih =>
      have hstay : openQuote (some quote) c = some quote := by simp [openQuote, other]
      rw [List.cons_append, quietFrom, hstay, ih]
  | doubled next ih =>
      rw [List.cons_append, List.cons_append, quietFrom, hclose, quietFrom, hopen, hloud,
        Bool.not_false, Bool.true_and, ih]

/-- What stands in quotes is passed over. -/
theorem quiet_quoted {cs : List Char} (h : QuotedRun quote cs) :
    Quiet loud (String.ofList (quote :: cs)) := by
  have hopen : openQuote none quote = some quote := by simp [openQuote, hquote]
  have hend := quietFrom_run hquote hloud h []
  rw [List.append_nil] at hend
  rw [Quiet, String.toList_ofList, quietFrom, hopen, hloud, Bool.not_false, Bool.true_and, hend]
  rfl

theorem quiet_enclose (s : String) : Quiet loud (Text.enclose quote s) :=
  quiet_quoted hquote hloud (.enclosed quote s.toList)

theorem quiet_quotePart
    (hplain : ∀ c, Identifier.isPlainChar c = true → loud c = false ∧ isQuote c = false)
    (name : String) : Quiet loud (Identifier.quotePart quote name) := by
  unfold Identifier.quotePart
  split
  · exact quiet_enclose hquote hloud name
  · rename_i hneeds
    obtain ⟨-, -, hchars, -⟩ := needsQuotes_eq_false_iff.mp (Bool.eq_false_iff.mpr hneeds)
    exact quiet_of_forall fun c hc => hplain c (hchars c hc)

theorem quiet_quoteName
    (hplain : ∀ c, Identifier.isPlainChar c = true → loud c = false ∧ isQuote c = false)
    (hdot : loud '.' = false) (name : String) : Quiet loud (Identifier.quoteName quote name) := by
  refine quiet_intercalate (quiet_of_forall ?_) fun part hpart => ?_
  · rintro c hc
    obtain rfl : c = '.' := by simpa using hc
    exact ⟨hdot, rfl⟩
  · obtain ⟨name, _, rfl⟩ := List.mem_map.mp hpart
    exact quiet_quotePart hquote hloud hplain name

end Quoting

end QueryCompiler
