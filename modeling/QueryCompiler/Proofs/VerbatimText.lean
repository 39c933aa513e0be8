import QueryCompiler.Proofs.PlaceholderScan
import QueryCompiler.Proofs.TokenText

/-!
# Text that is written as it stands

Strings and fields that the compiler does not quote are checked by a grammar of quotes and
parentheses and read later by the scan for placeholders. The two differ over the backtick: for the
scan it is always a quote, for the grammar only in a token outside parentheses. Where the others
come in pairs the scan is outside quotes again at the end of the text.
-/
namespace QueryCompiler

namespace Piece

open Text (openQuote)

variable {quote : Option Char} {cs : List Char} {ps : List Piece}

theorem Scans.quoteAfter_eq (h : Scans quote cs ps) :
    quoteAfter quote ps = cs.foldl openQuote quote := by
  induction h with
  | done => rfl
  | quoted _ ih | plain _ _ ih | colon _ _ ih => exact ih
  | cast _ ih | positional _ ih => exact ih
  | named identifier _ _ ih =>
      rw [List.foldl_append, closed_name identifier]
      exact ih

/-- Behind the text the scan is outside quotes, and it reads what follows as if that stood alone. -/
structure IsTransparent (text : String) : Prop where
  closed : quoteAfter none (ofText text) = none
  reads_on : ∀ rest : String, rest.toList.head? ≠ some ':' → Breaks rest.toList →
    ofText (text ++ rest) = ofText text ++ ofText rest

theorem isTransparent_of_closed {text : String} (h : Closed text.toList) : IsTransparent text where
  closed := (scans none text.toList).quoteAfter_eq.trans h
  reads_on rest hcolon hbreaks := by
    have hscans := (scans none text.toList).append h (scans none rest.toList) (fun _ => hcolon)
      hbreaks
    rw [ofText, String.toList_append]
    exact hscans.scan_eq

end Piece

namespace Field

open Text (isQuote openQuote)

/-- What the grammar accepts: a text in which everything is balanced, or a token of a text. -/
inductive Accepted : Bool → String → Prop
  | balanced {text : String} (h : isBalanced text = true) : Accepted false text
  | token (text : String) (tokens : List String) {token : String} (h : tokenize text = .ok tokens)
      (hmem : token ∈ tokens) : Accepted true token

theorem Accepted.closes {inToken : Bool} {text : String} (h : Accepted inToken text) :
    Closes inToken (.plain 0) text.toList := by
  cases h with
  | balanced h => exact closes_of_balanced (Bool.and_eq_true_iff.mp h).2
  | token _ _ h hmem =>
      unfold tokenize at h
      split at h
      · cases h
        exact closes_of_mem_tokens ‹_› hmem
      · cases h

/-- Whether the grammar takes a backtick for an ordinary character at this place. -/
def Place.tickIsPlain (inToken : Bool) : Place → Bool
  | plain depth => !opensQuotes inToken depth '\x60'
  | quoted _ _ => false

/-- Of the backticks of a text, the one behind each that the grammar takes for an ordinary
character is ordinary too: they come in pairs. `ticked` stands behind the first of a pair. -/
def pairsTicks (inToken : Bool) : Place → Bool → List Char → Bool
  | _, ticked, [] => !ticked
  | place, ticked, c :: rest =>
    match place.next inToken c with
    | none => false
    | some after =>
      if c ≠ '\x60' then pairsTicks inToken after ticked rest
      else if place.tickIsPlain inToken then pairsTicks inToken after (!ticked) rest
      else !ticked && pairsTicks inToken after false rest

/-- The quote that the scan has open at a place of the grammar. -/
def Place.scanned (ticked : Bool) (place : Place) : Option Char :=
  if ticked then some '\x60' else place.state.1

theorem openQuote_of_scanStep {s s' : Option Char × Nat} {c : Char} (h : scanStep s c = some s') :
    openQuote s.1 c = s'.1 := by
  obtain ⟨_ | quote, depth⟩ := s
  · simp only [scanStep] at h
    split at h
    · subst c
      cases h
      rfl
    · split at h
      · subst c
        split at h <;> cases h
        rfl
      · cases h
        rfl
  · cases h
    rfl

/-- A backtick that the grammar takes for an ordinary character leaves it where it is. -/
theorem next_of_tickIsPlain {inToken : Bool} {place : Place} (h : place.tickIsPlain inToken = true) :
    place.next inToken '\x60' = some place ∧ place.state.1 = none := by
  cases place with
  | quoted quote depth => cases h
  | plain depth =>
      have hopens : opensQuotes inToken depth '\x60' = false := by simpa [Place.tickIsPlain] using h
      simp [Place.next, hopens, Place.state]

/-- Every other backtick does what it does for the scan. -/
theorem next_of_not_tickIsPlain {inToken : Bool} {place : Place}
    (h : place.tickIsPlain inToken = false) :
    ∃ after, place.next inToken '\x60' = some after ∧
      openQuote place.state.1 '\x60' = after.state.1 := by
  cases place with
  | quoted quote depth =>
      refine ⟨_, rfl, ?_⟩
      by_cases hquote : '\x60' = quote
      · subst hquote
        rfl
      · simp only [Place.state, openQuote, hquote, if_false]
  | plain depth =>
      have hopens : opensQuotes inToken depth '\x60' = true := by simpa [Place.tickIsPlain] using h
      exact ⟨.quoted '\x60' depth, by simp [Place.next, hopens], rfl⟩

/-- Both scans take a step, and stand in the same quotes again, or the one for placeholders stands
behind a backtick that is the first of a pair. -/
theorem scanned_step {inToken : Bool} {place after : Place} {c : Char} {cs : List Char}
    (hnext : place.next inToken c = some after) {ticked : Bool}
    (hticks : pairsTicks inToken place ticked (c :: cs) = true) :
    ∃ ticked', pairsTicks inToken after ticked' cs = true ∧
      openQuote (place.scanned ticked) c = after.scanned ticked' := by
  simp only [pairsTicks, hnext] at hticks
  by_cases hc : c = '\x60'
  · subst hc
    simp only [ne_eq, not_true_eq_false, if_false] at hticks
    split at hticks
    · rename_i htick
      obtain ⟨hstay, hplain⟩ := next_of_tickIsPlain htick
      obtain rfl : place = after := by simpa [hstay] using hnext
      refine ⟨!ticked, hticks, ?_⟩
      cases ticked <;> simp [Place.scanned, hplain, openQuote, isQuote]
    · rename_i htick
      obtain ⟨hticked, hrest⟩ := Bool.and_eq_true_iff.mp hticks
      obtain rfl : ticked = false := by simpa using hticked
      obtain ⟨_, hafter, hopen⟩ := next_of_not_tickIsPlain (by simpa using htick)
      obtain rfl := Option.some.inj (hafter.symm.trans hnext)
      exact ⟨false, hrest, hopen⟩
  · rw [if_pos hc] at hticks
    refine ⟨ticked, hticks, ?_⟩
    cases ticked with
    | true => simp [Place.scanned, openQuote, hc]
    | false =>
        have hstep := @scanStep_state inToken _ hc place
        rw [hnext] at hstep
        exact openQuote_of_scanStep hstep

/-- At the end of what the grammar accepts the scan is outside quotes. -/
theorem Closes.scanned {inToken : Bool} {place : Place} {cs : List Char}
    (h : Closes inToken place cs) {ticked : Bool} (hticks : pairsTicks inToken place ticked cs = true) :
    cs.foldl openQuote (place.scanned ticked) = none := by
  induction h generalizing ticked with
  | nil closed =>
      obtain rfl := Place.eq_of_closed closed
      obtain rfl : ticked = false := by simpa [pairsTicks] using hticks
      rfl
  | @cons place after c cs step rest ih =>
      obtain ⟨ticked', hrest, hstep⟩ := scanned_step step hticks
      rw [List.foldl_cons, hstep]
      exact ih hrest

/-- Text that the grammar accepts never hides the placeholders behind it, if the backticks pair up
that the grammar takes for ordinary characters. -/
theorem Accepted.isTransparent {inToken : Bool} {text : String} (h : Accepted inToken text)
    (hticks : pairsTicks inToken (.plain 0) false text.toList = true) :
    Piece.IsTransparent text :=
  Piece.isTransparent_of_closed (h.closes.scanned hticks)

/-- A quoted column inside of a call. -/
theorem isTransparent_concat :
    Accepted true "CONCAT(\x60a\x60,'?')" ∧ Piece.IsTransparent "CONCAT(\x60a\x60,'?')" := by
  have haccepted : Accepted true "CONCAT(\x60a\x60,'?')" :=
    .token "CONCAT(\x60a\x60,'?') AS c" ["CONCAT(\x60a\x60,'?')", "AS", "c"] rfl List.mem_cons_self
  exact ⟨haccepted, haccepted.isTransparent (by decide)⟩

/-- A single backtick in parentheses is balanced and a token, and leaves the scan inside quotes. -/
theorem loneTick_opens :
    Accepted false "(\x60)" ∧ Accepted true "(\x60)" ∧
      Piece.quoteAfter none (Piece.ofText "(\x60)") = some '\x60' :=
  ⟨.balanced (by decide), .token "(\x60)" ["(\x60)"] rfl List.mem_cons_self, by decide⟩

end Field

end QueryCompiler
