import QueryCompiler.Field
import QueryCompiler.Proofs.SealedText

/-!
# Tokens and balanced texts

A field is cut into tokens at the blanks outside quotes and parentheses, and a string is written as
it stands only if its quotes and parentheses match. Both checks follow a text as the scan does, but
for the backtick, which opens quotes in a token outside parentheses only.
-/
namespace QueryCompiler.Field

open Text (isQuote openQuote)

/-- The open quote and the number of open parentheses at a place. -/
def Place.state : Place → Option Char × Nat
  | plain depth => (none, depth)
  | quoted quote depth => (some quote, depth)

theorem Place.eq_of_closed {place : Place} (h : place.isOpen = false) : place = plain 0 := by
  match place, h with
  | plain 0, _ => rfl

theorem scanStep_state {inToken : Bool} {c : Char} (hc : c ≠ '\x60') (place : Place) :
    scanStep place.state c = (place.next inToken c).map Place.state := by
  cases place with
  | quoted quote depth =>
      simp only [Place.state, Place.next, scanStep, openQuote]
      split <;> rfl
  | plain depth =>
      simp only [Place.state, Place.next, scanStep]
      split
      · rfl
      · split
        · split <;> rfl
        · rename_i hopen hclose
          have hquote : opensQuotes inToken depth c = isQuote c := by
            have htick : (c == '\x60') = false := beq_false_of_ne hc
            simp [opensQuotes, isQuote, htick]
          rw [hquote, openQuote]
          split <;> rfl

/-- A text leads from a place to one where nothing is open. -/
inductive Closes (inToken : Bool) : Place → List Char → Prop
  | nil {place : Place} (closed : place.isOpen = false) : Closes inToken place []
  | cons {place after : Place} {c : Char} {cs : List Char}
      (step : place.next inToken c = some after) (rest : Closes inToken after cs) :
      Closes inToken place (c :: cs)

theorem closes_of_balanced {place : Place} {cs : List Char} (h : balancedFrom place cs = true) :
    Closes false place cs := by
  induction cs generalizing place with
  | nil => exact .nil (by simpa [balancedFrom] using h)
  | cons c rest ih =>
      rw [balancedFrom] at h
      cases hnext : place.next false c with
      | none => simp [hnext] at h
      | some after => exact .cons hnext (ih (by simpa [hnext] using h))

/-- Cutting goes on with the token that a place stands in, and every other token is whole. -/
theorem closes_of_cut {place : Place} {cs : List Char} {tokens : List (List Char)}
    (h : cut place cs = some tokens) :
    ∃ token rest, tokens = token :: rest ∧ Closes true place token ∧
      ∀ token ∈ rest, Closes true (.plain 0) token := by
  induction cs generalizing place tokens with
  | nil =>
      rw [cut] at h
      split at h
      · cases h
      · cases h
        exact ⟨[], [], rfl, .nil (by simpa using ‹¬ place.isOpen = true›),
          fun _ hmem => absurd hmem List.not_mem_nil⟩
  | cons c cs ih =>
      rw [cut] at h
      split at h
      · rename_i hblank
        obtain ⟨others, hothers, rfl⟩ := Option.map_eq_some_iff.mp h
        have hclosed : place.isOpen = false := by
          simpa using (Bool.and_eq_true_iff.mp hblank).1
        obtain rfl := Place.eq_of_closed hclosed
        obtain ⟨token, rest, rfl, htoken, hrest⟩ := ih hothers
        exact ⟨[], token :: rest, rfl, .nil hclosed, List.forall_mem_cons.mpr ⟨htoken, hrest⟩⟩
      · obtain ⟨after, hnext, hcut⟩ := Option.bind_eq_some_iff.mp h
        obtain ⟨others, hothers, rfl⟩ := Option.map_eq_some_iff.mp hcut
        obtain ⟨token, rest, rfl, htoken, hrest⟩ := ih hothers
        exact ⟨c :: token, rest, rfl, .cons hnext htoken, hrest⟩

theorem closes_of_mem_tokens {text : String} {tokens : List String}
    (h : tokens? text = some tokens) {token : String} (hmem : token ∈ tokens) :
    Closes true (.plain 0) token.toList := by
  obtain ⟨parts, hcut, rfl⟩ := Option.map_eq_some_iff.mp h
  obtain ⟨part, hpart, rfl⟩ := List.mem_map.mp hmem
  obtain ⟨first, rest, rfl, hfirst, hrest⟩ := closes_of_cut hcut
  rw [String.toList_ofList]
  exact List.forall_mem_cons.mpr ⟨hfirst, hrest⟩ part (List.mem_filter.mp hpart).1

/-- Without backticks both scans go the same way. -/
theorem Closes.spans {inToken : Bool} {place : Place} {cs : List Char}
    (h : Closes inToken place cs) (hticks : '\x60' ∉ cs) :
    cs.foldlM scanStep place.state = some (none, 0) := by
  induction h with
  | nil closed =>
      rw [Place.eq_of_closed closed]
      rfl
  | cons step _ ih =>
      obtain ⟨hc, hcs⟩ := not_or.mp (List.mem_cons.not.mp hticks)
      rw [List.foldlM_cons, scanStep_state (Ne.symm hc), step]
      exact ih hcs

/-- Without backticks a balanced text is sealed. -/
theorem isSealed_of_isBalanced {s : String} (h : isBalanced s = true) (hticks : '\x60' ∉ s.toList) :
    IsSealed s :=
  (closes_of_balanced (Bool.and_eq_true_iff.mp h).2).spans hticks

/-- Without backticks a token is sealed. -/
theorem isSealed_of_mem_tokens {text : String} {tokens : List String}
    (h : tokens? text = some tokens) {token : String} (hmem : token ∈ tokens)
    (hticks : '\x60' ∉ token.toList) : IsSealed token :=
  (closes_of_mem_tokens h hmem).spans hticks

/-- The name of a field is one of its tokens. -/
theorem name_mem_tokens {text : String} {f : Named} (h : parse text = .ok f) :
    ∃ tokens, tokens? text = some tokens ∧ f.name ∈ tokens := by
  unfold parse at h
  cases htokens : tokens? text with
  | none => simp [htokens] at h
  | some tokens =>
      refine ⟨tokens, rfl, ?_⟩
      rw [htokens, Option.bind_some] at h
      unfold named? at h
      split at h
      · rename_i hnamed
        split at hnamed
        all_goals first
          | split at hnamed <;> cases hnamed <;> cases h <;> exact List.mem_cons_self
          | cases hnamed
      · cases h

end QueryCompiler.Field
