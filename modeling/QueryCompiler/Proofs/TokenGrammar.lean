import Mathlib.Tactic.Tauto
import QueryCompiler.Proofs.SpacedTokens

/-!
# The grammar of tokens

A token is one or more runs of quoted text, groups in parentheses and other characters. A quote is
written twice inside its quotes; a group may hold quoted text and further groups. The scan that cuts
a text knows a place only, not how it came there; it passes over exactly the texts of this grammar.
-/
namespace QueryCompiler.Field

open Text (isSeparator)

/-- What may stand between two quotes. -/
inductive QuotedBody (quote : Char) : List Char → Prop where
  | nil : QuotedBody quote []
  | other {c : Char} {body : List Char} (hc : c ≠ quote) (h : QuotedBody quote body) :
      QuotedBody quote (c :: body)
  | doubled {body : List Char} (h : QuotedBody quote body) :
      QuotedBody quote (quote :: quote :: body)

/-- What may stand between two parentheses. -/
inductive GroupBody : List Char → Prop where
  | nil : GroupBody []
  | other {c : Char} {body : List Char} (hc : c ∉ ['(', ')', '\'', '"']) (h : GroupBody body) :
      GroupBody (c :: body)
  | quoted {quote : Char} {text body : List Char} (hquote : quote ∈ ['\'', '"'])
      (htext : QuotedBody quote text) (h : GroupBody body) :
      GroupBody (quote :: text ++ quote :: body)
  | group {inner body : List Char} (hinner : GroupBody inner) (h : GroupBody body) :
      GroupBody ('(' :: inner ++ ')' :: body)

/-- Runs of quoted text, groups and other characters. -/
inductive TokenRuns : List Char → Prop where
  | nil : TokenRuns []
  | bare {c : Char} {runs : List Char} (hc : c ∉ ['(', ')', '\'', '"', '\x60'])
      (hseparator : isSeparator c = false) (h : TokenRuns runs) : TokenRuns (c :: runs)
  | quoted {quote : Char} {text runs : List Char} (hquote : quote ∈ ['\'', '"', '\x60'])
      (htext : QuotedBody quote text) (h : TokenRuns runs) :
      TokenRuns (quote :: text ++ quote :: runs)
  | group {inner runs : List Char} (hinner : GroupBody inner) (h : TokenRuns runs) :
      TokenRuns ('(' :: inner ++ ')' :: runs)

variable {place after : Place} {depth : Nat} {c quote : Char} {cs body rest : List Char}

/-! One character. -/

/-- A character that is no blank is passed over where the scan can go on. -/
theorem unbroken_cons (hseparator : isSeparator c = false) :
    Unbroken place (c :: cs) ↔ ∃ after, place.next true c = some after ∧ Unbroken after cs := by
  rw [unbroken_cons_iff, hseparator, Bool.and_false]
  exact and_iff_right rfl

/-- In quotes or parentheses any character is. -/
theorem unbroken_cons_open (h : place.isOpen = true) :
    Unbroken place (c :: cs) ↔ ∃ after, place.next true c = some after ∧ Unbroken after cs := by
  rw [unbroken_cons_iff, h, Bool.not_true, Bool.false_and]
  exact and_iff_right rfl

theorem unbroken_in_quotes (hc : c ≠ quote) :
    Unbroken (.quoted quote depth) (c :: cs) ↔ Unbroken (.quoted quote depth) cs := by
  rw [unbroken_cons_open rfl]
  simp [Place.next, hc]

theorem unbroken_closing_quote :
    Unbroken (.quoted quote depth) (quote :: cs) ↔ Unbroken (.plain depth) cs := by
  rw [unbroken_cons_open rfl]
  simp [Place.next]

theorem unbroken_opening_quote (hquote : opensQuotes true depth quote = true) :
    Unbroken (.plain depth) (quote :: cs) ↔ Unbroken (.quoted quote depth) cs := by
  have hcases : (quote = '\'' ∨ quote = '"') ∨ depth = 0 ∧ quote = '\x60' := by
    simpa [opensQuotes] using hquote
  have hother : isSeparator quote = false ∧ quote ≠ '(' ∧ quote ≠ ')' := by
    obtain (rfl | rfl) | ⟨-, rfl⟩ := hcases <;> decide
  rw [unbroken_cons hother.1]
  simp [Place.next, hother.2, hquote]

theorem unbroken_opening_parenthesis :
    Unbroken (.plain depth) ('(' :: cs) ↔ Unbroken (.plain (depth + 1)) cs := by
  rw [unbroken_cons (by decide)]
  simp [Place.next]

theorem unbroken_closing_parenthesis :
    Unbroken (.plain (depth + 1)) (')' :: cs) ↔ Unbroken (.plain depth) cs := by
  rw [unbroken_cons (by decide)]
  simp [Place.next]

theorem unbroken_in_group (hc : c ∉ ['(', ')', '\'', '"']) :
    Unbroken (.plain (depth + 1)) (c :: cs) ↔ Unbroken (.plain (depth + 1)) cs := by
  simp only [List.mem_cons, List.not_mem_nil, or_false, not_or] at hc
  rw [unbroken_cons_open rfl]
  simp [Place.next, opensQuotes, hc]

theorem unbroken_bare (hc : c ∉ ['(', ')', '\'', '"', '\x60'])
    (hseparator : isSeparator c = false) :
    Unbroken (.plain 0) (c :: cs) ↔ Unbroken (.plain 0) cs := by
  simp only [List.mem_cons, List.not_mem_nil, or_false, not_or] at hc
  rw [unbroken_cons hseparator]
  simp [Place.next, opensQuotes, hc]

/-! Quoted text. -/

/-- Quoted text is passed over as a whole. -/
theorem unbroken_quoted (hquote : opensQuotes true depth quote = true) (h : QuotedBody quote body) :
    Unbroken (.quoted quote depth) (body ++ quote :: rest) ↔ Unbroken (.plain depth) rest := by
  induction h with
  | nil => exact unbroken_closing_quote
  | other hc _ ih => exact (unbroken_in_quotes hc).trans ih
  | doubled _ ih =>
      exact unbroken_closing_quote.trans ((unbroken_opening_quote hquote).trans ih)

/-- A text that leads out of quotes has the rest of them in front. -/
theorem exists_quoted (h : Unbroken (.quoted quote depth) cs) :
    ∃ body rest, cs = body ++ quote :: rest ∧ QuotedBody quote body ∧
      Unbroken (.plain depth) rest := by
  induction cs with
  | nil => cases unbroken_nil_iff.mp h
  | cons c cs ih =>
      by_cases hc : c = quote
      · subst hc
        exact ⟨[], cs, rfl, .nil, unbroken_closing_quote.mp h⟩
      · obtain ⟨body, rest, rfl, hbody, hrest⟩ := ih ((unbroken_in_quotes hc).mp h)
        exact ⟨c :: body, rest, rfl, .other hc hbody, hrest⟩

/-! Groups. -/

theorem opensQuotes_of_mem (h : quote ∈ ['\'', '"']) : opensQuotes true depth quote = true := by
  simp only [List.mem_cons, List.not_mem_nil, or_false] at h
  obtain rfl | rfl := h <;> rfl

/-- A group is passed over up to its closing parenthesis. -/
theorem unbroken_group (h : GroupBody body) :
    Unbroken (.plain (depth + 1)) (body ++ ')' :: rest) ↔ Unbroken (.plain depth) rest := by
  induction h generalizing depth rest with
  | nil => exact unbroken_closing_parenthesis
  | other hc _ ih => exact (unbroken_in_group hc).trans ih
  | quoted hquote htext _ ih =>
      rw [List.append_assoc, List.cons_append, List.cons_append,
        unbroken_opening_quote (opensQuotes_of_mem hquote),
        unbroken_quoted (opensQuotes_of_mem hquote) htext, ih]
  | group _ _ ihInner ih =>
      rw [List.append_assoc, List.cons_append, List.cons_append, unbroken_opening_parenthesis,
        ihInner, ih]

/-- A text that leads out of a group has the rest of the group in front. -/
theorem exists_group (h : Unbroken (.plain (depth + 1)) cs) :
    ∃ body rest, cs = body ++ ')' :: rest ∧ GroupBody body ∧ Unbroken (.plain depth) rest := by
  -- By length, as a group inside is read first and what stands behind it afterwards.
  induction hlength : cs.length using Nat.strong_induction_on generalizing cs depth with
  | _ n ih =>
      subst hlength
      match cs, h with
      | [], h => cases unbroken_nil_iff.mp h
      | c :: cs, h =>
          by_cases hother : c ∉ ['(', ')', '\'', '"']
          · obtain ⟨body, rest, rfl, hbody, hrest⟩ :=
              ih _ (Nat.lt_succ_self _) ((unbroken_in_group hother).mp h) rfl
            exact ⟨c :: body, rest, rfl, .other hother hbody, hrest⟩
          · by_cases hquote : c ∈ ['\'', '"']
            · obtain ⟨text, between, rfl, htext, hbetween⟩ :=
                exists_quoted ((unbroken_opening_quote (opensQuotes_of_mem hquote)).mp h)
              obtain ⟨body, rest, rfl, hbody, hrest⟩ := ih _ (by simp; omega) hbetween rfl
              exact ⟨c :: text ++ c :: body, rest, by simp, .quoted hquote htext hbody, hrest⟩
            · obtain rfl | rfl : c = '(' ∨ c = ')' := by
                simp only [List.mem_cons, List.not_mem_nil, or_false] at hother hquote
                tauto
              · obtain ⟨inner, between, rfl, hinner, hbetween⟩ :=
                  ih _ (Nat.lt_succ_self _) (unbroken_opening_parenthesis.mp h) rfl
                obtain ⟨body, rest, rfl, hbody, hrest⟩ := ih _ (by simp; omega) hbetween rfl
                exact ⟨'(' :: inner ++ ')' :: body, rest, by simp, .group hinner hbody, hrest⟩
              · exact ⟨[], cs, rfl, .nil, unbroken_closing_parenthesis.mp h⟩

/-! Tokens. -/

theorem opensQuotes_of_mem_token (h : quote ∈ ['\'', '"', '\x60']) :
    opensQuotes true 0 quote = true := by
  simp only [List.mem_cons, List.not_mem_nil, or_false] at h
  obtain rfl | rfl | rfl := h <;> rfl

theorem unbroken_of_runs (h : TokenRuns cs) : Unbroken (.plain 0) cs := by
  induction h with
  | nil => exact unbroken_nil_iff.mpr rfl
  | bare hc hseparator _ ih => exact (unbroken_bare hc hseparator).mpr ih
  | quoted hquote htext _ ih =>
      rw [List.cons_append, unbroken_opening_quote (opensQuotes_of_mem_token hquote),
        unbroken_quoted (opensQuotes_of_mem_token hquote) htext]
      exact ih
  | group hinner _ ih =>
      rw [List.cons_append, unbroken_opening_parenthesis, unbroken_group hinner]
      exact ih

theorem runs_of_unbroken (h : Unbroken (.plain 0) cs) : TokenRuns cs := by
  induction hlength : cs.length using Nat.strong_induction_on generalizing cs with
  | _ n ih =>
      subst hlength
      match cs, h with
      | [], _ => exact .nil
      | c :: cs, h =>
          have hseparator : isSeparator c = false := (unbroken_cons_iff.mp h).1
          by_cases hother : c ∉ ['(', ')', '\'', '"', '\x60']
          · exact .bare hother hseparator
              (ih _ (Nat.lt_succ_self _) ((unbroken_bare hother hseparator).mp h) rfl)
          · by_cases hquote : c ∈ ['\'', '"', '\x60']
            · obtain ⟨text, rest, rfl, htext, hrest⟩ :=
                exists_quoted ((unbroken_opening_quote (opensQuotes_of_mem_token hquote)).mp h)
              exact .quoted hquote htext (ih _ (by simp; omega) hrest rfl)
            · obtain rfl | rfl : c = '(' ∨ c = ')' := by
                simp only [List.mem_cons, List.not_mem_nil, or_false] at hother hquote
                tauto
              · obtain ⟨inner, rest, rfl, hinner, hrest⟩ :=
                  exists_group (unbroken_opening_parenthesis.mp h)
                exact .group hinner (ih _ (by simp; omega) hrest rfl)
              · obtain ⟨-, after, hnext, -⟩ := unbroken_cons_iff.mp h
                cases hnext

/-- The tokens are the texts of the grammar that are not empty. -/
theorem isToken_iff_runs {s : String} : IsToken s ↔ s ≠ "" ∧ TokenRuns s.toList := by
  rw [isToken_iff]
  exact and_congr_right fun _ => ⟨runs_of_unbroken, unbroken_of_runs⟩

end QueryCompiler.Field
