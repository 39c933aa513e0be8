import QueryCompiler.Proofs.TokenGrammar

/-!
# Cutting a text loses nothing

A text that is cut into tokens is these tokens with gaps between them and blanks around them, and a
token is cut into itself. Whatever blanks a token has stand in quotes or parentheses, so none of them
can be taken for a gap.
-/
namespace QueryCompiler.Field

open Text (isSeparator)

/-- Quoted text with its quotes, or a group with its parentheses. -/
inductive Enclosed : List Char → Prop where
  | quoted {quote : Char} {body : List Char} (hquote : quote ∈ ['\'', '"', '\x60'])
      (h : QuotedBody quote body) : Enclosed (quote :: body ++ [quote])
  | group {body : List Char} (h : GroupBody body) : Enclosed ('(' :: body ++ [')'])

/-- Every blank of a text stands in quotes or parentheses, which have whole runs before and behind
them. -/
def BlanksEnclosed (cs : List Char) : Prop :=
  ∀ front c back, cs = front ++ c :: back → isSeparator c = true →
    ∃ left opened closed right, front = left ++ opened ∧ back = closed ++ right ∧
      TokenRuns left ∧ Enclosed (opened ++ c :: closed) ∧ TokenRuns right

variable {c : Char} {cs enclosed runs : List Char}

theorem Enclosed.tokenRuns (h : Enclosed enclosed) (hruns : TokenRuns runs) :
    TokenRuns (enclosed ++ runs) := by
  cases h with
  | quoted hquote hbody =>
      rw [List.append_assoc]
      exact .quoted hquote hbody hruns
  | group hbody =>
      rw [List.append_assoc]
      exact .group hbody hruns

theorem BlanksEnclosed.bare (hc : c ∉ ['(', ')', '\'', '"', '\x60'])
    (hseparator : isSeparator c = false) (h : BlanksEnclosed runs) : BlanksEnclosed (c :: runs) := by
  intro front blank back heq hblank
  cases front with
  | nil =>
      obtain ⟨rfl, -⟩ := List.cons.inj heq
      rw [hseparator] at hblank
      cases hblank
  | cons first front =>
      obtain ⟨rfl, hruns⟩ := List.cons.inj heq
      obtain ⟨left, opened, closed, right, rfl, rfl, hleft, hrest⟩ := h front blank back hruns hblank
      exact ⟨c :: left, opened, closed, right, rfl, rfl, .bare hc hseparator hleft, hrest⟩

/-- A blank of such a text is one of the enclosed part or one of the runs behind it. -/
theorem BlanksEnclosed.append (henclosed : Enclosed enclosed) (hruns : TokenRuns runs)
    (h : BlanksEnclosed runs) : BlanksEnclosed (enclosed ++ runs) := by
  intro front blank back heq hblank
  have hbehind : ∀ others, front = enclosed ++ others → runs = others ++ blank :: back →
      ∃ left opened closed right, front = left ++ opened ∧ back = closed ++ right ∧
        TokenRuns left ∧ Enclosed (opened ++ blank :: closed) ∧ TokenRuns right := by
    rintro others rfl hothers
    obtain ⟨left, opened, closed, right, rfl, rfl, hleft, hrest⟩ := h others blank back hothers hblank
    exact ⟨enclosed ++ left, opened, closed, right, (List.append_assoc ..).symm, rfl,
      henclosed.tokenRuns hleft, hrest⟩
  obtain ⟨others, hfront, hothers⟩ | ⟨others, hfront, hback⟩ := List.append_eq_append_iff.mp heq
  · exact hbehind others hfront hothers
  · cases others with
    | nil => exact hbehind [] (by simpa using hfront.symm) (by simpa using hback.symm)
    | cons first closed =>
        obtain ⟨rfl, hclosed⟩ := List.cons.inj hback
        exact ⟨[], front, closed, runs, rfl, hclosed, .nil, hfront ▸ henclosed, hruns⟩

theorem TokenRuns.blanksEnclosed (h : TokenRuns cs) : BlanksEnclosed cs := by
  induction h with
  | nil =>
      intro front blank back heq
      simp at heq
  | bare hc hseparator _ ih => exact ih.bare hc hseparator
  | @quoted quote text runs hquote htext hruns ih =>
      have happended := ih.append (.quoted hquote htext) hruns
      rwa [List.append_assoc] at happended
  | @group inner runs hinner hruns ih =>
      have happended := ih.append (.group hinner) hruns
      rwa [List.append_assoc] at happended

/-- Cutting a text into tokens loses nothing and is stable: the text is its tokens in order with a
gap between any two and blanks around them all; no token is empty, every blank of a token stands in
quotes or parentheses, and a token alone is cut into itself. -/
theorem tokenize_lossless {text : String} {tokens : List String} (h : tokenize text = .ok tokens) :
    (∃ before middle after, text = before ++ middle ++ after ∧ Blank before.toList ∧
      Blank after.toList ∧ Spaced tokens middle) ∧
      ∀ token ∈ tokens, token ≠ "" ∧ BlanksEnclosed token.toList ∧ tokenize token = .ok [token] := by
  obtain ⟨htokens, before, middle, after, htext, hbefore, hafter, hspaced⟩ :=
    spaced_of_charTokens? (tokenize_eq_ok.mp h)
  refine ⟨⟨String.ofList before, middle, String.ofList after, ?_, ?_, ?_, hspaced⟩, ?_⟩
  · apply String.toList_injective
    simp [htext]
  · rwa [String.toList_ofList]
  · rwa [String.toList_ofList]
  · intro token hmem
    obtain ⟨hne, hruns⟩ := isToken_iff_runs.mp (htokens token hmem)
    exact ⟨hne, hruns.blanksEnclosed, htokens token hmem⟩

/-- A doubled quote at the end of quoted text, and a blank right behind it. -/
theorem tokenize_lossless_doubled :
    tokenize "\tf(a, ' (')  'it''s '''\n" = .ok ["f(a, ' (')", "'it''s '''"] ∧
      tokenize "'it''s '''" = .ok ["'it''s '''"] ∧ BlanksEnclosed "'it''s '''".toList := by
  have htokens : tokenize "\tf(a, ' (')  'it''s '''\n" = .ok ["f(a, ' (')", "'it''s '''"] :=
    tokenize_eq_ok.mpr (by decide +kernel)
  obtain ⟨-, hall⟩ := tokenize_lossless htokens
  obtain ⟨-, hblanks, halone⟩ := hall "'it''s '''" (by decide)
  exact ⟨htokens, halone, hblanks⟩

end QueryCompiler.Field
