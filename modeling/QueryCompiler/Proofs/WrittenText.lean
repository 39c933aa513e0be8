import Mathlib.Data.List.Forall2
import QueryCompiler.Proofs.GrammarReading
import QueryCompiler.Proofs.NameReading
import QueryCompiler.Proofs.SqlReading

/-!
# Written text

What is known of the text of an expression in a context: it is read back on the level of the
context, and its parentheses and quotes match, so that the text in parentheses is read as a whole.
Each way of writing an operator keeps this.
-/
namespace QueryCompiler

open Text (closesAtEnd openQuote)

/-! Parentheses. -/

def isParenthesis (c : Char) : Bool := c == '(' || c == ')'

/-- The whole text sits inside one pair of parentheses. -/
def enclosed : List Char → Bool
  | '(' :: rest => closesAtEnd none 1 rest
  | _ => false

theorem isEnclosed_eq (s : String) : Text.isEnclosed s = enclosed s.toList := rfl

theorem Sql.chars_parenthesized (sql : Sql) :
    ("(" ++ sql ++ ")" : Sql).chars = '(' :: (sql.chars ++ [')']) := by
  simp

/-- A text whose quotes and parentheses match. -/
structure Matched (cs : List Char) : Prop where
  closed : Closed cs
  balanced : ∀ depth rest, closesAtEnd none (depth + 1) (cs ++ rest) =
    closesAtEnd none (depth + 1) rest

theorem Matched.append {a b : List Char} (ha : Matched a) (hb : Matched b) : Matched (a ++ b) where
  closed := closed_append ha.closed hb.closed
  balanced depth rest := by rw [List.append_assoc, ha.balanced, hb.balanced]

theorem matched_of_quiet {cs : List Char} (h : quietFrom isParenthesis none cs = true) :
    Matched cs := by
  have hfrom : ∀ (cs : List Char) (quote : Option Char) (depth : Nat) (rest : List Char),
      quietFrom isParenthesis quote cs = true →
        closesAtEnd quote depth (cs ++ rest) = closesAtEnd none depth rest := by
    intro cs
    induction cs with
    | nil =>
        intro quote depth rest h
        obtain rfl : quote = none := by simpa [quietFrom] using h
        rfl
    | cons c cs ih =>
        intro quote depth rest h
        cases quote with
        | some q => exact ih _ _ _ h
        | none =>
            simp only [quietFrom, isParenthesis, Bool.and_eq_true, Bool.not_eq_true',
              Bool.or_eq_false_iff, beq_eq_false_iff_ne] at h
            simp only [List.cons_append, closesAtEnd, h.1.1, h.1.2, if_false]
            exact ih _ _ _ h.2
  exact ⟨closed_of_quiet h, fun depth rest => hfrom cs none (depth + 1) rest h⟩

theorem Matched.parenthesized {cs : List Char} (h : Matched cs) :
    Matched ('(' :: (cs ++ [')'])) where
  closed := by
    have hopen : openQuote none '(' = none := rfl
    rw [Closed, List.foldl_cons, hopen, List.foldl_append, h.closed]
    rfl
  balanced depth rest := by
    rw [List.cons_append, List.append_assoc, closesAtEnd, if_pos rfl, h.balanced]
    simp [closesAtEnd]

/-- A pair of parentheses that closes before the end does not enclose the text. -/
theorem Matched.enclosed_append {cs rest : List Char} (h : Matched cs) (hrest : rest ≠ []) :
    enclosed ('(' :: (cs ++ [')']) ++ rest) = false := by
  rw [List.cons_append, List.append_assoc, enclosed, h.balanced]
  simpa [closesAtEnd] using hrest

theorem enclosed_of_quiet {cs : List Char} (h : quietFrom isParenthesis none cs = true)
    (hne : cs ≠ []) (rest : List Char) : enclosed (cs ++ rest) = false := by
  cases cs with
  | nil => exact absurd rfl hne
  | cons c cs =>
      simp only [quietFrom, isParenthesis, Bool.and_eq_true, Bool.not_eq_true',
        Bool.or_eq_false_iff, beq_eq_false_iff_ne] at h
      rw [List.cons_append]
      unfold enclosed
      split
      · rename_i heq
        exact absurd (List.cons.inj heq).1 h.1.1
      · rfl

theorem quiet_mono {loud loud' : Char → Bool} (h : ∀ c, loud c = false → loud' c = false)
    {quote : Option Char} {cs : List Char} (hcs : quietFrom loud quote cs = true) :
    quietFrom loud' quote cs = true := by
  induction cs generalizing quote with
  | nil => exact hcs
  | cons c rest ih =>
      cases quote with
      | some q => exact ih hcs
      | none =>
          simp only [quietFrom, Bool.and_eq_true, Bool.not_eq_true'] at hcs ⊢
          exact ⟨h c hcs.1, ih hcs.2⟩

theorem parenthesis_of_delimiter {s : String} (h : Quiet isDelimiter s) :
    quietFrom isParenthesis none s.toList = true := by
  refine quiet_mono (fun c hc => ?_) h
  simp only [isDelimiter, Bool.or_eq_false_iff] at hc
  simp [isParenthesis, hc]

/-! Levels of contexts. -/

/-- The level on which an operand is read that is written for a context. -/
def contextLevel (rank : Nat) : Nat := [6, 8, 11, 13, 14, 18, 38, 41, 42].countP (· ≤ rank)

theorem contextLevel_mono {rank context : Nat} (h : rank ≤ context) :
    contextLevel rank ≤ contextLevel context :=
  List.countP_mono_left fun head _ hhead => by
    simp only [decide_eq_true_eq] at hhead ⊢
    omega

theorem contextLevel_le (rank : Nat) : contextLevel rank ≤ Rule.loosest := List.countP_le_length

/-- A variadic operator is the tightest of its level. -/
theorem contextLevel_lt_of_variadic {op : Operator} (hop : op ∈ Operator.all)
    (harity : op.arity = .variadic) {rank : Nat} (h : rank < op.rank) :
    contextLevel rank < contextLevel op.rank := by
  have hall : ∀ op ∈ Operator.all, op.arity = .variadic →
      contextLevel (op.rank - 1) < contextLevel op.rank := by decide +kernel
  exact Nat.lt_of_le_of_lt (contextLevel_mono (Nat.le_sub_one_of_lt h)) (hall op hop harity)

/-! Texts in a context. -/

/-- A text starts with the word of `EXISTS`, at least where something follows. -/
def StartsExists (ls : List Lexeme) : Prop := ∃ r, (ls ++ r).head? = some (.key "EXISTS")

/-- The text of a tree fits into a context of a rank: it is read on the level of that context, as a
chain if a variadic operator has that rank, and if it is enclosed in parentheses on every level. -/
structure Fits (b : Builtin) (rank : Nat) (tree : Tree) (cs : List Char) : Prop where
  matched : Matched cs
  extended : ∀ rest, rest ≠ [] → enclosed (cs ++ rest) = false
  reads : ∃ t, b.ReadsAs (contextLevel rank) (Lexeme.ofChars cs) t ∧ t.merged = tree.merged
  whole : enclosed cs = true → ∃ t, b.ReadsAs 0 (Lexeme.ofChars cs) t ∧ t.merged = tree.merged
  chain : ∀ op ∈ Operator.all, op.arity = .variadic → op.rank = rank →
    ∀ rule words, (rule, words) ∈ b.rules → rule = ⟨op.name, contextLevel op.rank, .chained⟩ →
      ∃ ts, Chain b rule words (Lexeme.ofChars cs) ts ∧
        (ts.flatMap fun t => t.merged.parts rule.name) = tree.merged.parts rule.name
  noExists : rank < 39 → ¬ StartsExists (Lexeme.ofChars cs)

namespace Fits

variable {b : Builtin} {rank context : Nat} {tree : Tree} {cs : List Char}

/-- A text that is read on level 0 fits everywhere. -/
theorem of_level_zero (hmatched : Matched cs)
    (hextended : ∀ rest, rest ≠ [] → enclosed (cs ++ rest) = false)
    (hreads : ∃ t, b.ReadsAs 0 (Lexeme.ofChars cs) t ∧ t.merged = tree.merged)
    (hexists : ¬ StartsExists (Lexeme.ofChars cs)) : Fits b 0 tree cs where
  matched := hmatched
  extended := hextended
  reads := hreads
  whole _ := hreads
  chain op hop harity hrank := by
    have hall : ∀ op ∈ Operator.all, op.arity = .variadic → op.rank ≠ 0 := by decide +kernel
    exact absurd hrank (hall op hop harity)
  noExists _ := hexists

theorem mono (h : Fits b rank tree cs) (hle : rank ≤ context) : Fits b context tree cs where
  matched := h.matched
  extended := h.extended
  reads := by
    obtain ⟨t, hreads, hmerged⟩ := h.reads
    exact ⟨t, hreads.mono (contextLevel_mono hle), hmerged⟩
  whole := h.whole
  chain op hop harity hrank rule words hrule heq := by
    obtain hlt | rfl := Nat.lt_or_eq_of_le hle
    · -- an operand of a tighter level is a chain of one
      subst hrank
      obtain ⟨t, hreads, hmerged⟩ := h.reads
      have hlevel := contextLevel_lt_of_variadic hop harity hlt
      obtain ⟨k, hk⟩ : ∃ k, contextLevel op.rank = k + 1 := ⟨_, (Nat.succ_pred (by omega)).symm⟩
      subst heq
      refine ⟨[t], .single hrule rfl hk (hreads.mono (by omega)), ?_⟩
      simp [hmerged]
    · exact h.chain op hop harity hrank rule words hrule heq
  noExists hlt := h.noExists (Nat.lt_of_le_of_lt hle hlt)

theorem congr (h : Fits b rank tree cs) {tree' : Tree} (heq : tree.merged = tree'.merged) :
    Fits b rank tree' cs where
  matched := h.matched
  extended := h.extended
  reads := heq ▸ h.reads
  whole := heq ▸ h.whole
  chain := heq ▸ h.chain
  noExists := h.noExists

/-- A text that is enclosed already needs no further parentheses. -/
theorem of_enclosed (h : Fits b rank tree cs) (henclosed : enclosed cs = true) :
    Fits b 0 tree cs := by
  refine of_level_zero h.matched h.extended (h.whole henclosed) ?_
  rintro ⟨r, hr⟩
  cases cs with
  | nil => cases henclosed
  | cons c rest =>
      unfold enclosed at henclosed
      split at henclosed
      · rename_i heq
        obtain ⟨rfl, rfl⟩ := List.cons.inj heq
        cases hr
      · cases henclosed

theorem parenthesized (h : Fits b rank tree cs) : Fits b 0 tree ('(' :: (cs ++ [')'])) := by
  have hlexemes := Lexeme.ofChars_parenthesized h.matched.closed
  refine of_level_zero h.matched.parenthesized (fun rest hrest => h.matched.enclosed_append hrest)
    ?_ ?_
  · obtain ⟨t, hreads, hmerged⟩ := h.reads
    rw [hlexemes]
    exact ⟨t, (hreads.mono (contextLevel_le rank)).group, hmerged⟩
  · rw [hlexemes]
    rintro ⟨r, hr⟩
    cases hr

theorem wrap {sql : Sql} (h : Fits b rank tree sql.chars) (context : Nat) :
    Fits b context tree (Operator.wrap rank context sql).chars := by
  unfold Operator.wrap
  split
  · rw [Sql.chars_parenthesized]
    exact h.parenthesized.mono (Nat.zero_le context)
  · exact h.mono (by omega)

/-- A word that is read by itself fits everywhere. -/
theorem of_word {s : String} {l : Lexeme} {t : Tree} (h : IsWord s l) (hreads : b.ReadsAs 0 [l] t)
    (hmerged : t.merged = tree.merged) (hkey : l ≠ .key "EXISTS") : Fits b 0 tree s.toList := by
  have hquiet := parenthesis_of_delimiter h.quiet
  refine of_level_zero (matched_of_quiet hquiet)
    (fun rest _ => enclosed_of_quiet hquiet h.nonempty rest) ?_ ?_
  · rw [h.ofChars]
    exact ⟨t, hreads, hmerged⟩
  · rw [h.ofChars]
    rintro ⟨r, hr⟩
    exact hkey (Option.some.inj hr)

end Fits

end QueryCompiler
