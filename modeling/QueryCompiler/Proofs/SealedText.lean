import QueryCompiler.Proofs.ClauseText
import QueryCompiler.Proofs.WrittenText

/-!
# Sealed text

A scan of SQL follows the quotes as a prepared statement does, and counts the open parentheses
outside quotes. A text is sealed when a scan that starts outside quotes ends there, under as many
parentheses as before, and never closes one that it did not open. What is sealed can be put next to
anything: the text behind it is scanned as if it stood alone.
-/
namespace QueryCompiler

open Text (isQuote openQuote)

/-- The open quote and the number of open parentheses after one more character; `none` where a
parenthesis closes nothing. -/
def scanStep : Option Char × Nat → Char → Option (Option Char × Nat)
  | (some quote, depth), c => some (openQuote (some quote) c, depth)
  | (none, depth), c =>
    if c = '(' then some (none, depth + 1)
    else if c = ')' then if depth = 0 then none else some (none, depth - 1)
    else some (openQuote none c, depth)

/-- A text leads, outside quotes, from one number of open parentheses to another. -/
def Spans (k l : Nat) (s : String) : Prop := s.toList.foldlM scanStep (none, k) = some (none, l)

instance (k l : Nat) : DecidablePred (Spans k l) := fun s =>
  inferInstanceAs (Decidable (s.toList.foldlM scanStep (none, k) = some (none, l)))

/-- A text that closes whatever it opens, and nothing else. -/
abbrev IsSealed (s : String) : Prop := Spans 0 0 s

/-- A text that closes its quotes; its parentheses do not matter. -/
def ClosesQuotes (s : String) : Prop := Closed s.toList

instance : DecidablePred ClosesQuotes := fun s =>
  inferInstanceAs (Decidable (s.toList.foldl openQuote none = none))

variable {k l m n : Nat} {s t : String}

theorem Spans.append (hs : Spans k l s) (ht : Spans l m t) : Spans k m (s ++ t) := by
  rw [Spans, String.toList_append, List.foldlM_append, hs]
  exact ht

/-- Behind the text every quote is closed. -/
theorem Spans.closed (h : Spans k l s) : Closed s.toList := by
  have hstep : ∀ {quote quote' : Option Char} {k l : Nat} {c : Char},
      scanStep (quote, k) c = some (quote', l) → openQuote quote c = quote' := by
    intro quote quote' k l c h
    cases quote with
    | some quote =>
        cases h
        rfl
    | none =>
        simp only [scanStep] at h
        split at h
        · rename_i hopen
          cases h
          subst hopen
          rfl
        · split at h
          · rename_i hclose
            split at h <;> cases h
            subst hclose
            rfl
          · cases h
            rfl
  have hfrom : ∀ (cs : List Char) (quote : Option Char) (k : Nat),
      cs.foldlM scanStep (quote, k) = some (none, l) → cs.foldl openQuote quote = none := by
    intro cs
    induction cs with
    | nil =>
        rintro quote k h
        cases h
        rfl
    | cons c cs ih =>
        intro quote k h
        rw [List.foldlM_cons] at h
        obtain ⟨⟨quote', k'⟩, hscan, hrest⟩ := Option.bind_eq_some_iff.mp h
        rw [List.foldl_cons, hstep hscan]
        exact ih quote' k' hrest
  exact hfrom s.toList none k h

theorem ClosesQuotes.append (hs : ClosesQuotes s) (ht : ClosesQuotes t) :
    ClosesQuotes (s ++ t) := by
  rw [ClosesQuotes, String.toList_append]
  exact closed_append hs ht

theorem scanStep_raise {quote quote' : Option Char} {c : Char}
    (h : scanStep (quote, k) c = some (quote', l)) :
    scanStep (quote, k + n) c = some (quote', l + n) := by
  cases quote with
  | some quote =>
      cases h
      rfl
  | none =>
      simp only [scanStep] at h ⊢
      split
      · rename_i hopen
        rw [if_pos hopen] at h
        cases h
        rw [Nat.add_right_comm]
      · rename_i hopen
        rw [if_neg hopen] at h
        split
        · rename_i hclose
          rw [if_pos hclose] at h
          split at h
          · cases h
          · rename_i hdepth
            cases h
            rw [if_neg (by omega), Nat.sub_add_comm (Nat.one_le_iff_ne_zero.mpr hdepth)]
        · rename_i hclose
          rw [if_neg hclose] at h
          cases h
          rfl

/-- More parentheses around a text make no difference to it. -/
theorem Spans.raise (h : Spans k l s) (n : Nat) : Spans (k + n) (l + n) s := by
  have hfrom : ∀ (cs : List Char) (quote : Option Char) (k : Nat),
      cs.foldlM scanStep (quote, k) = some (none, l) →
        cs.foldlM scanStep (quote, k + n) = some (none, l + n) := by
    intro cs
    induction cs with
    | nil =>
        rintro quote k h
        cases h
        rfl
    | cons c cs ih =>
        intro quote k h
        rw [List.foldlM_cons] at h ⊢
        obtain ⟨⟨quote', k'⟩, hstep, hrest⟩ := Option.bind_eq_some_iff.mp h
        rw [scanStep_raise hstep]
        exact ih quote' k' hrest
  exact hfrom s.toList none k h

theorem IsSealed.spans (h : IsSealed s) (k : Nat) : Spans k k s := by
  simpa using Spans.raise h k

theorem IsSealed.append (hs : IsSealed s) (ht : IsSealed t) : IsSealed (s ++ t) :=
  Spans.append hs ht

theorem IsSealed.parenthesized (h : IsSealed s) : IsSealed ("(" ++ s ++ ")") :=
  Spans.append (Spans.append (by decide : Spans 0 1 "(") (h.spans 1)) (by decide : Spans 1 0 ")")

/-- A text without parentheses outside quotes is sealed if it closes its quotes. -/
theorem isSealed_of_quiet (h : Quiet isParenthesis s) : IsSealed s := by
  have hfrom : ∀ (cs : List Char) (quote : Option Char), quietFrom isParenthesis quote cs = true →
      cs.foldlM scanStep (quote, 0) = some (none, 0) := by
    intro cs
    induction cs with
    | nil =>
        intro quote h
        obtain rfl : quote = none := by simpa [quietFrom] using h
        rfl
    | cons c cs ih =>
        intro quote h
        rw [List.foldlM_cons]
        cases quote with
        | some quote => exact ih _ h
        | none =>
            simp only [quietFrom, isParenthesis, Bool.and_eq_true, Bool.not_eq_true',
              Bool.or_eq_false_iff, beq_eq_false_iff_ne] at h
            simp only [scanStep, if_neg h.1.1, if_neg h.1.2]
            exact ih _ h.2
  exact hfrom s.toList none h

theorem isSealed_of_delimiter (h : Quiet isDelimiter s) : IsSealed s :=
  isSealed_of_quiet (parenthesis_of_delimiter h)

/-! Words, numbers and quoted texts are sealed. -/

theorem unparenthesized_of {p : Char → Bool} (h : ['(', ')', '\'', '"', '\x60'].any p = false)
    {c : Char} (hc : p c = true) : isParenthesis c = false ∧ isQuote c = false := by
  rw [List.any_eq_false] at h
  have hmem : c ∉ ['(', ')', '\'', '"', '\x60'] := fun hmem => h c hmem hc
  simp only [List.mem_cons, List.not_mem_nil, or_false, not_or] at hmem
  simp [isParenthesis, isQuote, hmem]

theorem unparenthesized_of_digit (c : Char) (h : c.isDigit = true) :
    isParenthesis c = false ∧ isQuote c = false :=
  unparenthesized_of (by decide) h

theorem isSealed_nat (n : Nat) : IsSealed (toString n) :=
  isSealed_of_quiet (quiet_nat unparenthesized_of_digit n)

theorem isSealed_int (n : Int) : IsSealed (toString n) :=
  isSealed_of_quiet (quiet_int unparenthesized_of_digit (by decide) n)

theorem isSealed_float (x : Float) : IsSealed (Decimal.floatText x) :=
  isSealed_of_quiet (quiet_floatText unparenthesized_of_digit (by decide) (by decide) (by decide) x)

theorem isSealed_boolWord (b : Bool) : IsSealed (boolWord b) := by
  cases b <;> decide

theorem isSealed_identifier {name : String} (h : Text.isIdentifier name = true) :
    IsSealed name :=
  isSealed_of_quiet (quiet_of_forall fun _ hc =>
    unparenthesized_of (by decide) (Text.isIdentifierPart_of_mem h hc))

/-- The name of a function in upper case. -/
theorem isSealed_function {name : String} (h : (Text.dotParts name).all Text.isIdentifier = true) :
    IsSealed name.toUpper := by
  refine isSealed_of_quiet (quiet_of_forall fun c hc => ?_)
  refine unparenthesized_of (p := fun c => Text.isIdentifierPart c || c == '.') (by decide) ?_
  simpa [or_comm] using Text.mem_toUpper_function h hc

theorem isSealed_operator : ∀ op ∈ Operator.all, IsSealed op.name := by
  decide +kernel

namespace Builtin

theorem isSealed_quoteIdentifier (b : Builtin) (name : String) :
    IsSealed (b.dialect.quoteIdentifier name) :=
  isSealed_of_delimiter (b.quiet_quoteIdentifier name)

theorem isSealed_inlineValue {bool : Bool → String} {string : String → String}
    (hbool : ∀ b, IsSealed (bool b)) (hstring : ∀ s, IsSealed (string s)) (v : Value) :
    IsSealed (inlineValue bool string v) := by
  cases v with
  | null => exact (by decide : IsSealed "NULL")
  | bool b => exact hbool b
  | int n => exact isSealed_int n
  | float x => exact isSealed_float x
  | text s => exact hstring s

theorem isSealed_quoteValue (b : Builtin) (v : Value) : IsSealed (b.dialect.quoteValue v) := by
  have hdigit : ∀ b, IsSealed (boolDigit b) := fun b => by cases b <;> decide
  have hstring : ∀ s, IsSealed (Text.quoteString s) := fun s =>
    isSealed_of_quiet (quiet_enclose rfl rfl s)
  have hmysql : ∀ s, IsSealed (Dialect.mysqlString s) := fun s =>
    isSealed_of_quiet (quiet_mysqlString rfl s)
  cases b with
  | postgres => exact isSealed_inlineValue isSealed_boolWord hstring v
  | mysql => exact isSealed_inlineValue hdigit hmysql v
  | sqlite => exact isSealed_inlineValue hdigit hstring v

theorem isSealed_limitClause (limit offset : Option Nat) : IsSealed (limitClause limit offset) := by
  have hclause : ∀ (word : String), IsSealed word → ∀ n : Nat, IsSealed (word ++ toString n) :=
    fun word hword n => hword.append (isSealed_nat n)
  unfold limitClause
  refine IsSealed.append ?_ ?_
  · cases limit with
    | none => decide
    | some n => exact hclause " LIMIT " (by decide) n
  · cases offset with
    | none => decide
    | some n => exact hclause " OFFSET " (by decide) n

theorem isSealed_limitOffset (b : Builtin) (limit offset : Option Nat) :
    IsSealed (b.dialect.limitOffset limit offset) := by
  have hwith : ∀ unlimited, IsSealed unlimited →
      IsSealed (limitClauseWith unlimited limit offset) := by
    intro unlimited hunlimited
    unfold limitClauseWith
    split
    · have hstart : IsSealed (" LIMIT " ++ unlimited ++ " OFFSET ") :=
        (IsSealed.append (by decide) hunlimited).append (by decide)
      exact hstart.append (isSealed_nat _)
    · exact isSealed_limitClause limit offset
  cases b with
  | postgres => exact isSealed_limitClause limit offset
  | mysql => exact hwith _ (by decide)
  | sqlite => exact hwith _ (by decide)

/-- Names, columns and rows are sealed, as far as they are not written as they stand. -/
theorem composes_isSealed (b : Builtin) : b.dialect.Composes IsSealed where
  append := IsSealed.append
  group hs := IsSealed.parenthesized hs
  word := by decide
  quoteIdentifier := b.isSealed_quoteIdentifier
  quoteValue := b.isSealed_quoteValue

theorem composes_closesQuotes (b : Builtin) : b.dialect.Composes ClosesQuotes where
  append := ClosesQuotes.append
  group hs := (ClosesQuotes.append (by decide : ClosesQuotes "(") hs).append (by decide)
  word := by decide
  quoteIdentifier name := (b.isSealed_quoteIdentifier name).closed
  quoteValue v := (b.isSealed_quoteValue v).closed

end Builtin

end QueryCompiler
