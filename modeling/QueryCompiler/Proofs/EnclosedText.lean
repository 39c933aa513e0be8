import Mathlib.Data.List.TakeWhile
import QueryCompiler.Proofs.SealedText

/-!
# Enclosed text

Whether a text sits inside one pair of parentheses is decided by a count that has to come down to
zero at the last character and not before. Said without a count: between the two parentheses stands
a text that ends outside quotes and in which, quoted text left out, no prefix closes more
parentheses than it opens and the whole opens and closes equally many. The sealed texts lie between
the two: the count accepts exactly a sealed text in parentheses.
-/
namespace QueryCompiler

open Text (closesAtEnd isQuote openQuote)

/-! Text outside quotes. -/

def quoteChars : List Char := ['\'', '"', '\x60']

/-- What stands behind the next quote of the kind, and nothing if there is none. -/
def behindQuote (quote : Char) (cs : List Char) : List Char := (cs.dropWhile (· != quote)).tail

theorem length_behindQuote_le (quote : Char) (cs : List Char) :
    (behindQuote quote cs).length ≤ cs.length := by
  rw [behindQuote, List.length_tail]
  exact (Nat.sub_le _ _).trans (List.length_dropWhile_le _ _)

/-- The characters of a text outside quotes. A quote that is not closed reaches to the end. -/
def unquoted : List Char → List Char
  | [] => []
  | c :: rest =>
    if c ∈ quoteChars then unquoted (behindQuote c rest) else c :: unquoted rest
termination_by cs => cs.length
decreasing_by
  · exact Nat.lt_succ_of_le (length_behindQuote_le c rest)
  · exact Nat.lt_succ_self _

/-- The end of a text is outside quotes: each quote that opens is closed by a same one. -/
def EndsUnquoted : List Char → Prop
  | [] => True
  | c :: rest =>
    if c ∈ quoteChars then c ∈ rest ∧ EndsUnquoted (behindQuote c rest) else EndsUnquoted rest
termination_by cs => cs.length
decreasing_by
  · exact Nat.lt_succ_of_le (length_behindQuote_le c rest)
  · exact Nat.lt_succ_self _

variable {quote c : Char} {body cs rest p : List Char} {k l : Nat}

theorem bne_of_not_mem (h : quote ∉ cs) : ∀ c ∈ cs, (c != quote) = true := by
  intro c hc
  rw [bne_iff_ne]
  rintro rfl
  exact h hc

theorem behindQuote_append (h : quote ∉ body) (rest : List Char) :
    behindQuote quote (body ++ quote :: rest) = rest := by
  rw [behindQuote, List.dropWhile_append_of_pos (bne_of_not_mem h),
    List.dropWhile_cons_of_neg (by simp), List.tail_cons]

theorem behindQuote_of_not_mem (h : quote ∉ cs) : behindQuote quote cs = [] := by
  rw [behindQuote, List.dropWhile_eq_nil_iff.mpr (bne_of_not_mem h), List.tail_nil]

/-- The prefixes of what stands behind the quote are what stands behind it in prefixes. -/
theorem prefix_behindQuote_iff :
    p <+: behindQuote quote cs ↔ ∃ front, front <+: cs ∧ behindQuote quote front = p := by
  constructor
  · intro hp
    by_cases hmem : quote ∈ cs
    · obtain ⟨body, rest, rfl, hbody⟩ := List.eq_append_cons_of_mem hmem
      rw [behindQuote_append hbody] at hp
      have hfront : body ++ quote :: p <+: body ++ quote :: rest :=
        (List.prefix_append_right_inj body).mpr (List.cons_prefix_cons.mpr ⟨rfl, hp⟩)
      exact ⟨body ++ quote :: p, hfront, behindQuote_append hbody p⟩
    · rw [behindQuote_of_not_mem hmem] at hp
      exact ⟨[], List.nil_prefix, (List.prefix_nil.mp hp).symm⟩
  · rintro ⟨front, ⟨more, rfl⟩, rfl⟩
    by_cases hmem : quote ∈ front
    · obtain ⟨body, rest, rfl, hbody⟩ := List.eq_append_cons_of_mem hmem
      rw [List.append_assoc, List.cons_append, behindQuote_append hbody, behindQuote_append hbody]
      exact List.prefix_append rest more
    · rw [behindQuote_of_not_mem hmem]
      exact List.nil_prefix

@[simp] theorem unquoted_nil : unquoted [] = [] := by
  rw [unquoted]

theorem unquoted_plain (hc : c ∉ quoteChars) (cs : List Char) :
    unquoted (c :: cs) = c :: unquoted cs := by
  rw [unquoted, if_neg hc]

theorem unquoted_quote (hquote : quote ∈ quoteChars) (cs : List Char) :
    unquoted (quote :: cs) = unquoted (behindQuote quote cs) := by
  rw [unquoted, if_pos hquote]

theorem endsUnquoted_nil : EndsUnquoted [] := by
  rw [EndsUnquoted]
  trivial

theorem endsUnquoted_plain (hc : c ∉ quoteChars) (cs : List Char) :
    EndsUnquoted (c :: cs) ↔ EndsUnquoted cs := by
  rw [EndsUnquoted, if_neg hc]

theorem endsUnquoted_quote (hquote : quote ∈ quoteChars) (cs : List Char) :
    EndsUnquoted (quote :: cs) ↔ quote ∈ cs ∧ EndsUnquoted (behindQuote quote cs) := by
  rw [EndsUnquoted, if_pos hquote]

theorem not_mem_unquoted (cs : List Char) : ∀ c ∈ unquoted cs, c ∉ quoteChars := by
  fun_induction unquoted cs with
  | case1 => simp
  | case2 quote rest hquote ih => exact ih
  | case3 c rest hc ih => exact List.forall_mem_cons.mpr ⟨hc, ih⟩

theorem forall_prefix_cons {P : List Char → Prop} :
    (∀ p, p <+: c :: cs → P p) ↔ P [] ∧ ∀ p, p <+: cs → P (c :: p) := by
  simp only [List.prefix_cons_iff, or_imp, forall_and, forall_eq, forall_exists_index, and_imp]
  exact and_congr_right fun _ => ⟨fun h p hp => h _ p rfl hp, fun h _ p heq hp => heq ▸ h p hp⟩

/-- What holds outside quotes for each prefix of a text holds for each prefix of what is outside
quotes, and the other way round. -/
theorem forall_prefix_unquoted {P : List Char → Prop} :
    (∀ p, p <+: cs → P (unquoted p)) ↔ ∀ p, p <+: unquoted cs → P p := by
  fun_induction unquoted cs generalizing P with
  | case1 => simp
  | case2 quote rest hquote ih =>
      rw [← ih, forall_prefix_cons]
      simp only [unquoted_quote hquote, prefix_behindQuote_iff]
      constructor
      · rintro ⟨-, h⟩ p ⟨front, hfront, rfl⟩
        exact h front hfront
      · intro h
        exact ⟨h [] ⟨[], List.nil_prefix, rfl⟩, fun p hp => h _ ⟨p, hp, rfl⟩⟩
  | case3 c rest hc ih =>
      rw [forall_prefix_cons, forall_prefix_cons, unquoted_nil]
      simp only [unquoted_plain hc]
      exact and_congr_right fun _ => ih (P := fun p => P (c :: p))

/-! Scanning a text. -/

theorem isQuote_eq (c : Char) : isQuote c = decide (c ∈ quoteChars) := by
  simp [isQuote, quoteChars, Bool.or_assoc, Bool.beq_eq_decide_eq]

theorem foldlM_scanStep_cons {state next : Option Char × Nat} (h : scanStep state c = some next)
    (cs : List Char) : (c :: cs).foldlM scanStep state = cs.foldlM scanStep next := by
  rw [List.foldlM_cons, h]
  rfl

theorem scanStep_other (hopen : c ≠ '(') (hclose : c ≠ ')') (hc : c ∉ quoteChars) (k : Nat) :
    scanStep (none, k) c = some (none, k) := by
  simp [scanStep, hopen, hclose, openQuote, isQuote_eq, hc]

theorem scanStep_quote (hquote : quote ∈ quoteChars) (k : Nat) :
    scanStep (none, k) quote = some (some quote, k) := by
  have hne : quote ≠ '(' ∧ quote ≠ ')' := by
    constructor <;> rintro rfl <;> exact absurd hquote (by decide)
  simp [scanStep, hne, openQuote, isQuote_eq, hquote]

/-- A scan that starts outside quotes and goes on outside quotes. -/
theorem scanStep_plain (hc : c ∉ quoteChars) (k : Nat) :
    scanStep (none, k) c = none ∨ ∃ l, scanStep (none, k) c = some (none, l) := by
  by_cases hopen : c = '('
  · exact .inr ⟨k + 1, by rw [hopen]; rfl⟩
  · by_cases hclose : c = ')'
    · subst hclose
      cases k with
      | zero => exact .inl rfl
      | succ k => exact .inr ⟨k, rfl⟩
    · exact .inr ⟨k, scanStep_other hopen hclose hc k⟩

/-- Inside quotes the scan waits for the quote that closes them. -/
theorem foldlM_scanStep_body (hbody : quote ∉ body) (k : Nat) :
    body.foldlM scanStep (some quote, k) = some (some quote, k) := by
  induction body with
  | nil => rfl
  | cons c rest ih =>
      rw [List.mem_cons, not_or] at hbody
      have hstep : scanStep (some quote, k) c = some (some quote, k) := by
        simp [scanStep, openQuote, Ne.symm hbody.1]
      rw [foldlM_scanStep_cons hstep]
      exact ih hbody.2

/-- From inside quotes the scan goes on behind the quote that closes them. -/
theorem foldlM_scanStep_behindQuote (h : quote ∈ cs) (k : Nat) :
    cs.foldlM scanStep (some quote, k) = (behindQuote quote cs).foldlM scanStep (none, k) := by
  obtain ⟨body, rest, rfl, hbody⟩ := List.eq_append_cons_of_mem h
  have hclose : scanStep (some quote, k) quote = some (none, k) := by simp [scanStep, openQuote]
  rw [behindQuote_append hbody, List.foldlM_append, foldlM_scanStep_body hbody]
  exact foldlM_scanStep_cons hclose rest

/-- The scan ends outside quotes if the text does, and then quoted text makes no difference. -/
theorem foldlM_scanStep_unquoted : cs.foldlM scanStep (none, k) = some (none, l) ↔
    EndsUnquoted cs ∧ (unquoted cs).foldlM scanStep (none, k) = some (none, l) := by
  fun_induction unquoted cs generalizing k with
  | case1 => simp [endsUnquoted_nil]
  | case2 quote rest hquote ih =>
      rw [foldlM_scanStep_cons (scanStep_quote hquote k), endsUnquoted_quote hquote]
      by_cases hmem : quote ∈ rest
      · rw [foldlM_scanStep_behindQuote hmem, ih]
        simp [hmem]
      · simp [foldlM_scanStep_body hmem, hmem]
  | case3 c rest hc ih =>
      rw [endsUnquoted_plain hc]
      obtain hstep | ⟨m, hstep⟩ := scanStep_plain hc k
      · simp [List.foldlM_cons, hstep]
      · rw [foldlM_scanStep_cons hstep, foldlM_scanStep_cons hstep]
        exact ih

/-- Without quotes the scan counts, and it fails at the first prefix that closes more parentheses
than were open before it and in it. -/
theorem foldlM_scanStep_plain (hcs : ∀ c ∈ cs, c ∉ quoteChars) :
    cs.foldlM scanStep (none, k) = some (none, l) ↔
      (∀ p, p <+: cs → p.count ')' ≤ k + p.count '(') ∧
        k + cs.count '(' = l + cs.count ')' := by
  induction cs generalizing k with
  | nil => simp
  | cons c rest ih =>
      rw [List.forall_mem_cons] at hcs
      rw [forall_prefix_cons]
      by_cases hopen : c = '('
      · subst hopen
        have hstep : scanStep (none, k) '(' = some (none, k + 1) := rfl
        rw [foldlM_scanStep_cons hstep, ih hcs.2]
        simp [Nat.add_assoc, Nat.add_comm 1]
      · by_cases hclose : c = ')'
        · subst hclose
          cases k with
          | zero =>
              have hstep : scanStep (none, 0) ')' = none := rfl
              rw [List.foldlM_cons, hstep]
              refine iff_of_false (by simp) fun h => ?_
              simpa using h.1.2 [] List.nil_prefix
          | succ k =>
              have hstep : scanStep (none, k + 1) ')' = some (none, k) := rfl
              rw [foldlM_scanStep_cons hstep, ih hcs.2]
              simp [Nat.add_right_comm k 1, ← Nat.add_assoc]
        · rw [foldlM_scanStep_cons (scanStep_other hopen hclose hcs.1 k), ih hcs.2]
          simp [List.count_cons_of_ne hopen, List.count_cons_of_ne hclose]

/-- How many parentheses a text opens outside quotes. -/
def openings (cs : List Char) : Nat := (unquoted cs).count '('

/-- How many parentheses a text closes outside quotes. -/
def closings (cs : List Char) : Nat := (unquoted cs).count ')'

/-- Which texts are sealed, said by counting. -/
theorem isSealed_iff (t : String) : IsSealed t ↔
    (∀ p, p <+: t.toList → closings p ≤ openings p) ∧
      openings t.toList = closings t.toList ∧ EndsUnquoted t.toList := by
  have hcount := foldlM_scanStep_plain (k := 0) (l := 0) (not_mem_unquoted t.toList)
  simp only [Nat.zero_add, ← forall_prefix_unquoted] at hcount
  rw [IsSealed, Spans, foldlM_scanStep_unquoted, hcount, and_comm, and_assoc]
  rfl

/-! The enclosing pair. -/

/-- What stands in front of the last character is nothing or starts like the whole. -/
theorem exists_cons_eq_append {last : Char} {P : List Char → Prop} :
    (∃ front, c :: cs = front ++ [last] ∧ P front) ↔
      (c = last ∧ cs = [] ∧ P []) ∨ ∃ front, cs = front ++ [last] ∧ P (c :: front) := by
  constructor
  · rintro ⟨front, heq, h⟩
    cases front with
    | nil =>
        obtain ⟨rfl, rfl⟩ := List.cons.inj heq
        exact .inl ⟨rfl, rfl, h⟩
    | cons first front =>
        obtain ⟨rfl, hcs⟩ := List.cons.inj heq
        exact .inr ⟨front, hcs, h⟩
  · rintro (⟨rfl, rfl, h⟩ | ⟨front, rfl, h⟩)
    · exact ⟨[], rfl, h⟩
    · exact ⟨c :: front, rfl, h⟩

/-- The count comes down to zero at the last character and not before exactly if the scan of what
is in front of that character closes all but the outermost parenthesis, and never that one. -/
theorem closesAtEnd_iff {quote : Option Char} {depth : Nat} :
    closesAtEnd quote (depth + 1) cs = true ↔
      ∃ t, cs = t ++ [')'] ∧ t.foldlM scanStep (quote, depth) = some (none, 0) := by
  induction cs generalizing quote depth with
  | nil => simp [closesAtEnd]
  | cons c rest ih =>
      rw [exists_cons_eq_append]
      cases quote with
      | some q =>
          have hstep : scanStep (some q, depth) c = some (openQuote (some q) c, depth) := rfl
          rw [closesAtEnd, ih]
          simp only [foldlM_scanStep_cons hstep]
          simp
      | none =>
          by_cases hopen : c = '('
          · subst hopen
            have hstep : scanStep (none, depth) '(' = some (none, depth + 1) := rfl
            rw [closesAtEnd, if_pos rfl, ih]
            simp only [foldlM_scanStep_cons hstep]
            simp
          · by_cases hclose : c = ')'
            · subst hclose
              cases depth with
              | zero =>
                  have hstep : scanStep (none, 0) ')' = none := rfl
                  simp [closesAtEnd, List.foldlM_cons, hstep]
              | succ depth =>
                  have hstep : scanStep (none, depth + 1) ')' = some (none, depth) := rfl
                  simp only [foldlM_scanStep_cons hstep, ← ih]
                  simp [closesAtEnd]
            · have hstep : scanStep (none, depth) c = some (openQuote none c, depth) := by
                simp [scanStep, hopen, hclose]
              simp only [foldlM_scanStep_cons hstep, ← ih]
              simp [closesAtEnd, hopen, hclose]

/-- The text between the two parentheses is sealed. -/
theorem isEnclosed_iff_isSealed (s : String) :
    Text.isEnclosed s = true ↔ ∃ t, s = "(" ++ t ++ ")" ∧ IsSealed t := by
  have hchars : Text.isEnclosed s = true ↔
      ∃ cs, s.toList = '(' :: cs ∧ closesAtEnd none 1 cs = true := by
    unfold Text.isEnclosed
    split
    · rename_i cs heq
      simp [heq]
    · rename_i hne
      simpa using fun cs heq => absurd heq (hne cs)
  rw [hchars]
  constructor
  · rintro ⟨cs, heq, hcloses⟩
    obtain ⟨t, rfl, hscan⟩ := closesAtEnd_iff.mp hcloses
    refine ⟨String.ofList t, String.toList_injective ?_, ?_⟩
    · simp [heq]
    · rwa [IsSealed, Spans, String.toList_ofList]
  · rintro ⟨t, rfl, hsealed⟩
    exact ⟨t.toList ++ [')'], by simp, closesAtEnd_iff.mpr ⟨t.toList, rfl, hsealed⟩⟩

/-- A text is taken for enclosed exactly if it is a pair of parentheses around a text that ends
outside quotes and in which, quoted text left out, no prefix closes more parentheses than it opens
and the whole opens and closes equally many. -/
theorem Text.isEnclosed_iff (s : String) :
    Text.isEnclosed s = true ↔ ∃ t : String, s = "(" ++ t ++ ")" ∧
      (∀ p, p <+: t.toList → closings p ≤ openings p) ∧
      openings t.toList = closings t.toList ∧ EndsUnquoted t.toList := by
  rw [isEnclosed_iff_isSealed]
  exact exists_congr fun t => and_congr_right fun _ => isSealed_iff t

/-- Two pairs side by side, a parenthesis in quotes, and a quote that stays open. -/
example : Text.isEnclosed "(a) OR (b)" = false ∧ Text.isEnclosed "(a = ')' OR (b))" = true ∧
    Text.isEnclosed "(a = ')" = false := by
  decide

end QueryCompiler
