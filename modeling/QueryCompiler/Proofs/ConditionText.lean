import QueryCompiler.Proofs.ConditionGrammar
import QueryCompiler.Proofs.WrittenOperator

/-!
# Written conditions

What is known of the text of a condition: it is read back as a condition of the right value, on the
level of its context, and on every level if it is enclosed in parentheses. In front of a chain of
the connective of its level it adds operands.
-/
namespace QueryCompiler

/-- The value of a condition, given those of the atoms. -/
abbrev Meaning := (Atom → Truth) → Truth

def Condition.Has (m : Meaning) (c : Condition) : Prop := ∀ v, c.value v = m v

namespace Connective

/-- The place of a connective in the table of operators. -/
def rank : Connective → Nat
  | conj => 41
  | disj => 42

def operator (op : Connective) : Operator := ⟨op.word, .variadic, op.rank⟩

theorem operator_mem (op : Connective) : op.operator ∈ Operator.all := by
  cases op <;> decide

theorem word_mem (op : Connective) : op.word ∈ ["NOT", "AND", "OR"] := by
  cases op <;> decide

end Connective

theorem matched_word {word : String} (h : word ∈ ["NOT", "AND", "OR"]) : Matched word.toList := by
  have hall : ∀ word ∈ ["NOT", "AND", "OR"], quietFrom isParenthesis none word.toList = true := by
    decide +kernel
  exact matched_of_quiet (hall word h)

theorem ofChars_word {word : String} (h : word ∈ ["NOT", "AND", "OR"]) (cs : List Char) :
    Lexeme.ofChars (word.toList ++ ' ' :: cs) = .key word :: Lexeme.ofChars cs := by
  have hall : ∀ word ∈ ["NOT", "AND", "OR"], Lexeme.ofChars word.toList = [.key word] := by
    decide +kernel
  rw [Lexeme.ofChars_spaced (matched_word h).closed, hall word h]
  rfl

/-- The level on which a condition is read that is written for a context. -/
def conditionLevel (context : Nat) : Nat :=
  if context < Connective.conj.rank then 1 else if context < Connective.disj.rank then 2 else 3

theorem conditionLevel_le (context : Nat) : conditionLevel context ≤ Connective.loosest := by
  unfold conditionLevel
  split
  · decide
  · split <;> decide

theorem one_le_conditionLevel (context : Nat) : 1 ≤ conditionLevel context := by
  unfold conditionLevel
  split
  · decide
  · split <;> decide

theorem conditionLevel_rank (op : Connective) : conditionLevel op.rank = op.level := by
  cases op <;> rfl

theorem level_le_conditionLevel {op : Connective} {context : Nat} (h : op.rank ≤ context) :
    op.level ≤ conditionLevel context := by
  have hconj : ¬ context < Connective.conj.rank := by
    cases op <;> simp only [Connective.rank] at h ⊢ <;> omega
  rw [conditionLevel, if_neg hconj]
  cases op with
  | conj => split <;> decide
  | disj => rw [if_neg (Nat.not_lt.mpr h)]; decide

/-- In front of a chain of a connective a text adds operands of a value. -/
def Leads (b : Builtin) (op : Connective) (m : Meaning) (ls : List Lexeme) : Prop :=
  ∃ f : Condition → Condition,
    (∀ d v, (f d).value v = op.join (m v) (d.value v)) ∧
    ∀ i d r, ReadsCondition b op.level i d r →
      ReadsCondition b op.level (ls ++ .key op.word :: i) (f d) r

theorem Leads.append {b : Builtin} {op : Connective} {m m' : Meaning} {ls ls' : List Lexeme}
    (h : Leads b op m ls) (h' : Leads b op m' ls') :
    Leads b op (fun v => op.join (m v) (m' v)) (ls ++ .key op.word :: ls') := by
  obtain ⟨f, hf, hreads⟩ := h
  obtain ⟨f', hf', hreads'⟩ := h'
  refine ⟨f ∘ f', fun d v => ?_, fun i d r hrest => ?_⟩
  · rw [Function.comp_apply, hf, hf', op.join_assoc]
  · have hread := hreads _ _ _ (hreads' _ _ _ hrest)
    simpa using hread

/-- The text of a condition of a level that has a value. -/
structure Means (b : Builtin) (k : Nat) (m : Meaning) (cs : List Char) : Prop where
  matched : Matched cs
  extended : ∀ rest, rest ≠ [] → enclosed (cs ++ rest) = false
  reads : ∃ c, ReadsWhole b k (Lexeme.ofChars cs) c ∧ c.Has m
  whole : enclosed cs = true → ∃ c, ReadsWhole b 0 (Lexeme.ofChars cs) c ∧ c.Has m
  leads : ∀ op : Connective, op.level = k → Leads b op m (Lexeme.ofChars cs)

namespace Means

variable {b : Builtin} {k k' : Nat} {m m' : Meaning} {cs cs' : List Char}

theorem of_zero (hmatched : Matched cs)
    (hextended : ∀ rest, rest ≠ [] → enclosed (cs ++ rest) = false)
    (hreads : ∃ c, ReadsWhole b 0 (Lexeme.ofChars cs) c ∧ c.Has m) : Means b 0 m cs where
  matched := hmatched
  extended := hextended
  reads := hreads
  whole _ := hreads
  leads op hlevel := by
    have htwo := op.two_le_level
    omega

/-- A condition of a level fits where one of a looser level is asked for. -/
theorem mono (h : Means b k m cs) (hle : k ≤ k') (hloosest : k' ≤ Connective.loosest) :
    Means b k' m cs where
  matched := h.matched
  extended := h.extended
  reads := by
    obtain ⟨c, hread, hhas⟩ := h.reads
    exact ⟨c, hread.mono hle hloosest, hhas⟩
  whole := h.whole
  leads op hlevel := by
    obtain rfl | hlt := Nat.eq_or_lt_of_le hle
    · exact h.leads op hlevel
    · -- a condition of a tighter level is a single operand
      obtain ⟨c, hread, hhas⟩ := h.reads
      obtain ⟨j, rfl⟩ : ∃ j, k' = j + 1 := ⟨_, (Nat.succ_pred (by omega)).symm⟩
      refine ⟨.join op c, fun d v => by rw [Condition.value, hhas v], fun i d r hrest => ?_⟩
      rw [hlevel] at hrest ⊢
      exact (hread.mono (by omega) (by omega)).link hlevel hrest

theorem of_enclosed (h : Means b k m cs) (henclosed : enclosed cs = true) : Means b 0 m cs :=
  of_zero h.matched h.extended (h.whole henclosed)

theorem parenthesized (h : Means b k m cs) (hloosest : k ≤ Connective.loosest) :
    Means b 0 m ('(' :: (cs ++ [')'])) := by
  obtain ⟨c, hread, hhas⟩ := h.reads
  refine of_zero h.matched.parenthesized (fun rest hrest => h.matched.enclosed_append hrest)
    ⟨c, ?_, hhas⟩
  rw [Lexeme.ofChars_parenthesized h.matched.closed]
  exact (hread.mono hloosest (Nat.le_refl _)).group

/-- A connective is parenthesized where its level is too loose. -/
theorem wrap {op : Connective} {sql : Sql} (h : Means b op.level m sql.chars) (context : Nat) :
    Means b (conditionLevel context) m (Operator.wrap op.rank context sql).chars := by
  have hloosest := conditionLevel_le context
  unfold Operator.wrap
  split
  · rw [Sql.chars_parenthesized]
    exact (h.parenthesized (by cases op <;> decide)).mono (Nat.zero_le _) hloosest
  · exact h.mono (level_le_conditionLevel (by omega)) hloosest

theorem of_word {s : String} {l : Lexeme} {c : Condition} (h : IsWord s l)
    (hread : ReadsWhole b 0 [l] c) (hhas : c.Has m) : Means b 0 m s.toList := by
  have hquiet := parenthesis_of_delimiter h.quiet
  refine of_zero (matched_of_quiet hquiet)
    (fun rest _ => enclosed_of_quiet hquiet h.nonempty rest) ⟨c, ?_, hhas⟩
  rwa [h.ofChars]

theorem constant (value : Bool) :
    Means b 0 (fun _ => .ofBool value) (boolWord value).toList := by
  have hword : IsWord (boolWord value) (.key (boolWord value)) := by
    cases value <;> exact ⟨by decide +kernel, by decide, by decide +kernel⟩
  exact of_word hword (.constant value) fun _ => rfl

/-- The text of a constant has the value of that constant only. -/
theorem eq_constant {value : Bool} (h : Means b k m (boolWord value).toList)
    (hloosest : k ≤ Connective.loosest) : ∀ v, m v = .ofBool value := by
  obtain ⟨c, hread, hhas⟩ := h.reads
  have hlexemes : Lexeme.ofChars (boolWord value).toList = [.key (boolWord value)] := by
    cases value <;> decide +kernel
  rw [hlexemes] at hread
  rw [hread.eq_constant hloosest] at hhas
  exact fun v => (hhas v).symm

theorem neg (h : Means b 1 m cs) :
    Means b 1 (fun v => (m v).not) ("NOT".toList ++ ' ' :: cs) where
  matched := (matched_word (by decide)).append (matched_blank h.matched)
  extended rest _ := rfl
  reads := by
    obtain ⟨c, hread, hhas⟩ := h.reads
    refine ⟨.neg c, ?_, fun v => by rw [Condition.value, hhas v]⟩
    rw [ofChars_word (by decide)]
    exact hread.neg
  whole henclosed := nomatch henclosed
  leads op hlevel := by
    have htwo := op.two_le_level
    omega

/-- The comparison of two words. -/
theorem comparison {left right name : String} {l r : List String} {op : Operator}
    {words : List Lexeme} (hleft : IsWord left (.name l)) (hright : IsWord right (.name r))
    (hs : Spelled b op .between name words) :
    Means b 0 (fun v => v (.comparison op.name l r))
      (left.toList ++ ' ' :: (name.toList ++ ' ' :: right.toList)) := by
  have hquiet := parenthesis_of_delimiter hleft.quiet
  have hmatched := matched_of_quiet hquiet
  refine of_zero (hmatched.append (matched_blank (hs.matched.append
    (matched_blank (matched_of_quiet (parenthesis_of_delimiter hright.quiet))))))
    (fun rest _ => ?_) ⟨.atom (.comparison op.name l r), ?_, fun _ => rfl⟩
  · rw [List.append_assoc]
    exact enclosed_of_quiet hquiet hleft.nonempty _
  · rw [Lexeme.ofChars_spaced hmatched.closed, hs.ofChars_front, hleft.ofChars, hright.ofChars]
    exact .comparison hs.rule rfl l r

/-- A further operand in front of a chain. -/
theorem link {op : Connective} (h : Means b op.level m cs) (h' : Means b op.level m' cs') :
    Means b op.level (fun v => op.join (m v) (m' v))
      (cs ++ ' ' :: (op.word.toList ++ ' ' :: cs')) := by
  have hlexemes : Lexeme.ofChars (cs ++ ' ' :: (op.word.toList ++ ' ' :: cs')) =
      Lexeme.ofChars cs ++ .key op.word :: Lexeme.ofChars cs' := by
    rw [Lexeme.ofChars_spaced h.matched.closed, ofChars_word op.word_mem]
  have hextended : ∀ rest, enclosed (cs ++ ' ' :: (op.word.toList ++ ' ' :: cs') ++ rest) = false := by
    intro rest
    rw [List.append_assoc]
    exact h.extended _ (by simp)
  refine ⟨?_, fun rest _ => hextended rest, ?_, fun henclosed => ?_, ?_⟩
  · exact h.matched.append (matched_blank ((matched_word op.word_mem).append (matched_blank h'.matched)))
  · obtain ⟨f, hf, hreads⟩ := h.leads op rfl
    obtain ⟨d, hread, hhas⟩ := h'.reads
    refine ⟨f d, fun r hr => ?_, fun v => by rw [hf, hhas v]⟩
    have hwhole := hreads _ _ _ (hread r hr)
    rw [hlexemes]
    simpa using hwhole
  · have hnot := hextended []
    rw [List.append_nil, henclosed] at hnot
    cases hnot
  · intro op' hlevel
    obtain rfl := Connective.level_injective hlevel
    rw [hlexemes]
    exact (h.leads _ rfl).append (h'.leads _ rfl)

/-- The texts of conditions joined by a connective. -/
theorem chain {op : Connective} {sqls : List Sql} {ms : List Meaning}
    (h : List.Forall₂ (fun sql m => Means b op.level m sql.chars) sqls ms) (hne : sqls ≠ []) :
    Means b op.level (fun v => op.all (ms.map (· v)))
      (Sql.intercalate (" " ++ op.word ++ " ") sqls).chars := by
  induction h with
  | nil => exact absurd rfl hne
  | @cons sql m sqls ms hfirst hrest ih =>
      cases sqls with
      | nil =>
          cases hrest
          simpa [Sql.intercalate] using hfirst
      | cons next rest =>
          have hblanks : (" " ++ op.word ++ " ").toList = ' ' :: (op.word.toList ++ [' ']) := by
            simp
          have hlink := hfirst.link (ih (by simp))
          rw [Sql.chars_intercalate, hblanks, List.cons_append, List.append_assoc]
          simpa using hlink

end Means

end QueryCompiler
