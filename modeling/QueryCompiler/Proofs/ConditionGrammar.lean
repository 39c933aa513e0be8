import QueryCompiler.Proofs.GrammarUnambiguity
import QueryCompiler.Proofs.TruthValues

/-!
# The grammar of conditions

Conditions are read on four levels: constants, fields, comparisons of fields and what stands in
parentheses; negations; conjunctions; disjunctions. The comparisons are those of the reference
grammar. A chain of one connective is read as far as it goes, so a text is read as at most one
condition.
-/
namespace QueryCompiler

/-- What a condition asks of a row: a field, or the comparison of two. -/
inductive Atom where
  | field (path : List String)
  | comparison (name : String) (left right : List String)
  deriving DecidableEq, Repr

inductive Condition where
  | constant (value : Bool)
  | atom (a : Atom)
  | neg (operand : Condition)
  | join (c : Connective) (left right : Condition)
  deriving DecidableEq, Repr

/-- The value of a condition, given those of its atoms. -/
def Condition.value (v : Atom → Truth) : Condition → Truth
  | constant value => .ofBool value
  | atom a => v a
  | neg operand => (operand.value v).not
  | join c left right => c.join (left.value v) (right.value v)

namespace Connective

def level : Connective → Nat
  | conj => 2
  | disj => 3

/-- The loosest level of conditions. -/
def loosest : Nat := 3

end Connective

/-- A condition of a level ends in front of this text: only a looser connective may follow. -/
def Ends (k : Nat) (r : List Lexeme) : Prop :=
  ∀ w, r.head? = some (.key w) → ∃ c : Connective, c.word = w ∧ k < c.level

/-- The front of a text is read as a condition of a level, and the rest remains. -/
inductive ReadsCondition (b : Builtin) : Nat → List Lexeme → Condition → List Lexeme → Prop
  | constant {value : Bool} {r : List Lexeme} :
      ReadsCondition b 0 (.key (boolWord value) :: r) (.constant value) r
  | field {path : List String} {r : List Lexeme} (hends : Ends 0 r) :
      ReadsCondition b 0 (.name path :: r) (.atom (.field path)) r
  | comparison {rule : Rule} {words i r : List Lexeme} {left right : List String}
      (hrule : (rule, words) ∈ b.rules) (hform : rule.form = .between)
      (hwords : i = words ++ .name right :: r) :
      ReadsCondition b 0 (.name left :: i) (.atom (.comparison rule.name left right)) r
  | group {i r : List Lexeme} {c : Condition}
      (h : ReadsCondition b Connective.loosest i c (.closing :: r)) :
      ReadsCondition b 0 (.opening :: i) c r
  | neg {i r : List Lexeme} {c : Condition} (h : ReadsCondition b 1 i c r) :
      ReadsCondition b 1 (.key "NOT" :: i) (.neg c) r
  | operand {i r : List Lexeme} {c : Condition} (h : ReadsCondition b 0 i c r) :
      ReadsCondition b 1 i c r
  | join {op : Connective} {k : Nat} {i m r : List Lexeme} {c d : Condition}
      (hlevel : op.level = k + 1) (h : ReadsCondition b k i c (.key op.word :: m))
      (hrest : ReadsCondition b (k + 1) m d r) : ReadsCondition b (k + 1) i (.join op c d) r
  | alone {op : Connective} {k : Nat} {i r : List Lexeme} {c : Condition}
      (hlevel : op.level = k + 1) (h : ReadsCondition b k i c r) (hends : Ends (k + 1) r) :
      ReadsCondition b (k + 1) i c r

/-- A text as a whole is read as a condition of a level. -/
def Builtin.ReadsCondition (b : Builtin) (k : Nat) (text : String) (c : Condition) : Prop :=
  QueryCompiler.ReadsCondition b k (Lexeme.ofText text) c []

variable {b : Builtin}

theorem Ends.mono {k k' : Nat} {r : List Lexeme} (h : Ends k' r) (hle : k ≤ k') : Ends k r := by
  intro w hw
  obtain ⟨c, hword, hlevel⟩ := h w hw
  exact ⟨c, hword, Nat.lt_of_le_of_lt hle hlevel⟩

theorem ends_nil (k : Nat) : Ends k [] := nofun

theorem ends_closing (k : Nat) (r : List Lexeme) : Ends k (.closing :: r) := nofun

namespace Connective

theorem word_injective {c d : Connective} (h : c.word = d.word) : c = d := by
  cases c <;> cases d <;> first | rfl | exact absurd h (by decide)

theorem level_injective {c d : Connective} (h : c.level = d.level) : c = d := by
  cases c <;> cases d <;> first | rfl | exact absurd h (by decide)

theorem two_le_level (c : Connective) : 2 ≤ c.level := by
  cases c <;> decide

theorem ends_word {c : Connective} {k : Nat} (h : k < c.level) (r : List Lexeme) :
    Ends k (.key c.word :: r) := by
  rintro w ⟨⟩
  exact ⟨c, rfl, h⟩

theorem not_ends_word (c : Connective) (r : List Lexeme) : ¬ Ends c.level (.key c.word :: r) := by
  intro h
  obtain ⟨d, hword, hlevel⟩ := h _ rfl
  rw [word_injective hword] at hlevel
  exact Nat.lt_irrefl _ hlevel

end Connective

/-- The first word of a comparison is not that of a connective. -/
theorem not_ends_comparison {rule : Rule} {words : List Lexeme} (hrule : (rule, words) ∈ b.rules)
    (hform : rule.form = .between) (k : Nat) (r : List Lexeme) : ¬ Ends k (words ++ r) := by
  have hall : ∀ b : Builtin, (b.rules.all fun x => x.1.form != .between ||
      (x.2.head? != some (.key "AND") && x.2.head? != some (.key "OR"))) = true := by
    intro b
    cases b <;> decide +kernel
  obtain ⟨w, others, rfl⟩ := Builtin.rules_words hrule
  have hfirst := List.all_eq_true.mp (hall b) _ hrule
  intro h
  obtain ⟨c, rfl, -⟩ := h w rfl
  cases c <;> simp [hform, Connective.word] at hfirst

namespace ReadsCondition

/-- A negation is not read on the level of what it negates. -/
theorem not_word {i m r : List Lexeme} {c : Condition} (h : ReadsCondition b 0 i c r)
    (hi : i = .key "NOT" :: m) : False := by
  cases h with
  | @constant value =>
      have hword := (List.cons.inj hi).1
      revert hword
      cases value <;> decide
  | field | comparison | group => cases hi

/-- The reading of a condition is unique. -/
theorem unique {k : Nat} {i r r' : List Lexeme} {c c' : Condition}
    (h : ReadsCondition b k i c r) (h' : ReadsCondition b k i c' r') : c = c' ∧ r = r' := by
  induction h generalizing c' r' with
  | @constant value r =>
      generalize hi : Lexeme.key (boolWord value) :: r = i at h'
      cases h' with
      | @constant value' =>
          obtain ⟨hword, rfl⟩ := List.cons.inj hi
          have hvalue : value = value' := by
            revert hword
            cases value <;> cases value' <;> decide
          exact ⟨by rw [hvalue], rfl⟩
      | field | comparison | group => cases hi
  | field hends =>
      cases h' with
      | field => exact ⟨rfl, rfl⟩
      | comparison hrule hform hwords =>
          subst hwords
          exact absurd hends (not_ends_comparison hrule hform 0 _)
  | comparison hrule hform hwords =>
      cases h' with
      | field hends =>
          subst hwords
          exact absurd hends (not_ends_comparison hrule hform 0 _)
      | comparison hrule' hform' hwords' =>
          obtain ⟨rfl, hsame⟩ := Builtin.rules_behind hrule hrule' (by simp [hform])
            (by simp [hform']) hwords hwords'
          obtain ⟨⟨⟩, rfl⟩ := List.cons.inj hsame
          exact ⟨rfl, rfl⟩
  | group h ih =>
      cases h' with
      | group h' =>
          obtain ⟨rfl, hrest⟩ := ih h'
          exact ⟨rfl, (List.cons.inj hrest).2⟩
  | neg h ih =>
      generalize hk : 1 = k, hi : Lexeme.key "NOT" :: _ = i at h'
      cases h' with
      | neg h' =>
          obtain ⟨-, rfl⟩ := List.cons.inj hi
          obtain ⟨rfl, rfl⟩ := ih h'
          exact ⟨rfl, rfl⟩
      | operand h' => exact (h'.not_word hi.symm).elim
      | @join op k _ _ _ _ _ hlevel | @alone op k _ _ _ hlevel =>
          have htwo := op.two_le_level
          omega
      | constant | field | comparison | group => cases hk
  | operand h ih =>
      generalize hk : 1 = k at h'
      cases h' with
      | neg h' => exact (h.not_word rfl).elim
      | operand h' => exact ih h'
      | @join op k _ _ _ _ _ hlevel | @alone op k _ _ _ hlevel =>
          have htwo := op.two_le_level
          omega
      | constant | field | comparison | group => cases hk
  | @join op k _ _ _ _ _ hlevel h hrest ih ihrest =>
      have htwo := op.two_le_level
      generalize hk : k + 1 = k' at h'
      cases h' with
      | neg | operand => omega
      | join hlevel' h' hrest' =>
          obtain rfl := Nat.succ.inj hk
          obtain rfl := Connective.level_injective (hlevel.trans hlevel'.symm)
          obtain ⟨rfl, hm⟩ := ih h'
          obtain rfl := (List.cons.inj hm).2
          obtain ⟨rfl, rfl⟩ := ihrest hrest'
          exact ⟨rfl, rfl⟩
      | alone hlevel' h' hends =>
          obtain rfl := Nat.succ.inj hk
          obtain ⟨-, rfl⟩ := ih h'
          exact absurd (hlevel ▸ hends) (op.not_ends_word _)
      | constant | field | comparison | group => cases hk
  | @alone op k _ _ _ hlevel h hends ih =>
      have htwo := op.two_le_level
      generalize hk : k + 1 = k' at h'
      cases h' with
      | neg | operand => omega
      | @join op' _ _ _ _ _ _ hlevel' h' hrest' =>
          obtain rfl := Nat.succ.inj hk
          obtain ⟨-, rfl⟩ := ih h'
          exact absurd (hlevel' ▸ hends) (op'.not_ends_word _)
      | alone hlevel' h' hends' =>
          obtain rfl := Nat.succ.inj hk
          exact ih h'
      | constant | field | comparison | group => cases hk

end ReadsCondition

/-- A text is read as a condition of a level wherever such a condition may end. -/
def ReadsWhole (b : Builtin) (k : Nat) (ls : List Lexeme) (c : Condition) : Prop :=
  ∀ r, Ends k r → ReadsCondition b k (ls ++ r) c r

namespace ReadsWhole

variable {k k' : Nat} {ls : List Lexeme} {c : Condition}

/-- A condition of a level is one of each looser level. -/
theorem mono (h : ReadsWhole b k ls c) (hle : k ≤ k') (hloosest : k' ≤ Connective.loosest) :
    ReadsWhole b k' ls c := by
  induction hle with
  | refl => exact h
  | @step k' hle ih =>
      intro r hr
      have hread := ih (Nat.le_of_succ_le hloosest) r (hr.mono (Nat.le_succ k'))
      match k', hloosest with
      | 0, _ => exact .operand hread
      | 1, _ => exact .alone (rfl : Connective.conj.level = 2) hread hr
      | 2, _ => exact .alone (rfl : Connective.disj.level = 3) hread hr

theorem read (h : ReadsWhole b k ls c) : ReadsCondition b k ls c [] := by
  simpa using h [] (ends_nil k)

theorem constant (value : Bool) : ReadsWhole b 0 [.key (boolWord value)] (.constant value) :=
  fun _ _ => .constant

theorem field (path : List String) : ReadsWhole b 0 [.name path] (.atom (.field path)) :=
  fun _ hr => .field hr

theorem comparison {rule : Rule} {words : List Lexeme} (hrule : (rule, words) ∈ b.rules)
    (hform : rule.form = .between) (left right : List String) :
    ReadsWhole b 0 (.name left :: (words ++ [.name right]))
      (.atom (.comparison rule.name left right)) :=
  fun _ _ => .comparison hrule hform (by simp)

theorem neg (h : ReadsWhole b 1 ls c) : ReadsWhole b 1 (.key "NOT" :: ls) (.neg c) :=
  fun r hr => .neg (h r hr)

theorem group (h : ReadsWhole b Connective.loosest ls c) :
    ReadsWhole b 0 (.opening :: (ls ++ [.closing])) c := by
  intro r _
  have hread := h (.closing :: r) (ends_closing _ r)
  exact .group (by simpa using hread)

/-- A further operand in front of a chain. -/
theorem link {op : Connective} (hlevel : op.level = k + 1) (h : ReadsWhole b k ls c)
    {m r : List Lexeme} {d : Condition} (hrest : ReadsCondition b (k + 1) m d r) :
    ReadsCondition b (k + 1) (ls ++ .key op.word :: m) (.join op c d) r :=
  .join hlevel (h _ (op.ends_word (by omega) m)) hrest

/-- A constant is not read as anything else. -/
theorem eq_constant {value : Bool} (h : ReadsWhole b k [.key (boolWord value)] c)
    (hloosest : k ≤ Connective.loosest) : c = .constant value :=
  ((h.mono hloosest (Nat.le_refl _)).read.unique
    ((constant value).mono (Nat.zero_le _) (Nat.le_refl _)).read).1

end ReadsWhole

end QueryCompiler
