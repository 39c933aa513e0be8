import QueryCompiler.Proofs.GrammarReading
import QueryCompiler.Proofs.GrammarUnambiguity

/-!
# A grammar with range tests

All comparisons and predicates, the range tests `BETWEEN` and `NOT BETWEEN` among them, form one
level here, which associates to the left like the levels of arithmetic and of `AND` and `OR`. The
bounds of a range test are read on the next tighter level, so the first `AND` behind its words
separates them. Levels and leading operators are those of the reference grammar, and a text is again
read as at most one tree.
-/
namespace QueryCompiler

/-- What stands behind the words of an operator that follows its first operand. -/
inductive Tail where
  /-- A second operand. -/
  | operand
  | nothing
  /-- A list in parentheses. -/
  | items
  /-- Two bounds with `AND` between them. -/
  | bounds
  deriving DecidableEq, Repr

/-- An operator that follows its first operand. -/
structure Suffix where
  name : String
  level : Nat
  tail : Tail
  deriving DecidableEq, Repr

def Form.tail? : Form → Option Tail
  | leading => none
  | chained => some .operand
  | between => some .operand
  | trailing => some .nothing
  | listed => some .items

def Suffix.all : List Suffix :=
  (Rule.all.filterMap fun rule => rule.form.tail?.map (Suffix.mk rule.name rule.level)) ++
    [⟨"BETWEEN", 6, .bounds⟩, ⟨"NOT BETWEEN", 6, .bounds⟩]

/-- The suffixes that a dialect has, with the words of their spelling. -/
def Builtin.suffixes (b : Builtin) : List (Suffix × List Lexeme) :=
  Suffix.all.filterMap fun s => (b.dialect.operatorName s.name).map fun spelled =>
    (s, (Text.words (· == ' ') spelled).map Lexeme.key)

inductive Phrase where
  /-- An expression of a level. -/
  | expr (level : Nat)
  /-- What follows the left operand on a level. -/
  | rest (level : Nat) (left : Tree)
  /-- What follows the words of an operator whose further operands have this level. -/
  | tail (level : Nat) (kind : Tail)
  /-- The items of a list that is not empty, with the closing parenthesis. -/
  | items

/-- The front of a text is parsed as a phrase, with the trees found in it and the text left over. -/
inductive Parses (b : Builtin) : Phrase → List Lexeme → List Tree → List Lexeme → Prop
  | field {path : List String} {r : List Lexeme} :
      Parses b (.expr 0) (.name path :: r) [.field path] r
  | param {name : String} {r : List Lexeme} :
      Parses b (.expr 0) (.param name :: r) [.param name] r
  | constant {w : String} {r : List Lexeme} (hw : w = "TRUE" ∨ w = "FALSE") :
      Parses b (.expr 0) (.key w :: r) [.op w []] r
  | group {i r : List Lexeme} {t : Tree} (h : Parses b (.expr Rule.loosest) i [t] (.closing :: r)) :
      Parses b (.expr 0) (.opening :: i) [t] r
  | leading {rule : Rule} {words i m r : List Lexeme} {k : Nat} {t : Tree}
      (hrule : (rule, words) ∈ b.rules) (hform : rule.form = .leading) (hlevel : rule.level = k)
      (hwords : i = words ++ m) (hlong : Longest words m) (h : Parses b (.expr k) m [t] r) :
      Parses b (.expr k) i [.op rule.name [t]] r
  | tighter {i m r : List Lexeme} {k : Nat} {t : Tree} {ts : List Tree}
      (h : Parses b (.expr k) i [t] m) (hrest : Parses b (.rest (k + 1) t) m ts r) :
      Parses b (.expr (k + 1)) i ts r
  | stop {k : Nat} {t : Tree} {r : List Lexeme} : Parses b (.rest k t) r [t] r
  | behind {s : Suffix} {words i m n r : List Lexeme} {k : Nat} {t : Tree} {us ts : List Tree}
      (hs : (s, words) ∈ b.suffixes) (hlevel : s.level = k + 1) (hwords : i = words ++ m)
      (h : Parses b (.tail k s.tail) m us n)
      (hrest : Parses b (.rest (k + 1) (.op s.name (t :: us))) n ts r) :
      Parses b (.rest (k + 1) t) i ts r
  | operand {i r : List Lexeme} {k : Nat} {t : Tree} (h : Parses b (.expr k) i [t] r) :
      Parses b (.tail k .operand) i [t] r
  | nothing {k : Nat} {r : List Lexeme} : Parses b (.tail k .nothing) r [] r
  | list {i r : List Lexeme} {k : Nat} {ts : List Tree} (h : Parses b .items i ts r) :
      Parses b (.tail k .items) (.opening :: i) ts r
  | bounds {i m r : List Lexeme} {k : Nat} {low high : Tree}
      (hlow : Parses b (.expr k) i [low] (.key "AND" :: m)) (hhigh : Parses b (.expr k) m [high] r) :
      Parses b (.tail k .bounds) i [low, high] r
  | last {i r : List Lexeme} {t : Tree} (h : Parses b (.expr Rule.loosest) i [t] (.closing :: r)) :
      Parses b .items i [t] r
  | more {i m r : List Lexeme} {t : Tree} {ts : List Tree}
      (h : Parses b (.expr Rule.loosest) i [t] (.comma :: m)) (hrest : Parses b .items m ts r) :
      Parses b .items i (t :: ts) r

/-- A text as a whole is parsed as a tree. -/
def Builtin.ParsesText (b : Builtin) (text : String) (t : Tree) : Prop :=
  Parses b (.expr Rule.loosest) (Lexeme.ofText text) [t] []

namespace Builtin

variable {b : Builtin}

/-! What the tables say about the words of operators. -/

theorem suffixes_words {s : Suffix} {words : List Lexeme} (h : (s, words) ∈ b.suffixes) :
    ∃ w others, words = .key w :: others := by
  have hall : ∀ b : Builtin, b.suffixes.all (fun x => startWithKey x.2) = true := by
    intro b
    cases b <;> decide +kernel
  have hwords : startWithKey words = true := List.all_eq_true.mp (hall b) _ h
  unfold startWithKey at hwords
  split at hwords
  · exact ⟨_, _, rfl⟩
  · cases hwords

/-- A common first word means a common level, and no suffix starts with the words of another. -/
def separate (x y : Suffix × List Lexeme) : Bool :=
  x.2.head? != y.2.head? || (x.1.level == y.1.level && (!x.2.isPrefixOf y.2 || x == y))

theorem suffixes_separate {x y : Suffix × List Lexeme} (hx : x ∈ b.suffixes)
    (hy : y ∈ b.suffixes) : separate x y = true := by
  have hall : ∀ b : Builtin,
      b.suffixes.all (fun x => b.suffixes.all fun y => separate x y) = true := by
    intro b
    cases b <;> decide +kernel
  exact List.all_eq_true.mp (List.all_eq_true.mp (hall b) x hx) y hy

theorem suffixes_level {x y : Suffix × List Lexeme} (hx : x ∈ b.suffixes) (hy : y ∈ b.suffixes)
    (hhead : x.2.head? = y.2.head?) : x.1.level = y.1.level := by
  have hseparate := suffixes_separate hx hy
  simp only [separate, hhead, bne_self_eq_false, Bool.false_or, Bool.and_eq_true, beq_iff_eq]
    at hseparate
  exact hseparate.1

theorem suffixes_part_eq {x y : Suffix × List Lexeme} (hx : x ∈ b.suffixes) (hy : y ∈ b.suffixes)
    (hle : x.2 <+: y.2) : x = y := by
  have hseparate := suffixes_separate hx hy
  obtain ⟨w, others, hwords⟩ := @suffixes_words b x.1 x.2 hx
  have hhead : x.2.head? = y.2.head? := by
    obtain ⟨rest, hrest⟩ := hle
    rw [← hrest, hwords]
    rfl
  simp only [separate, hhead, bne_self_eq_false, Bool.false_or, Bool.and_eq_true,
    List.isPrefixOf_iff_prefix.mpr hle, Bool.not_true, beq_iff_eq] at hseparate
  exact hseparate.2

/-- A text starts with the words of one suffix at most. -/
theorem suffixes_unique {s s' : Suffix} {words words' i m m' : List Lexeme}
    (h : (s, words) ∈ b.suffixes) (h' : (s', words') ∈ b.suffixes) (hwords : i = words ++ m)
    (hwords' : i = words' ++ m') : s = s' ∧ m = m' := by
  have heq : words ++ m = words' ++ m' := hwords.symm.trans hwords'
  have hsame : (s, words) = (s', words') := by
    obtain hle | hle := List.prefix_or_prefix_of_prefix (List.prefix_append words m)
      (heq ▸ List.prefix_append words' m')
    · exact suffixes_part_eq h h' hle
    · exact (suffixes_part_eq h' h hle).symm
  obtain ⟨rfl, rfl⟩ := Prod.mk.inj hsame
  exact ⟨rfl, List.append_cancel_left heq⟩

/-- The bounds of a range test are tighter than `AND`. -/
theorem suffixes_tighter {s : Suffix} {words : List Lexeme} {k : Nat}
    (h : (s, words) ∈ b.suffixes) (hlevel : s.level = k + 1) (hbounds : s.tail = .bounds) :
    k < 8 := by
  have hall : ∀ b : Builtin,
      b.suffixes.all (fun x => x.1.tail != .bounds || decide (x.1.level ≤ 8)) = true := by
    intro b
    cases b <;> decide +kernel
  have hle := List.all_eq_true.mp (hall b) _ h
  simp only [hbounds, bne_self_eq_false, Bool.false_or, decide_eq_true_eq] at hle
  omega

theorem rules_level_ne_zero {rule : Rule} {words : List Lexeme} (h : (rule, words) ∈ b.rules) :
    rule.level ≠ 0 := by
  have hall : ∀ rule ∈ Rule.all, rule.level ≠ 0 := by decide
  exact hall rule (mem_all_of_mem_rules h)

/-! Where a phrase may end. -/

/-- No suffix of a level or a tighter one starts like this text. -/
def Halts (b : Builtin) (k : Nat) (r : List Lexeme) : Prop :=
  ∀ x ∈ b.suffixes, x.1.level ≤ k → x.2.head? ≠ r.head?

theorem Halts.mono {k k' : Nat} {r : List Lexeme} (hr : b.Halts k r) (h : k' ≤ k) :
    b.Halts k' r :=
  fun x hx hle => hr x hx (Nat.le_trans hle h)

theorem halts_of_head {r : List Lexeme} (h : ∀ w, r.head? ≠ some (.key w)) (k : Nat) :
    b.Halts k r := by
  rintro ⟨s, words⟩ hs - hhead
  obtain ⟨w, others, rfl⟩ := suffixes_words hs
  exact h w hhead.symm

theorem halts_nil (k : Nat) : b.Halts k [] := halts_of_head (by simp) k

theorem halts_closing (k : Nat) (r : List Lexeme) : b.Halts k (.closing :: r) :=
  halts_of_head (by simp) k

theorem halts_comma (k : Nat) (r : List Lexeme) : b.Halts k (.comma :: r) :=
  halts_of_head (by simp) k

/-- A first bound ends at `AND`. -/
theorem halts_and {k : Nat} (hk : k < 8) (r : List Lexeme) : b.Halts k (.key "AND" :: r) := by
  have hall : ∀ b : Builtin, b.suffixes.all (fun x =>
      x.2.head? != some (.key "AND") || x.1.level == 8) = true := by
    intro b
    cases b <;> decide +kernel
  intro x hx hle hhead
  rw [List.head?_cons] at hhead
  have hlevel := List.all_eq_true.mp (hall b) x hx
  simp only [hhead, bne_self_eq_false, Bool.false_or, beq_iff_eq] at hlevel
  omega

/-- The first word of a suffix ends all phrases of tighter levels. -/
theorem suffixes_halt {s : Suffix} {words m : List Lexeme} {k : Nat} (h : (s, words) ∈ b.suffixes)
    (hlevel : s.level = k + 1) : b.Halts k (words ++ m) := by
  intro x hx hle hhead
  obtain ⟨w, others, rfl⟩ := suffixes_words h
  have hsame := suffixes_level hx h hhead
  simp only at hsame
  omega

/-- Where no suffix of a level may follow, none does. -/
theorem Halts.not_suffix {s : Suffix} {words i m : List Lexeme} {k : Nat} (hi : b.Halts k i)
    (h : (s, words) ∈ b.suffixes) (hlevel : s.level = k) (hwords : i = words ++ m) : False := by
  obtain ⟨w, others, rfl⟩ := suffixes_words h
  subst hwords
  exact hi _ h (Nat.le_of_eq hlevel) rfl

end Builtin

open Builtin

variable {b : Builtin}

def Phrase.Halts (b : Builtin) (r : List Lexeme) : Phrase → Prop
  | expr k => b.Halts k r
  | rest k _ => b.Halts k r
  | tail k kind => b.Halts k r ∧ (kind = .bounds → k < 8)
  | items => True

namespace Parses

variable {k : Nat} {i m r : List Lexeme} {t : Tree} {ts : List Tree}

/-- A key word at the start of an expression is a constant or belongs to a leading operator of its
level or a tighter one. -/
theorem head_key (h : Parses b (.expr k) i ts r) {w : String} (hw : i.head? = some (.key w)) :
    (w = "TRUE" ∨ w = "FALSE") ∨
      ∃ x ∈ b.rules, x.1.form = .leading ∧ x.1.level ≤ k ∧ x.2.head? = some (.key w) := by
  generalize hphrase : Phrase.expr k = phrase at h
  induction h generalizing k with
  | field | param | group => cases hw
  | constant hconstant =>
      obtain ⟨⟩ := hw
      exact .inl hconstant
  | leading hrule hform hlevel hwords =>
      obtain ⟨⟩ := hphrase
      obtain ⟨v, others, rfl⟩ := rules_words hrule
      subst hwords
      exact .inr ⟨_, hrule, hform, Nat.le_of_eq hlevel, hw⟩
  | tighter h hrest ih =>
      obtain ⟨⟩ := hphrase
      obtain hconstant | ⟨x, hx, hform, hlevel, hhead⟩ := ih hw rfl
      · exact .inl hconstant
      · exact .inr ⟨x, hx, hform, Nat.le_succ_of_le hlevel, hhead⟩
  | stop | behind | operand | nothing | list | bounds | last | more => cases hphrase

/-- A leading operator is not the start of a tighter expression. -/
theorem not_leading {rule : Rule} {words : List Lexeme} (h : Parses b (.expr k) i ts r)
    (hrule : (rule, words) ∈ b.rules) (hform : rule.form = .leading) (hlevel : rule.level = k + 1)
    (hwords : i = words ++ m) : False := by
  obtain ⟨w, others, rfl⟩ := rules_words hrule
  subst hwords
  obtain hconstant | ⟨x, hx, hxform, hxlevel, hhead⟩ := h.head_key rfl
  · exact rules_not_constant hrule hform hconstant rfl
  · have hsame := rules_level hrule hx (by simp [hform, hxform]) hhead.symm
    simp only at hsame
    omega

/-- What follows a left operand starts with nothing that the operand could go on with. -/
theorem rest_halts (h : Parses b (.rest (k + 1) t) i ts r) (hr : b.Halts (k + 1) r) :
    b.Halts k i := by
  cases h with
  | stop => exact hr.mono (Nat.le_succ k)
  | behind hs hlevel hwords =>
      subst hwords
      exact suffixes_halt hs hlevel

/-- Where a left operand is followed by the words of a suffix, the text is parsed by that suffix. -/
theorem next {s : Suffix} {words : List Lexeme} (hs : (s, words) ∈ b.suffixes)
    (hlevel : s.level = k + 1) (hwords : i = words ++ m) (h : Parses b (.rest (k + 1) t) i ts r)
    (hr : b.Halts (k + 1) r) :
    ∃ us n, Parses b (.tail k s.tail) m us n ∧
      Parses b (.rest (k + 1) (.op s.name (t :: us))) n ts r := by
  cases h with
  | stop => exact (hr.not_suffix hs hlevel hwords).elim
  | behind hs' hlevel' hwords' htail hrest =>
      obtain ⟨rfl, rfl⟩ := suffixes_unique hs hs' hwords hwords'
      exact ⟨_, _, htail, hrest⟩

theorem unique {phrase : Phrase} {r' : List Lexeme} {ts' : List Tree} (h : Parses b phrase i ts r)
    (hr : phrase.Halts b r) (h' : Parses b phrase i ts' r') (hr' : phrase.Halts b r') :
    ts = ts' ∧ r = r' := by
  induction h generalizing ts' r' with
  | field =>
      cases h' with
      | field => exact ⟨rfl, rfl⟩
      | leading hrule _ hlevel => exact absurd hlevel (rules_level_ne_zero hrule)
  | param =>
      cases h' with
      | param => exact ⟨rfl, rfl⟩
      | leading hrule _ hlevel => exact absurd hlevel (rules_level_ne_zero hrule)
  | constant =>
      cases h' with
      | constant => exact ⟨rfl, rfl⟩
      | leading hrule _ hlevel => exact absurd hlevel (rules_level_ne_zero hrule)
  | group h ih =>
      cases h' with
      | group h' =>
          obtain ⟨hts, hrest⟩ := ih (halts_closing _ _) h' (halts_closing _ _)
          exact ⟨hts, (List.cons.inj hrest).2⟩
      | leading hrule _ hlevel => exact absurd hlevel (rules_level_ne_zero hrule)
  | leading hrule hform hlevel hwords hlong h ih =>
      cases h' with
      | field | param | constant | group => exact absurd hlevel (rules_level_ne_zero hrule)
      | leading hrule' hform' hlevel' hwords' hlong' h' =>
          obtain ⟨rfl, rfl⟩ := rules_unique hrule hrule' (by simp [hform, hform'])
            (hwords.symm.trans hwords') (fun _ => hlong) fun _ => hlong'
          obtain ⟨hts, rfl⟩ := ih hr h' hr'
          exact ⟨by rw [(List.cons.inj hts).1], rfl⟩
      | tighter h' => exact (h'.not_leading hrule hform hlevel hwords).elim
  | tighter h hrest ih ihrest =>
      cases h' with
      | leading hrule hform hlevel hwords => exact (h.not_leading hrule hform hlevel hwords).elim
      | tighter h' hrest' =>
          obtain ⟨hts, rfl⟩ := ih (hrest.rest_halts hr) h' (hrest'.rest_halts hr')
          obtain rfl := (List.cons.inj hts).1
          exact ihrest hr hrest' hr'
  | stop =>
      cases h' with
      | stop => exact ⟨rfl, rfl⟩
      | behind hs hlevel hwords => exact (Halts.not_suffix hr hs hlevel hwords).elim
  | behind hs hlevel hwords h hrest ih ihrest =>
      obtain ⟨us, n, htail, hrest'⟩ := next hs hlevel hwords h' hr'
      -- a first bound is told from the second one only because `AND` is looser than both
      have htight := suffixes_tighter hs hlevel
      obtain ⟨rfl, rfl⟩ := ih ⟨hrest.rest_halts hr, htight⟩ htail ⟨hrest'.rest_halts hr', htight⟩
      exact ihrest hr hrest' hr'
  | operand h ih =>
      cases h' with
      | operand h' => exact ih hr.1 h' hr'.1
  | nothing =>
      cases h' with
      | nothing => exact ⟨rfl, rfl⟩
  | list h ih =>
      cases h' with
      | list h' => exact ih trivial h' trivial
  | bounds hlow hhigh ihlow ihhigh =>
      cases h' with
      | bounds hlow' hhigh' =>
          have hand := fun r => halts_and (b := b) (hr.2 rfl) r
          obtain ⟨htrees, hrest⟩ := ihlow (hand _) hlow' (hand _)
          obtain rfl := (List.cons.inj hrest).2
          obtain ⟨htrees', rfl⟩ := ihhigh hr.1 hhigh' hr'.1
          rw [(List.cons.inj htrees).1, (List.cons.inj htrees').1]
          exact ⟨rfl, rfl⟩
  | last h ih =>
      cases h' with
      | last h' =>
          obtain ⟨hts, hrest⟩ := ih (halts_closing _ _) h' (halts_closing _ _)
          exact ⟨hts, (List.cons.inj hrest).2⟩
      | more h' =>
          obtain ⟨_, hrest⟩ := ih (halts_closing _ _) h' (halts_comma _ _)
          cases hrest
  | more h hrest ih ihrest =>
      cases h' with
      | last h' =>
          obtain ⟨_, hrest⟩ := ih (halts_comma _ _) h' (halts_closing _ _)
          cases hrest
      | more h' hrest' =>
          obtain ⟨hts, hmore⟩ := ih (halts_comma _ _) h' (halts_comma _ _)
          obtain rfl := (List.cons.inj hts).1
          obtain rfl := (List.cons.inj hmore).2
          obtain ⟨rfl, rfl⟩ := ihrest trivial hrest' trivial
          exact ⟨rfl, rfl⟩

end Parses

/-- The grammar is unambiguous. -/
theorem Builtin.ParsesText.unique {text : String} {t t' : Tree} (h : b.ParsesText text t)
    (h' : b.ParsesText text t') : t = t' := by
  obtain ⟨hts, _⟩ := Parses.unique h (halts_nil _) h' (halts_nil _)
  exact (List.cons.inj hts).1

end QueryCompiler
