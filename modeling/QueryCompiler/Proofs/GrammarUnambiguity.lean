import QueryCompiler.Proofs.ReferenceGrammar

/-!
# The reference grammar is unambiguous

A text is read as at most one tree. The reading of a part is unique among those that stop at the
same places: at the end, at a closing parenthesis or comma, or at an operator of a looser level.
-/
namespace QueryCompiler

namespace Builtin

variable (b : Builtin)

/-- Whether an expression of a level may go on with a lexeme. -/
def continues (k : Nat) (l : Lexeme) : Bool :=
  match l with
  | .closing | .comma => false
  | .opening | .name _ | .param _ => true
  | .key _ => b.rules.any fun (rule, words) =>
      rule.form != .leading && decide (rule.level ≤ k) && words.head? == some l

/-- An expression of a level cannot go on with this text. -/
def Stops (k : Nat) (r : List Lexeme) : Prop := ∀ l ∈ r.head?, b.continues k l = false

variable {b}

theorem continues_mono {k k' : Nat} (h : k' ≤ k) {l : Lexeme} (hl : b.continues k l = false) :
    b.continues k' l = false := by
  cases l with
  | closing | comma => rfl
  | opening | name | param => cases hl
  | key w =>
      simp only [continues, List.any_eq_false, Bool.and_eq_true, bne_iff_ne, decide_eq_true_eq,
        not_and] at hl ⊢
      exact fun x hx hform => hl x hx ⟨hform.1, Nat.le_trans hform.2 h⟩

theorem Stops.mono {k k' : Nat} (h : k' ≤ k) {r : List Lexeme} (hr : b.Stops k r) :
    b.Stops k' r :=
  fun l hl => continues_mono h (hr l hl)

theorem stops_nil (k : Nat) : b.Stops k [] := fun _ hl => by cases hl

theorem stops_closing (k : Nat) (r : List Lexeme) : b.Stops k (.closing :: r) := by
  rintro l ⟨⟩
  rfl

theorem stops_comma (k : Nat) (r : List Lexeme) : b.Stops k (.comma :: r) := by
  rintro l ⟨⟩
  rfl

/-! What the table of rules says about the words of operators. -/

/-- Whether words start with a key word. -/
def startWithKey : List Lexeme → Bool
  | .key _ :: _ => true
  | _ => false

theorem rules_words {rule : Rule} {words : List Lexeme} (h : (rule, words) ∈ b.rules) :
    ∃ w others, words = .key w :: others := by
  have hall : ∀ b : Builtin, b.rules.all (fun x => startWithKey x.2) = true := by
    intro b
    cases b <;> decide +kernel
  have hwords : startWithKey words = true := List.all_eq_true.mp (hall b) _ h
  unfold startWithKey at hwords
  split at hwords
  · exact ⟨_, _, rfl⟩
  · cases hwords

/-- A text that starts with the words of an operator starts with a key word. -/
theorem rules_key {rule : Rule} {words i m : List Lexeme} {l : Lexeme}
    (h : (rule, words) ∈ b.rules) (hwords : l :: i = words ++ m) : ∃ w, l = .key w := by
  obtain ⟨w, others, rfl⟩ := rules_words h
  exact ⟨w, (List.cons.inj hwords).1⟩

/-- Two operators that may stand in the same place: a common first word means a common level, and
neither starts with the words of the other, but for `NOT` and `NOT EXISTS`. -/
def apart (x y : Rule × List Lexeme) : Bool :=
  x.2.head? != y.2.head? || (x.1.level == y.1.level && (!x.2.isPrefixOf y.2 || x == y ||
    (x.1.form == .leading && x.2 == [.key "NOT"] && y.2 == [.key "NOT", .key "EXISTS"])))

theorem rules_apart {x y : Rule × List Lexeme} (hx : x ∈ b.rules) (hy : y ∈ b.rules)
    (hplace : x.1.form = .leading ↔ y.1.form = .leading) : apart x y = true := by
  have hall : ∀ b : Builtin, b.rules.all (fun x => b.rules.all fun y =>
      (x.1.form == .leading) != (y.1.form == .leading) || apart x y) = true := by
    intro b
    cases b <;> decide +kernel
  have hxy := List.all_eq_true.mp (List.all_eq_true.mp (hall b) x hx) y hy
  have hsame : (x.1.form == .leading) = (y.1.form == .leading) := by
    rw [Bool.eq_iff_iff, beq_iff_eq, beq_iff_eq]
    exact hplace
  simpa [hsame] using hxy

/-- Operators in the same place with a common first word are on the same level. -/
theorem rules_level {x y : Rule × List Lexeme} (hx : x ∈ b.rules) (hy : y ∈ b.rules)
    (hplace : x.1.form = .leading ↔ y.1.form = .leading) (hhead : x.2.head? = y.2.head?) :
    x.1.level = y.1.level := by
  have hapart := rules_apart hx hy hplace
  simp only [apart, hhead, bne_self_eq_false, Bool.false_or, Bool.and_eq_true, beq_iff_eq] at hapart
  exact hapart.1

/-- The first word of an operator behind an operand stops all tighter levels. -/
theorem rules_stop {rule : Rule} {words m : List Lexeme} {k : Nat} (h : (rule, words) ∈ b.rules)
    (hform : rule.form ≠ .leading) (hlevel : rule.level = k + 1) : b.Stops k (words ++ m) := by
  obtain ⟨w, others, rfl⟩ := rules_words h
  rintro l ⟨⟩
  simp only [continues, List.any_eq_false, Bool.and_eq_true, bne_iff_ne, decide_eq_true_eq,
    beq_iff_eq]
  rintro y hy ⟨⟨hyform, hle⟩, hhead⟩
  have hsame := rules_level hy h (by simp [hform, hyform]) hhead
  simp only at hsame
  omega

theorem rules_continue {rule : Rule} {words m : List Lexeme} {k : Nat} (h : (rule, words) ∈ b.rules)
    (hform : rule.form ≠ .leading) (hlevel : rule.level = k) : ¬ b.Stops k (words ++ m) := by
  obtain ⟨w, others, rfl⟩ := rules_words h
  intro hstops
  have hfalse := hstops (.key w) rfl
  simp only [continues, List.any_eq_false] at hfalse
  refine hfalse _ h ?_
  simp [hform, hlevel]

/-- Of two operators in the same place that a text starts with, one cannot be a part of the other. -/
theorem rules_part_eq {x y : Rule × List Lexeme} {m m' : List Lexeme} (hx : x ∈ b.rules)
    (hy : y ∈ b.rules) (hplace : x.1.form = .leading ↔ y.1.form = .leading)
    (heq : x.2 ++ m = y.2 ++ m') (hlong : x.1.form = .leading → Longest x.2 m)
    (hle : x.2 <+: y.2) : x = y := by
  have hapart := rules_apart hx hy hplace
  obtain ⟨w, others, hwords⟩ := @rules_words b x.1 x.2 hx
  have hhead : x.2.head? = y.2.head? := by
    obtain ⟨rest, hrest⟩ := hle
    rw [← hrest, hwords]
    rfl
  simp only [apart, hhead, bne_self_eq_false, Bool.false_or, Bool.and_eq_true, Bool.or_eq_true,
    List.isPrefixOf_iff_prefix.mpr hle, Bool.not_true, beq_iff_eq] at hapart
  obtain hsame | ⟨⟨hform, hnot⟩, hexists⟩ := hapart.2
  · exact hsame
  · rw [hnot, hexists] at heq
    obtain rfl := (List.cons.inj heq).2
    exact absurd rfl (hlong hform hnot)

/-- A text starts with the words of one operator at most. -/
theorem rules_unique {rule rule' : Rule} {words words' m m' : List Lexeme}
    (h : (rule, words) ∈ b.rules) (h' : (rule', words') ∈ b.rules)
    (hplace : rule.form = .leading ↔ rule'.form = .leading) (heq : words ++ m = words' ++ m')
    (hlong : rule.form = .leading → Longest words m)
    (hlong' : rule'.form = .leading → Longest words' m') : rule = rule' ∧ m = m' := by
  have hsame : (rule, words) = (rule', words') := by
    obtain hle | hle := List.prefix_or_prefix_of_prefix (List.prefix_append words m)
      (heq ▸ List.prefix_append words' m')
    · exact rules_part_eq h h' hplace heq hlong hle
    · exact (rules_part_eq h' h hplace.symm heq.symm hlong' hle).symm
  obtain ⟨rfl, rfl⟩ := Prod.mk.inj hsame
  exact ⟨rfl, List.append_cancel_left heq⟩

theorem rules_behind {rule rule' : Rule} {words words' i m m' : List Lexeme}
    (h : (rule, words) ∈ b.rules) (h' : (rule', words') ∈ b.rules) (hform : rule.form ≠ .leading)
    (hform' : rule'.form ≠ .leading) (hwords : i = words ++ m) (hwords' : i = words' ++ m') :
    rule = rule' ∧ m = m' :=
  rules_unique h h' (by simp [hform, hform']) (hwords.symm.trans hwords')
    (fun hleading => absurd hleading hform) fun hleading => absurd hleading hform'

/-- No leading operator is written like a constant. -/
theorem rules_not_constant {rule : Rule} {words : List Lexeme} (h : (rule, words) ∈ b.rules)
    (hform : rule.form = .leading) {w : String} (hw : w = "TRUE" ∨ w = "FALSE") :
    words.head? ≠ some (.key w) := by
  have hall : ∀ b : Builtin, (b.rules.all fun x => x.1.form != .leading ||
      (x.2.head? != some (.key "TRUE") && x.2.head? != some (.key "FALSE"))) = true := by
    intro b
    cases b <;> decide +kernel
  have hwords := List.all_eq_true.mp (hall b) _ h
  simp only [hform, bne_self_eq_false, Bool.false_or, Bool.and_eq_true, bne_iff_ne] at hwords
  obtain rfl | rfl := hw
  · exact hwords.1
  · exact hwords.2

end Builtin

open Builtin

variable {b : Builtin}

/-- A key word at the start of an expression belongs to an operator of its level or a tighter one. -/
theorem Reads.head_key {k : Nat} {i r : List Lexeme} {ts : List Tree}
    (h : Reads b (.expr k) i ts r) {w : String} (hw : i.head? = some (.key w)) :
    ∃ x ∈ b.rules, x.1.form = .leading ∧ x.1.level ≤ k ∧ x.2.head? = some (.key w) := by
  generalize hgoal : Goal.expr k = goal at h
  induction h generalizing k with
  | field | param | call | group => cases hw
  | @leading rule words i m r k' t hrule hform hlevel hwords hlong h ih =>
      obtain ⟨⟩ := hgoal
      obtain ⟨v, others, rfl⟩ := rules_words hrule
      subst hwords
      exact ⟨_, hrule, hform, Nat.le_of_eq hlevel, hw⟩
  | tighter h hrest ih =>
      obtain ⟨⟩ := hgoal
      obtain ⟨x, hx, hform, hlevel, hhead⟩ := ih hw rfl
      exact ⟨x, hx, hform, Nat.le_succ_of_le hlevel, hhead⟩
  | stop | chained | between | trailing | listed | noArgs | someArgs | last | more => cases hgoal

/-- What follows a left operand starts with nothing that the operand could go on with. -/
theorem Reads.rest_stops {k : Nat} {t : Tree} {i r : List Lexeme} {ts : List Tree}
    (h : Reads b (.rest (k + 1) t) i ts r) (hr : b.Stops (k + 1) r) : b.Stops k i := by
  cases h with
  | stop => exact hr.mono (Nat.le_succ k)
  | chained hrule hform hlevel hwords | between hrule hform hlevel hwords
  | trailing hrule hform hlevel hwords | listed hrule hform hlevel hwords =>
      subst hwords
      exact rules_stop hrule (by simp [hform]) hlevel

/-- Where a reading may end. -/
def Goal.Stops (b : Builtin) (r : List Lexeme) : Goal → Prop
  | expr k => b.Stops k r
  | rest k _ => b.Stops k r
  | args => True
  | items => True

/-- An operator is not the start of a tighter expression. -/
theorem Reads.not_leading {rule : Rule} {words i m r : List Lexeme} {k : Nat} {ts : List Tree}
    (h : Reads b (.expr k) i ts r) (hrule : (rule, words) ∈ b.rules) (hform : rule.form = .leading)
    (hlevel : rule.level = k + 1) (hwords : i = words ++ m) : False := by
  obtain ⟨w, others, rfl⟩ := rules_words hrule
  subst hwords
  obtain ⟨x, hx, hxform, hxlevel, hhead⟩ := h.head_key rfl
  have hsame := rules_level hrule hx (by simp [hform, hxform]) hhead.symm
  simp only at hsame
  omega

theorem Reads.not_closing {k : Nat} {i r : List Lexeme} {ts : List Tree}
    (h : Reads b (.expr k) (.closing :: i) ts r) : False := by
  induction k generalizing ts r with
  | zero =>
      cases h with
      | leading hrule _ _ hwords => obtain ⟨_, ⟨⟩⟩ := rules_key hrule hwords
  | succ k ih =>
      cases h with
      | leading hrule _ _ hwords => obtain ⟨_, ⟨⟩⟩ := rules_key hrule hwords
      | tighter h => exact ih h

theorem Reads.items_not_closing {i r : List Lexeme} {ts : List Tree}
    (h : Reads b .items (.closing :: i) ts r) : False := by
  cases h with
  | last h => exact h.not_closing
  | more h => exact h.not_closing

/-- Nothing follows a left operand where the reading may end. -/
theorem Reads.not_rest {rule : Rule} {words m : List Lexeme} {k : Nat}
    (hrule : (rule, words) ∈ b.rules) (hform : rule.form ≠ .leading) (hlevel : rule.level = k)
    {i : List Lexeme} (hwords : i = words ++ m) (hi : b.Stops k i) : False := by
  subst hwords
  exact rules_continue hrule hform hlevel hi

/-- How a reading behind a left operand goes on with the text behind the words of a rule. -/
def Rule.GoesOn (b : Builtin) (rule : Rule) (k : Nat) (t : Tree) (m : List Lexeme)
    (ts : List Tree) (r : List Lexeme) : Prop :=
  match rule.form with
  | .leading => False
  | .chained => ∃ k' u n, k = k' + 1 ∧ Reads b (.expr k') m [u] n ∧
      Reads b (.rest k (.op rule.name [t, u])) n ts r
  | .between => ∃ k' u, k = k' + 1 ∧ Reads b (.expr k') m [u] r ∧ ts = [.op rule.name [t, u]]
  | .trailing => m = r ∧ ts = [.op rule.name [t]]
  | .listed => ∃ n us, m = .opening :: n ∧ Reads b .items n us r ∧ ts = [.op rule.name (t :: us)]

/-- Where a left operand is followed by the words of a rule, the reading goes on by that rule. -/
theorem Reads.goesOn {rule : Rule} {words m : List Lexeme} {k : Nat}
    (hrule : (rule, words) ∈ b.rules) (hform : rule.form ≠ .leading) (hlevel : rule.level = k)
    {i : List Lexeme} (hwords : i = words ++ m) {t : Tree} {ts : List Tree} {r : List Lexeme}
    (h : Reads b (.rest k t) i ts r) (hr : b.Stops k r) : rule.GoesOn b k t m ts r := by
  cases h with
  | stop => exact (Reads.not_rest hrule hform hlevel hwords hr).elim
  | chained hrule' hform' _ hwords' h hrest =>
      obtain ⟨rfl, rfl⟩ := rules_behind hrule hrule' hform (by simp [hform']) hwords hwords'
      simp only [Rule.GoesOn, hform']
      exact ⟨_, _, _, rfl, h, hrest⟩
  | between hrule' hform' _ hwords' h =>
      obtain ⟨rfl, rfl⟩ := rules_behind hrule hrule' hform (by simp [hform']) hwords hwords'
      simp only [Rule.GoesOn, hform']
      exact ⟨_, _, rfl, h, rfl⟩
  | trailing hrule' hform' _ hwords' =>
      obtain ⟨rfl, rfl⟩ := rules_behind hrule hrule' hform (by simp [hform']) hwords hwords'
      simp [Rule.GoesOn, hform']
  | listed hrule' hform' _ hwords' h =>
      obtain ⟨rfl, rfl⟩ := rules_behind hrule hrule' hform (by simp [hform']) hwords hwords'
      simp only [Rule.GoesOn, hform']
      exact ⟨_, _, rfl, h, rfl⟩

/-- The reading of a part is unique. -/
theorem Reads.unique {goal : Goal} {i r r' : List Lexeme} {ts ts' : List Tree}
    (h : Reads b goal i ts r) (hr : goal.Stops b r) (h' : Reads b goal i ts' r')
    (hr' : goal.Stops b r') : ts = ts' ∧ r = r' := by
  induction h generalizing ts' r' with
  | field =>
      cases h' with
      | field => exact ⟨rfl, rfl⟩
      | call => exact absurd (hr _ rfl) (by simp [continues])
      | leading hrule _ _ hwords => obtain ⟨_, ⟨⟩⟩ := rules_key hrule hwords
  | param =>
      cases h' with
      | param => exact ⟨rfl, rfl⟩
      | leading hrule _ _ hwords => obtain ⟨_, ⟨⟩⟩ := rules_key hrule hwords
  | call h ih =>
      cases h' with
      | field => exact absurd (hr' _ rfl) (by simp [continues])
      | call h' =>
          obtain ⟨rfl, rfl⟩ := ih trivial h' trivial
          exact ⟨rfl, rfl⟩
      | leading hrule _ _ hwords => obtain ⟨_, ⟨⟩⟩ := rules_key hrule hwords
  | group h ih =>
      cases h' with
      | group h' =>
          obtain ⟨hts, hrest⟩ := ih (stops_closing _ _) h' (stops_closing _ _)
          exact ⟨hts, (List.cons.inj hrest).2⟩
      | leading hrule _ _ hwords => obtain ⟨_, ⟨⟩⟩ := rules_key hrule hwords
  | leading hrule hform hlevel hwords hlong h ih =>
      cases h' with
      | field | param | call | group => obtain ⟨_, ⟨⟩⟩ := rules_key hrule hwords
      | leading hrule' hform' hlevel' hwords' hlong' h' =>
          obtain ⟨rfl, rfl⟩ := rules_unique hrule hrule' (by simp [hform, hform'])
            (hwords.symm.trans hwords') (fun _ => hlong) fun _ => hlong'
          obtain ⟨hts, rfl⟩ := ih hr h' hr'
          exact ⟨by rw [(List.cons.inj hts).1], rfl⟩
      | tighter h' => exact (h'.not_leading hrule hform hlevel hwords).elim
  | tighter h hrest ih ihrest =>
      cases h' with
      | leading hrule hform hlevel hwords => exact (h.not_leading hrule hform hlevel hwords).elim
      | tighter h' hrest' =>
          obtain ⟨hts, rfl⟩ := ih (hrest.rest_stops hr) h' (hrest'.rest_stops hr')
          obtain rfl := (List.cons.inj hts).1
          exact ihrest hr hrest' hr'
  | stop =>
      cases h' with
      | stop => exact ⟨rfl, rfl⟩
      | chained hrule hform hlevel hwords | between hrule hform hlevel hwords
      | trailing hrule hform hlevel hwords | listed hrule hform hlevel hwords =>
          exact (Reads.not_rest hrule (by simp [hform]) hlevel hwords hr).elim
  | chained hrule hform hlevel hwords h hrest ih ihrest =>
      have hgoes := Reads.goesOn hrule (by simp [hform]) hlevel hwords h' hr'
      simp only [Rule.GoesOn, hform] at hgoes
      obtain ⟨k', u, n, ⟨⟩, hu, hrest'⟩ := hgoes
      obtain ⟨hts, rfl⟩ := ih (hrest.rest_stops hr) hu (hrest'.rest_stops hr')
      obtain rfl := (List.cons.inj hts).1
      exact ihrest hr hrest' hr'
  | between hrule hform hlevel hwords h ih =>
      have hgoes := Reads.goesOn hrule (by simp [hform]) hlevel hwords h' hr'
      simp only [Rule.GoesOn, hform] at hgoes
      obtain ⟨k', u, ⟨⟩, hu, rfl⟩ := hgoes
      obtain ⟨hts, rfl⟩ := ih (hr.mono (Nat.le_succ _)) hu (hr'.mono (Nat.le_succ _))
      exact ⟨by rw [(List.cons.inj hts).1], rfl⟩
  | trailing hrule hform hlevel hwords =>
      have hgoes := Reads.goesOn hrule (by simp [hform]) hlevel hwords h' hr'
      simp only [Rule.GoesOn, hform] at hgoes
      obtain ⟨rfl, rfl⟩ := hgoes
      exact ⟨rfl, rfl⟩
  | listed hrule hform hlevel hwords h ih =>
      have hgoes := Reads.goesOn hrule (by simp [hform]) hlevel hwords h' hr'
      simp only [Rule.GoesOn, hform] at hgoes
      obtain ⟨n, us, ⟨⟩, hitems, rfl⟩ := hgoes
      obtain ⟨rfl, rfl⟩ := ih trivial hitems trivial
      exact ⟨rfl, rfl⟩
  | noArgs =>
      cases h' with
      | noArgs => exact ⟨rfl, rfl⟩
      | someArgs h' => exact h'.items_not_closing.elim
  | someArgs h ih =>
      cases h' with
      | noArgs => exact h.items_not_closing.elim
      | someArgs h' => exact ih trivial h' trivial
  | last h ih =>
      cases h' with
      | last h' =>
          obtain ⟨hts, hrest⟩ := ih (stops_closing _ _) h' (stops_closing _ _)
          exact ⟨hts, (List.cons.inj hrest).2⟩
      | more h' =>
          obtain ⟨_, hrest⟩ := ih (stops_closing _ _) h' (stops_comma _ _)
          cases hrest
  | more h hrest ih ihrest =>
      cases h' with
      | last h' =>
          obtain ⟨_, hrest⟩ := ih (stops_comma _ _) h' (stops_closing _ _)
          cases hrest
      | more h' hrest' =>
          obtain ⟨hts, hmore⟩ := ih (stops_comma _ _) h' (stops_comma _ _)
          obtain rfl := (List.cons.inj hts).1
          obtain rfl := (List.cons.inj hmore).2
          obtain ⟨rfl, rfl⟩ := ihrest trivial hrest' trivial
          exact ⟨rfl, rfl⟩

/-- The grammar is unambiguous. -/
theorem Builtin.ReadsText.unique {text : String} {t t' : Tree} (h : b.ReadsText text t)
    (h' : b.ReadsText text t') : t = t' := by
  obtain ⟨hts, _⟩ := Reads.unique h (stops_nil _) h' (stops_nil _)
  exact (List.cons.inj hts).1

end QueryCompiler
