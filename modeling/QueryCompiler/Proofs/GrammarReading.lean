import Mathlib.Data.List.Forall2
import QueryCompiler.Proofs.ReferenceGrammar

/-!
# Putting readings together

A text that is read on a level is read there whatever follows, so readings of the operands give a
reading of the whole. The operands of a chain may be chains of the same operator themselves: then
all their operands stand in one chain.
-/
namespace QueryCompiler

/-- A text is read as a tree on a level, whatever follows. -/
def Builtin.ReadsAs (b : Builtin) (k : Nat) (text : List Lexeme) (t : Tree) : Prop :=
  ∀ r, Reads b (.expr k) (text ++ r) [t] r

variable {b : Builtin}

namespace Builtin.ReadsAs

variable {k : Nat} {text : List Lexeme} {t : Tree}

theorem tighter (h : b.ReadsAs k text t) : b.ReadsAs (k + 1) text t := fun r => .tighter (h r) .stop

theorem mono {k' : Nat} (h : b.ReadsAs k text t) (hle : k ≤ k') : b.ReadsAs k' text t := by
  induction hle with
  | refl => exact h
  | step _ ih => exact ih.tighter

theorem field (path : List String) : b.ReadsAs 0 [.name path] (.field path) := fun _ => .field

theorem param (name : String) : b.ReadsAs 0 [.param name] (.param name) := fun _ => .param

theorem group (h : b.ReadsAs Rule.loosest text t) :
    b.ReadsAs 0 (.opening :: (text ++ [.closing])) t := by
  intro r
  have hinner := h (.closing :: r)
  rw [List.cons_append, List.append_assoc]
  exact .group hinner

theorem leading {rule : Rule} {words : List Lexeme} (hrule : (rule, words) ∈ b.rules)
    (hform : rule.form = .leading) (hlong : ∀ r, Longest words (text ++ r))
    (h : b.ReadsAs rule.level text t) :
    b.ReadsAs rule.level (words ++ text) (.op rule.name [t]) := fun r =>
  .leading hrule hform rfl (List.append_assoc _ _ _) (hlong r) (h r)

end Builtin.ReadsAs

theorem Builtin.mem_all_of_mem_rules {rule : Rule} {words : List Lexeme}
    (h : (rule, words) ∈ b.rules) : rule ∈ Rule.all := by
  obtain ⟨rule', hrule, hwords⟩ := List.mem_filterMap.mp h
  obtain ⟨spelled, _, heq⟩ := Option.map_eq_some_iff.mp hwords
  obtain ⟨rfl, _⟩ := Prod.mk.inj heq
  exact hrule

/-- A rule has one spelling. -/
theorem Builtin.rules_spelling {rule : Rule} {words words' : List Lexeme}
    (h : (rule, words) ∈ b.rules) (h' : (rule, words') ∈ b.rules) : words = words' := by
  have hspelled : ∀ {words : List Lexeme}, (rule, words) ∈ b.rules →
      (b.dialect.operatorName rule.name).map (fun spelled =>
        (Text.words (· == ' ') spelled).map Lexeme.key) = some words := by
    intro words h
    obtain ⟨rule', _, hwords⟩ := List.mem_filterMap.mp h
    obtain ⟨spelled, hname, heq⟩ := Option.map_eq_some_iff.mp hwords
    obtain ⟨rfl, rfl⟩ := Prod.mk.inj heq
    rw [hname, Option.map_some]
  exact Option.some.inj ((hspelled h).symm.trans (hspelled h'))

/-- A level whose operators all chain. -/
def IsChain (k : Nat) : Prop := ∀ rule ∈ Rule.all, rule.level = k → rule.form = .chained

instance : DecidablePred IsChain := fun _ => inferInstanceAs (Decidable (∀ rule ∈ Rule.all, _))

theorem IsChain.form {k : Nat} (h : IsChain k) {rule : Rule} {words : List Lexeme}
    (hrule : (rule, words) ∈ b.rules) (hlevel : rule.level = k) : rule.form = .chained :=
  h rule (b.mem_all_of_mem_rules hrule) hlevel

/-- A chain may be continued behind its last operand. -/
theorem Reads.continued {k : Nat} (hchain : IsChain k) {s t : Tree} {i m r : List Lexeme}
    {ts : List Tree} (h : Reads b (.rest k s) i [t] m) (hrest : Reads b (.rest k t) m ts r) :
    Reads b (.rest k s) i ts r := by
  generalize hgoal : Goal.rest k s = goal, hout : [t] = out at h
  induction h generalizing k s with
  | stop =>
      obtain ⟨⟩ := hgoal
      obtain ⟨⟩ := hout
      exact hrest
  | chained hrule hform hlevel hwords h _ _ ih =>
      obtain ⟨⟩ := hgoal
      exact .chained hrule hform hlevel hwords h (ih hchain hrest rfl hout)
  | between hrule hform hlevel | trailing hrule hform hlevel | listed hrule hform hlevel =>
      obtain ⟨⟩ := hgoal
      simp [hchain.form hrule hlevel] at hform
  | field | param | call | group | leading | tighter | noArgs | someArgs | last | more => cases hgoal

theorem Builtin.ReadsAs.continued {k : Nat} (hchain : IsChain (k + 1)) {text : List Lexeme}
    {t : Tree} (h : b.ReadsAs (k + 1) text t) {m r : List Lexeme} {ts : List Tree}
    (hrest : Reads b (.rest (k + 1) t) m ts r) : Reads b (.expr (k + 1)) (text ++ m) ts r := by
  cases h m with
  | leading hrule hform hlevel => simp [hchain.form hrule hlevel] at hform
  | tighter h' hrest' => exact .tighter h' (hrest'.continued hchain hrest)

/-- A text is a chain of operands of one operator, and remains one behind a left operand. -/
structure Chain (b : Builtin) (rule : Rule) (words text : List Lexeme) (ts : List Tree) : Prop where
  nonempty : ts ≠ []
  start : b.ReadsAs rule.level text (Tree.chained rule.name ts)
  onward : ∀ {left : Tree} {m r : List Lexeme} {us : List Tree},
    Reads b (.rest rule.level (Tree.linked rule.name left ts)) m us r →
      Reads b (.rest rule.level left) (words ++ (text ++ m)) us r

section Operators

variable {rule : Rule} {words : List Lexeme} {k : Nat}

theorem Chain.single (hrule : (rule, words) ∈ b.rules) (hform : rule.form = .chained)
    (hlevel : rule.level = k + 1) {text : List Lexeme} {t : Tree} (h : b.ReadsAs k text t) :
    Chain b rule words text [t] where
  nonempty := List.cons_ne_nil t []
  start := by
    rw [hlevel]
    exact h.tighter
  onward {left m r us} hrest := by
    rw [hlevel] at hrest ⊢
    exact .chained hrule hform hlevel rfl (h m) hrest

theorem Chain.append (hlevel : rule.level = k + 1) (hchain : IsChain (k + 1))
    {text text' : List Lexeme} {ts ts' : List Tree} (h : Chain b rule words text ts)
    (h' : Chain b rule words text' ts') :
    Chain b rule words (text ++ (words ++ text')) (ts ++ ts') where
  nonempty := by simp [h.nonempty]
  start r := by
    have hstart := h.start
    have hrest : Reads b (.rest rule.level (Tree.chained rule.name ts)) (words ++ (text' ++ r))
        [Tree.chained rule.name (ts ++ ts')] r := by
      refine h'.onward ?_
      rw [Tree.chained_append h.nonempty]
      exact .stop
    rw [List.append_assoc, List.append_assoc]
    rw [hlevel] at hstart hrest ⊢
    exact hstart.continued hchain hrest
  onward {left m r us} hrest := by
    rw [List.append_assoc, List.append_assoc]
    refine h.onward (h'.onward ?_)
    rwa [← Tree.linked_append]

namespace Builtin.ReadsAs

variable {text text' : List Lexeme} {t u : Tree}

theorem chained (hrule : (rule, words) ∈ b.rules) (hform : rule.form = .chained)
    (hlevel : rule.level = k + 1) (hchain : IsChain (k + 1)) (h : b.ReadsAs (k + 1) text t)
    (h' : b.ReadsAs k text' u) :
    b.ReadsAs (k + 1) (text ++ (words ++ text')) (.op rule.name [t, u]) := by
  intro r
  rw [List.append_assoc, List.append_assoc]
  exact h.continued hchain (.chained hrule hform hlevel rfl (h' r) .stop)

theorem between (hrule : (rule, words) ∈ b.rules) (hform : rule.form = .between)
    (hlevel : rule.level = k + 1) (h : b.ReadsAs k text t) (h' : b.ReadsAs k text' u) :
    b.ReadsAs (k + 1) (text ++ (words ++ text')) (.op rule.name [t, u]) := by
  intro r
  rw [List.append_assoc, List.append_assoc]
  exact .tighter (h _) (.between hrule hform hlevel rfl (h' r))

theorem trailing (hrule : (rule, words) ∈ b.rules) (hform : rule.form = .trailing)
    (hlevel : rule.level = k + 1) (h : b.ReadsAs k text t) :
    b.ReadsAs (k + 1) (text ++ words) (.op rule.name [t]) := by
  intro r
  rw [List.append_assoc]
  exact .tighter (h _) (.trailing hrule hform hlevel rfl)

end Builtin.ReadsAs

end Operators

/-- Items with commas between them. -/
def itemsText : List (List Lexeme) → List Lexeme
  | [] => []
  | [text] => text
  | text :: next :: rest => text ++ .comma :: itemsText (next :: rest)

theorem reads_items {texts : List (List Lexeme)} {ts : List Tree}
    (h : List.Forall₂ (b.ReadsAs Rule.loosest) texts ts) (hne : texts ≠ []) (r : List Lexeme) :
    Reads b .items (itemsText texts ++ .closing :: r) ts r := by
  induction h with
  | nil => exact absurd rfl hne
  | @cons text t texts ts hfirst hrest ih =>
      cases texts with
      | nil =>
          cases hrest
          exact .last (hfirst _)
      | cons next rest =>
          rw [itemsText, List.append_assoc, List.cons_append]
          exact .more (hfirst _) (ih (by simp))

namespace Builtin.ReadsAs

theorem call {texts : List (List Lexeme)} {ts : List Tree}
    (h : List.Forall₂ (b.ReadsAs Rule.loosest) texts ts) (path : List String) :
    b.ReadsAs 0 (.name path :: .opening :: (itemsText texts ++ [.closing])) (.call path ts) := by
  intro r
  rw [List.cons_append, List.cons_append, List.append_assoc]
  refine .call ?_
  cases texts with
  | nil =>
      cases h
      exact .noArgs
  | cons text texts => exact .someArgs (reads_items h (by simp) r)

theorem listed {rule : Rule} {words : List Lexeme} {k : Nat} (hrule : (rule, words) ∈ b.rules)
    (hform : rule.form = .listed) (hlevel : rule.level = k + 1) {text : List Lexeme} {t : Tree}
    (h : b.ReadsAs k text t) {texts : List (List Lexeme)} {ts : List Tree}
    (hitems : List.Forall₂ (b.ReadsAs Rule.loosest) texts ts) (hne : texts ≠ []) :
    b.ReadsAs (k + 1) (text ++ (words ++ .opening :: (itemsText texts ++ [.closing])))
      (.op rule.name (t :: ts)) := by
  intro r
  have hlist := reads_items hitems hne r
  refine .tighter (m := words ++ .opening :: (itemsText texts ++ .closing :: r)) ?_
    (.listed hrule hform hlevel rfl hlist)
  have htext := h (words ++ .opening :: (itemsText texts ++ .closing :: r))
  simpa [List.append_assoc] using htext

end Builtin.ReadsAs

end QueryCompiler
