import QueryCompiler.Proofs.SealedText

/-!
# The shape of a text

The compiler looks into its own text for two reasons: it leaves out parentheses around what is
enclosed already, and it asks whether there is a blank. Both answers depend on the parentheses,
quotes and blanks only, and on the two ends.
-/
namespace QueryCompiler

open Text (isQuote openQuote closesAtEnd)

/-- The characters that the compiler looks for in its own text. -/
def isBone (c : Char) : Bool := isParenthesis c || isQuote c || c == ' '

def bones (s : String) : List Char := s.toList.filter isBone

theorem bones_append (s t : String) : bones (s ++ t) = bones s ++ bones t := by
  simp [bones]

theorem bones_eq_nil {s : String} (h : ∀ c ∈ s.toList, isBone c = false) : bones s = [] :=
  List.filter_eq_nil_iff.mpr fun c hc => by simp [h c hc]

theorem openQuote_of_not_bone {quote : Option Char} (hquote : ∀ q ∈ quote, isQuote q = true)
    {c : Char} (hc : isBone c = false) : openQuote quote c = quote := by
  have hplain : isQuote c = false := by
    simp only [isBone, Bool.or_eq_false_iff] at hc
    exact hc.1.2
  cases quote with
  | none => simp [openQuote, hplain]
  | some q =>
      have hne : c ≠ q := by
        rintro rfl
        simp [hquote c rfl] at hplain
      simp [openQuote, hne]

theorem isQuote_openQuote {quote : Option Char} (hquote : ∀ q ∈ quote, isQuote q = true)
    (c : Char) : ∀ q ∈ openQuote quote c, isQuote q = true := by
  cases quote with
  | none =>
      intro q hq
      simp only [openQuote] at hq
      split at hq
      · obtain rfl := Option.some.inj hq
        assumption
      · cases hq
  | some q =>
      intro q' hq'
      simp only [openQuote] at hq'
      split at hq'
      · cases hq'
      · exact hquote q' hq'

theorem closesAtEnd_of_not_bone {quote : Option Char} (hquote : ∀ q ∈ quote, isQuote q = true)
    {c : Char} (hc : isBone c = false) (depth : Nat) (rest : List Char) :
    closesAtEnd quote depth (c :: rest) = closesAtEnd quote depth rest := by
  have hopen := openQuote_of_not_bone hquote hc
  cases quote with
  | some q =>
      rw [closesAtEnd, hopen]
  | none =>
      simp only [isBone, isParenthesis, Bool.or_eq_false_iff, beq_eq_false_iff_ne] at hc
      simp only [closesAtEnd, hc.1.1.1, hc.1.1.2, if_false, hopen]

/-- A parenthesis is the last character exactly if it is the last one of those looked for. -/
theorem closing_isEmpty {c : Char} (hc : c = ')') (rest : List Char) :
    rest.isEmpty = ((rest.filter isBone).isEmpty && decide ((c :: rest).getLast? = some ')')) := by
  subst hc
  cases rest with
  | nil => rfl
  | cons next rest =>
      rw [List.getLast?_cons_cons, List.isEmpty_cons, eq_comm, Bool.and_eq_false_iff]
      by_contra hboth
      obtain ⟨hempty, hlast⟩ := not_or.mp hboth
      have hmem : ')' ∈ next :: rest := List.mem_of_getLast? (by simpa using hlast)
      have hnone : ∀ c ∈ next :: rest, isBone c ≠ true :=
        List.filter_eq_nil_iff.mp (by simpa using hempty)
      exact hnone ')' hmem rfl

/-- Whether a text closes at its very end is told by its parentheses, quotes and blanks, and by its
last character. -/
theorem closesAtEnd_eq (cs : List Char) {quote : Option Char}
    (hquote : ∀ q ∈ quote, isQuote q = true) (depth : Nat) :
    closesAtEnd quote depth cs =
      (closesAtEnd quote depth (cs.filter isBone) && decide (cs.getLast? = some ')')) := by
  induction cs generalizing quote depth with
  | nil => rfl
  | cons c rest ih =>
      have hstep : ∀ {quote : Option Char}, (∀ q ∈ quote, isQuote q = true) → ∀ depth,
          closesAtEnd quote depth rest = (closesAtEnd quote depth (rest.filter isBone) &&
            decide ((c :: rest).getLast? = some ')')) := by
        intro quote hquote depth
        cases rest with
        | nil => simp [closesAtEnd]
        | cons next rest =>
            rw [List.getLast?_cons_cons]
            exact ih hquote depth
      cases hbone : isBone c with
      | false =>
          have hskip : closesAtEnd quote depth (c :: rest) = closesAtEnd quote depth rest :=
            closesAtEnd_of_not_bone hquote hbone depth rest
          rw [hskip, List.filter_cons_of_neg (by simp [hbone])]
          exact hstep hquote depth
      | true =>
          rw [List.filter_cons_of_pos hbone]
          cases quote with
          | some q => exact hstep (isQuote_openQuote hquote c) depth
          | none =>
              simp only [closesAtEnd]
              split
              · exact hstep hquote (depth + 1)
              · split
                · split
                  · rename_i hclose hdepth
                    exact closing_isEmpty hclose rest
                  · exact hstep hquote (depth - 1)
                · exact hstep (isQuote_openQuote hquote c) depth

theorem isEnclosed_eq_bones (s : String) :
    Text.isEnclosed s = (decide (s.toList.head? = some '(') && closesAtEnd none 1 (bones s).tail &&
      decide (s.toList.getLast? = some ')')) := by
  unfold Text.isEnclosed bones
  cases s.toList with
  | nil => rfl
  | cons c rest =>
      by_cases hopen : c = '('
      · subst hopen
        have hbones : (('(' :: rest).filter isBone).tail = rest.filter isBone := rfl
        rw [hbones, List.head?_cons, decide_eq_true rfl, Bool.true_and]
        cases rest with
        | nil => rfl
        | cons next rest =>
            rw [List.getLast?_cons_cons]
            exact closesAtEnd_eq (next :: rest) (by simp) 1
      · simp [hopen]

/-- Texts between which the compiler sees no difference. -/
structure SameShape (s t : String) : Prop where
  bones : bones s = bones t
  empty : s = "" ↔ t = ""
  start : s.toList.head? = some '(' ↔ t.toList.head? = some '('
  stop : s.toList.getLast? = some ')' ↔ t.toList.getLast? = some ')'

namespace SameShape

variable {s s' t t' : String}

theorem refl (s : String) : SameShape s s := ⟨rfl, .rfl, .rfl, .rfl⟩

theorem append (hs : SameShape s s') (ht : SameShape t t') : SameShape (s ++ t) (s' ++ t') where
  bones := by rw [bones_append, bones_append, hs.bones, ht.bones]
  empty := by simp [hs.empty, ht.empty]
  start := by
    by_cases h : s = ""
    · rw [h, hs.empty.mp h]
      simpa using ht.start
    · have h' : s' ≠ "" := fun heq => h (hs.empty.mpr heq)
      rw [String.toList_append, String.toList_append,
        List.head?_append_of_ne_nil _ (by simpa using h),
        List.head?_append_of_ne_nil _ (by simpa using h')]
      exact hs.start
  stop := by
    by_cases h : t = ""
    · rw [h, ht.empty.mp h]
      simpa using hs.stop
    · have h' : t' ≠ "" := fun heq => h (ht.empty.mpr heq)
      rw [String.toList_append, String.toList_append,
        List.getLast?_append_of_ne_nil _ (by simpa using h),
        List.getLast?_append_of_ne_nil _ (by simpa using h')]
      exact ht.stop

/-- Texts in which the compiler finds nothing. -/
theorem of_boneless (hs : ∀ c ∈ s.toList, isBone c = false) (ht : ∀ c ∈ t.toList, isBone c = false)
    (hs' : s ≠ "") (ht' : t ≠ "") : SameShape s t where
  bones := by rw [bones_eq_nil hs, bones_eq_nil ht]
  empty := ⟨fun h => absurd h hs', fun h => absurd h ht'⟩
  start := by
    have hstart : ∀ u : String, (∀ c ∈ u.toList, isBone c = false) →
        u.toList.head? ≠ some '(' :=
      fun u hu h => absurd (hu '(' (List.mem_of_head? h)) (by decide)
    exact ⟨fun h => absurd h (hstart s hs), fun h => absurd h (hstart t ht)⟩
  stop := by
    have hstop : ∀ u : String, (∀ c ∈ u.toList, isBone c = false) →
        u.toList.getLast? ≠ some ')' :=
      fun u hu h => absurd (hu ')' (List.mem_of_getLast? h)) (by decide)
    exact ⟨fun h => absurd h (hstop s hs), fun h => absurd h (hstop t ht)⟩

/-- Parentheses hide how a text starts and ends. -/
theorem group (h : QueryCompiler.bones s = QueryCompiler.bones t) :
    SameShape ("(" ++ s ++ ")") ("(" ++ t ++ ")") where
  bones := by simp only [bones_append, h]
  empty := by simp
  start := by simp
  stop := by
    have hlast : ∀ u : String, ("(" ++ u ++ ")").toList.getLast? = some ')' := by
      intro u
      rw [String.toList_append]
      exact List.getLast?_concat
    simp only [hlast]

theorem blank (h : SameShape s t) : Text.hasChar ' ' s = Text.hasChar ' ' t := by
  have hbones : ∀ s : String, Text.hasChar ' ' s = (QueryCompiler.bones s).contains ' ' := by
    intro s
    rw [Bool.eq_iff_iff]
    simp [Text.hasChar, QueryCompiler.bones, List.mem_filter, isBone]
  rw [hbones, hbones, h.bones]

theorem enclosed (h : SameShape s t) : Text.isEnclosed s = Text.isEnclosed t := by
  rw [isEnclosed_eq_bones, isEnclosed_eq_bones, h.bones, decide_eq_decide.mpr h.start,
    decide_eq_decide.mpr h.stop]

end SameShape

end QueryCompiler
