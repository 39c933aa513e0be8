import QueryCompiler.Proofs.AskedText
import QueryCompiler.Proofs.Renaming

/-!
# The text of a query whose parameters have lost their names

In one dialect a query and the one without some of its names are written alike, but for question
marks in the place of these names. If all texts close their quotes, the question marks are those
that the scan finds, so that filling them with the names gives the text with names back.
-/
namespace QueryCompiler

variable {names : List String}

theorem unasking_colon {name : String} (h : Text.isIdentifier name = true) :
    Unasking (":" ++ name) := by
  refine quiet_of_forall fun c hc => ?_
  have hpassed := Piece.passed_name h c (by simpa using hc)
  simp [isQuestion, hpassed]

theorem Mark.boneless_positional : ∀ c ∈ positional.text.toList, isBone c = false := by
  simp [text, isBone, isParenthesis, Text.isQuote]

/-- A text without names, which gives the text with names once its question marks are filled. -/
structure Sql.Unnamed (names : List String) (a a' : Sql) : Prop where
  fills : Fills none (a.asks names) a'.chars a.chars
  closed : Closed a'.chars
  shape : SameShape a.render a'.render

namespace Sql.Unnamed

variable {a a' c c' : Sql}

theorem append (ha : Unnamed names a a') (hc : Unnamed names c c') :
    Unnamed names (a ++ c) (a' ++ c') where
  fills := by
    rw [asks_append, chars_append, chars_append]
    refine ha.fills.append ?_
    rw [ha.closed]
    exact hc.fills
  closed := by
    rw [chars_append]
    exact closed_append ha.closed hc.closed
  shape := by
    rw [render_append, render_append]
    exact ha.shape.append hc.shape

/-- Every question mark of a plain text stays one. -/
theorem text {s : String} (h : Closed s.toList) : Unnamed names s s where
  fills := by
    rw [asks_ofString, chars, render_ofString]
    exact Fills.questions none s.toList
  closed := by
    rw [chars, render_ofString]
    exact h
  shape := .refl _

/-- A placeholder that is known by its name. -/
theorem kept {m : Mark} (hm : m ≠ .positional) (hstay : m.unname names = m)
    (h : Unasking m.text) : Unnamed names (.ofMark m) (.ofMark m) where
  fills := by
    have hfills := Fills.questions none m.text.toList
    rw [← questions, questions_of_unasking h] at hfills
    rw [asks_ofMark, hstay, if_neg hm, chars, render_ofMark]
    exact hfills
  closed := by
    rw [chars, render_ofMark]
    exact closed_of_quiet h
  shape := .refl _

/-- A placeholder whose name is given up, if it has one. -/
theorem asked {m : Mark} (hboneless : ∀ c ∈ m.text.toList, isBone c = false)
    (hasks : m.unname names = .positional) :
    Unnamed names (.ofMark m) (.ofMark (m.unname names)) where
  fills := by
    have hfills : Fills none [m.text] ['?'] (m.text.toList ++ []) := .question .done
    simpa [asks_ofMark, hasks, chars, render_ofMark, Mark.text] using hfills
  closed := by
    rw [hasks, chars, render_ofMark]
    rfl
  shape := by
    rw [hasks, render_ofMark, render_ofMark]
    refine .of_boneless hboneless Mark.boneless_positional ?_ (by decide)
    cases m <;> simp [Mark.text]

theorem mark {m : Mark} (h : m.IsOwn) : Unnamed names (.ofMark m) (.ofMark (m.unname names)) := by
  obtain rfl | ⟨name, rfl, hname⟩ := h
  · exact .asked Mark.boneless_positional rfl
  · by_cases hmem : name ∈ names
    · exact .asked (Mark.boneless_lifted hname) (if_pos hmem)
    · have hstay : (Mark.reference name).unname names = .reference name := if_neg hmem
      rw [hstay]
      exact .kept (by simp) hstay (unasking_colon hname)

theorem lifted {name : String} (h : Text.isIdentifier name = true) :
    Unnamed names (.ofMark (.lifted name)) (.ofMark (.lifted name)) :=
  .kept (by simp) rfl (unasking_colon h)

end Sql.Unnamed

namespace Builtin

/-- Compiling a query in one dialect, with some names and without them. -/
def unnaming (b : Builtin) (names : List String) : Rewording Build.alongside .closedQuotes b where
  Rel _ _ := Sql.Unnamed names
  Whole := Sql.Unnamed names
  names := names
  shown := .inr fun _ => trivial
  text h := .text h.spans.closed
  nothing := ⟨.done, rfl, .refl _⟩
  append := Sql.Unnamed.append
  raise h _ := h
  mark := Sql.Unnamed.mark
  lifted := by
    rintro name _ ⟨rfl, hname⟩
    exact .lifted hname
  string h hstart hbalanced := .text (StringKeeps.holds Spans.closed h hstart hbalanced)
  field h scope f hf := .text (b.keeps_closesQuotes.fieldName scope hf (h f hf))
  table h := .text (b.composes_closesQuotes.dotted h)
  label h := .text (b.composes_closesQuotes.labelName h)
  enclosed h := h.shape.enclosed
  blank h := h.shape.blank
  whole h := h
  wholeAppend := Sql.Unnamed.append
  group h := ((Sql.Unnamed.text (by rfl)).append h).append (.text (by rfl))

end Builtin

/-- Two compilations side by side, of which the second one succeeds. -/
theorem Build.run_alongside {α β : Type} {R : α → β → Prop} {x : Build α} {y : Build β}
    (h : Build.alongside.Rel R x y) {binder after : Binder} {b : β}
    (hrun : y.run binder = (.ok b, after)) : ∃ a, x.run binder = (.ok a, after) ∧ R a b := by
  obtain ⟨_, _, -, hfault⟩ | ⟨_, _, -, hfault⟩ | ⟨a, b', after', hab, hx, hy⟩ :=
    Build.Paired.run (fun n => ⟨rfl, Binder.isIdentifier_generatedName n⟩) h binder
  · simp [hfault] at hrun
  · simp [hfault] at hrun
  · obtain ⟨hb, rfl⟩ := Prod.mk.inj (hy.symm.trans hrun)
    obtain rfl := Except.ok.inj hb
    exact ⟨a, hx, hab⟩

namespace Query

/-- A query is compiled like the second one, if that is compiled beside it with the same bag. -/
theorem written_alongside {d d' : Dialect} {q q' : Query} {R : Sql → Sql → Prop}
    (h : Build.alongside.Rel R (compileSteps d q) (compileSteps d' q'))
    (hbound : q.bound = q'.bound) {sql' : Sql} {params : Bag}
    (hwritten : q'.written d' = .ok (sql', params)) :
    ∃ sql, q.written d = .ok (sql, params) ∧ R sql sql' := by
  rw [written] at hwritten
  split at hwritten
  · rename_i hrun
    cases hwritten
    obtain ⟨sql, hrun', hR⟩ := Build.run_alongside h (hbound ▸ hrun)
    exact ⟨sql, by rw [written, hrun'], hR⟩
  · cases hwritten

theorem bound_unname (names : List String) (q : Query) : (q.unname names).bound = q.bound :=
  bound_revise _ q

/-- If the query without names compiles, then so does the query with names, with the same
parameters. -/
theorem written_unname (b : Builtin) {names : List String} {q : Query}
    (huses : q.Uses .closedQuotes) {sql' : Sql} {params : Bag}
    (h : (q.unname names).written b.dialect = .ok (sql', params)) :
    ∃ sql, q.written b.dialect = .ok (sql, params) ∧ Sql.Unnamed names sql sql' :=
  written_alongside
    (compileSteps_revised (b.unnaming names).toWording (huses.fits fun _ => trivial)
      (Build.mergesAll_alongside _))
    (q.bound_unname names).symm h

end Query

end QueryCompiler
