import QueryCompiler.Proofs.QueryWording
import QueryCompiler.Proofs.Rewording
import QueryCompiler.Proofs.TokenText

/-!
# Compiled SQL is sealed

Whatever the compiler writes itself closes its quotes and parentheses, in every dialect. So does the
SQL as a whole, if every text does that is written as it stands. Fields and strings are checked for
this before; labels, the parts of dotted names and the backtick are not.
-/
namespace QueryCompiler

section Keeping

/-! What is asked of the texts that are written as they stand: a property that every sealed text
has. -/

variable (P : String → Prop)

/-- A string that is written as it stands passed the balance check, so that it can be open only by
a backtick. -/
def StringKeeps (s : String) : Prop :=
  Text.startsWithAny ['\'', '('] s = true → Field.isBalanced s = true → '\x60' ∈ s.toList → P s

/-- A label that is quoted already has the property. -/
def LabelKeeps (name : String) : Prop := Field.isVerbatim name = true → P name

/-- So have the parts of a dotted name. -/
def PartsKeep (name : String) : Prop := ∀ part ∈ Text.dotParts name, LabelKeeps P part

/-- A field that is written as it stands passed for a token, so that it can be open only by a
backtick. Every other one is cut at its dots. -/
def NameKeeps (name : String) : Prop :=
  if Field.isVerbatim name = true then '\x60' ∈ name.toList → P name else PartsKeep P name

/-- The text of a field, if it is one, names one with the property. -/
def FieldKeeps (text : String) : Prop := ∀ f, Field.parse text = .ok f → NameKeeps P f.name

variable [DecidablePred P]

instance : DecidablePred (StringKeeps P) := fun s => inferInstanceAs (Decidable
  (Text.startsWithAny ['\'', '('] s = true → Field.isBalanced s = true → '\x60' ∈ s.toList → P s))

instance : DecidablePred (LabelKeeps P) := fun name => inferInstanceAs
  (Decidable (Field.isVerbatim name = true → P name))

instance : DecidablePred (PartsKeep P) := fun name => inferInstanceAs
  (Decidable (∀ part ∈ Text.dotParts name, LabelKeeps P part))

instance : DecidablePred (NameKeeps P) := fun name => inferInstanceAs (Decidable
  (if Field.isVerbatim name = true then '\x60' ∈ name.toList → P name else PartsKeep P name))

instance : DecidablePred (FieldKeeps P) := fun text =>
  match h : Field.parse text with
  | .ok f => decidable_of_iff (NameKeeps P f.name) <| by simp [FieldKeeps, h]
  | .error _ => isTrue <| by simp [FieldKeeps, h]

end Keeping

namespace Vocabulary

/-- Texts with a property, as far as they are written as they stand. -/
def keeping (P : String → Prop) : Vocabulary where
  string := StringKeeps P
  field := FieldKeeps P
  table := PartsKeep P
  label := LabelKeeps P
  sub h := absurd h (by decide)

/-- Texts that close whatever they open, as far as they are written as they stand. -/
def closed : Vocabulary := keeping IsSealed

/-- Texts that close their quotes, as far as they are written as they stand; their parentheses may
stay open. -/
def closedQuotes : Vocabulary := keeping ClosesQuotes

end Vocabulary

/-- Compiling a query beside itself. -/
def Build.beside : Build.Pairing := Build.steps (fun _ => False) (fun _ => True) Build.SameName

section Kept

variable {P : String → Prop}

theorem NameKeeps.parts {name : String} (h : NameKeeps P name)
    (hverbatim : Field.isVerbatim name = false) : PartsKeep P name := by
  rwa [NameKeeps, hverbatim, if_neg Bool.false_ne_true] at h

variable (hsealed : ∀ {s}, IsSealed s → P s)

include hsealed

theorem StringKeeps.holds {s : String} (h : StringKeeps P s)
    (hstart : Text.startsWithAny ['\'', '('] s = true) (hbalanced : Field.isBalanced s = true) :
    P s :=
  Classical.byCases (h hstart hbalanced) fun hticks =>
    hsealed (Field.isSealed_of_isBalanced hbalanced hticks)

theorem NameKeeps.holds {text : String} {f : Field.Named} (h : NameKeeps P f.name)
    (hf : Field.parse text = .ok f) (hverbatim : Field.isVerbatim f.name = true) : P f.name := by
  rw [NameKeeps, if_pos hverbatim] at h
  obtain ⟨tokens, htokens, hmem⟩ := Field.name_mem_tokens hf
  exact Classical.byCases h fun hticks => hsealed (Field.isSealed_of_mem_tokens htokens hmem hticks)

end Kept

namespace Builtin

/-- A property of texts that the compiler's own ones have, whatever they are put together of. -/
structure Keeps (b : Builtin) (P : String → Prop) : Prop where
  composes : b.dialect.Composes P
  ofSealed : ∀ {s}, IsSealed s → P s

theorem keeps_isSealed (b : Builtin) : b.Keeps IsSealed := ⟨b.composes_isSealed, id⟩

theorem keeps_closesQuotes (b : Builtin) : b.Keeps ClosesQuotes :=
  ⟨b.composes_closesQuotes, Spans.closed⟩

theorem Keeps.fieldName {b : Builtin} {P : String → Prop} (hkeeps : b.Keeps P) (scope : Scope)
    {text : String} {f : Field.Named} (hf : Field.parse text = .ok f) (h : NameKeeps P f.name) :
    P (b.dialect.fieldName scope f.name) :=
  hkeeps.composes.fieldName scope (h.holds hkeeps.ofSealed hf) h.parts

theorem isSealed_mark {m : Mark} (h : m.IsOwn) : IsSealed m.text := by
  obtain rfl | ⟨name, rfl, hname⟩ := h
  · decide
  · exact IsSealed.append (by decide) (isSealed_identifier hname)

/-- The same text, which leads from one number of open parentheses to another. -/
def sealedRewording (b : Builtin) : Rewording Build.beside .closed b where
  Rel k l a a' := a = a' ∧ Spans k l a.render
  Whole a a' := a = a' ∧ IsSealed a.render
  text h := ⟨rfl, by rw [Sql.render_ofString]; exact h.spans⟩
  nothing := ⟨rfl, (by decide : IsSealed "")⟩
  append := by
    rintro k l m a _ c _ ⟨rfl, ha⟩ ⟨rfl, hc⟩
    exact ⟨rfl, by rw [Sql.render_append]; exact ha.append hc⟩
  raise := by
    rintro a _ ⟨rfl, ha⟩ k
    exact ⟨rfl, IsSealed.spans ha k⟩
  mark h := ⟨by rw [Mark.unname_nil], by rw [Sql.render_ofMark]; exact isSealed_mark h⟩
  lifted := by
    rintro name _ ⟨rfl, hname⟩
    refine ⟨rfl, ?_⟩
    rw [Sql.render_ofMark]
    exact IsSealed.append (by decide) (isSealed_identifier hname)
  string h hstart hbalanced := ⟨rfl, by
    rw [Sql.render_ofString]
    exact StringKeeps.holds id h hstart hbalanced⟩
  field h scope f hf := ⟨rfl, by
    rw [Sql.render_ofString]
    exact b.keeps_isSealed.fieldName scope hf (h f hf)⟩
  table h := ⟨rfl, by
    rw [Sql.render_ofString]
    exact b.composes_isSealed.dotted h⟩
  label h := ⟨rfl, by
    rw [Sql.render_ofString]
    exact b.composes_isSealed.labelName h⟩
  enclosed h := by rw [h.1]
  blank h := by rw [h.1]
  whole h := h
  wholeAppend := by
    rintro a _ c _ ⟨rfl, ha⟩ ⟨rfl, hc⟩
    exact ⟨rfl, by rw [Sql.render_append]; exact ha.append hc⟩
  group := by
    rintro a _ ⟨rfl, ha⟩
    refine ⟨rfl, ?_⟩
    simpa using ha.parenthesized

end Builtin

namespace Query

/-- If all texts of a query that are written as they stand close what they open, then so does the
SQL: a scan of it ends outside quotes, and outside quotes every parenthesis is closed by one behind
it. -/
theorem compileWith_sealed (b : Builtin) {q : Query} (huses : q.Uses .closed) {c : Compiled}
    (h : q.compileWith b.dialect = .ok c) : IsSealed c.sql := by
  have hsteps := compileSteps_related b.sealedRewording.toWording huses fun _ _ =>
    Build.Paired.merge trivial
  obtain ⟨sql, hwritten, hsql⟩ := written_of_compileWith h
  unfold written at hwritten
  obtain ⟨_, _, hgives, _⟩ | ⟨_, _, hrun, _⟩ | ⟨a, _, after, ⟨_, hsealed⟩, hrun, _⟩ :=
    Build.Paired.run (fun n => ⟨rfl, Binder.isIdentifier_generatedName n⟩) hsteps
      (Binder.ofBag q.bound)
  · exact hgives.elim
  · simp [hrun] at hwritten
  · rw [hrun] at hwritten
    obtain rfl : a = sql := congrArg Prod.fst (Except.ok.inj hwritten)
    rwa [hsql]

/-- Names that are quoted already, one of them with a backtick in its quotes. -/
def quotedReport : Query :=
  mk Dialect.postgres Bag.empty
    { Statement.empty with
      fields := [⟨.plainField "\"full (name)\" n", none⟩,
        ⟨.call "max" [.plainField "s.\"due\""], some "\"last `due`\""⟩],
      tables := [TableRef.withLabel (.named "public.\"sales'\"") "s"],
      filter := some (.equal (.plainField "kind") (.literal (.text "'it''s (open'"))) }

theorem quotedReport_closed : quotedReport.Uses .closed := by
  intro part hpart
  obtain rfl := hpart.eq_of_flat rfl
  have hfield : ∀ text ∈ ["\"full (name)\" n", "s.\"due\"", "kind"], FieldKeeps IsSealed text := by
    decide +kernel
  have huses : ∀ text ∈ ["\"full (name)\" n", "s.\"due\"", "kind"],
      Expr.Uses (ν := Query) .closed (.plainField text) :=
    fun text htext => .field (hfield text htext)
  have hvalue : StringKeeps IsSealed "'it''s (open'" := by decide +kernel
  refine ⟨?_, ?_, ?_, ?_, ?_⟩
  · refine List.forall_mem_cons.mpr ⟨huses _ (by simp), List.forall_mem_cons.mpr ⟨?_, ?_⟩⟩
    · exact .call (List.forall_mem_singleton.mpr (huses _ (by simp)))
    · refine List.forall_mem_singleton.mpr (.op (List.forall_mem_cons.mpr ⟨huses _ (by simp), ?_⟩))
      exact List.forall_mem_singleton.mpr (.literal (by rintro s ⟨⟩; exact hvalue))
  · have hheadings : ∀ item ∈ quotedReport.statement.fields, ∀ label ∈ item.heading,
        LabelKeeps IsSealed label := by
      decide +kernel
    exact hheadings
  · have htables : PartsKeep IsSealed "public.\"sales'\"" := by decide +kernel
    refine List.forall_mem_singleton.mpr ?_
    rintro name ⟨⟩
    exact htables
  · rintro labels ⟨⟩ label (htable | hjoin)
    · obtain ⟨⟩ := List.mem_singleton.mp htable
      exact (by decide : LabelKeeps IsSealed "s")
    · exact absurd hjoin List.not_mem_nil
  · rintro labels ⟨⟩ join label hjoin
    exact absurd hjoin List.not_mem_nil

theorem compileWith_sealed_quotedReport :
    quotedReport.Uses .closed ∧ ∃ c, quotedReport.compileWith Builtin.postgres.dialect = .ok c ∧
      IsSealed c.sql := by
  have hcompiles : (quotedReport.compileWith Builtin.postgres.dialect).isOk := by decide +kernel
  refine ⟨quotedReport_closed, ?_⟩
  cases hcompile : quotedReport.compileWith Builtin.postgres.dialect with
  | error fault => simp [hcompile, Except.isOk, Except.toBool] at hcompiles
  | ok c => exact ⟨c, rfl, compileWith_sealed .postgres quotedReport_closed hcompile⟩

/-- A column whose quoted name holds a dot, at which the quotes are cut apart. -/
def dottedColumn : Query :=
  mk Dialect.postgres Bag.empty
    { Statement.empty with
      fields := [⟨.plainField "x.\"a.b\"", none⟩],
      tables := [.named "t"] }

theorem dottedColumn_open :
    ∃ c, dottedColumn.compileWith Builtin.postgres.dialect = .ok c ∧
      c.sql = "SELECT x.\"a.\"b\"\"\" FROM t" ∧ ¬ IsSealed c.sql := by
  have hsql : (dottedColumn.compileWith Builtin.postgres.dialect).toOption.map Compiled.sql =
      some "SELECT x.\"a.\"b\"\"\" FROM t" := by
    decide +kernel
  obtain ⟨c, hcompile, htext⟩ := Except.exists_of_toOption hsql
  exact ⟨c, hcompile, htext, by rw [htext]; decide⟩

end Query

end QueryCompiler
