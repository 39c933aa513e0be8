import Mathlib.Tactic.FinCases
import QueryCompiler.Compile.Table
import QueryCompiler.Proofs.IdentifierText
import QueryCompiler.Proofs.Nesting

/-!
# Queries with plain names

Names that are quoted already, or that hold a parenthesis, are written as they stand. In a plain
query there are none, neither as a whole nor between dots, and no string that starts like SQL. The
names of fields are those that are read from the text of the field. Columns and attributes need no
such condition, because they are quoted in any case.
-/
namespace QueryCompiler

/-- A name that is quoted wherever it is written. -/
def IsPlain (name : String) : Prop :=
  Field.isVerbatim name = false ∧ ∀ part ∈ Text.dotParts name, Field.isVerbatim part = false

instance : DecidablePred IsPlain := fun _ => inferInstanceAs (Decidable (_ ∧ _))

/-- The text of a field, if it is one, names and labels it plainly. -/
def IsPlainField (text : String) : Prop :=
  ∀ field, Field.parse text = .ok field → IsPlain field.name ∧ ∀ label ∈ field.label, IsPlain label

instance : DecidablePred IsPlainField := fun text =>
  match h : Field.parse text with
  | .ok field =>
    decidable_of_iff (IsPlain field.name ∧ ∀ label ∈ field.label, IsPlain label) <| by
      simp [IsPlainField, h]
  | .error _ => isTrue <| by simp [IsPlainField, h]

variable {ν : Type}

inductive Expr.Plain : Expr ν → Prop
  | literal {v : Value} (h : ∀ s, v = .text s → Text.startsWithAny ['\'', '('] s = false) :
      Plain (.literal v)
  | field {name : String} {label : Option String} (h : IsPlainField name)
      (hlabel : ∀ l ∈ label, IsPlain l) : Plain (.field name label)
  | param {name : String} : Plain (.param name)
  | op {name : String} {operands : List (Expr ν)} (h : ∀ e ∈ operands, Plain e) :
      Plain (.op name operands)
  | call {name : String} {args : List (Expr ν)} (h : ∀ e ∈ args, Plain e) : Plain (.call name args)
  | subquery {q : ν} : Plain (.subquery q)
  | shorthand {pairs : List (String × FieldValue ν)} (h : ∀ pair ∈ pairs, IsPlainField pair.1) :
      Plain (.shorthand pairs)

structure TableRef.Plain (t : TableRef ν) : Prop where
  name : ∀ name ∈ t.name?, IsPlain name
  label : ∀ label ∈ t.label, IsPlain label

structure Statement.Plain (s : Statement ν) : Prop where
  exprs : ∀ e ∈ s.exprs, e.Plain
  labels : ∀ item ∈ s.fields, ∀ label ∈ item.label, IsPlain label
  tables : ∀ t ∈ s.allTables, t.Plain
  pairs : ∀ join ∈ s.joins, ∀ pairs, join.condition = some (.fields pairs) →
    ∀ pair ∈ pairs, IsPlain pair.1 ∧ IsPlain pair.2

/-- The fields that the pairs of joins become behind the labels of their tables are plain too. A
label is put in front of a field before the whole is read as the text of a field. -/
def Statement.PlainPairs (s : Statement ν) : Prop :=
  ∀ labels, Labels.resolve s = .ok labels → ∀ join label, (join, label) ∈ s.joins.zip labels.joins →
    ∀ pairs, join.condition = some (.fields pairs) → ∀ pair ∈ pairs,
      IsPlainField (qualify labels.primary pair.1) ∧
        IsPlainField (qualify (some (join.shownLabel label)) pair.2)

/-! The labels that are made up are plain as well. -/

/-- The front of a name that is not written as it stands is not either. -/
theorem isVerbatim_of_front {token : String} {cs : List Char} (h : Field.isVerbatim token = false)
    (hfront : cs <+: token.toList) : Field.isVerbatim (String.ofList cs) = false := by
  rw [isVerbatim_eq_false] at h ⊢
  rw [String.toList_ofList]
  refine ⟨fun c hc => h.1 c ?_, fun hmem => h.2 (hfront.subset hmem)⟩
  obtain ⟨rest, hrest⟩ := hfront
  rw [← hrest]
  cases cs with
  | nil => cases hc
  | cons first others => exact hc

theorem isVerbatim_shortName {name : String} (h : IsPlain name) :
    Field.isVerbatim (Labels.shortName name) = false := by
  have hlast : Field.isVerbatim ((Text.dotParts name).getLast?.getD name) = false := by
    cases hparts : (Text.dotParts name).getLast? with
    | none => exact h.1
    | some part => exact h.2 part (List.mem_of_getLast? hparts)
  rw [Labels.shortName, Text.trim]
  generalize (Text.dotParts name).getLast?.getD name = part at hlast
  refine isVerbatim_of_front hlast ?_
  have hstart : Text.trimStart (fun c => c == '"' || c == '\x60') part.toList = part.toList := by
    rw [isVerbatim_eq_false] at hlast
    rw [Text.trimStart]
    cases hcs : part.toList with
    | nil => rfl
    | cons c rest =>
        have hc := hlast.1 c (by rw [hcs]; rfl)
        simp only [List.mem_cons, List.not_mem_nil, or_false, not_or] at hc
        simp [hc.1, hc.2.1]
  rw [hstart, Text.trimEnd]
  simpa using (List.dropWhile_suffix _ : _ <:+ part.toList.reverse).reverse

theorem isVerbatim_numbered {base : String} (h : Field.isVerbatim base = false) (n : Nat) :
    Field.isVerbatim (Labels.numbered base n) = false := by
  unfold Labels.numbered
  split
  · exact h
  · rw [isVerbatim_eq_false] at h ⊢
    have hdigit : ∀ c ∈ (toString n).toList, c.isDigit = true := by
      intro c hc
      rw [Nat.toString_eq_repr, Nat.toList_repr] at hc
      exact Nat.isDigit_of_mem_toDigits (by decide) (by decide) hc
    rw [String.toList_append]
    refine ⟨fun c hc hquote => ?_, fun hmem => ?_⟩
    · cases hbase : base.toList with
      | nil =>
          rw [hbase, List.nil_append] at hc
          have hc' := hdigit c (List.mem_of_mem_head? hc)
          fin_cases hquote <;> revert hc' <;> decide
      | cons first rest =>
          rw [hbase] at hc
          exact h.1 c (by rw [hbase]; exact hc) hquote
    · obtain hbase | hnumber := List.mem_append.mp hmem
      · exact h.2 hbase
      · have := hdigit _ hnumber
        revert this
        decide

theorem isVerbatim_baseName {t : TableRef ν} (h : t.Plain) :
    Field.isVerbatim (Labels.baseName t) = false := by
  obtain ⟨source, label, info⟩ := t
  cases source with
  | table name => exact isVerbatim_shortName (h.name name rfl)
  | subquery q => exact (by decide : Field.isVerbatim "sub" = false)

theorem isVerbatim_assign (multi : Bool) (taken : List String) {tables : List (TableRef ν)}
    (h : ∀ t ∈ tables, t.Plain) {label : String}
    (hlabel : some label ∈ Labels.assign multi taken tables) : Field.isVerbatim label = false := by
  induction tables generalizing taken with
  | nil => exact absurd hlabel List.not_mem_nil
  | cons t rest ih =>
      have hrest : ∀ t ∈ rest, t.Plain := fun t ht => h t (List.mem_cons_of_mem _ ht)
      have ht := h t List.mem_cons_self
      rw [Labels.assign] at hlabel
      split at hlabel
      · rename_i written hwritten
        obtain heq | hlabel := List.mem_cons.mp hlabel
        · obtain rfl := Option.some.inj heq
          exact (ht.label label hwritten).1
        · exact ih taken hrest hlabel
      · split at hlabel
        · obtain heq | hlabel := List.mem_cons.mp hlabel
          · obtain rfl := Option.some.inj heq
            exact isVerbatim_numbered (isVerbatim_baseName ht) _
          · exact ih _ hrest hlabel
        · obtain heq | hlabel := List.mem_cons.mp hlabel
          · cases heq
          · exact ih taken hrest hlabel

/-- All labels of a statement with plain tables are quoted where they are written. -/
theorem isVerbatim_resolve {s : Statement ν} (h : ∀ t ∈ s.allTables, t.Plain) {labels : Labels}
    (hresolve : Labels.resolve s = .ok labels) {label : String}
    (hlabel : some label ∈ labels.tables ∨ some label ∈ labels.joins) :
    Field.isVerbatim label = false := by
  rw [Labels.resolve] at hresolve
  cases hreserve : Labels.reserve [] s.allTables with
  | error fault => simp [hreserve, Bind.bind, Except.bind] at hresolve
  | ok taken =>
      simp only [hreserve, Bind.bind, Except.bind, Pure.pure, Except.pure] at hresolve
      cases hresolve
      exact isVerbatim_assign (1 < s.tables.length || !s.joins.isEmpty) taken h
        (hlabel.elim List.mem_of_mem_take List.mem_of_mem_drop)

theorem isVerbatim_primary {s : Statement ν} (h : ∀ t ∈ s.allTables, t.Plain) {labels : Labels}
    (hresolve : Labels.resolve s = .ok labels) :
    ∀ label ∈ labels.primary, Field.isVerbatim label = false := by
  intro label hlabel
  refine isVerbatim_resolve h hresolve (.inl ?_)
  rw [Labels.primary] at hlabel
  exact List.mem_of_mem_head? (by simpa [Option.join_eq_some_iff] using hlabel)

namespace Query

def Plain (q : Query) : Prop := ∀ inner : Query, inner.PartOf q → inner.statement.Plain

def PlainPairs (q : Query) : Prop := ∀ inner : Query, inner.PartOf q → inner.statement.PlainPairs

end Query

end QueryCompiler
