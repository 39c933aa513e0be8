import QueryCompiler.Proofs.BuildPairing
import QueryCompiler.Proofs.ConstantText
import QueryCompiler.Proofs.OwnText
import QueryCompiler.Proofs.Unnaming

/-!
# Relations between two ways of writing a query

A query is compiled by the same steps whatever the dialect and whatever its nested queries stand
for, and also if names of parameters are given up. A wording is a relation between the texts of two
such compilations, closed under everything that the compiler does with texts: it is all that has to
be found to compare the two as a whole.
-/
namespace QueryCompiler

/-- Which texts of a query may be written as they stand: strings that are SQL already, fields, the
names of tables, and the labels of tables and columns. -/
structure Vocabulary where
  string : String → Prop
  field : String → Prop
  table : String → Prop
  label : String → Prop
  /-- The label of a nested query that has none. -/
  sub : label "sub"

variable {ν : Type}

/-- All texts of an expression belong to a vocabulary. -/
inductive Expr.Uses (V : Vocabulary) : Expr ν → Prop
  | literal {v : Value} (h : ∀ s, v = .text s → V.string s) : Uses V (.literal v)
  | field {name : String} {label : Option String} (h : V.field name) : Uses V (.field name label)
  | param {name : String} : Uses V (.param name)
  | op {name : String} {operands : List (Expr ν)} (h : ∀ e ∈ operands, Uses V e) :
      Uses V (.op name operands)
  | call {name : String} {args : List (Expr ν)} (h : ∀ e ∈ args, Uses V e) :
      Uses V (.call name args)
  | subquery {q : ν} : Uses V (.subquery q)
  | shorthand {pairs : List (String × FieldValue ν)} (h : ∀ pair ∈ pairs, V.field pair.1) :
      Uses V (.shorthand pairs)

/-- The name that a selected column is given: the one of the item, else the one of the field, else
the one written behind the field. -/
def SelectItem.heading (item : SelectItem ν) : Option String :=
  match item.expr with
  | .field name label => item.label <|> label <|> (Field.parse name).toOption.bind Field.Named.label
  | _ => item.label

/-- All texts of a statement belong to a vocabulary, those of its nested queries apart. -/
structure Statement.Uses (V : Vocabulary) (s : Statement ν) : Prop where
  exprs : ∀ e ∈ s.exprs, e.Uses V
  headings : ∀ item ∈ s.fields, ∀ label ∈ item.heading, V.label label
  tables : ∀ t ∈ s.allTables, ∀ name ∈ t.name?, V.table name
  labels : ∀ labels, Labels.resolve s = .ok labels →
    ∀ label, some label ∈ labels.tables ∨ some label ∈ labels.joins → V.label label
  pairs : ∀ labels, Labels.resolve s = .ok labels →
    ∀ join label, (join, label) ∈ s.joins.zip labels.joins →
      ∀ pairs, join.condition = some (.fields pairs) → ∀ pair ∈ pairs,
        V.field (qualify labels.primary pair.1) ∧
          V.field (qualify (some (join.shownLabel label)) pair.2)

/-- The vocabulary of all texts. -/
def Vocabulary.all : Vocabulary where
  string _ := True
  field _ := True
  table _ := True
  label _ := True
  sub := trivial

theorem Expr.uses_all (e : Expr ν) : e.Uses .all := by
  induction e using Expr.induct with
  | literal v => exact .literal fun _ _ => trivial
  | field name label => exact .field trivial
  | param name => exact .param
  | op name operands ih => exact .op ih
  | call name args ih => exact .call ih
  | subquery q => exact .subquery
  | shorthand pairs => exact .shorthand fun _ _ => trivial

theorem Statement.uses_all (s : Statement ν) : s.Uses .all where
  exprs e _ := e.uses_all
  headings _ _ _ _ := trivial
  tables _ _ _ _ := trivial
  labels _ _ _ _ := trivial
  pairs _ _ _ _ _ _ _ _ _ := ⟨trivial, trivial⟩

/-- All texts of an expression belong to a vocabulary, and all placeholders that it refers to belong
to a class. -/
inductive Expr.Fits (V : Vocabulary) (A : Mark → Prop) : Expr ν → Prop
  | literal {v : Value} (h : ∀ s, v = .text s → V.string s)
      (hmark : ∀ s, v = .text s → ∀ m ∈ Mark.ofText? s, A m) : Fits V A (.literal v)
  | field {name : String} {label : Option String} (h : V.field name) : Fits V A (.field name label)
  | param {name : String} (hmark : A (.reference name)) : Fits V A (.param name)
  | op {name : String} {operands : List (Expr ν)} (h : ∀ e ∈ operands, Fits V A e) :
      Fits V A (.op name operands)
  | call {name : String} {args : List (Expr ν)} (h : ∀ e ∈ args, Fits V A e) :
      Fits V A (.call name args)
  | subquery {q : ν} : Fits V A (.subquery q)
  | shorthand {pairs : List (String × FieldValue ν)} (h : ∀ pair ∈ pairs, V.field pair.1) :
      Fits V A (.shorthand pairs)

/-- All texts and placeholders of a statement, those of its nested queries apart. -/
structure Statement.Fits (V : Vocabulary) (A : Mark → Prop) (s : Statement ν) : Prop
    extends s.Uses V where
  fits : ∀ e ∈ s.exprs, e.Fits V A

/-- Nothing is asked of placeholders. -/
theorem Expr.Uses.fits {V : Vocabulary} {A : Mark → Prop} {e : Expr ν} (h : e.Uses V)
    (hA : ∀ m, A m) : e.Fits V A := by
  induction h with
  | literal h => exact .literal h fun _ _ m _ => hA m
  | field h => exact .field h
  | param => exact .param (hA _)
  | op _ ih => exact .op ih
  | call _ ih => exact .call ih
  | subquery => exact .subquery
  | shorthand h => exact .shorthand h

theorem Statement.Uses.fits {V : Vocabulary} {A : Mark → Prop} {s : Statement ν} (h : s.Uses V)
    (hA : ∀ m, A m) : s.Fits V A :=
  ⟨h, fun e he => (h.exprs e he).fits hA⟩

/-- Two texts by which a conjunction or disjunction is folded in the same way. -/
def SameConstant (s t : String) : Prop := s = t ∨ ¬ IsConstant s ∧ ¬ IsConstant t

theorem SameConstant.eq_iff {s t c : String} (h : SameConstant s t) (hc : IsConstant c) :
    c = s ↔ c = t := by
  obtain rfl | ⟨hs, ht⟩ := h
  · rfl
  · constructor
    · rintro rfl
      exact absurd hc hs
    · rintro rfl
      exact absurd hc ht

theorem SameConstant.symm {s t : String} (h : SameConstant s t) : SameConstant t s := by
  obtain rfl | ⟨hs, ht⟩ := h
  · exact .inl rfl
  · exact .inr ⟨ht, hs⟩

theorem SameConstant.trans {s t u : String} (h : SameConstant s t) (h' : SameConstant t u) :
    SameConstant s u := by
  obtain rfl | ⟨hs, ht⟩ := h
  · exact h'
  · obtain rfl | ⟨-, hu⟩ := h'
    · exact .inr ⟨hs, ht⟩
    · exact .inr ⟨hs, hu⟩

/-- The operators that MySQL cannot spell. -/
def mysqlLacks : List String := ["||", "IS DISTINCT FROM"]

/-- How two dialects spell one operator. -/
structure SpelledAlike (b b' : Builtin) (name name' : String) : Prop where
  own : OwnText 0 0 name
  own' : OwnText 0 0 name'
  same : b = b' → name = name'
  constant : SameConstant name name'

/-- The mark of a parameter that the query refers to itself. -/
def Mark.IsOwn (m : Mark) : Prop :=
  m = .positional ∨ ∃ name, m = .reference name ∧ Text.isIdentifier name = true

theorem Mark.isOwn_ofText {s : String} {m : Mark} (h : Mark.ofText? s = some m) : m.IsOwn := by
  unfold Mark.ofText? at h
  split at h
  · exact .inl (Option.some.inj h).symm
  · split at h
    · rename_i hnamed
      refine .inr ⟨_, (Option.some.inj h).symm, ?_⟩
      unfold Text.isNamedPlaceholder at hnamed
      split at hnamed
      · rename_i name hname
        rwa [hname]
      · cases hnamed
    · cases h

namespace Builtin

/-- Matching without regard to case. -/
def ilike : Builtin → List Sql → Except Fault Sql
  | postgres => buildNativeIlike
  | mysql => buildLoweredIlike
  | sqlite => buildLoweredIlike

theorem markedVendorOperator_eq (b : Builtin) :
    b.dialect.markedVendorOperator = defaultVendorOperator b.ilike := by
  cases b <;> rfl

/-- An operator is spelled in the compiler's own text, which folds like its name; only MySQL lacks
two. -/
theorem spelling_outcome (b : Builtin) {op : Operator} (h : op ∈ Operator.all) :
    (∃ name, b.dialect.spelling op.name = .ok name ∧ OwnText 0 0 name ∧ SameConstant name op.name) ∨
      b = .mysql ∧ op.name ∈ mysqlLacks ∧
        b.dialect.spelling op.name = .error (.unsupported op.name "mysql") := by
  have hown : OwnText 0 0 op.name := ownText_operator op h
  unfold Dialect.spelling
  cases b with
  | sqlite => exact .inl ⟨op.name, rfl, hown, .inl rfl⟩
  | postgres =>
      by_cases hregexp : op.name = "REGEXP"
      · refine .inl ⟨"~", by simp [dialect, Dialect.postgres, hregexp], by decide,
          .inr ⟨by decide, ?_⟩⟩
        rw [hregexp]
        decide
      · exact .inl ⟨op.name, by simp [dialect, Dialect.postgres, hregexp], hown, .inl rfl⟩
  | mysql =>
      by_cases hlacks : op.name = "||" ∨ op.name = "IS DISTINCT FROM"
      · exact .inr ⟨rfl, by simpa [mysqlLacks] using hlacks,
          by simp [dialect, Dialect.mysql, hlacks]⟩
      · exact .inl ⟨op.name, by simp [dialect, Dialect.mysql, hlacks], hown, .inl rfl⟩

theorem ownText_of_spelling (b : Builtin) {op : Operator} (h : op ∈ Operator.all) {name : String}
    (hname : b.dialect.spelling op.name = .ok name) : OwnText 0 0 name := by
  obtain ⟨name', hname', hown, -⟩ | ⟨-, -, hfault⟩ := b.spelling_outcome h
  · obtain rfl : name' = name := Except.ok.inj (hname'.symm.trans hname)
    exact hown
  · cases hfault.symm.trans hname

/-- Two dialects spell an operator alike, unless the second one is MySQL and gives up. -/
theorem spelling_related {b b' : Builtin} (hb : b ≠ .mysql) {gaveUp : Fault → Prop}
    {allowed : Bag → Prop} {named : String → String → Prop}
    (hgives : ∀ op ∈ mysqlLacks, b' = .mysql → gaveUp (.unsupported op "mysql")) {op : Operator}
    (h : op ∈ Operator.all) : Build.Paired gaveUp allowed named (SpelledAlike b b')
      (spelling b.dialect op) (spelling b'.dialect op) := by
  unfold QueryCompiler.spelling
  obtain ⟨name, hname, hown, hconstant⟩ | ⟨hmysql, -⟩ := b.spelling_outcome h
  · obtain ⟨name', hname', hown', hconstant'⟩ | ⟨hmysql, hlacks, hfault⟩ :=
      b'.spelling_outcome h
    · rw [hname, hname']
      refine .done ⟨hown, hown', fun heq => ?_, hconstant.trans hconstant'.symm⟩
      subst heq
      exact Except.ok.inj (hname.symm.trans hname')
    · rw [hfault]
      exact .refused _ (hgives _ hlacks hmysql)
  · exact absurd hmysql hb

end Builtin

/-- The text of a single operand in a context that is too tight for it. -/
def bracketed (sql : Sql) : Sql := if Text.isEnclosed sql.render then sql else "(" ++ sql ++ ")"

/-- A relation between the texts of two compilations that every step of the compiler preserves but
for the one that places nulls in an order. Texts are related by the number of open parentheses
before and after them. -/
structure Phrasing (L : Build.Pairing) (V : Vocabulary) (b b' : Builtin) where
  Rel : Nat → Nat → Sql → Sql → Prop
  /-- Statements are related like that, or less closely. -/
  Whole : Sql → Sql → Prop
  /-- The placeholders that a query may refer to. -/
  Allowed : Mark → Prop := fun _ => True
  /-- The names that are given up on the second side. -/
  names : List String := []
  /-- Without its names an expression is shown differently in a fault. -/
  shown : names = [] ∨ L.Lenient := by exact .inl rfl
  word {k l : Nat} {s s' : String} (hs : OwnText k l s) (hs' : OwnText k l s')
    (h : b = b' → s = s') : Rel k l s s'
  nothing : Rel 0 0 ⟨[]⟩ ⟨[]⟩
  append {k l m : Nat} {a a' c c' : Sql} (ha : Rel k l a a') (hc : Rel l m c c') :
    Rel k m (a ++ c) (a' ++ c')
  raise {a a' : Sql} (h : Rel 0 0 a a') (k : Nat) : Rel k k a a'
  mark {m : Mark} (h : m.IsOwn) (hm : Allowed m) :
    Rel 0 0 (.ofMark m) (.ofMark (m.unname names))
  lifted {name name' : String} (h : L.Named name name') :
    Rel 0 0 (.ofMark (.lifted name)) (.ofMark (.lifted name'))
  string {s : String} (h : V.string s) (hstart : Text.startsWithAny ['\'', '('] s = true)
      (hbalanced : Field.isBalanced s = true) : Rel 0 0 s s
  field {name : String} (h : V.field name) (scope : Scope) {f : Field.Named}
    (hf : Field.parse name = .ok f) :
    Rel 0 0 (b.dialect.fieldName scope f.name) (b'.dialect.fieldName scope f.name)
  table {name : String} (h : V.table name) :
    Rel 0 0 (b.dialect.dotted name) (b'.dialect.dotted name)
  label {name : String} (h : V.label name) :
    Rel 0 0 (b.dialect.labelName name) (b'.dialect.labelName name)
  spelling {op : Operator} (h : op ∈ Operator.all) :
    L.Rel (SpelledAlike b b') (QueryCompiler.spelling b.dialect op)
      (QueryCompiler.spelling b'.dialect op)
  ilike {a a' c c' : Sql} (ha : Rel 0 0 a a') (hc : Rel 0 0 c c') :
    ∃ sql sql', b.ilike [a, c] = .ok sql ∧ b'.ilike [a', c'] = .ok sql' ∧ Rel 0 0 sql sql'
  bracketed {a a' : Sql} (h : Rel 0 0 a a') :
    Rel 0 0 (QueryCompiler.bracketed a) (QueryCompiler.bracketed a')
  whole {a a' : Sql} (h : Rel 0 0 a a') : Whole a a'
  wholeAppend {a a' c c' : Sql} (ha : Whole a a') (hc : Whole c c') : Whole (a ++ c) (a' ++ c')
  group {a a' : Sql} (h : Whole a a') : Rel 0 0 ("(" ++ a ++ ")") ("(" ++ a' ++ ")")

/-- A relation between the texts of two compilations that every step of the compiler preserves. -/
structure Wording (L : Build.Pairing) (V : Vocabulary) (b b' : Builtin) extends
    Phrasing L V b b' where
  order {key key' : Sql} (h : Rel 0 0 key key') (direction : Field.Direction)
    (nulls : Option Field.Nulls) :
    Rel 0 0 (orderSql b.dialect key direction nulls) (orderSql b'.dialect key' direction nulls)

namespace Phrasing

variable {L : Build.Pairing} {V : Vocabulary} {b b' : Builtin} (W : Phrasing L V b b')
  {k l m : Nat} {a a' c c' : Sql}

/-- What becomes of the values of a query on the second side. -/
def revision : Revision := .unnaming W.names

/-- Both sides compile the same query, and nothing is asked of its placeholders. -/
structure IsSame : Prop where
  names : W.names = []
  allowed : ∀ m, W.Allowed m

theorem IsSame.revision {W : Phrasing L V b b'} (h : W.IsSame) : W.revision = .unchanged := by
  rw [Phrasing.revision, h.names, Revision.unnaming_nil]

/-- A text that does not depend on the dialect. -/
theorem text {s : String} (h : OwnText k l s) : W.Rel k l s s := W.word h h fun _ => rfl

/-- A text that each dialect writes in its own way. -/
theorem own {f : Builtin → String} (h : ∀ b, OwnText k l (f b)) : W.Rel k l (f b) (f b') :=
  W.word (h b) (h b') fun hb => by rw [hb]

theorem parenthesized (h : W.Rel 0 0 a a') : W.Rel 0 0 ("(" ++ a ++ ")") ("(" ++ a' ++ ")") :=
  W.group (W.whole h)

theorem spelled {name name' : String} (h : SpelledAlike b b' name name') : W.Rel 0 0 name name' :=
  W.word h.own h.own' h.same

theorem intercalate {separator separator' : String} (hseparator : W.Rel 0 0 separator separator')
    {parts parts' : List Sql} (h : List.Forall₂ (W.Rel 0 0) parts parts') :
    W.Rel 0 0 (Sql.intercalate separator parts) (Sql.intercalate separator' parts') := by
  induction h with
  | nil => exact W.text (by decide)
  | cons hpart hrest ih =>
      cases hrest with
      | nil => exact hpart
      | cons hnext hrest => exact W.append (W.append hpart hseparator) ih

theorem commas {parts parts' : List Sql} (h : List.Forall₂ (W.Rel 0 0) parts parts') :
    W.Rel 0 0 (Sql.intercalate ", " parts) (Sql.intercalate ", " parts') :=
  W.intercalate (W.text (by decide)) h

theorem concat {parts parts' : List Sql} (h : List.Forall₂ (W.Rel 0 0) parts parts') :
    W.Rel 0 0 (Sql.concat parts) (Sql.concat parts') := by
  induction h with
  | nil => exact W.nothing
  | cons hpart hrest ih => exact W.append hpart ih

/-- Operands are related as texts, and are folded in the same way. -/
def Good (a a' : Sql) : Prop := W.Rel 0 0 a a' ∧ SameConstant a.render a'.render

theorem good_of_not_constant (h : W.Rel 0 0 a a') (ha : ¬ IsConstant a.render)
    (ha' : ¬ IsConstant a'.render) : W.Good a a' :=
  ⟨h, .inr ⟨ha, ha'⟩⟩

theorem good_text {s : String} (h : OwnText 0 0 s) : W.Good s s := ⟨W.text h, .inl rfl⟩

theorem Good.wrap {W : Phrasing L V b b'} (h : W.Good a a') (rank context : Nat) :
    W.Good (Operator.wrap rank context a) (Operator.wrap rank context a') := by
  unfold Operator.wrap
  split
  · exact W.good_of_not_constant (W.parenthesized h.1) (parenthesized_not_constant _)
      (parenthesized_not_constant _)
  · exact h

/-- Two operands with an operator between them. -/
theorem binary {name name' : String} (hname : SpelledAlike b b' name name') (ha : W.Rel 0 0 a a')
    (hc : W.Rel 0 0 c c') :
    W.Good (a ++ " " ++ name ++ " " ++ c) (a' ++ " " ++ name' ++ " " ++ c') := by
  have hblank : W.Rel 0 0 " " " " := W.text (by decide)
  refine W.good_of_not_constant ?_ (between_not_constant _ _ _) (between_not_constant _ _ _)
  exact W.append (W.append (W.append (W.append ha hblank) (W.spelled hname)) hblank) hc

end Phrasing

end QueryCompiler
