import QueryCompiler.Proofs.QueryWording
import QueryCompiler.Proofs.QuestionText
import QueryCompiler.Proofs.SealedSql

/-!
# What a text asks for in two dialects

A text under construction asks for what stands in the place of its question marks once some names
are given up. The dialects quote names differently and spell operators differently, but they write
every operand once and in its place, so two texts of one query ask for the same. The order that
places nulls is apart: only a dialect that cannot say where nulls go writes its key twice.
-/
namespace QueryCompiler

/-- What a chunk asks for by position: the placeholders whose names are given up, and the question
marks. -/
def Chunk.asks (names : List String) : Chunk → List String
  | text s => questions s
  | mark m => if m.unname names = .positional then [m.text] else []

namespace Sql

variable {names : List String}

def asks (names : List String) (sql : Sql) : List String := sql.chunks.flatMap (Chunk.asks names)

@[simp]
theorem asks_append (a c : Sql) : (a ++ c).asks names = a.asks names ++ c.asks names := by
  simp [asks]

theorem asks_ofString (s : String) : asks names s = questions s := by
  simp [asks, ofString, Chunk.asks]

theorem asks_word {s : String} (h : Unasking s) : asks names s = [] := by
  rw [asks_ofString, questions_of_unasking h]

theorem asks_ofMark (m : Mark) :
    asks names (ofMark m) = if m.unname names = .positional then [m.text] else [] := by
  simp [asks, ofMark, Chunk.asks]

theorem asks_grouped (a : Sql) : ("(" ++ a ++ ")" : Sql).asks names = a.asks names := by
  simp (disch := decide) only [asks_append, asks_word, List.nil_append, List.append_nil]

theorem asks_bracketed (a : Sql) : (bracketed a).asks names = a.asks names := by
  unfold bracketed
  split
  · rfl
  · exact asks_grouped a

end Sql

/-! Names. -/

/-- Two texts with question marks in the same places, which close their quotes. -/
structure AskAlike (s t : String) : Prop where
  questions : questions s = questions t
  closed : Closed s.toList
  closed' : Closed t.toList

namespace AskAlike

variable {s s' t t' : String}

theorem of_unasking (hs : Unasking s) (ht : Unasking t) : AskAlike s t :=
  ⟨by rw [questions_of_unasking hs, questions_of_unasking ht], closed_of_quiet hs,
    closed_of_quiet ht⟩

theorem refl (h : ClosesQuotes s) : AskAlike s s := ⟨rfl, h, h⟩

theorem append (hs : AskAlike s s') (ht : AskAlike t t') : AskAlike (s ++ t) (s' ++ t') where
  questions := by
    rw [questions_append hs.closed, questions_append hs.closed', hs.questions, ht.questions]
  closed := by
    rw [String.toList_append]
    exact closed_append hs.closed ht.closed
  closed' := by
    rw [String.toList_append]
    exact closed_append hs.closed' ht.closed'

theorem intercalate {separator : String} (hseparator : Unasking separator)
    {parts parts' : List String} (h : List.Forall₂ AskAlike parts parts') :
    AskAlike (separator.intercalate parts) (separator.intercalate parts') := by
  induction h with
  | nil => exact (AskAlike.refl (by decide) : AskAlike "" "")
  | cons hpart hrest ih =>
      cases hrest with
      | nil => simpa using hpart
      | cons hnext hrest =>
          rw [String.intercalate_cons_cons, String.intercalate_cons_cons]
          exact (hpart.append (.of_unasking hseparator hseparator)).append ih

end AskAlike

namespace Builtin

variable (b b' : Builtin) {name : String}

theorem askAlike_quoted (name : String) :
    AskAlike (b.dialect.quoteIdentifier name) (b'.dialect.quoteIdentifier name) :=
  .of_unasking (b.composes_ownText.quoteIdentifier name).unasking
    (b'.composes_ownText.quoteIdentifier name).unasking

theorem askAlike_part (h : LabelKeeps ClosesQuotes name) :
    AskAlike (b.dialect.part name) (b'.dialect.part name) := by
  unfold Dialect.part
  split
  · rename_i hverbatim
    obtain rfl | hverbatim := hverbatim
    · exact .refl (by decide)
    · exact .refl (h hverbatim)
  · exact b.askAlike_quoted b' name

theorem askAlike_dotted (h : PartsKeep ClosesQuotes name) :
    AskAlike (b.dialect.dotted name) (b'.dialect.dotted name) := by
  refine .intercalate (by decide) ?_
  rw [List.forall₂_map_left_iff, List.forall₂_map_right_iff, List.forall₂_same]
  exact fun part hpart => b.askAlike_part b' (h part hpart)

theorem askAlike_labelName (h : LabelKeeps ClosesQuotes name) :
    AskAlike (b.dialect.labelName name) (b'.dialect.labelName name) := by
  unfold Dialect.labelName
  split
  · exact .refl (h ‹_›)
  · exact b.askAlike_quoted b' name

theorem askAlike_fieldName (scope : Scope) {text : String} {f : Field.Named}
    (hf : Field.parse text = .ok f) (h : NameKeeps ClosesQuotes f.name) :
    AskAlike (b.dialect.fieldName scope f.name) (b'.dialect.fieldName scope f.name) := by
  unfold Dialect.fieldName
  split
  · rename_i hverbatim
    obtain hstar | hverbatim := hverbatim
    · rw [hstar]
      exact .refl (by decide)
    · exact .refl (h.holds Spans.closed hf hverbatim)
  · rename_i hverbatim
    split
    · exact b.askAlike_dotted b' (h.parts (Bool.eq_false_iff.mpr fun heq => hverbatim (.inr heq)))
    · split
      · exact ((b.askAlike_quoted b' _).append (.of_unasking (by decide) (by decide))).append
          (b.askAlike_quoted b' _)
      · exact b.askAlike_quoted b' _

end Builtin

/-! What the dialects build in their own way. -/

section Built

variable {names : List String} (b : Builtin)

theorem asks_ilike (a c : Sql) :
    ∃ sql, b.ilike [a, c] = .ok sql ∧ sql.asks names = a.asks names ++ c.asks names := by
  cases b with
  | postgres =>
      refine ⟨a ++ " ILIKE " ++ c, rfl, ?_⟩
      simp (disch := decide) only [Sql.asks_append, Sql.asks_word, List.append_nil]
  | mysql | sqlite =>
      refine ⟨"LOWER(" ++ a ++ ") LIKE LOWER(" ++ c ++ ")", rfl, ?_⟩
      simp (disch := decide) only [Sql.asks_append, Sql.asks_word, List.nil_append, List.append_nil]

theorem asks_markedNullKey (key : Sql) :
    (b.dialect.markedNullKey key).asks names = key.asks names := by
  have hcall : ("ISNULL(" ++ key ++ ")" : Sql).asks names = key.asks names := by
    simp (disch := decide) only [Sql.asks_append, Sql.asks_word, List.nil_append, List.append_nil]
  cases b with
  | postgres | mysql => exact hcall
  | sqlite =>
      change (Dialect.sqliteNullKey (Text.hasChar ' ' key.render) key).asks names = _
      unfold Dialect.sqliteNullKey
      split <;>
        simp (disch := decide) only [Sql.plain_eq_ofString, Sql.asks_append, Sql.asks_word,
          List.nil_append, List.append_nil]

/-- A key is written twice if the order has to say where nulls go and cannot. -/
theorem asks_orderSql (key : Sql) (direction : Field.Direction) (nulls : Option Field.Nulls) :
    (orderSql b.dialect key direction nulls).asks names =
      if b.dialect.ordersNulls = true ∨ nulls = none then key.asks names
      else key.asks names ++ key.asks names := by
  have htarget : (orderSql b.dialect key direction none).asks names = key.asks names := by
    cases direction <;>
      simp (disch := decide) only [orderSql, Sql.asks_append, Sql.asks_word, List.append_nil]
  cases nulls with
  | none => simpa using htarget
  | some nulls =>
      by_cases hnulls : b.dialect.ordersNulls = true <;> cases nulls <;>
        simp (disch := decide) [hnulls, orderSql_first, orderSql_last, Sql.asks_word, htarget,
          asks_markedNullKey]

end Built

/-- Following two compilations of which the second succeeds. -/
def Build.alongside : Build.Pairing := Build.steps (fun _ => True) (fun _ => True) Build.SameName

theorem Build.mergesAll_alongside (bags : List Bag) : Query.MergesAll Build.alongside bags :=
  fun _ _ => Build.Paired.merge trivial

/-- A relation between what two texts ask for that is kept when texts are put together, and the
vocabulary and placeholders for which it holds in two dialects. -/
structure Asking (names : List String) (V : Vocabulary) (b b' : Builtin) where
  Rel : List String → List String → Prop
  Allowed : Mark → Prop := fun _ => True
  nil : Rel [] []
  append {xs ys xs' ys' : List String} (h : Rel xs ys) (h' : Rel xs' ys') :
    Rel (xs ++ xs') (ys ++ ys')
  mark {m : Mark} (hm : Allowed m) : Rel ((Sql.ofMark m).asks names) ((Sql.ofMark m).asks names)
  string {s : String} (h : V.string s) (hstart : Text.startsWithAny ['\'', '('] s = true)
      (hbalanced : Field.isBalanced s = true) : Rel (questions s) (questions s)
  field {name : String} (h : V.field name) (scope : Scope) {f : Field.Named}
    (hf : Field.parse name = .ok f) :
    Rel (questions (b.dialect.fieldName scope f.name))
      (questions (b'.dialect.fieldName scope f.name))
  table {name : String} (h : V.table name) :
    Rel (questions (b.dialect.dotted name)) (questions (b'.dialect.dotted name))
  label {name : String} (h : V.label name) :
    Rel (questions (b.dialect.labelName name)) (questions (b'.dialect.labelName name))

namespace Asking

variable {names : List String} {V : Vocabulary} {b b' : Builtin}

/-- Whatever the compiler writes around the operands asks for nothing. -/
def phrasing (A : Asking names V b b') (hb : b ≠ .mysql) : Phrasing Build.alongside V b b' where
  Rel _ _ a a' := A.Rel (a.asks names) (a'.asks names)
  Whole a a' := A.Rel (a.asks names) (a'.asks names)
  Allowed := A.Allowed
  word hs hs' _ := by
    rw [Sql.asks_word hs.unasking, Sql.asks_word hs'.unasking]
    exact A.nil
  nothing := A.nil
  append ha hc := by
    rw [Sql.asks_append, Sql.asks_append]
    exact A.append ha hc
  raise h _ := h
  mark _ hm := by
    rw [Mark.unname_nil]
    exact A.mark hm
  lifted := by
    rintro name _ ⟨rfl, -⟩
    simpa [Sql.asks_ofMark, Mark.unname] using A.nil
  string h hstart hbalanced := by
    rw [Sql.asks_ofString]
    exact A.string h hstart hbalanced
  field h scope _ hf := by
    rw [Sql.asks_ofString, Sql.asks_ofString]
    exact A.field h scope hf
  table h := by
    rw [Sql.asks_ofString, Sql.asks_ofString]
    exact A.table h
  label h := by
    rw [Sql.asks_ofString, Sql.asks_ofString]
    exact A.label h
  spelling := Builtin.spelling_related hb fun _ _ _ => trivial
  ilike {a a' c c'} ha hc := by
    obtain ⟨sql, hsql, hasks⟩ := asks_ilike b a c
    obtain ⟨sql', hsql', hasks'⟩ := asks_ilike b' a' c'
    refine ⟨sql, sql', hsql, hsql', ?_⟩
    rw [hasks, hasks']
    exact A.append ha hc
  bracketed h := by
    rw [Sql.asks_bracketed, Sql.asks_bracketed]
    exact h
  whole h := h
  wholeAppend ha hc := by
    rw [Sql.asks_append, Sql.asks_append]
    exact A.append ha hc
  group h := by
    rw [Sql.asks_grouped, Sql.asks_grouped]
    exact h

/-- An order that places no nulls, or does so by the same means in both dialects. -/
theorem order (A : Asking names V b b') {key key' : Sql}
    (h : A.Rel (key.asks names) (key'.asks names)) (direction : Field.Direction)
    {nulls : Option Field.Nulls}
    (hnulls : nulls = none ∨ b.dialect.ordersNulls = b'.dialect.ordersNulls) :
    A.Rel ((orderSql b.dialect key direction nulls).asks names)
      ((orderSql b'.dialect key' direction nulls).asks names) := by
  rw [asks_orderSql, asks_orderSql]
  obtain rfl | hsame := hnulls
  · simpa using h
  · rw [hsame]
    split
    · exact h
    · exact A.append h h

/-- Two texts of one query ask for the same. -/
def same (names : List String) (b b' : Builtin) : Asking names .closedQuotes b b' where
  Rel := Eq
  nil := rfl
  append h h' := by rw [h, h']
  mark _ := rfl
  string _ _ _ := rfl
  field h scope f hf := (b.askAlike_fieldName b' scope hf (h f hf)).questions
  table h := (b.askAlike_dotted b' h).questions
  label h := (b.askAlike_labelName b' h).questions

end Asking

end QueryCompiler
