import QueryCompiler.Proofs.Wording

/-!
# Relations between two texts of one dialect

Two compilations in one dialect write the same words, so a relation between their texts needs fewer
rules: what an operator or an order is written like follows from how texts are put together.
-/
namespace QueryCompiler

/-- A relation between two texts of one dialect that every step of the compiler preserves. It is a
wording as soon as related texts are enclosed together and hold blanks together. -/
structure Rewording (L : Build.Pairing) (V : Vocabulary) (b : Builtin) where
  Rel : Nat → Nat → Sql → Sql → Prop
  /-- Statements are related like that, or less closely. -/
  Whole : Sql → Sql → Prop
  /-- The names that are given up on the second side. -/
  names : List String := []
  /-- Without its names an expression is shown differently in a fault. -/
  shown : names = [] ∨ L.Lenient := by exact .inl rfl
  text {k l : Nat} {s : String} (h : OwnText k l s) : Rel k l s s
  nothing : Rel 0 0 ⟨[]⟩ ⟨[]⟩
  append {k l m : Nat} {a a' c c' : Sql} (ha : Rel k l a a') (hc : Rel l m c c') :
    Rel k m (a ++ c) (a' ++ c')
  raise {a a' : Sql} (h : Rel 0 0 a a') (k : Nat) : Rel k k a a'
  mark {m : Mark} (h : m.IsOwn) : Rel 0 0 (.ofMark m) (.ofMark (m.unname names))
  lifted {name name' : String} (h : L.Named name name') :
    Rel 0 0 (.ofMark (.lifted name)) (.ofMark (.lifted name'))
  string {s : String} (h : V.string s) (hstart : Text.startsWithAny ['\'', '('] s = true)
      (hbalanced : Field.isBalanced s = true) : Rel 0 0 s s
  field {name : String} (h : V.field name) (scope : Scope) {f : Field.Named}
    (hf : Field.parse name = .ok f) :
    Rel 0 0 (b.dialect.fieldName scope f.name) (b.dialect.fieldName scope f.name)
  table {name : String} (h : V.table name) : Rel 0 0 (b.dialect.dotted name) (b.dialect.dotted name)
  label {name : String} (h : V.label name) :
    Rel 0 0 (b.dialect.labelName name) (b.dialect.labelName name)
  enclosed {a a' : Sql} (h : Rel 0 0 a a') :
    Text.isEnclosed a.render = Text.isEnclosed a'.render
  blank {a a' : Sql} (h : Rel 0 0 a a') : Text.hasChar ' ' a.render = Text.hasChar ' ' a'.render
  whole {a a' : Sql} (h : Rel 0 0 a a') : Whole a a'
  wholeAppend {a a' c c' : Sql} (ha : Whole a a') (hc : Whole c c') : Whole (a ++ c) (a' ++ c')
  group {a a' : Sql} (h : Whole a a') : Rel 0 0 ("(" ++ a ++ ")") ("(" ++ a' ++ ")")

theorem orderSql_first (d : Dialect) (key : Sql) (direction : Field.Direction) :
    orderSql d key direction (some .first) =
      if d.ordersNulls then orderSql d key direction none ++ " NULLS FIRST"
      else d.markedNullKey key ++ " DESC, " ++ orderSql d key direction none :=
  rfl

theorem orderSql_last (d : Dialect) (key : Sql) (direction : Field.Direction) :
    orderSql d key direction (some .last) =
      if d.ordersNulls then orderSql d key direction none ++ " NULLS LAST"
      else d.markedNullKey key ++ ", " ++ orderSql d key direction none :=
  rfl

namespace Rewording

variable {L : Build.Pairing} {V : Vocabulary} {b : Builtin} (W : Rewording L V b)
  {k l m : Nat} {a a' c c' : Sql}

/-- A text between two words that open and close what is around it. -/
theorem between (l : Nat) {start stop : String} (hstart : OwnText k l start) (h : W.Rel 0 0 a a')
    (hstop : OwnText l m stop) : W.Rel k m (start ++ a ++ stop) (start ++ a' ++ stop) :=
  W.append (W.append (W.text hstart) (W.raise h l)) (W.text hstop)

theorem bracketed (h : W.Rel 0 0 a a') :
    W.Rel 0 0 (QueryCompiler.bracketed a) (QueryCompiler.bracketed a') := by
  unfold QueryCompiler.bracketed
  rw [W.enclosed h]
  split
  · exact h
  · exact W.group (W.whole h)

theorem nullKey (h : W.Rel 0 0 a a') :
    W.Rel 0 0 (b.dialect.markedNullKey a) (b.dialect.markedNullKey a') := by
  have hcall : W.Rel 0 0 (isNullCall a) (isNullCall a') :=
    W.between 1 (by decide) h (by decide)
  cases b with
  | postgres => exact hcall
  | mysql => exact hcall
  | sqlite =>
      change W.Rel 0 0 (Dialect.sqliteNullKey (Text.hasChar ' ' a.render) a)
        (Dialect.sqliteNullKey (Text.hasChar ' ' a'.render) a')
      rw [W.blank h]
      unfold Dialect.sqliteNullKey
      split
      · exact W.between 1 (by decide) h (by decide)
      · exact W.append h (W.text (by decide))

theorem order {key key' : Sql} (h : W.Rel 0 0 key key') (direction : Field.Direction)
    (nulls : Option Field.Nulls) :
    W.Rel 0 0 (orderSql b.dialect key direction nulls)
      (orderSql b.dialect key' direction nulls) := by
  have htarget : W.Rel 0 0 (orderSql b.dialect key direction none)
      (orderSql b.dialect key' direction none) := by
    cases direction <;> exact W.append h (W.text (by decide))
  have hword : ∀ word : String, OwnText 0 0 word →
      W.Rel 0 0 (orderSql b.dialect key direction none ++ word)
        (orderSql b.dialect key' direction none ++ word) :=
    fun word hword => W.append htarget (W.text hword)
  have hnullKey : ∀ word : String, OwnText 0 0 word →
      W.Rel 0 0 (b.dialect.markedNullKey key ++ word ++ orderSql b.dialect key direction none)
        (b.dialect.markedNullKey key' ++ word ++ orderSql b.dialect key' direction none) :=
    fun word hword => W.append (W.append (W.nullKey h) (W.text hword)) htarget
  match nulls with
  | none => exact htarget
  | some .first =>
      rw [orderSql_first, orderSql_first]
      split
      · exact hword " NULLS FIRST" (by decide)
      · exact hnullKey " DESC, " (by decide)
  | some .last =>
      rw [orderSql_last, orderSql_last]
      split
      · exact hword " NULLS LAST" (by decide)
      · exact hnullKey ", " (by decide)

theorem ilike (ha : W.Rel 0 0 a a') (hc : W.Rel 0 0 c c') :
    ∃ sql sql', b.ilike [a, c] = .ok sql ∧ b.ilike [a', c'] = .ok sql' ∧ W.Rel 0 0 sql sql' := by
  have hnative : W.Rel 0 0 (a ++ " ILIKE " ++ c) (a' ++ " ILIKE " ++ c') :=
    W.append (W.append ha (W.text (by decide))) hc
  have hlowered : W.Rel 0 0 ("LOWER(" ++ a ++ ") LIKE LOWER(" ++ c ++ ")")
      ("LOWER(" ++ a' ++ ") LIKE LOWER(" ++ c' ++ ")") :=
    W.append (W.append (W.between 1 (by decide) ha (by decide)) (W.raise hc 1))
      (W.text (by decide : OwnText 1 0 ")"))
  cases b with
  | postgres => exact ⟨_, _, rfl, rfl, hnative⟩
  | mysql | sqlite => exact ⟨_, _, rfl, rfl, hlowered⟩

/-- Nothing else is asked of texts when the dialect is the same on both sides. -/
def toWording : Wording L V b b where
  Rel := W.Rel
  Whole := W.Whole
  names := W.names
  shown := W.shown
  word hs _ h := h rfl ▸ W.text hs
  nothing := W.nothing
  append := W.append
  raise := W.raise
  mark h _ := W.mark h
  lifted := W.lifted
  string := W.string
  field := W.field
  table := W.table
  label := W.label
  spelling h := L.ofExcept_of_ok fun _ hname =>
    have hown := b.ownText_of_spelling h hname
    ⟨hown, hown, fun _ => rfl, .inl rfl⟩
  ilike := W.ilike
  bracketed := W.bracketed
  order := W.order
  whole := W.whole
  wholeAppend := W.wholeAppend
  group := W.group

end Rewording

end QueryCompiler
