import QueryCompiler.Compile.Query

/-!
# Texts without expressions

Names, the columns behind a wildcard and rows of values are put together from quoted names and
values, a few words and groups in parentheses. A class of texts that is closed under these holds all
of them; names that are written as they stand have to be in it themselves.
-/
namespace QueryCompiler

theorem Except.bind_eq_ok {α β ε : Type} {x : Except ε α} {f : α → Except ε β} {b : β} :
    x >>= f = .ok b ↔ ∃ a, x = .ok a ∧ f a = .ok b := by
  cases x with
  | error fault => exact ⟨nofun, fun ⟨_, h, _⟩ => nomatch h⟩
  | ok a => exact ⟨fun h => ⟨a, rfl, h⟩, fun ⟨_, h, hf⟩ => Except.ok.inj h ▸ hf⟩

theorem Except.exists_of_toOption {α β ε : Type} {x : Except ε α} {f : α → β} {b : β}
    (h : x.toOption.map f = some b) : ∃ a, x = .ok a ∧ f a = b := by
  cases x with
  | error fault => cases h
  | ok a => exact ⟨a, rfl, Option.some.inj h⟩

theorem mem_of_mapM_ok {α β ε : Type} {f : α → Except ε β} {xs : List α} {ys : List β}
    (h : xs.mapM f = .ok ys) {y : β} (hy : y ∈ ys) : ∃ x ∈ xs, f x = .ok y := by
  induction xs generalizing ys with
  | nil =>
      cases h
      exact absurd hy List.not_mem_nil
  | cons x rest ih =>
      rw [List.mapM_cons] at h
      obtain ⟨first, hfirst, hrest⟩ := Except.bind_eq_ok.mp h
      obtain ⟨others, hothers, hys⟩ := Except.bind_eq_ok.mp hrest
      obtain rfl := Except.ok.inj hys
      obtain rfl | hmem := List.mem_cons.mp hy
      · exact ⟨x, List.mem_cons_self, hfirst⟩
      · obtain ⟨x, hxmem, hfx⟩ := ih hothers hmem
        exact ⟨x, List.mem_cons_of_mem _ hxmem, hfx⟩

namespace Dialect

/-- A class of texts that holds what a dialect quotes, and what is put together of such texts. -/
structure Composes (d : Dialect) (P : String → Prop) : Prop where
  append : ∀ {s t}, P s → P t → P (s ++ t)
  group : ∀ {s}, P s → P ("(" ++ s ++ ")")
  word : ∀ w ∈ ["", " ", ".", ", ", "*", " AS ", " VALUES ", "NULL"], P w
  quoteIdentifier : ∀ name, P (d.quoteIdentifier name)
  quoteValue : ∀ v, P (d.quoteValue v)

namespace Composes

variable {d : Dialect} {P : String → Prop} (h : d.Composes P)

include h

theorem intercalate {separator : String} (hseparator : P separator) {parts : List String}
    (hparts : ∀ part ∈ parts, P part) : P (separator.intercalate parts) := by
  induction parts with
  | nil => exact h.word "" (by simp)
  | cons part rest ih =>
      cases rest with
      | nil => simpa using hparts part List.mem_cons_self
      | cons next rest =>
          rw [String.intercalate_cons_cons]
          have hrest := ih fun part hpart => hparts part (List.mem_cons_of_mem _ hpart)
          exact h.append (h.append (hparts part List.mem_cons_self) hseparator) hrest

theorem commas {parts : List String} (hparts : ∀ part ∈ parts, P part) :
    P (", ".intercalate parts) :=
  h.intercalate (h.word ", " (by simp)) hparts

/-! Names. -/

theorem part {name : String} (hname : Field.isVerbatim name = true → P name) :
    P (d.part name) := by
  unfold Dialect.part
  split
  · rename_i hverbatim
    obtain rfl | hverbatim := hverbatim
    · exact h.word "*" (by simp)
    · exact hname hverbatim
  · exact h.quoteIdentifier name

theorem dotted {name : String}
    (hname : ∀ part ∈ Text.dotParts name, Field.isVerbatim part = true → P part) :
    P (d.dotted name) := by
  refine h.intercalate (h.word "." (by simp)) fun part hpart => ?_
  obtain ⟨name, hmem, rfl⟩ := List.mem_map.mp hpart
  exact h.part (hname name hmem)

theorem fieldName (scope : Scope) {name : String} (hname : Field.isVerbatim name = true → P name)
    (hparts : Field.isVerbatim name = false →
      ∀ part ∈ Text.dotParts name, Field.isVerbatim part = true → P part) :
    P (d.fieldName scope name) := by
  have hpart := h.part hname
  unfold Dialect.part at hpart
  unfold Dialect.fieldName
  split
  · rename_i hverbatim
    rwa [if_pos hverbatim] at hpart
  · rename_i hverbatim
    split
    · exact h.dotted (hparts (Bool.eq_false_iff.mpr fun heq => hverbatim (.inr heq)))
    · split
      · exact h.append (h.append (h.quoteIdentifier _) (h.word "." (by simp))) (h.quoteIdentifier _)
      · exact h.quoteIdentifier _

theorem labelName {label : String} (hlabel : Field.isVerbatim label = true → P label) :
    P (d.labelName label) := by
  unfold Dialect.labelName
  split
  · exact hlabel ‹_›
  · exact h.quoteIdentifier label

theorem columnList (fields : List String) : P (d.columnList fields) := by
  refine h.commas fun part hpart => ?_
  obtain ⟨name, -, rfl⟩ := List.mem_map.mp hpart
  exact h.quoteIdentifier name

/-! The columns behind a wildcard. -/

theorem behind {qualifier : Option String} (hqualifier : ∀ q ∈ qualifier, P q) {column : String}
    (hcolumn : P column) : P (behind qualifier column) := by
  cases qualifier with
  | none => exact hcolumn
  | some q => exact h.append (h.append (hqualifier q rfl) (h.word "." (by simp))) hcolumn

theorem tableColumns {qualifier : Option String} (hqualifier : ∀ q ∈ qualifier, P q)
    (label : String) (seen names : List String) :
    ∀ column ∈ (tableColumns d qualifier label seen names).1, P column := by
  induction names generalizing seen with
  | nil => exact fun _ hcolumn => absurd hcolumn List.not_mem_nil
  | cons known rest ih =>
      have hcolumn := h.behind hqualifier (h.quoteIdentifier known)
      simp only [QueryCompiler.tableColumns]
      split
      · refine List.forall_mem_cons.mpr ⟨?_, ih seen⟩
        exact h.append (h.append hcolumn (h.word " AS " (by simp))) (h.quoteIdentifier _)
      · exact List.forall_mem_cons.mpr ⟨hcolumn, ih _⟩

theorem allColumns {ν : Type} (multi : Bool) (seen : List String)
    (tables : List (TableRef ν × Option String)) :
    ∀ column ∈ allColumns d multi seen tables, P column := by
  induction tables generalizing seen with
  | nil => exact fun _ hcolumn => absurd hcolumn List.not_mem_nil
  | cons table rest ih =>
      obtain ⟨t, label⟩ := table
      have hqualifier : ∀ name, ∀ q ∈ (if multi then some (d.quoteIdentifier name) else none),
          P q := by
        intro name q hq
        split at hq
        · obtain rfl := Option.some.inj hq
          exact h.quoteIdentifier _
        · cases hq
      simp only [QueryCompiler.allColumns]
      split
      · exact List.forall_mem_cons.mpr ⟨h.behind (hqualifier _) (h.word "*" (by simp)), ih _⟩
      · intro column hcolumn
        obtain hown | hrest := List.mem_append.mp hcolumn
        · exact h.tableColumns (hqualifier _) _ _ _ column hown
        · exact ih _ column hrest

theorem wildcardText {ν : Type} (s : Statement ν) (labels : Labels) :
    P (wildcardText d s labels) := by
  unfold QueryCompiler.wildcardText
  split
  · exact h.word "*" (by simp)
  · exact h.commas (h.allColumns _ _ _)

/-! Rows written inline. -/

theorem inlineText {v : Value} {text : String} (htext : inlineText d v = .ok text) : P text := by
  unfold QueryCompiler.inlineText at htext
  split at htext
  · split at htext <;> cases htext
    exact h.quoteValue _
  · cases htext
    exact h.quoteValue _

theorem tupleText {width index : Nat} {row : List Value} {text : String}
    (htext : tupleText d width index row = .ok text) : P text := by
  unfold QueryCompiler.tupleText at htext
  split at htext
  · cases htext
  · obtain ⟨values, hvalues, hpure⟩ := Except.bind_eq_ok.mp htext
    obtain rfl := Except.ok.inj hpure
    refine h.group (h.commas fun part hpart => ?_)
    obtain hvalue | hfill := List.mem_append.mp hpart
    · obtain ⟨v, _, hv⟩ := mem_of_mapM_ok hvalues hvalue
      exact h.inlineText hv
    · obtain rfl := List.eq_of_mem_replicate hfill
      exact h.word "NULL" (by simp)

theorem tupleTexts {width index : Nat} {rows : List (List Value)} {texts : List String}
    (htexts : tupleTexts d width index rows = .ok texts) : ∀ text ∈ texts, P text := by
  induction rows generalizing index texts with
  | nil =>
      cases htexts
      exact fun _ htext => absurd htext List.not_mem_nil
  | cons row rest ih =>
      obtain ⟨first, hfirst, hrest⟩ := Except.bind_eq_ok.mp htexts
      obtain ⟨others, hothers, hpure⟩ := Except.bind_eq_ok.mp hrest
      obtain rfl := Except.ok.inj hpure
      exact List.forall_mem_cons.mpr ⟨h.tupleText hfirst, ih hothers⟩

theorem columnsText (fields : List String) : P (columnsText d fields) := by
  unfold QueryCompiler.columnsText
  split
  · exact h.word "" (by simp)
  · have hgroup := h.append (h.word " " (by simp)) (h.group (h.columnList fields))
    simpa [← String.append_assoc] using hgroup

theorem rowsText {attributes fields : List String} {rows : List (List Value)} {text : String}
    (htext : rowsText d attributes fields rows = .ok text) : P text := by
  cases hempty : rows.isEmpty with
  | true =>
      simp only [QueryCompiler.rowsText, hempty, if_true] at htext
      obtain ⟨_, hthrow, -⟩ := Except.bind_eq_ok.mp htext
      cases hthrow
  | false =>
      simp only [QueryCompiler.rowsText, hempty, Bool.false_eq_true, if_false] at htext
      obtain ⟨tuples, htuples, hpure⟩ := Except.bind_eq_ok.mp htext
      obtain rfl := Except.ok.inj hpure
      refine h.append (h.append (h.columnsText _) (h.word " VALUES " (by simp))) ?_
      exact h.commas (h.tupleTexts htuples)

end Composes

end Dialect

/-! Which rows are refused does not depend on the dialect. -/

/-- The same fault, or answers that may differ. -/
inductive SameOutcome {α β : Type} : Except Fault α → Except Fault β → Prop
  | error (fault : Fault) : SameOutcome (.error fault) (.error fault)
  | ok (a : α) (b : β) : SameOutcome (.ok a) (.ok b)

namespace SameOutcome

variable {α β γ δ : Type}

theorem bind {x : Except Fault α} {y : Except Fault β} {f : α → Except Fault γ}
    {g : β → Except Fault δ} (hx : SameOutcome x y) (hf : ∀ a b, SameOutcome (f a) (g b)) :
    SameOutcome (x >>= f) (y >>= g) := by
  cases hx with
  | error fault => exact .error fault
  | ok a b => exact hf a b

theorem mapM {ι : Type} {f : ι → Except Fault α} {g : ι → Except Fault β}
    (h : ∀ x, SameOutcome (f x) (g x)) (xs : List ι) : SameOutcome (xs.mapM f) (xs.mapM g) := by
  induction xs with
  | nil => exact .ok [] []
  | cons x rest ih =>
      rw [List.mapM_cons, List.mapM_cons]
      exact (h x).bind fun _ _ => ih.bind fun _ _ => .ok _ _

end SameOutcome

variable (d d' : Dialect)

theorem inlineText_outcome (v : Value) : SameOutcome (inlineText d v) (inlineText d' v) := by
  unfold inlineText
  split
  · split
    · exact .ok _ _
    · exact .error _
  · exact .ok _ _

theorem tupleText_outcome (width index : Nat) (row : List Value) :
    SameOutcome (tupleText d width index row) (tupleText d' width index row) := by
  unfold tupleText
  split
  · exact .error _
  · exact (SameOutcome.mapM (inlineText_outcome d d') row).bind fun _ _ => .ok _ _

theorem tupleTexts_outcome (width index : Nat) (rows : List (List Value)) :
    SameOutcome (tupleTexts d width index rows) (tupleTexts d' width index rows) := by
  induction rows generalizing index with
  | nil => exact .ok [] []
  | cons row rest ih =>
      exact (tupleText_outcome d d' width index row).bind fun _ _ => (ih _).bind fun _ _ => .ok _ _

theorem rowsText_outcome (attributes fields : List String) (rows : List (List Value)) :
    SameOutcome (rowsText d attributes fields rows) (rowsText d' attributes fields rows) := by
  cases hempty : rows.isEmpty with
  | true =>
      simp only [rowsText, hempty, if_true]
      exact .error _
  | false =>
      simp only [rowsText, hempty, Bool.false_eq_true, if_false]
      exact (tupleTexts_outcome d d' _ 0 rows).bind fun _ _ => .ok _ _

end QueryCompiler
