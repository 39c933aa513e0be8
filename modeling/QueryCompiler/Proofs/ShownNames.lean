import Mathlib.Data.Set.Lattice
import QueryCompiler.Proofs.ConstantText
import QueryCompiler.Proofs.PlaceholderScan
import QueryCompiler.Proofs.Wording

/-!
# Names that a text shows

The name of a lifted value can be read in a text where nothing in front of its colon and nothing
behind it runs into it. What the compiler writes around an operand keeps such a name readable. If
all texts around it close their quotes, the scan for placeholders finds it.
-/
namespace QueryCompiler

namespace Sql

/-- A text that can stand in front of a placeholder: its last character is no colon. -/
def Leads (sql : Sql) : Prop := sql.chars.getLast? ≠ some ':'

instance : DecidablePred Leads :=
  fun sql => inferInstanceAs (Decidable (sql.chars.getLast? ≠ some ':'))

/-- A lifted name stands in a text, apart from what is around it. -/
def Shows (name : String) (sql : Sql) : Prop :=
  ∃ before after : Sql, sql = before ++ (ofMark (.lifted name) ++ after) ∧ before.Leads ∧
    Breaks after.chars

/-- The lifted names that can be read in a text. -/
def shown (sql : Sql) : Set String := {name | sql.Shows name}

/-- The names that can be read in any of several texts. -/
def shownInAny (sqls : List Sql) : Set String := {name | ∃ sql ∈ sqls, name ∈ sql.shown}

@[simp]
theorem shownInAny_nil : shownInAny [] = ∅ := by
  simp [shownInAny]

@[simp]
theorem shownInAny_cons (sql : Sql) (rest : List Sql) :
    shownInAny (sql :: rest) = sql.shown ∪ shownInAny rest := by
  ext name
  simp [shownInAny]

@[simp]
theorem shownInAny_append (sqls others : List Sql) :
    shownInAny (sqls ++ others) = shownInAny sqls ∪ shownInAny others := by
  ext name
  simp [shownInAny, or_and_right, exists_or]

/-- A text that runs into nothing in front of it: it starts with no colon and continues no name. -/
def Apart (sql : Sql) : Prop := Breaks sql.chars ∧ sql.chars.head? ≠ some ':'

instance : DecidablePred Apart :=
  fun sql => inferInstanceAs (Decidable (Breaks sql.chars ∧ sql.chars.head? ≠ some ':'))

variable {a b : Sql} {s : String}

theorem leads_append (ha : a.Leads) (hb : b.Leads) : (a ++ b).Leads := by
  rw [Leads, chars_append]
  by_cases hnil : b.chars = []
  · rwa [hnil, List.append_nil]
  · rwa [List.getLast?_append_of_ne_nil _ hnil]

/-- A word that ends in no colon, whatever stands in front of it. -/
theorem leads_word (hs : s ≠ "") (hlast : s.toList.getLast? ≠ some ':') :
    (a ++ (s : Sql)).Leads := by
  have hne : s.toList ≠ [] := fun hnil => hs (String.toList_injective hnil)
  rwa [Leads, chars_append, chars_ofString, List.getLast?_append_of_ne_nil _ hne]

/-! Each way of putting texts together keeps the names of the parts. -/

theorem mem_shown_mark (name : String) : name ∈ (ofMark (.lifted name)).shown :=
  ⟨⟨[]⟩, ⟨[]⟩, rfl, by simp [Leads, chars, render], rfl⟩

/-- What is written without placeholders shows no name. -/
theorem shown_ofString (s : String) : (s : Sql).shown = ∅ := by
  refine Set.eq_empty_of_forall_notMem ?_
  rintro name ⟨before, after, htext, -, -⟩
  have hmark : Chunk.mark (.lifted name) ∈ (ofString s).chunks := by
    rw [htext]
    simp [ofMark]
  cases List.mem_singleton.mp hmark

theorem shown_append (hb : Breaks b.chars) : a.shown ⊆ (a ++ b).shown := by
  rintro name ⟨before, after, rfl, hbefore, hafter⟩
  refine ⟨before, after ++ b, by simp only [append_assoc], hbefore, ?_⟩
  rw [chars_append]
  exact hafter.append hb

theorem shown_behind (ha : a.Leads) : b.shown ⊆ (a ++ b).shown := by
  rintro name ⟨before, after, rfl, hbefore, hafter⟩
  exact ⟨a ++ before, after, by simp only [append_assoc], leads_append ha hbefore, hafter⟩

/-- A word of the compiler in front of a text. -/
theorem apart_word (hs : s ≠ "") (h : Breaks s.toList ∧ s.toList.head? ≠ some ':') :
    ((s : Sql) ++ b).Apart := by
  refine ⟨breaks_text_append hs h.1, ?_⟩
  rw [chars_append, chars_ofString]
  cases hcs : s.toList with
  | nil => exact absurd (String.toList_injective (by simpa using hcs)) hs
  | cons c rest => simpa [hcs] using h.2

theorem apart_empty : Apart (⟨[]⟩ : Sql) := by decide

theorem Apart.append (ha : a.Apart) (hb : b.Apart) : (a ++ b).Apart := by
  rw [Apart, chars_append]
  refine ⟨ha.1.append hb.1, ?_⟩
  cases hcs : a.chars with
  | nil => exact hb.2
  | cons c rest => simpa [Apart, hcs] using ha.2

/-- A text that runs into nothing can stand behind any other. -/
theorem shown_apart (hb : b.Apart) : a.shown ∪ b.shown ⊆ (a ++ b).shown := by
  refine Set.union_subset (shown_append hb.1) ?_
  rintro name ⟨before, after, rfl, hbefore, hafter⟩
  refine ⟨a ++ before, after, by simp only [append_assoc], ?_, hafter⟩
  have hne : before.chars ≠ [] := by
    intro hnil
    refine hb.2 ?_
    rw [chars_append, hnil, List.nil_append, chars_append]
    simp [chars, Mark.text]
  rwa [Leads, chars_append, List.getLast?_append_of_ne_nil _ hne]

theorem shown_parenthesized : a.shown ⊆ ("(" ++ a ++ ")" : Sql).shown :=
  (shown_behind (by decide)).trans (shown_append (by decide))

theorem shown_wrap (rank context : Nat) : a.shown ⊆ (Operator.wrap rank context a).shown := by
  unfold Operator.wrap
  split
  · exact shown_parenthesized
  · exact subset_rfl

/-- Two texts with a word between them that neither continues a name nor ends in a colon. -/
theorem shown_joined (hs : s ≠ "") (hbreaks : Breaks s.toList)
    (hlast : s.toList.getLast? ≠ some ':') : a.shown ∪ b.shown ⊆ (a ++ s ++ b : Sql).shown := by
  refine Set.union_subset ?_ (shown_behind (leads_word hs hlast))
  rw [append_assoc]
  exact shown_append (breaks_text_append hs hbreaks)

/-- Two operands with an operator between them. -/
theorem shown_between (name : String) :
    a.shown ∪ b.shown ⊆ (a ++ " " ++ name ++ " " ++ b : Sql).shown := by
  refine Set.union_subset ?_ (shown_behind (leads_word (by decide) (by decide)))
  simp only [append_assoc]
  exact shown_append (breaks_text_append (by decide) (by decide))

theorem shown_intercalate {separator : String} (hne : separator ≠ "")
    (hbreaks : Breaks separator.toList) (hlast : separator.toList.getLast? ≠ some ':')
    {parts : List Sql} {part : Sql} (h : part ∈ parts) :
    part.shown ⊆ (intercalate separator parts).shown := by
  induction parts with
  | nil => exact absurd h List.not_mem_nil
  | cons first rest ih =>
      cases rest with
      | nil =>
          obtain rfl := List.mem_singleton.mp h
          exact subset_rfl
      | cons next rest =>
          obtain ⟨hfirst, hnext⟩ := Set.union_subset_iff.mp
            (@shown_joined first (intercalate separator (next :: rest)) _ hne hbreaks hlast)
          obtain rfl | hrest := List.mem_cons.mp h
          · exact hfirst
          · exact (ih hrest).trans hnext

theorem shown_commas {parts : List Sql} {part : Sql} (h : part ∈ parts) :
    part.shown ⊆ (intercalate ", " parts).shown :=
  shown_intercalate (by decide) (by decide) (by decide) h

theorem apart_caseBranches (operands : List Sql) : (caseBranches operands).Apart := by
  match operands with
  | [] => decide
  | [otherwise] => exact apart_word (by decide) (by decide)
  | condition :: result :: rest =>
      simp only [caseBranches, plain_eq_ofString, append_assoc]
      exact apart_word (by decide) (by decide)

theorem shown_caseBranches {operands : List Sql} {operand : Sql} (h : operand ∈ operands) :
    operand.shown ⊆ (caseBranches operands).shown := by
  induction operands using caseBranches.induct with
  | case1 condition result rest ih =>
      obtain ⟨hfront, hrest⟩ := Set.union_subset_iff.mp
        (@shown_apart (" WHEN " ++ condition ++ " THEN " ++ result) _ (apart_caseBranches rest))
      obtain ⟨hcondition, hresult⟩ := Set.union_subset_iff.mp
        (@shown_joined (" WHEN " ++ condition) result " THEN " (by decide) (by decide) (by decide))
      obtain rfl | rfl | hmem : operand = condition ∨ operand = result ∨ operand ∈ rest := by
        simpa using h
      · exact ((shown_behind (by decide)).trans hcondition).trans hfront
      · exact hresult.trans hfront
      · exact (ih hmem).trans hrest
  | case2 otherwise =>
      obtain rfl := List.mem_singleton.mp h
      exact shown_behind (by decide)
  | case3 => exact absurd h List.not_mem_nil

theorem shown_buildCase {operands : List Sql} {operand sql : Sql} (h : operand ∈ operands)
    (hsql : buildCase operands = .ok sql) : operand.shown ⊆ sql.shown := by
  unfold buildCase at hsql
  split at hsql
  · cases hsql
  · cases hsql
    have hbranches := Set.union_subset_iff.mp
      (@shown_apart "CASE" _ (apart_caseBranches operands))
    exact ((shown_caseBranches h).trans hbranches.2).trans (shown_append (by decide))

theorem shown_ilike (b : Builtin) {operands : List Sql} {operand sql : Sql} (h : operand ∈ operands)
    (hsql : b.ilike operands = .ok sql) : operand.shown ⊆ sql.shown := by
  have hnative : buildNativeIlike operands = .ok sql → operand.shown ⊆ sql.shown := by
    match operands with
    | [] | [_] | _ :: _ :: _ :: _ => exact nofun
    | [left, right] =>
        rintro ⟨⟩
        obtain ⟨hleft, hright⟩ := Set.union_subset_iff.mp
          (@shown_joined left right " ILIKE " (by decide) (by decide) (by decide))
        obtain rfl | rfl : operand = left ∨ operand = right := by simpa using h
        · exact hleft
        · exact hright
  have hlowered : buildLoweredIlike operands = .ok sql → operand.shown ⊆ sql.shown := by
    match operands with
    | [] | [_] | _ :: _ :: _ :: _ => exact nofun
    | [left, right] =>
        rintro ⟨⟩
        obtain ⟨hleft, hright⟩ := Set.union_subset_iff.mp
          (@shown_joined left right ") LIKE LOWER(" (by decide) (by decide) (by decide))
        have hclose : (left ++ (") LIKE LOWER(" : Sql) ++ right).shown ⊆
            ("LOWER(" ++ left ++ ") LIKE LOWER(" ++ right ++ ")" : Sql).shown := by
          refine subset_trans ?_ (shown_append (by decide))
          simp only [append_assoc]
          exact shown_behind (by decide)
        obtain rfl | rfl : operand = left ∨ operand = right := by simpa using h
        · exact hleft.trans hclose
        · exact hright.trans hclose
  cases b with
  | postgres => exact hnative hsql
  | mysql | sqlite => exact hlowered hsql

theorem concat_append (parts others : List Sql) :
    concat (parts ++ others) = concat parts ++ concat others :=
  congrArg mk List.flatMap_append

theorem concat_cons (part : Sql) (rest : List Sql) : concat (part :: rest) = part ++ concat rest :=
  rfl

theorem append_concat_nil (sql : Sql) : sql ++ concat [] = sql :=
  congrArg mk (List.append_nil sql.chunks)

theorem apart_concat {clauses : List Sql} (h : ∀ clause ∈ clauses, clause.Apart) :
    (concat clauses).Apart := by
  induction clauses with
  | nil => exact apart_empty
  | cons clause rest ih =>
      obtain ⟨hclause, hrest⟩ := List.forall_mem_cons.mp h
      exact hclause.append (ih hrest)

/-- Clauses that run into nothing, one behind another. -/
theorem shown_clauses {head : Sql} {clauses : List Sql} (h : ∀ clause ∈ clauses, clause.Apart) :
    head.shown ∪ shownInAny clauses ⊆ (head ++ concat clauses).shown := by
  induction clauses generalizing head with
  | nil => rw [append_concat_nil, shownInAny_nil, Set.union_empty]
  | cons clause rest ih =>
      obtain ⟨hclause, hrest⟩ := List.forall_mem_cons.mp h
      rw [concat_cons, ← append_assoc, shownInAny_cons, ← Set.union_assoc]
      exact (Set.union_subset_union_left _ (shown_apart hclause)).trans (ih hrest)

/-- A constant shows no name. -/
theorem shown_of_constant (h : IsConstant a.render) : a.shown = ∅ := by
  refine Set.eq_empty_of_forall_notMem ?_
  rintro name ⟨before, after, rfl, -, -⟩
  exact not_constant_of_mem (c := ':') (by simp [Mark.text]) (by decide) h

end Sql

/-- If every text and placeholder closes its quotes, the scan finds the names that are shown. -/
theorem Sql.named_of_shown {sql : Sql} (hclosed : ∀ chunk ∈ sql.chunks, Closed chunk.render.toList)
    {name : String} (hname : Text.isIdentifier name = true) (h : name ∈ sql.shown) :
    Piece.named name ∈ Piece.ofText sql.render := by
  obtain ⟨before, after, rfl, hlast, hbreaks⟩ := h
  have hbefore : Closed before.chars := by
    have hchunks : ∀ chunk ∈ before.chunks, Closed chunk.render.toList :=
      fun chunk hchunk => hclosed chunk (List.mem_append_left _ hchunk)
    rw [chars, render, String.toList_join, List.flatMap_map]
    generalize before.chunks = chunks at hchunks
    induction chunks with
    | nil => rfl
    | cons chunk rest ih =>
        obtain ⟨hchunk, hrest⟩ := List.forall_mem_cons.mp hchunks
        exact closed_append hchunk (ih hrest)
  have hchars : (before ++ (ofMark (.lifted name) ++ after)).render.toList =
      before.chars ++ (':' :: name.toList ++ after.chars) := by
    simp [chars, Mark.text]
  have hscan := (Piece.scans none before.chars).append hbefore
    (.named hname hbreaks (Piece.scans none after.chars)) (fun h => absurd h hlast) (by rfl)
  rw [Piece.ofText, hchars, hscan.scan_eq]
  simp

end QueryCompiler
