import QueryCompiler.Compile.Select
import QueryCompiler.Proofs.BuildEnsures
import QueryCompiler.Proofs.ConstantFolding
import QueryCompiler.Proofs.ConstantText

/-!
# Names of tables in front of columns

A statement over several tables introduces each of them under a text: its label as printed, or the
last part of its printed name where the label equals the name and is left out. Columns are qualified
by labels in three ways: a field by the label of the first table, a known column by the label of its
own table, and a field of a pair by a label that is put in front of it before the whole is read as a
field. A label that is quoted wherever it is written gives the same text in all of them; any other
label stands in front of a field as a longer text than the one that introduces its table.
-/
namespace QueryCompiler

variable {ν : Type}

namespace Text

theorem dotParts_pair {front back : String} (hfront : '.' ∉ front.toList)
    (hback : '.' ∉ back.toList) : dotParts (front ++ "." ++ back) = [front, back] := by
  have hundotted : ∀ c ∈ front.toList, (c == '.') = false := by
    intro c hc
    rw [beq_eq_false_iff_ne]
    rintro rfl
    exact hfront hc
  have hrest : (partsWhere (· == '.') back.toList).map String.ofList = [back] :=
    dotParts_of_undotted hback
  have htext : (front ++ "." ++ back).toList = front.toList ++ '.' :: back.toList := by simp
  rw [dotParts, htext, partsWhere_append_cut hundotted (beq_self_eq_true _), List.map_cons, hrest,
    String.ofList_toList]

/-- A dotted text ends with its last part, which is all of it or stands behind a dot. -/
theorem intercalate_last {parts : List String} {last : String}
    (h : parts.getLast? = some last) : ∃ front : String, ".".intercalate parts = front ++ last ∧
      (front = "" ∧ parts = [last] ∨ front.toList.getLast? = some '.') := by
  induction parts with
  | nil => cases h
  | cons part rest ih =>
      cases rest with
      | nil =>
          obtain rfl : part = last := by simpa using h
          exact ⟨"", by simp, .inl ⟨rfl, rfl⟩⟩
      | cons next rest =>
          obtain ⟨front, htext, hfront⟩ := ih (by simpa using h)
          refine ⟨part ++ "." ++ front, ?_, .inr ?_⟩
          · rw [String.intercalate_cons_cons, htext]
            simp only [String.append_assoc]
          · obtain ⟨rfl, -⟩ | hdot := hfront
            · simp
            · rw [String.toList_append, List.getLast?_append, hdot, Option.some_or]

theorem intercalate_dotParts (name : String) : ".".intercalate (dotParts name) = name := by
  have hchars : ∀ cs : List Char,
      (".".intercalate ((partsWhere (· == '.') cs).map String.ofList)).toList = cs := by
    intro cs
    induction cs with
    | nil => rfl
    | cons c rest ih =>
        rw [partsWhere]
        cases hparts : partsWhere (· == '.') rest with
        | nil => exact absurd hparts (partsWhere_ne_nil _ _)
        | cons part others =>
            rw [hparts] at ih
            split
            · rename_i hdot
              obtain rfl : c = '.' := beq_iff_eq.mp hdot
              rw [List.map_cons, List.map_cons, String.intercalate_cons_cons, ← List.map_cons,
                String.toList_append, ih]
              rfl
            · cases others with
              | nil => simpa using congrArg (c :: ·) ih
              | cons next others =>
                  simp only [List.map_cons, String.intercalate_cons_cons, String.toList_append,
                    String.toList_ofList] at ih ⊢
                  rw [List.cons_append, List.cons_append, ih]
  exact String.toList_injective (hchars name.toList)

theorem length_intercalate {parts : List String} (h : parts ≠ []) :
    (".".intercalate parts).length + 1 = (parts.map (·.length + 1)).sum := by
  induction parts with
  | nil => exact absurd rfl h
  | cons part rest ih =>
      cases rest with
      | nil => simp
      | cons next rest =>
          have hrest := ih (by simp)
          rw [String.intercalate_cons_cons, String.length_append, String.length_append,
            List.map_cons, List.sum_cons, ← hrest]
          have hdot : ".".length = 1 := rfl
          omega

theorem length_enclose_append (quote : Char) (s t : String) :
    (enclose quote (s ++ t)).length + 2 = (enclose quote s).length + (enclose quote t).length := by
  simp only [enclose, encloseChars, String.length_ofList, String.toList_append,
    List.flatMap_append, List.length_cons, List.length_append, List.length_nil]
  omega

theorem length_enclose (quote : Char) (s : String) : s.length + 2 ≤ (enclose quote s).length := by
  have hchars : ∀ cs : List Char,
      cs.length ≤ (cs.flatMap fun c => if c = quote then [quote, quote] else [c]).length := by
    intro cs
    induction cs with
    | nil => exact Nat.le_refl 0
    | cons c rest ih =>
        rw [List.flatMap_cons, List.length_append, List.length_cons]
        have hc : 1 ≤ (if c = quote then [quote, quote] else [c]).length := by split <;> simp
        omega
  have hs := hchars s.toList
  rw [String.length_toList] at hs
  simp only [enclose, encloseChars, String.length_ofList, List.length_cons, List.length_append,
    List.length_nil]
  omega

end Text

namespace Field

/-- A text without blanks is one token, whatever quotes and parentheses it has. -/
theorem cut_unbroken {cs : List Char} (h : ∀ c ∈ cs, Text.isSeparator c = false) {place : Place}
    {parts : List (List Char)} (hcut : cut place cs = some parts) : parts = [cs] := by
  induction cs generalizing place parts with
  | nil =>
      rw [cut] at hcut
      split at hcut
      · cases hcut
      · exact (Option.some.inj hcut).symm
  | cons c rest ih =>
      rw [cut, h c List.mem_cons_self, Bool.and_false, if_neg Bool.false_ne_true] at hcut
      obtain ⟨after, -, hrest⟩ := Option.bind_eq_some_iff.mp hcut
      obtain ⟨others, hothers, rfl⟩ := Option.map_eq_some_iff.mp hrest
      rw [ih (fun c hc => h c (List.mem_cons_of_mem _ hc)) hothers]
      rfl

theorem tokens_unbroken {text : String} (h : ∀ c ∈ text.toList, Text.isSeparator c = false)
    {tokens : List String} (htokens : tokens? text = some tokens) :
    tokens = [] ∨ tokens = [text] := by
  obtain ⟨parts, hparts, rfl⟩ := Option.map_eq_some_iff.mp htokens
  rw [cut_unbroken h hparts, List.filter_singleton]
  cases text.toList.isEmpty with
  | true => exact .inl rfl
  | false => exact .inr (by simp)

/-- A field without blanks in its text is named by the whole of it. -/
theorem name_of_parse {text : String} (h : ∀ c ∈ text.toList, Text.isSeparator c = false)
    {field : Named} (hparse : parse text = .ok field) : field.name = text := by
  unfold parse at hparse
  split at hparse
  · rename_i named hnamed
    obtain rfl := Except.ok.inj hparse
    obtain ⟨tokens, htokens, hnamed⟩ := Option.bind_eq_some_iff.mp hnamed
    obtain rfl | rfl := tokens_unbroken h htokens
    · cases hnamed
    · rw [named?] at hnamed
      split at hnamed
      · cases hnamed
      · obtain rfl := Option.some.inj hnamed
        rfl
  · cases hparse

end Field

/-! Introductions. -/

/-- The last part of a dotted name as it is printed. -/
def Dialect.lastPart (d : Dialect) (name : String) : String :=
  d.part ((Text.dotParts name).getLast?.getD name)

namespace TableRef

/-- The text under which a table is introduced. -/
def introducedAs (d : Dialect) (t : TableRef ν) (label : Option String) : String :=
  match t.source, label with
  | .table name, some label => if label = name then d.lastPart name else d.labelName label
  | .table name, none => d.lastPart name
  | .subquery _, label => d.labelName (label.getD "sub")

/-- A label that is quoted where it is introduced: it is not written as it stands, and where it
equals the name of the table it is the only part of that name. -/
def IsClear (t : TableRef ν) (label : Option String) : Prop :=
  ∀ l ∈ label, Field.isVerbatim l = false ∧ (t.name? = some l → l ≠ "*" ∧ '.' ∉ l.toList)

instance (t : TableRef ν) (label : Option String) : Decidable (t.IsClear label) :=
  inferInstanceAs (Decidable (∀ l ∈ label, _))

theorem introducedAs_of_clear {d : Dialect} {t : TableRef ν} {label : String}
    (h : t.IsClear (some label)) : t.introducedAs d (some label) = d.quoteIdentifier label := by
  obtain ⟨hquoted, hsingle⟩ := h label rfl
  have hlabel : d.labelName label = d.quoteIdentifier label := by
    rw [Dialect.labelName, hquoted, if_neg Bool.false_ne_true]
  obtain ⟨name | q, written, info⟩ := t
  · change (if label = name then d.lastPart name else d.labelName label) = _
    split
    · rename_i heq
      subst heq
      obtain ⟨hstar, hdot⟩ := hsingle rfl
      rw [Dialect.lastPart, Text.dotParts_of_undotted hdot, List.getLast?_singleton,
        Option.getD_some, Dialect.part, if_neg (by simp [hstar, hquoted])]
    · exact hlabel
  · exact hlabel

end TableRef

/-! A label that is not clear is quoted once more in front of a column, so that a longer text stands
there than the one that introduces the table. -/

theorem exists_odd {name : String} (h : name = "*" ∨ Field.isVerbatim name = true) :
    ∃ c ∈ name.toList, Identifier.isPlainChar c = false ∧ c ≠ '.' := by
  obtain rfl | hverbatim := h
  · exact ⟨'*', by decide, by decide, by decide⟩
  · rw [Field.isVerbatim, Bool.or_eq_true, Text.startsWithAny] at hverbatim
    obtain hquote | hparenthesis := hverbatim
    · cases hcs : name.toList with
      | nil => simp [hcs] at hquote
      | cons c rest =>
          rw [hcs] at hquote
          have hc : c ∈ ['"', '\x60', '\''] := by simpa using hquote
          exact ⟨c, List.mem_cons_self, by fin_cases hc <;> decide, by fin_cases hc <;> decide⟩
    · exact ⟨'(', by simpa [Text.hasChar] using hparenthesis, by decide, by decide⟩

theorem Identifier.length_quotePart (quote : Char) (name : String) :
    name.length ≤ (quotePart quote name).length := by
  have hlength := Text.length_enclose quote name
  unfold quotePart
  split
  · omega
  · exact Nat.le_refl _

namespace Builtin

variable (b : Builtin)

theorem length_quoteIdentifier_odd {name : String} {c : Char} (hc : c ∈ name.toList)
    (hodd : Identifier.isPlainChar c = false) (hdot : c ≠ '.') :
    name.length < (b.dialect.quoteIdentifier name).length := by
  have hname : ∀ quote, name.length < (Identifier.quoteName quote name).length := by
    intro quote
    have hne := dotParts_ne_nil name
    -- The part with the odd character is quoted, and no part gets shorter.
    obtain ⟨part, hpart, hmem⟩ := Text.mem_partsWhere (· == '.') (by simpa using hdot) hc
    have hneeds : Identifier.needsQuotes (String.ofList part) = true := by
      have hall : (String.ofList part).toList.all Identifier.isPlainChar = false := by
        rw [String.toList_ofList, List.all_eq_false]
        exact ⟨c, hmem, by simp [hodd]⟩
      rw [Identifier.needsQuotes, hall]
      simp
    have hlonger : (String.ofList part).length <
        (Identifier.quotePart quote (String.ofList part)).length := by
      have hlength := Text.length_enclose quote (String.ofList part)
      rw [Identifier.quotePart, if_pos hneeds]
      omega
    have hsum : ((Text.dotParts name).map (·.length + 1)).sum <
        ((Text.dotParts name).map fun p => (Identifier.quotePart quote p).length + 1).sum :=
      List.sum_lt_sum _ _ (fun p _ => Nat.succ_le_succ (Identifier.length_quotePart quote p))
        ⟨_, List.mem_map_of_mem hpart, Nat.succ_lt_succ hlonger⟩
    have hplain := Text.length_intercalate hne
    have hquotedNe : (Text.dotParts name).map (Identifier.quotePart quote) ≠ [] := by
      simpa using hne
    have hquoted := Text.length_intercalate hquotedNe
    rw [Text.intercalate_dotParts] at hplain
    rw [List.map_map] at hquoted
    simp only [Function.comp_def] at hquoted
    rw [Identifier.quoteName]
    omega
  cases b with
  | postgres | mysql => exact hname _
  | sqlite =>
      have hlength := Text.length_enclose '"' name
      change name.length < (Text.enclose '"' name).length
      omega

/-- The last of several parts is quoted to less than the whole. -/
theorem length_quoteIdentifier_last {name last : String} (hdot : '.' ∈ name.toList)
    (hlast : (Text.dotParts name).getLast? = some last) :
    (b.dialect.quoteIdentifier last).length < (b.dialect.quoteIdentifier name).length := by
  have hundotted := not_dot_mem_part (List.mem_of_getLast? hlast)
  have hseveral : Text.dotParts name ≠ [last] := by
    intro hsingle
    have hwhole := Text.intercalate_dotParts name
    rw [hsingle, String.intercalate_singleton] at hwhole
    exact hundotted (hwhole ▸ hdot)
  have hlonger : ∀ {front : String}, front.toList.getLast? = some '.' → 1 ≤ front.length := by
    intro front hfront
    rw [← String.length_toList]
    exact List.length_pos_of_mem (List.mem_of_getLast? hfront)
  have hname : ∀ quote,
      (Identifier.quoteName quote last).length < (Identifier.quoteName quote name).length := by
    intro quote
    have hquoted : ((Text.dotParts name).map (Identifier.quotePart quote)).getLast? =
        some (Identifier.quotePart quote last) := by
      rw [List.getLast?_map, hlast, Option.map_some]
    obtain ⟨front, htext, ⟨-, hsingle⟩ | hfront⟩ := Text.intercalate_last hquoted
    · obtain ⟨part, hpart, -⟩ := List.map_eq_singleton_iff.mp hsingle
      rw [hpart, List.getLast?_singleton] at hlast
      obtain rfl := Option.some.inj hlast
      exact absurd hpart hseveral
    · rw [Identifier.quoteName, Identifier.quoteName, htext, Text.dotParts_of_undotted hundotted,
        List.map_singleton, String.intercalate_singleton, String.length_append]
      have := hlonger hfront
      omega
  cases b with
  | postgres | mysql => exact hname _
  | sqlite =>
      obtain ⟨front, htext, ⟨-, hsingle⟩ | hfront⟩ := Text.intercalate_last hlast
      · exact absurd hsingle hseveral
      · rw [Text.intercalate_dotParts] at htext
        change (Text.enclose '"' last).length < (Text.enclose '"' name).length
        have happend := Text.length_enclose_append '"' front last
        have henclosed := Text.length_enclose '"' front
        have := hlonger hfront
        rw [htext]
        omega

theorem length_part_le (name : String) :
    (b.dialect.part name).length ≤ (b.dialect.quoteIdentifier name).length := by
  unfold Dialect.part
  split
  · rename_i hverbatim
    obtain ⟨c, hc, hodd, hdot⟩ := exists_odd hverbatim
    exact Nat.le_of_lt (b.length_quoteIdentifier_odd hc hodd hdot)
  · exact Nat.le_refl _

end Builtin

namespace TableRef

variable {b : Builtin} {t : TableRef ν} {label : String}

theorem length_introducedAs_lt (h : ¬ t.IsClear (some label)) :
    (t.introducedAs b.dialect (some label)).length <
      (b.dialect.quoteIdentifier label).length := by
  have hodd : label = "*" ∨ Field.isVerbatim label = true →
      label.length < (b.dialect.quoteIdentifier label).length := by
    intro hlabel
    obtain ⟨c, hc, hodd, hdot⟩ := exists_odd hlabel
    exact b.length_quoteIdentifier_odd hc hodd hdot
  have hcases : Field.isVerbatim label = true ∨
      t.name? = some label ∧ (label = "*" ∨ '.' ∈ label.toList) := by
    by_contra hnone
    simp only [not_or, Bool.not_eq_true, not_and] at hnone
    refine h ?_
    rintro _ ⟨⟩
    exact ⟨hnone.1, fun hname => hnone.2 hname⟩
  by_cases hname : t.name? = some label
  · obtain ⟨name | q, written, info⟩ := t
    · obtain rfl : name = label := Option.some.inj hname
      have hpart : introducedAs b.dialect (⟨.table name, written, info⟩ : TableRef ν) (some name) =
          b.dialect.lastPart name := if_pos rfl
      rw [hpart, Dialect.lastPart]
      by_cases hdot : '.' ∈ name.toList
      · obtain ⟨last, hlast⟩ := Option.isSome_iff_exists.mp
          (List.getLast?_isSome.mpr (dotParts_ne_nil name))
        rw [hlast, Option.getD_some]
        exact (b.length_part_le last).trans_lt (b.length_quoteIdentifier_last hdot hlast)
      · have hwritten : name = "*" ∨ Field.isVerbatim name = true := by tauto
        rw [Text.dotParts_of_undotted hdot, List.getLast?_singleton, Option.getD_some, Dialect.part,
          if_pos hwritten]
        exact hodd hwritten
    · cases hname
  · have hverbatim : Field.isVerbatim label = true := by tauto
    have hlabel : t.introducedAs b.dialect (some label) = label := by
      have hwritten : b.dialect.labelName label = label := if_pos hverbatim
      obtain ⟨name | q, written, info⟩ := t
      · have hne : label ≠ name := fun heq => hname (congrArg some heq.symm)
        exact (if_neg hne).trans hwritten
      · exact hwritten
    rw [hlabel]
    exact hodd (.inr hverbatim)

/-- A table is introduced as its label is quoted exactly if the label is clear. -/
theorem introducedAs_eq_iff :
    t.introducedAs b.dialect (some label) = b.dialect.quoteIdentifier label ↔
      t.IsClear (some label) := by
  refine ⟨fun heq => ?_, introducedAs_of_clear⟩
  by_contra hclear
  exact absurd (congrArg String.length heq) (Nat.ne_of_lt (length_introducedAs_lt hclear))

end TableRef

/-! Unqualified fields. -/

/-- A name that is neither qualified nor written as it stands. -/
def IsUnqualified (name : String) : Prop :=
  name ≠ "*" ∧ Field.isVerbatim name = false ∧ '.' ∉ name.toList

instance : DecidablePred IsUnqualified := fun _ => inferInstanceAs (Decidable (_ ∧ _ ∧ _))

theorem Dialect.fieldName_unqualified (d : Dialect) (scope : Scope) {name : String}
    (h : IsUnqualified name) : d.fieldName scope name =
      behind (scope.qualifier.map d.quoteIdentifier) (d.quoteIdentifier name) := by
  obtain ⟨hstar, hverbatim, hdot⟩ := h
  rw [fieldName, if_neg (by simp [hstar, hverbatim]), if_neg (by simpa [Text.hasChar] using hdot)]
  cases scope.qualifier <;> rfl

theorem isUnqualified_identifier {name : String} (h : Text.isIdentifier name = true) :
    IsUnqualified name := by
  have hdotted : (Text.dotParts name).all Text.isIdentifier = true := by
    simp [Text.dotParts_identifier h, h]
  obtain ⟨hstar, hverbatim⟩ := Builtin.not_verbatim hdotted
  exact ⟨hstar, hverbatim, fun hdot => absurd (Text.isIdentifierPart_of_mem h hdot) (by decide)⟩

/-! Columns of a selection of everything. -/

/-- A column behind the name of its table, and the name it is given if it has one. -/
def IsColumnOf (d : Dialect) (table : String) (label : Option String) (known column : String) :
    Prop :=
  ∃ heading, column = behind (some table) (d.quoteIdentifier known) ++ heading ∧
    (heading = "" ∨ ∃ l ∈ label, heading = " AS " ++ d.quoteIdentifier (l ++ "_" ++ known))

/-- The columns that are listed for a table: those that are known, or the star. -/
def TableRef.Lists (d : Dialect) (t : TableRef ν) (label : Option String)
    (columns : List String) : Prop :=
  if t.attributes.isEmpty then columns = [behind (some (t.introducedAs d label)) "*"]
  else List.Forall₂ (IsColumnOf d (t.introducedAs d label) label) t.attributes columns

theorem tableColumns_forall₂ (d : Dialect) (table label : String) (seen attributes : List String) :
    List.Forall₂ (IsColumnOf d table (some label)) attributes
      (tableColumns d (some table) label seen attributes).1 := by
  induction attributes generalizing seen with
  | nil => exact .nil
  | cons known rest ih =>
      rw [tableColumns]
      split
      · exact .cons ⟨_, by simp [String.append_assoc], .inr ⟨label, rfl, rfl⟩⟩ (ih _)
      · exact .cons ⟨"", by simp, .inl rfl⟩ (ih _)

theorem allColumns_lists (d : Dialect) (seen : List String)
    {tables : List (TableRef ν × Option String)} (hlabels : ∀ x ∈ tables, x.2.isSome) :
    ∃ columns : List (List String), allColumns d true seen tables = columns.flatten ∧
      List.Forall₂ (fun x columns => x.1.IsClear x.2 → x.1.Lists d x.2 columns)
        tables columns := by
  induction tables generalizing seen with
  | nil => exact ⟨[], rfl, .nil⟩
  | cons x rest ih =>
      obtain ⟨t, label⟩ := x
      obtain ⟨l, rfl⟩ := Option.isSome_iff_exists.mp (hlabels _ List.mem_cons_self)
      have hrest := fun seen => ih seen fun x hx => hlabels x (List.mem_cons_of_mem _ hx)
      rw [allColumns, show (some l <|> t.name?).getD "sub" = l from rfl, if_pos rfl]
      by_cases hempty : t.attributes.isEmpty
      · obtain ⟨columns, hcolumns, hforall⟩ := hrest seen
        refine ⟨[behind (some (d.quoteIdentifier l)) "*"] :: columns, ?_, .cons (fun hclear => ?_) hforall⟩
        · simp [hempty, hcolumns]
        · rw [TableRef.Lists, if_pos hempty, TableRef.introducedAs_of_clear hclear]
      · obtain ⟨columns, hcolumns, hforall⟩ :=
          hrest (tableColumns d (some (d.quoteIdentifier l)) l seen t.attributes).2
        refine ⟨(tableColumns d (some (d.quoteIdentifier l)) l seen t.attributes).1 :: columns, ?_,
          .cons (fun hclear => ?_) hforall⟩
        · simp [hempty, hcolumns]
        · rw [TableRef.Lists, if_neg hempty, TableRef.introducedAs_of_clear hclear]
          exact tableColumns_forall₂ d _ l seen t.attributes

/-! Pairs of fields. -/

/-- A label that stays one part in front of a column when the whole is read as a field. -/
def IsQualifier (label : String) : Prop :=
  Field.isVerbatim label = false ∧ label ≠ "*" ∧
    ∀ c ∈ label.toList, c ≠ '.' ∧ Text.isSeparator c = false

instance : DecidablePred IsQualifier := fun _ => inferInstanceAs (Decidable (_ ∧ _ ∧ _))

theorem IsQualifier.clear {label : Option String} (h : ∀ l ∈ label, IsQualifier l)
    (t : TableRef ν) : t.IsClear label := by
  intro l hl
  obtain ⟨hverbatim, hstar, hchars⟩ := h l hl
  exact ⟨hverbatim, fun _ => ⟨hstar, fun hdot => (hchars '.' hdot).1 rfl⟩⟩

theorem Sql.render_intercalate (separator : String) (sqls : List Sql) :
    (intercalate separator sqls).render = separator.intercalate (sqls.map render) := by
  induction sqls with
  | nil => exact render_ofString ""
  | cons sql rest ih =>
      cases rest with
      | nil => simp [intercalate]
      | cons next rest =>
          rw [intercalate, render_append, render_append, render_ofString, ih]
          simp only [List.map_cons, String.intercalate_cons_cons]

/-- The equation that a pair of fields becomes, each side behind the name of its table. -/
def equationText (d : Dialect) (primary : Option String) (joined : String)
    (pair : String × String) : String :=
  behind primary (d.quoteIdentifier pair.1) ++ " = " ++
    behind (some joined) (d.quoteIdentifier pair.2)

/-- The condition that pairs of fields become. -/
def equationsText (d : Dialect) (primary : Option String) (joined : String)
    (pairs : List (String × String)) : String :=
  if pairs.isEmpty then "TRUE" else " AND ".intercalate (pairs.map (equationText d primary joined))

theorem isVerbatim_dotted {front back : String} (hfront : Field.isVerbatim front = false)
    (hback : Field.isVerbatim back = false) :
    Field.isVerbatim (front ++ "." ++ back) = false := by
  rw [isVerbatim_eq_false] at hfront hback ⊢
  refine ⟨fun c hc => ?_, by simpa using ⟨hfront.2, hback.2⟩⟩
  cases hcs : front.toList with
  | nil =>
      obtain rfl : c = '.' := by simpa [hcs, eq_comm] using hc
      decide
  | cons first rest => exact hfront.1 c (by simpa [hcs] using hc)

section Equations

variable {H : String → Value → Prop} {b : Builtin} {scope : Scope}

/-- A label in front of a column is read as the part it was. -/
theorem fieldName_qualified {label column : String} (hlabel : IsQualifier label)
    (hcolumn : Text.isIdentifier column = true) :
    b.dialect.fieldName scope (label ++ "." ++ column) =
      behind (some (b.dialect.quoteIdentifier label)) (b.dialect.quoteIdentifier column) := by
  obtain ⟨hverbatim, hstar, hchars⟩ := hlabel
  obtain ⟨-, hplain, hdot⟩ := isUnqualified_identifier hcolumn
  have hwhole := isVerbatim_dotted hverbatim hplain
  have hnotStar : label ++ "." ++ column ≠ "*" := by
    intro heq
    have hmem : '.' ∈ "*".toList := heq ▸ (by simp)
    exact absurd hmem (by decide)
  rw [Dialect.fieldName, if_neg (by simp [hnotStar, hwhole]), if_pos (by simp [Text.hasChar]),
    Dialect.dotted, Text.dotParts_pair (fun hmem => (hchars '.' hmem).1 rfl) hdot]
  have hpart : b.dialect.part label = b.dialect.quoteIdentifier label := by
    rw [Dialect.part, if_neg (by simp [hstar, hverbatim])]
  simp only [List.map_cons, List.map_nil, hpart, b.part_identifier hcolumn,
    String.intercalate_cons_cons, String.intercalate_singleton, behind]

theorem qualify_identifier {label : String} {column : String}
    (hcolumn : Text.isIdentifier column = true) :
    qualify (some label) column = label ++ "." ++ column := by
  obtain ⟨-, -, hdot⟩ := isUnqualified_identifier hcolumn
  rw [qualify, if_neg (by simpa [Text.hasChar] using hdot)]

/-- Neither a qualifier nor an identifier has blanks at which the whole would be cut. -/
theorem unbroken_qualify {label : Option String} {column : String}
    (hlabel : ∀ l ∈ label, IsQualifier l) (hcolumn : Text.isIdentifier column = true) :
    ∀ c ∈ (qualify label column).toList, Text.isSeparator c = false := by
  have hidentifier : ∀ c ∈ column.toList, Text.isSeparator c = false := by
    intro c hc
    have hpart := Text.isIdentifierPart_of_mem hcolumn hc
    rw [Text.isSeparator, ← Bool.not_eq_true]
    simp only [Bool.or_eq_true, beq_iff_eq]
    rintro (((rfl | rfl) | rfl) | rfl) <;> exact absurd hpart (by decide)
  cases label with
  | none => exact hidentifier
  | some l =>
      rw [qualify_identifier hcolumn]
      intro c hc
      rw [String.toList_append, String.toList_append, List.mem_append, List.mem_append] at hc
      obtain (hfront | hmid) | hback := hc
      · exact ((hlabel l rfl).2.2 c hfront).2
      · obtain rfl : c = '.' := by simpa using hmid
        rfl
      · exact hidentifier c hback

theorem fieldSql_qualified {label : Option String} {column : String}
    (hlabel : ∀ l ∈ label, IsQualifier l) (hscope : label = none → scope.label = none)
    (hcolumn : Text.isIdentifier column = true) :
    (fieldSql b.dialect scope (qualify label column)).Ensures H fun sql => sql.render =
      behind (label.map b.dialect.quoteIdentifier) (b.dialect.quoteIdentifier column) := by
  have hunbroken := unbroken_qualify hlabel hcolumn
  refine (Build.Ensures.ofExcept fun field hfield => Field.name_of_parse hunbroken hfield).bind
    fun field hname => .pure ?_
  rw [Sql.render_ofString, hname]
  cases label with
  | none =>
      have hqualifier : scope.qualifier = none := by
        rw [Scope.qualifier, hscope rfl, ite_self]
      rw [qualify, Dialect.fieldName_unqualified _ _ (isUnqualified_identifier hcolumn), hqualifier]
  | some l =>
      rw [qualify_identifier hcolumn, fieldName_qualified (hlabel l rfl) hcolumn]
      rfl

/-- An equation needs no parentheses in a conjunction. -/
theorem equalSql_ensures {left right : Build Sql} {x y : String}
    (hleft : left.Ensures H fun sql => sql.render = x)
    (hright : right.Ensures H fun sql => sql.render = y) (shown : String) {context : Nat}
    (hcontext : Connective.conj.rank ≤ context) :
    (applicationSql b.dialect "=" shown [.leaf left, .leaf right] context).Ensures H
      fun sql => sql.render = x ++ " = " ++ y := by
  obtain ⟨op, hop, hname, harity, hrank⟩ :
      ∃ op ∈ Operator.all, op.name = "=" ∧ op.arity = .binary ∧ op.rank ≤ Connective.conj.rank := by
    decide
  have hcanonical : Operator.canonical "=" = op.name := by
    rw [hname]
    decide +kernel
  have hspelled : b.dialect.operatorName op.name = some "=" := by
    rw [hname]
    cases b <;> decide +kernel
  rw [applicationSql_eq hop hcanonical]
  simp only [operatorSql, harity, spelling_eq hspelled, pure_bind]
  refine hleft.bind fun l hl => hright.bind fun r hr => .pure ?_
  rw [Operator.wrap, if_neg (by omega)]
  simp only [Sql.render_append, Sql.render_ofString, hl, hr, String.append_assoc]
  rfl

/-- An operand whose text is no constant is neither dropped nor decides the whole. -/
theorem keptOperands_ensures {fs : List Fragment} {texts : List String}
    (h : List.Forall₂ (fun f text => (f.sql Connective.conj.rank).Ensures H fun sql =>
      sql.render = text) fs texts) (hconstant : ∀ text ∈ texts, ¬ IsConstant text) :
    (keptOperands Connective.conj.operator fs).Ensures H fun kept =>
      ∃ parts, kept = some parts ∧ parts.map (fun part => part.1.render) = texts := by
  induction h with
  | nil => exact .pure ⟨[], rfl, rfl⟩
  | @cons f text rest texts hf _ ih =>
      obtain ⟨hfirst, hrest⟩ := List.forall_mem_cons.mp hconstant
      refine hf.bind fun sql hsql => ?_
      have habsorbing : absorbing? Connective.conj.operator.name ≠ some sql.render := by
        rw [hsql, show absorbing? Connective.conj.operator.name = some "FALSE" from rfl]
        exact fun heq => hfirst (.inr (Option.some.inj heq).symm)
      have hneutral : neutral? Connective.conj.operator.name ≠ some sql.render := by
        rw [hsql, show neutral? Connective.conj.operator.name = some "TRUE" from rfl]
        exact fun heq => hfirst (.inl (Option.some.inj heq).symm)
      rw [if_neg habsorbing]
      refine (ih hrest).bind fun kept hkept => .pure ?_
      obtain ⟨parts, rfl, hparts⟩ := hkept
      rw [if_neg hneutral]
      exact ⟨_, rfl, by rw [List.map_cons, hsql, hparts]⟩

/-- A conjunction of texts that are no constants has all of them, in their order. -/
theorem conjSql_ensures {fs : List Fragment} {texts : List String}
    (h : List.Forall₂ (fun f text => (f.sql Connective.conj.rank).Ensures H fun sql =>
      sql.render = text) fs texts) (hconstant : ∀ text ∈ texts, ¬ IsConstant text)
    (shown : String) :
    (applicationSql b.dialect "AND" shown fs Operator.loosest).Ensures H fun sql =>
      sql.render = if texts.isEmpty then "TRUE" else " AND ".intercalate texts := by
  rw [applicationSql_eq Connective.conj.operator_mem (by decide +kernel)]
  change (variadicSql b.dialect Connective.conj.operator fs Operator.loosest).Ensures H _
  rw [variadicSql, spelling_connective, pure_bind]
  refine (keptOperands_ensures h hconstant).bind fun kept hkept => ?_
  obtain ⟨parts, rfl, rfl⟩ := hkept
  refine .pure ?_
  have hwrap : ∀ sql, Operator.wrap Connective.conj.operator.rank Operator.loosest sql = sql :=
    fun _ => if_neg (by decide)
  rcases parts with _ | ⟨⟨sql, atomic⟩, _ | ⟨next, rest⟩⟩
  · exact Sql.render_ofString "TRUE"
  · simp only [joinOperands, hwrap, ite_self]
    simp
  · change (Operator.wrap _ _ (Sql.intercalate " AND " _)).render = _
    rw [hwrap, Sql.render_intercalate, List.map_map]
    rfl

/-- The condition of a join on pairs of fields, with each field behind the name of its table. -/
theorem pairsSql_ensures {joined : String} {pairs : List (String × String)}
    (hprimary : ∀ l ∈ scope.label, IsQualifier l) (hjoined : IsQualifier joined)
    (hpairs : ∀ pair ∈ pairs, Text.isIdentifier pair.1 = true ∧ Text.isIdentifier pair.2 = true) :
    (((JoinCondition.fields pairs).toExpr scope.label joined).sql b.dialect scope).Ensures H
      fun sql => sql.render = equationsText b.dialect
        (scope.label.map b.dialect.quoteIdentifier) (b.dialect.quoteIdentifier joined) pairs := by
  have hlabel : ∀ l ∈ some joined, IsQualifier l := by
    rintro _ ⟨⟩
    exact hjoined
  have htexts : List.Forall₂ (fun f text => (f.sql Connective.conj.rank).Ensures H fun sql =>
      sql.render = text)
      (Expr.fragments b.dialect scope (pairs.map fun pair =>
        .equal (.plainField (qualify scope.label pair.1))
          (.plainField (qualify (some joined) pair.2))))
      (pairs.map (equationText b.dialect (scope.label.map b.dialect.quoteIdentifier)
        (b.dialect.quoteIdentifier joined))) := by
    rw [Expr.fragments_eq_map, List.map_map, List.forall₂_map_left_iff,
      List.forall₂_map_right_iff, List.forall₂_same]
    intro pair hpair
    obtain ⟨hhere, hthere⟩ := hpairs pair hpair
    have hsome : some joined = none → scope.label = none :=
      fun hnone => absurd hnone (Option.some_ne_none joined)
    exact equalSql_ensures (fieldSql_qualified hprimary id hhere)
      (fieldSql_qualified hlabel hsome hthere) _ (Nat.le_refl _)
  have hconstant : ∀ text ∈ pairs.map (equationText b.dialect
      (scope.label.map b.dialect.quoteIdentifier) (b.dialect.quoteIdentifier joined)),
      ¬ IsConstant text := by
    intro text htext
    obtain ⟨pair, -, rfl⟩ := List.mem_map.mp htext
    exact not_constant_of_mem (c := '=') (by simp [equationText]) (by decide)
  have hconj := conjSql_ensures (b := b) htexts hconstant
    (Expr.display ((JoinCondition.fields pairs).toExpr scope.label joined : Expr (Build Sql)))
  rw [List.isEmpty_map] at hconj
  exact hconj

end Equations

end QueryCompiler
