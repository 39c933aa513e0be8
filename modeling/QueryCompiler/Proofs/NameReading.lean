import Mathlib.Tactic.ByContra
import Mathlib.Tactic.FinCases
import QueryCompiler.Proofs.CalmText
import QueryCompiler.Proofs.IdentifierText
import QueryCompiler.Proofs.Lexing

/-!
# Names are read back

A field in its scope and a function are each written as one word, and the parts of that word are
those of the label and the field, or those of the function in upper case.
-/
namespace QueryCompiler

open QueryCompiler.Field (extendFirst)
open Text (isQuote)

/-- A text that names exactly these parts, at the end of a name or in front of a dot. -/
structure Names (cs : List Char) (parts : List (List Char)) : Prop where
  whole : nameParts none cs = parts
  dotted : ∀ rest, nameParts none (cs ++ '.' :: rest) = parts ++ nameParts none rest

theorem Names.dot {a b : List Char} {ps qs : List (List Char)} (ha : Names a ps)
    (hb : Names b qs) : Names (a ++ '.' :: b) (ps ++ qs) := by
  refine ⟨?_, fun rest => ?_⟩
  · rw [ha.dotted, hb.whole]
  · rw [List.append_assoc, List.cons_append, ha.dotted, hb.dotted, List.append_assoc]

/-- A name without quotes ends where its dots say. -/
theorem nameParts_of_unquoted {cs : List Char} (h : ∀ c ∈ cs, isQuote c = false) :
    nameParts none cs = Text.partsWhere (· == '.') cs := by
  induction cs with
  | nil => rfl
  | cons c rest ih =>
      have hc := h c List.mem_cons_self
      have hrest := ih fun c hc => h c (List.mem_cons_of_mem _ hc)
      rw [nameParts, Text.partsWhere, hrest]
      by_cases hdot : c = '.'
      · simp [hdot]
      · simp only [hdot, beq_iff_eq, if_false, hc, Bool.false_eq_true]
        cases Text.partsWhere (· == '.') rest <;> rfl

theorem names_bare {cs : List Char} (h : ∀ c ∈ cs, c ≠ '.' ∧ isQuote c = false) :
    Names cs [cs] := by
  induction cs with
  | nil => exact ⟨rfl, fun _ => rfl⟩
  | cons c rest ih =>
      obtain ⟨hdot, hquote⟩ := h c List.mem_cons_self
      have hrest := ih fun c hc => h c (List.mem_cons_of_mem _ hc)
      have hstep : ∀ others, nameParts none (c :: others) = extendFirst c (nameParts none others) := by
        intro others
        rw [nameParts]
        simp [hdot, hquote]
      refine ⟨?_, fun others => ?_⟩
      · rw [hstep, hrest.whole]
        rfl
      · rw [List.cons_append, hstep, hrest.dotted]
        rfl

/-- Names between dots name the parts of each. -/
theorem names_intercalate {text : String → String} {parts : List String} (hne : parts ≠ [])
    (h : ∀ part ∈ parts, Names (text part).toList [part.toList]) :
    Names (".".intercalate (parts.map text)).toList (parts.map String.toList) := by
  induction parts with
  | nil => exact absurd rfl hne
  | cons part rest ih =>
      have hpart := h part List.mem_cons_self
      cases rest with
      | nil => simpa using hpart
      | cons next rest =>
          have hrest := ih (by simp) fun part hmem => h part (List.mem_cons_of_mem _ hmem)
          have htext : (".".intercalate ((part :: next :: rest).map text)).toList =
              (text part).toList ++ '.' :: (".".intercalate ((next :: rest).map text)).toList := by
            simp [String.intercalate_cons_cons]
          rw [htext]
          exact hpart.dot hrest

theorem dotParts_ne_nil (name : String) : Text.dotParts name ≠ [] := by
  rw [Text.dotParts]
  exact fun h => Text.partsWhere_ne_nil _ _ (List.map_eq_nil_iff.mp h)

theorem not_dot_mem_part {name part : String} (h : part ∈ Text.dotParts name) :
    '.' ∉ part.toList := by
  intro hmem
  obtain ⟨cs, hcs, rfl⟩ := List.mem_map.mp h
  rw [String.toList_ofList] at hmem
  simpa using Text.cut_of_mem_partsWhere hcs hmem

section Quoting

variable {quote : Char} (hquote : isQuote quote = true)

include hquote

/-- Inside quotes only a single quote is the end. -/
theorem nameParts_quoted (cs : List Char) :
    nameParts (some quote)
        ((cs.flatMap fun c => if c = quote then [quote, quote] else [c]) ++ [quote]) = [cs] ∧
      ∀ rest, nameParts (some quote)
        ((cs.flatMap fun c => if c = quote then [quote, quote] else [c]) ++ quote :: '.' :: rest) =
          cs :: nameParts none rest := by
  have hdot : ('.' : Char) ≠ quote := by
    rintro rfl
    simp [isQuote] at hquote
  have hdouble : ∀ others, nameParts (some quote) (quote :: quote :: others) =
      extendFirst quote (nameParts (some quote) others) := by
    intro others
    rw [nameParts]
    simp
  have hother : ∀ c others, c ≠ quote → nameParts (some quote) (c :: others) =
      extendFirst c (nameParts (some quote) others) := by
    intro c others hc
    rw [nameParts.eq_def]
    simp [hc]
  induction cs with
  | nil =>
      refine ⟨by simp [nameParts], fun rest => ?_⟩
      rw [List.flatMap_nil, List.nil_append, nameParts]
      simp [hdot, nameParts]
  | cons c cs ih =>
      obtain ⟨hwhole, hdotted⟩ := ih
      by_cases hc : c = quote
      · simp only [List.flatMap_cons, hc, if_true, List.cons_append, List.nil_append, hdouble]
        exact ⟨by rw [hwhole]; rfl, fun rest => by rw [hdotted]; rfl⟩
      · simp only [List.flatMap_cons, hc, if_false, List.cons_append, List.nil_append,
          hother c _ hc]
        exact ⟨by rw [hwhole]; rfl, fun rest => by rw [hdotted]; rfl⟩

theorem names_enclosed (cs : List Char) : Names (Text.encloseChars quote cs) [cs] := by
  have hopen : ∀ others, nameParts none (quote :: others) = nameParts (some quote) others := by
    intro others
    have hdot : quote ≠ '.' := by
      rintro rfl
      simp [isQuote] at hquote
    rw [nameParts]
    simp [hdot, hquote]
  obtain ⟨hwhole, hdotted⟩ := nameParts_quoted hquote cs
  refine ⟨?_, fun rest => ?_⟩
  · rw [Text.encloseChars, List.cons_append, hopen, hwhole]
  · rw [Text.encloseChars, List.cons_append, List.cons_append, hopen, List.append_assoc]
    exact hdotted rest

theorem names_quotePart {name : String} (hdot : '.' ∉ name.toList) :
    Names (Identifier.quotePart quote name).toList [name.toList] := by
  unfold Identifier.quotePart
  split
  · rw [Text.enclose, String.toList_ofList]
    exact names_enclosed hquote name.toList
  · rename_i hneeds
    obtain ⟨-, -, hchars, -⟩ := needsQuotes_eq_false_iff.mp (Bool.eq_false_iff.mpr hneeds)
    refine names_bare fun c hc => ⟨?_, ?_⟩
    · rintro rfl
      exact hdot hc
    · have hplain := hchars c hc
      by_contra hq
      simp only [isQuote, Bool.not_eq_false, Bool.or_eq_true, beq_iff_eq] at hq
      obtain (rfl | rfl) | rfl := hq <;> revert hplain <;> decide

theorem names_quoteName (name : String) :
    Names (Identifier.quoteName quote name).toList ((Text.dotParts name).map String.toList) := by
  refine names_intercalate (dotParts_ne_nil name) fun part hpart => ?_
  exact names_quotePart hquote (not_dot_mem_part hpart)

end Quoting

/-- Words of operators have no dots, colons or quotes. -/
theorem not_isOperatorWord {s : String} {c : Char} (hc : c ∈ s.toList)
    (hodd : c ∈ ['.', ':', '\'', '"', '\x60']) : isOperatorWord s = false := by
  have hwords : operatorWords.all (fun w => ['.', ':', '\'', '"', '\x60'].all fun odd =>
      !w.toList.contains odd) = true := by decide +kernel
  have hupper : c.toUpper = c := by fin_cases hodd <;> rfl
  by_contra hword
  rw [Bool.not_eq_false, isOperatorWord, List.contains_iff_mem] at hword
  have hall := List.all_eq_true.mp (List.all_eq_true.mp hwords _ hword) c hodd
  have hmem : c ∈ s.toUpper.toList := by
    rw [String.toUpper, String.toList_map]
    exact List.mem_map.mpr ⟨c, hc, hupper⟩
  simp [hmem] at hall

theorem Lexeme.ofWord_name {word : List Char} (hword : isOperatorWord (String.ofList word) = false)
    (hcolon : word.head? ≠ some ':') :
    ofWord word = .name ((nameParts none word).map String.ofList) := by
  rw [ofWord, hword, if_neg Bool.false_ne_true]
  rintro rest rfl
  exact hcolon rfl

/-- A quiet text that names parts is a word, unless it is empty. -/
theorem isWord_of_names {s : String} {parts : List String}
    (hnames : Names s.toList (parts.map String.toList)) (hempty : parts ≠ [""])
    (hquiet : Quiet isDelimiter s) (hcalm : Calm s) (hword : isOperatorWord s = false) :
    IsWord s (.name parts) := by
  refine ⟨hquiet, fun hnil => hempty ?_, ?_⟩
  · have hwhole := hnames.whole
    rw [hnil, nameParts] at hwhole
    obtain ⟨part, rfl, hpart⟩ := List.map_eq_singleton_iff.mp hwhole.symm
    rw [String.toList_eq_nil_iff.mp hpart]
  · rw [Lexeme.ofWord_name _ (head_of_calm hcalm), hnames.whole]
    · simp [Function.comp_def]
    · rwa [String.ofList_toList]

/-- A class of characters without delimiters and quotes. -/
theorem silent_of {p : Char → Bool}
    (h : [' ', '(', ')', ',', '\'', '"', '\x60'].any p = false) {c : Char} (hc : p c = true) :
    isDelimiter c = false ∧ isQuote c = false := by
  rw [List.any_eq_false] at h
  have hmem : c ∉ [' ', '(', ')', ',', '\'', '"', '\x60'] := fun hmem => h c hmem hc
  simp only [List.mem_cons, List.not_mem_nil, or_false, not_or] at hmem
  simp [isDelimiter, isQuote, hmem]

namespace Builtin

/-- The parts that the label of a table has where it qualifies a field. -/
def labelParts (b : Builtin) (label : String) : List String :=
  match b with
  | postgres | mysql => Text.dotParts label
  | sqlite => [label]

/-- The full name of a field in its scope. -/
def path (b : Builtin) (scope : Scope) (name : String) : List String :=
  (scope.qualifier.map b.labelParts).getD [] ++ [name]

variable (b : Builtin)

theorem names_quoteIdentifier (s : String) :
    Names (b.dialect.quoteIdentifier s).toList ((b.labelParts s).map String.toList) := by
  cases b with
  | postgres | mysql => exact names_quoteName rfl s
  | sqlite =>
      have htext : (Text.enclose '"' s).toList = Text.encloseChars '"' s.toList := by
        rw [Text.enclose, String.toList_ofList]
      change Names (Text.enclose '"' s).toList [s.toList]
      rw [htext]
      exact names_enclosed rfl s.toList

theorem quiet_quoteIdentifier (s : String) : Quiet isDelimiter (b.dialect.quoteIdentifier s) := by
  cases b with
  | postgres | mysql => exact quiet_quoteName rfl rfl (fun _ => silent_of (by decide)) rfl s
  | sqlite => exact quiet_enclose rfl rfl s

theorem calm_quoteIdentifier (s : String) : Calm (b.dialect.quoteIdentifier s) := by
  cases b with
  | postgres | mysql => exact calm_quoteName rfl s
  | sqlite => exact calm_enclose rfl s

theorem labelParts_of_undotted {name : String} (hdot : '.' ∉ name.toList) :
    b.labelParts name = [name] := by
  cases b with
  | postgres | mysql => exact Text.dotParts_of_undotted hdot
  | sqlite => rfl

/-- Without an operator word for a name the quoted name is none either. -/
theorem isOperatorWord_quoteIdentifier {name : String} (hdot : '.' ∉ name.toList)
    (h : isOperatorWord name = false) : isOperatorWord (b.dialect.quoteIdentifier name) = false := by
  have henclosed : ∀ quote : Char, quote ∈ ['.', ':', '\'', '"', '\x60'] →
      isOperatorWord (Text.enclose quote name) = false := by
    intro quote hquote
    refine not_isOperatorWord (c := quote) ?_ hquote
    simp [Text.enclose, Text.encloseChars]
  have hpart : ∀ quote : Char, quote ∈ ['.', ':', '\'', '"', '\x60'] →
      isOperatorWord (Identifier.quoteName quote name) = false := by
    intro quote hquote
    have hparts := labelParts_of_undotted .postgres hdot
    rw [labelParts] at hparts
    rw [Identifier.quoteName, hparts, List.map_singleton, String.intercalate_singleton]
    unfold Identifier.quotePart
    split
    · exact henclosed quote hquote
    · exact h
  cases b with
  | postgres | mysql => exact hpart _ (by decide)
  | sqlite => exact henclosed _ (by decide)

/-- The full name of a field that may be qualified already. -/
def fieldPath (scope : Scope) (name : String) : List String :=
  if Text.hasChar '.' name then Text.dotParts name else b.path scope name

section Fields

variable {name : String}

theorem names_identifier (hname : Text.isIdentifier name = true) :
    Names (b.dialect.quoteIdentifier name).toList [name.toList] := by
  have hnames := b.names_quoteIdentifier name
  rwa [labelParts_of_undotted b fun hdot =>
    absurd (Text.isIdentifierPart_of_mem hname hdot) (by decide)] at hnames

theorem not_verbatim (hname : (Text.dotParts name).all Text.isIdentifier = true) :
    name ≠ "*" ∧ Field.isVerbatim name = false := by
  have hodd : ∀ c ∈ ['*', '(', '"', '\x60', '\''], c ∉ name.toList := by
    intro c hc hmem
    obtain rfl | hpart := Text.mem_dotted hname hmem
    · exact absurd hc (by decide)
    · fin_cases hc <;> revert hpart <;> decide
  refine ⟨?_, isVerbatim_eq_false.mpr ⟨fun c hc hquote => ?_, hodd '(' (by decide)⟩⟩
  · rintro rfl
    exact hodd '*' (by decide) (by decide)
  · refine hodd c ?_ (List.mem_of_mem_head? hc)
    exact List.mem_cons_of_mem _ (List.mem_cons_of_mem _ hquote)

theorem part_identifier (hname : Text.isIdentifier name = true) :
    b.dialect.part name = b.dialect.quoteIdentifier name := by
  have hdotted : (Text.dotParts name).all Text.isIdentifier = true := by
    simp [Text.dotParts_identifier hname, hname]
  obtain ⟨hstar, hverbatim⟩ := not_verbatim hdotted
  rw [Dialect.part, if_neg (by simp [hstar, hverbatim])]

theorem names_dotted (hname : (Text.dotParts name).all Text.isIdentifier = true) :
    Names (b.dialect.dotted name).toList ((Text.dotParts name).map String.toList) :=
  names_intercalate (dotParts_ne_nil name) fun part hpart => by
    have hidentifier := List.all_eq_true.mp hname part hpart
    rw [b.part_identifier hidentifier]
    exact b.names_identifier hidentifier

theorem quiet_dotted {loud : Char → Bool} (hdot : Quiet loud ".")
    (hquoted : ∀ s, Quiet loud (b.dialect.quoteIdentifier s))
    (hname : (Text.dotParts name).all Text.isIdentifier = true) :
    Quiet loud (b.dialect.dotted name) := by
  refine quiet_intercalate hdot fun text htext => ?_
  obtain ⟨part, hpart, rfl⟩ := List.mem_map.mp htext
  rw [b.part_identifier (List.all_eq_true.mp hname part hpart)]
  exact hquoted part

/-- A field in its scope that is not written like a word of an operator is one word, the full name
of the field. -/
theorem isWord_fieldName_of_written (scope : Scope)
    (hname : (Text.dotParts name).all Text.isIdentifier = true)
    (hword : isOperatorWord (b.dialect.fieldName scope name) = false) :
    IsWord (b.dialect.fieldName scope name) (.name (b.fieldPath scope name)) := by
  obtain ⟨hstar, hverbatim⟩ := not_verbatim hname
  rw [Dialect.fieldName, if_neg (by simp [hstar, hverbatim])] at hword ⊢
  rw [fieldPath]
  split at hword
  · rename_i hdot
    rw [if_pos hdot, if_pos hdot]
    refine isWord_of_names (b.names_dotted hname) (fun hempty => ?_)
      (b.quiet_dotted (by decide) b.quiet_quoteIdentifier hname)
      (b.quiet_dotted (by decide) b.calm_quoteIdentifier hname) hword
    rw [hempty] at hname
    exact absurd hname (by decide)
  · rename_i hdot
    rw [if_neg hdot, if_neg hdot]
    have hparts : Text.dotParts name = [name] :=
      Text.dotParts_of_undotted (by simpa [Text.hasChar] using hdot)
    have hidentifier : Text.isIdentifier name = true := by simpa [hparts] using hname
    have hne : name ≠ "" := by
      rintro rfl
      exact absurd hidentifier (by decide)
    have hnames := b.names_identifier hidentifier
    rw [path]
    cases hqualifier : scope.qualifier with
    | none =>
        rw [hqualifier] at hword
        exact isWord_of_names hnames (by simpa using hne) (b.quiet_quoteIdentifier name)
          (b.calm_quoteIdentifier name) hword
    | some label =>
        rw [hqualifier] at hword
        have hfull := (b.names_quoteIdentifier label).dot hnames
        have hfullParts : b.labelParts label ++ [name] ≠ [""] := by
          intro hempty
          have hlast := congrArg List.getLast? hempty
          exact hne (by simpa using hlast)
        refine isWord_of_names (by simpa using hfull) hfullParts
          (((b.quiet_quoteIdentifier label).append (by decide)).append
            (b.quiet_quoteIdentifier name))
          (((b.calm_quoteIdentifier label).append (by decide)).append
            (b.calm_quoteIdentifier name)) hword

/-- A field in its scope is one word, the full name of the field. -/
theorem isWord_fieldName (scope : Scope) (hname : Text.isIdentifier name = true)
    (hword : isOperatorWord name = false) :
    IsWord (b.dialect.fieldName scope name) (.name (b.path scope name)) := by
  have hdotted : (Text.dotParts name).all Text.isIdentifier = true := by
    simp [Text.dotParts_identifier hname, hname]
  have hdot : '.' ∉ name.toList := fun hdot =>
    absurd (Text.isIdentifierPart_of_mem hname hdot) (by decide)
  have hpath : b.fieldPath scope name = b.path scope name := by
    rw [fieldPath, if_neg (by simp [Text.hasChar, hdot])]
  obtain ⟨hstar, hverbatim⟩ := not_verbatim hdotted
  rw [← hpath]
  refine b.isWord_fieldName_of_written scope hdotted ?_
  rw [Dialect.fieldName, if_neg (by simp [hstar, hverbatim]), if_neg (by simp [Text.hasChar, hdot])]
  cases scope.qualifier with
  | none => exact isOperatorWord_quoteIdentifier b hdot hword
  | some label => exact not_isOperatorWord (c := '.') (by simp) (by decide)

end Fields

end Builtin

theorem isWord_param {name : String} (h : Text.isIdentifier name = true) :
    IsWord (":" ++ name) (.param name) := by
  have htext : (":" ++ name).toList = ':' :: name.toList := by simp
  refine ⟨quiet_of_forall fun c hc => ?_, by simp [htext], ?_⟩
  · rw [htext] at hc
    obtain rfl | hname := List.mem_cons.mp hc
    · exact ⟨rfl, rfl⟩
    · exact silent_of (by decide) (Text.isIdentifierPart_of_mem h hname)
  · rw [htext, Lexeme.ofWord, not_isOperatorWord (c := ':') (by simp) (by decide)]
    simp

/-- The name of a function is one word, the name in upper case. -/
theorem isWord_function {name : String} (h : (Text.dotParts name).all Text.isIdentifier = true)
    (hword : isOperatorWord name = false) :
    IsWord name.toUpper (.name (Text.dotParts name.toUpper)) := by
  have hchars : ∀ c ∈ name.toUpper.toList, isDelimiter c = false ∧ isQuote c = false := by
    intro c hc
    obtain rfl | hpart := Text.mem_toUpper_function h hc
    · exact ⟨rfl, rfl⟩
    · exact silent_of (by decide) hpart
  refine ⟨quiet_of_forall hchars, fun hempty => ?_, ?_⟩
  · obtain rfl : name = "" := by
      refine String.toList_injective ?_
      simpa [String.toUpper, String.toList_map] using hempty
    revert h
    decide
  · rw [Lexeme.ofWord_name, nameParts_of_unquoted fun c hc => (hchars c hc).2, Text.dotParts]
    · rw [String.ofList_toList, isOperatorWord, Text.toUpper_toUpper]
      exact hword
    · intro hcolon
      obtain h | h := Text.mem_toUpper_function h (List.mem_of_mem_head? hcolon)
      · exact absurd h (by decide)
      · exact absurd h (by decide)

end QueryCompiler
