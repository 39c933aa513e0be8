import QueryCompiler.Proofs.SpacedTokens

/-!
# The shapes of fields and orders

A field is a name, a name and a label, or both with `AS` between them. An order is a name, behind
which there may be a direction and then a place for nulls. In both, the blanks around the text do
not matter, and what is given back are the very tokens of which the text consists.
-/
namespace QueryCompiler.Field

open Text (isSeparator)

/-- A token that can be the name or the label of a field. -/
def IsName (s : String) : Prop := IsToken s ∧ isAs s = false

/-- The texts of a field. -/
inductive Shape : String → Named → Prop where
  | plain {name : String} (hname : IsName name) : Shape name ⟨name, none⟩
  | labelled {name gap label : String} (hname : IsName name) (hgap : IsGap gap)
      (hlabel : IsName label) : Shape (name ++ gap ++ label) ⟨name, some label⟩
  | labelledAs {name gap word gap' label : String} (hname : IsName name) (hgap : IsGap gap)
      (hword : isAs word = true) (hgap' : IsGap gap') (hlabel : IsName label) :
      Shape (name ++ gap ++ (word ++ gap' ++ label)) ⟨name, some label⟩

/-- The words of a direction. -/
inductive DirectionWords : List String → Direction → Prop where
  | none : DirectionWords [] .ascending
  | ascending : DirectionWords ["ASC"] .ascending
  | descending : DirectionWords ["DESC"] .descending

/-- The words of a place for nulls. -/
inductive NullsWords : List String → Option Nulls → Prop where
  | none : NullsWords [] none
  | first : NullsWords ["NULLS", "FIRST"] (some .first)
  | last : NullsWords ["NULLS", "LAST"] (some .last)

/-- The texts of an order: a token and words in upper or lower case behind it. -/
structure OrderShape (s : String) (order : Ordered) : Prop where
  name : IsToken order.name
  words : ∃ words directionWords nullsWords, Spaced (order.name :: words) s ∧
    words.map String.toUpper = directionWords ++ nullsWords ∧
    DirectionWords directionWords order.direction ∧ NullsWords nullsWords order.nulls

/-! Words are tokens. -/

theorem next_of_toUpper {c : Char} (h : c.toUpper.isUpper = true) :
    isSeparator c = false ∧ Place.next true c (.plain 0) = some (.plain 0) := by
  have hnone : [' ', '\t', '\r', '\n', '(', ')', '\'', '"', '\x60'].all
      (fun c => !c.toUpper.isUpper) = true := by decide
  have hother : c ∉ [' ', '\t', '\r', '\n', '(', ')', '\'', '"', '\x60'] := by
    intro hc
    have hlower := List.all_eq_true.mp hnone c hc
    rw [h] at hlower
    cases hlower
  simp only [List.mem_cons, List.not_mem_nil, or_false, not_or] at hother
  simp [isSeparator, Place.next, opensQuotes, hother]

/-- A word of letters is a token. -/
theorem isToken_of_toUpper {word : String} (hne : word.toUpper ≠ "")
    (h : word.toUpper.toList.all Char.isUpper = true) : IsToken word := by
  have hchars : ∀ cs : List Char, (∀ c ∈ cs, c.toUpper.isUpper = true) →
      Unbroken (.plain 0) cs := by
    intro cs hcs
    induction cs with
    | nil => exact unbroken_nil_iff.mpr rfl
    | cons c cs ih =>
        obtain ⟨hc, hrest⟩ := List.forall_mem_cons.mp hcs
        obtain ⟨hseparator, hnext⟩ := next_of_toUpper hc
        exact unbroken_cons_iff.mpr ⟨by rw [hseparator, Bool.and_false], _, hnext, ih hrest⟩
  refine isToken_iff.mpr ⟨?_, hchars word.toList ?_⟩
  · rintro rfl
    exact hne (Text.toUpper_eq_iff.mpr rfl)
  · intro c hc
    refine List.all_eq_true.mp h _ ?_
    rw [String.toUpper, String.toList_map]
    exact List.mem_map_of_mem hc

theorem isAs_iff {word : String} : isAs word = true ↔ word.toUpper = "AS" := by
  have has : "AS".toUpper = "AS" := Text.toUpper_eq_iff.mpr rfl
  rw [isAs, Text.sameWord, has, beq_iff_eq]

theorem isToken_of_isAs {word : String} (h : isAs word = true) : IsToken word := by
  have hword := isAs_iff.mp h
  exact isToken_of_toUpper (by rw [hword]; decide) (by rw [hword]; decide)

/-! Fields. -/

theorem parse_eq_ok {text : String} {field : Named} : parse text = .ok field ↔
    ∃ tokens, tokenize text = .ok tokens ∧ named? tokens = some field := by
  unfold parse tokenize
  cases tokens? text with
  | none => simp
  | some tokens => cases hnamed : named? tokens <;> simp [hnamed]

/-- What is read as a field has one of the shapes, with the tokens of the text. -/
theorem shape_of_named? {tokens : List String} {s : String} {field : Named}
    (h : named? tokens = some field) (hspaced : Spaced tokens s)
    (htokens : ∀ token ∈ tokens, IsToken token) : Shape s field := by
  unfold named? at h
  split at h
  · split at h
    · cases h
    · rename_i has
      cases h
      cases hspaced
      exact .plain ⟨htokens _ (by simp), by simpa using has⟩
  · split at h
    · cases h
    · rename_i has
      cases h
      obtain ⟨hname, hlabel⟩ := not_or.mp (Bool.or_eq_true_iff.not.mp has)
      cases hspaced with
      | cons hgap hbehind =>
          cases hbehind
          exact .labelled ⟨htokens _ (by simp), by simpa using hname⟩ hgap
            ⟨htokens _ (by simp), by simpa using hlabel⟩
  · split at h
    · cases h
    · rename_i has
      cases h
      obtain ⟨hrest, hlabel⟩ := not_or.mp (Bool.or_eq_true_iff.not.mp has)
      obtain ⟨hword, hname⟩ := not_or.mp (Bool.or_eq_true_iff.not.mp hrest)
      cases hspaced with
      | cons hgap hbehind =>
          cases hbehind with
          | cons hgap' hbehind =>
              cases hbehind
              exact .labelledAs ⟨htokens _ (by simp), by simpa using hname⟩ hgap
                (by simpa using hword) hgap' ⟨htokens _ (by simp), by simpa using hlabel⟩
  · cases h

/-- Every shape is read. -/
theorem named?_of_shape {s : String} {field : Named} (h : Shape s field) :
    ∃ tokens, Spaced tokens s ∧ (∀ token ∈ tokens, IsToken token) ∧ named? tokens = some field := by
  cases h with
  | plain hname =>
      exact ⟨_, .single, by simpa using hname.1, by simp [named?, hname.2]⟩
  | labelled hname hgap hlabel =>
      exact ⟨_, .cons hgap .single, by simp [hname.1, hlabel.1],
        by simp [named?, hname.2, hlabel.2]⟩
  | labelledAs hname hgap hword hgap' hlabel =>
      exact ⟨_, .cons hgap (.cons hgap' .single),
        by simp [hname.1, isToken_of_isAs hword, hlabel.1],
        by simp [named?, hname.2, hword, hlabel.2]⟩

/-- A field is accepted in its shapes. -/
theorem parse_iff_shape {text : String} {field : Named} :
    parse text = .ok field ↔ Shape (Text.trim isSeparator text) field := by
  rw [parse_eq_ok]
  constructor
  · rintro ⟨tokens, htokens, hnamed⟩
    obtain ⟨hspaced, hall⟩ := tokenize_iff_spaced.mp htokens
    exact shape_of_named? hnamed hspaced hall
  · intro h
    obtain ⟨tokens, hspaced, hall, hnamed⟩ := named?_of_shape h
    exact ⟨tokens, tokenize_iff_spaced.mpr ⟨hspaced, hall⟩, hnamed⟩

/-! Orders. -/

theorem parseOrder_eq_ok {text : String} {order : Ordered} : parseOrder text = .ok order ↔
    ∃ tokens, tokenize text = .ok tokens ∧ ordered? tokens = some order := by
  unfold parseOrder tokenize
  cases tokens? text with
  | none => simp
  | some tokens => cases hordered : ordered? tokens <;> simp [hordered]

theorem nulls?_eq_some {words : List String} {nulls : Option Nulls} :
    nulls? words = some nulls ↔ NullsWords words nulls := by
  constructor
  · intro h
    unfold nulls? at h
    split at h <;> cases h
    · exact .none
    · exact .first
    · exact .last
  · rintro (_ | _ | _) <;> rfl

/-- A direction is read where its word comes first. -/
theorem ordered?_eq_some {name : String} {words : List String} {order : Ordered} :
    ordered? (name :: words) = some order ↔ order.name = name ∧
      ∃ directionWords nullsWords, words.map String.toUpper = directionWords ++ nullsWords ∧
        DirectionWords directionWords order.direction ∧ NullsWords nullsWords order.nulls := by
  simp only [ordered?, Option.map_eq_some_iff, nulls?_eq_some]
  constructor
  · rintro ⟨nulls, hnulls, rfl⟩
    refine ⟨rfl, ?_⟩
    revert hnulls
    unfold direction
    split <;> intro hnulls
    · exact ⟨_, _, by assumption, .ascending, hnulls⟩
    · exact ⟨_, _, by assumption, .descending, hnulls⟩
    · exact ⟨_, _, rfl, .none, hnulls⟩
  · rintro ⟨rfl, directionWords, nullsWords, hwords, hdirection, hnulls⟩
    refine ⟨order.nulls, ?_⟩
    obtain ⟨name, direction', nulls⟩ := order
    simp only at hdirection hnulls ⊢
    rw [hwords]
    cases hdirection <;> cases hnulls <;> exact ⟨by constructor, rfl⟩

/-- The words behind the field of an order are tokens, as they have letters only. -/
theorem isToken_of_words {words directionWords nullsWords : List String} {direction : Direction}
    {nulls : Option Nulls} (hwords : words.map String.toUpper = directionWords ++ nullsWords)
    (hdirection : DirectionWords directionWords direction) (hnulls : NullsWords nullsWords nulls)
    {word : String} (hmem : word ∈ words) : IsToken word := by
  have hletters : ∀ word ∈ directionWords ++ nullsWords,
      word ≠ "" ∧ word.toList.all Char.isUpper = true := by
    cases hdirection <;> cases hnulls <;> decide
  have hupper := hletters word.toUpper (hwords ▸ List.mem_map_of_mem hmem)
  exact isToken_of_toUpper hupper.1 hupper.2

/-- An order is accepted in its shape. -/
theorem parseOrder_iff_shape {text : String} {order : Ordered} :
    parseOrder text = .ok order ↔ OrderShape (Text.trim isSeparator text) order := by
  rw [parseOrder_eq_ok]
  constructor
  · rintro ⟨tokens, htokens, hordered⟩
    obtain ⟨hspaced, hall⟩ := tokenize_iff_spaced.mp htokens
    cases tokens with
    | nil => cases hordered
    | cons name words =>
        obtain ⟨rfl, directionWords, nullsWords, hwords, hdirection, hnulls⟩ :=
          ordered?_eq_some.mp hordered
        exact ⟨hall _ List.mem_cons_self,
          words, directionWords, nullsWords, hspaced, hwords, hdirection, hnulls⟩
  · rintro ⟨hname, words, directionWords, nullsWords, hspaced, hwords, hdirection, hnulls⟩
    refine ⟨order.name :: words, tokenize_iff_spaced.mpr ⟨hspaced, ?_⟩,
      ordered?_eq_some.mpr ⟨rfl, directionWords, nullsWords, hwords, hdirection, hnulls⟩⟩
    exact List.forall_mem_cons.mpr
      ⟨hname, fun word hmem => isToken_of_words hwords hdirection hnulls hmem⟩

/-- Fields and orders are accepted in their shapes and in no other, and give back the tokens of the
text. -/
theorem accepted_in_shapes (text : String) :
    (∀ field, parse text = .ok field ↔ Shape (Text.trim isSeparator text) field) ∧
      ∀ order, parseOrder text = .ok order ↔ OrderShape (Text.trim isSeparator text) order :=
  ⟨fun _ => parse_iff_shape, fun _ => parseOrder_iff_shape⟩

theorem accepted_in_shapes_total :
    parse " COUNT( * )\tas  total\n" = .ok ⟨"COUNT( * )", some "total"⟩ ∧
      parseOrder "COUNT( * ) desc\tNulls Last" =
        .ok ⟨"COUNT( * )", .descending, some .last⟩ := by
  have hcount : cut (.plain 0) "COUNT( * )".toList = some ["COUNT( * )".toList] := by decide +kernel
  have htotal : cut (.plain 0) "total".toList = some ["total".toList] := by decide +kernel
  have hname : IsToken "COUNT( * )" := isToken_iff.mpr ⟨by decide, hcount⟩
  have hlabel : IsToken "total" := isToken_iff.mpr ⟨by decide, htotal⟩
  have hkept : ∀ s ∈ ["COUNT( * )", "total"], isAs s = false := by
    simp only [Bool.eq_false_iff, ne_eq, isAs_iff, Text.toUpper_eq_iff]
    decide
  have hwords : ["desc", "Nulls", "Last"].map String.toUpper = ["DESC"] ++ ["NULLS", "LAST"] := by
    simp only [List.map_cons, List.map_nil, List.singleton_append, List.cons.injEq,
      Text.toUpper_eq_iff]
    decide
  have hgaps : ∀ gap ∈ [" ", "  ", "\t"], gap ≠ "" ∧ gap.toList.all isSeparator = true := by decide
  have hgap : ∀ gap ∈ [" ", "  ", "\t"], IsGap gap := fun gap hmem =>
    ⟨(hgaps gap hmem).1, List.all_eq_true.mp (hgaps gap hmem).2⟩
  have hfield : Text.trim isSeparator " COUNT( * )\tas  total\n" =
      "COUNT( * )" ++ "\t" ++ ("as" ++ "  " ++ "total") := by decide +kernel
  have horder : Text.trim isSeparator "COUNT( * ) desc\tNulls Last" =
      "COUNT( * )" ++ " " ++ ("desc" ++ "\t" ++ ("Nulls" ++ " " ++ "Last")) := by decide +kernel
  constructor
  · refine ((accepted_in_shapes _).1 _).mpr ?_
    rw [hfield]
    have hword : isAs "as" = true := isAs_iff.mpr (Text.toUpper_eq_iff.mpr rfl)
    exact .labelledAs ⟨hname, hkept _ (by decide)⟩ (hgap _ (by decide)) hword
      (hgap _ (by decide)) ⟨hlabel, hkept _ (by decide)⟩
  · refine ((accepted_in_shapes _).2 _).mpr ⟨hname, ["desc", "Nulls", "Last"], ["DESC"],
      ["NULLS", "LAST"], ?_, hwords, .descending, .last⟩
    rw [horder]
    exact .cons (hgap _ (by decide))
      (.cons (hgap _ (by decide)) (.cons (hgap _ (by decide)) .single))

end QueryCompiler.Field
