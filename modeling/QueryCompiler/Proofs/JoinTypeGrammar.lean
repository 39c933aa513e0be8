import QueryCompiler.Proofs.KeywordScan

/-!
# The grammar of join types

The text of a join type is read by alternatives in order, with optional parts that are left out
where they cannot be read. What is accepted are the texts whose words, in upper or lower case, are
those of a join type, with or without `JOIN` at the end, and the join type is the one with these
words.
-/
namespace QueryCompiler.JoinType

open Text (isSeparator)

/-- The words of a side. -/
inductive NamesSide : List String → JoinSide × Bool → Prop where
  | inner : NamesSide ["INNER"] (.inner, false)
  | outward {side : JoinSide} (h : side ≠ .inner) : NamesSide [side.word] (side, false)
  | outer {side : JoinSide} (h : side ≠ .inner) : NamesSide [side.word, "OUTER"] (side, true)

/-- The words of a join type, without `JOIN`. -/
inductive Names : List String → JoinType → Prop where
  | cross : Names ["CROSS"] ⟨true, false, none, false⟩
  | natural : Names ["NATURAL"] ⟨false, true, none, false⟩
  | naturalSide {words : List String} {side : JoinSide × Bool} (h : NamesSide words side) :
      Names ("NATURAL" :: words) ⟨false, true, some side.1, side.2⟩
  | side {words : List String} {side : JoinSide × Bool} (h : NamesSide words side) :
      Names words ⟨false, false, some side.1, side.2⟩

namespace Scan

variable {α β : Type} {p q : Scan α} {f : α → Scan β} {text rest : List Char}

/-! What a step built from others reads. -/

theorem bind_eq_some {b : β} : (p >>= f) text = some (b, rest) ↔
    ∃ a between, p text = some (a, between) ∧ f a between = some (b, rest) := by
  change (p text).bind (fun r => f r.1 r.2) = _ ↔ _
  simp [Option.bind_eq_some_iff]

theorem bind_eq_none (h : p text = none) : (p >>= f) text = none := by
  change (p text).bind (fun r => f r.1 r.2) = none
  rw [h, Option.bind_none]

theorem pure_eq_some {a b : α} : (pure a : Scan α) text = some (b, rest) ↔ a = b ∧ text = rest := by
  change some (a, text) = _ ↔ _
  simp

theorem orElse_eq_some {r : α × List Char} :
    (p <|> q) text = some r ↔ p text = some r ∨ p text = none ∧ q text = some r := by
  change (p text).orElse (fun _ => q text) = _ ↔ _
  cases p text <;> simp

theorem orElse_eq_none : (p <|> q) text = none ↔ p text = none ∧ q text = none := by
  change (p text).orElse (fun _ => q text) = none ↔ _
  cases p text <;> simp

theorem optional_eq_some {a : Option α} : optional p text = some (a, rest) ↔
    (∃ b, a = some b ∧ p text = some (b, rest)) ∨ a = none ∧ rest = text ∧ p text = none := by
  have hoptional : optional p text =
      ((p text).map fun r => (some r.1, r.2)).orElse fun _ => some (none, text) := by
    change ((p text).bind _).orElse _ = _
    cases p text <;> rfl
  rw [hoptional]
  cases p text with
  | none => simp [eq_comm]
  | some r => simp [Prod.ext_iff, eq_comm]

/-! Sides. -/

theorem named_eq_some {side side' : JoinSide} : named side text = some (side', rest) ↔
    side' = side ∧ keyword side.word text = some ((), rest) := by
  simp only [named, bind_eq_some, pure_eq_some]
  constructor
  · rintro ⟨⟨⟩, between, hread, rfl, rfl⟩
    exact ⟨rfl, hread⟩
  · rintro ⟨rfl, hread⟩
    exact ⟨(), rest, hread, rfl, rfl⟩

theorem named_eq_none {side : JoinSide} (h : keyword side.word text = none) :
    named side text = none := by
  rw [Option.eq_none_iff_forall_ne_some]
  rintro ⟨side', rest⟩ hread
  rw [named_eq_some, h] at hread
  cases hread.2

theorem word_mem_keywords (side : JoinSide) : side.word ∈ keywords := by
  cases side <;> decide

theorem word_injective {side other : JoinSide} (h : side.word = other.word) : side = other := by
  cases side <;> cases other <;> first | rfl | exact absurd h (by decide)

/-- One side at most can be read. -/
theorem named_other {side other : JoinSide} (h : keyword side.word text = some ((), rest))
    (hne : other ≠ side) : named other text = none :=
  named_eq_none (keyword_eq_none (word_mem_keywords side) (word_mem_keywords other) h
    fun hword => hne (word_injective hword))

theorem outward_eq_some {side : JoinSide} : outward text = some (side, rest) ↔
    side ≠ .inner ∧ keyword side.word text = some ((), rest) := by
  simp only [outward, orElse_eq_some, named_eq_some]
  constructor
  · rintro (⟨rfl, hread⟩ | ⟨-, ⟨rfl, hread⟩ | ⟨-, rfl, hread⟩⟩) <;> exact ⟨by decide, hread⟩
  · rintro ⟨hside, hread⟩
    cases side with
    | inner => exact absurd rfl hside
    | left => exact .inl ⟨rfl, hread⟩
    | right => exact .inr ⟨named_other hread (by decide), .inl ⟨rfl, hread⟩⟩
    | full =>
        exact .inr ⟨named_other hread (by decide),
          .inr ⟨named_other hread (by decide), rfl, hread⟩⟩

/-- What is read as a side are the words of it. -/
theorem side_sound {read : JoinSide × Bool} (h : side text = some (read, rest)) :
    ∃ words, NamesSide words read ∧ Reads words text rest := by
  simp only [side, orElse_eq_some, bind_eq_some, pure_eq_some, named_eq_some, outward_eq_some,
    optional_eq_some] at h
  obtain ⟨_, _, ⟨rfl, hinner⟩, rfl, rfl⟩ |
    ⟨-, side, between, ⟨hside, hread⟩, _, _, ⟨_, rfl, houter⟩ | ⟨rfl, rfl, -⟩, rfl, rfl⟩ := h
  · exact ⟨_, .inner, .single hinner⟩
  · exact ⟨_, .outer hside, .word hread (.single houter)⟩
  · exact ⟨_, .outward hside, .single hread⟩

/-- The words of a side are read as this side, as far as they go. -/
theorem side_complete {words : List String} {read : JoinSide × Bool} (hnames : NamesSide words read)
    (h : Reads words text rest) (houter : keyword "OUTER" rest = none) :
    side text = some (read, rest) := by
  rw [side, orElse_eq_some]
  cases hnames with
  | inner =>
      cases h with
      | word hinner hdone =>
          cases hdone
          exact .inl (bind_eq_some.mpr ⟨_, _, named_eq_some.mpr ⟨rfl, hinner⟩, rfl⟩)
  | outward hside =>
      cases h with
      | word hread hdone =>
          cases hdone
          refine .inr ⟨bind_eq_none (named_other hread hside.symm), bind_eq_some.mpr
            ⟨_, _, outward_eq_some.mpr ⟨hside, hread⟩, bind_eq_some.mpr ⟨none, rest, ?_, rfl⟩⟩⟩
          exact optional_eq_some.mpr (.inr ⟨rfl, rfl, houter⟩)
  | outer hside =>
      cases h with
      | word hread hbehind =>
          cases hbehind with
          | word hfollowed hdone =>
              cases hdone
              have houter := optional_eq_some.mpr (.inl ⟨(), rfl, hfollowed⟩)
              exact .inr ⟨bind_eq_none (named_other hread hside.symm), bind_eq_some.mpr
                ⟨_, _, outward_eq_some.mpr ⟨hside, hread⟩,
                  bind_eq_some.mpr ⟨some (), rest, houter, rfl⟩⟩⟩

/-- No side is read where no keyword of a side is. -/
theorem side_eq_none (h : ∀ side : JoinSide, keyword side.word text = none) :
    side text = none := by
  have hnamed : ∀ side, named side text = none := fun side => named_eq_none (h side)
  have houtward : outward text = none := by
    simp only [outward, orElse_eq_none, hnamed, and_self]
  exact orElse_eq_none.mpr ⟨bind_eq_none (hnamed _), bind_eq_none houtward⟩

/-- The words of a side start with its keyword. -/
theorem first_of_namesSide {words : List String} {read : JoinSide × Bool}
    (hnames : NamesSide words read) (h : Reads words text rest) :
    ∃ between, keyword read.1.word text = some ((), between) := by
  cases hnames <;> cases h <;> exact ⟨_, ‹_›⟩

/-! Join types. -/

theorem kind_sound {t : JoinType} (h : kind text = some (t, rest)) :
    ∃ words, Names words t ∧ Reads words text rest := by
  simp only [kind, orElse_eq_some, bind_eq_some, pure_eq_some, optional_eq_some] at h
  obtain ⟨_, _, hcross, rfl, rfl⟩ |
    ⟨-, ⟨_, _, hnatural, _, _, ⟨read, rfl, hside⟩ | ⟨rfl, rfl, -⟩, rfl, rfl⟩ |
      ⟨-, read, _, hside, rfl, rfl⟩⟩ := h
  · exact ⟨_, .cross, .single hcross⟩
  · obtain ⟨words, hnames, hreads⟩ := side_sound hside
    exact ⟨_, .naturalSide hnames, .word hnatural hreads⟩
  · exact ⟨_, .natural, .single hnatural⟩
  · obtain ⟨words, hnames, hreads⟩ := side_sound hside
    exact ⟨_, .side hnames, hreads⟩

/-- The words of a join type are read as this join type where at most `JOIN` follows them. -/
theorem kind_complete {words : List String} {t : JoinType} (hnames : Names words t)
    (h : Reads words text rest)
    (hend : ∀ word ∈ keywords, word ≠ "JOIN" → keyword word rest = none) :
    kind text = some (t, rest) := by
  -- An earlier alternative fails because its keyword is not the one that is read here.
  rw [kind, orElse_eq_some, orElse_eq_some]
  have houter : keyword "OUTER" rest = none := hend "OUTER" (by decide) (by decide)
  cases hnames with
  | cross =>
      cases h with
      | word hcross hdone =>
          cases hdone
          exact .inl (bind_eq_some.mpr ⟨(), rest, hcross, rfl⟩)
  | natural =>
      cases h with
      | word hnatural hdone =>
          cases hdone
          have hside : side rest = none := side_eq_none fun side =>
            hend side.word (word_mem_keywords side) (by cases side <;> decide)
          refine .inr ⟨bind_eq_none (keyword_eq_none (by decide) (by decide) hnatural (by decide)),
            .inl (bind_eq_some.mpr ⟨(), rest, hnatural, bind_eq_some.mpr ⟨none, rest, ?_, rfl⟩⟩)⟩
          exact optional_eq_some.mpr (.inr ⟨rfl, rfl, hside⟩)
  | naturalSide hnames =>
      cases h with
      | word hnatural hreads =>
          have hside := side_complete hnames hreads houter
          refine .inr ⟨bind_eq_none (keyword_eq_none (by decide) (by decide) hnatural (by decide)),
            .inl (bind_eq_some.mpr ⟨(), _, hnatural, bind_eq_some.mpr ⟨some _, rest, ?_, rfl⟩⟩)⟩
          exact optional_eq_some.mpr (.inl ⟨_, rfl, hside⟩)
  | side hnames =>
      obtain ⟨between, hfirst⟩ := first_of_namesSide hnames h
      have hother : ∀ word ∈ keywords, (∀ side : JoinSide, word ≠ side.word) →
          keyword word text = none := fun word hword hne =>
        keyword_eq_none (word_mem_keywords _) hword hfirst (hne _)
      refine .inr ⟨bind_eq_none (hother "CROSS" (by decide) fun side => by cases side <;> decide),
        .inr ⟨bind_eq_none (hother "NATURAL" (by decide) fun side => by cases side <;> decide), ?_⟩⟩
      exact bind_eq_some.mpr ⟨_, rest, side_complete hnames h houter, rfl⟩

theorem joinType_eq_some {t : JoinType} : joinType text = some (t, []) ↔
    ∃ between, kind text = some (t, between) ∧ ∃ join rest,
      optional (keyword "JOIN") between = some (join, rest) ∧ rest.dropWhile isSeparator = [] := by
  simp only [joinType, blanks, bind_eq_some, pure_eq_some, Option.some.injEq, Prod.mk.injEq,
    true_and]
  constructor
  · rintro ⟨_, between, hkind, join, rest, hjoin, _, _, hrest, rfl, rfl⟩
    exact ⟨between, hkind, join, rest, hjoin, hrest⟩
  · rintro ⟨between, hkind, join, rest, hjoin, hrest⟩
    exact ⟨t, between, hkind, join, rest, hjoin, (), [], hrest, rfl, rfl⟩

end Scan

/-- The words of a text in upper case. -/
def upperWords (text : String) : List String :=
  (Text.words isSeparator text).map String.toUpper

theorem upperWords_eq_iff {text : String} {words : List String} : upperWords text = words ↔
    (textWords text.toList).map (·.map Char.toUpper) = words.map String.toList := by
  have htext : (textWords text.toList).map (·.map Char.toUpper) =
      (upperWords text).map String.toList := by
    simp [upperWords, textWords, Text.words, String.toUpper, String.toList_map]
  rw [htext]
  exact (List.map_injective_iff.mpr fun _ _ => String.toList_injective).eq_iff.symm

theorem Names.mem_keywords {words : List String} {t : JoinType} (h : Names words t) :
    ∀ word ∈ words, word ∈ Scan.keywords := by
  have hside : ∀ {words side}, NamesSide words side → ∀ word ∈ words, word ∈ Scan.keywords := by
    intro words side h
    cases h with
    | inner => decide
    | @outward side => cases side <;> decide
    | @outer side => cases side <;> decide
  cases h with
  | cross | natural => decide
  | naturalSide h => exact List.forall_mem_cons.mpr ⟨by decide, hside h⟩
  | side h => exact hside h

theorem parse_eq_ok {text : String} {t : JoinType} :
    parse text = .ok t ↔ Scan.joinType text.toList = some (t, []) := by
  unfold parse
  match hread : Scan.joinType text.toList with
  | none => simp
  | some (t', []) => simp
  | some (t', c :: rest) => simp

namespace Scan

variable {text rest : List Char}

/-- Where at most `JOIN` is read up to blanks, no other keyword is. -/
theorem keyword_behind {tail : List String} (htail : tail = [] ∨ tail = ["JOIN"])
    (h : Reads tail text rest) (hrest : rest.dropWhile isSeparator = []) :
    ∀ word ∈ keywords, word ≠ "JOIN" → keyword word text = none := by
  intro word hword hne
  obtain rfl | rfl := htail
  · cases h
    exact keyword_blank hword hrest
  · cases h with
    | word hjoin _ => exact keyword_eq_none (by decide) hword hjoin hne

/-- The words of a join type with or without `JOIN` are read, up to blanks at the end. -/
theorem joinType_iff {t : JoinType} : joinType text = some (t, []) ↔
    ∃ words tail, Names words t ∧ (tail = [] ∨ tail = ["JOIN"]) ∧
      ∃ rest, Reads (words ++ tail) text rest ∧ rest.dropWhile isSeparator = [] := by
  rw [joinType_eq_some]
  constructor
  · rintro ⟨between, hkind, join, rest, hjoin, hrest⟩
    obtain ⟨words, hnames, hreads⟩ := kind_sound hkind
    obtain ⟨_, -, hread⟩ | ⟨-, rfl, -⟩ := optional_eq_some.mp hjoin
    · exact ⟨words, ["JOIN"], hnames, .inr rfl, rest, hreads.append (.single hread), hrest⟩
    · exact ⟨words, [], hnames, .inl rfl, rest, by rwa [List.append_nil], hrest⟩
  · rintro ⟨words, tail, hnames, htail, rest, hreads, hrest⟩
    obtain ⟨between, hwords, hbehind⟩ := hreads.split
    refine ⟨between, kind_complete hnames hwords (keyword_behind htail hbehind hrest), ?_⟩
    obtain rfl | rfl := htail
    · cases hbehind
      have hjoin : keyword "JOIN" rest = none := keyword_blank (by decide) hrest
      exact ⟨none, rest, optional_eq_some.mpr (.inr ⟨rfl, rfl, hjoin⟩), hrest⟩
    · cases hbehind with
      | word hjoin hdone =>
          cases hdone
          exact ⟨some (), rest, optional_eq_some.mpr (.inl ⟨(), rfl, hjoin⟩), hrest⟩

end Scan

/-- A text names the join type of its words, behind which there may be a `JOIN`. -/
theorem parse_eq_ok_iff {text : String} {t : JoinType} : parse text = .ok t ↔
    ∃ words, Names words t ∧
      (upperWords text = words ∨ upperWords text = words ++ ["JOIN"]) := by
  have hwords : ∀ words tail, Names words t → tail = [] ∨ tail = ["JOIN"] →
      ((∃ rest, Scan.Reads (words ++ tail) text.toList rest ∧ rest.dropWhile isSeparator = []) ↔
        upperWords text = words ++ tail) := by
    intro words tail hnames htail
    rw [upperWords_eq_iff]
    refine Scan.reads_iff fun word hword => ?_
    obtain hword | hword := List.mem_append.mp hword
    · exact hnames.mem_keywords word hword
    · obtain rfl | rfl := htail
      · exact absurd hword List.not_mem_nil
      · exact (by decide : ∀ word ∈ ["JOIN"], word ∈ Scan.keywords) word hword
  rw [parse_eq_ok, Scan.joinType_iff]
  constructor
  · rintro ⟨words, tail, hnames, htail, hreads⟩
    have htext := (hwords words tail hnames htail).mp hreads
    obtain rfl | rfl := htail
    · exact ⟨words, hnames, .inl (by rwa [List.append_nil] at htext)⟩
    · exact ⟨words, hnames, .inr htext⟩
  · rintro ⟨words, hnames, htext | htext⟩
    · exact ⟨words, [], hnames, .inl rfl,
        (hwords words [] hnames (.inl rfl)).mpr (by rwa [List.append_nil])⟩
    · exact ⟨words, ["JOIN"], hnames, .inr rfl, (hwords words _ hnames (.inr rfl)).mpr htext⟩

/-- A join type is displayed by its words and `JOIN`. -/
theorem Names.display {words : List String} {t : JoinType} (h : Names words t) :
    t.display = " ".intercalate (words ++ ["JOIN"]) ∧ upperWords t.display = words ++ ["JOIN"] := by
  cases h with
  | cross => decide +kernel
  | natural => decide +kernel
  | naturalSide h =>
      cases h with
      | inner => decide +kernel
      | @outward side => cases side <;> decide +kernel
      | @outer side => cases side <;> decide +kernel
  | side h =>
      cases h with
      | inner => decide +kernel
      | @outward side => cases side <;> decide +kernel
      | @outer side => cases side <;> decide +kernel

/-- What the parser takes is what the grammar of join types says, and the words that a join type is
displayed by name it again. -/
theorem parse_follows_grammar (text : String) :
    (∀ t, parse text = .ok t ↔ ∃ words, Names words t ∧
      (upperWords text = words ∨ upperWords text = words ++ ["JOIN"])) ∧
    ∀ words t, Names words t →
      t.display = " ".intercalate (words ++ ["JOIN"]) ∧ parse t.display = .ok t := by
  refine ⟨fun t => parse_eq_ok_iff, fun words t hnames => ?_⟩
  exact ⟨hnames.display.1, parse_eq_ok_iff.mpr ⟨words, hnames, .inr hnames.display.2⟩⟩

theorem parse_follows_grammar_spaced :
    parse "\tNatural  right\nOUTER join " = .ok ⟨false, true, some .right, true⟩ ∧
      display ⟨false, true, some .right, true⟩ = "NATURAL RIGHT OUTER JOIN" ∧
      parse (display ⟨false, true, some .right, true⟩) = .ok ⟨false, true, some .right, true⟩ := by
  have hnames : Names ["NATURAL", "RIGHT", "OUTER"] ⟨false, true, some .right, true⟩ :=
    .naturalSide (@NamesSide.outer .right (by decide))
  obtain ⟨hiff, hdisplay⟩ := parse_follows_grammar "\tNatural  right\nOUTER join "
  exact ⟨(hiff _).mpr ⟨_, hnames, .inr (by decide +kernel)⟩, (hdisplay _ _ hnames).1,
    (hdisplay _ _ hnames).2⟩

end QueryCompiler.JoinType
