import QueryCompiler.Operator
import QueryCompiler.Proofs.CalmText

/-!
# Reading written text back

A text under construction knows its placeholders; the scan for placeholders sees characters only.
A safe text is one from which the scan recovers exactly the placeholders that were put into it,
however the text goes on, provided it does not go on with a character of a name.
-/
namespace QueryCompiler

namespace Chunk

/-- The pieces that a chunk is meant to be. -/
def pieces : Chunk → List Piece
  | text s => s.toList.map Piece.char
  | mark .positional => [.positional]
  | mark (.reference name) => [.named name]
  | mark (.lifted name) => [.named name]

end Chunk

namespace Piece

/-- The quote that is open behind some pieces, if `quote` is open in front of them. -/
def quoteAfter (quote : Option Char) : List Piece → Option Char
  | [] => quote
  | char c :: rest => quoteAfter (Text.openQuote quote c) rest
  | named _ :: rest => quoteAfter quote rest
  | positional :: rest => quoteAfter quote rest

theorem quoteAfter_append (quote : Option Char) (ps ps' : List Piece) :
    quoteAfter quote (ps ++ ps') = quoteAfter (quoteAfter quote ps) ps' := by
  induction ps generalizing quote with
  | nil => rfl
  | cons p rest ih => cases p <;> exact ih _

/-- A calm text closes the quotes that it opens. -/
theorem quoteAfter_quiet {quote : Option Char} {cs : List Char} (h : quietFrom isMark quote cs = true) :
    quoteAfter quote (cs.map char) = none := by
  induction cs generalizing quote with
  | nil => simpa [quietFrom, quoteAfter] using h
  | cons c rest ih =>
      cases quote with
      | none =>
          simp only [quietFrom, Bool.and_eq_true] at h
          exact ih h.2
      | some q => exact ih h

end Piece

/-- A text that does not continue a name in front of it. -/
def Breaks (cs : List Char) : Prop := cs.head?.any Text.isIdentifierPart = false

instance : DecidablePred Breaks := fun cs =>
  inferInstanceAs (Decidable (cs.head?.any Text.isIdentifierPart = false))

theorem breaks_nil : Breaks [] := rfl

theorem Breaks.append {a b : List Char} (ha : Breaks a) (hb : Breaks b) : Breaks (a ++ b) := by
  cases a with
  | nil => exact hb
  | cons c rest => simpa [Breaks] using ha

namespace Sql

def chars (sql : Sql) : List Char := sql.render.toList

def pieces (sql : Sql) : List Piece := sql.chunks.flatMap Chunk.pieces

@[simp]
theorem chars_append (a b : Sql) : (a ++ b).chars = a.chars ++ b.chars := by
  rw [chars, render_append, String.toList_append, chars, chars]

@[simp]
theorem chars_ofString (s : String) : chars s = s.toList := by
  rw [chars, render_ofString]

@[simp]
theorem pieces_append (a b : Sql) : (a ++ b).pieces = a.pieces ++ b.pieces := by
  rw [pieces, chunks_append, List.flatMap_append, pieces, pieces]

@[simp]
theorem pieces_ofString (s : String) : pieces s = s.toList.map Piece.char := by
  simp [pieces, ofString, Chunk.pieces]

@[simp]
theorem marks_append (a b : Sql) : (a ++ b).marks = a.marks ++ b.marks := by
  rw [marks, chunks_append, List.filterMap_append, marks, marks]

@[simp]
theorem marks_ofString (s : String) : marks s = [] := rfl

theorem append_assoc (a b c : Sql) : a ++ b ++ c = a ++ (b ++ c) := by
  change (⟨_⟩ : Sql) = ⟨_⟩
  rw [chunks_append, chunks_append, List.append_assoc]

/-- The scan recovers the placeholders of a text, all quotes of the text are closed, and each of its
lifted names is a known one. -/
structure Safe (H : String → Value → Prop) (sql : Sql) : Prop where
  reads : ∀ rest, Breaks rest →
    Piece.scan none 0 (sql.chars ++ rest) = sql.pieces ++ Piece.scan none 0 rest
  closed : Piece.quoteAfter none sql.pieces = none
  lifted : ∀ name, .lifted name ∈ sql.marks → ∃ v, H name v

variable {H : String → Value → Prop} {a b : Sql}

theorem safe_text {s : String} (h : Calm s) : Safe H s := by
  refine ⟨fun rest _ => ?_, ?_, fun name hname => ?_⟩
  · rw [chars_ofString, pieces_ofString]
    exact scan_quiet h rest
  · rw [pieces_ofString]
    exact Piece.quoteAfter_quiet h
  · rw [marks_ofString] at hname
    exact absurd hname List.not_mem_nil

theorem Safe.text_append {s : String} (hs : Calm s) (hb : Safe H b) : Safe H ((s : Sql) ++ b) := by
  refine ⟨fun rest hrest => ?_, ?_, fun name hname => hb.lifted name (by simpa using hname)⟩
  · rw [chars_append, chars_ofString, pieces_append, pieces_ofString, List.append_assoc,
      scan_quiet hs, hb.reads rest hrest, List.append_assoc]
  · rw [pieces_append, pieces_ofString, Piece.quoteAfter_append, Piece.quoteAfter_quiet hs,
      hb.closed]

theorem Safe.append (ha : Safe H a) (hb : Safe H b) (hbreaks : Breaks b.chars) :
    Safe H (a ++ b) := by
  refine ⟨fun rest hrest => ?_, ?_, fun name hname => ?_⟩
  · rw [chars_append, pieces_append, List.append_assoc, ha.reads _ (hbreaks.append hrest),
      hb.reads rest hrest, List.append_assoc]
  · rw [pieces_append, Piece.quoteAfter_append, ha.closed, hb.closed]
  · rw [marks_append, List.mem_append] at hname
    exact hname.elim (ha.lifted name) (hb.lifted name)

/-- A text behind fixed characters that are no part of a name. -/
theorem breaks_text_append {s : String} (hs : s ≠ "") (h : Breaks s.toList) :
    Breaks ((s : Sql) ++ b).chars := by
  rw [chars_append, chars_ofString]
  cases hcs : s.toList with
  | nil => exact absurd (String.toList_injective (by simpa using hcs)) hs
  | cons c rest =>
      rw [hcs] at h
      simpa [Breaks] using h

theorem breaks_text {s : String} (h : Breaks s.toList) : Breaks (chars s) := by
  rwa [chars_ofString]

theorem scan_skip (cs rest : List Char) :
    Piece.scan none cs.length (cs ++ rest) = Piece.scan none 0 rest := by
  induction cs with
  | nil => rfl
  | cons c cs ih => rw [List.length_cons, List.cons_append, Piece.scan, ih]

theorem takeWhile_name {name rest : List Char}
    (hname : ∀ c ∈ name, Text.isIdentifierPart c = true) (hrest : Breaks rest) :
    (name ++ rest).takeWhile Text.isIdentifierPart = name := by
  rw [List.takeWhile_append_of_pos hname]
  cases rest with
  | nil => simp
  | cons c rest =>
      have hc : Text.isIdentifierPart c = false := hrest
      simp [hc]

theorem scan_colon {d : Char} (hd : Text.isIdentifierStart d = true) (rest : List Char) :
    Piece.scan none 0 (':' :: d :: rest) =
      .named (String.ofList ((d :: rest).takeWhile Text.isIdentifierPart)) ::
        Piece.scan none ((d :: rest).takeWhile Text.isIdentifierPart).length (d :: rest) := by
  have hcolon : d ≠ ':' := by
    rintro rfl
    revert hd
    decide
  conv_lhs => rw [Piece.scan.eq_def]
  simp only [Char.reduceEq, if_false, if_true]
  split
  · rfl
  · exact absurd hd ‹_›

/-- A colon and a name are read as that parameter. -/
theorem scan_named {name : String} (hname : Text.isIdentifier name = true) {rest : List Char}
    (hrest : Breaks rest) :
    Piece.scan none 0 (':' :: name.toList ++ rest) = .named name :: Piece.scan none 0 rest := by
  unfold Text.isIdentifier at hname
  split at hname
  · cases hname
  · rename_i first others hcs
    rw [Bool.and_eq_true, List.all_eq_true] at hname
    obtain ⟨hfirst, hothers⟩ := hname
    have hparts : ∀ c ∈ first :: others, Text.isIdentifierPart c = true := by
      refine List.forall_mem_cons.mpr ⟨?_, hothers⟩
      simp only [Text.isIdentifierStart, Text.isIdentifierPart, Char.isAlphanum,
        Bool.or_eq_true] at hfirst ⊢
      tauto
    have htake := takeWhile_name hparts hrest
    rw [List.cons_append] at htake
    have hofList : String.ofList (first :: others) = name := by rw [← hcs, String.ofList_toList]
    rw [hcs, List.cons_append, List.cons_append, scan_colon hfirst, htake, hofList,
      ← List.cons_append, scan_skip]

/-- The name of a placeholder, if it has one, is an identifier, and a lifted one is known. -/
def Known (H : String → Value → Prop) : Mark → Prop
  | .positional => True
  | .reference name => Text.isIdentifier name = true
  | .lifted name => Text.isIdentifier name = true ∧ ∃ v, H name v

theorem safe_mark {m : Mark} (h : Known H m) : Safe H (ofMark m) := by
  have hrender : (ofMark m).render = m.text := by
    simp [render, ofMark, Chunk.render]
  have hpieces : (ofMark m).pieces = Chunk.pieces (.mark m) := by
    simp [pieces, ofMark]
  have hmarks : (ofMark m).marks = [m] := rfl
  have hcolon : ∀ name : String, (":" ++ name).toList = ':' :: name.toList := by simp
  refine ⟨fun rest hrest => ?_, ?_, fun name hname => ?_⟩
  · rw [chars, hrender, hpieces]
    cases m with
    | positional => rfl
    | reference name => rw [Mark.text, hcolon, scan_named h hrest]; rfl
    | lifted name => rw [Mark.text, hcolon, scan_named h.1 hrest]; rfl
  · rw [hpieces]
    cases m <;> rfl
  · rw [hmarks, List.mem_singleton] at hname
    subst hname
    exact h.2

theorem safe_intercalate {separator : String} (hcalm : Calm separator) (hne : separator ≠ "")
    (hbreaks : Breaks separator.toList) {parts : List Sql} (h : ∀ part ∈ parts, Safe H part) :
    Safe H (intercalate separator parts) := by
  induction parts with
  | nil => exact safe_text quiet_empty
  | cons part rest ih =>
      have hpart := h part List.mem_cons_self
      cases rest with
      | nil => exact hpart
      | cons next rest =>
          have hrest := ih fun part hmem => h part (List.mem_cons_of_mem _ hmem)
          rw [intercalate, append_assoc]
          exact hpart.append (hrest.text_append hcalm) (breaks_text_append hne hbreaks)

theorem safe_commas {parts : List Sql} (h : ∀ part ∈ parts, Safe H part) :
    Safe H (intercalate ", " parts) :=
  safe_intercalate (by decide) (by decide) (by decide) h

theorem safe_concat {parts : List Sql} (h : ∀ part ∈ parts, Safe H part ∧ Breaks part.chars) :
    Safe H (concat parts) ∧ Breaks (concat parts).chars := by
  induction parts with
  | nil => exact ⟨⟨fun _ _ => rfl, rfl, fun _ hname => absurd hname List.not_mem_nil⟩, breaks_nil⟩
  | cons part rest ih =>
      obtain ⟨hpart, hbreaks⟩ := h part List.mem_cons_self
      obtain ⟨hrest, hrestBreaks⟩ := ih fun part hmem => h part (List.mem_cons_of_mem _ hmem)
      have hcons : concat (part :: rest) = part ++ concat rest := rfl
      rw [hcons, chars_append]
      exact ⟨hpart.append hrest hrestBreaks, hbreaks.append hrestBreaks⟩

/-- A text in parentheses. -/
theorem Safe.parenthesized (h : Safe H a) : Safe H ("(" ++ a ++ ")") := by
  rw [append_assoc]
  exact Safe.text_append (by decide) (h.append (safe_text (by decide)) (breaks_text (by decide)))

theorem Safe.wrap (h : Safe H a) (rank context : Nat) : Safe H (Operator.wrap rank context a) := by
  unfold Operator.wrap
  split
  · exact h.parenthesized
  · exact h

end Sql

end QueryCompiler
