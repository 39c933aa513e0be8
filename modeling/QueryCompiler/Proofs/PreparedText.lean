import QueryCompiler.Proofs.PlaceholderScan

/-!
# The text of a prepared statement

A prepared statement has the placeholders of the dialect exactly where placeholders start, and all
else is as it was. Preparing it once more changes nothing: a `?` is written as `?` again, and `$1`
is plain text.
-/
namespace QueryCompiler

namespace Piece

/-- A piece as a part of a text under construction. -/
def chunk : Piece → Chunk
  | char c => .text c.toString
  | named name => .mark (.reference name)
  | positional => .mark .positional

theorem pieces_chunk (p : Piece) : p.chunk.pieces = [p] := by
  cases p <;> simp [chunk, Chunk.pieces]

theorem render_chunk (p : Piece) : p.chunk.render.toList = p.chars := by
  cases p <;> simp [chunk, Chunk.render, Mark.text, chars]

theorem chars_chunks (ps : List Piece) : Sql.chars ⟨ps.map chunk⟩ = ps.flatMap chars := by
  induction ps with
  | nil => rfl
  | cons p rest ih =>
      rw [Sql.chars, Sql.render] at ih ⊢
      simpa [render_chunk] using ih

theorem pieces_chunks (ps : List Piece) : (ps.map chunk).flatMap Chunk.pieces = ps := by
  simp [List.flatMap_map, pieces_chunk]

theorem isPlaceholder_of_chunk {p : Piece} {m : Mark} (h : p.chunk = .mark m) :
    p.isPlaceholder = true := by
  cases p with
  | char c => cases h
  | named name => rfl
  | positional => rfl

theorem chunk_of_isPlaceholder {p : Piece} (h : p.isPlaceholder = true) :
    ∃ m, p.chunk = .mark m := by
  cases p with
  | char c => cases h
  | named name => exact ⟨_, rfl⟩
  | positional => exact ⟨_, rfl⟩

/-- Names are read as far as they go. -/
theorem Scans.maximal {quote : Option Char} {cs : List Char} {ps : List Piece}
    (h : Scans quote cs ps) {former latter : List Piece} {name : String}
    (heq : ps = former ++ .named name :: latter) :
    Text.isIdentifier name = true ∧ Breaks (latter.flatMap chars) := by
  have hcons {c : Char} {ps former : List Piece} (heq : Piece.char c :: ps = former ++ .named name :: latter) :
      ∃ former', ps = former' ++ .named name :: latter := by
    cases former with
    | nil => cases heq
    | cons first former => exact ⟨former, (List.cons.inj heq).2⟩
  induction h generalizing former with
  | done => cases former <;> cases heq
  | quoted _ ih | plain _ _ ih | colon _ _ ih =>
      obtain ⟨former', heq⟩ := hcons heq
      exact ih heq
  | cast _ ih =>
      obtain ⟨former', heq⟩ := hcons heq
      obtain ⟨former', heq⟩ := hcons heq
      exact ih heq
  | named identifier maximal next ih =>
      cases former with
      | nil =>
          cases heq
          rw [next.chars_eq]
          exact ⟨identifier, maximal⟩
      | cons first former => exact ih (List.cons.inj heq).2
  | positional _ ih =>
      cases former with
      | nil => cases heq
      | cons first former => exact ih (List.cons.inj heq).2

end Piece

namespace Prepared

open Piece (Scans joinsColon)

variable {placeholder : Nat → String} {quote : Option Char} {cs : List Char} {ps : List Piece}

/-- The text of some pieces with the placeholders of a dialect. -/
def written (placeholder : Nat → String) (count marks : Nat) (ps : List Piece) : List Char :=
  (String.join (write placeholder count marks ps).1).toList

@[simp]
theorem written_nil (count marks : Nat) : written placeholder count marks [] = [] := rfl

@[simp]
theorem written_char (count marks : Nat) (c : Char) :
    written placeholder count marks (.char c :: ps) = c :: written placeholder count marks ps := by
  simp [written, write, String.join_cons]

@[simp]
theorem written_named (count marks : Nat) (name : String) :
    written placeholder count marks (.named name :: ps) =
      (placeholder (count + 1)).toList ++ written placeholder (count + 1) marks ps := by
  simp [written, write, String.join_cons]

@[simp]
theorem written_positional (count marks : Nat) :
    written placeholder count marks (.positional :: ps) =
      (placeholder (count + 1)).toList ++ written placeholder (count + 1) (marks + 1) ps := by
  simp [written, write, String.join_cons]

/-- A piece that is written as it was read. -/
def Kept (placeholder : Nat → String) : Piece → Prop
  | .char _ => True
  | .named _ => False
  | .positional => ∀ n, placeholder n = "?"

theorem written_kept (h : ∀ p ∈ ps, Kept placeholder p) (count marks : Nat) :
    written placeholder count marks ps = ps.flatMap Piece.chars := by
  induction ps generalizing count marks with
  | nil => rfl
  | cons p rest ih =>
      have hp := h p List.mem_cons_self
      have hrest := ih fun p hmem => h p (List.mem_cons_of_mem _ hmem)
      cases p with
      | char c => simp [Piece.chars, hrest]
      | named name => exact hp.elim
      | positional => simp [Piece.chars, hrest, hp (count + 1)]

/-- Placeholders that are kept when they are scanned again, and that no colon in front of them is
read together with. -/
structure Stable (placeholder : Nat → String) : Prop where
  apart : ∀ n rest, joinsColon ((placeholder n).toList ++ rest) = false
  kept : ∀ n, ∃ ps, (∀ p ∈ ps, Kept placeholder p) ∧ ∀ rest ps', Scans none rest ps' →
    Scans none ((placeholder n).toList ++ rest) (ps ++ ps')

theorem joinsColon_written (hstable : Stable placeholder) (h : Scans quote cs ps)
    (hcs : joinsColon cs = false) (count marks : Nat) :
    joinsColon (written placeholder count marks ps) = false := by
  cases h with
  | done => rfl
  | quoted | plain => simpa [joinsColon] using hcs
  | cast | colon | named => simp [joinsColon] at hcs
  | positional => rw [written_positional]; exact hstable.apart _ _

/-- What was prepared is read piece by piece as it was before, up to placeholders that are kept. -/
theorem scans_written (hstable : Stable placeholder) (h : Scans quote cs ps) (count marks : Nat) :
    ∃ ps', Scans quote (written placeholder count marks ps) ps' ∧
      ∀ p ∈ ps', Kept placeholder p := by
  have hkept {c : Char} {ps' : List Piece} (h : ∀ p ∈ ps', Kept placeholder p) :
      ∀ p ∈ .char c :: ps', Kept placeholder p := List.forall_mem_cons.mpr ⟨trivial, h⟩
  have happend (n : Nat) {cs' : List Char} {ps' : List Piece} (hscans : Scans none cs' ps')
      (h : ∀ p ∈ ps', Kept placeholder p) :
      ∃ ps', Scans none ((placeholder n).toList ++ cs') ps' ∧ ∀ p ∈ ps', Kept placeholder p := by
    obtain ⟨front, hfront, hread⟩ := hstable.kept n
    exact ⟨front ++ ps', hread _ _ hscans, List.forall_mem_append.mpr ⟨hfront, h⟩⟩
  induction h generalizing count marks with
  | done => exact ⟨[], .done, by simp⟩
  | quoted _ ih =>
      obtain ⟨ps', hscans, h⟩ := ih count marks
      rw [written_char]
      exact ⟨_, .quoted hscans, hkept h⟩
  | plain unmarked _ ih =>
      obtain ⟨ps', hscans, h⟩ := ih count marks
      rw [written_char]
      exact ⟨_, .plain unmarked hscans, hkept h⟩
  | cast _ ih =>
      obtain ⟨ps', hscans, h⟩ := ih count marks
      rw [written_char, written_char]
      exact ⟨_, .cast hscans, hkept (hkept h)⟩
  | colon alone next ih =>
      obtain ⟨ps', hscans, h⟩ := ih count marks
      rw [written_char]
      exact ⟨_, .colon (joinsColon_written hstable next alone count marks) hscans, hkept h⟩
  | named _ _ _ ih =>
      obtain ⟨ps', hscans, h⟩ := ih (count + 1) marks
      rw [written_named]
      exact happend _ hscans h
  | positional _ ih =>
      obtain ⟨ps', hscans, h⟩ := ih (count + 1) (marks + 1)
      rw [written_positional]
      exact happend _ hscans h

theorem toList_prepare (d : Dialect) (sql : String) :
    (prepare d sql).sql.toList = written d.placeholder 0 0 (Piece.ofText sql) := rfl

theorem prepare_prepared {d : Dialect} (hstable : Stable d.placeholder) (sql : String) :
    (prepare d (prepare d sql).sql).sql = (prepare d sql).sql := by
  obtain ⟨ps, hscans, hkept⟩ := scans_written hstable (Piece.scans none sql.toList) 0 0
  have hpieces : Piece.ofText (prepare d sql).sql = ps := hscans.scan_eq
  apply String.toList_injective
  rw [toList_prepare, hpieces, written_kept hkept, hscans.chars_eq]
  rfl

theorem stable_question : Stable fun _ => "?" where
  apart _ _ := rfl
  kept _ := ⟨[.positional], by simp [Kept], fun _ _ h => .positional h⟩

theorem stable_dollar : Stable fun n => "$" ++ toString n := by
  have hcalm (n : Nat) : Calm ("$" ++ toString n) := Quiet.append (by decide) (calm_nat n)
  refine ⟨fun n rest => by simp [joinsColon, Text.isIdentifierStart], fun n => ⟨("$" ++ toString n).toList.map .char,
    by simp [Kept], fun rest ps h => ?_⟩⟩
  have hscan := scan_quiet (hcalm n) rest
  rw [h.scan_eq] at hscan
  rw [← hscan]
  exact Piece.scans none _

theorem stable_placeholder (b : Builtin) : Stable b.dialect.placeholder := by
  cases b with
  | postgres => exact stable_dollar
  | mysql | sqlite => exact stable_question

end Prepared

/-- The name of a placeholder is an identifier that ends in front of this text. -/
def Mark.IsMaximal (behind : List Char) : Mark → Prop
  | positional => True
  | reference name | lifted name => Text.isIdentifier name = true ∧ Breaks behind

/-- A text cut into plain texts and placeholders: the placeholders are those that start in the
text, and their names are as long as they can be. -/
structure Sql.IsCutOf (sql : Sql) (text : String) : Prop where
  render_eq : sql.render = text
  maximal : ∀ front m behind, sql.chunks = front ++ .mark m :: behind →
    m.IsMaximal (Sql.chars ⟨behind⟩)
  exact : ∀ before after, before ++ after = text.toList →
    ((∃ front m behind, sql.chunks = front ++ .mark m :: behind ∧ Sql.chars ⟨front⟩ = before) ↔
      Piece.StartsBetween before after)

/-- The pieces that the scan finds in a text cut it at its placeholders. -/
theorem Piece.isCutOf_chunks (text : String) : Sql.IsCutOf ⟨(ofText text).map chunk⟩ text where
  render_eq := by
    apply String.toList_injective
    rw [← Sql.chars, chars_chunks]
    exact (scans none text.toList).chars_eq
  maximal front m behind heq := by
    obtain ⟨former, rest, hps, rfl, hrest⟩ := List.map_eq_append_iff.mp heq
    obtain ⟨p, latter, rfl, hp, rfl⟩ := List.map_eq_cons_iff.mp hrest
    cases p with
    | char c => cases hp
    | named name =>
        cases hp
        rw [chars_chunks]
        exact (scans none text.toList).maximal hps
    | positional =>
        cases hp
        trivial
  exact before after hsplit := by
    have hstart := (scans none text.toList).placeholders
      (⟨rfl, by simp [awaitsColon]⟩ : Between none [] text.toList) hsplit
    rw [List.nil_append] at hstart
    rw [← hstart]
    constructor
    · rintro ⟨front, m, behind, heq, rfl⟩
      obtain ⟨former, rest, hps, rfl, hrest⟩ := List.map_eq_append_iff.mp heq
      obtain ⟨p, latter, rfl, hp, rfl⟩ := List.map_eq_cons_iff.mp hrest
      exact ⟨former, p, latter, hps, (chars_chunks former).symm, isPlaceholder_of_chunk hp⟩
    · rintro ⟨former, p, latter, hps, rfl, hp⟩
      obtain ⟨m, hm⟩ := chunk_of_isPlaceholder hp
      refine ⟨former.map chunk, m, latter.map chunk, ?_, chars_chunks former⟩
      rw [ofText, hps, List.map_append, List.map_cons, hm]

/-- Preparing a text replaces exactly its placeholders, each by the next one of the dialect, and
notes what they stand for: their name, or the number of question marks so far. -/
theorem Prepared.prepare_exact (text : String) :
    ∃ cut : Sql, cut.IsCutOf text ∧ ∀ b : Builtin,
      (prepare b.dialect text).sql = Chunk.fill b.dialect.placeholder 0 cut.chunks ∧
      (prepare b.dialect text).names = Mark.namesFrom 0 cut.marks ∧
      (prepare b.dialect text).names.length = cut.marks.length ∧
      (prepare b.dialect (prepare b.dialect text).sql).sql = (prepare b.dialect text).sql := by
  refine ⟨_, Piece.isCutOf_chunks text, fun b => ?_⟩
  obtain ⟨hsql, hnames⟩ := write_pieces b.dialect.placeholder 0 0 ((Piece.ofText text).map Piece.chunk)
  rw [Piece.pieces_chunks] at hsql hnames
  exact ⟨hsql, hnames, by rw [← Mark.length_namesFrom 0]; exact congrArg List.length hnames,
    prepare_prepared (stable_placeholder b) text⟩

example : (Prepared.prepare Dialect.postgres ":a::b ':c' :::d ?").names = ["a", "d", "1"] := by
  decide

end QueryCompiler
