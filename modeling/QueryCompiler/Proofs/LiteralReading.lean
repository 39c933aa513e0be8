import QueryCompiler.Proofs.CalmText
import QueryCompiler.Proofs.QuotedText

/-!
# String literals are read back

Each database reads a string literal by rules of its own: in MySQL a backslash escapes. The scan for
placeholders knows no dialect and toggles at every quote. Both leave a literal at the same place,
which is its end, and the database has read the string that was written.
-/
namespace QueryCompiler

open Text (openQuote)

/-- What a backslash and the character behind it stand for in MySQL. -/
def mysqlEscaped : Char → List Char
  | '0' => ['\x00']
  | 'b' => ['\x08']
  | 'n' => ['\n']
  | 'r' => ['\r']
  | 't' => ['\t']
  | 'Z' => ['\x1a']
  | '%' => ['\\', '%']
  | '_' => ['\\', '_']
  | c => [c]

namespace Builtin

/-- The rules by which the database reads string literals. -/
def literalRules : Builtin → QuoteRules
  | postgres => ⟨'\'', none⟩
  | mysql => ⟨'\'', some mysqlEscaped⟩
  | sqlite => ⟨'\'', none⟩

/-- Read a string literal at the start of a text: the string, and what is behind the literal. -/
def readLiteral (b : Builtin) (text : String) : Option (String × String) :=
  (b.literalRules.read text.toList).map (Prod.map String.ofList String.ofList)

end Builtin

/-- Quotes and backslashes are written twice, and read as one. -/
theorem undoes_mysqlString : Builtin.mysql.literalRules.Undoes fun c =>
    if c = '\\' ∨ c = '\'' then [c, c] else [c] := by
  intro c rest
  by_cases hquote : c = '\''
  · subst hquote
    exact QuoteRules.readRun_doubled (r := Builtin.mysql.literalRules) rest
  · by_cases hslash : c = '\\'
    · subst hslash
      exact QuoteRules.readRun_escaped (r := Builtin.mysql.literalRules) hquote rfl '\\' rest
    · simpa [hquote, hslash] using QuoteRules.readRun_char (r := Builtin.mysql.literalRules) hquote
        (by simp [QuoteRules.escapes, hslash]) rest

namespace Builtin

/-- A literal is written character by character, in a way that its reader undoes and that doubles
quotes. -/
theorem literal_written (b : Builtin) (s : String) : ∃ escape : Char → List Char,
    (b.dialect.quoteValue (.text s)).toList = '\'' :: s.toList.flatMap escape ++ ['\''] ∧
      b.literalRules.Undoes escape ∧ QuotedRun '\'' (s.toList.flatMap escape ++ ['\'']) := by
  have hstandard : (Text.quoteString s).toList = '\'' ::
      (s.toList.flatMap fun c => if c = '\'' then ['\'', '\''] else [c]) ++ ['\''] :=
    String.toList_ofList
  cases b with
  | postgres => exact ⟨_, hstandard, QuoteRules.undoes_doubling _, .enclosed _ _⟩
  | sqlite => exact ⟨_, hstandard, QuoteRules.undoes_doubling _, .enclosed _ _⟩
  | mysql => exact ⟨_, String.toList_ofList, undoes_mysqlString, quotedRun_mysqlString _⟩

/-- A literal is read back as the string, by the rules of its database. The scan for placeholders
leaves it at the same place and keeps it as it is. -/
theorem literal_read_back (b : Builtin) (s t : String) (h : t.toList.head? ≠ some '\'') :
    b.readLiteral (b.dialect.quoteValue (.text s) ++ t) = some (s, t) ∧
      leaveQuotes none (b.dialect.quoteValue (.text s) ++ t).toList =
        ((b.dialect.quoteValue (.text s)).toList, t.toList) ∧
      Piece.ofText (b.dialect.quoteValue (.text s) ++ t) =
        (b.dialect.quoteValue (.text s)).toList.map Piece.char ++ Piece.ofText t := by
  obtain ⟨escape, htext, hundoes, hrun⟩ := b.literal_written s
  have hquote : b.literalRules.quote = '\'' := by cases b <;> rfl
  have hopen : openQuote none '\'' = some '\'' := rfl
  refine ⟨?_, ?_, ?_⟩
  · have hread := QuoteRules.read_written hundoes s.toList (hquote ▸ h)
    rw [hquote] at hread
    rw [readLiteral, String.toList_append, htext, hread, Option.map_some, Prod.map_apply,
      String.ofList_toList, String.ofList_toList]
  · have hleft := hrun.leaveQuotes_append rfl h
    rw [String.toList_append, htext, List.cons_append, List.cons_append, leaveQuotes, hopen, hleft]
    rfl
  · have hcalm : Calm (b.dialect.quoteValue (.text s)) := by
      cases b with
      | postgres => exact calm_enclose rfl s
      | mysql => exact calm_mysqlString s
      | sqlite => exact calm_enclose rfl s
    rw [Piece.ofText, String.toList_append]
    exact scan_quiet hcalm t.toList

/-- A backslash in front of a quote, and a question mark behind the literal. -/
theorem literal_read_back_backslash_quote :
    mysql.dialect.quoteValue (.text "\\'") = "'\\\\'''" ∧ ", ?".toList.head? ≠ some '\'' ∧
      mysql.readLiteral ("'\\\\'''" ++ ", ?") = some ("\\'", ", ?") ∧
      leaveQuotes none ("'\\\\'''" ++ ", ?").toList = ("'\\\\'''".toList, ", ?".toList) ∧
      Piece.ofText ("'\\\\'''" ++ ", ?") =
        "'\\\\'''".toList.map Piece.char ++ Piece.ofText ", ?" := by
  have htext : mysql.dialect.quoteValue (.text "\\'") = "'\\\\'''" := by decide +kernel
  have hread := mysql.literal_read_back "\\'" ", ?" (by decide)
  rw [htext] at hread
  exact ⟨htext, by decide, hread⟩

end Builtin

end QueryCompiler
