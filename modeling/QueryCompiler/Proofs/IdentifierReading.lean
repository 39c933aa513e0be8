import Mathlib.Data.List.TakeWhile
import QueryCompiler.Proofs.NameReading
import QueryCompiler.Proofs.QuotedText
import QueryCompiler.Proofs.TableNames
import QueryCompiler.Proofs.WordCharacters

/-!
# Identifiers are read back

A database reads an identifier either as a bare word, which must not be reserved, or between quotes,
and a dot behind it calls for another one. An identifier that was quoted is read to its very end,
whatever may stand behind an identifier, and what is read is what was quoted. Names written bare are
an exception if they hold numerals that are neither letters nor digits, at which a word ends.
-/
namespace QueryCompiler

open Identifier (isPlainChar needsQuotes quotePart)
open Text (isQuote)

/-- Which characters a bare word starts with, and with which it goes on. A word may start with any
letter, and it goes no further than a quote or what stands between names. -/
structure WordRules where
  starts : Char → Bool
  continues : Char → Bool
  starts_of_isAlphabetic : ∀ {c}, Text.isAlphabetic c = true → starts c = true
  starts_underscore : starts '_' = true
  continues_of_starts : ∀ {c}, starts c = true → continues c = true
  stops : ∀ c ∈ ['\'', '"', '\x60', '.', ' ', ',', ')'], continues c = false

/-- Whether a word is a reserved one, in whatever case. -/
def isReservedWord (word : List Char) : Bool :=
  Identifier.reservedWords.any fun reserved => reserved.toList == word.map Char.toLower

theorem isReserved_of_isReservedWord {name : String} (h : isReservedWord name.toList = true) :
    Identifier.isReserved name = true := by
  have hkelvin :
      Identifier.reservedWords.all (fun word => !word.toList.contains '\u212a') = true := by
    decide +kernel
  obtain ⟨word, hmem, hword⟩ := List.any_eq_true.mp h
  have hword : word.toList = name.toList.map Char.toLower := beq_iff_eq.mp hword
  have hlower : ∀ c ∈ name.toList, Identifier.lowerChar c = c.toLower := by
    intro c hc
    have hne : c ≠ '\u212a' := by
      rintro rfl
      have hsame : '\u212a' ∈ word.toList := hword ▸ List.mem_map_of_mem hc
      have habsent := List.all_eq_true.mp hkelvin word hmem
      simp [hsame] at habsent
    exact if_neg hne
  have hname : name.map Identifier.lowerChar = word := by
    apply String.toList_injective
    rw [String.toList_map, hword]
    exact List.map_congr_left hlower
  rw [Identifier.isReserved, hname]
  exact List.contains_iff_mem.mpr hmem

namespace WordRules

/-- Words of letters, digits and underscores, with no digit in front. -/
def standard : WordRules where
  starts c := Text.isLetter c || c == '_'
  continues := Text.isWordChar
  starts_of_isAlphabetic h := by rw [Text.isLetter_of_isAlphabetic h, Bool.true_or]
  starts_underscore := by simp
  continues_of_starts h := by
    simp only [Bool.or_eq_true] at h
    simp only [Text.isWordChar, Bool.or_eq_true]
    tauto
  stops c hc := by fin_cases hc <;> rfl

/-- Words of all characters that are written bare. -/
def wide : WordRules where
  starts c := Text.isAlphabetic c || c == '_'
  continues := isPlainChar
  starts_of_isAlphabetic h := by rw [h, Bool.true_or]
  starts_underscore := by simp
  continues_of_starts h := by
    simp only [Bool.or_eq_true] at h
    simp only [isPlainChar, Text.isAlphanumeric, Bool.or_eq_true]
    tauto
  stops c hc := by fin_cases hc <;> rfl

variable (R : WordRules)

/-- Read a bare word, which must not be reserved. -/
def readWord (cs : List Char) : Option (List Char × List Char) :=
  if isReservedWord (cs.takeWhile R.continues) then none
  else some (cs.takeWhile R.continues, cs.dropWhile R.continues)

/-- Read an identifier, bare or between quotes, and give back what is behind it. -/
def readIdentifier (quote : Char) : List Char → Option (List Char × List Char)
  | [] => none
  | c :: rest =>
    if c = quote then QuoteRules.readRun ⟨quote, none⟩ rest
    else if R.starts c then R.readWord (c :: rest)
    else none

variable {R}

theorem length_readIdentifier {quote : Char} {cs name behind : List Char}
    (h : R.readIdentifier quote cs = some (name, behind)) : behind.length < cs.length := by
  cases cs with
  | nil => cases h
  | cons c rest =>
      rw [readIdentifier] at h
      split at h
      · exact Nat.lt_succ_of_lt (QuoteRules.length_readRun h)
      · split at h
        · rename_i hstart
          rw [readWord, Option.ite_none_left_eq_some] at h
          obtain ⟨-, h⟩ := h
          cases h
          rw [List.dropWhile_cons_of_pos (R.continues_of_starts hstart), List.length_cons]
          exact Nat.lt_succ_of_le (List.length_dropWhile_le _ _)
        · cases h

variable (R)

/-- Read identifiers with dots between them, to the first that has no dot behind it. -/
def readPath (quote : Char) (cs : List Char) : Option (List (List Char) × List Char) :=
  match _h : R.readIdentifier quote cs with
  | some (name, '.' :: rest) => (readPath quote rest).map (Prod.map (name :: ·) id)
  | some (name, behind) => some ([name], behind)
  | none => none
termination_by cs.length
decreasing_by exact Nat.lt_of_succ_lt (length_readIdentifier _h)

variable {R} {quote : Char}

theorem readPath_last {cs name behind : List Char}
    (h : R.readIdentifier quote cs = some (name, behind)) (hdot : behind.head? ≠ some '.') :
    R.readPath quote cs = some ([name], behind) := by
  rw [readPath]
  split
  · rename_i heq
    cases h.symm.trans heq
    simp at hdot
  · rename_i heq
    cases h.symm.trans heq
    rfl
  · rename_i heq
    cases h.symm.trans heq

theorem readPath_dot {cs name rest : List Char}
    (h : R.readIdentifier quote cs = some (name, '.' :: rest)) :
    R.readPath quote cs = (R.readPath quote rest).map (Prod.map (name :: ·) id) := by
  rw [readPath]
  split
  · rename_i heq
    cases h.symm.trans heq
    rfl
  · rename_i hother heq
    cases h.symm.trans heq
    exact absurd rfl (hother _)
  · rename_i heq
    cases h.symm.trans heq

/-- The first name of a path is the identifier at its start. -/
theorem readIdentifier_of_readPath {cs name behind : List Char} {names : List (List Char)}
    (h : R.readPath quote cs = some (name :: names, behind)) :
    ∃ rest, R.readIdentifier quote cs = some (name, rest) := by
  rw [readPath] at h
  split at h
  · rename_i hread
    obtain ⟨path, -, heq⟩ := Option.map_eq_some_iff.mp h
    cases heq
    exact ⟨_, hread⟩
  · rename_i hread
    cases h
    exact ⟨_, hread⟩
  · cases h

variable (R)

/-- A text that does not continue an identifier in front of it. -/
def EndsIdentifier (quote : Char) (rest : List Char) : Prop :=
  ∀ c ∈ rest.head?, R.continues c = false ∧ c ≠ quote

/-- A name is a word where it is written bare. -/
def Takes (name : String) : Prop :=
  needsQuotes name = false → ∀ c ∈ name.toList, R.continues c = true

variable {R} {rest behind : List Char}

theorem readIdentifier_enclosed (cs : List Char) (h : R.EndsIdentifier quote rest) :
    R.readIdentifier quote (Text.encloseChars quote cs ++ rest) = some (cs, rest) := by
  have hother : rest.head? ≠ some quote := fun hquote => (h _ hquote).2 rfl
  have hread := QuoteRules.read_encloseChars quote cs hother
  simp only [Text.encloseChars, List.cons_append, QuoteRules.read, if_true] at hread
  simp only [Text.encloseChars, List.cons_append, readIdentifier, if_true, hread]

/-- A name that needs no quotes is read as a word. -/
theorem readIdentifier_bare (hquote : isQuote quote = true) {name : String}
    (hname : needsQuotes name = false) (rest : List Char) :
    R.readIdentifier quote (name.toList ++ rest) = R.readWord (name.toList ++ rest) := by
  obtain ⟨-, hempty, hplain, hnumeric⟩ := needsQuotes_eq_false_iff.mp hname
  cases hcs : name.toList with
  | nil => exact absurd (String.toList_eq_nil_iff.mp hcs) hempty
  | cons c cs =>
      have hc : isPlainChar c = true := hplain c (by simp [hcs])
      have hne : c ≠ quote := by
        rintro rfl
        have hharmless := harmless_of_plainChar hc
        simp [isHarmless, hquote] at hharmless
      have hstart : R.starts c = true := by
        simp only [Identifier.startsNumeric, hcs] at hnumeric
        simp only [isPlainChar, Text.isAlphanumeric, hnumeric, Bool.or_false, Bool.or_eq_true,
          beq_iff_eq] at hc
        rcases hc with halphabetic | rfl
        · exact R.starts_of_isAlphabetic halphabetic
        · exact R.starts_underscore
      rw [List.cons_append, readIdentifier, if_neg hne, if_pos hstart]

/-- A word reaches to the end of a name exactly if it goes on over all characters of it. -/
theorem readWord_eq_iff {name : String} (hname : needsQuotes name = false)
    (h : R.EndsIdentifier quote rest) :
    R.readWord (name.toList ++ rest) = some (name.toList, behind) ↔
      behind = rest ∧ ∀ c ∈ name.toList, R.continues c = true := by
  have hreserved : isReservedWord name.toList = false := by
    obtain ⟨hnone, -⟩ := needsQuotes_eq_false_iff.mp hname
    refine Bool.eq_false_iff.mpr fun hword => ?_
    cases hnone.symm.trans (isReserved_of_isReservedWord hword)
  have hstops : ∀ c ∈ rest.head?, ¬ R.continues c = true := fun c hc => by simp [(h c hc).1]
  have hall : (∀ c ∈ name.toList, R.continues c = true) →
      (name.toList ++ rest).takeWhile R.continues = name.toList ∧
        (name.toList ++ rest).dropWhile R.continues = rest := by
    intro hcontinues
    rw [List.takeWhile_append_of_pos hcontinues, List.dropWhile_append_of_pos hcontinues]
    cases rest with
    | nil => simp
    | cons c rest => simp [List.takeWhile_cons_of_neg, List.dropWhile_cons_of_neg, hstops c rfl]
  rw [readWord, Option.ite_none_left_eq_some, Option.some.injEq, Prod.mk.injEq]
  constructor
  · rintro ⟨-, htake, hdrop⟩
    have hcontinues : ∀ c ∈ name.toList, R.continues c = true := by
      intro c hc
      rw [← htake] at hc
      exact List.mem_takeWhile_imp hc
    exact ⟨hdrop.symm.trans (hall hcontinues).2, hcontinues⟩
  · rintro ⟨rfl, hcontinues⟩
    obtain ⟨htake, hdrop⟩ := hall hcontinues
    rw [htake, hdrop, hreserved]
    exact ⟨Bool.false_ne_true, rfl, rfl⟩

theorem readIdentifier_eq_iff (hquote : isQuote quote = true) (name : String)
    (h : R.EndsIdentifier quote rest) :
    R.readIdentifier quote ((quotePart quote name).toList ++ rest) = some (name.toList, behind) ↔
      behind = rest ∧ R.Takes name := by
  unfold quotePart
  split
  · rename_i hneeds
    have htakes : R.Takes name := fun hbare => absurd hneeds (Bool.eq_false_iff.mp hbare)
    rw [Text.enclose, String.toList_ofList, readIdentifier_enclosed name.toList h]
    simp [htakes, eq_comm]
  · rename_i hbare
    have hbare : needsQuotes name = false := Bool.eq_false_iff.mpr hbare
    rw [readIdentifier_bare hquote hbare, readWord_eq_iff hbare h]
    simp [Takes, hbare]

theorem endsIdentifier_dot (hquote : isQuote quote = true) (rest : List Char) :
    R.EndsIdentifier quote ('.' :: rest) := by
  rintro c hc
  obtain rfl : c = '.' := by simpa using hc.symm
  refine ⟨R.stops '.' (by simp), ?_⟩
  rintro rfl
  cases hquote

/-- Identifiers between dots are read one by one, as long as they are words. -/
theorem readPath_eq_iff (hquote : isQuote quote = true) {parts : List String} (hne : parts ≠ [])
    (h : R.EndsIdentifier quote rest) (hdot : rest.head? ≠ some '.') :
    R.readPath quote ((".".intercalate (parts.map (quotePart quote))).toList ++ rest) =
      some (parts.map String.toList, rest) ↔ ∀ part ∈ parts, R.Takes part := by
  induction parts with
  | nil => exact absurd rfl hne
  | cons part others ih =>
      cases others with
      | nil =>
          simp only [List.map_cons, List.map_nil, String.intercalate_singleton,
            List.forall_mem_singleton]
          constructor
          · intro hread
            obtain ⟨behind, hpart⟩ := readIdentifier_of_readPath hread
            exact ((readIdentifier_eq_iff hquote part h).mp hpart).2
          · intro htakes
            exact readPath_last ((readIdentifier_eq_iff hquote part h).mpr ⟨rfl, htakes⟩) hdot
      | cons next others =>
          have hends := R.endsIdentifier_dot hquote
            ((".".intercalate ((next :: others).map (quotePart quote))).toList ++ rest)
          have hdotted : ".".toList = ['.'] := rfl
          rw [List.map_cons, List.map_cons, String.intercalate_cons_cons, ← List.map_cons,
            String.toList_append, String.toList_append, List.append_assoc, List.append_assoc,
            hdotted, List.singleton_append, List.forall_mem_cons, ← ih (by simp)]
          constructor
          · intro hread
            obtain ⟨behind, hfirst⟩ := readIdentifier_of_readPath hread
            obtain ⟨rfl, htakes⟩ := (readIdentifier_eq_iff hquote part hends).mp hfirst
            rw [readPath_dot hfirst] at hread
            obtain ⟨⟨names, behind⟩, hrest, heq⟩ := Option.map_eq_some_iff.mp hread
            have hsame : names = (next :: others).map String.toList ∧ behind = rest := by
              simpa using heq
            obtain ⟨rfl, rfl⟩ := hsame
            exact ⟨htakes, hrest⟩
          · rintro ⟨htakes, hrest⟩
            rw [readPath_dot ((readIdentifier_eq_iff hquote part hends).mpr ⟨rfl, htakes⟩), hrest]
            rfl

end WordRules

namespace Builtin

/-- The character between which the database quotes identifiers. -/
def identifierQuote : Builtin → Char
  | postgres => '"'
  | mysql => '\x60'
  | sqlite => '"'

/-- Read a name at the start of a text by some rules for words: its parts, and what is behind it. -/
def readNameBy (b : Builtin) (R : WordRules) (text : String) : Option (List String × String) :=
  (R.readPath b.identifierQuote text.toList).map (Prod.map (List.map String.ofList) String.ofList)

/-- Read a name whose bare parts are words of letters, digits and underscores. -/
def readName (b : Builtin) (text : String) : Option (List String × String) :=
  b.readNameBy .standard text

/-- What a name stands for: SQLite has no dots in it. -/
def nameParts (b : Builtin) (name : String) : List String :=
  match b with
  | postgres => Text.dotParts name
  | mysql => Text.dotParts name
  | sqlite => [name]

variable {R : WordRules}

theorem readNameBy_eq_some_iff (b : Builtin) {text rest : String} {parts : List String} :
    b.readNameBy R text = some (parts, rest) ↔
      R.readPath b.identifierQuote text.toList = some (parts.map String.toList, rest.toList) := by
  rw [readNameBy, Option.map_eq_some_iff]
  constructor
  · rintro ⟨⟨names, behind⟩, hread, heq⟩
    cases heq
    simp [hread, Function.comp_def]
  · intro hread
    exact ⟨_, hread, by simp [Function.comp_def]⟩

/-- Behind an identifier there is a blank, a comma, a closing parenthesis or nothing. -/
theorem endsIdentifier_of_delimiter (b : Builtin) {rest : List Char}
    (h : ∀ c ∈ rest.head?, c ∈ [' ', ',', ')']) :
    R.EndsIdentifier b.identifierQuote rest ∧ rest.head? ≠ some '.' := by
  refine ⟨fun c hc => ⟨R.stops c ?_, ?_⟩, fun hdot => absurd (h _ hdot) (by decide)⟩
  · have hsub : [' ', ',', ')'] ⊆ ['\'', '"', '\x60', '.', ' ', ',', ')'] := by simp
    exact hsub (h c hc)
  · rintro rfl
    cases b <;> exact absurd (h _ hc) (by decide)

/-- Whether a part of a name is written bare; SQLite quotes every name. -/
theorem quoteIdentifier_eq_self_iff (b : Builtin) {name part : String}
    (hpart : part ∈ b.nameParts name) :
    b.dialect.quoteIdentifier part = part ↔ b ≠ sqlite ∧ needsQuotes part = false := by
  have henclosed : ∀ quote, Text.enclose quote part ≠ part := by
    intro quote heq
    have hlength := Text.length_enclose quote part
    rw [heq] at hlength
    omega
  have hdotted : ∀ quote, part ∈ Text.dotParts name →
      (Identifier.quoteName quote part = part ↔ needsQuotes part = false) := by
    intro quote hpart
    rw [Identifier.quoteName, Text.dotParts_of_undotted (not_dot_mem_part hpart),
      List.map_singleton, String.intercalate_singleton, quotePart]
    split <;> simp_all
  cases b with
  | postgres => exact (hdotted '"' hpart).trans (by simp)
  | mysql => exact (hdotted '\x60' hpart).trans (by simp)
  | sqlite => exact iff_of_false (henclosed '"') (by simp)

theorem readNameBy_eq_iff (b : Builtin) (name : String) {rest : String}
    (h : ∀ c ∈ rest.toList.head?, c ∈ [' ', ',', ')']) :
    b.readNameBy R (b.dialect.quoteIdentifier name ++ rest) = some (b.nameParts name, rest) ↔
      ∀ part ∈ b.nameParts name, b.dialect.quoteIdentifier part = part →
        ∀ c ∈ part.toList, R.continues c = true := by
  obtain ⟨hends, hdot⟩ := b.endsIdentifier_of_delimiter (R := R) h
  have htakes : (∀ part ∈ b.nameParts name, b.dialect.quoteIdentifier part = part →
      ∀ c ∈ part.toList, R.continues c = true) ↔
        ∀ part ∈ b.nameParts name, b ≠ sqlite → R.Takes part := by
    refine forall₂_congr fun part hpart => ?_
    rw [b.quoteIdentifier_eq_self_iff hpart, and_imp]
    rfl
  rw [htakes, readNameBy_eq_some_iff, String.toList_append]
  cases b with
  | postgres | mysql =>
      have hpath := WordRules.readPath_eq_iff rfl (dotParts_ne_nil name) hends hdot
      exact hpath.trans (forall₂_congr fun _ _ => by simp)
  | sqlite =>
      have hread : R.readPath '"' ((Text.enclose '"' name).toList ++ rest.toList) =
          some ([name.toList], rest.toList) := by
        rw [Text.enclose, String.toList_ofList]
        exact WordRules.readPath_last (WordRules.readIdentifier_enclosed name.toList hends) hdot
      exact iff_of_true hread fun _ _ hne => absurd rfl hne

theorem isPlainChar_of_bare (b : Builtin) {name part : String} (hpart : part ∈ b.nameParts name)
    (hbare : b.dialect.quoteIdentifier part = part) : ∀ c ∈ part.toList, isPlainChar c = true := by
  obtain ⟨-, hneeds⟩ := (b.quoteIdentifier_eq_self_iff hpart).mp hbare
  obtain ⟨-, -, hplain, -⟩ := needsQuotes_eq_false_iff.mp hneeds
  exact hplain

/-- The parts of a name tell what it is. -/
theorem nameParts_injective (b : Builtin) : Function.Injective b.nameParts := by
  intro name name' h
  cases b with
  | sqlite => exact List.singleton_injective h
  | postgres | mysql =>
      rw [← Text.intercalate_dotParts name, ← Text.intercalate_dotParts name']
      exact congrArg _ h

/-- A quoted identifier is read exactly, with whatever may stand behind it, and yields the name,
unless some part of it is written bare that holds a numeral which is neither a letter nor a digit.
No two names are written alike, whatever they hold. -/
theorem identifier_read_back (b : Builtin) :
    (∀ name rest : String, (∀ c ∈ rest.toList.head?, c ∈ [' ', ',', ')']) →
        (b.readName (b.dialect.quoteIdentifier name ++ rest) = some (b.nameParts name, rest) ↔
          ∀ part ∈ b.nameParts name, b.dialect.quoteIdentifier part = part →
            ∀ c ∈ part.toList, Text.isOtherNumeral c = false)) ∧
      ∀ name name', b.dialect.quoteIdentifier name = b.dialect.quoteIdentifier name' →
        name = name' := by
  constructor
  · intro name rest hrest
    rw [readName, b.readNameBy_eq_iff name hrest]
    refine forall₂_congr fun part hpart => forall_congr' fun hbare => forall₂_congr fun c hc => ?_
    have hword := Text.isWordChar_eq (b.isPlainChar_of_bare hpart hbare c hc)
    change Text.isWordChar c = true ↔ _
    rw [hword, Bool.not_eq_true']
  · -- Bare names are read in full by the rules under which they are written bare.
    intro name name' h
    have hread : ∀ name, b.readNameBy .wide (b.dialect.quoteIdentifier name) =
        some (b.nameParts name, "") := by
      intro name
      have hnothing : ∀ c ∈ "".toList.head?, c ∈ [' ', ',', ')'] := by simp
      have hread := (b.readNameBy_eq_iff (R := .wide) name hnothing).mpr
        fun part hpart hbare => b.isPlainChar_of_bare hpart hbare
      rwa [String.append_empty] at hread
    have hparts := (hread name).symm.trans (h ▸ hread name')
    apply b.nameParts_injective
    simpa using hparts

/-- A reserved word in capitals, a part with a quote and a fraction in it, and a word with letters
beyond ASCII. -/
theorem identifier_read_back_dotted :
    postgres.dialect.quoteIdentifier "Order.a\"b ½.größe2" = "\"Order\".\"a\"\"b ½\".größe2" ∧
      (∀ c ∈ ", d".toList.head?, c ∈ [' ', ',', ')']) ∧
      postgres.readName ("\"Order\".\"a\"\"b ½\".größe2" ++ ", d") =
        some (["Order", "a\"b ½", "größe2"], ", d") := by
  have htext : postgres.dialect.quoteIdentifier "Order.a\"b ½.größe2" =
      "\"Order\".\"a\"\"b ½\".größe2" := by
    decide +kernel
  have hparts : postgres.nameParts "Order.a\"b ½.größe2" = ["Order", "a\"b ½", "größe2"] := by
    decide +kernel
  have hcomma : ∀ c ∈ ", d".toList.head?, c ∈ [' ', ',', ')'] := by simp
  have hwords : ∀ part ∈ postgres.nameParts "Order.a\"b ½.größe2",
      postgres.dialect.quoteIdentifier part = part →
        ∀ c ∈ part.toList, Text.isOtherNumeral c = false := by
    have hall : ["Order", "a\"b ½", "größe2"].all (fun part =>
        postgres.dialect.quoteIdentifier part != part ||
          part.toList.all fun c => !Text.isOtherNumeral c) = true := by
      decide +kernel
    intro part hpart hbare
    rw [hparts] at hpart
    simpa [hbare] using List.all_eq_true.mp hall part hpart
  have hread := (postgres.identifier_read_back.1 "Order.a\"b ½.größe2" ", d" hcomma).mpr hwords
  rw [htext, hparts] at hread
  exact ⟨htext, hcomma, hread⟩

/-- A fraction behind a letter is written bare, but a word ends in front of it. -/
theorem fraction_read_short :
    postgres.dialect.quoteIdentifier "a½" = "a½" ∧ postgres.nameParts "a½" = ["a½"] ∧
      postgres.readName (postgres.dialect.quoteIdentifier "a½" ++ ", b") =
        some (["a"], "½, b") := by
  have hword : WordRules.standard.readIdentifier '"' "a½, b".toList =
      some (['a'], "½, b".toList) := by
    decide +kernel
  have hbare : postgres.dialect.quoteIdentifier "a½" = "a½" := by decide +kernel
  refine ⟨hbare, by decide +kernel, ?_⟩
  rw [hbare, readName, readNameBy_eq_some_iff]
  exact WordRules.readPath_last hword (by decide)

end Builtin

end QueryCompiler
