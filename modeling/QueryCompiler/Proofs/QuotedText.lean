import QueryCompiler.Text.Quote

/-!
# Quoted text and how it is read

A text between quotes holds its quotes doubled, so a reader that toggles at every quote is outside
at its end and nowhere else, but between the two quotes of a pair. A reader that wants to know what
was written takes the first quote that is not doubled for the end. Where backslashes escape, it also
reads a backslash together with the character behind it.
-/
namespace QueryCompiler

open Text (openQuote isQuote)

/-- Cut a text at the first place that a toggling reader finds outside quotes and at which it does
not go back into the quotes it has just left. -/
def leaveQuotes (quote : Option Char) : List Char → List Char × List Char
  | [] => ([], [])
  | c :: rest =>
    if openQuote quote c = none ∧ rest.head? ≠ some c then ([c], rest)
    else
      let (inside, behind) := leaveQuotes (openQuote quote c) rest
      (c :: inside, behind)

/-- What follows an opening quote, up to the quote that closes it. -/
inductive QuotedRun (quote : Char) : List Char → Prop
  | done : QuotedRun quote [quote]
  | char {c : Char} {rest : List Char} (other : c ≠ quote) (next : QuotedRun quote rest) :
      QuotedRun quote (c :: rest)
  | doubled {rest : List Char} (next : QuotedRun quote rest) :
      QuotedRun quote (quote :: quote :: rest)

namespace QuotedRun

variable {quote : Char} {cs : List Char}

theorem append_left {front : List Char} (h : quote ∉ front) (hcs : QuotedRun quote cs) :
    QuotedRun quote (front ++ cs) := by
  induction front with
  | nil => exact hcs
  | cons c rest ih =>
      rw [List.mem_cons, not_or] at h
      exact .char (Ne.symm h.1) (ih h.2)

/-- Characters are written so that only the quote is written with quotes, as two of them. -/
theorem of_flatMap {escape : Char → List Char} (hquote : escape quote = [quote, quote])
    (hother : ∀ c, c ≠ quote → quote ∉ escape c) (cs : List Char) :
    QuotedRun quote (cs.flatMap escape ++ [quote]) := by
  induction cs with
  | nil => exact .done
  | cons c cs ih =>
      rw [List.flatMap_cons, List.append_assoc]
      by_cases hc : c = quote
      · rw [hc, hquote]
        exact .doubled ih
      · exact append_left (hother c hc) ih

theorem enclosed (quote : Char) (cs : List Char) :
    QuotedRun quote ((cs.flatMap fun c => if c = quote then [quote, quote] else [c]) ++ [quote]) :=
  of_flatMap (by simp) (fun c hc => by simpa [hc] using Ne.symm hc) cs

/-- A toggling reader stays until the run is done, unless the text goes on with another quote. -/
theorem leaveQuotes_append (h : QuotedRun quote cs) (hquote : isQuote quote = true)
    {rest : List Char} (hrest : rest.head? ≠ some quote) :
    leaveQuotes (some quote) (cs ++ rest) = (cs, rest) := by
  have hopen : openQuote none quote = some quote := by simp [openQuote, hquote]
  have hclose : openQuote (some quote) quote = none := by simp [openQuote]
  induction h with
  | done => simp [leaveQuotes, hclose, hrest]
  | @char c _ other next ih =>
      have hstay : openQuote (some quote) c = some quote := by simp [openQuote, other]
      simp [leaveQuotes, hstay, ih]
  | doubled next ih => simp [leaveQuotes, hclose, hopen, ih]

end QuotedRun

/-- How a database reads what stands between quotes. -/
structure QuoteRules where
  quote : Char
  /-- What a backslash and the character behind it stand for, where backslashes escape. -/
  escaped : Option (Char → List Char) := none

namespace QuoteRules

/-- Put what was read in front of what is read behind it. -/
def withFront (front : List Char) (read : List Char × List Char) : List Char × List Char :=
  (front ++ read.1, read.2)

/-- What a character does to the one behind it. -/
def escapes (r : QuoteRules) (c : Char) : Option (Char → List Char) :=
  if c = '\\' then r.escaped else none

/-- Read to the quote that ends the text: what it stands for, and what is behind it. -/
def readRun (r : QuoteRules) : List Char → Option (List Char × List Char)
  | [] => none
  | [c] => if c = r.quote then some ([], []) else none
  | c :: next :: rest =>
    if c = r.quote then
      if next = r.quote then (r.readRun rest).map (withFront [c]) else some ([], next :: rest)
    else match r.escapes c with
      | some escaped => (r.readRun rest).map (withFront (escaped next))
      | none => (r.readRun (next :: rest)).map (withFront [c])

/-- Read a quoted text from its opening quote on. -/
def read (r : QuoteRules) : List Char → Option (List Char × List Char)
  | [] => none
  | c :: rest => if c = r.quote then r.readRun rest else none

variable {r : QuoteRules}

theorem readRun_end {rest : List Char} (h : rest.head? ≠ some r.quote) :
    r.readRun (r.quote :: rest) = some ([], rest) := by
  cases rest with
  | nil => simp [readRun]
  | cons next rest =>
      have hnext : next ≠ r.quote := by simpa using h
      simp [readRun, hnext]

theorem readRun_doubled (rest : List Char) :
    r.readRun (r.quote :: r.quote :: rest) = (r.readRun rest).map (withFront [r.quote]) := by
  simp [readRun]

theorem readRun_escaped {c : Char} {escaped : Char → List Char} (hc : c ≠ r.quote)
    (h : r.escapes c = some escaped) (next : Char) (rest : List Char) :
    r.readRun (c :: next :: rest) = (r.readRun rest).map (withFront (escaped next)) := by
  simp [readRun, hc, h]

theorem readRun_char {c : Char} (hc : c ≠ r.quote) (h : r.escapes c = none) (rest : List Char) :
    r.readRun (c :: rest) = (r.readRun rest).map (withFront [c]) := by
  cases rest with
  | nil => simp [readRun, hc]
  | cons next rest => simp [readRun, hc, h]

theorem exists_of_map_withFront {front read behind : List Char} {o : Option (List Char × List Char)}
    (h : o.map (withFront front) = some (read, behind)) : ∃ later, o = some (later, behind) := by
  obtain ⟨⟨later, behind⟩, ho, heq⟩ := Option.map_eq_some_iff.mp h
  cases heq
  exact ⟨later, ho⟩

/-- Reading uses up at least the quote at the end. -/
theorem length_readRun {cs read behind : List Char} (h : r.readRun cs = some (read, behind)) :
    behind.length < cs.length := by
  induction cs using readRun.induct r generalizing read with
  | case1 => cases h
  | case2 =>
      rw [readRun_end (by simp)] at h
      cases h
      simp
  | case3 c hc => simp [readRun, hc] at h
  | case4 rest ih =>
      rw [readRun_doubled] at h
      obtain ⟨later, h⟩ := exists_of_map_withFront h
      exact Nat.lt_add_right 2 (ih h)
  | case5 next rest hnext =>
      rw [readRun_end (by simpa using hnext)] at h
      cases h
      simp
  | case6 c next rest hc escaped hescaped ih =>
      rw [readRun_escaped hc hescaped] at h
      obtain ⟨later, h⟩ := exists_of_map_withFront h
      exact Nat.lt_add_right 2 (ih h)
  | case7 c next rest hc hescapes ih =>
      rw [readRun_char hc hescapes] at h
      obtain ⟨later, h⟩ := exists_of_map_withFront h
      exact Nat.lt_succ_of_lt (ih h)

/-- Reading gives back the characters from the way in which they are written. -/
def Undoes (r : QuoteRules) (escape : Char → List Char) : Prop :=
  ∀ c rest, r.readRun (escape c ++ rest) = (r.readRun rest).map (withFront [c])

/-- Only quotes are written twice, and backslashes do not escape. -/
theorem undoes_doubling (quote : Char) :
    Undoes ⟨quote, none⟩ (fun c => if c = quote then [quote, quote] else [c]) := by
  intro c rest
  by_cases hc : c = quote
  · subst hc
    simpa using readRun_doubled rest
  · simpa [hc] using readRun_char hc (by simp [escapes]) rest

theorem readRun_written {escape : Char → List Char} (h : r.Undoes escape) (cs : List Char)
    {rest : List Char} (hrest : rest.head? ≠ some r.quote) :
    r.readRun (cs.flatMap escape ++ r.quote :: rest) = some (cs, rest) := by
  induction cs with
  | nil => exact readRun_end hrest
  | cons c cs ih =>
      rw [List.flatMap_cons, List.append_assoc, h, ih]
      rfl

/-- A text in quotes is read in full, and its characters are given back. -/
theorem read_written {escape : Char → List Char} (h : r.Undoes escape) (cs : List Char)
    {rest : List Char} (hrest : rest.head? ≠ some r.quote) :
    r.read (r.quote :: cs.flatMap escape ++ [r.quote] ++ rest) = some (cs, rest) := by
  rw [List.append_assoc, List.cons_append, read, if_pos rfl]
  exact readRun_written h cs hrest

theorem read_encloseChars (quote : Char) (cs : List Char) {rest : List Char}
    (hrest : rest.head? ≠ some quote) :
    read ⟨quote, none⟩ (Text.encloseChars quote cs ++ rest) = some (cs, rest) :=
  read_written (undoes_doubling quote) cs hrest

end QuoteRules

end QueryCompiler
