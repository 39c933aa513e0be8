import QueryCompiler.Compile.Name
import QueryCompiler.Dialect.Builtin
import QueryCompiler.Operator
import QueryCompiler.Proofs.QuietText

/-!
# Lexemes of SQL text

Outside quotes, blanks and the delimiters `(`, `)` and `,` separate words. A word of an operator is
a key word in any case of its letters, a word behind a colon names a parameter, and all other words
are names: the parts between the dots, without the quotes around them.
-/
namespace QueryCompiler

inductive Lexeme where
  | key (word : String)
  | name (path : List String)
  | param (name : String)
  | opening
  | closing
  | comma
  deriving DecidableEq, Repr

/-- The words of which the operators of the table are made. -/
def operatorWords : List String := Operator.all.flatMap fun op => Text.words Text.isBlank op.name

def isOperatorWord (s : String) : Bool := operatorWords.contains s.toUpper

def isDelimiter (c : Char) : Bool := c == ' ' || c == '(' || c == ')' || c == ','

/-- The parts of a dotted name without their quotes. -/
def nameParts : Option Char → List Char → List (List Char)
  | _, [] => [[]]
  | some quote, c :: rest =>
    if c = quote then
      match rest with
      | [] => [[]]
      | next :: others =>
        if next = quote then Field.extendFirst quote (nameParts (some quote) others)
        else nameParts none (next :: others)
    else Field.extendFirst c (nameParts (some quote) rest)
  | none, c :: rest =>
    if c = '.' then [] :: nameParts none rest
    else if Text.isQuote c then nameParts (some c) rest
    else Field.extendFirst c (nameParts none rest)

namespace Lexeme

def ofWord (word : List Char) : Lexeme :=
  if isOperatorWord (String.ofList word) then key (String.ofList word).toUpper
  else match word with
    | ':' :: rest => param (String.ofList rest)
    | _ => name ((nameParts none word).map String.ofList)

/-- The lexeme of a word that has come to its end, if there is one. -/
def flush : List Char → List Lexeme
  | [] => []
  | c :: rest => [ofWord (c :: rest)]

def ofDelimiter (c : Char) : List Lexeme :=
  if c = '(' then [opening] else if c = ')' then [closing] else if c = ',' then [comma] else []

/-- Cut a text into lexemes, given the open quote and the word read so far. -/
def scan (quote : Option Char) (word : List Char) : List Char → List Lexeme
  | [] => flush word
  | c :: rest =>
    match quote with
    | some _ => scan (Text.openQuote quote c) (word ++ [c]) rest
    | none =>
      if isDelimiter c then flush word ++ ofDelimiter c ++ scan none [] rest
      else scan (Text.openQuote none c) (word ++ [c]) rest

def ofChars (cs : List Char) : List Lexeme := scan none [] cs

def ofText (s : String) : List Lexeme := ofChars s.toList

end Lexeme

/-- All quotes of a text are closed at its end. -/
def Closed (cs : List Char) : Prop := cs.foldl Text.openQuote none = none

/-- A text that does not continue a word in front of it. -/
def Delimited (cs : List Char) : Prop := ∀ c ∈ cs.head?, isDelimiter c = true

namespace Lexeme

theorem scan_append {quote : Option Char} {word cs : List Char}
    (h : cs.foldl Text.openQuote quote = none) {rest : List Char} (hrest : Delimited rest) :
    scan quote word (cs ++ rest) = scan quote word cs ++ ofChars rest := by
  induction cs generalizing quote word with
  | nil =>
      obtain rfl : quote = none := h
      cases rest with
      | nil => simp [scan, ofChars, flush]
      | cons c rest =>
          have hc : isDelimiter c = true := hrest c rfl
          simp [scan, ofChars, flush, hc]
  | cons c cs ih =>
      rw [List.foldl_cons] at h
      cases quote with
      | some q =>
          rw [List.cons_append, scan, ih h]
          rfl
      | none =>
          rw [List.cons_append, scan, scan]
          by_cases hc : isDelimiter c = true
          · have hopen : Text.openQuote none c = none := by
              have hquote : Text.isQuote c = false := by
                simp only [isDelimiter, Bool.or_eq_true, beq_iff_eq] at hc
                obtain ((rfl | rfl) | rfl) | rfl := hc <;> rfl
              simp [Text.openQuote, hquote]
            rw [hopen] at h
            simp only [hc, if_true, List.append_assoc, ih h]
          · simp only [hc, Bool.false_eq_true, if_false, ih h]

/-- The lexemes of two texts one after another, if they cannot be mistaken for one word. -/
theorem ofChars_append {a b : List Char} (ha : Closed a) (hb : Delimited b) :
    ofChars (a ++ b) = ofChars a ++ ofChars b :=
  scan_append ha hb

theorem ofChars_blank (cs : List Char) : ofChars (' ' :: cs) = ofChars cs := rfl

theorem ofChars_opening (cs : List Char) : ofChars ('(' :: cs) = opening :: ofChars cs := rfl

theorem ofChars_parenthesized {cs : List Char} (h : Closed cs) :
    ofChars ('(' :: (cs ++ [')'])) = opening :: (ofChars cs ++ [closing]) := by
  rw [ofChars_opening, ofChars_append h (by rintro c ⟨⟩; rfl)]
  rfl

theorem ofChars_comma (cs : List Char) : ofChars (',' :: cs) = comma :: ofChars cs := rfl

theorem scan_quiet {quote : Option Char} {word cs : List Char}
    (h : quietFrom isDelimiter quote cs = true) : scan quote word cs = flush (word ++ cs) := by
  induction cs generalizing quote word with
  | nil => simp [scan]
  | cons c cs ih =>
      cases quote with
      | some q =>
          rw [scan, ih h, List.append_assoc]
          rfl
      | none =>
          simp only [quietFrom, Bool.and_eq_true, Bool.not_eq_true'] at h
          simp only [scan, h.1, Bool.false_eq_true, if_false, ih h.2, List.append_assoc,
            List.cons_append, List.nil_append]

end Lexeme

/-- A text that is one word, with the lexeme that it is. -/
structure IsWord (s : String) (l : Lexeme) : Prop where
  quiet : Quiet isDelimiter s
  nonempty : s.toList ≠ []
  lexeme : Lexeme.ofWord s.toList = l

theorem IsWord.ofChars {s : String} {l : Lexeme} (h : IsWord s l) :
    Lexeme.ofChars s.toList = [l] := by
  rw [Lexeme.ofChars, Lexeme.scan_quiet h.quiet, List.nil_append]
  cases hcs : s.toList with
  | nil => exact absurd hcs h.nonempty
  | cons c rest => rw [Lexeme.flush, ← hcs, h.lexeme]

theorem closed_append {a b : List Char} (ha : Closed a) (hb : Closed b) : Closed (a ++ b) := by
  rw [Closed, List.foldl_append, ha]
  exact hb

theorem closed_of_quiet {loud : Char → Bool} {cs : List Char}
    (h : quietFrom loud none cs = true) : Closed cs := by
  have hfrom : ∀ (quote : Option Char) (cs : List Char), quietFrom loud quote cs = true →
      cs.foldl Text.openQuote quote = none := by
    intro quote cs
    induction cs generalizing quote with
    | nil => exact fun h => by simpa [quietFrom] using h
    | cons c rest ih =>
        cases quote with
        | some q => exact fun h => ih _ h
        | none =>
            intro h
            simp only [quietFrom, Bool.and_eq_true] at h
            exact ih _ h.2
  exact hfrom none cs h

end QueryCompiler
