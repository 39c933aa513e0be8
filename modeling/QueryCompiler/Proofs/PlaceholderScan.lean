import Mathlib.Data.List.TakeWhile
import QueryCompiler.Proofs.IdentifierText
import QueryCompiler.Proofs.Lexing
import QueryCompiler.Proofs.PlaceholderAgreement
import QueryCompiler.Proofs.TextShape

/-!
# What the scan for placeholders finds

The scan is an index loop with a quote, two counters and an inner loop over a name. Read as a
relation between a text and its pieces it has one rule for each thing that can stand next, and
every property of it is an induction over these rules.
-/
namespace QueryCompiler

namespace Piece

/-- The characters that a piece was read from. -/
def chars : Piece → List Char
  | char c => [c]
  | named name => ':' :: name.toList
  | positional => ['?']

/-- A colon is read together with what stands behind it: it is half of a cast, or a name follows. -/
def joinsColon (cs : List Char) : Bool :=
  cs.head?.any fun c => c == ':' || Text.isIdentifierStart c

/-- How a text is cut into pieces, if `quote` is open in front of it. -/
inductive Scans : Option Char → List Char → List Piece → Prop
  | done {quote : Option Char} : Scans quote [] []
  | quoted {q c : Char} {rest : List Char} {ps : List Piece}
      (next : Scans (Text.openQuote (some q) c) rest ps) : Scans (some q) (c :: rest) (char c :: ps)
  | plain {c : Char} {rest : List Char} {ps : List Piece} (unmarked : isMark c = false)
      (next : Scans (Text.openQuote none c) rest ps) : Scans none (c :: rest) (char c :: ps)
  | cast {rest : List Char} {ps : List Piece} (next : Scans none rest ps) :
      Scans none (':' :: ':' :: rest) (char ':' :: char ':' :: ps)
  | colon {rest : List Char} {ps : List Piece} (alone : joinsColon rest = false)
      (next : Scans none rest ps) : Scans none (':' :: rest) (char ':' :: ps)
  | named {name : String} {rest : List Char} {ps : List Piece}
      (identifier : Text.isIdentifier name = true) (maximal : Breaks rest)
      (next : Scans none rest ps) : Scans none (':' :: name.toList ++ rest) (named name :: ps)
  | positional {rest : List Char} {ps : List Piece} (next : Scans none rest ps) :
      Scans none ('?' :: rest) (positional :: ps)

theorem scan_cast (rest : List Char) :
    scan none 0 (':' :: ':' :: rest) = char ':' :: char ':' :: scan none 0 rest := by
  simp [scan]

theorem scan_colon_alone {rest : List Char} (h : joinsColon rest = false) :
    scan none 0 (':' :: rest) = char ':' :: scan none 0 rest := by
  cases rest with
  | nil => rfl
  | cons c rest =>
      simp only [joinsColon, List.head?_cons, Option.any_some, Bool.or_eq_false_iff,
        beq_eq_false_iff_ne] at h
      conv_lhs => rw [scan.eq_def]
      simp only [Char.reduceEq, if_false, if_true]
      split
      · exact absurd (List.cons.inj ‹_›).1 h.1
      · rename_i heq
        obtain ⟨rfl, rfl⟩ := List.cons.inj heq
        simp [h.2]
      · cases ‹_ :: _ = []›

theorem isIdentifier_takeWhile {c : Char} (h : Text.isIdentifierStart c = true)
    (rest : List Char) :
    Text.isIdentifier (String.ofList ((c :: rest).takeWhile Text.isIdentifierPart)) = true := by
  rw [List.takeWhile_cons_of_pos (Text.isIdentifierPart_of_start h), Text.isIdentifier, String.toList_ofList]
  simp only [h, Bool.true_and, List.all_eq_true]
  exact fun c hc => List.mem_takeWhile_imp hc

theorem breaks_dropWhile (cs : List Char) : Breaks (cs.dropWhile Text.isIdentifierPart) := by
  induction cs with
  | nil => rfl
  | cons c rest ih =>
      cases h : Text.isIdentifierPart c with
      | true => rwa [List.dropWhile_cons_of_pos h]
      | false =>
          rw [List.dropWhile_cons_of_neg (by simp [h])]
          exact h

theorem scans (quote : Option Char) (cs : List Char) : Scans quote cs (scan quote 0 cs) := by
  induction hn : cs.length using Nat.strong_induction_on generalizing quote cs with
  | _ n ih =>
    subst hn
    cases cs with
    | nil => exact .done
    | cons c rest =>
      have hnext (quote : Option Char) : Scans quote rest (scan quote 0 rest) :=
        ih rest.length (Nat.lt_succ_self _) quote rest rfl
      cases quote with
      | some q => exact .quoted (hnext _)
      | none =>
        by_cases hcolon : c = ':'
        · subst hcolon
          cases hjoins : joinsColon rest with
          | false => rw [scan_colon_alone hjoins]; exact .colon hjoins (hnext none)
          | true =>
            cases rest with
            | nil => cases hjoins
            | cons d behind =>
              by_cases hd : d = ':'
              · subst hd
                rw [scan_cast]
                exact .cast (ih behind.length (by simp only [List.length_cons]; omega) none behind rfl)
              · have hstart : Text.isIdentifierStart d = true := by
                  simpa [joinsColon, hd] using hjoins
                let name := String.ofList ((d :: behind).takeWhile Text.isIdentifierPart)
                let after := (d :: behind).dropWhile Text.isIdentifierPart
                have hsplit : name.toList ++ after = d :: behind := by
                  rw [String.toList_ofList, List.takeWhile_append_dropWhile]
                have hname : Text.isIdentifier name = true := isIdentifier_takeWhile hstart behind
                have hbreaks : Breaks after := breaks_dropWhile _
                rw [← hsplit, ← List.cons_append, Sql.scan_named hname hbreaks]
                refine .named hname hbreaks (ih after.length ?_ none after rfl)
                have hle := (List.dropWhile_suffix Text.isIdentifierPart (l := d :: behind)).length_le
                rw [List.length_cons]
                exact Nat.lt_succ_of_le hle
        · by_cases hmark : c = '?'
          · subst hmark
            exact .positional (hnext none)
          · have hscan : scan none 0 (c :: rest) = char c :: scan (Text.openQuote none c) 0 rest := by
              simp [scan, hcolon, hmark]
            rw [hscan]
            exact .plain (by simp [isMark, hcolon, hmark]) (hnext _)

variable {quote : Option Char} {cs : List Char} {ps : List Piece}

/-- The rules leave the scan no choice. -/
theorem Scans.scan_eq (h : Scans quote cs ps) : scan quote 0 cs = ps := by
  induction h with
  | done => cases ‹Option Char› <;> rfl
  | quoted _ ih => rw [scan, ih]
  | @plain c rest ps unmarked _ ih =>
      simp only [isMark, Bool.or_eq_false_iff, beq_eq_false_iff_ne] at unmarked
      simp [scan, unmarked, ih]
  | cast _ ih => rw [scan_cast, ih]
  | colon alone _ ih => rw [scan_colon_alone alone, ih]
  | named identifier maximal _ ih => rw [Sql.scan_named identifier maximal, ih]
  | positional _ ih => rw [← ih]; rfl

theorem Scans.chars_eq (h : Scans quote cs ps) : ps.flatMap chars = cs := by
  induction h with
  | done => rfl
  | quoted _ ih | plain _ _ ih | cast _ ih | colon _ _ ih | named _ _ _ ih | positional _ ih =>
      simp [chars, ih]

/-- Whether a piece is a placeholder. -/
def isPlaceholder : Piece → Bool
  | char _ => false
  | named _ | positional => true

/-- Colons are read in pairs from the left: the last character is a colon that makes a pair with
another one behind it. -/
def awaitsColon (before : List Char) : Bool :=
  before.foldl (fun waiting c => c == ':' && !waiting) false

/-- A placeholder starts between the two parts of a text: outside quotes stands a question mark, or
a colon that is in no pair and has a letter or an underscore behind it. -/
def StartsBetween (before after : List Char) : Prop :=
  Closed before ∧
    ((∃ rest, after = '?' :: rest) ∨
      ∃ c rest, after = ':' :: c :: rest ∧ Text.isIdentifierStart c = true ∧
        awaitsColon before = false)

/-- A placeholder stands in the list behind pieces that were read from these characters. -/
def PlaceholderBehind (front : List Char) (ps : List Piece) : Prop :=
  ∃ former p latter, ps = former ++ p :: latter ∧ former.flatMap chars = front ∧
    p.isPlaceholder = true

theorem placeholderBehind_cons {front : List Char} {p : Piece} {ps : List Piece} :
    PlaceholderBehind front (p :: ps) ↔
      front = [] ∧ p.isPlaceholder = true ∨
        ∃ front', front = p.chars ++ front' ∧ PlaceholderBehind front' ps := by
  constructor
  · rintro ⟨former, p', latter, heq, rfl, hp⟩
    cases former with
    | nil =>
        obtain ⟨rfl, -⟩ := List.cons.inj heq
        exact .inl ⟨rfl, hp⟩
    | cons first former =>
        obtain ⟨rfl, rfl⟩ := List.cons.inj heq
        exact .inr ⟨former.flatMap chars, rfl, former, p', latter, rfl, rfl, hp⟩
  · rintro (⟨rfl, hp⟩ | ⟨front', rfl, former, p', latter, rfl, rfl, hp⟩)
    · exact ⟨[], p, ps, rfl, rfl, hp⟩
    · exact ⟨p :: former, p', latter, rfl, rfl, hp⟩

@[simp]
theorem awaitsColon_append (before : List Char) (c : Char) :
    awaitsColon (before ++ [c]) = (c == ':' && !awaitsColon before) := by
  simp [awaitsColon]

theorem awaitsColon_name {name : String} (h : Text.isIdentifier name = true) (before : List Char) :
    awaitsColon (before ++ ':' :: name.toList) = false := by
  obtain hnil | ⟨first, last, hlast⟩ := name.toList.eq_nil_or_concat
  · rw [Text.isIdentifier, hnil] at h
    cases h
  · have hpart : Text.isIdentifierPart last = true :=
      Text.isIdentifierPart_of_mem h (by simp [hlast])
    have hne : last ≠ ':' := by
      rintro rfl
      revert hpart
      decide
    rw [hlast, List.concat_eq_append, ← List.cons_append, ← List.append_assoc, awaitsColon_append]
    simp [hne]

theorem exists_start {name : String} (h : Text.isIdentifier name = true) :
    ∃ c others, name.toList = c :: others ∧ Text.isIdentifierStart c = true := by
  unfold Text.isIdentifier at h
  split at h
  · cases h
  · rename_i c others hcs
    rw [Bool.and_eq_true] at h
    exact ⟨c, others, hcs, h.1⟩

theorem closed_name {name : String} (h : Text.isIdentifier name = true) :
    Closed (':' :: name.toList) := by
  have hquiet : Quiet (fun _ => false) (":" ++ name) := quiet_of_forall fun c hc => by
    rw [String.toList_append, List.mem_append] at hc
    obtain hc | hc := hc
    · obtain rfl : c = ':' := by simpa using hc
      exact ⟨rfl, rfl⟩
    · exact ⟨rfl, (unmarked_of_harmless
        (harmless_of_identifierPart (Text.isIdentifierPart_of_mem h hc))).2⟩
  have hchars : (":" ++ name).toList = ':' :: name.toList := by simp
  rw [← hchars]
  exact closed_of_quiet hquiet

/-- What stands behind a text without open quotes is read on its own, unless it goes on with the
last piece of the text. -/
theorem Scans.append {a b : List Char} {ps' : List Piece} (ha : Scans quote a ps)
    (hclosed : a.foldl Text.openQuote quote = none) (hb : Scans none b ps')
    (hcolons : a.getLast? = some ':' → b.head? ≠ some ':') (hbreaks : Breaks b) :
    Scans quote (a ++ b) (ps ++ ps') := by
  have hbehind : ∀ {front back : List Char},
      ((front ++ back).getLast? = some ':' → b.head? ≠ some ':') →
        back.getLast? = some ':' → b.head? ≠ some ':' :=
    fun h hlast => h (by rw [List.getLast?_append, hlast]; rfl)
  induction ha with
  | done =>
      cases hclosed
      exact hb
  | quoted _ ih => exact .quoted (ih hclosed (@hbehind [_] _ hcolons))
  | plain unmarked _ ih => exact .plain unmarked (ih hclosed (@hbehind [_] _ hcolons))
  | cast _ ih => exact .cast (ih hclosed (@hbehind [_, _] _ hcolons))
  | @colon rest ps alone _ ih =>
      refine .colon ?_ (ih hclosed (@hbehind [_] _ hcolons))
      cases rest with
      | cons c rest => exact alone
      | nil =>
          cases b with
          | nil => rfl
          | cons c b =>
              have hpart : Text.isIdentifierPart c = false := hbreaks
              have hstart : Text.isIdentifierStart c = false := by
                by_contra hstart
                simp [Text.isIdentifierPart_of_start (by simpa using hstart)] at hpart
              simpa [joinsColon, hstart] using hcolons rfl
  | named identifier maximal _ ih =>
      rw [List.foldl_append, closed_name identifier] at hclosed
      rw [List.append_assoc]
      exact .named identifier (maximal.append hbreaks) (ih hclosed (hbehind hcolons))
  | positional _ ih => exact .positional (ih hclosed (@hbehind [_] _ hcolons))

theorem not_startsBetween_of_part {before : List Char} {c : Char} {rest : List Char}
    (h : Text.isIdentifierPart c = true) : ¬ StartsBetween before (c :: rest) := by
  rintro ⟨-, ⟨_, heq⟩ | ⟨_, _, heq, -, -⟩⟩
  all_goals
    obtain ⟨rfl, -⟩ := List.cons.inj heq
    revert h
    decide

/-- To know where placeholders start, one can go piece by piece: none starts inside of a piece. -/
theorem placeholderBehind_step (rest : List Char) {p : Piece} {before : List Char}
    (hhere : p.isPlaceholder = true ↔ StartsBetween before (p.chars ++ rest))
    (hinside : ∀ a b, p.chars = a ++ b → a ≠ [] → b ≠ [] → ¬ StartsBetween (before ++ a) (b ++ rest))
    (hrest : ∀ front behind, front ++ behind = rest →
      (PlaceholderBehind front ps ↔ StartsBetween (before ++ p.chars ++ front) behind))
    {front behind : List Char} (hsplit : front ++ behind = p.chars ++ rest) :
    PlaceholderBehind front (p :: ps) ↔ StartsBetween (before ++ front) behind := by
  have hchars : p.chars ≠ [] := by cases p <;> simp [chars]
  rw [placeholderBehind_cons]
  obtain ⟨tail, rfl, rfl⟩ | ⟨tail, hp, rfl⟩ := List.append_eq_append_iff.mp hsplit.symm
  · have hapart : p.chars ++ tail ≠ [] := by simp [hchars]
    simp only [hapart, false_and, false_or, List.append_cancel_left_eq, exists_eq_left',
      hrest tail behind rfl, List.append_assoc]
  · cases front with
    | nil =>
        obtain rfl : p.chars = tail := hp
        simp [hhere, hchars]
    | cons c front =>
        cases tail with
        | nil =>
            rw [List.append_nil] at hp
            have hnil := hrest [] rest rfl
            rw [List.append_nil, hp] at hnil
            simp [← hp, hchars, hnil]
        | cons d tail =>
            have hnot := hinside _ _ hp (by simp) (by simp)
            have hshort : ∀ front', c :: front ≠ p.chars ++ front' := by
              intro front' heq
              rw [hp] at heq
              simpa using congrArg List.length heq
            simpa [hshort] using hnot

/-- A piece of one character has no inside. -/
theorem placeholderBehind_single {p : Piece} {c : Char} (hc : p.chars = [c])
    {before rest : List Char}
    (hhere : p.isPlaceholder = true ↔ StartsBetween before (c :: rest))
    (hrest : ∀ front behind, front ++ behind = rest →
      (PlaceholderBehind front ps ↔ StartsBetween (before ++ [c] ++ front) behind))
    {front behind : List Char} (hsplit : front ++ behind = c :: rest) :
    PlaceholderBehind front (p :: ps) ↔ StartsBetween (before ++ front) behind := by
  refine placeholderBehind_step rest (by rwa [hc]) (fun a b heq ha hb => ?_)
    (by rwa [hc]) (by rwa [hc])
  have hlength := congrArg List.length (hc.symm.trans heq)
  have := List.length_pos_of_ne_nil ha
  have := List.length_pos_of_ne_nil hb
  simp only [List.length_append, List.length_singleton] at hlength
  omega

theorem isQuote_of_open {before : List Char} {q : Char}
    (h : before.foldl Text.openQuote none = some q) : Text.isQuote q = true := by
  have hfold : ∀ (cs : List Char) (quote : Option Char), (∀ q ∈ quote, Text.isQuote q = true) →
      ∀ q ∈ cs.foldl Text.openQuote quote, Text.isQuote q = true := by
    intro cs
    induction cs with
    | nil => exact fun _ h => h
    | cons c cs ih => exact fun quote h => ih _ (isQuote_openQuote h c)
  exact hfold before none (by simp) q h

/-- The scan stands between two parts of a text: it knows the open quote, and no pair of colons
lies across the two. -/
structure Between (quote : Option Char) (before after : List Char) : Prop where
  open_eq : before.foldl Text.openQuote none = quote
  apart : quote = none → awaitsColon before = true → after.head? ≠ some ':'

/-- The placeholders among the pieces stand where placeholders start. -/
theorem Scans.placeholders (h : Scans quote cs ps) {before : List Char}
    (hbetween : Between quote before cs) {front behind : List Char} (hsplit : front ++ behind = cs) :
    PlaceholderBehind front ps ↔ StartsBetween (before ++ front) behind := by
  induction h generalizing before front behind with
  | done =>
      obtain ⟨rfl, rfl⟩ := List.append_eq_nil_iff.mp hsplit
      simp [PlaceholderBehind, StartsBetween]
  | @quoted q c rest ps next ih =>
      have hopen := hbetween.open_eq
      refine placeholderBehind_single rfl ?_ (fun front behind hsplit => ih ⟨?_, ?_⟩ hsplit) hsplit
      · simp [isPlaceholder, StartsBetween, Closed, hopen]
      · simp [hopen]
      · intro hclosed hawaits
        obtain rfl : c = q := by simpa [Text.openQuote] using hclosed
        have hquote := isQuote_of_open hopen
        obtain rfl : c = ':' := by simp_all
        simp [Text.isQuote] at hquote
  | @plain c rest ps unmarked next ih =>
      have hopen := hbetween.open_eq
      simp only [isMark, Bool.or_eq_false_iff, beq_eq_false_iff_ne] at unmarked
      refine placeholderBehind_single rfl ?_ (fun front behind hsplit => ih ⟨?_, ?_⟩ hsplit) hsplit
      · simp [isPlaceholder, StartsBetween, unmarked]
      · simp [hopen]
      · simp [unmarked]
  | @cast rest ps next ih =>
      have hopen := hbetween.open_eq
      have hawaits : awaitsColon before = false := by
        by_contra h
        exact hbetween.apart rfl (by simpa using h) rfl
      refine placeholderBehind_single rfl ?_ (fun front behind hsplit =>
        placeholderBehind_single rfl ?_ (fun front behind hsplit => ih ⟨?_, ?_⟩ hsplit) hsplit) hsplit
      · simp [isPlaceholder, StartsBetween, Text.isIdentifierStart]
      · simp [isPlaceholder, StartsBetween, hawaits]
      · simp [hopen, Text.openQuote, Text.isQuote]
      · simp only [awaitsColon_append, hawaits]
        simp
  | @colon rest ps alone next ih =>
      have hopen := hbetween.open_eq
      refine placeholderBehind_single rfl ?_ (fun front behind hsplit => ih ⟨?_, ?_⟩ hsplit) hsplit
      · simp only [isPlaceholder, Bool.false_eq_true, false_iff]
        rintro ⟨-, ⟨_, heq⟩ | ⟨c, behind, heq, hstart, -⟩⟩
        · cases heq
        · obtain ⟨-, rfl⟩ := List.cons.inj heq
          simp [joinsColon, hstart] at alone
      · simp [hopen, Text.openQuote, Text.isQuote]
      · rintro - - hhead
        simp [joinsColon, hhead] at alone
  | @named name rest ps identifier maximal next ih =>
      have hopen := hbetween.open_eq
      refine placeholderBehind_step _ ?_ ?_ (fun front behind hsplit => ih ⟨?_, ?_⟩ hsplit) hsplit
      · have hawaits : awaitsColon before = false := by
          by_contra h
          exact hbetween.apart rfl (by simpa using h) rfl
        obtain ⟨c, others, hname, hstart⟩ := exists_start identifier
        simp only [isPlaceholder, true_iff]
        exact ⟨hopen, .inr ⟨c, others ++ rest, by simp [chars, hname], hstart, hawaits⟩⟩
      · intro a b hchars ha hb
        obtain ⟨first, a, rfl⟩ := List.exists_cons_of_ne_nil ha
        obtain ⟨c, b, rfl⟩ := List.exists_cons_of_ne_nil hb
        have hmem : c ∈ name.toList := by simp [(List.cons.inj hchars).2]
        exact not_startsBetween_of_part (Text.isIdentifierPart_of_mem identifier hmem)
      · rw [List.foldl_append, hopen]
        exact closed_name identifier
      · exact fun _ hawaits => absurd (awaitsColon_name identifier before) (by simp_all [chars])
  | @positional rest ps next ih =>
      have hopen := hbetween.open_eq
      refine placeholderBehind_single rfl ?_ (fun front behind hsplit => ih ⟨?_, ?_⟩ hsplit) hsplit
      · simp [isPlaceholder, StartsBetween, Closed, hopen]
      · simp [hopen, Text.openQuote, Text.isQuote]
      · simp

end Piece

end QueryCompiler
