import Mathlib.Data.List.TakeWhile
import QueryCompiler.Proofs.IdentifierText
import QueryCompiler.Proofs.TokenText

/-!
# Tokens and the gaps between them

A text is cut into tokens exactly where it consists of tokens with gaps between them, each a run of
blanks, and of any blanks around them. A token is a text that is cut into itself: it is passed over
as a whole, whatever stands behind the blank that ends it.
-/
namespace QueryCompiler.Field

open Text (EndsPart isSeparator)

/-- A text that is cut into itself. -/
def IsToken (s : String) : Prop := tokenize s = .ok [s]

/-- A run of blanks. -/
def IsGap (s : String) : Prop := s ≠ "" ∧ ∀ c ∈ s.toList, isSeparator c = true

/-- Texts one after another with gaps between them. -/
inductive Spaced : List String → String → Prop where
  | none : Spaced [] ""
  | single {part : String} : Spaced [part] part
  | cons {part next gap behind : String} {others : List String} (hgap : IsGap gap)
      (h : Spaced (next :: others) behind) : Spaced (part :: next :: others) (part ++ gap ++ behind)

/-! Cutting a text. -/

def Blank (cs : List Char) : Prop := ∀ c ∈ cs, isSeparator c = true

/-- A text that a place leads over without cutting it. -/
def Unbroken (place : Place) (cs : List Char) : Prop := cut place cs = some [cs]

/-- The tokens of a text, as characters. -/
def charTokens? (cs : List Char) : Option (List (List Char)) :=
  (cut (.plain 0) cs).map fun parts => parts.filter fun part => !part.isEmpty

variable {place : Place} {c : Char} {cs token rest : List Char} {parts others : List (List Char)}

theorem cut_separator (h : isSeparator c = true) (rest : List Char) :
    cut (.plain 0) (c :: rest) = (cut (.plain 0) rest).map ([] :: ·) := by
  rw [cut, if_pos (by simp [Place.isOpen, h])]
  rfl

/-- A character that is not cut at is the first one of the first part. -/
theorem cut_cons_eq_some (h : (!place.isOpen && isSeparator c) = false) :
    cut place (c :: rest) = some parts ↔ ∃ after others, place.next true c = some after ∧
      cut after rest = some others ∧ extendFirst c others = parts := by
  rw [cut, if_neg (by simp [h])]
  simp [Option.bind_eq_some_iff]

theorem cut_ne_nil (h : cut place cs = some parts) : parts ≠ [] := by
  obtain ⟨token, rest, rfl, -⟩ := closes_of_cut h
  exact List.cons_ne_nil token rest

theorem unbroken_nil_iff : Unbroken place [] ↔ place = .plain 0 := by
  constructor
  · intro h
    rw [Unbroken, cut] at h
    split at h
    · cases h
    · exact Place.eq_of_closed (by simpa using ‹¬ place.isOpen = true›)
  · rintro rfl
    rfl

/-- A text is passed over character by character, none of which it is cut at. -/
theorem unbroken_cons_iff : Unbroken place (c :: cs) ↔
    (!place.isOpen && isSeparator c) = false ∧
      ∃ after, place.next true c = some after ∧ Unbroken after cs := by
  cases hcut : !place.isOpen && isSeparator c with
  | true =>
      obtain ⟨hclosed, hc⟩ := Bool.and_eq_true_iff.mp hcut
      obtain rfl := Place.eq_of_closed (by simpa using hclosed)
      simp [Unbroken, cut_separator hc]
  | false =>
      rw [Unbroken, cut_cons_eq_some hcut]
      constructor
      · rintro ⟨after, others, hnext, hothers, heq⟩
        obtain ⟨part, tail, rfl⟩ := List.exists_cons_of_ne_nil (cut_ne_nil hothers)
        cases heq
        exact ⟨rfl, after, hnext, hothers⟩
      · rintro ⟨-, after, hnext, hbehind⟩
        exact ⟨after, [cs], hnext, hbehind, rfl⟩

/-- Cutting begins with a text that is passed over, up to the first cut. -/
theorem cut_eq_some_cons (h : cut place cs = some (token :: others)) :
    Unbroken place token ∧ ((cs = token ∧ others = []) ∨
      ∃ c rest, cs = token ++ c :: rest ∧ isSeparator c = true ∧
        cut (.plain 0) rest = some others) := by
  induction cs generalizing place token with
  | nil =>
      have hcut := h
      rw [cut] at h
      split at h
      · cases h
      · cases h
        exact ⟨hcut, .inl ⟨rfl, rfl⟩⟩
  | cons c cs ih =>
      cases hcut : !place.isOpen && isSeparator c with
      | true =>
          obtain ⟨hclosed, hc⟩ := Bool.and_eq_true_iff.mp hcut
          obtain rfl := Place.eq_of_closed (by simpa using hclosed)
          rw [cut_separator hc, Option.map_eq_some_iff] at h
          obtain ⟨parts, hparts, heq⟩ := h
          cases heq
          exact ⟨rfl, .inr ⟨c, cs, rfl, hc, hparts⟩⟩
      | false =>
          obtain ⟨after, parts, hnext, hparts, heq⟩ := (cut_cons_eq_some hcut).mp h
          obtain ⟨first, tail, rfl⟩ := List.exists_cons_of_ne_nil (cut_ne_nil hparts)
          cases heq
          obtain ⟨hfirst, hbehind⟩ := ih hparts
          refine ⟨unbroken_cons_iff.mpr ⟨hcut, after, hnext, hfirst⟩, ?_⟩
          obtain ⟨rfl, rfl⟩ | ⟨c', rest, rfl, hc', hrest⟩ := hbehind
          · exact .inl ⟨rfl, rfl⟩
          · exact .inr ⟨c', rest, rfl, hc', hrest⟩

/-- What stands behind a token has no part in it. -/
theorem cut_append (htoken : Unbroken place token) (h : isSeparator c = true) (rest : List Char) :
    cut place (token ++ c :: rest) = (cut (.plain 0) rest).map (token :: ·) := by
  -- The induction is on the token: at its end the scan stands where every text starts.
  induction token generalizing place with
  | nil =>
      obtain rfl := unbroken_nil_iff.mp htoken
      exact cut_separator h rest
  | cons first token ih =>
      obtain ⟨hcut, after, hnext, hbehind⟩ := unbroken_cons_iff.mp htoken
      rw [List.cons_append, cut, if_neg (by simp [hcut]), hnext, Option.bind_eq_bind,
        Option.bind_some, ih hbehind]
      cases cut (.plain 0) rest <;> rfl

/-! Tokens one after another. -/

theorem charTokens?_separator (h : isSeparator c = true) (rest : List Char) :
    charTokens? (c :: rest) = charTokens? rest := by
  rw [charTokens?, cut_separator h, Option.map_map]
  rfl

theorem charTokens?_blank {blanks : List Char} (h : Blank blanks) (rest : List Char) :
    charTokens? (blanks ++ rest) = charTokens? rest := by
  induction blanks with
  | nil => rfl
  | cons c blanks ih =>
      obtain ⟨hc, hblanks⟩ := List.forall_mem_cons.mp h
      rw [List.cons_append, charTokens?_separator hc, ih hblanks]

theorem charTokens?_append (htoken : Unbroken (.plain 0) token) (hne : token ≠ [])
    (hrest : EndsPart rest) :
    charTokens? (token ++ rest) = (charTokens? rest).map (token :: ·) := by
  have hkept : (!token.isEmpty) = true := by simpa using hne
  cases rest with
  | nil =>
      rw [List.append_nil, charTokens?, htoken, Option.map_some, List.filter_cons, if_pos hkept]
      rfl
  | cons c rest =>
      rw [charTokens?_separator (hrest c rfl), charTokens?, cut_append htoken (hrest c rfl),
        charTokens?, Option.map_map, Option.map_map]
      congr 1
      funext parts
      simp only [Function.comp_apply, List.filter_cons, hkept, if_true]

/-- A text has no tokens and is blank, or has blanks, its first token and the others behind it. -/
theorem charTokens?_cases (h : charTokens? cs = some parts) : (parts = [] ∧ Blank cs) ∨
    ∃ blanks token rest others, cs = blanks ++ (token ++ rest) ∧ parts = token :: others ∧
      Blank blanks ∧ token ≠ [] ∧ Unbroken (.plain 0) token ∧ EndsPart rest ∧
      charTokens? rest = some others := by
  induction cs with
  | nil =>
      obtain rfl : [] = parts := Option.some.inj h
      exact .inl ⟨rfl, fun c hc => absurd hc List.not_mem_nil⟩
  | cons c cs ih =>
      cases hc : isSeparator c with
      | true =>
          rw [charTokens?_separator hc] at h
          obtain ⟨rfl, hblank⟩ | ⟨blanks, token, rest, others, rfl, hparts, hblanks, hrest⟩ := ih h
          · exact .inl ⟨rfl, List.forall_mem_cons.mpr ⟨hc, hblank⟩⟩
          · exact .inr ⟨c :: blanks, token, rest, others, rfl, hparts,
              List.forall_mem_cons.mpr ⟨hc, hblanks⟩, hrest⟩
      | false =>
          obtain ⟨pieces, hcut, rfl⟩ := Option.map_eq_some_iff.mp h
          obtain ⟨token, others, rfl⟩ := List.exists_cons_of_ne_nil (cut_ne_nil hcut)
          obtain ⟨htoken, ⟨rfl, rfl⟩ | ⟨c', rest, heq, hc', hrest⟩⟩ := cut_eq_some_cons hcut
          · exact .inr ⟨[], c :: cs, [], [], (List.append_nil _).symm, rfl,
              fun c hc => absurd hc List.not_mem_nil, List.cons_ne_nil c cs, htoken, nofun, rfl⟩
          · have hne : token ≠ [] := by
              rintro rfl
              obtain ⟨rfl, -⟩ := List.cons.inj heq
              rw [hc] at hc'
              cases hc'
            have hkept : (!token.isEmpty) = true := by simpa using hne
            refine .inr ⟨[], token, c' :: rest, others.filter fun part => !part.isEmpty, heq, ?_,
              fun c hc => absurd hc List.not_mem_nil, hne, htoken, ?_, ?_⟩
            · simp only [List.filter_cons, hkept, if_true]
            · rintro _ ⟨⟩
              exact hc'
            · rw [charTokens?_separator hc', charTokens?, hrest, Option.map_some]

/-! A token does not end with a blank. -/

/-- A place whose quotes, if any, are not blanks. -/
def Place.IsUsual : Place → Prop
  | plain _ => True
  | quoted quote _ => isSeparator quote = false

theorem Place.IsUsual.next {inToken : Bool} {after : Place} (h : place.IsUsual)
    (hnext : place.next inToken c = some after) : after.IsUsual := by
  cases place with
  | quoted quote depth =>
      rw [Place.next] at hnext
      split at hnext <;> cases hnext
      · trivial
      · exact h
  | plain depth =>
      simp only [Place.next] at hnext
      split at hnext
      · cases hnext
        trivial
      · split at hnext
        · split at hnext <;> cases hnext
          trivial
        · split at hnext <;> cases hnext
          · rename_i hquote
            simp only [opensQuotes, Bool.or_eq_true, Bool.and_eq_true, beq_iff_eq] at hquote
            obtain (rfl | rfl) | ⟨-, rfl⟩ := hquote <;> rfl
          · trivial

/-- Inside quotes or parentheses a blank changes nothing. -/
theorem next_separator {inToken : Bool} (h : place.IsUsual) (hc : isSeparator c = true) :
    place.next inToken c = some place := by
  cases place with
  | quoted quote depth =>
      have hne : c ≠ quote := by
        rintro rfl
        rw [Place.IsUsual, hc] at h
        cases h
      rw [Place.next, if_neg hne]
  | plain depth =>
      have hcases : ((c = ' ' ∨ c = '\t') ∨ c = '\r') ∨ c = '\n' := by simpa [isSeparator] using hc
      obtain ((rfl | rfl) | rfl) | rfl := hcases <;> simp [Place.next, opensQuotes]

theorem not_unbroken_append (h : place.IsUsual) (hc : isSeparator c = true) :
    ¬ Unbroken place (cs ++ [c]) := by
  induction cs generalizing place with
  | nil =>
      intro htoken
      obtain ⟨hcut, after, hnext, hend⟩ := unbroken_cons_iff.mp htoken
      obtain rfl := unbroken_nil_iff.mp hend
      obtain rfl := Option.some.inj ((next_separator h hc).symm.trans hnext)
      rw [hc] at hcut
      cases hcut
  | cons first cs ih =>
      intro htoken
      obtain ⟨-, after, hnext, hbehind⟩ := unbroken_cons_iff.mp htoken
      exact ih (h.next hnext) hbehind

/-! Tokens of a text. -/

theorem tokenize_eq_ok {text : String} {tokens : List String} :
    tokenize text = .ok tokens ↔ charTokens? text.toList = some (tokens.map String.toList) := by
  have htokens : tokens? text = (charTokens? text.toList).map (·.map String.ofList) := by
    rw [charTokens?, Option.map_map]
    rfl
  have hback : ∀ parts : List (List Char),
      parts.map String.ofList = tokens ↔ parts = tokens.map String.toList := by
    intro parts
    constructor
    · rintro rfl
      simp [Function.comp_def]
    · rintro rfl
      simp [Function.comp_def]
  unfold tokenize
  rw [htokens]
  cases charTokens? text.toList with
  | none => simp
  | some parts => simp [hback]

theorem isToken_iff {s : String} : IsToken s ↔ s ≠ "" ∧ Unbroken (.plain 0) s.toList := by
  rw [IsToken, tokenize_eq_ok, List.map_singleton]
  constructor
  · intro h
    obtain ⟨hnil, -⟩ | ⟨_, token, _, _, -, hparts, -, hne, htoken, -⟩ := charTokens?_cases h
    · cases hnil
    · obtain ⟨rfl, -⟩ := List.cons.inj hparts
      exact ⟨fun hs => hne (by rw [hs]; rfl), htoken⟩
  · rintro ⟨hne, htoken⟩
    have hread : charTokens? (s.toList ++ []) = (charTokens? []).map (s.toList :: ·) :=
      charTokens?_append htoken (fun hnil => hne (String.toList_eq_nil_iff.mp hnil)) nofun
    rwa [List.append_nil] at hread

/-! Blanks around a text. -/

/-- A text without blanks at its ends. -/
def IsTrimmed (cs : List Char) : Prop :=
  (∀ c ∈ cs.head?, isSeparator c = false) ∧ ∀ c ∈ cs.getLast?, isSeparator c = false

theorem dropWhile_blank {blanks : List Char} (h : Blank blanks)
    (hcs : ∀ c ∈ cs.head?, isSeparator c = false) :
    (blanks ++ cs).dropWhile isSeparator = cs := by
  rw [List.dropWhile_append_of_pos h]
  cases cs with
  | nil => rfl
  | cons c cs => exact List.dropWhile_cons_of_neg (by simp [hcs c rfl])

theorem trim_of_blanks {text s : String} {before after : List Char} (hs : IsTrimmed s.toList)
    (htext : text.toList = before ++ (s.toList ++ after)) (hbefore : Blank before)
    (hafter : Blank after) : Text.trim isSeparator text = s := by
  rw [Text.trim, Text.trimStart, Text.trimEnd, htext]
  cases hchars : s.toList with
  | nil =>
      have hblank : (before ++ ([] ++ after)).dropWhile isSeparator = [] := by
        rw [List.dropWhile_eq_nil_iff, List.nil_append]
        exact fun c hc => (List.mem_append.mp hc).elim (hbefore c) (hafter c)
      rw [hblank]
      exact (String.toList_eq_nil_iff.mp hchars).symm
  | cons first rest =>
      rw [hchars] at hs
      have hreversed : Blank after.reverse := fun c hc => hafter c (List.mem_reverse.mp hc)
      have hstart : (before ++ (first :: rest ++ after)).dropWhile isSeparator =
          first :: rest ++ after := dropWhile_blank hbefore fun c hc => hs.1 c hc
      have hend : ∀ c ∈ (first :: rest).reverse.head?, isSeparator c = false := by
        rw [List.head?_reverse]
        exact hs.2
      rw [hstart, List.reverse_append, dropWhile_blank hreversed hend, List.reverse_reverse,
        ← hchars, String.ofList_toList]

theorem exists_blanks (text : String) : ∃ before after, Blank before ∧ Blank after ∧
    text.toList = before ++ ((Text.trim isSeparator text).toList ++ after) := by
  refine ⟨text.toList.takeWhile isSeparator,
    ((text.toList.dropWhile isSeparator).reverse.takeWhile isSeparator).reverse,
    fun c hc => List.mem_takeWhile_imp hc,
    fun c hc => List.mem_takeWhile_imp (List.mem_reverse.mp hc), ?_⟩
  rw [Text.trim, Text.trimStart, Text.trimEnd, String.toList_ofList, ← List.reverse_append,
    List.takeWhile_append_dropWhile, List.reverse_reverse, List.takeWhile_append_dropWhile]

/-! Tokens and gaps. -/

theorem IsToken.ne_nil {s : String} (h : IsToken s) : s.toList ≠ [] := fun hnil =>
  (isToken_iff.mp h).1 (String.toList_eq_nil_iff.mp hnil)

theorem IsToken.isTrimmed {s : String} (h : IsToken s) : IsTrimmed s.toList := by
  obtain ⟨-, htoken⟩ := isToken_iff.mp h
  constructor
  · intro c hc
    obtain ⟨rest, hs⟩ := List.head?_eq_some_iff.mp hc
    rw [hs] at htoken
    exact (unbroken_cons_iff.mp htoken).1
  · intro c hc
    obtain ⟨front, hs⟩ := List.getLast?_eq_some_iff.mp hc
    rw [hs] at htoken
    by_contra hblank
    have husual : (Place.plain 0).IsUsual := trivial
    exact not_unbroken_append husual (by simpa using hblank) htoken

theorem isTrimmed_of_spaced {tokens : List String} {s : String} (h : Spaced tokens s)
    (htokens : ∀ token ∈ tokens, IsToken token) :
    (tokens ≠ [] → s.toList ≠ []) ∧ IsTrimmed s.toList := by
  induction h with
  | none => exact ⟨fun h => absurd rfl h, nofun, nofun⟩
  | single =>
      have htoken := htokens _ List.mem_cons_self
      exact ⟨fun _ => htoken.ne_nil, htoken.isTrimmed⟩
  | @cons part next gap behind others hgap hbehind ih =>
      obtain ⟨hpart, hothers⟩ := List.forall_mem_cons.mp htokens
      obtain ⟨hne, htrimmed⟩ := ih hothers
      have hlast : behind.toList ≠ [] := hne (List.cons_ne_nil _ _)
      have hchars : (part ++ gap ++ behind).toList =
          part.toList ++ (gap.toList ++ behind.toList) := by simp
      rw [hchars]
      refine ⟨fun _ => by simp [hpart.ne_nil], ?_, ?_⟩
      · rw [List.head?_append_of_ne_nil _ hpart.ne_nil]
        exact hpart.isTrimmed.1
      · rw [List.getLast?_append_of_ne_nil _ (by simp [hlast]),
          List.getLast?_append_of_ne_nil _ hlast]
        exact htrimmed.2

theorem endsPart_append {blanks : List Char} (h : Blank blanks) (hne : blanks ≠ [])
    (rest : List Char) : EndsPart (blanks ++ rest) := by
  intro c hc
  rw [List.head?_append_of_ne_nil _ hne] at hc
  exact h c (List.mem_of_head? hc)

/-- Tokens with gaps between them are read from left to right. -/
theorem charTokens?_of_spaced {tokens : List String} {s : String} (h : Spaced tokens s)
    (htokens : ∀ token ∈ tokens, IsToken token) {after : List Char} (hafter : Blank after) :
    charTokens? (s.toList ++ after) = some (tokens.map String.toList) := by
  have hend : charTokens? after = some [] := by
    rw [← List.append_nil after, charTokens?_blank hafter]
    rfl
  induction h with
  | none => exact hend
  | single =>
      have htoken := htokens _ List.mem_cons_self
      rw [charTokens?_append (isToken_iff.mp htoken).2 htoken.ne_nil
        (fun c hc => hafter c (List.mem_of_head? hc)), hend]
      rfl
  | @cons part next gap behind others hgap hbehind ih =>
      obtain ⟨hpart, hothers⟩ := List.forall_mem_cons.mp htokens
      have hne : gap.toList ≠ [] := fun hnil => hgap.1 (String.toList_eq_nil_iff.mp hnil)
      have hchars : (part ++ gap ++ behind).toList ++ after =
          part.toList ++ (gap.toList ++ (behind.toList ++ after)) := by simp
      rw [hchars, charTokens?_append (isToken_iff.mp hpart).2 hpart.ne_nil
        (endsPart_append hgap.2 hne _), charTokens?_blank hgap.2, ih hothers]
      rfl

theorem spaced_of_charTokens? {tokens : List String}
    (h : charTokens? cs = some (tokens.map String.toList)) :
    (∀ token ∈ tokens, IsToken token) ∧ ∃ before s after, cs = before ++ (s.toList ++ after) ∧
      Blank before ∧ Blank after ∧ Spaced tokens s := by
  induction tokens generalizing cs with
  | nil =>
      obtain ⟨-, hblank⟩ | ⟨_, _, _, _, -, hparts, -⟩ := charTokens?_cases h
      · exact ⟨nofun, [], "", cs, rfl, nofun, hblank, .none⟩
      · cases hparts
  | cons token tokens ih =>
      obtain ⟨hnil, -⟩ |
        ⟨blanks, part, rest, others, rfl, hparts, hblanks, hne, hpart, hends, hrest⟩ :=
        charTokens?_cases h
      · cases hnil
      obtain ⟨rfl, rfl⟩ := List.cons.inj hparts
      have htoken : IsToken token := isToken_iff.mpr ⟨fun hs => hne (by rw [hs]; rfl), hpart⟩
      obtain ⟨htokens, before, s, after, rfl, hbefore, hafter, hspaced⟩ := ih hrest
      refine ⟨List.forall_mem_cons.mpr ⟨htoken, htokens⟩, ?_⟩
      cases tokens with
      | nil =>
          cases hspaced
          exact ⟨blanks, token, before ++ after, rfl, hblanks,
            fun c hc => (List.mem_append.mp hc).elim (hbefore c) (hafter c), .single⟩
      | cons next tokens =>
          obtain ⟨hs, htrimmed⟩ := isTrimmed_of_spaced hspaced htokens
          have hgap : IsGap (String.ofList before) := by
            -- Without a gap the first token would have gone on with the second one.
            refine ⟨fun hempty => ?_, by rwa [String.toList_ofList]⟩
            obtain rfl : before = [] := by simpa using hempty
            obtain ⟨c, cs, hchars⟩ := List.exists_cons_of_ne_nil (hs (List.cons_ne_nil _ _))
            have hblank := hends c (by simp [hchars])
            rw [htrimmed.1 c (by simp [hchars])] at hblank
            cases hblank
          exact ⟨blanks, token ++ String.ofList before ++ s, after, by simp, hblanks, hafter,
            .cons hgap hspaced⟩

/-- The tokens of a text are those of which it consists, but for the blanks around it. -/
theorem tokenize_iff_spaced {text : String} {tokens : List String} : tokenize text = .ok tokens ↔
    Spaced tokens (Text.trim isSeparator text) ∧ ∀ token ∈ tokens, IsToken token := by
  rw [tokenize_eq_ok]
  constructor
  · intro h
    obtain ⟨htokens, before, s, after, htext, hbefore, hafter, hspaced⟩ := spaced_of_charTokens? h
    rw [trim_of_blanks (isTrimmed_of_spaced hspaced htokens).2 htext hbefore hafter]
    exact ⟨hspaced, htokens⟩
  · rintro ⟨hspaced, htokens⟩
    obtain ⟨before, after, hbefore, hafter, htext⟩ := exists_blanks text
    rw [htext, charTokens?_blank hbefore]
    exact charTokens?_of_spaced hspaced htokens hafter

end QueryCompiler.Field
