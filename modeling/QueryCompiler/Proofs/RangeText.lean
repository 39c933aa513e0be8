import QueryCompiler.Proofs.RangeGrammar
import QueryCompiler.Proofs.WrittenOperator

/-!
# Text with range tests

The text of an operator is parsed from the texts of its operands. Since every level of suffixes
associates to the left, one lemma serves them all: a text that is parsed on a level may be followed
there by a suffix. Only a range test needs more than its contexts provide, namely bounds that are
parsed on the level below its own.
-/
namespace QueryCompiler

variable {b : Builtin}

namespace Parses

variable {k k' : Nat} {i m r : List Lexeme} {s t : Tree} {ts : List Tree}

theorem mono (h : Parses b (.expr k) i [t] r) (hle : k ≤ k') : Parses b (.expr k') i [t] r := by
  induction hle with
  | refl => exact h
  | step _ ih => exact .tighter ih .stop

theorem rest_continued (h : Parses b (.rest k s) i [t] m) (hrest : Parses b (.rest k t) m ts r) :
    Parses b (.rest k s) i ts r := by
  generalize hphrase : Phrase.rest k s = phrase, hout : [t] = out at h
  induction h generalizing k s with
  | stop =>
      obtain ⟨⟩ := hphrase
      obtain ⟨⟩ := hout
      exact hrest
  | behind hs hlevel hwords h _ _ ih =>
      obtain ⟨⟩ := hphrase
      exact .behind hs hlevel hwords h (ih hrest rfl hout)
  | field | param | constant | group | leading | tighter | operand | nothing | list | bounds | last
  | more => cases hphrase

/-- On a level without leading operators an expression may be continued behind its end. -/
theorem continued (hlevel : ∀ rule ∈ Rule.all, rule.form = .leading → rule.level ≠ k + 1)
    (h : Parses b (.expr (k + 1)) i [t] m) (hrest : Parses b (.rest (k + 1) t) m ts r) :
    Parses b (.expr (k + 1)) i ts r := by
  cases h with
  | leading hrule hform hsame =>
      exact absurd hsame (hlevel _ (Builtin.mem_all_of_mem_rules hrule) hform)
  | tighter h hrest' => exact .tighter h (hrest'.rest_continued hrest)

end Parses

namespace Operator

/-- What the compiler writes behind an operator that follows its first operand. -/
def tail? (op : Operator) : Option Tail :=
  match op.arity with
  | .unaryPostfix => some .nothing
  | .binary => some .operand
  | .inList => some .items
  | .ternary => some .bounds
  | .nullary | .unaryPrefix | .variadic | .vendor => none

/-- An operator that follows its first operand leaves that operand on its own level or below, where
no leading operator stands. -/
theorem level_of_tail {op : Operator} (hop : op ∈ all) {tail : Tail} (htail : op.tail? = some tail) :
    leftContext op.rank ≤ op.rank ∧ ∃ k, contextLevel op.rank = k + 1 ∧
      ∀ rule ∈ Rule.all, rule.form = .leading → rule.level ≠ k + 1 := by
  have hall : ∀ op ∈ all, op.tail?.isSome = true →
      leftContext op.rank ≤ op.rank ∧ contextLevel op.rank ≠ 0 ∧
        ∀ rule ∈ Rule.all, rule.form = .leading → rule.level ≠ contextLevel op.rank := by
    decide +kernel
  obtain ⟨hcontext, hzero, hleading⟩ := hall op hop (by rw [htail]; rfl)
  obtain ⟨k, hk⟩ := Nat.exists_eq_succ_of_ne_zero hzero
  rw [hk] at hleading
  exact ⟨hcontext, k, hk, hleading⟩

/-- The right operand of a binary operator is a level below it. -/
theorem level_of_binary {op : Operator} (hop : op ∈ all) (harity : op.arity = .binary) :
    contextLevel op.rank = contextLevel (rightContext op.rank) + 1 := by
  have hall : ∀ op ∈ all, op.arity = .binary →
      contextLevel op.rank = contextLevel (rightContext op.rank) + 1 := by
    decide +kernel
  exact hall op hop harity

theorem level_of_ternary {op : Operator} (hop : op ∈ all) (harity : op.arity = .ternary) :
    contextLevel op.rank = contextLevel (leftContext op.rank) + 1 := by
  have hall : ∀ op ∈ all, op.arity = .ternary →
      contextLevel op.rank = contextLevel (leftContext op.rank) + 1 := by
    decide +kernel
  exact hall op hop harity

end Operator

/-- An operator that follows its first operand is spelled in words that the grammar knows. -/
structure Suffixed (b : Builtin) (op : Operator) (tail : Tail) (name : String)
    (words : List Lexeme) : Prop where
  suffix : (⟨op.name, contextLevel op.rank, tail⟩, words) ∈ b.suffixes
  lexemes : Lexeme.ofChars name.toList = words
  closed : Closed name.toList

theorem suffixed {op : Operator} (hop : op ∈ Operator.all) {tail : Tail}
    (htail : op.tail? = some tail) {name : String}
    (hname : b.dialect.operatorName op.name = some name) :
    ∃ words, Suffixed b op tail name words := by
  have hsuffixes : ∀ op ∈ Operator.all, ∀ tail ∈ op.tail?,
      ⟨op.name, contextLevel op.rank, tail⟩ ∈ Suffix.all := by decide +kernel
  obtain ⟨hlexemes, hquiet⟩ := lexemes_operatorName hop hname
  refine ⟨_, List.mem_filterMap.mpr ⟨_, hsuffixes op hop tail htail, ?_⟩, hlexemes,
    closed_of_quiet hquiet⟩
  rw [hname, Option.map_some]

theorem closed_blank {cs : List Char} (h : Closed cs) : Closed (' ' :: cs) :=
  closed_append (a := [' ']) rfl h

theorem closed_parenthesized {cs : List Char} (h : Closed cs) : Closed ('(' :: (cs ++ [')'])) :=
  closed_append (a := ['(']) rfl (closed_append h (b := [')']) rfl)

theorem Lexeme.ofChars_boolWord (value : Bool) :
    ofChars (boolWord value).toList = [.key (boolWord value)] := by
  cases value <;> decide +kernel

/-- The text of a tree in a context of a rank: it is parsed on the level of that context. -/
structure Legible (b : Builtin) (rank : Nat) (tree : Tree) (cs : List Char) : Prop where
  closed : Closed cs
  parses : ∀ r, Parses b (.expr (contextLevel rank)) (Lexeme.ofChars cs ++ r) [tree] r
  noExists : rank < 39 → ¬ StartsExists (Lexeme.ofChars cs)

namespace Legible

variable {rank context : Nat} {tree : Tree} {cs : List Char}

theorem mono (h : Legible b rank tree cs) (hle : rank ≤ context) : Legible b context tree cs where
  closed := h.closed
  parses r := (h.parses r).mono (contextLevel_mono hle)
  noExists hlt := h.noExists (Nat.lt_of_le_of_lt hle hlt)

theorem parenthesized (h : Legible b rank tree cs) :
    Legible b 0 tree ('(' :: (cs ++ [')'])) where
  closed := closed_parenthesized h.closed
  parses r := by
    have hinner := (h.parses (.closing :: r)).mono (contextLevel_le rank)
    rw [Lexeme.ofChars_parenthesized h.closed, List.cons_append, List.append_assoc]
    exact .group hinner
  noExists _ := by
    rw [Lexeme.ofChars_parenthesized h.closed]
    rintro ⟨r, hr⟩
    cases hr

theorem wrap {sql : Sql} (h : Legible b rank tree sql.chars) (context : Nat) :
    Legible b context tree (Operator.wrap rank context sql).chars := by
  unfold Operator.wrap
  split
  · rw [Sql.chars_parenthesized]
    exact h.parenthesized.mono (Nat.zero_le context)
  · exact h.mono (by omega)

/-- A word that is parsed by itself is legible everywhere. -/
theorem of_word {s : String} {l : Lexeme} (h : IsWord s l)
    (hparses : ∀ r, Parses b (.expr 0) (l :: r) [tree] r) (hkey : l ≠ .key "EXISTS") :
    Legible b 0 tree s.toList where
  closed := closed_of_quiet h.quiet
  parses r := by
    rw [h.ofChars]
    exact hparses r
  noExists _ := by
    rw [h.ofChars]
    rintro ⟨r, hr⟩
    exact hkey (Option.some.inj hr)

/-- The constant that a test for membership in an empty list is written as. -/
theorem constant (value : Bool) :
    Legible b 0 (.op (boolWord value) []) (boolWord value).toList where
  closed := by cases value <;> rfl
  parses r := by
    rw [Lexeme.ofChars_boolWord]
    refine .constant ?_
    cases value
    · exact .inr rfl
    · exact .inl rfl
  noExists _ := by
    have hword : boolWord value ≠ "EXISTS" := by cases value <;> decide
    rw [Lexeme.ofChars_boolWord]
    rintro ⟨r, hr⟩
    exact hword (Lexeme.key.inj (Option.some.inj hr))

section Operators

variable {op : Operator} {name : String} {words : List Lexeme} {cs' : List Char}

theorem leading (hop : op ∈ Operator.all) (hs : Spelled b op .leading name words)
    (h : Legible b op.rank tree cs) :
    Legible b op.rank (.op op.name [tree]) (name.toList ++ ' ' :: cs) where
  closed := closed_append hs.matched.closed (closed_blank h.closed)
  parses r := by
    have hlong := hs.longest hop h.noExists r
    rw [hs.ofChars_front, List.append_assoc]
    exact .leading hs.rule rfl rfl rfl hlong (h.parses r)
  noExists hlt := by
    rw [hs.ofChars_front]
    exact hs.not_startsExists hop hlt _

/-- An operator behind its first operand, with what its tail is parsed as. -/
theorem behind {tail : Tail} (hop : op ∈ Operator.all) (htail : op.tail? = some tail)
    (hs : Suffixed b op tail name words) (h : Legible b (Operator.leftContext op.rank) tree cs)
    (hclosed : Closed cs') (hdelimited : Delimited cs') {trees : List Tree}
    (htrees : ∀ k r, contextLevel op.rank = k + 1 →
      Parses b (.tail k tail) (Lexeme.ofChars cs' ++ r) trees r) :
    Legible b op.rank (.op op.name (tree :: trees)) (cs ++ ' ' :: (name.toList ++ cs')) := by
  obtain ⟨hcontext, k, hk, hleading⟩ := Operator.level_of_tail hop htail
  have hlexemes : Lexeme.ofChars (cs ++ ' ' :: (name.toList ++ cs')) =
      Lexeme.ofChars cs ++ (words ++ Lexeme.ofChars cs') := by
    rw [Lexeme.ofChars_spaced h.closed, Lexeme.ofChars_append hs.closed hdelimited, hs.lexemes]
  refine ⟨?_, fun r => ?_, fun hlt hexists => ?_⟩
  · exact closed_append h.closed (closed_blank (closed_append hs.closed hclosed))
  · have hfirst := (h.mono hcontext).parses (words ++ (Lexeme.ofChars cs' ++ r))
    rw [hlexemes, List.append_assoc, List.append_assoc]
    rw [hk] at hfirst ⊢
    exact hfirst.continued hleading (.behind hs.suffix hk rfl (htrees k r hk) .stop)
  · rw [hlexemes] at hexists
    exact h.noExists (by omega) hexists.front

theorem trailing (hop : op ∈ Operator.all) (harity : op.arity = .unaryPostfix)
    (hs : Suffixed b op .nothing name words)
    (h : Legible b (Operator.leftContext op.rank) tree cs) :
    Legible b op.rank (.op op.name [tree]) (cs ++ ' ' :: name.toList) := by
  have hclosed : Closed [] := rfl
  have hdelimited : Delimited [] := fun c hc => by cases hc
  have hnothing : ∀ k r, contextLevel op.rank = k + 1 →
      Parses b (.tail k .nothing) (Lexeme.ofChars [] ++ r) [] r := fun _ _ _ => .nothing
  have hbehind := h.behind hop (by simp [Operator.tail?, harity]) hs hclosed hdelimited hnothing
  simpa using hbehind

variable {right : Tree}

theorem binary (hop : op ∈ Operator.all) (harity : op.arity = .binary)
    (hs : Suffixed b op .operand name words)
    (h : Legible b (Operator.leftContext op.rank) tree cs)
    (h' : Legible b (Operator.rightContext op.rank) right cs') :
    Legible b op.rank (.op op.name [tree, right]) (cs ++ ' ' :: (name.toList ++ ' ' :: cs')) := by
  refine h.behind hop (by simp [Operator.tail?, harity]) hs (closed_blank h'.closed)
    (by rintro c ⟨⟩; rfl) fun k r hk => ?_
  have hlevel := Operator.level_of_binary hop harity
  obtain rfl : contextLevel (Operator.rightContext op.rank) = k := by omega
  exact .operand (h'.parses r)

/-- A range test whose bounds are as tight as its subject. -/
theorem between (hop : op ∈ Operator.all) (harity : op.arity = .ternary)
    (hs : Suffixed b op .bounds name words)
    (h : Legible b (Operator.leftContext op.rank) tree cs) {low high : Tree}
    {lows highs : List Char} (hlow : Legible b (Operator.leftContext op.rank) low lows)
    (hhigh : Legible b (Operator.leftContext op.rank) high highs) :
    Legible b op.rank (.op op.name [tree, low, high])
      (cs ++ ' ' :: (name.toList ++ ' ' :: (lows ++ ' ' :: ("AND".toList ++ ' ' :: highs)))) := by
  have hand : Closed "AND".toList := rfl
  have hlexemes : Lexeme.ofChars (' ' :: (lows ++ ' ' :: ("AND".toList ++ ' ' :: highs))) =
      Lexeme.ofChars lows ++ .key "AND" :: Lexeme.ofChars highs := by
    have hkey : Lexeme.ofChars "AND".toList = [.key "AND"] := by decide +kernel
    rw [Lexeme.ofChars_blank, Lexeme.ofChars_spaced hlow.closed, Lexeme.ofChars_spaced hand, hkey]
    rfl
  have hclosed : Closed (lows ++ ' ' :: ("AND".toList ++ ' ' :: highs)) :=
    closed_append hlow.closed (closed_blank (closed_append hand (closed_blank hhigh.closed)))
  refine h.behind hop (by simp [Operator.tail?, harity]) hs (closed_blank hclosed)
    (by rintro c ⟨⟩; rfl) fun k r hk => ?_
  have hlevel := Operator.level_of_ternary hop harity
  obtain rfl : contextLevel (Operator.leftContext op.rank) = k := by omega
  rw [hlexemes, List.append_assoc]
  exact .bounds (hlow.parses _) (hhigh.parses r)

end Operators

/-! Lists in parentheses. -/

section Lists

variable {sqls : List Sql} {trees : List Tree}
  (h : List.Forall₂ (fun sql tree => Legible b Operator.loosest tree sql.chars) sqls trees)

include h

theorem closed_items : Closed (Sql.intercalate ", " sqls).chars := by
  induction h with
  | nil => rfl
  | @cons sql tree sqls trees hfirst hrest ih =>
      cases sqls with
      | nil => exact hfirst.closed
      | cons next rest =>
          rw [Sql.chars_intercalate]
          exact closed_append hfirst.closed (closed_append (a := (", " : String).toList) rfl ih)

theorem parses_items (hne : sqls ≠ []) (r : List Lexeme) :
    Parses b .items (Lexeme.ofChars (Sql.intercalate ", " sqls).chars ++ .closing :: r) trees r := by
  induction h with
  | nil => exact absurd rfl hne
  | @cons sql tree sqls trees hfirst hrest ih =>
      cases sqls with
      | nil =>
          cases hrest
          exact .last (hfirst.parses _)
      | cons next rest =>
          have hcomma : (", " : String).toList ++ (Sql.intercalate ", " (next :: rest)).chars =
              ',' :: ' ' :: (Sql.intercalate ", " (next :: rest)).chars := rfl
          rw [Sql.chars_intercalate, hcomma,
            Lexeme.ofChars_append hfirst.closed (by rintro c ⟨⟩; rfl),
            Lexeme.ofChars_comma, Lexeme.ofChars_blank, List.append_assoc]
          exact .more (hfirst.parses _) (ih (by simp))

end Lists

theorem listed {op : Operator} (hop : op ∈ Operator.all) (harity : op.arity = .inList)
    {name : String} {words : List Lexeme} (hs : Suffixed b op .items name words)
    (h : Legible b (Operator.leftContext op.rank) tree cs) {sqls : List Sql} {trees : List Tree}
    (hitems : List.Forall₂ (fun sql tree => Legible b Operator.loosest tree sql.chars) sqls trees)
    (hne : sqls ≠ []) :
    Legible b op.rank (.op op.name (tree :: trees))
      (cs ++ ' ' :: (name.toList ++ ' ' ::
        '(' :: ((Sql.intercalate ", " sqls).chars ++ [')']))) := by
  have hclosed := closed_items hitems
  refine h.behind hop (by simp [Operator.tail?, harity]) hs
    (closed_blank (closed_parenthesized hclosed)) (by rintro c ⟨⟩; rfl) fun k r _ => ?_
  rw [Lexeme.ofChars_blank, Lexeme.ofChars_parenthesized hclosed, List.cons_append,
    List.append_assoc]
  exact .list (parses_items hitems hne r)

end Legible

end QueryCompiler
