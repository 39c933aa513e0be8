import QueryCompiler.Proofs.GrammarUnambiguity
import QueryCompiler.Proofs.WrittenText

/-!
# Written operators

An operator is written from the texts of its operands, each in the context that the operator sets
for it. The whole then fits into the context of the operator itself.
-/
namespace QueryCompiler

/-- The place among its operands at which the compiler writes an operator. -/
def Operator.form? (op : Operator) : Option Form :=
  match op.arity with
  | .unaryPrefix => some .leading
  | .unaryPostfix => some .trailing
  | .binary => some (if contextLevel op.rank = 6 then .between else .chained)
  | .variadic => some .chained
  | .inList => some .listed
  | .nullary | .ternary | .vendor => none

/-- An operator is spelled in words that the grammar knows. -/
structure Spelled (b : Builtin) (op : Operator) (form : Form) (name : String)
    (words : List Lexeme) : Prop where
  rule : (⟨op.name, contextLevel op.rank, form⟩, words) ∈ b.rules
  lexemes : Lexeme.ofChars name.toList = words
  quiet : quietFrom isParenthesis none name.toList = true

/-- The spelling of an operator consists of key words. -/
theorem lexemes_operatorName {b : Builtin} {op : Operator} (hop : op ∈ Operator.all) {name : String}
    (hname : b.dialect.operatorName op.name = some name) :
    Lexeme.ofChars name.toList = (Text.words (· == ' ') name).map Lexeme.key ∧
      quietFrom isParenthesis none name.toList = true := by
  have hwords : ∀ b : Builtin, (Operator.all.all fun op =>
      (b.dialect.operatorName op.name).all fun name =>
        Lexeme.ofChars name.toList == (Text.words (· == ' ') name).map Lexeme.key &&
          quietFrom isParenthesis none name.toList) = true := by
    intro b
    cases b <;> decide +kernel
  have hname' := List.all_eq_true.mp (hwords b) op hop
  simpa only [hname, Option.all_some, Bool.and_eq_true, beq_iff_eq] using hname'

theorem spelled {b : Builtin} {op : Operator} (hop : op ∈ Operator.all) {form : Form}
    (hform : op.form? = some form) {name : String}
    (hname : b.dialect.operatorName op.name = some name) : ∃ words, Spelled b op form name words := by
  have hrules : ∀ op ∈ Operator.all, ∀ form ∈ op.form?,
      ⟨op.name, contextLevel op.rank, form⟩ ∈ Rule.all := by decide +kernel
  obtain ⟨hlexemes, hquiet⟩ := lexemes_operatorName hop hname
  refine ⟨_, List.mem_filterMap.mpr ⟨_, hrules op hop form hform, ?_⟩, hlexemes, hquiet⟩
  rw [hname, Option.map_some]

namespace Operator

theorem isVariadic_of_variadic {op : Operator} (hop : op ∈ all) (h : op.arity = .variadic) :
    Tree.isVariadic op.name = true :=
  List.any_eq_true.mpr ⟨op, hop, by simp [h]⟩

/-- An operator behind its only operand, or in front of a list, is looser than that operand. -/
theorem leftContext_of_behind {op : Operator} (hop : op ∈ all)
    (h : op.arity = .unaryPostfix ∨ op.arity = .inList) :
    leftContext op.rank ≤ op.rank ∧
      contextLevel op.rank = contextLevel (leftContext op.rank) + 1 := by
  have hall : ∀ op ∈ all, op.arity = .unaryPostfix ∨ op.arity = .inList →
      leftContext op.rank ≤ op.rank ∧
        contextLevel op.rank = contextLevel (leftContext op.rank) + 1 := by
    decide +kernel
  exact hall op hop h

/-- The place of an operator in the table is its rank. -/
theorem eq_of_rank {op op' : Operator} (hop : op ∈ all) (hop' : op' ∈ all)
    (h : op.rank = op'.rank) : op = op' := by
  have hall : ∀ op ∈ all, all[op.rank]? = some op := by decide +kernel
  have hsame := hall op hop
  rw [h, hall op' hop'] at hsame
  exact (Option.some.inj hsame).symm

end Operator

theorem StartsExists.front {ls ls' : List Lexeme} (h : StartsExists (ls ++ ls')) :
    StartsExists ls := by
  obtain ⟨r, hr⟩ := h
  exact ⟨ls' ++ r, by rwa [← List.append_assoc]⟩

theorem Lexeme.ofChars_spaced {a : List Char} (ha : Closed a) (b : List Char) :
    ofChars (a ++ ' ' :: b) = ofChars a ++ ofChars b := by
  rw [ofChars_append ha (by rintro c ⟨⟩; rfl), ofChars_blank]

theorem matched_blank {cs : List Char} (h : Matched cs) : Matched (' ' :: cs) :=
  Matched.append (a := [' ']) (matched_of_quiet rfl) h

/-- Only `EXISTS` starts with its word, and only `NOT` is the single word it is. -/
theorem rules_exists {b : Builtin} {rule : Rule} {words : List Lexeme}
    (h : (rule, words) ∈ b.rules) :
    (words.head? = some (.key "EXISTS") → rule.name = "EXISTS") ∧
      (words = [.key "NOT"] → rule.name = "NOT") := by
  have hall : ∀ b : Builtin, (b.rules.all fun x =>
      (x.2.head? != some (.key "EXISTS") || x.1.name == "EXISTS") &&
        (x.2 != [.key "NOT"] || x.1.name == "NOT")) = true := by
    intro b
    cases b <;> decide +kernel
  have hrule := List.all_eq_true.mp (hall b) _ h
  simp only [Bool.and_eq_true, Bool.or_eq_true, bne_iff_ne, beq_iff_eq] at hrule
  tauto

namespace Spelled

variable {b : Builtin} {op : Operator} {form : Form} {name : String} {words : List Lexeme}
  (h : Spelled b op form name words)

include h

theorem not_startsExists (hop : op ∈ Operator.all) (hlt : op.rank < 39) (ls : List Lexeme) :
    ¬ StartsExists (words ++ ls) := by
  have hrank : ∀ op ∈ Operator.all, op.name = "EXISTS" → op.rank = 39 := by decide +kernel
  obtain ⟨w, others, rfl⟩ := Builtin.rules_words h.rule
  rintro ⟨r, hr⟩
  have hname := hrank op hop ((rules_exists h.rule).1 hr)
  omega

theorem longest (hop : op ∈ Operator.all) {ls : List Lexeme}
    (hls : op.rank < 39 → ¬ StartsExists ls) (r : List Lexeme) : Longest words (ls ++ r) := by
  have hrank : ∀ op ∈ Operator.all, op.name = "NOT" → op.rank < 39 := by decide +kernel
  intro hnot hexists
  exact hls (hrank op hop ((rules_exists h.rule).2 hnot)) ⟨r, hexists⟩

theorem matched : Matched name.toList := matched_of_quiet h.quiet

theorem ofChars_front (cs : List Char) :
    Lexeme.ofChars (name.toList ++ ' ' :: cs) = words ++ Lexeme.ofChars cs := by
  rw [Lexeme.ofChars_spaced h.matched.closed, h.lexemes]

end Spelled

namespace Fits

variable {b : Builtin} {op : Operator}

/-- The text of an operator that is not variadic. -/
theorem of_operator (hop : op ∈ Operator.all) (harity : op.arity ≠ .variadic) {tree : Tree}
    {cs : List Char} (hmatched : Matched cs) (hextended : ∀ rest, enclosed (cs ++ rest) = false)
    (hreads : ∃ t, b.ReadsAs (contextLevel op.rank) (Lexeme.ofChars cs) t ∧
      t.merged = tree.merged)
    (hexists : op.rank < 39 → ¬ StartsExists (Lexeme.ofChars cs)) : Fits b op.rank tree cs where
  matched := hmatched
  extended rest _ := hextended rest
  reads := hreads
  whole henclosed := by
    have hnot := hextended []
    rw [List.append_nil, henclosed] at hnot
    cases hnot
  chain op' hop' harity' hrank := by
    obtain rfl := Operator.eq_of_rank hop' hop hrank
    exact absurd harity' harity
  noExists := hexists

variable {tree left right whole : Tree} {cs cs' : List Char} {name : String} {words : List Lexeme}

/-- The text of an operator that is not variadic, behind its first operand. -/
theorem of_front (hop : op ∈ Operator.all) (harity : op.arity ≠ .variadic) {rank : Nat}
    (h : Fits b rank tree cs) (hrank : rank ≤ op.rank) (hmatched : Matched cs')
    (hreads : ∀ t, b.ReadsAs (contextLevel rank) (Lexeme.ofChars cs) t → t.merged = tree.merged →
      ∃ u, b.ReadsAs (contextLevel op.rank) (Lexeme.ofChars cs ++ Lexeme.ofChars cs') u ∧
        u.merged = whole.merged) :
    Fits b op.rank whole (cs ++ ' ' :: cs') := by
  have hlexemes := Lexeme.ofChars_spaced h.matched.closed cs'
  refine of_operator hop harity (h.matched.append (matched_blank hmatched)) (fun rest => ?_) ?_ ?_
  · rw [List.append_assoc]
    exact h.extended _ (by simp)
  · obtain ⟨t, ht, hmerged⟩ := h.reads
    rw [hlexemes]
    exact hreads t ht hmerged
  · intro hlt hexists
    rw [hlexemes] at hexists
    exact h.noExists (by omega) hexists.front

theorem leading (hop : op ∈ Operator.all) (harity : op.arity = .unaryPrefix)
    (hs : Spelled b op .leading name words) (h : Fits b op.rank tree cs) :
    Fits b op.rank (.op op.name [tree]) (name.toList ++ ' ' :: cs) := by
  have hother : op.arity ≠ .variadic := by simp [harity]
  refine of_operator hop hother (hs.matched.append (matched_blank h.matched)) (fun rest => ?_) ?_ ?_
  · have hquiet : quietFrom isParenthesis none (name.toList ++ [' ']) = true := by
      rw [quietFrom_append hs.quiet]
      rfl
    have hfront := enclosed_of_quiet hquiet (by simp) (cs ++ rest)
    simpa using hfront
  · obtain ⟨t, hreads, hmerged⟩ := h.reads
    rw [hs.ofChars_front]
    exact ⟨_, Builtin.ReadsAs.leading hs.rule rfl (hs.longest hop h.noExists) hreads,
      Tree.merged_op_congr _ (by simp [hmerged])⟩
  · intro hlt
    rw [hs.ofChars_front]
    exact hs.not_startsExists hop hlt _

theorem trailing (hop : op ∈ Operator.all) (harity : op.arity = .unaryPostfix)
    (hs : Spelled b op .trailing name words) (h : Fits b (Operator.leftContext op.rank) tree cs) :
    Fits b op.rank (.op op.name [tree]) (cs ++ ' ' :: name.toList) := by
  obtain ⟨hcontext, hlevel⟩ := Operator.leftContext_of_behind hop (.inl harity)
  refine of_front hop (by simp [harity]) h hcontext hs.matched fun t hreads hmerged => ?_
  rw [hs.lexemes, hlevel]
  exact ⟨_, hreads.trailing hs.rule rfl hlevel, Tree.merged_op_congr _ (by simp [hmerged])⟩

theorem binary (hop : op ∈ Operator.all) (harity : op.arity = .binary) {form : Form}
    (hform : op.form? = some form) (hs : Spelled b op form name words)
    (h : Fits b (Operator.leftContext op.rank) left cs)
    (h' : Fits b (Operator.rightContext op.rank) right cs') :
    Fits b op.rank (.op op.name [left, right]) (cs ++ ' ' :: (name.toList ++ ' ' :: cs')) := by
  have hall : ∀ op ∈ Operator.all, op.arity = .binary →
      Operator.leftContext op.rank ≤ op.rank ∧
        contextLevel op.rank = contextLevel (Operator.rightContext op.rank) + 1 ∧
        if contextLevel op.rank = 6 then
          contextLevel op.rank = contextLevel (Operator.leftContext op.rank) + 1
        else contextLevel (Operator.leftContext op.rank) = contextLevel op.rank ∧
          IsChain (contextLevel op.rank) := by
    decide +kernel
  obtain ⟨hcontext, hright, hleft⟩ := hall op hop harity
  refine of_front hop (by simp [harity]) h hcontext (hs.matched.append (matched_blank h'.matched))
    fun t hreads hmerged => ?_
  obtain ⟨t', hreads', hmerged'⟩ := h'.reads
  have hsame : (Tree.op op.name [t, t']).merged = (Tree.op op.name [left, right]).merged :=
    Tree.merged_op_congr _ (by simp [hmerged, hmerged'])
  refine ⟨_, ?_, hsame⟩
  rw [hs.ofChars_front]
  simp only [Operator.form?, harity, Option.some.injEq] at hform
  split at hleft
  · rename_i hsix
    rw [if_pos hsix] at hform
    subst hform
    rw [hright] at hleft
    rw [← Nat.succ.inj hleft] at hreads
    rw [hright]
    exact hreads.between hs.rule rfl hright hreads'
  · rename_i hsix
    rw [if_neg hsix] at hform
    subst hform
    obtain ⟨hleft, hchain⟩ := hleft
    rw [hleft, hright] at hreads
    rw [hright] at hchain ⊢
    exact hreads.chained hs.rule rfl hright hchain hreads'

/-- A further operand in front of a chain of a variadic operator. -/
theorem link (hop : op ∈ Operator.all) (harity : op.arity = .variadic)
    (hs : Spelled b op .chained name words) (h : Fits b op.rank tree cs) {trees : List Tree}
    (h' : Fits b op.rank (.op op.name trees) cs') :
    Fits b op.rank (.op op.name (tree :: trees)) (cs ++ ' ' :: (name.toList ++ ' ' :: cs')) := by
  have hvariadic := Operator.isVariadic_of_variadic hop harity
  have hall : ∀ op ∈ Operator.all, op.arity = .variadic →
      contextLevel op.rank ≠ 0 ∧ IsChain (contextLevel op.rank) := by decide +kernel
  obtain ⟨hzero, hchain⟩ := hall op hop harity
  obtain ⟨k, hk⟩ : ∃ k, contextLevel op.rank = k + 1 := ⟨_, (Nat.succ_pred hzero).symm⟩
  have hlexemes : Lexeme.ofChars (cs ++ ' ' :: (name.toList ++ ' ' :: cs')) =
      Lexeme.ofChars cs ++ (words ++ Lexeme.ofChars cs') := by
    rw [Lexeme.ofChars_spaced h.matched.closed, hs.ofChars_front]
  have hparts : (Tree.op op.name (tree :: trees)).merged.parts op.name =
      tree.merged.parts op.name ++ (Tree.op op.name trees).merged.parts op.name := by
    rw [Tree.parts_merged_op hvariadic, Tree.parts_merged_op hvariadic, List.flatMap_cons]
  have hchains : ∃ ts, Chain b ⟨op.name, contextLevel op.rank, .chained⟩ words
      (Lexeme.ofChars cs ++ (words ++ Lexeme.ofChars cs')) ts ∧
        (ts.flatMap fun t => t.merged.parts op.name) =
          (Tree.op op.name (tree :: trees)).merged.parts op.name := by
    obtain ⟨ts, hts, hmerged⟩ := h.chain op hop harity rfl _ words hs.rule rfl
    obtain ⟨ts', hts', hmerged'⟩ := h'.chain op hop harity rfl _ words hs.rule rfl
    refine ⟨ts ++ ts', hts.append hk (hk ▸ hchain) hts', ?_⟩
    rw [hparts, List.flatMap_append, hmerged, hmerged']
  have hextended : ∀ rest, enclosed (cs ++ ' ' :: (name.toList ++ ' ' :: cs') ++ rest) = false := by
    intro rest
    rw [List.append_assoc]
    exact h.extended _ (by simp)
  refine ⟨?_, fun rest _ => hextended rest, ?_, fun henclosed => ?_, ?_, ?_⟩
  · exact h.matched.append (matched_blank (hs.matched.append (matched_blank h'.matched)))
  · obtain ⟨ts, hts, hmerged⟩ := hchains
    rw [hlexemes]
    refine ⟨_, hts.start, Tree.merged_eq_of_parts hvariadic ?_⟩
    rw [Tree.parts_chained hvariadic, hmerged]
  · have hnot := hextended []
    rw [List.append_nil, henclosed] at hnot
    cases hnot
  · intro op' hop' _ hrank rule words' hrule heq
    obtain rfl := Operator.eq_of_rank hop' hop hrank
    subst heq
    obtain rfl := Builtin.rules_spelling hrule hs.rule
    rwa [hlexemes]
  · intro hlt hexists
    rw [hlexemes] at hexists
    exact h.noExists hlt hexists.front

end Fits

theorem Sql.chars_intercalate (separator : String) (part next : Sql) (rest : List Sql) :
    (intercalate separator (part :: next :: rest)).chars =
      part.chars ++ (separator.toList ++ (intercalate separator (next :: rest)).chars) := by
  rw [intercalate, chars_append, chars_append, chars_ofString, List.append_assoc]

namespace Fits

variable {b : Builtin} {op : Operator} {name : String} {words : List Lexeme} {tree : Tree}
  {cs : List Char}

/-- A variadic operator with one operand is that operand. -/
theorem alone (hop : op ∈ Operator.all) (harity : op.arity = .variadic) {rank : Nat}
    (h : Fits b rank tree cs) : Fits b rank (.op op.name [tree]) cs := by
  have hvariadic := Operator.isVariadic_of_variadic hop harity
  refine h.congr (Tree.merged_eq_of_parts hvariadic ?_)
  rw [Tree.parts_merged_op hvariadic, List.flatMap_singleton]

theorem chain_of_forall (hop : op ∈ Operator.all) (harity : op.arity = .variadic)
    (hs : Spelled b op .chained name words) {sqls : List Sql} {trees : List Tree}
    (h : List.Forall₂ (fun sql tree => Fits b op.rank tree sql.chars) sqls trees)
    (hne : sqls ≠ []) :
    Fits b op.rank (.op op.name trees) (Sql.intercalate (" " ++ name ++ " ") sqls).chars := by
  induction h with
  | nil => exact absurd rfl hne
  | @cons sql tree sqls trees hfirst hrest ih =>
      cases sqls with
      | nil =>
          cases hrest
          exact hfirst.alone hop harity
      | cons next rest =>
          have hblanks : (" " ++ name ++ " ").toList = ' ' :: (name.toList ++ [' ']) := by simp
          have hlink := hfirst.link hop harity hs (ih (by simp))
          rw [Sql.chars_intercalate, hblanks, List.cons_append, List.append_assoc]
          exact hlink

/-- No text of an expression is a constant. -/
theorem ne_constant {rank : Nat} (h : Fits b rank tree cs) {w : String}
    (hw : w ∈ ["TRUE", "FALSE"]) : cs ≠ w.toList := by
  have hlexemes : ∀ w ∈ ["TRUE", "FALSE"], Lexeme.ofChars w.toList = [.key w] := by decide +kernel
  rintro rfl
  obtain ⟨t, hreads, _⟩ := h.reads
  have hwhole := hreads []
  rw [hlexemes w hw] at hwhole
  obtain ⟨x, hx, hform, _, hhead⟩ := hwhole.head_key rfl
  exact Builtin.rules_not_constant hx hform (by simpa using hw) hhead

end Fits

/-! Lists in parentheses. -/

section Lists

variable {b : Builtin} {sqls : List Sql} {trees : List Tree}
  (h : List.Forall₂ (fun sql tree => Fits b Operator.loosest tree sql.chars) sqls trees)

include h

theorem matched_items : Matched (Sql.intercalate ", " sqls).chars := by
  induction h with
  | nil => exact matched_of_quiet rfl
  | @cons sql tree sqls trees hfirst hrest ih =>
      cases sqls with
      | nil => exact hfirst.matched
      | cons next rest =>
          rw [Sql.chars_intercalate]
          exact hfirst.matched.append (.append (matched_of_quiet rfl) ih)

theorem ofChars_items : Lexeme.ofChars (Sql.intercalate ", " sqls).chars =
    itemsText (sqls.map fun sql => Lexeme.ofChars sql.chars) := by
  induction h with
  | nil => rfl
  | @cons sql tree sqls trees hfirst hrest ih =>
      cases sqls with
      | nil => rfl
      | cons next rest =>
          have hcomma : (", " : String).toList ++ (Sql.intercalate ", " (next :: rest)).chars =
              ',' :: ' ' :: (Sql.intercalate ", " (next :: rest)).chars := rfl
          rw [Sql.chars_intercalate, hcomma,
            Lexeme.ofChars_append hfirst.matched.closed (by rintro c ⟨⟩; rfl),
            Lexeme.ofChars_comma, Lexeme.ofChars_blank, ih]
          rfl

theorem reads_items_of_fits : ∃ ts,
    List.Forall₂ (b.ReadsAs Rule.loosest) (sqls.map fun sql => Lexeme.ofChars sql.chars) ts ∧
      ts.map Tree.merged = trees.map Tree.merged := by
  induction h with
  | nil => exact ⟨[], .nil, rfl⟩
  | cons hfirst hrest ih =>
      obtain ⟨t, hreads, hmerged⟩ := hfirst.reads
      obtain ⟨ts, hts, hall⟩ := ih
      exact ⟨t :: ts, .cons hreads hts, by rw [List.map_cons, List.map_cons, hmerged, hall]⟩

/-- The list with its parentheses. -/
theorem ofChars_list : Lexeme.ofChars ('(' :: ((Sql.intercalate ", " sqls).chars ++ [')'])) =
    .opening :: (itemsText (sqls.map fun sql => Lexeme.ofChars sql.chars) ++ [.closing]) := by
  rw [Lexeme.ofChars_parenthesized (matched_items h).closed, ofChars_items h]

end Lists

namespace Fits

variable {b : Builtin} {sqls : List Sql} {trees : List Tree}

theorem call {name : String} (hname : (Text.dotParts name).all Text.isIdentifier = true)
    (hword : isOperatorWord name = false)
    (h : List.Forall₂ (fun sql tree => Fits b Operator.loosest tree sql.chars) sqls trees) :
    Fits b 0 (.call (Text.dotParts name.toUpper) trees)
      (name.toUpper.toList ++ '(' :: ((Sql.intercalate ", " sqls).chars ++ [')'])) := by
  have hfunction := isWord_function hname hword
  have hquiet := parenthesis_of_delimiter hfunction.quiet
  have hlexemes : Lexeme.ofChars (name.toUpper.toList ++
      '(' :: ((Sql.intercalate ", " sqls).chars ++ [')'])) =
        .name (Text.dotParts name.toUpper) :: .opening ::
          (itemsText (sqls.map fun sql => Lexeme.ofChars sql.chars) ++ [.closing]) := by
    rw [Lexeme.ofChars_append (closed_of_quiet hquiet) (by rintro c ⟨⟩; rfl), hfunction.ofChars,
      ofChars_list h]
    rfl
  refine of_level_zero ?_ (fun rest _ => ?_) ?_ ?_
  · exact (matched_of_quiet hquiet).append (matched_items h).parenthesized
  · rw [List.append_assoc]
    exact enclosed_of_quiet hquiet hfunction.nonempty _
  · obtain ⟨ts, hts, hmerged⟩ := reads_items_of_fits h
    rw [hlexemes]
    refine ⟨_, Builtin.ReadsAs.call hts _, ?_⟩
    rw [Tree.merged_call, Tree.merged_call, hmerged]
  · rw [hlexemes]
    rintro ⟨r, hr⟩
    cases hr

theorem listed {op : Operator} (hop : op ∈ Operator.all) (harity : op.arity = .inList)
    {name : String} {words : List Lexeme} (hs : Spelled b op .listed name words) {tree : Tree}
    {cs : List Char} (h : Fits b (Operator.leftContext op.rank) tree cs)
    (hitems : List.Forall₂ (fun sql tree => Fits b Operator.loosest tree sql.chars) sqls trees)
    (hne : sqls ≠ []) :
    Fits b op.rank (.op op.name (tree :: trees))
      (cs ++ ' ' :: (name.toList ++ ' ' ::
        '(' :: ((Sql.intercalate ", " sqls).chars ++ [')']))) := by
  obtain ⟨hcontext, hlevel⟩ := Operator.leftContext_of_behind hop (.inr harity)
  refine of_front hop (by simp [harity]) h hcontext
    (hs.matched.append (matched_blank (matched_items hitems).parenthesized)) fun t hreads hmerged => ?_
  obtain ⟨ts, hts, hmergeds⟩ := reads_items_of_fits hitems
  rw [hs.ofChars_front, ofChars_list hitems, hlevel]
  exact ⟨_, hreads.listed hs.rule rfl hlevel hts (by simpa using hne),
    Tree.merged_op_congr _ (by rw [List.map_cons, List.map_cons, hmerged, hmergeds])⟩

end Fits

end QueryCompiler
