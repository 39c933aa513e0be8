import QueryCompiler.Proofs.ExprReading
import QueryCompiler.Proofs.SealedText

/-!
# The compiler's own text

Of what the compiler writes itself, around the operands and between the clauses, it is known which
parentheses it opens and closes, and that it asks for no parameter: no question mark of it stands
outside quotes.
-/
namespace QueryCompiler

def isQuestion (c : Char) : Bool := c == '?'

/-- A text that closes its quotes, and no question mark of it stands outside of them. -/
abbrev Unasking (s : String) : Prop := Quiet isQuestion s

/-- A text of the compiler, which leads from one number of open parentheses to another. -/
structure OwnText (k l : Nat) (s : String) : Prop where
  spans : Spans k l s
  unasking : Unasking s

instance (k l : Nat) : DecidablePred (OwnText k l) := fun s =>
  decidable_of_iff (Spans k l s ∧ Unasking s) ⟨fun h => ⟨h.1, h.2⟩, fun h => ⟨h.1, h.2⟩⟩

variable {k l m : Nat} {s t : String}

theorem unasking_of_calm (h : Calm s) : Unasking s := by
  refine quiet_mono (fun c hc => ?_) h
  simp only [isMark, Bool.or_eq_false_iff] at hc
  exact hc.2

theorem OwnText.append (hs : OwnText k l s) (ht : OwnText l m t) : OwnText k m (s ++ t) :=
  ⟨hs.spans.append ht.spans, hs.unasking.append ht.unasking⟩

/-- More parentheses around such a text make no difference to it. -/
theorem OwnText.raise (h : OwnText 0 0 s) (k : Nat) : OwnText k k s :=
  ⟨IsSealed.spans h.spans k, h.unasking⟩

theorem ownText_of_calm (hspans : Spans k l s) (hcalm : Calm s) : OwnText k l s :=
  ⟨hspans, unasking_of_calm hcalm⟩

/-! Words and numbers. -/

theorem ownText_int (n : Int) : OwnText 0 0 (toString n) :=
  ownText_of_calm (isSealed_int n) (calm_int n)

theorem ownText_float (x : Float) : OwnText 0 0 (Decimal.floatText x) :=
  ownText_of_calm (isSealed_float x) (calm_floatText x)

theorem ownText_boolWord (b : Bool) : OwnText 0 0 (boolWord b) := by
  cases b <;> decide

theorem ownText_function {name : String} (h : (Text.dotParts name).all Text.isIdentifier = true) :
    OwnText 0 0 name.toUpper :=
  ownText_of_calm (isSealed_function h) (calm_function h)

theorem ownText_operator (op : Operator) (h : op ∈ Operator.all) : OwnText 0 0 op.name :=
  ownText_of_calm (isSealed_operator op h) (calm_operatorNames op h)

theorem ownText_absorbing (op : String) : OwnText 0 0 ((absorbing? op).getD "NULL") := by
  unfold absorbing?
  split <;> decide

theorem ownText_identity (op : String) : OwnText 0 0 ((Operator.identity? op).getD "NULL") := by
  unfold Operator.identity?
  split <;> decide

namespace Builtin

variable (b : Builtin)

theorem ownText_limitOffset (limit offset : Option Nat) :
    OwnText 0 0 (b.dialect.limitOffset limit offset) :=
  ownText_of_calm (b.isSealed_limitOffset limit offset) (b.tame.limitOffset limit offset).1

/-- Names, columns and rows are the compiler's own, as far as they are not written as they stand. -/
theorem composes_ownText : b.dialect.Composes (OwnText 0 0) where
  append := OwnText.append
  group hs := (OwnText.append (by decide : OwnText 0 1 "(") (hs.raise 1)).append (by decide)
  word := by decide
  quoteIdentifier name :=
    ownText_of_calm (b.isSealed_quoteIdentifier name) (b.tame.quoteIdentifier name)
  quoteValue v := ownText_of_calm (b.isSealed_quoteValue v) (b.tame.quoteValue v)

theorem composes_unasking : b.dialect.Composes Unasking where
  append := Quiet.append
  group hs := (Quiet.append (by decide : Unasking "(") hs).append (by decide)
  word := by decide
  quoteIdentifier name := (b.composes_ownText.quoteIdentifier name).unasking
  quoteValue v := (b.composes_ownText.quoteValue v).unasking

end Builtin

theorem ownText_joinType (kind : JoinType) : OwnText 0 0 kind.display := by
  refine (Builtin.composes_ownText .postgres).intercalate (by decide) ?_
  obtain ⟨cross, natural, side, outer⟩ := kind
  obtain _ | side := side
  · cases cross <;> cases natural <;> cases outer <;> decide
  · cases side <;> cases cross <;> cases natural <;> cases outer <;> decide

end QueryCompiler
