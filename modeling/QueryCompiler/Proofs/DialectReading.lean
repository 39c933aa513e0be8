import QueryCompiler.Proofs.ClauseText
import QueryCompiler.Proofs.SqlReading

/-!
# Dialects that add no placeholders

A tame dialect writes identifiers, values, operators and bounds as calm texts, and keeps the texts
safe that it puts around operands. The built-in dialects are tame.
-/
namespace QueryCompiler

open Sql (Safe safe_text)

structure Dialect.Tame (d : Dialect) : Prop where
  quoteIdentifier : ∀ name, Calm (d.quoteIdentifier name)
  quoteValue : ∀ v, Calm (d.quoteValue v)
  operatorName : ∀ op ∈ Operator.all, ∀ name, d.operatorName op.name = some name → Calm name
  limitOffset : ∀ limit offset,
    Calm (d.limitOffset limit offset) ∧ Breaks (d.limitOffset limit offset).toList
  markedNullKey : ∀ (H : String → Value → Prop) (key : Sql), Safe H key → Safe H (d.markedNullKey key)
  markedVendorOperator : ∀ (H : String → Value → Prop) (op : String) (operands : List Sql) (sql : Sql),
    (∀ operand ∈ operands, Safe H operand) → d.markedVendorOperator op operands = some (.ok sql) →
      Safe H sql

theorem Dialect.Tame.composes {d : Dialect} (hd : d.Tame) : d.Composes Calm where
  append := Quiet.append
  group hs := (Quiet.append (by decide) hs).append (by decide)
  word := by decide
  quoteIdentifier := hd.quoteIdentifier
  quoteValue := hd.quoteValue

section Vendor

variable {H : String → Value → Prop}

theorem safe_caseBranches {operands : List Sql} (h : ∀ operand ∈ operands, Safe H operand) :
    Safe H (caseBranches operands) ∧ Breaks (caseBranches operands).chars := by
  induction operands using caseBranches.induct with
  | case1 condition result rest ih =>
      obtain ⟨hrest, hbreaks⟩ := ih fun operand hmem => h operand (by simp [hmem])
      have hcondition := h condition (by simp)
      have hresult := h result (by simp)
      simp only [caseBranches, Sql.plain_eq_ofString, Sql.append_assoc]
      refine ⟨Safe.text_append (by decide) (hcondition.append ?_ ?_), ?_⟩
      · exact Safe.text_append (by decide) (hresult.append hrest hbreaks)
      · exact Sql.breaks_text_append (by decide) (by decide)
      · exact Sql.breaks_text_append (by decide) (by decide)
  | case2 otherwise =>
      simp only [caseBranches, Sql.plain_eq_ofString]
      exact ⟨Safe.text_append (by decide) (h otherwise (by simp)),
        Sql.breaks_text_append (by decide) (by decide)⟩
  | case3 => exact ⟨safe_text quiet_empty, Sql.breaks_text (by decide)⟩

theorem safe_buildCase {operands : List Sql} (h : ∀ operand ∈ operands, Safe H operand) {sql : Sql}
    (hsql : buildCase operands = .ok sql) : Safe H sql := by
  obtain ⟨hbranches, hbreaks⟩ := safe_caseBranches h
  unfold buildCase at hsql
  split at hsql
  · cases hsql
  · cases hsql
    simp only [Sql.plain_eq_ofString, Sql.append_assoc]
    exact Safe.text_append (by decide)
      (hbranches.append (safe_text (by decide)) (Sql.breaks_text (by decide)))

theorem safe_buildNativeIlike {operands : List Sql} (h : ∀ operand ∈ operands, Safe H operand)
    {sql : Sql} (hsql : buildNativeIlike operands = .ok sql) : Safe H sql := by
  match operands with
  | [] | [_] | _ :: _ :: _ :: _ => cases hsql
  | [left, right] =>
      cases hsql
      simp only [Sql.plain_eq_ofString, Sql.append_assoc]
      exact (h left (by simp)).append (Safe.text_append (by decide) (h right (by simp)))
        (Sql.breaks_text_append (by decide) (by decide))

theorem safe_buildLoweredIlike {operands : List Sql} (h : ∀ operand ∈ operands, Safe H operand)
    {sql : Sql} (hsql : buildLoweredIlike operands = .ok sql) : Safe H sql := by
  match operands with
  | [] | [_] | _ :: _ :: _ :: _ => cases hsql
  | [left, right] =>
      cases hsql
      simp only [Sql.plain_eq_ofString, Sql.append_assoc]
      refine Safe.text_append (by decide) ((h left (by simp)).append ?_ ?_)
      · exact Safe.text_append (by decide) ((h right (by simp)).append (safe_text (by decide))
          (Sql.breaks_text (by decide)))
      · exact Sql.breaks_text_append (by decide) (by decide)

theorem safe_defaultVendorOperator {ilike : List Sql → Except Fault Sql} {operands : List Sql}
    (h : ∀ operand ∈ operands, Safe H operand)
    (hilike : ∀ sql, ilike operands = .ok sql → Safe H sql) {op : String} {sql : Sql}
    (hsql : defaultVendorOperator ilike op operands = some (.ok sql)) : Safe H sql := by
  unfold defaultVendorOperator at hsql
  split at hsql
  · exact safe_buildCase h (Option.some.inj hsql)
  · split at hsql
    · exact hilike sql (Option.some.inj hsql)
    · cases hsql

theorem safe_isNullCall {key : Sql} (h : Safe H key) : Safe H (isNullCall key) := by
  simp only [isNullCall, Sql.plain_eq_ofString, Sql.append_assoc]
  exact Safe.text_append (by decide) (h.append (safe_text (by decide))
    (Sql.breaks_text (by decide)))

theorem safe_sqliteNullKey {key : Sql} (h : Safe H key) (blank : Bool) :
    Safe H (Dialect.sqliteNullKey blank key) := by
  unfold Dialect.sqliteNullKey
  split
  · simp only [Sql.plain_eq_ofString, Sql.append_assoc]
    exact Safe.text_append (by decide) (h.append (safe_text (by decide))
      (Sql.breaks_text (by decide)))
  · exact h.append (safe_text (by decide)) (Sql.breaks_text (by decide))

end Vendor

theorem calm_inlineValue {bool : Bool → String} {string : String → String}
    (hbool : ∀ b, Calm (bool b)) (hstring : ∀ s, Calm (string s)) (v : Value) :
    Calm (inlineValue bool string v) := by
  cases v with
  | null => exact (by decide : Calm "NULL")
  | bool b => exact hbool b
  | int n => exact calm_int n
  | float x => exact calm_floatText x
  | text s => exact hstring s

theorem calm_boolWord (b : Bool) : Calm (boolWord b) := by
  cases b <;> decide

theorem calm_boolDigit (b : Bool) : Calm (boolDigit b) := by
  cases b <;> decide

/-- A text that may stand behind a placeholder. -/
def Trailing (s : String) : Prop := Calm s ∧ Breaks s.toList

theorem Trailing.append {s t : String} (hs : Trailing s) (ht : Trailing t) : Trailing (s ++ t) := by
  refine ⟨hs.1.append ht.1, ?_⟩
  rw [String.toList_append]
  exact hs.2.append ht.2

theorem trailing_word {word s : String} (hword : Trailing word) (hne : word ≠ "") (hs : Calm s) :
    Trailing (word ++ s) := by
  refine ⟨hword.1.append hs, ?_⟩
  simpa using Sql.breaks_text_append (b := s) hne hword.2

instance : DecidablePred Trailing := fun _ => inferInstanceAs (Decidable (_ ∧ _))

theorem trailing_limitClause (limit offset : Option Nat) : Trailing (limitClause limit offset) := by
  refine Trailing.append ?_ ?_
  · cases limit with
    | none => decide
    | some n => exact trailing_word (by decide) (by decide) (calm_nat n)
  · cases offset with
    | none => decide
    | some n => exact trailing_word (by decide) (by decide) (calm_nat n)

theorem trailing_limitClauseWith {unlimited : String} (h : Calm unlimited)
    (limit offset : Option Nat) : Trailing (limitClauseWith unlimited limit offset) := by
  unfold limitClauseWith
  split
  · rename_i n
    rw [String.append_assoc, String.append_assoc]
    exact trailing_word (by decide) (by decide) (h.append (Quiet.append (by decide) (calm_nat n)))
  · exact trailing_limitClause _ _

theorem calm_operatorNames : ∀ op ∈ Operator.all, Calm op.name := by
  decide

theorem Dialect.tame_postgres : Dialect.postgres.Tame where
  quoteIdentifier := calm_quoteName rfl
  quoteValue := calm_inlineValue calm_boolWord (calm_enclose rfl)
  operatorName op hop name hname := by
    simp only [Dialect.postgres] at hname
    split at hname <;> cases hname
    · decide
    · exact calm_operatorNames op hop
  limitOffset := trailing_limitClause
  markedNullKey _ _ h := safe_isNullCall h
  markedVendorOperator _ _ _ _ h := safe_defaultVendorOperator h fun _ => safe_buildNativeIlike h

theorem Dialect.tame_mysql : Dialect.mysql.Tame where
  quoteIdentifier := calm_quoteName rfl
  quoteValue := calm_inlineValue calm_boolDigit calm_mysqlString
  operatorName op hop name hname := by
    simp only [Dialect.mysql] at hname
    split at hname <;> cases hname
    exact calm_operatorNames op hop
  limitOffset := trailing_limitClauseWith (by decide)
  markedNullKey _ _ h := safe_isNullCall h
  markedVendorOperator _ _ _ _ h := safe_defaultVendorOperator h fun _ => safe_buildLoweredIlike h

theorem Dialect.tame_sqlite : Dialect.sqlite.Tame where
  quoteIdentifier := calm_enclose rfl
  quoteValue := calm_inlineValue calm_boolDigit (calm_enclose rfl)
  operatorName op hop name hname := by
    cases hname
    exact calm_operatorNames op hop
  limitOffset := trailing_limitClauseWith (by decide)
  markedNullKey _ _ h := safe_sqliteNullKey h _
  markedVendorOperator _ _ _ _ h := safe_defaultVendorOperator h fun _ => safe_buildLoweredIlike h

/-- No built-in dialect writes a placeholder of its own. -/
theorem Builtin.tame (b : Builtin) : b.dialect.Tame := by
  cases b with
  | postgres => exact Dialect.tame_postgres
  | mysql => exact Dialect.tame_mysql
  | sqlite => exact Dialect.tame_sqlite

end QueryCompiler
