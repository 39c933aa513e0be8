import QueryCompiler.Fault
import QueryCompiler.Sql
import QueryCompiler.Value
import QueryCompiler.Text.Quote

/-!
# Dialects

A dialect is a record of the decisions in which databases differ. The defaults are shared by most
of them; `CASE` and `ILIKE` are built from operands that are compiled already.
-/
namespace QueryCompiler

section Vendor

variable {τ : Type} [SqlText τ]

open SqlText (plain)

/-- The conditions and results of `CASE`, two operands at a time; a last single one is the `ELSE`. -/
def caseBranches : List τ → τ
  | condition :: result :: rest =>
    plain " WHEN " ++ condition ++ plain " THEN " ++ result ++ caseBranches rest
  | [otherwise] => plain " ELSE " ++ otherwise
  | [] => plain ""

def buildCase (operands : List τ) : Except Fault τ :=
  if operands.length < 2 then .error (.arity "CASE" "at least 2" operands.length "")
  else .ok (plain "CASE" ++ caseBranches operands ++ plain " END")

/-- Matching without regard to case by the operator itself. -/
def buildNativeIlike : List τ → Except Fault τ
  | [left, right] => .ok (left ++ plain " ILIKE " ++ right)
  | operands => .error (.arity "ILIKE" "2" operands.length "")

/-- Matching without regard to case by lowering both sides. -/
def buildLoweredIlike : List τ → Except Fault τ
  | [left, right] => .ok (plain "LOWER(" ++ left ++ plain ") LIKE LOWER(" ++ right ++ plain ")")
  | operands => .error (.arity "ILIKE" "2" operands.length "")

def defaultVendorOperator (ilike : List τ → Except Fault τ) (name : String)
    (operands : List τ) : Option (Except Fault τ) :=
  if name = "CASE" then some (buildCase operands)
  else if name = "ILIKE" then some (ilike operands)
  else none

/-- A sort key that is null exactly where the key is. -/
def isNullCall (key : τ) : τ := plain "ISNULL(" ++ key ++ plain ")"

end Vendor

theorem render_caseBranches (operands : List Sql) :
    (caseBranches operands).render = caseBranches (operands.map Sql.render) := by
  induction operands using caseBranches.induct with
  | case1 condition result rest ih => simp [caseBranches, ih]
  | case2 otherwise => simp [caseBranches]
  | case3 => simp [caseBranches]

theorem render_buildCase (operands : List Sql) :
    (buildCase operands).map Sql.render = buildCase (operands.map Sql.render) := by
  unfold buildCase
  split <;> simp_all [Except.map, render_caseBranches]

theorem render_buildNativeIlike (operands : List Sql) :
    (buildNativeIlike operands).map Sql.render = buildNativeIlike (operands.map Sql.render) := by
  match operands with
  | [] | [_] | [_, _] | _ :: _ :: _ :: _ => simp [buildNativeIlike, Except.map]

theorem render_buildLoweredIlike (operands : List Sql) :
    (buildLoweredIlike operands).map Sql.render = buildLoweredIlike (operands.map Sql.render) := by
  match operands with
  | [] | [_] | [_, _] | _ :: _ :: _ :: _ => simp [buildLoweredIlike, Except.map]

/-- Building an operator and forgetting the marks may be done in either order. -/
theorem render_defaultVendorOperator {ilike : List Sql → Except Fault Sql}
    {plainIlike : List String → Except Fault String}
    (h : ∀ operands, (ilike operands).map Sql.render = plainIlike (operands.map Sql.render))
    (name : String) (operands : List Sql) :
    (defaultVendorOperator ilike name operands).map (·.map Sql.render) =
      defaultVendorOperator plainIlike name (operands.map Sql.render) := by
  unfold defaultVendorOperator
  split
  · simp [render_buildCase]
  · split <;> simp [h]

/-- A value inside SQL text, given the spelling of truth values and of strings. -/
def inlineValue (bool : Bool → String) (string : String → String) : Value → String
  | .null => "NULL"
  | .bool b => bool b
  | .int n => toString n
  | .float x => Decimal.floatText x
  | .text s => string s

def boolWord (b : Bool) : String := if b then "TRUE" else "FALSE"

def boolDigit (b : Bool) : String := if b then "1" else "0"

def limitClause (limit offset : Option Nat) : String :=
  (match limit with | some n => " LIMIT " ++ toString n | none => "") ++
    (match offset with | some n => " OFFSET " ++ toString n | none => "")

/-- A limit for dialects that take no offset without one; `unlimited` stands for no limit. -/
def limitClauseWith (unlimited : String) (limit offset : Option Nat) : String :=
  match limit, offset with
  | none, some n => " LIMIT " ++ unlimited ++ " OFFSET " ++ toString n
  | _, _ => limitClause limit offset

structure Dialect where
  name : String
  /-- Write an identifier so that it is read back as one. -/
  quoteIdentifier : String → String
  /-- Write a value where parameters are not used. -/
  quoteValue : Value → String := inlineValue boolWord Text.quoteString
  /-- The spelling of an operator of the table; `none` if the dialect lacks it. -/
  operatorName : String → Option String := some
  /-- Whether an order may say where nulls go. -/
  ordersNulls : Bool := false
  /-- A key that sorts nulls last, for dialects that cannot say so. -/
  nullKey : String → String := isNullCall
  /-- The null key with the marks of the key kept; they may also be forgotten. -/
  markedNullKey : Sql → Sql := fun key => Sql.ofString (nullKey key.render)
  /-- The placeholder of the parameter with that number, counted from one. -/
  placeholder : Nat → String
  limitOffset : Option Nat → Option Nat → String := limitClause
  /-- Build an operator without a fixed form; `none` if the dialect has no builder for it. -/
  vendorOperator : String → List String → Option (Except Fault String) :=
    defaultVendorOperator buildLoweredIlike
  /-- The same operator with the marks of its operands kept; they may also be forgotten. -/
  markedVendorOperator : String → List Sql → Option (Except Fault Sql) := fun op operands =>
    (vendorOperator op (operands.map Sql.render)).map (·.map Sql.ofString)
  render_markedNullKey : ∀ key, (markedNullKey key).render = nullKey key.render := by
    intro key
    simp
  render_markedVendorOperator : ∀ op operands,
      (markedVendorOperator op operands).map (·.map Sql.render) =
        vendorOperator op (operands.map Sql.render) := by
    intro op operands
    simp [Function.comp_def, Sql.map_render_ofString]

namespace Dialect

/-- The spelling of an operator, or the fault that the dialect lacks it. -/
def spelling (d : Dialect) (op : String) : Except Fault String :=
  match d.operatorName op with
  | some name => .ok name
  | none => .error (.unsupported op d.name)

end Dialect

end QueryCompiler
