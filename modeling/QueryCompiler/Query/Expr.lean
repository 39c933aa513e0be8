import QueryCompiler.Field
import QueryCompiler.Value

/-!
# Expressions

Expressions are trees of operators over fields, literals, parameters and function calls. The type
of the queries nested in them is a parameter: it is the type of queries in a description and
becomes an action or a text when the nested queries are compiled.
-/
namespace QueryCompiler

/-- The value a field is compared with in the shorthand. -/
inductive FieldValue (ν : Type) where
  | null
  | value (v : Value)
  | list (items : List Value)
  | subquery (q : ν)

inductive Expr (ν : Type) where
  | literal (v : Value)
  | field (name : String) (label : Option String)
  | param (name : String)
  | op (name : String) (operands : List (Expr ν))
  | call (name : String) (args : List (Expr ν))
  | subquery (q : ν)
  /-- Fields that must all have the values given. -/
  | shorthand (pairs : List (String × FieldValue ν))

namespace FieldValue

variable {ν : Type}

/-- A value, the missing one being the null test. -/
def ofValue : Value → FieldValue ν
  | .null => null
  | v => value v

def display : FieldValue ν → String
  | null => "null"
  | value v => v.display
  | list items => "[" ++ ", ".intercalate (items.map Value.display) ++ "]"
  | subquery _ => "(SUBQUERY)"

def subquery? : FieldValue ν → Option ν
  | subquery q => some q
  | _ => none

end FieldValue

namespace Expr

variable {ν : Type}

def plainField (name : String) : Expr ν := field name none

def conj (operands : List (Expr ν)) : Expr ν := op "AND" operands

def disj (operands : List (Expr ν)) : Expr ν := op "OR" operands

def neg (operand : Expr ν) : Expr ν := op "NOT" [operand]

def binary (name : String) (left right : Expr ν) : Expr ν := op name [left, right]

def equal (left right : Expr ν) : Expr ν := binary "=" left right

def truth : Expr ν := literal (.bool true)

mutual
/-- The text of an expression in messages. -/
def display : Expr ν → String
  | literal v => v.display
  | field name none => name
  | field name (some label) => name ++ " AS " ++ label
  | param name => ":" ++ name
  | op name operands => "[\"" ++ name ++ "\"" ++ String.join (displayRest operands) ++ "]"
  | call name args => name ++ "(" ++ ", ".intercalate (displays args) ++ ")"
  | subquery _ => "(SUBQUERY)"
  | shorthand pairs =>
    "\x7b" ++ ", ".intercalate (pairs.map fun (name, v) => name ++ ": " ++ v.display) ++ "\x7d"

def displays : List (Expr ν) → List String
  | [] => []
  | e :: rest => display e :: displays rest

def displayRest : List (Expr ν) → List String
  | [] => []
  | e :: rest => (", " ++ display e) :: displayRest rest
end

mutual
/-- Whether an expression is a conjunction of nothing at all. -/
def isVacuous : Expr ν → Bool
  | shorthand pairs => pairs.isEmpty
  | op name operands => Text.sameWord (Text.trim Text.isBlank name) "AND" && areVacuous operands
  | _ => false

def areVacuous : List (Expr ν) → Bool
  | [] => true
  | e :: rest => isVacuous e && areVacuous rest
end

mutual
/-- The queries nested in an expression, from left to right. -/
def subqueries : Expr ν → List ν
  | op _ operands => subqueriesOf operands
  | call _ args => subqueriesOf args
  | subquery q => [q]
  | shorthand pairs => pairs.filterMap fun (_, v) => v.subquery?
  | literal _ => []
  | field _ _ => []
  | param _ => []

def subqueriesOf : List (Expr ν) → List ν
  | [] => []
  | e :: rest => subqueries e ++ subqueriesOf rest
end

end Expr

end QueryCompiler
