import QueryCompiler.Json.Basic

/-!
# Faults

Everything that can go wrong, by cause, and the one function that puts a cause into words. The
faults of `isBuildFault` are those of compilation: they arise before anything is sent to a database.
-/
namespace QueryCompiler

/-- A value that has no SQL text. -/
inductive ValueFlaw where
  | parameterName (name : String)
  | notFinite (text : String)
  | unbalanced (text : String)
  deriving DecidableEq, Repr

def ValueFlaw.message : ValueFlaw → String
  | parameterName name => "parameter name '" ++ name ++ "'"
  | notFinite text => "non-finite number " ++ text
  | unbalanced text => "unbalanced literal " ++ text

inductive JoinFlaw where
  | conditionMissing
  | conditionUnwanted
  deriving DecidableEq, Repr

def JoinFlaw.message : JoinFlaw → String
  | conditionMissing => "this join type requires an ON condition"
  | conditionUnwanted => "CROSS and NATURAL joins take no ON condition"

/-- A statement whose clauses do not fit together. -/
inductive StatementFlaw where
  | noTarget (verb : String)
  | subqueryTarget (verb : String)
  | insertWithoutValues
  | insertWithoutRows
  | updateWithJoins
  | updateWithoutAssignments
  | deleteFromSeveral
  | deleteWithoutFilter
  | deleteWithEmptyFilter
  | refused (text : String)
  deriving DecidableEq, Repr

def StatementFlaw.message : StatementFlaw → String
  | noTarget verb => verb ++ " needs a target table"
  | subqueryTarget verb => "cannot " ++ verb ++ " a subquery"
  | insertWithoutValues => "INSERT without values"
  | insertWithoutRows => "INSERT without rows"
  | updateWithJoins => "UPDATE does not take joins; add extra tables to FROM"
  | updateWithoutAssignments => "UPDATE without assignments"
  | deleteFromSeveral => "DELETE takes exactly one table"
  | deleteWithoutFilter =>
    "DELETE without WHERE; use an explicit TRUE condition to delete every row"
  | deleteWithEmptyFilter =>
    "DELETE with an empty WHERE; use an explicit TRUE condition to delete every row"
  | refused text => text

/-- A query document that cannot be read. -/
inductive DocumentFlaw where
  | notJson
  | notAnObject
  | unknownKey (name : String)
  | unknownStatement (name : String)
  | notOneTable
  | updateWithoutTable
  | emptyOperatorList
  | badShorthand
  | tableWithoutName
  | orderWithoutTarget
  | unknownNulls (text : String)
  | notAnExpression (found : Json)
  | notATable (found : Json)
  | notAnOrder (found : Json)
  | notAString (found : Json)
  | notAScalar (found : Json)
  | memberNotAnObject (name : String)
  | memberNotACount (name : String)

def DocumentFlaw.message : DocumentFlaw → String
  | notJson => "not a JSON text"
  | notAnObject => "a query document must be a JSON object"
  | unknownKey name => "unknown key '" ++ name ++ "'"
  | unknownStatement name => "unknown statement type '" ++ name ++ "'"
  | notOneTable => "statement needs exactly one 'from' table"
  | updateWithoutTable => "UPDATE needs a 'from' table"
  | emptyOperatorList => "an operator list needs an operator name"
  | badShorthand => "shorthand values must be scalars, lists or \x7b\"$query\": ...\x7d"
  | tableWithoutName => "a table entry needs 'table' or '$query'"
  | orderWithoutTarget => "an order entry needs 'expr'"
  | unknownNulls text => "unknown nulls ordering '" ++ text ++ "'"
  | notAnExpression found => "cannot read " ++ found.compact ++ " as an expression"
  | notATable found => "cannot read " ++ found.compact ++ " as a table"
  | notAnOrder found => "cannot read " ++ found.compact ++ " as an order"
  | notAString found => "expected a string, got " ++ found.compact
  | notAScalar found => "expected a scalar, got " ++ found.compact
  | memberNotAnObject name => "'" ++ name ++ "' must be an object"
  | memberNotACount name => "'" ++ name ++ "' must be a non-negative integer"

/-- A settings text or a dialect name that is refused. -/
inductive SettingsFlaw where
  | unknownDialect (name : String)
  | unreadable
  | unreadableFile (path : String)
  deriving DecidableEq, Repr

def SettingsFlaw.message : SettingsFlaw → String
  | unknownDialect name => "unknown dialect '" ++ name ++ "'"
  | unreadable => "not a settings text"
  | unreadableFile path => path

/-- Why a file could not be read, with the number of the cause. -/
inductive FileFlaw where
  | missing
  | notADirectory
  | isADirectory
  | nameTooLong
  | notText
  deriving DecidableEq, Repr

def FileFlaw.message : FileFlaw → String
  | missing => "No such file or directory (os error 2)"
  | notADirectory => "Not a directory (os error 20)"
  | isADirectory => "Is a directory (os error 21)"
  | nameTooLong => "File name too long (os error 36)"
  | notText => "stream did not contain valid UTF-8"

inductive Fault where
  | unknownOperator (op shown : String)
  | arity (op expected : String) (got : Nat) (shown : String)
  | malformedField (text : String)
  | invalidValue (flaw : ValueFlaw)
  | invalidJoinType (text : String)
  | joinCondition (table : String) (flaw : JoinFlaw)
  | duplicateAlias (name : String)
  | rowTooLong (row length expected : Nat)
  | paramConflict (name : String)
  | invalidQuery (flaw : StatementFlaw)
  | unsupported (op dialect : String)
  | missingParam (name : String)
  | notConnected
  | database (text : String)
  | connection (text : String)
  | execution (text : String)
  | rowNotFound
  | hydration
  | document (flaw : DocumentFlaw)
  | settings (flaw : SettingsFlaw)
  | file (flaw : FileFlaw)

namespace Fault

def message : Fault → String
  | unknownOperator op shown => "Unknown operator '" ++ op ++ "' in " ++ shown
  | arity op expected got shown =>
    "Operator '" ++ op ++ "' expects " ++ expected ++ " operand(s), got " ++ toString got ++
      " in " ++ shown
  | malformedField text => "Malformed field '" ++ text ++ "'"
  | invalidValue flaw => "Invalid value: " ++ flaw.message
  | invalidJoinType text => "Invalid join type: '" ++ text ++ "'"
  | joinCondition table flaw => "Join '" ++ table ++ "': " ++ flaw.message
  | duplicateAlias name => "Duplicate table alias '" ++ name ++ "'"
  | rowTooLong row length expected =>
    "Insert row " ++ toString row ++ " has " ++ toString length ++ " values but only " ++
      toString expected ++ " field(s) are targeted"
  | paramConflict name => "Parameter ':" ++ name ++ "' is bound to conflicting values"
  | invalidQuery flaw => "Invalid query: " ++ flaw.message
  | unsupported op dialect =>
    "Operator '" ++ op ++ "' is not supported by the " ++ dialect ++ " dialect"
  | missingParam name => "No value bound for parameter ':" ++ name ++ "'"
  | notConnected => "Query is not attached to a connection"
  | database text => "Database error: " ++ text
  | connection text => "Connection error: " ++ text
  | execution text => "Execution error: " ++ text
  | rowNotFound => "Query returned no rows"
  | hydration => "Hydration error: the row does not fit the record"
  | document flaw => "Document error: " ++ flaw.message
  | settings flaw => "Configuration error: " ++ flaw.message
  | file flaw => "IO error: " ++ flaw.message

def isBuildFault : Fault → Bool
  | unknownOperator .. | arity .. | malformedField _ | invalidValue _ | invalidJoinType _
  | joinCondition .. | duplicateAlias _ | rowTooLong .. | paramConflict _ | invalidQuery _
  | unsupported .. => true
  | _ => false

end Fault

end QueryCompiler
