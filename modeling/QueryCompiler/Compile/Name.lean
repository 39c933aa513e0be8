import QueryCompiler.Dialect.Basic
import QueryCompiler.Field
import QueryCompiler.Text.Parts

/-!
# Names in SQL text

Names that are quoted already are written as they stand; all others are quoted by the dialect,
part by part. An unqualified field gets the label of the first table once several are visible.
-/
namespace QueryCompiler

/-- What a field name may refer to inside one statement. -/
structure Scope where
  /-- The label of the first table. -/
  label : Option String
  /-- Several tables are visible. -/
  multi : Bool
  deriving DecidableEq, Repr

namespace Scope

def none : Scope := ⟨.none, false⟩

/-- What to put before an unqualified field. -/
def qualifier (scope : Scope) : Option String := if scope.multi then scope.label else .none

end Scope

namespace Dialect

/-- A part of a dotted name; the star stands for all columns. -/
def part (d : Dialect) (name : String) : String :=
  if name = "*" ∨ Field.isVerbatim name then name else d.quoteIdentifier name

def dotted (d : Dialect) (name : String) : String :=
  ".".intercalate ((Text.dotParts name).map d.part)

def fieldName (d : Dialect) (scope : Scope) (name : String) : String :=
  if name = "*" ∨ Field.isVerbatim name then name
  else if Text.hasChar '.' name then d.dotted name
  else
    match scope.qualifier with
    | some label => d.quoteIdentifier label ++ "." ++ d.quoteIdentifier name
    | none => d.quoteIdentifier name

/-- The name given to a column or table. -/
def labelName (d : Dialect) (label : String) : String :=
  if Field.isVerbatim label then label else d.quoteIdentifier label

def columnList (d : Dialect) (fields : List String) : String :=
  ", ".intercalate (fields.map d.quoteIdentifier)

end Dialect

end QueryCompiler
