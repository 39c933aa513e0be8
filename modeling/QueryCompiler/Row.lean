import QueryCompiler.Fault
import QueryCompiler.Value

/-!
# Fetched rows

A row has column names and values side by side; the two lists may differ in length. Where a name
occurs twice the first column counts.
-/
namespace QueryCompiler

structure Row where
  columns : List String
  values : List Value
  deriving Repr

namespace Row

def size (row : Row) : Nat := row.values.length

def isEmpty (row : Row) : Bool := row.values.isEmpty

/-- The value of the first column of that name. -/
def get? (row : Row) (name : String) : Option Value :=
  match row.columns.findIdx? (· == name) with
  | some i => row.values[i]?
  | none => none

/-- The first value, or null in an empty row. -/
def first (row : Row) : Value := row.values.head?.getD .null

/-- Add a member unless its name is there already. -/
def addMember (members : List (String × Json)) (cell : String × Value) : List (String × Json) :=
  if members.any (·.1 == cell.1) then members else members ++ [(cell.1, cell.2.toJson)]

/-- An object with a member for every column that has a value. -/
def toJson (row : Row) : Json := .object ((row.columns.zip row.values).foldl addMember [])

/-- Read a record off the object of a row; the record itself says which objects fit. -/
def hydrate {α : Type} (decode : Json → Option α) (row : Row) : Except Fault α :=
  match decode row.toJson with
  | some record => .ok record
  | none => .error .hydration

end Row

/-- An example of a record that rows are read as: a user of the table `users`. -/
structure User where
  id : Int
  name : String
  team : Option Int
  deriving DecidableEq, Repr

namespace User

def attributes : List String := ["id", "name", "team_id"]

/-- The users among all values: the team may be null or absent, nothing else may. -/
def decode : Json → Option User
  | .object members =>
    match Json.member? "id" members, Json.member? "name" members with
    | some (.int id), some (.text name) =>
      match Json.member? "team_id" members with
      | none => some ⟨id, name, none⟩
      | some .null => some ⟨id, name, none⟩
      | some (.int team) => some ⟨id, name, some team⟩
      | some _ => none
    | _, _ => none
  | _ => none

/-- Read a user off a row. -/
def ofRow (row : Row) : Except Fault User := row.hydrate decode

end User

end QueryCompiler
