import QueryCompiler.Fault
import QueryCompiler.Param.Fresh
import QueryCompiler.Query.Statement
import QueryCompiler.Text.Parts

/-!
# Table labels

A table gets a label only where one is needed: when several tables are visible, or when it is a
nested query. Labels that are written out are reserved first. The others are the last part of the
table's name, or `sub`, with the least number that makes them unused.
-/
namespace QueryCompiler

/-- The labels of one statement, table by table. -/
structure Labels where
  tables : List (Option String)
  joins : List (Option String)
  /-- Several tables are visible. -/
  multi : Bool
  deriving DecidableEq, Repr

namespace Labels

/-- The label of the first table of FROM. -/
def primary (labels : Labels) : Option String := labels.tables.head?.join

variable {ν : Type}

/-- Collect the labels that are written out; no two may be the same. -/
def reserve (taken : List String) : List (TableRef ν) → Except Fault (List String)
  | [] => .ok taken
  | t :: rest =>
    match t.label with
    | none => reserve taken rest
    | some label =>
      if taken.contains label then .error (.duplicateAlias label)
      else reserve (label :: taken) rest

/-- The last part of a name, without quotes around it. -/
def shortName (name : String) : String :=
  Text.trim (fun c => c == '"' || c == '\x60') ((Text.dotParts name).getLast?.getD name)

def baseName (t : TableRef ν) : String :=
  match t.source with
  | .table name => shortName name
  | .subquery _ => "sub"

def numbered (base : String) (n : Nat) : String := if n = 0 then base else base ++ toString n

/-- The base name, or the base name with the least number that makes it unused. -/
def unused (taken : List String) (base : String) : String :=
  numbered base (firstFree taken.contains (numbered base) taken.length 0)

def needsLabel (multi : Bool) (t : TableRef ν) : Bool := multi || t.name?.isNone

/-- Label the tables in order; every generated label counts as taken from then on. -/
def assign (multi : Bool) (taken : List String) : List (TableRef ν) → List (Option String)
  | [] => []
  | t :: rest =>
    match t.label with
    | some label => some label :: assign multi taken rest
    | none =>
      if needsLabel multi t then
        let label := unused taken (baseName t)
        some label :: assign multi (label :: taken) rest
      else none :: assign multi taken rest

def resolve (s : Statement ν) : Except Fault Labels := do
  let taken ← reserve [] s.allTables
  let multi := 1 < s.tables.length || !s.joins.isEmpty
  let labels := assign multi taken s.allTables
  return ⟨labels.take s.tables.length, labels.drop s.tables.length, multi⟩

end Labels

end QueryCompiler
