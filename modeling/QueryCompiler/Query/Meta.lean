import QueryCompiler.Json.Reader
import QueryCompiler.Query.Statement

/-!
# Table descriptions in JSON

A description is an object with a name, or a list of its fields in order. The lists of columns may
be left out. Unknown members are passed over unread, whatever they hold, but no known one may stand
twice.
-/
namespace QueryCompiler.TableMeta

def toJson (info : TableMeta) : Json :=
  .object [("name", .text info.name), ("primary_key", .list (info.primaryKey.map .text)),
    ("attributes", .list (info.attributes.map .text))]

def textsOf? : Json → Option (List String)
  | .list items => items.mapM fun
    | .text s => some s
    | _ => none
  | _ => none

/-- The member of that name: none, exactly one, or refused. -/
def single? (name : String) (members : List (String × Json)) : Option (Option Json) :=
  match members.filter (·.1 == name) with
  | [] => some none
  | [(_, j)] => some (some j)
  | _ => none

/-- An optional list of texts. -/
def columns? : Option Json → Option (List String)
  | none => some []
  | some j => textsOf? j

def ofParts? (name primaryKey attributes : Option Json) : Option TableMeta := do
  match name with
  | some (.text name) => return ⟨name, ← columns? primaryKey, ← columns? attributes⟩
  | _ => none

def ofJson? : Json → Option TableMeta
  | .object members => do
    ofParts? (← single? "name" members) (← single? "primary_key" members)
      (← single? "attributes" members)
  | .list items =>
    if items.length ≤ 3 then ofParts? items[0]? items[1]? items[2]? else none
  | _ => none

/-- Read the text of a description. -/
def read? (s : String) : Option TableMeta := (Json.skim? s).bind ofJson?

end QueryCompiler.TableMeta
