import QueryCompiler.Dialect.Builtin
import QueryCompiler.Query.Edit

/-!
# Query documents

A query document describes a query in JSON. What a value means depends on where it stands: the same
object may be a query, an expression, a table, a join or an order. A `Node` is a value of a document
with its reading in each of these roles, so the readings of a value are computed from those of its
parts, and the parts that matter are picked by name.
-/
namespace QueryCompiler.Document

/-- The readings of one value. -/
structure Roles where
  query : Except Fault Query
  expr : Except Fault (Expr Query)
  fieldValue : Except Fault (FieldValue Query)
  table : Except Fault (TableRef Query)
  item : Except Fault (SelectItem Query)
  join : Except Fault (Join Query)
  order : Except Fault (Order Query)

inductive Node where
  | mk (source : Json) (roles : Roles) (elements : List Node) (members : List (String × Node))

namespace Node

def source : Node → Json
  | mk source _ _ _ => source

def roles : Node → Roles
  | mk _ roles _ _ => roles

def elements : Node → List Node
  | mk _ _ elements _ => elements

def members : Node → List (String × Node)
  | mk _ _ _ members => members

/-- The elements of a list; anything else stands for a list of itself. -/
def items (n : Node) : List Node :=
  match n.source with
  | .list _ => n.elements
  | _ => [n]

end Node

abbrev Members := List (String × Node)

def Members.get? (members : Members) (name : String) : Option Node :=
  (members.find? (·.1 == name)).map (·.2)

/-- The elements of a member, none if it is missing. -/
def Members.items (members : Members) (name : String) : List Node :=
  ((members.get? name).map Node.items).getD []

def fail {α : Type} (flaw : DocumentFlaw) : Except Fault α := .error (.document flaw)

def text (j : Json) : Except Fault String :=
  match j with
  | .text s => .ok s
  | _ => fail (.notAString j)

def scalar (j : Json) : Except Fault Value :=
  match Value.ofJson? j with
  | some v => .ok v
  | none => fail (.notAScalar j)

/-- A count is an integer that is not negative. -/
def count (name : String) (j : Json) : Except Fault Nat :=
  match j with
  | .int n => if 0 ≤ n then .ok n.toNat else fail (.memberNotACount name)
  | _ => fail (.memberNotACount name)

def membersOf (name : String) (n : Node) : Except Fault Members :=
  match n.source with
  | .object _ => .ok n.members
  | _ => fail (.memberNotAnObject name)

def isScalar (j : Json) : Bool :=
  match j with
  | .list _ => false
  | .object _ => false
  | _ => true

namespace Members

/-- A member read in some way, if it is there. -/
def optional {α : Type} (members : Members) (name : String) (read : Node → Except Fault α) :
    Except Fault (Option α) :=
  match members.get? name with
  | none => .ok none
  | some n => some <$> read n

def optionalText (members : Members) (name : String) : Except Fault (Option String) :=
  members.optional name fun n => text n.source

/-- A member that is on only if it is `true`. -/
def isTrue (members : Members) (name : String) : Bool :=
  match (members.get? name).map Node.source with
  | some (.bool b) => b
  | _ => false

def texts (members : Members) (name : String) : Except Fault (List String) :=
  (members.items name).mapM fun n => text n.source

end Members

end QueryCompiler.Document
