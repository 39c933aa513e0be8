import QueryCompiler.Document.Query

/-!
# Reading documents

The roles of scalars, lists and objects, and the reading of a whole document. In an expression a
string names a field unless it is a placeholder or SQL text, a list applies an operator or calls a
function, and an object is a literal, a nested query or a shorthand of conditions.
-/
namespace QueryCompiler.Document

/-- A string in an expression. -/
def stringExpr (s : String) : Expr Query :=
  if Text.isNamedPlaceholder s then .param (String.ofList (s.toList.drop 1))
  else if s = "?" ∨ Text.startsWithAny ['\'', '('] s then .literal (.text s)
  else .plainField s

def namedTable (s : String) : Except Fault (TableRef Query) := do
  let field ← Field.parse s
  return { TableRef.named field.name with label := field.label }

/-- The roles of a value that is no query, no table, no join and no order. -/
def Roles.ofExpr (j : Json) (expr : Except Fault (Expr Query))
    (fieldValue : Except Fault (FieldValue Query)) : Roles where
  query := fail .notAnObject
  expr := expr
  fieldValue := fieldValue
  table := fail (.notATable j)
  item := expr.map fun e => ⟨e, none⟩
  join := fail (.memberNotAnObject "join")
  order := fail (.notAnOrder j)

def scalarExpr (j : Json) : Except Fault (Expr Query) :=
  match Value.ofJson? j with
  | some v => .ok (.literal v)
  | none => fail (.notAnExpression j)

def scalarRoles (j : Json) : Roles := .ofExpr j (scalarExpr j) (FieldValue.ofValue <$> scalar j)

def textRoles (s : String) : Roles :=
  { Roles.ofExpr (.text s) (.ok (stringExpr s)) (.ok (.value (.text s))) with
    table := namedTable s
    order := Order.ofField <$> Field.parseOrder s }

/-- A function call is written with parentheses behind the name, an operator without. -/
def applied (name : String) (operands : List (Expr Query)) : Expr Query :=
  match name.toList.reverse with
  | ')' :: '(' :: rest => .call (String.ofList rest.reverse) operands
  | _ => .op name operands

def listExpr (elements : List Node) : Except Fault (Expr Query) :=
  match elements with
  | [] => fail .emptyOperatorList
  | head :: rest => do
    let name ← text head.source
    let operands ← rest.mapM (·.roles.expr)
    return applied name operands

def listRoles (j : Json) (elements : List Node) : Roles :=
  .ofExpr j (listExpr elements) (.list <$> elements.mapM fun n => scalar n.source)

def objectExpr (members : Members) : Except Fault (Expr Query) :=
  match members.get? "$value", members.get? "$query" with
  | some value, _ => .literal <$> scalar value.source
  | none, some query => .subquery <$> query.roles.query
  | none, none =>
    .shorthand <$> members.mapM fun (name, n) => do return (name, ← n.roles.fieldValue)

def objectFieldValue (members : Members) : Except Fault (FieldValue Query) :=
  match members.get? "$query" with
  | some query => .subquery <$> query.roles.query
  | none => fail .badShorthand

def tableMeta (members : Members) : Except Fault TableMeta :=
  match members.get? "table" with
  | none => fail .tableWithoutName
  | some name => do
    let name ← text name.source
    let attributes ← members.texts "attributes"
    let primaryKey ← members.texts "primary_key"
    return { name, primaryKey, attributes }

def objectTable (members : Members) : Except Fault (TableRef Query) := do
  let table : TableRef Query ←
    match members.get? "$query" with
    | some query => TableRef.ofQuery <$> query.roles.query
    | none => TableRef.ofMeta <$> tableMeta members
  return { table with label := ← members.optionalText "as" }

def objectItem (members : Members) : Except Fault (SelectItem Query) :=
  match members.get? "expr" with
  | some target => do
    let expr ← target.roles.expr
    return ⟨expr, ← members.optionalText "as"⟩
  | none => do return ⟨← objectExpr members, none⟩

/-- The pairs of an object of strings; `none` if it is empty or holds anything else. -/
def fieldPairs? (n : Node) : Option (List (String × String)) :=
  match n.members with
  | [] => none
  | members => members.mapM fun (name, n) =>
    match n.source with
    | .text s => some (name, s)
    | _ => none

/-- An object of strings pairs fields of the two sides; anything else is a condition. -/
def joinCondition (n : Node) : Except Fault (JoinCondition Query) :=
  match fieldPairs? n with
  | some pairs => .ok (.fields pairs)
  | none => .expr <$> n.roles.expr

def objectJoin (members : Members) : Except Fault (Join Query) := do
  let kind ← members.optionalText "type"
  let condition ← members.optional "on" joinCondition
  let table ← objectTable members
  return ⟨table, kind.getD "INNER", condition⟩

def nullsOf (s : String) : Except Fault Field.Nulls :=
  if Text.sameWord s "first" then .ok .first
  else if Text.sameWord s "last" then .ok .last
  else fail (.unknownNulls s)

def objectOrder (members : Members) : Except Fault (Order Query) :=
  match members.get? "expr" with
  | none => fail .orderWithoutTarget
  | some target => do
    let direction := if members.isTrue "desc" then .descending else .ascending
    let nulls ← members.optional "nulls" fun n => do nullsOf (← text n.source)
    return ⟨← target.roles.expr, direction, nulls⟩

def objectRoles (d : Dialect) (members : Members) : Roles where
  query := queryOf d members
  expr := objectExpr members
  fieldValue := objectFieldValue members
  table := objectTable members
  item := objectItem members
  join := objectJoin members
  order := objectOrder members

mutual
/-- Read a value in all its roles. -/
def Node.ofJson (d : Dialect) : Json → Node
  | .list items =>
    let elements := Node.ofItems d items
    .mk (.list items) (listRoles (.list items) elements) elements []
  | .object pairs =>
    let members := Node.ofMembers d pairs
    .mk (.object pairs) (objectRoles d members) [] members
  | .text s => .mk (.text s) (textRoles s) [] []
  | .null => .mk .null (scalarRoles .null) [] []
  | .bool b => .mk (.bool b) (scalarRoles (.bool b)) [] []
  | .int n => .mk (.int n) (scalarRoles (.int n)) [] []
  | .float x => .mk (.float x) (scalarRoles (.float x)) [] []

def Node.ofItems (d : Dialect) : List Json → List Node
  | [] => []
  | item :: rest => Node.ofJson d item :: Node.ofItems d rest

def Node.ofMembers (d : Dialect) : List (String × Json) → List (String × Node)
  | [] => []
  | (name, value) :: rest => (name, Node.ofJson d value) :: Node.ofMembers d rest
end

/-- The query that a JSON value describes. -/
def query (d : Dialect) (j : Json) : Except Fault Query := (Node.ofJson d j).roles.query

/-- The expression that a JSON value describes. -/
def expr (d : Dialect) (j : Json) : Except Fault (Expr Query) := (Node.ofJson d j).roles.expr

def json (s : String) : Except Fault Json :=
  match Json.read? s with
  | some j => .ok j.merged
  | none => fail .notJson

/-- Read the text of a query document. -/
def read (d : Dialect) (s : String) : Except Fault Query := do query d (← json s)

/-- Read the text of an expression. -/
def readExpr (d : Dialect) (s : String) : Except Fault (Expr Query) := do expr d (← json s)

end QueryCompiler.Document
