import QueryCompiler.Compile.Build
import QueryCompiler.Compile.Name
import QueryCompiler.Operator
import QueryCompiler.Query.Expr

/-!
# Compiling expressions

An expression becomes a fragment: a text for every context it may stand in. Nested queries have
been turned into compilation steps before, so an expression is compiled by one walk over its tree.
Strings that are not SQL already are lifted out of the text and become parameters.
-/
namespace QueryCompiler

/-- A compiled expression. The text depends on the rank of what surrounds it. -/
structure Fragment where
  /-- The fragment never needs parentheses. -/
  atomic : Bool
  /-- The fragment is a nested query, which brings its own parentheses. -/
  isQuery : Bool
  sql : Nat → Build Sql

namespace Fragment

def leaf (sql : Build Sql) : Fragment := ⟨true, false, fun _ => sql⟩

/-- The texts of fragments that nothing else surrounds. -/
def alone (fragments : List Fragment) : Build (List Sql) :=
  fragments.mapM fun f => f.sql Operator.loosest

end Fragment

def spelling (d : Dialect) (op : Operator) : Build String := .ofExcept (d.spelling op.name)

def parenthesized (build : Build Sql) : Build Sql := do return "(" ++ (← build) ++ ")"

def liftPlaceholder (v : Value) : Build Sql := do return .ofMark (.lifted (← Build.lift v))

/-- The placeholder that a string is, if it is one. -/
def Mark.ofText? (s : String) : Option Mark :=
  if s = "?" then some .positional
  else if Text.isNamedPlaceholder s then some (.reference (String.ofList (s.toList.drop 1)))
  else none

/-- A string that is a placeholder, a quoted text or a parenthesized text is written as it stands. -/
def stringSql (s : String) : Build Sql :=
  match Mark.ofText? s with
  | some mark => pure (.ofMark mark)
  | none =>
    if Text.startsWithAny ['\'', '('] s then
      if Field.isBalanced s then pure s else .fail (.invalidValue (.unbalanced s))
    else liftPlaceholder (.text s)

def notFinite (x : Float) : Fault := .invalidValue (.notFinite (Decimal.floatText x))

def literalSql : Value → Build Sql
  | .null => pure "NULL"
  | .bool b => pure (boolWord b)
  | .int n => pure (toString n)
  | .float x => if x.isFinite then pure (Decimal.floatText x) else .fail (notFinite x)
  | .text s => stringSql s

def literalText (v : Value) : Build String := Sql.render <$> literalSql v

/-- A value written where parameters are not used. -/
def inlineText (d : Dialect) (v : Value) : Except Fault String :=
  match v with
  | .float x => if x.isFinite then .ok (d.quoteValue v) else .error (notFinite x)
  | _ => .ok (d.quoteValue v)

def fieldSql (d : Dialect) (scope : Scope) (name : String) : Build Sql := do
  let field ← Build.ofExcept (Field.parse name)
  return d.fieldName scope field.name

def paramSql (name : String) : Build Sql :=
  if Text.isIdentifier name then pure (.ofMark (.reference name))
  else .fail (.invalidValue (.parameterName name))

def callSql (name : String) (args : List Fragment) : Build Sql := do
  if !(Text.dotParts name).all Text.isIdentifier then .fail (.malformedField name)
  else return name.toUpper ++ "(" ++ Sql.intercalate ", " (← Fragment.alone args) ++ ")"

/-- The constant that decides a conjunction or disjunction whatever else it joins. -/
def absorbing? (op : String) : Option String :=
  match op with
  | "AND" => some "FALSE"
  | "OR" => some "TRUE"
  | _ => none

/-- The constant that a conjunction or disjunction does without. -/
def neutral? (op : String) : Option String :=
  match op with
  | "AND" => some "TRUE"
  | "OR" => some "FALSE"
  | _ => none

/-- The operands that remain, each with the mark of an atomic one; `none` as soon as one of them
decides the whole, and then the operands behind it are not compiled. -/
def keptOperands (op : Operator) : List Fragment → Build (Option (List (Sql × Bool)))
  | [] => pure (some [])
  | operand :: rest => do
    let sql ← operand.sql op.rank
    if absorbing? op.name = some sql.render then return none
    else
      let kept ← keptOperands op rest
      return if neutral? op.name = some sql.render then kept
        else kept.map ((sql, operand.atomic) :: ·)

/-- Join the operands that remain. A single one stands for the whole. -/
def joinOperands (op : Operator) (name : String) (context : Nat) : List (Sql × Bool) → Sql
  | [] => (Operator.identity? op.name).getD "NULL"
  | [(sql, atomic)] =>
    if atomic || Text.isEnclosed sql.render then sql else Operator.wrap op.rank context sql
  | parts =>
    Operator.wrap op.rank context (Sql.intercalate (" " ++ name ++ " ") (parts.map (·.1)))

def variadicSql (d : Dialect) (op : Operator) (operands : List Fragment) (context : Nat) :
    Build Sql := do
  let name ← spelling d op
  match ← keptOperands op operands with
  | none => return (absorbing? op.name).getD "NULL"
  | some parts => return joinOperands op name context parts

/-- The right side of a membership test: a nested query as it is, else a list in parentheses. -/
def membersSql (items : List Fragment) : Build Sql := do
  match items with
  | [item] =>
    let sql ← item.sql Operator.loosest
    return if item.isQuery then sql else "(" ++ sql ++ ")"
  | _ => return "(" ++ Sql.intercalate ", " (← Fragment.alone items) ++ ")"

/-- Nothing is a member of an empty list. -/
def inListSql (d : Dialect) (op : Operator) (subject : Fragment) (items : List Fragment)
    (context : Nat) : Build Sql := do
  let name ← spelling d op
  if items.isEmpty then return boolWord (op.name == "NOT IN")
  else
    let left ← subject.sql (Operator.leftContext op.rank)
    let right ← membersSql items
    return Operator.wrap op.rank context (left ++ " " ++ name ++ " " ++ right)

/-- Say in which expression an operator had the wrong number of operands. -/
def Fault.showing (shown : String) : Fault → Fault
  | .arity op expected got _ => .arity op expected got shown
  | fault => fault

def vendorSql (d : Dialect) (op : Operator) (shown : String) (operands : List Fragment)
    (context : Nat) : Build Sql := do
  let operands ← operands.mapM fun f => f.sql (Operator.leftContext op.rank)
  match d.markedVendorOperator op.name operands with
  | none => .fail (.unsupported op.name d.name)
  | some (.error fault) => .fail (fault.showing shown)
  | some (.ok sql) => return Operator.wrap op.rank context sql

/-- The text of an operator applied to as many operands as it takes. -/
def operatorSql (d : Dialect) (op : Operator) (shown : String) (operands : List Fragment)
    (context : Nat) : Build Sql :=
  match op.arity, operands with
  | .nullary, [] => do
    let name ← spelling d op
    return name
  | .unaryPrefix, [operand] => do
    let name ← spelling d op
    let sql ← operand.sql op.rank
    return Operator.wrap op.rank context (name ++ " " ++ sql)
  | .unaryPostfix, [operand] => do
    let name ← spelling d op
    let sql ← operand.sql (Operator.leftContext op.rank)
    return Operator.wrap op.rank context (sql ++ " " ++ name)
  | .binary, [left, right] => do
    let name ← spelling d op
    let left ← left.sql (Operator.leftContext op.rank)
    let right ← right.sql (Operator.rightContext op.rank)
    return Operator.wrap op.rank context (left ++ " " ++ name ++ " " ++ right)
  | .ternary, [subject, low, high] => do
    let name ← spelling d op
    let subject ← subject.sql (Operator.leftContext op.rank)
    let low ← low.sql op.rank
    let high ← high.sql op.rank
    return Operator.wrap op.rank context (subject ++ " " ++ name ++ " " ++ low ++ " AND " ++ high)
  | .variadic, operands => variadicSql d op operands context
  | .inList, subject :: items => inListSql d op subject items context
  | .vendor, operands => vendorSql d op shown operands context
  | _, operands => .fail (.arity op.name op.arity.expected operands.length shown)

/-- The text of an operator looked up by name. -/
def applicationSql (d : Dialect) (name shown : String) (operands : List Fragment)
    (context : Nat) : Build Sql :=
  match Operator.find? name with
  | none => .fail (.unknownOperator name shown)
  | some op => operatorSql d op shown operands context

def application (d : Dialect) (name shown : String) (operands : List Fragment) : Fragment :=
  ⟨operands.isEmpty, false, applicationSql d name shown operands⟩

/-- The condition that a pair of the shorthand stands for. Its values are bound here, before any
condition of the shorthand is written. -/
def shorthandCondition (d : Dialect) (scope : Scope) (name : String) :
    FieldValue (Build Sql) → Build Fragment
  | .null => pure (application d "IS NULL" name [target])
  | .value .null => pure (application d "IS NULL" name [target])
  | .list [] => pure (application d "IS NULL" name [target])
  | .value v => do
    let placeholder ← liftPlaceholder v
    return application d "=" name [target, .leaf (pure placeholder)]
  | .list items => do
    let placeholders ← items.mapM liftPlaceholder
    return application d "IN" name (target :: placeholders.map fun sql => .leaf (pure sql))
  | .subquery build => pure (application d "IN" name [target, ⟨true, true, fun _ => parenthesized build⟩])
where
  target : Fragment := .leaf (fieldSql d scope name)

namespace Expr

mutual
def fragment (d : Dialect) (scope : Scope) : Expr (Build Sql) → Fragment
  | literal v => .leaf (literalSql v)
  | field name _ => .leaf (fieldSql d scope name)
  | param name => .leaf (paramSql name)
  | op name operands =>
    application d name (display (op name operands)) (fragments d scope operands)
  | call name args => .leaf (callSql name (fragments d scope args))
  | subquery build => ⟨true, true, fun _ => parenthesized build⟩
  | shorthand pairs => ⟨false, false, fun context => do
      let conditions ← pairs.mapM fun (name, v) => shorthandCondition d scope name v
      applicationSql d "AND" "" conditions context⟩

def fragments (d : Dialect) (scope : Scope) : List (Expr (Build Sql)) → List Fragment
  | [] => []
  | e :: rest => fragment d scope e :: fragments d scope rest
end

/-- An expression written in a context. -/
def sqlIn (d : Dialect) (scope : Scope) (context : Nat) (e : Expr (Build Sql)) : Build Sql :=
  (e.fragment d scope).sql context

/-- An expression that nothing surrounds. -/
def sql (d : Dialect) (scope : Scope) (e : Expr (Build Sql)) : Build Sql :=
  e.sqlIn d scope Operator.loosest

def textIn (d : Dialect) (scope : Scope) (context : Nat) (e : Expr (Build Sql)) : Build String :=
  Sql.render <$> e.sqlIn d scope context

def text (d : Dialect) (scope : Scope) (e : Expr (Build Sql)) : Build String :=
  e.textIn d scope Operator.loosest

end Expr

end QueryCompiler
