import QueryCompiler.Query.Basic

/-!
# Editing statements

The changes by which a statement is built up, clause by clause, and the query that counts the rows
of another one.
-/
namespace QueryCompiler

namespace Statement

variable {ν : Type}

def select (s : Statement ν) (fields : List String) : Statement ν :=
  { s with kind := .select, fields := fields.map fun name => ⟨.plainField name, none⟩ }

def selectExpr (s : Statement ν) (e : Expr ν) (label : Option String) : Statement ν :=
  { s with kind := .select, fields := s.fields ++ [⟨e, label⟩] }

def setDistinct (s : Statement ν) (distinct : Bool) : Statement ν := { s with distinct := distinct }

/-- Make the statement write to, or read from, one table. -/
def setTarget (s : Statement ν) (kind : StatementKind) (t : TableRef ν) : Statement ν :=
  { s with kind := kind, tables := [t] }

def setTable (s : Statement ν) (t : TableRef ν) : Statement ν := { s with tables := [t] }

def addTable (s : Statement ν) (t : TableRef ν) : Statement ν :=
  { s with tables := s.tables ++ [t] }

def addJoin (s : Statement ν) (join : Join ν) : Statement ν := { s with joins := s.joins ++ [join] }

def setFilter (s : Statement ν) (condition : Expr ν) : Statement ν :=
  { s with filter := some condition }

/-- Join a condition to the one that is there; a conjunction takes it in as its last operand. -/
def joined (existing : Option (Expr ν)) (condition : Expr ν) : Expr ν :=
  match existing with
  | none => condition
  | some (.op name operands) =>
    if Text.sameWord name "AND" then .op name (operands ++ [condition])
    else .conj [.op name operands, condition]
  | some e => .conj [e, condition]

def andFilter (s : Statement ν) (condition : Expr ν) : Statement ν :=
  { s with filter := some (joined s.filter condition) }

def addGroup (s : Statement ν) (e : Expr ν) : Statement ν := { s with groups := s.groups ++ [e] }

def setHaving (s : Statement ν) (condition : Expr ν) : Statement ν :=
  { s with having := some condition }

def addOrder (s : Statement ν) (order : Order ν) : Statement ν :=
  { s with orders := s.orders ++ [order] }

def setLimit (s : Statement ν) (n : Nat) : Statement ν := { s with limit := some n }

def setOffset (s : Statement ν) (n : Nat) : Statement ν := { s with offset := some n }

def addAssignment (s : Statement ν) (field : String) (e : Expr ν) : Statement ν :=
  { s with assignments := s.assignments ++ [(field, e)] }

def setSource (s : Statement ν) (source : InsertSource ν) : Statement ν :=
  { s with source := some source }

/-- The selection of the number of rows. -/
def countAll : SelectItem ν := ⟨.call "COUNT" [.plainField "*"], none⟩

/-- The same rows in no order and without bounds. -/
def unbounded (s : Statement ν) : Statement ν :=
  { s with kind := .select, orders := [], limit := none, offset := none }

end Statement

namespace Query

/-- The query that counts rows. Distinct rows are counted from outside. -/
def counted (q : Query) : Query :=
  if q.statement.distinct then
    let inner : TableRef Query := (TableRef.ofQuery (q.edit Statement.unbounded)).withLabel "counted"
    mk q.dialect Bag.empty { Statement.empty with fields := [Statement.countAll], tables := [inner] }
  else q.edit fun s => { s.unbounded with fields := [Statement.countAll] }

end Query

end QueryCompiler
