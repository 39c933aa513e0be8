import QueryCompiler.Session

/-!
# Workspaces

A program holds several queries at once: clones and counting queries go on sharing the connection
of the query they were made from. A workspace keeps the queries that are held and, for every
connection, the calls that it was sent by any of them. Each move concerns one query.
-/
namespace QueryCompiler

/-- The changes that a query offers, but for attaching a connection. -/
inductive Mutator where
  | select (fields : List String)
  | selectExpr (e : Expr Query) (label : Option String)
  | distinct (on : Bool)
  | insertInto (t : TableRef Query)
  | update (t : TableRef Query)
  | deleteFrom (t : TableRef Query)
  | fromTable (t : TableRef Query)
  | addFrom (t : TableRef Query)
  | join (j : Join Query)
  | filter (condition : Expr Query)
  | andFilter (condition : Expr Query)
  | groupBy (e : Expr Query)
  | having (condition : Expr Query)
  | orderBy (order : Order Query)
  | orderByText (text : String)
  | limit (n : Nat)
  | offset (n : Nat)
  | set (field : String) (e : Expr Query)
  | values (pairs : List (String × Value))
  | valueExprs (pairs : List (String × Expr Query))
  | rows (fields : List String) (lines : List (List Value))
  | insertSelect (fields : List String) (q : Query)
  | bind (name : String) (value : Value)
  | dialect (d : Dialect)

/-- Change a session; only the text of an order can be refused. -/
def Mutator.apply (s : Session) : Mutator → Except Fault Session
  | select fields => .ok (s.edit (·.select fields))
  | selectExpr e label => .ok (s.edit (·.selectExpr e label))
  | distinct on => .ok (s.edit (·.setDistinct on))
  | insertInto t => .ok (s.edit (·.setTarget .insert t))
  | update t => .ok (s.edit (·.setTarget .update t))
  | deleteFrom t => .ok (s.edit (·.setTarget .delete t))
  | fromTable t => .ok (s.edit (·.setTable t))
  | addFrom t => .ok (s.edit (·.addTable t))
  | join j => .ok (s.edit (·.addJoin j))
  | filter condition => .ok (s.edit (·.setFilter condition))
  | andFilter condition => .ok (s.edit (·.andFilter condition))
  | groupBy e => .ok (s.edit (·.addGroup e))
  | having condition => .ok (s.edit (·.setHaving condition))
  | orderBy order => .ok (s.edit (·.addOrder order))
  | orderByText text => (Field.parseOrder text).map fun order => s.edit (·.addOrder (.ofField order))
  | limit n => .ok (s.edit (·.setLimit n))
  | offset n => .ok (s.edit (·.setOffset n))
  | set field e => .ok (s.edit (·.addAssignment field e))
  | values pairs => .ok (s.edit (·.setSource (.values pairs)))
  | valueExprs pairs => .ok (s.edit (·.setSource (.exprs pairs)))
  | rows fields lines => .ok (s.edit (·.setSource (.rows fields lines)))
  | insertSelect fields q => .ok (s.edit (·.setSource (.select fields q)))
  | bind name value => .ok (s.change (·.bind name value))
  | dialect d => .ok (s.useDialect d)

/-- The reads that a query offers. Rows are read as records of any type, which says how to decode
them. -/
inductive Reading where
  | compile
  | sql
  | params
  | statement
  | all
  | one
  | column
  | scalar
  | count
  | execute
  | allAs {α : Type} (decode : Json → Option α)
  | oneAs {α : Type} (decode : Json → Option α)

/-- Decoders cannot be compared, but whether a read counts rows can be seen. -/
instance : (r : Reading) → Decidable (r = .count)
  | .count => isTrue rfl
  | .compile | .sql | .params | .statement | .all | .one | .column | .scalar | .execute
  | .allAs _ | .oneAs _ => isFalse nofun

namespace Read

/-- A read from a session on: its answer and the session after it. -/
def runFrom {α : Type} (r : Read α) (s : Session) : Except Fault α × Session := (r.run).run s

/-- How a read ends, its answer apart. -/
def ending {α : Type} (r : Read α) (s : Session) : Except Fault Unit × Session :=
  ((r.runFrom s).1.map fun _ => (), (r.runFrom s).2)

end Read

def Reading.ending (s : Session) : Reading → Except Fault Unit × Session
  | compile => Read.compiled.ending s
  | sql => Read.sql.ending s
  | params => Read.params.ending s
  | statement => Read.statement.ending s
  | all => Read.all.ending s
  | one => Read.one.ending s
  | column => Read.column.ending s
  | scalar => Read.scalar.ending s
  | count => Read.count.ending s
  | execute => Read.execute.ending s
  | allAs decode => (Read.allAs decode).ending s
  | oneAs decode => (Read.oneAs decode).ending s

/-- A query that is held, with what was computed for it and the number of its connection. -/
structure Holding where
  query : Query
  line : Option Nat
  compiled : Option Compiled
  rows : Option (List Row)
  affected : Option Nat

structure Workspace where
  holdings : List Holding
  /-- What each connection has been sent, oldest first. -/
  sent : Nat → List Call

/-- What is done with the queries that are held, each known by its place. -/
inductive Move where
  | create (d : Dialect)
  | createOn (line : Nat)
  | mutate (place : Nat) (m : Mutator)
  | connect (place line : Nat)
  | read (place : Nat) (r : Reading)
  | clone (place : Nat)
  | countQuery (place : Nat)

namespace Holding

def ofSession (line : Option Nat) (s : Session) : Holding :=
  ⟨s.query, line, s.compiled, s.rows, s.affected⟩

/-- A held query as a session on its connection. -/
def session (connections : Nat → Connection) (sent : Nat → List Call) (h : Holding) : Session :=
  ⟨h.query, h.line.map connections, h.compiled, h.rows, h.affected, (h.line.map sent).getD []⟩

end Holding

namespace Workspace

/-- Nothing is held yet; the connections may have been used before. -/
def start (sent : Nat → List Call) : Workspace := ⟨[], sent⟩

def hold (ws : Workspace) (h : Holding) : Workspace := { ws with holdings := ws.holdings ++ [h] }

/-- Put back a session at the place of a held query, and its calls at its connection. -/
def putBack (ws : Workspace) (place : Nat) (line : Option Nat) (s : Session) : Workspace where
  holdings := ws.holdings.set place (.ofSession line s)
  sent k := if line = some k then s.log else ws.sent k

variable (connections : Nat → Connection)

/-- One move: how it ends, and the workspace after it. A place where nothing is held has none. -/
def step (ws : Workspace) : Move → Except Fault Unit × Workspace
  | .create d => (.ok (), ws.hold (.ofSession none (Session.start d)))
  | .createOn line => (.ok (), ws.hold (.ofSession (some line) (Session.attached (connections line))))
  | .mutate place m =>
    match ws.holdings[place]? with
    | none => (.ok (), ws)
    | some h =>
      match m.apply (h.session connections ws.sent) with
      | .ok s => (.ok (), ws.putBack place h.line s)
      | .error fault => (.error fault, ws)
  | .connect place line =>
    match ws.holdings[place]? with
    | none => (.ok (), ws)
    | some h =>
      let s := (h.session connections ws.sent).connect (connections line)
      (.ok (), ws.putBack place (some line) { s with log := ws.sent line })
  | .read place r =>
    match ws.holdings[place]? with
    | none => (.ok (), ws)
    | some h =>
      let (ending, s) := r.ending (h.session connections ws.sent)
      (ending, ws.putBack place h.line s)
  | .clone place =>
    match ws.holdings[place]? with
    | none => (.ok (), ws)
    | some h => (.ok (), ws.hold h)
  | .countQuery place =>
    match ws.holdings[place]? with
    | none => (.ok (), ws)
    | some h => (.ok (), ws.hold (.ofSession h.line (h.session connections ws.sent).counting))

def run (ws : Workspace) (moves : List Move) : Workspace :=
  moves.foldl (fun ws m => (ws.step connections m).2) ws

end Workspace

end QueryCompiler
