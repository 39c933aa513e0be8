import QueryCompiler.Compile.Query
import QueryCompiler.Prepared
import QueryCompiler.Query.Edit
import QueryCompiler.Row

/-!
# Sessions

A session is a query under construction with the connection it is attached to, what was computed
for its present state, and the calls that were sent. A change clears what was computed; a read
computes it at most once until the next change, and a fault is not remembered.
-/
namespace QueryCompiler

inductive CallKind where
  | fetch
  | execute
  deriving DecidableEq, Repr

/-- A statement as it was sent to a connection. -/
structure Call where
  kind : CallKind
  statement : Prepared
  deriving Repr

/-- A database: its dialect, and its answers, which may depend on the calls before. -/
structure Connection where
  dialect : Dialect
  fetch : List Call → Prepared → Except Fault (List Row)
  execute : List Call → Prepared → Except Fault Nat

structure Session where
  query : Query
  connection : Option Connection
  compiled : Option Compiled
  rows : Option (List Row)
  affected : Option Nat
  /-- What the present connection has been sent, oldest first. -/
  log : List Call

/-- Reads of a session: they may fill its caches and send calls, and they may fail. -/
abbrev Read := ExceptT Fault (StateM Session)

namespace Session

def ofQuery (query : Query) (connection : Option Connection) (log : List Call) : Session :=
  ⟨query, connection, none, none, none, log⟩

def start (dialect : Dialect) : Session := ofQuery (.empty dialect) none []

/-- A session attached to a connection, in its dialect. -/
def attached (connection : Connection) : Session :=
  ofQuery (.empty connection.dialect) (some connection) []

/-- Change the query; nothing that was computed for the old one is kept. -/
def change (s : Session) (edit : Query → Query) : Session :=
  ofQuery (edit s.query) s.connection s.log

/-- Change the statement of the query. -/
def edit (s : Session) (f : Statement Query → Statement Query) : Session := s.change (·.edit f)

/-- Change the dialect; the connection stays. -/
def useDialect (s : Session) (dialect : Dialect) : Session := s.change (·.withDialect dialect)

/-- Attach another connection and take over its dialect. -/
def connect (s : Session) (connection : Connection) : Session :=
  ofQuery (s.query.withDialect connection.dialect) (some connection) []

/-- A session on the query that counts the rows, with the same connection. -/
def counting (s : Session) : Session := ofQuery s.query.counted s.connection s.log

end Session

namespace Read

/-- The compiled statement of the present state. -/
def compiled : Read Compiled := do
  match (← get).compiled with
  | some c => return c
  | none =>
    let c ← liftExcept (← get).query.compile
    modify fun s => { s with compiled := some c }
    return c

def sql : Read String := do return (← compiled).sql

def params : Read Bag := do return (← compiled).params

/-- The statement as the driver wants it, with its values. -/
def statement : Read Prepared := do
  let c ← compiled
  liftExcept ((Prepared.prepare (← get).query.dialect c.sql).bind c.params)

def connection : Read Connection := do
  match (← get).connection with
  | some connection => return connection
  | none => throw .notConnected

/-- Send a call: it is noted before its answer is looked at. -/
def send {α : Type} (kind : CallKind) (p : Prepared)
    (answer : List Call → Prepared → Except Fault α) : Read α := do
  let before := (← get).log
  modify fun s => { s with log := s.log ++ [⟨kind, p⟩] }
  liftExcept (answer before p)

def all : Read (List Row) := do
  match (← get).rows with
  | some rows => return rows
  | none =>
    let connection ← connection
    let p ← statement
    let rows ← send .fetch p connection.fetch
    modify fun s => { s with rows := some rows }
    return rows

def one : Read (Option Row) := do return (← all).head?

def column : Read (List Value) := do return (← all).map Row.first

def scalar : Read Value := do
  match ← one with
  | some row => return row.first
  | none => throw .rowNotFound

/-- The number that a count answered. -/
def countOf (v : Value) : Except Fault Nat :=
  match v.asInt with
  | some n => if 0 ≤ n then .ok n.toNat else .error (.execution ("COUNT(*) returned " ++ v.display))
  | none => .error (.execution ("COUNT(*) returned " ++ v.display))

/-- The number of rows, asked of the database; only the calls it sent stay behind. -/
def count : Read Nat := do
  let (answer, after) := (scalar.run).run (← get).counting
  modify fun s => { s with log := after.log }
  liftExcept (answer.bind countOf)

def perform : Read Nat := do
  if (← get).query.statement.kind = .select then return (← all).length
  let connection ← connection
  let p ← statement
  send .execute p connection.execute

/-- The number of rows selected or changed. -/
def execute : Read Nat := do
  match (← get).affected with
  | some n => return n
  | none =>
    let n ← perform
    modify fun s => { s with affected := some n }
    return n

/-- All rows as records. -/
def allAs {α : Type} (decode : Json → Option α) : Read (List α) := do
  liftExcept ((← all).mapM (Row.hydrate decode))

/-- The first row as a record. -/
def oneAs {α : Type} (decode : Json → Option α) : Read α := do
  match ← one with
  | some row => liftExcept (row.hydrate decode)
  | none => throw .rowNotFound

/-- The two reads of records for one example of them. -/
def allUsers : Read (List User) := allAs User.decode

def oneUser : Read User := oneAs User.decode

end Read

end QueryCompiler
