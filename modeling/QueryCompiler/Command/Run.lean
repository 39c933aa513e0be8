import QueryCompiler.Command.Arguments
import QueryCompiler.Command.Grid
import QueryCompiler.Document.Reading
import QueryCompiler.Session
import QueryCompiler.Settings.Host

/-!
# Running commands

A query document is given inline, on standard input or as a file. It is compiled and printed, or
sent to the database that a URL names.
-/
namespace QueryCompiler.Command

open Report (say attempt)

/-- A value on the command line: a number, a truth value, null, or else a text. -/
def bindingValue (raw : String) : Value :=
  match Decimal.readInt? raw, Decimal.readFloat? raw with
  | some n, _ => .int n
  | none, some x => .float x
  | none, none =>
    if raw = "true" then .bool true
    else if raw = "false" then .bool false
    else if Text.sameWord raw "null" then .null
    else .text raw

/-- Split a binding at its first equals sign. -/
def nameAndValue? (binding : String) : Option (String × String) :=
  let name := binding.toList.takeWhile (· != '=')
  match binding.toList.drop name.length with
  | [] => none
  | _ :: value => some (Text.trim Text.isBlank (String.ofList name), String.ofList value)

/-- Bind values by name, and values without a name by their position among those. The bindings
before a fault stay. -/
def applyBindings (position : Nat) (q : Query) : List String → Query × Option CommandFault
  | [] => (q, none)
  | binding :: rest =>
    match nameAndValue? binding with
    | none =>
      let name := toString (position + 1)
      applyBindings (position + 1) (q.bind name (bindingValue binding)) rest
    | some (name, raw) =>
      if name.isEmpty then (q, some (.unnamedBinding binding))
      else applyBindings position (q.bind name (bindingValue raw)) rest

def bound (q : Query) (bindings : List String) : Report Query :=
  match applyBindings 0 q bindings with
  | (q, none) => pure q
  | (_, some fault) => throw fault

def sayCompiled (c : Compiled) : Report Unit := do
  say "Generated SQL:"
  say c.sql
  if !c.params.isEmpty then
    say ""
    say "Parameters:"
    c.params.entries.forM fun (name, v) => say ("  :" ++ name ++ " = " ++ v.display)

/-- How databases are reached: by dialect and URL. -/
abbrev Driver := Builtin → String → Except Fault Connection

def connectTo (driver : Driver) (url : String) : Except Fault Connection :=
  match Builtin.ofUrl? url with
  | some dialect => driver dialect url
  | none => .error (.connection ("unsupported database URL '" ++ url ++ "'"))

/-- Send a query and print what comes back. -/
def sayAnswer (options : Options) (session : Session) : Report Unit := do
  if session.query.statement.kind = .select then
    let rows ← attempt ((Read.all.run).run session).1
    (rowLines (options.format == some .json) rows).forM say
  else
    let affected ← attempt ((Read.execute.run).run session).1
    say ("✓ " ++ toString affected ++ " rows affected")

/-- Compile a document and print it, or send it to a database. -/
def runDocument (driver : Driver) (options : Options) (settings : Settings) (text : String) :
    Report Unit := do
  let url := options.databaseUrl <|> settings.databaseUrl
  let dialect := options.dialect.getD (settings.effectiveDialect url)
  let q ← bound (← attempt (Document.read dialect.dialect text)) options.bindings
  if options.verbose then say ("Dialect: " ++ dialect.name)
  match url, options.dryRun with
  | some url, false =>
    if options.verbose then say ("Connecting to: " ++ url)
    let connection ← attempt (connectTo driver url)
    let session := (Session.ofQuery q none []).connect connection
    if options.verbose then say ("SQL: " ++ (← attempt session.query.compile).sql)
    sayAnswer options session
  | _, _ =>
    sayCompiled (← attempt q.compile)
    if !options.dryRun then
      say ""
      say "⚠ No database URL. Use --database-url or set SQLWEAVE_DATABASE_URL"

/-- The placeholders of a statement with the values they would get. -/
def sayPlaceholders (params : Bag) (number : Nat) : List String → Report Unit
  | [] => pure ()
  | name :: rest => do
    let value := ((params.get? name).map Value.display).getD "(unbound)"
    say ("    " ++ toString number ++ " :" ++ name ++ " = " ++ value)
    sayPlaceholders params (number + 1) rest

def sayExplained (d : Dialect) (q : Query) (c : Compiled) : Report Unit := do
  say ("  Kind: " ++ q.statement.kind.word)
  say ("  SQL: " ++ c.sql)
  let p := Prepared.prepare d c.sql
  if !p.names.isEmpty then
    say ("  Driver SQL: " ++ p.sql)
    say "  Placeholders:"
    sayPlaceholders c.params 1 p.names

/-- Show how a document compiles in each dialect; one that cannot be read ends the report. -/
def explainIn (text : String) : List Builtin → Report Unit
  | [] => pure ()
  | b :: rest => do
    say ""
    say ("Dialect: " ++ b.name)
    match Document.read b.dialect text with
    | .error fault => say ("  Document Error: " ++ fault.message)
    | .ok q =>
      match q.compile with
      | .error fault => say ("  Build Error: " ++ fault.message)
      | .ok c => sayExplained b.dialect q c
      explainIn text rest

def explainDocument (text : String) : Report Unit := do
  say "sqlweave Query Explanation"
  explainIn text Builtin.all

variable {m : Type → Type} [Monad m]

/-- The text of a document: inline if it starts with a brace, else standard input or a file. -/
def documentText (host : Host m) (source : String) : m (Except CommandFault String) := do
  if (Text.trimStart Text.isBlank source.toList).head? = some '\x7b' then return .ok source
  if source = "-" then
    match ← host.input with
    | .ok text => return .ok text
    | .error flaw => return .error (.noInput flaw)
  match ← host.text source with
  | .ok text => return .ok text
  | .error flaw => return .error (.noDocument source flaw)

/-- Go on with the text of a document, once it is there. -/
def withDocument (host : Host m) (source : String) (report : String → Report Unit) :
    m (Report Unit) := do
  match ← documentText host source with
  | .ok text => return report text
  | .error fault => return throw fault

/-- What the process leaves behind. -/
structure Outcome where
  code : Nat
  printed : String
  message : Option String
  deriving DecidableEq, Repr

def Outcome.ofReport (report : Report Unit) : Outcome :=
  match report.output with
  | (text, none) => ⟨0, text, none⟩
  | (text, some fault) => ⟨1, text, some fault.message⟩

def hintLines : List String :=
  ["sqlweave: relational query compiler", "", "Usage: sqlweave <QUERY> [OPTIONS]", "",
    "Try: sqlweave --help"]

def helpLines : List String :=
  ["Compile JSON query documents into dialect-correct SQL", "",
    "Usage: sqlweave [OPTIONS] [QUERY] [COMMAND]", "",
    "Commands: explain <QUERY>, operators, help",
    "Options: --dry-run, --dialect, --bind, --format, --database-url, --verbose"]

/-- The report of a task, once the settings are read. -/
def report (host : Host m) (driver : Driver) (settings : Settings) : Task → m (Report Unit)
  | .hint => return hintLines.forM say
  | .help => return helpLines.forM say
  | .version => return say "sqlweave 0.3.0"
  | .operators => return operatorLines.forM say
  | .explain source => withDocument host source explainDocument
  | .run source options =>
    let options := { options with databaseUrl := options.databaseUrl <|> host.databaseUrl }
    withDocument host source (runDocument driver options settings)

/-- Tasks that need no settings. -/
def isInformation : Task → Bool
  | .help => true
  | .version => true
  | _ => false

/-- Run the program: arguments that make no sense end it first, then broken settings. -/
def program (host : Host m) (driver : Driver) (args : List String) : m Outcome := do
  match task? args with
  | none => return ⟨2, "", none⟩
  | some task =>
    if isInformation task then return .ofReport (← report host driver .empty task)
    match ← Settings.load host with
    | .error fault => return ⟨1, "", some fault.message⟩
    | .ok settings => return .ofReport (← report host driver settings task)

end QueryCompiler.Command
