import QueryCompiler.Dialect.Builtin
import QueryCompiler.Settings.Line

/-!
# Settings

The settings name a database, a dialect and a filter for log messages. The dialect that a URL
implies goes before the one that is set.
-/
namespace QueryCompiler

structure Settings where
  databaseUrl : Option String
  dialect : Option Builtin
  log : Option String
  deriving DecidableEq, Repr

namespace Settings

def empty : Settings := ⟨none, none, none⟩

/-- The entries whose first key is the one given. -/
def under (key : String) (entries : List Entry) : List Entry :=
  entries.filter fun entry => entry.1.head? == some key

/-- A setting that is a text: at most one entry, and nothing inside it. -/
def text? : List Entry → Option (Option String)
  | [] => some none
  | [([_], .text s)] => some (some s)
  | _ => none

/-- A setting that is one of several choices: a text, or a table with nothing but an empty member
of that name, in any way of writing such a table. -/
def choiceName? : List Entry → Option (Option String)
  | [] => some none
  | [([_], .text name)] => some (some name)
  | [([_], .choice name)] => some (some name)
  | [([_, name], .hollow)] => some (some name)
  | [([_, name], .heading)] => some (some name)
  | [([_], .heading), ([_, name], .hollow)] => some (some name)
  | [([_], .heading), ([_, name], .heading)] => some (some name)
  | [([_, name], .heading), ([_], .heading)] => some (some name)
  | _ => none

/-- A dialect is known by its exact name only. -/
def dialect? (entries : List Entry) : Option (Option Builtin) := do
  match ← choiceName? entries with
  | none => return none
  | some name => return some (← Builtin.ofName? name)

def keys : List String := ["database_url", "dialect", "log"]

def isKnown (entry : Entry) : Bool := entry.1.head?.any keys.contains

/-- Settings from entries; only the known keys are allowed. -/
def ofEntries? (entries : List Entry) : Option Settings := do
  if !entries.all isKnown then none
  return ⟨← text? (under "database_url" entries), ← dialect? (under "dialect" entries),
    ← text? (under "log" entries)⟩

def parse (text : String) : Except Fault Settings :=
  match (entries? text).bind ofEntries? with
  | some s => .ok s
  | none => .error (.settings .unreadable)

/-- The dialect of the URL at hand, else the one that is set, else PostgreSQL. -/
def effectiveDialect (s : Settings) (url : Option String) : Builtin :=
  (((url <|> s.databaseUrl).bind Builtin.ofUrl?) <|> s.dialect).getD .postgres

end Settings

end QueryCompiler
