import QueryCompiler.Dialect.Builtin

/-!
# Command line arguments

Options may stand before and after the query, in long and short spelling; short ones may share one
dash. A value follows its option or is attached to it. `explain`, `operators` and `help` are
commands wherever they stand on their own, and behind `--` everything is a query.
-/
namespace QueryCompiler.Command

inductive Format where
  | table
  | json
  deriving DecidableEq, Repr

structure Options where
  query : Option String
  dryRun : Bool
  verbose : Bool
  dialect : Option Builtin
  bindings : List String
  format : Option Format
  databaseUrl : Option String
  deriving DecidableEq, Repr

def Options.none : Options := ⟨.none, false, false, .none, [], .none, .none⟩

/-- What the arguments ask for. -/
inductive Task where
  | hint
  | run (source : String) (options : Options)
  | explain (source : String)
  | operators
  | help
  | version
  deriving DecidableEq, Repr

inductive Flag where
  | dryRun
  | verbose
  | dialect
  | bind
  | format
  | databaseUrl
  | help
  | version
  deriving DecidableEq, Repr

namespace Flag

def ofLong? : String → Option Flag
  | "dry-run" => some dryRun
  | "verbose" => some verbose
  | "dialect" => some dialect
  | "bind" => some bind
  | "format" => some format
  | "database-url" => some databaseUrl
  | "help" => some help
  | "version" => some version
  | _ => none

def ofShort? : Char → Option Flag
  | 'd' => some dryRun
  | 'v' => some verbose
  | 'b' => some bind
  | 'f' => some format
  | 'h' => some help
  | 'V' => some version
  | _ => none

def takesValue : Flag → Bool
  | dialect | bind | format | databaseUrl => true
  | _ => false

end Flag

/-- An argument, taken apart. -/
inductive Item where
  | flag (flag : Flag) (value : Option String)
  | unknown
  | word (text : String)
  /-- An argument behind `--`. -/
  | trailing (text : String)
  deriving DecidableEq, Repr

/-- The flags that share one dash; the first that takes a value takes the rest of the argument. -/
def shortItems : List Char → List Item
  | [] => []
  | c :: rest =>
    match Flag.ofShort? c with
    | none => [.unknown]
    | some flag =>
      if flag.takesValue then
        match rest with
        | [] => [.flag flag none]
        | '=' :: value => [.flag flag (some (String.ofList value))]
        | value => [.flag flag (some (String.ofList value))]
      else .flag flag none :: shortItems rest

def longItem (cs : List Char) : Item :=
  let name := cs.takeWhile (· != '=')
  match Flag.ofLong? (String.ofList name), cs.drop name.length with
  | none, _ => .unknown
  | some flag, _ :: value => .flag flag (some (String.ofList value))
  | some flag, [] => .flag flag none

def itemsOf (arg : String) : List Item :=
  match arg.toList with
  | '-' :: '-' :: name => [longItem name]
  | '-' :: c :: rest => shortItems (c :: rest)
  | _ => [.word arg]

def items : List String → List Item
  | [] => []
  | arg :: rest => if arg = "--" then rest.map .trailing else itemsOf arg ++ items rest

def once {α : Type} (old : Option α) (value : Option α) : Option (Option α) :=
  if old.isSome || value.isNone then none else some value

def formatNamed? : String → Option Format
  | "table" => some .table
  | "json" => some .json
  | _ => none

/-- Set an option that takes a value; all but bindings may be given only once. -/
def setValue (o : Options) (flag : Flag) (value : String) : Option Options :=
  match flag with
  | .dialect =>
    (once o.dialect (Builtin.parse value).toOption).map fun dialect => { o with dialect }
  | .bind =>
    let values := (Text.partsWhere (· == ',') value.toList).map String.ofList
    some { o with bindings := o.bindings ++ values }
  | .format => (once o.format (formatNamed? value)).map fun format => { o with format }
  | .databaseUrl =>
    (once o.databaseUrl (some value)).map fun databaseUrl => { o with databaseUrl }
  | _ => none

def setSwitch (o : Options) (flag : Flag) : Option Options :=
  match flag with
  | .dryRun => if o.dryRun then none else some { o with dryRun := true }
  | .verbose => if o.verbose then none else some { o with verbose := true }
  | _ => none

def setQuery (o : Options) (text : String) : Option Options :=
  if o.query.isSome then none else some { o with query := some text }

/-- The arguments of `explain`: one query. -/
def explainTask (source : Option String) : List Item → Option Task
  | [] => source.map .explain
  | .flag .help none :: _ => some .help
  | .word text :: rest => if source.isSome then none else explainTask (some text) rest
  | .trailing text :: rest => if source.isSome then none else explainTask (some text) rest
  | _ :: _ => none

def operatorsTask : List Item → Option Task
  | [] => some .operators
  | .flag .help none :: _ => some .help
  | _ :: _ => none

def helpTask : List Item → Option Task
  | [] => some .help
  | [.word text] => if ["explain", "operators", "help"].contains text then some .help else none
  | _ => none

/-- Read the items from left to right; `none` for arguments that make no sense. -/
def taskOf (o : Options) : List Item → Option Task
  | [] =>
    match o.query with
    | some source => some (.run source o)
    | none => some .hint
  | .flag flag (some value) :: rest => do taskOf (← setValue o flag value) rest
  | .flag .help none :: _ => some .help
  | .flag .version none :: _ => some .version
  | .flag flag none :: .word value :: rest =>
    if flag.takesValue then do taskOf (← setValue o flag value) rest
    else do taskOf (← setSwitch o flag) (.word value :: rest)
  | .flag flag none :: rest => do taskOf (← setSwitch o flag) rest
  | .unknown :: _ => none
  | .word "explain" :: rest => explainTask none rest
  | .word "operators" :: rest => operatorsTask rest
  | .word "help" :: rest => helpTask rest
  | .word text :: rest => do taskOf (← setQuery o text) rest
  | .trailing text :: rest => do taskOf (← setQuery o text) rest

/-- What the arguments ask for; `none` if they cannot be understood. -/
def task? (args : List String) : Option Task := taskOf .none (items args)

end QueryCompiler.Command
