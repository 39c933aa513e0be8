import QueryCompiler.Command.Run

/-!
# The program

Runs the command line on the real files, and prints and exits as it says.
-/
namespace QueryCompiler

open Command

/-- The flaw behind a failed access to a file. A file that was found but is a folder is reported
without its name. -/
def flawOf : IO.Error → FileFlaw
  | .noFileOrDirectory .. => .missing
  | .inappropriateType none .. => .isADirectory
  | .inappropriateType .. => .notADirectory
  | .invalidArgument .. => .nameTooLong
  | .noSuchThing .. => .missing
  | _ => .notText

def fileText (path : String) : IO (Except FileFlaw String) := do
  try return .ok (← IO.FS.readFile path)
  catch e => return .error (flawOf e)

partial def drain (stream : IO.FS.Stream) (text : String) : IO String := do
  let line ← stream.getLine
  if line.isEmpty then return text else drain stream (text ++ line)

def inputText : IO (Except FileFlaw String) := do
  try return .ok (← drain (← IO.getStdin) "")
  catch e => return .error (flawOf e)

def isPresent (path : String) : IO Bool := return Host.isPresent (← fileText path)

/-- The folder named by the environment, else the usual one in the user's home. -/
def settingsFolder : IO (Option String) := do
  match ← IO.getEnv "XDG_CONFIG_HOME" with
  | some folder => if folder.startsWith "/" then return some folder else homeFolder
  | none => homeFolder
where
  homeFolder : IO (Option String) := return (← IO.getEnv "HOME").map (· ++ "/.config")

def host : IO (Host IO) := do
  return ⟨fileText, isPresent, inputText, ← settingsFolder, ← IO.getEnv "SQLWEAVE_DATABASE_URL"⟩

/-- No database driver is linked in. -/
def noDriver : Driver := fun dialect _ =>
  .error (.connection ("no driver for " ++ dialect.name ++ " databases"))

end QueryCompiler

def main (args : List String) : IO UInt32 := do
  let outcome ← QueryCompiler.Command.program (← QueryCompiler.host) QueryCompiler.noDriver args
  IO.print outcome.printed
  match outcome.message with
  | some message => IO.eprintln ("Error: " ++ message)
  | none => pure ()
  return outcome.code.toUInt32
