import QueryCompiler.Settings.Basic
import QueryCompiler.Text.Parts

/-!
# Files around the program

A host says what the program can see of its surroundings: files, standard input, and where the
user keeps settings. It works in any monad, so that the program can be run on real files as well as
on a list of files that is given with their texts.
-/
namespace QueryCompiler

structure Host (m : Type → Type) where
  /-- The text of a file. -/
  text : String → m (Except FileFlaw String)
  /-- Whether a path leads anywhere. -/
  present : String → m Bool
  /-- Everything on standard input. -/
  input : m (Except FileFlaw String)
  /-- The folder of the user's settings. -/
  settingsFolder : Option String
  /-- The database named by the environment. -/
  databaseUrl : Option String

namespace Settings

variable {m : Type → Type} [Monad m]

def fileName : String := "sqlweave.toml"

def userFile (folder : String) : String := folder ++ "/sqlweave/config.toml"

/-- The settings file of the working folder, else the one of the user. -/
def locate (host : Host m) : m (Option String) := do
  if ← host.present fileName then return some fileName
  match host.settingsFolder with
  | none => return none
  | some folder => return if ← host.present (userFile folder) then some (userFile folder) else none

/-- Read a settings file; a fault in its text is reported under its path. -/
def ofFile (host : Host m) (path : String) : m (Except Fault Settings) := do
  match ← host.text path with
  | .error flaw => return .error (.file flaw)
  | .ok text =>
    match parse text with
    | .ok s => return .ok s
    | .error _ => return .error (.settings (.unreadableFile path))

/-- The settings of the file found, or none at all. -/
def load (host : Host m) : m (Except Fault Settings) := do
  match ← locate host with
  | some path => ofFile host path
  | none => return .ok empty

end Settings

namespace Host

/-- The longest name of a file and the longest path, in bytes. -/
def nameLimit : Nat := 255

def pathLimit : Nat := 4095

/-- The steps of a path; one that stays in the same folder does not count. -/
def pathParts (path : String) : List String :=
  let parts := (Text.words (· == '/') path).filter (· != ".")
  if path.startsWith "/" then "/" :: parts else parts

/-- Where a path leads from the folder above the working one: of that nothing is known, but that the
folders above it are there. -/
def above (rest : List String) : FileFlaw := if rest.all (· == "..") then .isADirectory else .missing

/-- Follow a path through a list of files, step by step. A file ends it, unless the path goes on or
asks for a folder. -/
def follow (files : List (List String × String)) (asFolder : Bool) (here : List String) :
    List String → Except FileFlaw String
  | [] => .error .isADirectory
  | part :: rest =>
    let there := here ++ [part]
    if part = ".." then
      if here.isEmpty then .error (above rest) else follow files asFolder here.dropLast rest
    else if nameLimit < part.utf8ByteSize then .error .nameTooLong
    else
      match files.find? (·.1 == there) with
      | some (_, text) => if rest.isEmpty && !asFolder then .ok text else .error .notADirectory
      | none =>
        if files.any fun (file, _) => there.isPrefixOf file then follow files asFolder there rest
        else .error .missing

/-- The text of a file in a list of files. -/
def lookup (files : List (List String × String)) (path : String) : Except FileFlaw String :=
  if path.isEmpty then .error .missing
  else if pathLimit < path.utf8ByteSize then .error .nameTooLong
  else if path = "/" then .error .isADirectory
  else follow files (path.endsWith "/" || path.endsWith "/.") [] (pathParts path)

/-- Whether a path leads anywhere, told from what reading it gives. -/
def isPresent : Except FileFlaw String → Bool
  | .ok _ => true
  | .error .isADirectory => true
  | .error .notText => true
  | .error _ => false

/-- A host with nothing but the files given. -/
def ofFiles (files : List (String × String)) (input : String) (folder url : Option String) :
    Host Id :=
  let files := files.map fun (path, text) => (pathParts path, text)
  ⟨lookup files, fun path => isPresent (lookup files path), .ok input, folder, url⟩

end Host

end QueryCompiler
