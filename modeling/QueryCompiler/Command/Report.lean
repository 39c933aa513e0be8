import QueryCompiler.Fault

/-!
# Reports

A command prints lines and may end with a fault; what it printed before the fault stays.
-/
namespace QueryCompiler.Command

inductive CommandFault where
  | fault (fault : Fault)
  | noDocument (source : String) (flaw : FileFlaw)
  | noInput (flaw : FileFlaw)
  | unnamedBinding (binding : String)

namespace CommandFault

/-- What went wrong, without the cause behind it. -/
def summary : CommandFault → String
  | fault f => f.message
  | noDocument source _ => "cannot read query document '" ++ source ++ "'"
  | noInput flaw => flaw.message
  | unnamedBinding binding => "binding '" ++ binding ++ "' has no parameter name"

/-- What went wrong and why. -/
def message : CommandFault → String
  | noDocument source flaw => (noDocument source flaw).summary ++ ": " ++ flaw.message
  | other => other.summary

end CommandFault

/-- Commands: they print to a text and may fail. -/
abbrev Report := ExceptT CommandFault (StateM String)

namespace Report

def say (line : String) : Report Unit := modify (· ++ line ++ "\n")

def attempt {α : Type} (answer : Except Fault α) : Report α :=
  match answer with
  | .ok a => pure a
  | .error fault => throw (.fault fault)

/-- The printed text, and the fault at the end if there is one. -/
def output (report : Report Unit) : String × Option CommandFault :=
  match (report.run).run "" with
  | (.ok _, text) => (text, none)
  | (.error fault, text) => (text, some fault)

end Report

end QueryCompiler.Command
