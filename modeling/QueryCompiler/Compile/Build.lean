import QueryCompiler.Param.Binder

/-!
# Steps of a compilation

A compilation is a tree of the two things it asks of its binder: to lift a value, whose generated
name it goes on with, and to take in the parameters of a nested query. Running it on a binder
gives its answer and the binder at its end; a fault does not undo what was bound before. The same
tree tells which values were lifted and under which names.
-/
namespace QueryCompiler

inductive Build (α : Type) where
  | done (a : α)
  | fail (fault : Fault)
  | bindValue (value : Value) (next : String → Build α)
  | takeIn (bag : Bag) (next : Build α)

namespace Build

variable {α β : Type}

protected def bind (build : Build α) (next : α → Build β) : Build β :=
  match build with
  | done a => next a
  | fail fault => fail fault
  | bindValue value more => bindValue value fun name => (more name).bind next
  | takeIn bag more => takeIn bag (more.bind next)

instance : Monad Build where
  pure := done
  bind := Build.bind

def ofExcept : Except Fault α → Build α
  | .ok a => done a
  | .error fault => fail fault

/-- Lift a value out of the text. -/
def lift (value : Value) : Build String := bindValue value done

/-- Take in the parameters of a nested query. -/
def merge (bag : Bag) : Build Unit := takeIn bag (done ())

/-- Run a compilation: the answer, and the binder at its end. -/
def run : Build α → Binder → Except Fault α × Binder
  | done a, binder => (.ok a, binder)
  | fail fault, binder => (.error fault, binder)
  | bindValue value next, binder => (next (binder.lift value).1).run (binder.lift value).2
  | takeIn bag next, binder =>
    match binder.merge bag with
    | (.ok (), binder) => next.run binder
    | (.error fault, binder) => (.error fault, binder)

/-- The values that a run lifts, with the names generated for them, in order. -/
def lifts : Build α → Binder → List (String × Value)
  | done _, _ => []
  | fail _, _ => []
  | bindValue value next, binder =>
    ((binder.lift value).1, value) :: (next (binder.lift value).1).lifts (binder.lift value).2
  | takeIn bag next, binder =>
    match binder.merge bag with
    | (.ok (), binder) => next.lifts binder
    | (.error _, _) => []

end Build

end QueryCompiler
