import QueryCompiler.Fault
import QueryCompiler.Param.Bag
import QueryCompiler.Param.Fresh

/-!
# Binders

A binder collects the parameters of one compilation. It starts from the values bound to the query,
takes in those of nested queries, and gives lifted literals the names `p1`, `p2`, … that nobody
has taken yet.
-/
namespace QueryCompiler

structure Binder where
  bag : Bag
  count : Nat
  deriving Repr

namespace Binder

def ofBag (bag : Bag) : Binder := ⟨bag, 0⟩

def generatedName (n : Nat) : String := "p" ++ toString n

/-- Take in one parameter: a name that is there must hold an equal value. -/
def mergeEntry (bag : Bag) (name : String) (value : Value) : Except Fault Bag :=
  match bag.get? name with
  | some old => if old == value then .ok bag else .error (.paramConflict name)
  | none => .ok (bag.insert name value)

/-- Take in parameters one by one; those before a conflict stay. -/
def mergeEntries (binder : Binder) : List (String × Value) → Except Fault Unit × Binder
  | [] => (.ok (), binder)
  | (name, value) :: rest =>
    match mergeEntry binder.bag name value with
    | .ok bag => mergeEntries { binder with bag } rest
    | .error fault => (.error fault, binder)

def merge (binder : Binder) (bag : Bag) : Except Fault Unit × Binder :=
  binder.mergeEntries bag.entries

/-- Bind a value under a fresh generated name. -/
def lift (binder : Binder) (value : Value) : String × Binder :=
  let n := firstFree binder.bag.contains generatedName binder.bag.size (binder.count + 1)
  (generatedName n, ⟨binder.bag.insert (generatedName n) value, n⟩)

end Binder

end QueryCompiler
