import QueryCompiler.Value

/-!
# Parameter bags

Named values in the order in which the names first came in. Inserting under a name that is there
replaces the value in place, so no name occurs twice.
-/
namespace QueryCompiler

structure Bag where
  entries : List (String × Value)
  nodup : (entries.map (·.1)).Nodup
  deriving Repr

namespace Bag

def empty : Bag := ⟨[], .nil⟩

instance : Inhabited Bag := ⟨empty⟩

def put (name : String) (value : Value) : List (String × Value) → List (String × Value)
  | [] => [(name, value)]
  | (other, old) :: rest =>
    if other = name then (other, value) :: rest else (other, old) :: put name value rest

theorem names_put (name : String) (value : Value) (entries : List (String × Value)) :
    (put name value entries).map (·.1) =
      if name ∈ entries.map (·.1) then entries.map (·.1) else entries.map (·.1) ++ [name] := by
  induction entries with
  | nil => simp [put]
  | cons entry rest ih =>
    obtain ⟨other, old⟩ := entry
    by_cases h : other = name
    · simp [put, h]
    · have hne : name ≠ other := fun e => h e.symm
      simp only [put, h, ↓reduceIte, List.map_cons, ih, List.mem_cons, hne, false_or]
      split <;> simp

theorem nodup_put (name : String) (value : Value) {entries : List (String × Value)}
    (h : (entries.map (·.1)).Nodup) : ((put name value entries).map (·.1)).Nodup := by
  rw [names_put]
  split
  · exact h
  · rename_i hn
    refine List.nodup_append.mpr ⟨h, by simp, ?_⟩
    intro a ha b hb e
    simp only [List.mem_singleton] at hb
    exact hn (hb ▸ e ▸ ha)

def insert (bag : Bag) (name : String) (value : Value) : Bag :=
  ⟨put name value bag.entries, nodup_put name value bag.nodup⟩

def ofList (entries : List (String × Value)) : Bag :=
  entries.foldl (fun bag entry => bag.insert entry.1 entry.2) empty

def get? (bag : Bag) (name : String) : Option Value :=
  (bag.entries.find? (·.1 == name)).map (·.2)

def contains (bag : Bag) (name : String) : Bool := (bag.get? name).isSome

def size (bag : Bag) : Nat := bag.entries.length

def isEmpty (bag : Bag) : Bool := bag.entries.isEmpty

def names (bag : Bag) : List String := bag.entries.map (·.1)

def toJson (bag : Bag) : Json := .object (bag.entries.map fun (name, value) => (name, value.toJson))

end Bag

end QueryCompiler
