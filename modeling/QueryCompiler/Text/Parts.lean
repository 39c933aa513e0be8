/-!
# Parts of a text

`partsWhere` cuts a text at every character of a class and keeps empty parts, so there is always
one part more than there are cuts. `words` drops the empty ones.
-/
namespace QueryCompiler.Text

/-- The runs of characters between the characters of a class; at least one, possibly empty. -/
def partsWhere (cut : Char → Bool) : List Char → List (List Char)
  | [] => [[]]
  | c :: rest =>
    if cut c then [] :: partsWhere cut rest
    else match partsWhere cut rest with
      | [] => [[c]]
      | part :: others => (c :: part) :: others

/-- The parts of a dotted name. -/
def dotParts (s : String) : List String := (partsWhere (· == '.') s.toList).map String.ofList

/-- The maximal runs of characters outside a class of blanks. -/
def words (blank : Char → Bool) (s : String) : List String :=
  ((partsWhere blank s.toList).filter fun part => !part.isEmpty).map String.ofList

end QueryCompiler.Text
