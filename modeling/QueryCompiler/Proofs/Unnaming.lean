import QueryCompiler.Compile.Expr
import QueryCompiler.Proofs.Revision

/-!
# Parameters without their names

A parameter that has a name may be known by its position instead: its placeholder becomes a
question mark. A query and the one in which some names are given up differ in placeholders only, so
that the names tell which question mark is which.
-/
namespace QueryCompiler

/-- A placeholder that is a question mark if its name is given up. -/
def Mark.unname (names : List String) : Mark → Mark
  | reference name => if name ∈ names then positional else reference name
  | m => m

/-- A string that is a placeholder, and its name is given up. -/
def Value.unname (names : List String) : Value → Value
  | .text s =>
    match Mark.ofText? s with
    | some m => .text (m.unname names).text
    | none => .text s
  | v => v

/-- The revision that gives up some names of parameters. -/
def Revision.unnaming (names : List String) : Revision where
  literal := Value.unname names
  param name :=
    if name ∈ names ∧ Text.isIdentifier name = true then some (.text Mark.positional.text) else none
  data := id

/-- The query in which some parameters are known by their positions. -/
def Query.unname (names : List String) (q : Query) : Query := q.revise (.unnaming names)

/-- A string that is a placeholder is the text of it. -/
theorem Mark.text_of_ofText {s : String} {m : Mark} (h : Mark.ofText? s = some m) : m.text = s := by
  unfold ofText? at h
  split at h
  · rename_i hs
    cases h
    exact hs.symm
  · split at h
    · rename_i hnamed
      cases h
      unfold Text.isNamedPlaceholder at hnamed
      split at hnamed
      · rename_i name hname
        apply String.toList_injective
        simp [text, hname]
      · cases hnamed
    · cases h

theorem Mark.unname_nil (m : Mark) : m.unname [] = m := by
  cases m <;> simp [unname]

/-- What is left of a placeholder is one. -/
theorem stringSql_unname {s : String} {m : Mark} (h : Mark.ofText? s = some m)
    (names : List String) :
    stringSql (m.unname names).text = pure (.ofMark (m.unname names)) := by
  have hstay : stringSql m.text = pure (.ofMark m) := by
    rw [stringSql, Mark.text_of_ofText h, h]
  cases m with
  | positional | lifted name => exact hstay
  | reference name =>
      rw [Mark.unname]
      split
      · rfl
      · exact hstay

/-- No name is given up. -/
theorem Revision.unnaming_nil : Revision.unnaming [] = .unchanged := by
  have hvalue : ∀ v : Value, v.unname [] = v := by
    intro v
    cases v with
    | text s =>
        rw [Value.unname]
        cases hm : Mark.ofText? s with
        | none => rfl
        | some m =>
            simp only [Mark.unname_nil, Mark.text_of_ofText hm]
    | null | bool | int | float => rfl
  rw [unnaming, funext hvalue]
  simp [unchanged, funext_iff]

end QueryCompiler
