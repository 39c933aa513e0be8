/-!
# SQL text under construction

The compiler keeps its placeholders apart from the rest of the text, so that it is known which of
them it wrote and why. `Sql.render` is the text itself.
-/
namespace QueryCompiler

/-- A placeholder, by the reason for which it is written. -/
inductive Mark where
  /-- A question mark: a parameter known by its position. -/
  | positional
  /-- A parameter that the query refers to by name. -/
  | reference (name : String)
  /-- A value that was lifted out of the text under a generated name. -/
  | lifted (name : String)
  deriving DecidableEq, Repr

def Mark.text : Mark → String
  | positional => "?"
  | reference name => ":" ++ name
  | lifted name => ":" ++ name

inductive Chunk where
  | text (s : String)
  | mark (m : Mark)
  deriving DecidableEq, Repr

namespace Chunk

def render : Chunk → String
  | text s => s
  | mark m => m.text

def mark? : Chunk → Option Mark
  | text _ => none
  | mark m => some m

end Chunk

structure Sql where
  chunks : List Chunk
  deriving DecidableEq, Repr

/-- What a text can be put together from, be it with or without marks. -/
class SqlText (τ : Type) extends Append τ where
  plain : String → τ

instance : SqlText String where
  plain s := s

namespace Sql

def ofString (s : String) : Sql := ⟨[.text s]⟩

instance : Coe String Sql := ⟨ofString⟩

def ofMark (m : Mark) : Sql := ⟨[.mark m]⟩

instance : Append Sql := ⟨fun a b => ⟨a.chunks ++ b.chunks⟩⟩

instance : SqlText Sql where
  plain := ofString

def render (sql : Sql) : String := String.join (sql.chunks.map Chunk.render)

/-- The placeholders in the order of the text. -/
def marks (sql : Sql) : List Mark := sql.chunks.filterMap Chunk.mark?

def concat (parts : List Sql) : Sql := ⟨parts.flatMap chunks⟩

/-- Texts one after another with a separator between them. -/
def intercalate (separator : String) : List Sql → Sql
  | [] => ""
  | [part] => part
  | part :: next :: rest => part ++ separator ++ intercalate separator (next :: rest)

@[simp]
theorem chunks_append (a b : Sql) : (a ++ b).chunks = a.chunks ++ b.chunks := rfl

@[simp]
theorem plain_eq_ofString (s : String) : (SqlText.plain s : Sql) = s := rfl

@[simp]
theorem render_ofString (s : String) : render s = s := by
  simp [render, ofString, Chunk.render]

theorem map_render_ofString {ε : Type} (x : Except ε String) :
    (x.map ofString).map render = x := by
  cases x <;> simp [Except.map]

@[simp]
theorem render_append (a b : Sql) : (a ++ b).render = a.render ++ b.render := by
  apply String.toList_injective
  simp [render]

end Sql

@[simp]
theorem SqlText.plain_eq_self (s : String) : (SqlText.plain s : String) = s := rfl

end QueryCompiler
