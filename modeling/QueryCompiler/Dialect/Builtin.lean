import QueryCompiler.Dialect.Basic
import QueryCompiler.Dialect.Identifier
import QueryCompiler.Text.Identifier
import QueryCompiler.Text.Parts

/-!
# The built-in dialects

PostgreSQL, MySQL and SQLite, the names under which they are asked for, and the URL schemes that
imply them.
-/
namespace QueryCompiler

namespace Dialect

def postgres : Dialect where
  name := "postgres"
  quoteIdentifier := Identifier.quoteName '"'
  operatorName := fun op => if op = "REGEXP" then some "~" else some op
  ordersNulls := true
  placeholder := fun n => "$" ++ toString n
  markedNullKey := isNullCall
  render_markedNullKey := by simp [isNullCall]
  vendorOperator := defaultVendorOperator buildNativeIlike
  markedVendorOperator := defaultVendorOperator buildNativeIlike
  render_markedVendorOperator := render_defaultVendorOperator render_buildNativeIlike

/-- Inside a string a backslash escapes the next character, so it is doubled like the quote. -/
def mysqlString (s : String) : String :=
  let escape (c : Char) : List Char := if c = '\\' ∨ c = '\'' then [c, c] else [c]
  String.ofList ('\'' :: s.toList.flatMap escape ++ ['\''])

/-- The operator `||` is a disjunction here, so there is no spelling for concatenation. -/
def mysql : Dialect where
  name := "mysql"
  quoteIdentifier := Identifier.quoteName '\x60'
  quoteValue := inlineValue boolDigit mysqlString
  operatorName := fun op => if op = "||" ∨ op = "IS DISTINCT FROM" then none else some op
  placeholder := fun _ => "?"
  limitOffset := limitClauseWith "18446744073709551615"
  markedNullKey := isNullCall
  render_markedNullKey := by simp [isNullCall]
  markedVendorOperator := defaultVendorOperator buildLoweredIlike
  render_markedVendorOperator := render_defaultVendorOperator render_buildLoweredIlike

/-- The null test follows its operand, which takes parentheses if it has blanks. -/
def sqliteNullKey {τ : Type} [SqlText τ] (blank : Bool) (key : τ) : τ :=
  if blank then SqlText.plain "(" ++ key ++ SqlText.plain ") IS NULL"
  else key ++ SqlText.plain " IS NULL"

/-- Identifiers are always quoted, dots and all. -/
def sqlite : Dialect where
  name := "sqlite"
  quoteIdentifier := Text.enclose '"'
  quoteValue := inlineValue boolDigit Text.quoteString
  nullKey := fun key => sqliteNullKey (Text.hasChar ' ' key) key
  markedNullKey := fun key => sqliteNullKey (Text.hasChar ' ' key.render) key
  render_markedNullKey := by
    intro key
    unfold sqliteNullKey
    split <;> simp
  placeholder := fun _ => "?"
  limitOffset := limitClauseWith "-1"
  markedVendorOperator := defaultVendorOperator buildLoweredIlike
  render_markedVendorOperator := render_defaultVendorOperator render_buildLoweredIlike

end Dialect

inductive Builtin where
  | postgres
  | mysql
  | sqlite
  deriving DecidableEq, Repr

namespace Builtin

def all : List Builtin := [.postgres, .mysql, .sqlite]

def dialect : Builtin → Dialect
  | postgres => Dialect.postgres
  | mysql => Dialect.mysql
  | sqlite => Dialect.sqlite

def name : Builtin → String
  | postgres => "postgres"
  | mysql => "mysql"
  | sqlite => "sqlite"

/-- The dialect with exactly that name. -/
def ofName? (text : String) : Option Builtin := all.find? (·.name == text)

/-- The dialect of a URL, by its scheme. -/
def ofUrl? (url : String) : Option Builtin :=
  match ((Text.partsWhere (· == ':') url.toList).head?).map String.ofList with
  | some "postgres" => some postgres
  | some "postgresql" => some postgres
  | some "mysql" => some mysql
  | some "mariadb" => some mysql
  | some "sqlite" => some sqlite
  | _ => none

/-- The dialect asked for by a user: a name or a common short form, in any case. -/
def parse (text : String) : Except Fault Builtin :=
  match text.toLower with
  | "postgres" | "postgresql" | "pg" => .ok postgres
  | "mysql" | "mariadb" => .ok mysql
  | "sqlite" | "sqlite3" => .ok sqlite
  | lowered => .error (.settings (.unknownDialect lowered))

end Builtin

end QueryCompiler
