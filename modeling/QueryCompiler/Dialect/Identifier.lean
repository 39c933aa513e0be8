import QueryCompiler.Text.Alphanumeric
import QueryCompiler.Text.Parts
import QueryCompiler.Text.Quote

/-!
# Quoting identifiers

An identifier is written bare unless it is a reserved word, is empty, starts with a digit or holds
anything but letters, digits and underscores; letters and digits are those of Unicode.
-/
namespace QueryCompiler.Identifier

def reservedWords : List String :=
  ["order", "group", "user", "table", "select", "from", "where", "join", "left", "right", "inner",
    "outer", "full", "cross", "natural", "on", "and", "or", "not", "null", "true", "false", "limit",
    "offset", "as", "in", "is", "like", "between", "having", "union", "all", "distinct", "case",
    "when", "then", "else", "end", "create", "alter", "drop", "insert", "update", "delete", "index",
    "key", "primary", "foreign", "references", "default", "constraint", "check"]

/-- Lower case as far as reserved words can tell: the Kelvin sign is the only character outside
ASCII whose lower case is a letter of ASCII. -/
def lowerChar (c : Char) : Char := if c = '\u212a' then 'k' else c.toLower

def isReserved (name : String) : Bool := reservedWords.contains (name.map lowerChar)

def isPlainChar (c : Char) : Bool := Text.isAlphanumeric c || c == '_'

def startsNumeric (name : String) : Bool :=
  match name.toList with
  | [] => false
  | c :: _ => Text.isNumeric c

def needsQuotes (name : String) : Bool :=
  isReserved name || name.isEmpty || !name.toList.all isPlainChar || startsNumeric name

def quotePart (quote : Char) (name : String) : String :=
  if needsQuotes name then Text.enclose quote name else name

/-- Quote the parts of a dotted name that need it. -/
def quoteName (quote : Char) (name : String) : String :=
  ".".intercalate ((Text.dotParts name).map (quotePart quote))

end QueryCompiler.Identifier
