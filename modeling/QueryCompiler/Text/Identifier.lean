/-!
# Plain identifiers

An ASCII letter or underscore followed by ASCII letters, digits and underscores. Parameter names
and the parts of function names are of this form, whatever the dialect.
-/
namespace QueryCompiler.Text

def isIdentifierStart (c : Char) : Bool := c.isAlpha || c == '_'

def isIdentifierPart (c : Char) : Bool := c.isAlphanum || c == '_'

def isIdentifier (s : String) : Bool :=
  match s.toList with
  | [] => false
  | c :: rest => isIdentifierStart c && rest.all isIdentifierPart

/-- A colon in front of an identifier. -/
def isNamedPlaceholder (s : String) : Bool :=
  match s.toList with
  | ':' :: name => isIdentifier (String.ofList name)
  | _ => false

/-- Equality up to the case of ASCII letters. -/
def sameWord (a b : String) : Bool := a.toUpper == b.toUpper

def hasChar (c : Char) (s : String) : Bool := s.toList.contains c

def startsWithAny (cs : List Char) (s : String) : Bool :=
  match s.toList with
  | [] => false
  | c :: _ => cs.contains c

end QueryCompiler.Text
