/-!
# Quoted runs

Each of `'`, `"` and the backtick opens a quoted run that ends at the next same character. A
doubled quote inside a run closes it and opens the next one at once, so a reader that only asks
"am I inside quotes" needs no special case for it.
-/
namespace QueryCompiler.Text

def isQuote (c : Char) : Bool := c == '\'' || c == '"' || c == '\x60'

/-- The quote character that is open after reading one more character. -/
def openQuote (quote : Option Char) (c : Char) : Option Char :=
  match quote with
  | some q => if c = q then none else some q
  | none => if isQuote c then some c else none

/-- Wrap a text in a quote character and double the ones inside. -/
def encloseChars (quote : Char) (cs : List Char) : List Char :=
  quote :: (cs.flatMap fun c => if c = quote then [quote, quote] else [c]) ++ [quote]

def enclose (quote : Char) (s : String) : String := String.ofList (encloseChars quote s.toList)

/-- A string literal of standard SQL. -/
def quoteString (s : String) : String := enclose '\'' s

/-- Whether a text from its second character on returns to depth zero for the first time at its
very end. Parentheses inside quotes do not count, and a closing parenthesis too many is ignored. -/
def closesAtEnd (quote : Option Char) (depth : Nat) : List Char → Bool
  | [] => false
  | c :: rest =>
    match quote with
    | some _ => closesAtEnd (openQuote quote c) depth rest
    | none =>
      if c = '(' then closesAtEnd none (depth + 1) rest
      else if c = ')' then
        if depth ≤ 1 then rest.isEmpty else closesAtEnd none (depth - 1) rest
      else closesAtEnd (openQuote none c) depth rest

/-- The whole text sits inside one pair of parentheses. -/
def isEnclosed (s : String) : Bool :=
  match s.toList with
  | '(' :: rest => closesAtEnd none 1 rest
  | _ => false

end QueryCompiler.Text
