import QueryCompiler.Json.Reader

/-!
# The lines of a settings text

A settings text is a list of keys with contents, one to a line, with comments behind `#`; a key in
brackets opens a section. Strings are written in double quotes with escape sequences, in single
quotes without any, or in three quotes of either kind over several lines. Of tables and lists only
the empty ones are read, and tables of one empty one: a setting that is one of several choices may
be written so. No other content stands for a setting.
-/
namespace QueryCompiler.Settings

def isIndent (c : Char) : Bool := c == ' ' || c == '\t'

/-- Control characters stand nowhere but for the tab; line ends are looked at separately. -/
def isPrintable (c : Char) : Bool := c == '\t' || (0x20 ≤ c.toNat && c.toNat != 0x7f)

def isBareChar (c : Char) : Bool := c.isAlphanum || c == '_' || c == '-'

/-- Split a line end off. -/
def lineEnd? : List Char → Option (List Char)
  | '\n' :: rest => some rest
  | '\r' :: '\n' :: rest => some rest
  | _ => none

def skipIndent (cs : List Char) : List Char := cs.dropWhile isIndent

/-- The character of a code point, if there is one. -/
def charOf? (n : Nat) : Option Char := if n.isValidChar then some (Char.ofNat n) else none

def hexNumber? (cs : List Char) : Option Nat :=
  cs.foldlM (fun n c => (Json.hexValue? c).map (16 * n + ·)) 0

/-- The escape sequences of one character. -/
def simpleEscape? : Char → Option Char
  | 'b' => some '\x08'
  | 't' => some '\t'
  | 'n' => some '\n'
  | 'f' => some '\x0c'
  | 'r' => some '\r'
  | '"' => some '"'
  | '\\' => some '\\'
  | _ => none

/-- An escape sequence behind its backslash: the character, and the length of the sequence. -/
def escape? : List Char → Option (Char × Nat)
  | [] => none
  | c :: rest =>
    if c = 'u' ∨ c = 'U' then do
      let size := if c = 'u' then 4 else 8
      if rest.length < size then none
      let n ← hexNumber? (rest.take size)
      return (← charOf? n, size + 1)
    else (simpleEscape? c).map (·, 1)

/-- The rest of a string on one line. `skip` counts the characters of an escape sequence that was
read already, and `done` holds the text, last character first. -/
def lineString (quote : Char) (skip : Nat) (done : List Char) :
    List Char → Option (String × List Char)
  | [] => none
  | c :: rest =>
    match skip with
    | skip + 1 => lineString quote skip done rest
    | 0 =>
      if c = quote then some (String.ofList done.reverse, rest)
      else if c = '\\' ∧ quote = '"' then
        match escape? rest with
        | some (d, size) => lineString quote size (d :: done) rest
        | none => none
      else if isPrintable c then lineString quote 0 (c :: done) rest
      else none

/-- The number of quotes that belong to the text before the three that close it. -/
def innerQuotes (quote : Char) (cs : List Char) : Nat :=
  min 2 ((cs.takeWhile (· == quote)).length - 3)

/-- Whether nothing but blanks follows on the line. -/
def endsLine (cs : List Char) : Bool := (lineEnd? (skipIndent cs)).isSome

/-- The rest of a string over several lines. A backslash at the end of a line drops the line end
and all blanks behind it; `folding` is on while that goes on. -/
def blockString (quote : Char) (skip : Nat) (folding : Bool) (done : List Char) :
    List Char → Option (String × List Char)
  | [] => none
  | c :: rest =>
    match skip with
    | skip + 1 => blockString quote skip folding done rest
    | 0 =>
      if folding && (isIndent c || c == '\n') then blockString quote 0 true done rest
      else if folding && (lineEnd? (c :: rest)).isSome then blockString quote 1 true done rest
      else if c = quote ∧ 3 ≤ ((c :: rest).takeWhile (· == quote)).length then
        let inner := innerQuotes quote (c :: rest)
        some (String.ofList (List.replicate inner quote ++ done).reverse, rest.drop (inner + 2))
      else if c = '\\' ∧ quote = '"' then
        if endsLine rest then blockString quote 0 true done rest
        else match escape? rest with
          | some (d, size) => blockString quote size false (d :: done) rest
          | none => none
      else if c = '\n' then blockString quote 0 false (c :: done) rest
      else if (lineEnd? (c :: rest)).isSome then blockString quote 1 false ('\n' :: done) rest
      else if isPrintable c then blockString quote 0 false (c :: done) rest
      else none

/-- A line end right behind the opening quotes does not count. -/
def blockStart (cs : List Char) : List Char := (lineEnd? cs).getD cs

def string? : List Char → Option (String × List Char)
  | '"' :: '"' :: '"' :: rest => blockString '"' 0 false [] (blockStart rest)
  | '\'' :: '\'' :: '\'' :: rest => blockString '\'' 0 false [] (blockStart rest)
  | '"' :: rest => lineString '"' 0 [] rest
  | '\'' :: rest => lineString '\'' 0 [] rest
  | _ => none

def key? (cs : List Char) : Option (String × List Char) :=
  match cs with
  | '"' :: rest => lineString '"' 0 [] rest
  | '\'' :: rest => lineString '\'' 0 [] rest
  | _ =>
    let name := cs.takeWhile isBareChar
    if name.isEmpty then none else some (String.ofList name, cs.dropWhile isBareChar)

/-- A key, or two with a dot between them. -/
def path? (cs : List Char) : Option (List String × List Char) := do
  let (key, rest) ← key? cs
  match skipIndent rest with
  | '.' :: rest =>
    let (inner, rest) ← key? (skipIndent rest)
    return ([key, inner], rest)
  | _ => return ([key], rest)

/-- Skip blanks, line ends and comments. -/
def skipFiller (inComment : Bool) : List Char → List Char
  | [] => []
  | c :: rest =>
    if c = '\n' then skipFiller false rest
    else if (lineEnd? (c :: rest)).isSome then skipFiller inComment rest
    else if inComment then if isPrintable c then skipFiller true rest else c :: rest
    else if c = '#' then skipFiller true rest
    else if isIndent c then skipFiller false rest
    else c :: rest

/-- The rest behind a character. -/
def expect? (c : Char) : List Char → Option (List Char)
  | [] => none
  | d :: rest => if c = d then some rest else none

/-- The rest behind an empty table or an empty list. -/
def hollow? : List Char → Option (List Char)
  | '\x7b' :: rest => expect? '\x7d' (skipIndent rest)
  | '[' :: rest => expect? ']' (skipFiller false rest)
  | _ => none

/-- A table of one key with nothing in it. -/
def choice? (cs : List Char) : Option (String × List Char) := do
  let (key, rest) ← key? (skipIndent (← expect? '\x7b' cs))
  let rest ← hollow? (skipIndent (← expect? '=' (skipIndent rest)))
  return (key, ← expect? '\x7d' (skipIndent rest))

/-- What stands under a key. -/
inductive Content where
  | text (s : String)
  | hollow
  | choice (key : String)
  /-- Nothing yet: the key opens a section. -/
  | heading
  deriving DecidableEq, Repr

def content? (cs : List Char) : Option (Content × List Char) :=
  match string? cs, hollow? cs with
  | some (s, rest), _ => some (.text s, rest)
  | none, some rest => some (.hollow, rest)
  | none, none => (choice? cs).map fun (key, rest) => (.choice key, rest)

/-- The end of a line: blanks, a comment, and a line end or the end of the text. -/
def finishLine? (cs : List Char) : Option (List Char) :=
  let cs := skipIndent cs
  let cs := match cs with
    | '#' :: rest => rest.dropWhile isPrintable
    | cs => cs
  if cs.isEmpty then some [] else lineEnd? cs

abbrev Entry := List String × Content

/-- A line that opens a section. -/
def heading? (cs : List Char) : Option (Entry × List Char) := do
  let (path, rest) ← path? (skipIndent (← expect? '[' cs))
  return ((path, .heading), ← finishLine? (← expect? ']' (skipIndent rest)))

/-- A line with a key and its content. -/
def setting? (cs : List Char) : Option (Entry × List Char) := do
  let (path, rest) ← path? cs
  let (content, rest) ← content? (skipIndent (← expect? '=' (skipIndent rest)))
  return ((path, content), ← finishLine? rest)

/-- One line, with an entry or without. -/
def line? (cs : List Char) : Option (Option Entry × List Char) :=
  match finishLine? cs with
  | some rest => some (none, rest)
  | none =>
    let cs := skipIndent cs
    ((heading? cs) <|> (setting? cs)).map fun (entry, rest) => (some entry, rest)

/-- All lines; every one takes at least a character, so the length of the text is fuel enough. -/
def lines? : Nat → List Char → Option (List Entry)
  | _, [] => some []
  | 0, _ => none
  | fuel + 1, cs => do
    let (entry, rest) ← line? cs
    return entry.toList ++ (← lines? fuel rest)

/-- Put the key of the section in front of the keys inside it. -/
def underHeadings (outer : List String) : List Entry → List Entry
  | [] => []
  | (path, .heading) :: rest => (path, .heading) :: underHeadings path rest
  | (path, content) :: rest => (outer ++ path, content) :: underHeadings outer rest

/-- The entries of a text; a byte order mark in front is passed over. -/
def entries? (s : String) : Option (List Entry) :=
  let cs := match s.toList with
    | '\ufeff' :: rest => rest
    | cs => cs
  (lines? cs.length cs).map (underHeadings [])

end QueryCompiler.Settings
