/-!
# Blank characters and trimming

Two classes of blanks are in use. `isBlank` is the Unicode property White_Space; `isSeparator`
holds only the space, the tab and the two line ends. `trim` takes the class as an argument, so
each caller says which characters it removes.
-/
namespace QueryCompiler.Text

/-- The property White_Space. -/
def isBlank (c : Char) : Bool :=
  let n := c.toNat
  (0x9 ≤ n && n ≤ 0xd) || n == 0x20 || n == 0x85 || n == 0xa0 || n == 0x1680 ||
    (0x2000 ≤ n && n ≤ 0x200a) || n == 0x2028 || n == 0x2029 || n == 0x202f || n == 0x205f ||
    n == 0x3000

/-- Space, tab, carriage return and line feed. -/
def isSeparator (c : Char) : Bool := c == ' ' || c == '\t' || c == '\r' || c == '\n'

def trimStart (drop : Char → Bool) (cs : List Char) : List Char := cs.dropWhile drop

def trimEnd (drop : Char → Bool) (cs : List Char) : List Char := (cs.reverse.dropWhile drop).reverse

/-- Remove the characters of a class from both ends of a text. -/
def trim (drop : Char → Bool) (s : String) : String :=
  String.ofList (trimEnd drop (trimStart drop s.toList))

end QueryCompiler.Text
