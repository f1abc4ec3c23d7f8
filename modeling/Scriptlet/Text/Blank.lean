/-!
# Blanks and line ends

White space is the 25 characters that Unicode gives the property `White_Space`. The byte order mark
U+FEFF counts as a blank too, between tokens and around a number in a string.
-/

namespace Scriptlet.Text

/-- Unicode white space. -/
def isWhiteSpace (c : Char) : Bool :=
  let n := c.toNat
  (0x9 ≤ n && n ≤ 0xd) || n == 0x20 || n == 0x85 || n == 0xa0 || n == 0x1680 ||
    (0x2000 ≤ n && n ≤ 0x200a) || n == 0x2028 || n == 0x2029 || n == 0x202f || n == 0x205f ||
    n == 0x3000

/-- White space or a byte order mark. -/
def isBlank (c : Char) : Bool := isWhiteSpace c || c == '\ufeff'

/-- The four characters that end a line. -/
def isLineEnd (c : Char) : Bool := c == '\n' || c == '\r' || c == '\u2028' || c == '\u2029'

/-- The text without the characters of class `p` at its start. -/
def trimStart (p : Char → Bool) (cs : List Char) : List Char := cs.dropWhile p

/-- The text without the characters of class `p` at its end. -/
def trimEnd (p : Char → Bool) (cs : List Char) : List Char := (cs.reverse.dropWhile p).reverse

/-- The text without the characters of class `p` at both ends. -/
def trim (p : Char → Bool) (cs : List Char) : List Char := trimEnd p (trimStart p cs)

end Scriptlet.Text
