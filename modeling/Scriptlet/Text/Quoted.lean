import Scriptlet.Text.Printable

/-!
# Quoted texts

A text is quoted between double quotes. A double quote, a backslash and the four control characters
with a short form are escaped by a backslash, any other character that is not printable by its code
point in hexadecimal.
-/

namespace Scriptlet.Text

/-- The escaped form of one character. -/
def escapeChar (c : Char) : List Char :=
  match c with
  | '"' => ['\\', '"']
  | '\\' => ['\\', '\\']
  | '\n' => ['\\', 'n']
  | '\r' => ['\\', 'r']
  | '\t' => ['\\', 't']
  | '\x00' => ['\\', '0']
  | c => if isPrintable c then [c] else
      ['\\', 'u', '\x7b'] ++ Nat.toDigits 16 c.toNat ++ ['\x7d']

/-- The text in double quotes, escaped. -/
def quoted (s : String) : String :=
  String.ofList ('"' :: s.toList.flatMap escapeChar ++ ['"'])

end Scriptlet.Text
