import Scriptlet.Console.Style
import Scriptlet.Value.Convert
import Scriptlet.Text.Alphanumeric

/-!
# Highlighting

A line of input is cut into segments: words, the characters of strings, brackets, operators and
other characters. The segments make up the line, and each has a style.
-/

namespace Scriptlet.Console

open Text

/-- The keywords and the reserved words, in alphabetical order. -/
def keywords : List String := [
  "break", "case", "catch", "class", "const", "continue", "debugger", "default", "delete", "do", "else",
  "enum", "export", "extends", "finally", "for", "function", "if", "import", "in", "instanceof", "new",
  "return", "super", "switch", "this", "throw", "try", "typeof", "var", "void", "while", "with"]

/-- The names of literals. -/
def literalNames : List String := ["true", "false", "null"]

/-- A character of a word in a line of input. -/
def isWordPart (c : Char) : Bool := isAlphanumeric c || c == '_' || c == '$'

/-- The style of a word. -/
def wordStyle (word : List Char) : Style :=
  let name := String.ofList word
  if keywords.contains name then .bold .magenta
  else if literalNames.contains name || name == "undefined" then .coloured .blue
  else if word.head?.any Char.isDigit then .coloured .yellow
  else .plain

/-- A quote opens and closes strings. -/
def isQuote (c : Char) : Bool := c == '\'' || c == '"'

/-- The style of a character outside of words and strings. -/
def markStyle (c : Char) : Style :=
  if isQuote c then .coloured .green
  else if ['(', ')', '[', ']', '\x7b', '\x7d'].contains c then .coloured .yellow
  else if "+-*/%=<>!&|^~?:".toList.contains c then .coloured .cyan
  else .plain

/-- The segment of a word, unless it is empty. -/
def wordSegment (word : List Char) : List Segment :=
  if word.isEmpty then [] else [⟨wordStyle word, word⟩]

/-- The segments of a line, from inside the string that `quote` opened, if there is one, and after
the start `word` of a word. -/
def segmentsFrom (quote : Option Char) (word : List Char) : List Char → List Segment
  | [] => wordSegment word
  | c :: cs =>
    match quote with
    | some q => ⟨.coloured .green, [c]⟩ :: segmentsFrom (if c = q then none else some q) word cs
    | none =>
      if isWordPart c then segmentsFrom none (word ++ [c]) cs
      else
        wordSegment word ++
          ⟨markStyle c, [c]⟩ :: segmentsFrom (if isQuote c then some c else none) [] cs

/-- The segments of a line of input. A command is one segment. -/
def segments (line : List Char) : List Segment :=
  if line.head? = some '.' then [⟨.coloured .magenta, line⟩] else segmentsFrom none [] line

/-- A line of input with its styles. -/
def highlight (line : String) : String := String.join ((segments line.toList).map Segment.render)

/-- A value with the style of its type. -/
def showValue (v : Value) : String :=
  match v with
  | .undefined => Style.apply ⟨some .blue, some .dimmed⟩ "undefined"
  | .null => Style.apply (.coloured .blue) "null"
  | .boolean _ | .number _ => Style.apply (.coloured .yellow) v.toText
  | .string s => Style.apply (.coloured .green) ("'" ++ s ++ "'")
  | .function _ => Style.apply (.coloured .magenta) v.toText

end Scriptlet.Console
