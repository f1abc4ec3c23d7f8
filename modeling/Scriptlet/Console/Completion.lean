import Scriptlet.Console.Highlight
import Scriptlet.Text.Bytes

/-!
# Completion of words

The word before the cursor is completed to a keyword, the name of a literal or a command. Positions
are byte offsets. The word starts one byte behind the last character that is no part of it, so it has
no start if that character takes more than one byte.
-/

namespace Scriptlet.Console

open Text

/-- The commands by name, in the order in which they are listed. -/
def commandNames : List String := [".help", ".exit", ".clear", ".version", ".load", ".ast", ".tokens"]

/-- The words that can be completed, in the order in which they are offered. -/
def completions : List String := keywords ++ literalNames ++ ["undefined"] ++ commandNames

/-- A character of a word that can be completed. -/
def isCompletable (c : Char) : Bool := isWordPart c || c == '.'

/-- The place where the word at the end of a text is taken to start. -/
def wordStart (before : List Char) : Nat :=
  match before.reverse.dropWhile isCompletable with
  | [] => 0
  | _ :: front => byteLength front.reverse + 1

/-- The word at the end of a text, if its start is a character's. -/
def lastWord? (before : List Char) : Option (List Char) := dropBytes? (wordStart before) before

/-- The words that extend a word, each with what it adds. -/
def extensions (word : List Char) : List (String × String) :=
  completions.filterMap fun candidate =>
    let cs := candidate.toList
    if word.isPrefixOf cs && word.length < cs.length then
      some (candidate, String.ofList (cs.drop word.length))
    else none

/-- The completions of the word before a position, each with what it adds. There is no answer if the
position or the start of the word lies inside a character. -/
def complete? (line : List Char) (position : Nat) : Option (List (String × String)) :=
  match takeBytes? position line with
  | none => none
  | some before =>
    (lastWord? before).map fun word => if word.isEmpty then [] else extensions word

/-- What the first completion adds to the word at the end of the line, dimmed. Short words have no
hint, nor has a position inside of the line. -/
def hint? (line : List Char) (position : Nat) : Option (Option String) :=
  if position < byteLength line then some none
  else
    (lastWord? line).map fun word =>
      if byteLength word < 2 then none
      else (extensions word).head?.map fun e => Style.dimmed.apply e.2

end Scriptlet.Console
