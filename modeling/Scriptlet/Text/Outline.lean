/-!
# Outlines

The structured text in which trees and values are dumped: atoms, lists, and named groups of parts
with or without labels. An outline is written on one line, or over several lines with four blanks of
indentation for each level and a comma after each part.
-/

namespace Scriptlet.Text

/-- A structured text. -/
inductive Outline where
  /-- A text without parts. -/
  | atom (text : String)
  /-- Parts in square brackets. -/
  | list (parts : List Outline)
  /-- A name with parts in round brackets. -/
  | group (name : String) (parts : List Outline)
  /-- A name with labelled parts in braces; two dots at the end if there are `more` parts. -/
  | record (name : String) (parts : List (String × Outline)) (more : Bool)

namespace Outline

mutual

/-- The outline on one line. -/
def line : Outline → String
  | .atom text => text
  | .list parts => "[" ++ ", ".intercalate (lines parts) ++ "]"
  | .group name parts => name ++ "(" ++ ", ".intercalate (lines parts) ++ ")"
  | .record name parts more =>
    let dots := if more then [".."] else []
    name ++ " \x7b " ++ ", ".intercalate (labelledLines parts ++ dots) ++ " \x7d"

/-- The parts of an outline, each on one line. -/
def lines : List Outline → List String
  | [] => []
  | p :: ps => line p :: lines ps

/-- The labelled parts of an outline, each on one line. -/
def labelledLines : List (String × Outline) → List String
  | [] => []
  | (label, p) :: ps => (label ++ ": " ++ line p) :: labelledLines ps

end

/-- The start of a line at a level of indentation. -/
def indent (level : Nat) : String := "\n" ++ String.ofList (List.replicate (4 * level) ' ')

/-- Parts on lines of their own, between an opening and a closing bracket. -/
def bracketed (level : Nat) (before after : String) (parts : List String) : String :=
  if parts.isEmpty then before ++ after
  else before ++ String.join (parts.map fun p => indent (level + 1) ++ p ++ ",") ++
    indent level ++ after

mutual

/-- The outline over several lines, the first of which stands at the given level. -/
def tall (level : Nat) : Outline → String
  | .atom text => text
  | .list parts => bracketed level "[" "]" (tallParts (level + 1) parts)
  | .group name parts => bracketed level (name ++ "(") ")" (tallParts (level + 1) parts)
  | .record name parts _ => bracketed level (name ++ " \x7b") "\x7d" (tallLabelled (level + 1) parts)

/-- The parts of an outline, each over several lines. -/
def tallParts (level : Nat) : List Outline → List String
  | [] => []
  | p :: ps => tall level p :: tallParts level ps

/-- The labelled parts of an outline, each over several lines. -/
def tallLabelled (level : Nat) : List (String × Outline) → List String
  | [] => []
  | (label, p) :: ps => (label ++ ": " ++ tall level p) :: tallLabelled level ps

end

end Outline

end Scriptlet.Text
