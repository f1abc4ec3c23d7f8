import Scriptlet.Text.Cluster.Joining

/-!
# Clusters

A cluster is what a reader takes for one character: a letter with its marks, a Korean syllable, a
flag, a conjunct of consonants, or several pictographs joined into one. `clusters` cuts a text
between its clusters; nothing is lost.
-/

namespace Scriptlet.Text

/-- How far a conjunct of consonants has come. -/
inductive Conjunct where
  | none
  /-- There is a consonant, with or without marks. -/
  | begun
  /-- There is a linker behind it. -/
  | linked
  deriving DecidableEq, Repr

/-- What the end of a text says about the character after it. -/
structure Tail where
  last : Joining
  /-- The number of flag halves at the end is odd. -/
  halfFlag : Bool
  /-- A pictograph, perhaps with marks, stands at the end. -/
  pictograph : Bool
  /-- Such a pictograph with a joiner behind it stands at the end. -/
  joined : Bool
  conjunct : Conjunct
  deriving DecidableEq, Repr

namespace Tail

/-- The end of the empty text. -/
def start : Tail := ⟨.control, false, false, false, .none⟩

/-- Whether a character of the given joining belongs to the cluster at the end of the text. -/
def takes (t : Tail) (next : Joining) : Bool :=
  match t.last, next with
  | .carriageReturn, .lineFeed => true
  | .control, _ | .carriageReturn, _ | .lineFeed, _ => false
  | _, .control | _, .carriageReturn | _, .lineFeed => false
  | .leadingJamo, .leadingJamo | .leadingJamo, .vowelJamo | .leadingJamo, .openSyllable
  | .leadingJamo, .closedSyllable => true
  | .openSyllable, .vowelJamo | .openSyllable, .trailingJamo | .vowelJamo, .vowelJamo
  | .vowelJamo, .trailingJamo => true
  | .closedSyllable, .trailingJamo | .trailingJamo, .trailingJamo => true
  | _, .mark | _, .linker | _, .nonJoiner | _, .joiner | _, .spacingMark => true
  | .leadingMark, _ => true
  | _, .consonant => t.conjunct = .linked
  | _, .pictograph => t.joined
  | .regional, .regional => t.halfFlag
  | _, _ => false

/-- The conjunct after a character. -/
def conjunctAfter (t : Tail) (next : Joining) : Conjunct :=
  match next with
  | .consonant => .begun
  | .linker => if t.conjunct = .none then .none else .linked
  | .mark | .joiner => t.conjunct
  | _ => .none

/-- The end of the text after one more character. -/
def push (t : Tail) (next : Joining) : Tail where
  last := next
  halfFlag := next = .regional && !t.halfFlag
  pictograph := match next with
    | .pictograph => true
    | .mark | .linker | .nonJoiner => t.pictograph
    | _ => false
  joined := next = .joiner && t.pictograph
  conjunct := t.conjunctAfter next

end Tail

/-- The clusters of a text after the start `cluster` of one, whose last character comes first. -/
def clustersFrom (t : Tail) (cluster : List Char) : List Char → List (List Char)
  | [] => [cluster.reverse]
  | c :: cs =>
    let j := joining c
    if t.takes j then clustersFrom (t.push j) (c :: cluster) cs
    else cluster.reverse :: clustersFrom (t.push j) [c] cs

/-- The clusters of a text. -/
def clusters : List Char → List (List Char)
  | [] => []
  | c :: cs => clustersFrom (Tail.start.push (joining c)) [c] cs

end Scriptlet.Text
