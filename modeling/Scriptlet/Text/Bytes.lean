/-!
# Byte offsets

A text is a list of characters. Positions in it count the bytes of its UTF-8 form, so a position
may fall inside a character; `dropBytes?` tells such positions apart, and so do the slices, which
also mind the end of the text.
-/

namespace Scriptlet.Text

/-- The number of bytes in the UTF-8 form of a text. -/
def byteLength : List Char → Nat
  | [] => 0
  | c :: cs => c.utf8Size + byteLength cs

/-- The text from byte `n` on; positions past the end stand for the end. There is none if byte `n`
lies inside a character. -/
def dropBytes? : Nat → List Char → Option (List Char)
  | 0, cs => some cs
  | _ + 1, [] => some []
  | n + 1, c :: cs => if c.utf8Size ≤ n + 1 then dropBytes? (n + 1 - c.utf8Size) cs else none

/-- The text up to byte `n`. There is none if byte `n` lies inside a character or past the end. -/
def takeBytes? : Nat → List Char → Option (List Char)
  | 0, _ => some []
  | _ + 1, [] => none
  | n + 1, c :: cs =>
    if c.utf8Size ≤ n + 1 then (takeBytes? (n + 1 - c.utf8Size) cs).map (c :: ·) else none

/-- The text from byte `n` on. There is none if byte `n` lies inside a character or past the end. -/
def sliceFrom? (n : Nat) (cs : List Char) : Option (List Char) := if n ≤ byteLength cs then dropBytes? n cs else none

/-- The text from byte `i` up to byte `j`. There is none if one of them lies inside a character or past the end,
or if they are in the wrong order. -/
def slice? (i j : Nat) (cs : List Char) : Option (List Char) :=
  if i ≤ j then (sliceFrom? i cs).bind (takeBytes? (j - i)) else none

/-- The UTF-8 form of a text. -/
def utf8 (cs : List Char) : List UInt8 := cs.flatMap String.utf8EncodeChar

/-- The one byte of a character below 128. -/
def byte (c : Char) : UInt8 := UInt8.ofNat c.toNat

@[simp] theorem byteLength_nil : byteLength [] = 0 := rfl

@[simp] theorem byteLength_cons (c : Char) (cs : List Char) :
    byteLength (c :: cs) = c.utf8Size + byteLength cs := rfl

@[simp] theorem byteLength_append (a b : List Char) :
    byteLength (a ++ b) = byteLength a + byteLength b := by
  induction a with
  | nil => simp
  | cons c a ih => simp only [List.cons_append, byteLength_cons, ih, Nat.add_assoc]

theorem length_le_byteLength (cs : List Char) : cs.length ≤ byteLength cs := by
  induction cs with
  | nil => simp
  | cons c cs ih =>
    have := c.utf8Size_pos
    simp only [List.length_cons, byteLength_cons]
    omega

end Scriptlet.Text
