import Scriptlet.Number.Shortest

/-!
# Numbers as text

A number is written with the digits of its shortest decimal. A `Layout` says where positional
notation ends and how the parts around the digits look.
-/

namespace Scriptlet.Number

open Float.Model

/-- How a number is written. `point` below is the place of the decimal point, counted from the first
digit: `0.d₁d₂… · 10 ^ point`. -/
structure Layout where
  /-- Positional notation needs `least < point`; unlimited if there is none. -/
  least : Option Int
  /-- Positional notation needs `point ≤ most`; unlimited if there is none. -/
  most : Option Int
  /-- Whole numbers in positional notation end in `.0`. -/
  fraction : Bool
  /-- Exponents that are not negative carry a plus sign. -/
  plus : Bool
  /-- The sign of a zero is written. -/
  signedZero : Bool
  /-- The text of infinity. -/
  infinity : String

namespace Layout

/-- The text of a number as a value of the language. -/
def ofValue : Layout := ⟨some (-6), some 21, false, true, false, "Infinity"⟩

/-- A number in a message: always positional. -/
def ofMessage : Layout := ⟨none, none, false, false, true, "inf"⟩

/-- A number in a dump of a tree: whole numbers keep a fraction digit, and numbers from 10^16 on or
below 10^-4 have an exponent. -/
def ofDump : Layout := ⟨some (-4), some 16, true, false, true, "inf"⟩

/-- Whether a number with this place of the point is written positionally. -/
def isPositional (l : Layout) (point : Int) : Bool :=
  l.least.all (· < point) && l.most.all (point ≤ ·)

/-- Digits with the decimal point in its place. -/
def positional (l : Layout) (ds : List Char) (point : Int) : List Char :=
  if point ≤ 0 then '0' :: '.' :: List.replicate (-point).toNat '0' ++ ds
  else if ds.length ≤ point then
    ds ++ List.replicate (point.toNat - ds.length) '0' ++ if l.fraction then ['.', '0'] else []
  else ds.take point.toNat ++ '.' :: ds.drop point.toNat

/-- Digits with the point after the first one, and an exponent. -/
def scientific (l : Layout) (ds : List Char) (point : Int) : List Char :=
  let e := point - 1
  let tail := ds.drop 1
  ds.take 1 ++ (if tail.isEmpty then [] else '.' :: tail) ++
    'e' :: (if e < 0 then ['-'] else if l.plus then ['+'] else []) ++ Nat.toDigits 10 e.natAbs

/-- The text of a positive decimal. -/
def decimal (l : Layout) (d : Decimal) : List Char :=
  let ds := Nat.toDigits 10 d.digits
  let point := ds.length + d.exponent
  if l.isPositional point then l.positional ds point else l.scientific ds point

/-- The text of a magnitude, behind a minus sign if it is negative. -/
def signed (sign : UnpackedFloat.Sign) (magnitude : List Char) : List Char :=
  match sign with
  | .negative => '-' :: magnitude
  | .positive => magnitude

/-- The text of a number. -/
def chars (l : Layout) (x : Float) : List Char :=
  match x.toModel.unpack with
  | .notANumber => ['N', 'a', 'N']
  | .infinity sign => signed sign l.infinity.toList
  | .zero sign =>
    let zero := if l.fraction then ['0', '.', '0'] else ['0']
    if l.signedZero then signed sign zero else zero
  | .finite sign m e _ => signed sign (l.decimal (shortest m e))

/-- The text of a number as a string. -/
def render (l : Layout) (x : Float) : String := String.ofList (l.chars x)

/-! ### Slices and repetitions

The second way of writing the digits of a value goes by the place of the point, and there is no text where a cut is
outside of the digits or a number of zeros is negative. -/

/-- An exponent as it is written behind the digits. -/
def exponentText (x : Int) : List Char := 'e' :: (if x < 0 then ['-'] else ['+']) ++ Nat.toDigits 10 x.natAbs

/-- Cuts a text at a place inside of it. -/
def cut? (cs : List Char) (n : Int) : Option (List Char × List Char) :=
  if 0 ≤ n ∧ n ≤ cs.length then some (cs.take n.toNat, cs.drop n.toNat) else none

/-- As many zeros as a number says that is not negative. -/
def zeros? (n : Int) : Option (List Char) := if 0 ≤ n then some (List.replicate n.toNat '0') else none

/-- The text of digits with an exponent of ten. -/
def steps? (ds : List Char) (e : Int) : Option (List Char) :=
  let point := e + 1
  if ds.length ≤ point ∧ point ≤ 21 then (zeros? (point - ds.length)).map (ds ++ ·)
  else if 0 < point ∧ point ≤ 21 then (cut? ds point).map fun (whole, fraction) => whole ++ '.' :: fraction
  else if -6 < point ∧ point ≤ 0 then (zeros? (-point)).map fun zeros => '0' :: '.' :: (zeros ++ ds)
  else (cut? ds 1).map fun (first, rest) =>
    if rest.isEmpty then first ++ exponentText (point - 1)
    else first ++ '.' :: (rest ++ exponentText (point - 1))

end Layout

end Scriptlet.Number
