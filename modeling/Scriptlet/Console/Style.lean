/-!
# Styled text

Text in a terminal is coloured by control sequences around it. A style has a colour, inside, and a
weight, outside.
-/

namespace Scriptlet.Console

/-- The colours of text. -/
inductive Colour where
  | red | green | yellow | blue | magenta | cyan | white | brightGreen | brightYellow | brightCyan
  deriving DecidableEq, Repr

/-- Bold and dimmed text. -/
inductive Weight where
  | bold | dimmed
  deriving DecidableEq, Repr

/-- A colour and a weight, each of which may be missing. -/
structure Style where
  colour : Option Colour
  weight : Option Weight
  deriving DecidableEq, Repr

/-- The number of a colour in control sequences. -/
def Colour.code : Colour → String
  | .red => "31"
  | .green => "32"
  | .yellow => "33"
  | .blue => "34"
  | .magenta => "35"
  | .cyan => "36"
  | .white => "37"
  | .brightGreen => "92"
  | .brightYellow => "93"
  | .brightCyan => "96"

/-- The number of a weight in control sequences. -/
def Weight.code : Weight → String
  | .bold => "1"
  | .dimmed => "2"

/-- The control sequence with the given number. -/
def control (code : String) : String := "\x1b[" ++ code ++ "m"

namespace Style

/-- No style. -/
def plain : Style := ⟨none, none⟩

/-- A colour alone. -/
def coloured (c : Colour) : Style := ⟨some c, none⟩

/-- A colour in bold. -/
def bold (c : Colour) : Style := ⟨some c, some .bold⟩

/-- Dimmed, without a colour. -/
def dimmed : Style := ⟨none, some .dimmed⟩

/-- A text in a style. -/
def apply (s : Style) (text : String) : String :=
  let coloured := match s.colour with
    | some c => control c.code ++ text ++ control "39"
    | none => text
  match s.weight with
  | some w => control w.code ++ coloured ++ control "0"
  | none => coloured

end Style

/-- A piece of text in one style. -/
structure Segment where
  style : Style
  text : List Char
  deriving DecidableEq, Repr

/-- The text of a segment in its style. -/
def Segment.render (s : Segment) : String := s.style.apply (String.ofList s.text)

end Scriptlet.Console
