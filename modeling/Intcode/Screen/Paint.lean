import Intcode.Screen.Picture
set_option autoImplicit false

/-!
A picture as terminal codes: each glyph with its colour, each row on a line of its own.
-/
namespace Intcode.Screen

def Colour.code : Colour → Nat
  | .red => 31
  | .green => 32
  | .yellow => 33
  | .blue => 34
  | .magenta => 35
  | .cyan => 36
  | .gray => 37
  | .darkGray => 90
  | .white => 97

def Style.code (s : Style) : String :=
  let weight := if s.bold then ";1" else ""
  let colour := match s.colour with
    | some c => toString c.code
    | none => "39"
  s!"\x1b[0{weight};{colour}m"

/-- The code of a style stands only where the style changes. -/
def paintRow : Option Style → Row → String
  | _, [] => "\x1b[0m"
  | last, g :: rest =>
    let change := if last = some g.style then "" else g.style.code
    change ++ String.ofList g.text ++ paintRow (some g.style) rest

def paint (rows : List Row) : String :=
  "\x1b[2J\x1b[H" ++ "\n".intercalate (rows.map (paintRow none))

end Intcode.Screen
