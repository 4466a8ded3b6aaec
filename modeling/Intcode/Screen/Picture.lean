import Intcode.Text.Width
set_option autoImplicit false

/-!
Pictures made of characters: rows of glyphs, each a character with its marks in a style, that takes one
cell, or two if it is wide. A panel is a frame with a title over its upper edge; what it holds is cut at
the right and at the bottom.
-/
namespace Intcode.Screen

inductive Colour
  | red
  | green
  | yellow
  | blue
  | magenta
  | cyan
  | gray
  | darkGray
  | white
  deriving DecidableEq, Repr

structure Style where
  colour : Option Colour := none
  bold : Bool := false
  deriving DecidableEq, Repr

def plain : Style := {}

def Colour.style (c : Colour) : Style := { colour := some c }

structure Glyph where
  char : Char
  style : Style
  wide : Bool := false
  marks : List Char := []
  deriving DecidableEq, Repr

def Glyph.width (g : Glyph) : Nat := if g.wide then 2 else 1

abbrev Row := List Glyph

def rowWidth : Row → Nat
  | [] => 0
  | g :: r => g.width + rowWidth r

/-- The characters with the marks behind them, in one style. What takes no cell and is no mark is left
out, with its marks. -/
def glyphs (style : Style) : List Char → Row
  | [] => []
  | c :: rest =>
    match Text.width c with
    | 0 => glyphs style rest
    | n => { char := c, style, wide := 1 < n, marks := rest.takeWhile Text.isMark } :: glyphs style rest

def row (style : Style) (text : String) : Row := glyphs style text.toList

def Glyph.text (g : Glyph) : List Char := g.char :: g.marks

/-- The glyphs that fit in a width. A wide glyph that fits by half ends the row. -/
def cut : Nat → Row → Row
  | _, [] => []
  | width, g :: r => if g.width ≤ width then g :: cut (width - g.width) r else []

def blanks (n : Nat) (style : Style) : Row := List.replicate n { char := ' ', style }

/-- Exactly `width` cells: cut at the right, or filled with blanks. -/
def fit (width : Nat) (fill : Style) (r : Row) : Row :=
  let kept := cut width r
  kept ++ blanks (width - rowWidth kept) fill

def itemRow (width : Nat) (style : Style) (text : String) : Row := fit width style (row style text)

structure Panel where
  width : Nat
  height : Nat
  title : String
  border : Style
  inside : Style := plain

namespace Panel

def innerWidth (p : Panel) : Nat := p.width - 2
def innerHeight (p : Panel) : Nat := p.height - 2

def topEdge (p : Panel) : Row :=
  let bar := List.replicate p.innerWidth { char := '─', style := p.border }
  let title := cut p.innerWidth (row p.border p.title)
  { char := '┌', style := p.border } :: (title ++ bar.drop (rowWidth title)) ++
    [{ char := '┐', style := p.border }]

def bottomEdge (p : Panel) : Row :=
  { char := '└', style := p.border } ::
    List.replicate p.innerWidth { char := '─', style := p.border } ++
    [{ char := '┘', style := p.border }]

def sideEdge (p : Panel) : Glyph := { char := '│', style := p.border }

def draw (p : Panel) (content : List Row) : List Row :=
  let rows := content.take p.innerHeight
  let rows := rows ++ List.replicate (p.innerHeight - rows.length) []
  p.topEdge :: rows.map (fun r => p.sideEdge :: fit p.innerWidth p.inside r ++ [p.sideEdge]) ++ [p.bottomEdge]

end Panel

def beside (left right : List Row) : List Row := List.zipWith (· ++ ·) left right

end Intcode.Screen
