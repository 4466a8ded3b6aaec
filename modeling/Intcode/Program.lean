import Intcode.Text.Blank
import Intcode.Text.Decimal
import Intcode.Text.Quoted
set_option autoImplicit false

/-!
Program text: integers between commas, with blanks around each one ignored. Reading blames the first
token that is no integer; writing is canonical, with single commas and no blanks.
-/
namespace Intcode

def Program.split (separator : Char) : List Char → List (List Char)
  | [] => [[]]
  | c :: rest =>
    if c = separator then [] :: split separator rest
    else match split separator rest with
      | [] => [[c]]
      | part :: parts => (c :: part) :: parts

def Program.tokens (source : List Char) : List (List Char) := (split ',' source).map Text.trim

/-- A token that is no integer, with its place among the tokens. -/
structure ParseError where
  index : Nat
  token : String
  fault : Text.Decimal.Fault
  deriving DecidableEq, Repr

def ParseError.message (e : ParseError) : String :=
  let index := e.index
  let token := String.ofList (Text.quote e.token.toList)
  let fault := e.fault.message
  s!"token {index} ({token}) is not an integer: {fault}"

def Program.readCell (token : List Char) : Except Text.Decimal.Fault Cell :=
  (Text.Decimal.read Text.Decimal.cell token).map Int64.ofInt

def Program.readTokens : Nat → List (List Char) → Except ParseError (List Cell)
  | _, [] => .ok []
  | index, token :: rest =>
    match readCell token with
    | .error fault => .error ⟨index, String.ofList token, fault⟩
    | .ok cell => (readTokens (index + 1) rest).map (cell :: ·)

def Program.parse (source : String) : Except ParseError (Array Cell) :=
  (readTokens 0 (tokens source.toList)).map List.toArray

def Program.chars (cells : List Cell) : List Char :=
  List.intercalate [','] (cells.map fun c => Text.Decimal.chars c.toInt)

def Program.format (cells : Array Cell) : String := String.ofList (chars cells.toList)

end Intcode
