import Intcode.Text.Decimal
set_option autoImplicit false

/-!
JSON values and their compact text. Integers are exact; a number with a fraction or an exponent, and
the literal `-0`, is kept as written (`Json.real`), because no integer is read from it. A string is
absent where its escapes name half a character: such a string can be passed over but not used.
-/
namespace Intcode

inductive Json
  | null
  | bool (b : Bool)
  | int (n : Int)
  | real (literal : String)
  | str (s : Option String)
  | arr (items : List Json)
  | obj (members : List (Option String × Json))
  deriving Repr, Inhabited

namespace Json

def hexDigit (n : Nat) : Char := Nat.digitChar n

def escapeChar (c : Char) : List Char :=
  match c with
  | '"' => ['\\', '"']
  | '\\' => ['\\', '\\']
  | '\n' => ['\\', 'n']
  | '\r' => ['\\', 'r']
  | '\t' => ['\\', 't']
  | c =>
    if c.toNat < 0x20 then
      ['\\', 'u', '0', '0', hexDigit (c.toNat / 16), hexDigit (c.toNat % 16)]
    else [c]

def writeString (s : Option String) (rest : List Char) : List Char :=
  '"' :: ((s.getD "").toList.flatMap escapeChar ++ '"' :: rest)

mutual

/-- The compact text of a value, in front of `rest`. -/
def write : Json → List Char → List Char
  | .null, rest => 'n' :: 'u' :: 'l' :: 'l' :: rest
  | .bool true, rest => 't' :: 'r' :: 'u' :: 'e' :: rest
  | .bool false, rest => 'f' :: 'a' :: 'l' :: 's' :: 'e' :: rest
  | .int n, rest => Text.Decimal.chars n ++ rest
  | .real literal, rest => literal.toList ++ rest
  | .str s, rest => writeString s rest
  | .arr items, rest => '[' :: writeItems items (']' :: rest)
  | .obj members, rest => '\x7b' :: writeMembers members ('\x7d' :: rest)

def writeItems : List Json → List Char → List Char
  | [], rest => rest
  | [v], rest => v.write rest
  | v :: w :: vs, rest => v.write (',' :: writeItems (w :: vs) rest)

def writeMembers : List (Option String × Json) → List Char → List Char
  | [], rest => rest
  | [(k, v)], rest => writeString k (':' :: v.write rest)
  | (k, v) :: m :: ms, rest => writeString k (':' :: v.write (',' :: writeMembers (m :: ms) rest))

end

def text (j : Json) : String := String.ofList (j.write [])

def string (s : String) : Json := .str (some s)

def nat (n : Nat) : Json := .int n

def cell (c : Cell) : Json := .int c.toInt

def count (c : Count) : Json := .int c.toNat

def list {α : Type} (f : α → Json) (xs : List α) : Json := .arr (xs.map f)

def cells (xs : Array Cell) : Json := list cell xs.toList

def optional {α : Type} (f : α → Json) : Option α → Json
  | some x => f x
  | none => .null

def record (members : List (String × Json)) : Json := .obj (members.map fun m => (some m.1, m.2))

end Json

end Intcode
