set_option autoImplicit false

/-!
Paths: names between slashes. A path starts at the root or where one stands, and a slash at its end asks
for a directory.
-/
namespace Intcode.Console

abbrev Name := List Char

structure Path where
  fromRoot : Bool
  names : List Name
  endsInSlash : Bool
  deriving DecidableEq, Repr

namespace Path

def ofChars (cs : List Char) : Path where
  fromRoot := cs.head? = some '/'
  names := (cs.splitBy fun a b => a ≠ '/' && b ≠ '/').filter fun name => name ≠ ['/']
  endsInSlash := cs.getLast? = some '/'

def maxNameBytes : Nat := 255
def maxBytes : Nat := 4095

end Path

/-- Where a path leads, from the root or from the working directory: up, and then down by names. -/
structure Place where
  fromRoot : Bool
  names : List Name
  deriving DecidableEq, Repr

namespace Place

def here : Name := ['.']
def above : Name := ['.', '.']

def isAbove (p : Place) : Bool := p.names.all (· = above)

def up (p : Place) : Place :=
  if !p.isAbove then { p with names := p.names.dropLast }
  else if p.fromRoot then p
  else { p with names := above :: p.names }

def down (p : Place) (name : Name) : Place := { p with names := p.names ++ [name] }

end Place

end Intcode.Console
