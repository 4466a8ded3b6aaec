set_option autoImplicit false

/-!
The keyboard of a terminal. Most keys send their character. Held down together with control, a key sends
a control character, and is read as the plain key again. Keys that stand for no character send a
sequence that starts with an escape character; two escape characters are the escape key.
-/
namespace Intcode

inductive Key
  | char (c : Char)
  | enter
  | escape
  | backspace
  | up
  | down
  | pageUp
  | pageDown
  | other
  deriving DecidableEq, Repr

namespace Key

def ofChar (c : Char) : Key :=
  let n := c.toNat
  if c = '\r' then .enter
  else if c = '\t' then .other
  else if c = '\x7f' then .backspace
  else if c = '\x1b' then .escape
  else if n = 0 then .char ' '
  else if n ≤ 26 then .char (Char.ofNat (n + 96))
  else if n < 32 then .char (Char.ofNat (n + 24))
  else .char c

def ofLetter (c : Char) : Option Key :=
  if c = 'A' then some .up
  else if c = 'B' then some .down
  else if c ∈ ['C', 'D', 'F', 'H', 'I', 'O', 'P', 'Q', 'S', 'Z'] then some .other
  else none

def ofNumber (parameters : List Char) : Option Key :=
  let n := parameters.takeWhile (· ≠ ';')
  if n = ['5'] then some .pageUp
  else if n = ['6'] then some .pageDown
  else if n.all Char.isDigit then some .other
  else none

inductive Pending
  | nothing
  | escape
  | function
  | sequence (parameters : List Char)
  deriving DecidableEq, Repr

/-- Takes one more character. A sequence ends with a letter or a sign after the letters, and one that
means nothing is dropped. Held down together with escape, a key stays what it is. -/
def next (c : Char) : Pending → Option Key × Pending
  | .nothing => if c = '\x1b' then (none, .escape) else (some (ofChar c), .nothing)
  | .escape =>
    if c = '[' then (none, .sequence [])
    else if c = 'O' then (none, .function)
    else (some (ofChar c), .nothing)
  | .function => (ofLetter c, .nothing)
  | .sequence [] => if c.isDigit then (none, .sequence [c]) else (ofLetter c, .nothing)
  | .sequence parameters =>
    if c = '~' then (ofNumber parameters, .nothing)
    else if '@' ≤ c ∧ c < '~' then (ofLetter c, .nothing)
    else (none, .sequence (parameters ++ [c]))

def decodeFrom : Pending → List Char → List Key
  | .escape, [] => [.escape]
  | _, [] => []
  | pending, c :: rest =>
    let (key, pending) := next c pending
    key.toList ++ decodeFrom pending rest

def decode (text : List Char) : List Key := decodeFrom .nothing text

end Key

end Intcode
