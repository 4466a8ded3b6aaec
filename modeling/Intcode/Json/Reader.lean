import Intcode.Json.Basic
set_option autoImplicit false

/-!
Reading JSON, strictly: no trailing commas, no leading zeros, nothing but blanks after the value. The
readers take the text from where a value starts and give the value and the text after it.
-/
namespace Intcode.Json

def isBlank (c : Char) : Bool := c = ' ' || c = '\n' || c = '\t' || c = '\r'

def skip (cs : List Char) : List Char := cs.dropWhile isBlank

/-! Strings are read as code units, since an escape may name half a character. -/

def hexValue (c : Char) : Option Nat :=
  if c.isDigit then some (c.toNat - 48)
  else if 'a' ≤ c ∧ c ≤ 'f' then some (c.toNat - 87)
  else if 'A' ≤ c ∧ c ≤ 'F' then some (c.toNat - 55)
  else none

def hexUnit (a b c d : Char) : Option Nat := do
  return (((← hexValue a) * 16 + (← hexValue b)) * 16 + (← hexValue c)) * 16 + (← hexValue d)

def escaped : Char → Option Nat
  | '"' => some 0x22
  | '\\' => some 0x5C
  | '/' => some 0x2F
  | 'b' => some 0x8
  | 'f' => some 0xC
  | 'n' => some 0xA
  | 'r' => some 0xD
  | 't' => some 0x9
  | _ => none

def units : List Char → Option (List Nat × List Char)
  | [] => none
  | '"' :: rest => some ([], rest)
  | '\\' :: 'u' :: a :: b :: c :: d :: rest => do
    let unit ← hexUnit a b c d
    let (more, rest) ← units rest
    return (unit :: more, rest)
  | '\\' :: c :: rest => do
    let unit ← escaped c
    let (more, rest) ← units rest
    return (unit :: more, rest)
  | c :: rest =>
    if c.toNat < 0x20 then none else do
      let (more, rest) ← units rest
      return (c.toNat :: more, rest)

def isHigh (u : Nat) : Bool := 0xD800 ≤ u && u ≤ 0xDBFF
def isLow (u : Nat) : Bool := 0xDC00 ≤ u && u ≤ 0xDFFF

def joinUnits : List Nat → Option (List Char)
  | [] => some []
  | [u] => if isHigh u || isLow u then none else some [Char.ofNat u]
  | u :: v :: rest =>
    if isHigh u && isLow v then
      (joinUnits rest).map (Char.ofNat (0x10000 + (u - 0xD800) * 0x400 + (v - 0xDC00)) :: ·)
    else if isHigh u || isLow u then none
    else (joinUnits (v :: rest)).map (Char.ofNat u :: ·)

def readString (cs : List Char) : Option (Option String × List Char) := do
  let (us, rest) ← units cs
  return ((joinUnits us).map String.ofList, rest)

def digits (cs : List Char) : List Char × List Char := (cs.takeWhile Char.isDigit, cs.dropWhile Char.isDigit)

def wholePart : List Char → Option (List Char × List Char)
  | '0' :: rest => some (['0'], rest)
  | c :: rest => if c.isDigit then some (digits (c :: rest)) else none
  | [] => none

def fraction : List Char → Option (List Char × List Char)
  | '.' :: rest => match digits rest with
    | ([], _) => none
    | (ds, rest) => some ('.' :: ds, rest)
  | rest => some ([], rest)

def exponentDigits (head : List Char) (cs : List Char) : Option (List Char × List Char) :=
  match digits cs with
  | ([], _) => none
  | (ds, rest) => some (head ++ ds, rest)

def exponent : List Char → Option (List Char × List Char)
  | e :: rest =>
    if e = 'e' ∨ e = 'E' then
      match rest with
      | '+' :: rest => exponentDigits [e, '+'] rest
      | '-' :: rest => exponentDigits [e, '-'] rest
      | rest => exponentDigits [e] rest
    else some ([], e :: rest)
  | [] => some ([], [])

def unsignedNumber (negative : Bool) (cs : List Char) : Option (Json × List Char) := do
  let (whole, rest) ← wholePart cs
  let (frac, rest) ← fraction rest
  let (exp, rest) ← exponent rest
  let n := Nat.ofDigitChars 10 whole 0
  let tail := frac ++ exp
  if tail.isEmpty && !(negative && n == 0) then
    return (.int (if negative then -n else n), rest)
  else
    return (.real (String.ofList ((if negative then ['-'] else []) ++ whole ++ tail)), rest)

def number : List Char → Option (Json × List Char)
  | '-' :: rest => unsignedNumber true rest
  | cs => unsignedNumber false cs

mutual

/-- The value at the start of a text. Each call spends one unit of fuel. -/
def value : Nat → List Char → Option (Json × List Char)
  | 0, _ => none
  | fuel + 1, cs => match skip cs with
    | 'n' :: 'u' :: 'l' :: 'l' :: rest => some (.null, rest)
    | 't' :: 'r' :: 'u' :: 'e' :: rest => some (.bool true, rest)
    | 'f' :: 'a' :: 'l' :: 's' :: 'e' :: rest => some (.bool false, rest)
    | '"' :: rest => do
      let (s, rest) ← readString rest
      return (.str s, rest)
    | '[' :: rest => match skip rest with
      | ']' :: rest => some (.arr [], rest)
      | _ => items fuel [] rest
    | '\x7b' :: rest => match skip rest with
      | '\x7d' :: rest => some (.obj [], rest)
      | _ => members fuel [] rest
    | cs => number cs

def items : Nat → List Json → List Char → Option (Json × List Char)
  | 0, _, _ => none
  | fuel + 1, done, cs => do
    let (v, rest) ← value fuel cs
    match skip rest with
    | ',' :: rest => items fuel (v :: done) rest
    | ']' :: rest => some (.arr (v :: done).reverse, rest)
    | _ => none

def members : Nat → List (Option String × Json) → List Char → Option (Json × List Char)
  | 0, _, _ => none
  | fuel + 1, done, cs => match skip cs with
    | '"' :: rest => do
      let (key, rest) ← readString rest
      match skip rest with
      | ':' :: rest => do
        let (v, rest) ← value fuel rest
        match skip rest with
        | ',' :: rest => members fuel ((key, v) :: done) rest
        | '\x7d' :: rest => some (.obj ((key, v) :: done).reverse, rest)
        | _ => none
      | _ => none
    | _ => none

end

/-- The value that a whole text holds. No reading of a text makes more nested calls than twice its
length, so the fuel never runs out first. -/
def read? (text : String) : Option Json := do
  let cs := text.toList
  let (v, rest) ← value (2 * cs.length + 2) cs
  if (skip rest).isEmpty then some v else none

end Intcode.Json
