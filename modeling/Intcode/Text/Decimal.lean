import Intcode.Cell
set_option autoImplicit false

/-!
Decimal text of integers, and the one reader of it. A number is an optional sign and at least one
digit; leading zeros are allowed. `Decimal.read` walks the digits from the left and stops at the first
fault: a character that is no digit, or a value that has left the range.
-/
namespace Intcode.Text

def Decimal.chars : Int → List Char
  | .ofNat n => Nat.toDigits 10 n
  | .negSucc n => '-' :: Nat.toDigits 10 (n + 1)

/-- Zeros fill up to `width`, between sign and digits; the sign counts. -/
def Decimal.padded (width : Nat) (n : Int) : String :=
  let sign := if n < 0 then "-" else ""
  let digits := String.ofList (Nat.toDigits 10 n.natAbs)
  sign ++ "".pushn '0' (width - sign.length - digits.length) ++ digits

/-- The integers a number may stand for, and whether a minus sign is read at all. -/
structure Decimal.Range where
  lo : Int
  hi : Int
  signed : Bool
  deriving DecidableEq, Repr

def Decimal.cell : Decimal.Range := ⟨Cell.least, Cell.greatest, true⟩
def Decimal.count : Decimal.Range := ⟨0, Count.greatest, false⟩

inductive Decimal.Fault
  | empty
  | invalidDigit
  | tooLarge
  | tooSmall
  deriving DecidableEq, Repr

def Decimal.Fault.message : Decimal.Fault → String
  | .empty => "cannot parse integer from empty string"
  | .invalidDigit => "invalid digit found in string"
  | .tooLarge => "number too large to fit in target type"
  | .tooSmall => "number too small to fit in target type"

def Decimal.digitValue (c : Char) : Int := (c.toNat - '0'.toNat : Nat)

def Decimal.rising (range : Decimal.Range) : Int → List Char → Except Decimal.Fault Int
  | value, [] => .ok value
  | value, c :: rest =>
    if !c.isDigit then .error .invalidDigit
    else
      let next := 10 * value + digitValue c
      if range.hi < next then .error .tooLarge else rising range next rest

def Decimal.falling (range : Decimal.Range) : Int → List Char → Except Decimal.Fault Int
  | value, [] => .ok value
  | value, c :: rest =>
    if !c.isDigit then .error .invalidDigit
    else
      let next := 10 * value - digitValue c
      if next < range.lo then .error .tooSmall else falling range next rest

def Decimal.read (range : Decimal.Range) : List Char → Except Decimal.Fault Int
  | [] => .error .empty
  | ['+'] => .error .invalidDigit
  | ['-'] => .error .invalidDigit
  | '+' :: digits => rising range 0 digits
  | '-' :: digits => if range.signed then falling range 0 digits else .error .invalidDigit
  | digits => rising range 0 digits

end Intcode.Text
