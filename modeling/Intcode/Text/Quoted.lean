import Intcode.Text.Printable
set_option autoImplicit false

/-!
Quoted text for messages: double quotes around, and an escape for every character that would not be
seen or would end the quotation.
-/
namespace Intcode.Text

def quoteChar (c : Char) : List Char :=
  match c with
  | '"' => ['\\', '"']
  | '\\' => ['\\', '\\']
  | '\n' => ['\\', 'n']
  | '\r' => ['\\', 'r']
  | '\t' => ['\\', 't']
  | '\x00' => ['\\', '0']
  | c => if isPrintable c then [c]
    else '\\' :: 'u' :: '\x7b' :: Nat.toDigits 16 c.toNat ++ ['\x7d']

def quote (cs : List Char) : List Char := '"' :: cs.flatMap quoteChar ++ ['"']

end Intcode.Text
