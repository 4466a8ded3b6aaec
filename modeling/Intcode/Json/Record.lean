import Intcode.Json.Reader
set_option autoImplicit false

/-!
Typed contents of JSON values. A record may be given by name or by position. By name, members that are
not asked for are passed over, and a member that is asked for must not come twice. By position, there
must not be more items than names.
-/
namespace Intcode.Json

/-- The member of a name, if it is there. There is no answer if it comes twice. -/
def member (members : List (Option String × Json)) (name : String) : Option (Option Json) :=
  match members.filter fun m => m.1 = some name with
  | [] => some none
  | [m] => some (some m.2)
  | _ => none

/-- The slots of a record: by name one for each name, by position one for each item. -/
def slots? (names : List String) : Json → Option (List (Option Json))
  | .arr items => if items.length ≤ names.length then some (items.map some) else none
  | .obj members =>
    if members.all fun m => m.1.isSome then names.mapM (member members) else none
  | _ => none

def toCell? : Json → Option Cell
  | .int n => Cell.ofInt? n
  | _ => none

def toCount? : Json → Option Count
  | .int n => Count.ofInt? n
  | _ => none

def toBool? : Json → Option Bool
  | .bool b => some b
  | _ => none

def toList? {α : Type} (f : Json → Option α) : Json → Option (List α)
  | .arr items => items.mapM f
  | _ => none

def toName? : Json → Option String
  | .str s => s
  | .obj [(name, .null)] => name
  | _ => none

def choose? {α : Type} (choices : List α) (nameOf : α → String) (j : Json) : Option α := do
  let name ← j.toName?
  choices.find? fun c => nameOf c = name

def toOption? {α : Type} (f : Json → Option α) : Option Json → Option (Option α)
  | none | some .null => some none
  | some j => (f j).map some

def withDefault? {α : Type} (f : Json → Option α) (default : α) : Option Json → Option α
  | none => some default
  | some j => f j

end Intcode.Json
