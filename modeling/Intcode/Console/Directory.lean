import Intcode.Console.Path
set_option autoImplicit false

/-!
The working directory as the commands see it: files by place, with the directories that their paths go
through. Outside it are the directories above, the root with its usual directories, and the null device,
which is empty and keeps nothing. A path is followed name by name, and the first name that leads nowhere decides.
-/
namespace Intcode.Console

inductive FileError
  | missing
  | notDirectory
  | isDirectory
  | nameTooLong
  | garbled
  | other (text : String)
  deriving DecidableEq, Repr

def FileError.message : FileError → String
  | .missing => "No such file or directory (os error 2)"
  | .notDirectory => "Not a directory (os error 20)"
  | .isDirectory => "Is a directory (os error 21)"
  | .nameTooLong => "File name too long (os error 36)"
  | .garbled => "stream did not contain valid UTF-8"
  | .other text => text

def decodeText (bytes : ByteArray) : Except FileError String :=
  match String.fromUTF8? bytes with
  | some text => .ok text
  | none => .error .garbled

structure Directory where
  files : List (Place × ByteArray)

namespace Directory

def nullDevice : Place := ⟨true, [['d', 'e', 'v'], ['n', 'u', 'l', 'l']]⟩

def rootNames : List String := [
  "bin", "boot", "dev", "etc", "home", "lib", "media", "mnt", "opt", "proc", "root", "run", "sbin", "srv",
  "sys", "tmp", "usr", "var"]

def isUsual (p : Place) : Bool :=
  match p with
  | ⟨true, [name]⟩ => String.ofList name ∈ rootNames
  | _ => false

def ofFiles (files : List (String × ByteArray)) : Directory :=
  let placed := files.map fun f =>
    (⟨false, (Path.ofChars f.1.toList).names.filter (· ≠ Place.here)⟩, f.2)
  ⟨(nullDevice, ByteArray.empty) :: placed⟩

def lookup (d : Directory) (p : Place) : Option ByteArray :=
  (d.files.find? fun f => f.1 = p).map Prod.snd

/-- Whether a place is a directory: above the files, a usual one, or on the way to some file. -/
def isDirectory (d : Directory) (p : Place) : Bool :=
  p.isAbove || isUsual p || d.files.any fun f =>
    f.1.fromRoot = p.fromRoot && f.1.names.length > p.names.length && p.names.isPrefixOf f.1.names

def place (p : Place) (name : Name) : Except FileError Place :=
  if name = Place.here then .ok p
  else if name = Place.above then .ok p.up
  else if Path.maxNameBytes < (String.ofList name).utf8ByteSize then .error .nameTooLong
  else .ok (p.down name)

def enter (d : Directory) (p : Place) (name : Name) : Except FileError Place := do
  let p ← place p name
  if d.isDirectory p then return p
  else if (d.lookup p).isSome then .error .notDirectory
  else .error .missing

def approach (d : Directory) (text : String) : Except FileError (Path × Place) := do
  let path := Path.ofChars text.toList
  if text.isEmpty then .error .missing
  else if Path.maxBytes < text.utf8ByteSize then .error .nameTooLong
  else return (path, ← path.names.dropLast.foldlM d.enter ⟨path.fromRoot, []⟩)

def read (d : Directory) (text : String) : Except FileError ByteArray := do
  let (path, start) ← d.approach text
  let p ← match path.names.getLast? with
    | none => pure start
    | some name => place start name
  if d.isDirectory p then .error .isDirectory
  else match d.lookup p with
    | none => .error .missing
    | some bytes => if path.endsInSlash then .error .notDirectory else return bytes

def readText (d : Directory) (text : String) : Except FileError String := do
  decodeText (← d.read text)

/-- A file takes the place of what was there. A slash at the end can only mean a directory. -/
def write (d : Directory) (text : String) (bytes : ByteArray) : Except FileError Directory := do
  let (path, start) ← d.approach text
  match path.names.getLast? with
  | none => .error .isDirectory
  | some name =>
    if path.endsInSlash then .error .isDirectory
    else
      let p ← place start name
      if d.isDirectory p then .error .isDirectory
      else if p = nullDevice then return d
      else return ⟨(p, bytes) :: d.files.filter fun f => f.1 ≠ p⟩

end Directory

end Intcode.Console
