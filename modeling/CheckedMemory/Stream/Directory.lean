import CheckedMemory.Runs.Basic
import CheckedMemory.Word

/-!
# Files by path

A run has one directory with files in it.  A path says one of the files or the directory itself,
and it may be spelled with more separators than it needs and with steps that stay where they are.
The directory has no bytes, but positions in it may be set.

A position far beyond the end of a file may be set and written at, which leaves a gap of zeros; as
contents are runs, a gap costs nothing.
-/

namespace CheckedMemory

/-! ## 1. Paths -/

/-- The bytes of a file's name. -/
abbrev FileName := List UInt8

/-- What a path may say. -/
inductive Target where
  | file (name : FileName)
  | directory
deriving DecidableEq, Repr

namespace Target

def separator : UInt8 := '/'.toUInt8

/-- The name of a step that stays. -/
def here : FileName := ['.'.toUInt8]

/-- The name of a step up. -/
def above : FileName := ['.'.toUInt8, '.'.toUInt8]

/-- The parts of a path between its separators, empty ones included. -/
def parts (path : List UInt8) : List FileName :=
  path.foldr (fun b ps => if b = separator then [] :: ps else ps.modifyHead (b :: ·)) [[]]

/-- What a path says.  A file's name is its last part and the only one that goes anywhere; steps up
end in a directory, wherever they start.  There is nothing else to be found. -/
def ofPath? (path : List UInt8) : Option Target :=
  if path.isEmpty || 4095 < path.length then none
  else
    let steps := (parts path).filter fun p => !p.isEmpty && p != here
    if steps.all (· == above) then some directory
    else
      match steps with
      | [name] =>
        let isLast := path.head? != some separator && (parts path).getLast? == some name
        if isLast && name.length ≤ 255 then some (file name) else none
      | _ => none

/-- The last position that may be set.  Nothing can be written there or beyond. -/
def lastPosition : Target → Nat
  | file _ => 2 ^ 44 - 2 ^ 12
  | directory => 2 ^ 63 - 1

end Target

/-! ## 2. The directory -/

/-- The files of a run with their contents. -/
structure Directory where
  files : List (FileName × Runs UInt8)
deriving DecidableEq, Repr

namespace Directory

def empty : Directory := ⟨[]⟩

def contents? (d : Directory) (name : FileName) : Option (Runs UInt8) := d.files.lookup name

def put (d : Directory) (name : FileName) (c : Runs UInt8) : Directory :=
  ⟨(name, c) :: d.files.filter (·.1 != name)⟩

/-- The contents of a file, or no bytes where there is none. -/
def contents (d : Directory) (name : FileName) : Runs UInt8 := (d.contents? name).getD .empty

/-- The position of the end. -/
def size (d : Directory) : Target → Nat
  | .file name => (d.contents name).length
  | .directory => Target.directory.lastPosition

/-- At most `n` bytes from a position on; the directory cannot be read. -/
def read? (d : Directory) (t : Target) (position n : Nat) : Option (Runs UInt8) :=
  match t with
  | .file name => some (((d.contents name).drop position).take n)
  | .directory => none

/-- Puts bytes at a position, as many as there may be, and gives their number.  A gap up to the
position is filled with zeros. -/
def write (d : Directory) (t : Target) (position : Nat) (bytes : Runs UInt8) : Nat × Directory :=
  match t with
  | .file name =>
    let count := min bytes.length (t.lastPosition - position)
    if count = 0 then (0, d)
    else (count, d.put name ((d.contents name).overwrite position 0 (bytes.take count)))
  | .directory => (0, d)

end Directory

end CheckedMemory
