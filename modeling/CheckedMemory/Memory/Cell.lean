import CheckedMemory.Word

/-!
# Memory cells

One byte of memory.  Most values are nothing but their bytes.  Text and lists own content of any
length outside the element; their cells are parts of that content, numbered, so a value of either
kind can be moved cell by cell like any other and never has to be flattened into bytes.
-/

namespace CheckedMemory

/-- What an element may own outside its own bytes. -/
inductive Content where
  | text (s : String)
  | addresses (as : List Address)
deriving DecidableEq, Repr

/-- One byte of memory: a number, or part `i` of an owned content. -/
inductive Cell where
  | byte (b : UInt8)
  | part (c : Content) (i : Nat)
deriving DecidableEq, Repr

namespace Cell

/-- The number in a cell; a part of owned content has none and counts as zero. -/
def toByte : Cell → UInt8
  | byte b => b
  | part .. => 0

/-- The `n` cells of a value that owns `c`. -/
def parts (n : Nat) (c : Content) : List Cell := (List.range n).map (part c)

/-- The content that a value starting with these cells owns. -/
def owned? : List Cell → Option Content
  | part c _ :: _ => some c
  | _ => none

/-- Cells that hold bytes. -/
def ofBytes (bs : List UInt8) : List Cell := bs.map byte

/-- The numbers in cells. -/
def toBytes (cs : List Cell) : List UInt8 := cs.map toByte

@[simp] theorem length_parts (n : Nat) (c : Content) : (parts n c).length = n := by
  simp [parts]

@[simp] theorem owned?_parts (n : Nat) (c : Content) : owned? (parts (n + 1) c) = some c := by
  simp [parts, List.range_succ_eq_map, owned?]

@[simp] theorem length_ofBytes (bs : List UInt8) : (ofBytes bs).length = bs.length := by
  simp [ofBytes]

@[simp] theorem length_toBytes (cs : List Cell) : (toBytes cs).length = cs.length := by
  simp [toBytes]

@[simp] theorem toBytes_ofBytes (bs : List UInt8) : toBytes (ofBytes bs) = bs := by
  induction bs with
  | nil => rfl
  | cons b bs ih => simp_all [ofBytes, toBytes, toByte]

end Cell

end CheckedMemory
