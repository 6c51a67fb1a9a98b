import CheckedMemory.Heap.Allocate
import CheckedMemory.Pointer.Array

/-!
# Records with a variable tail

One block holds a head, the number of tail elements, and the tail.  The tail is reached as an
array pointer into the block; the block is released through the record alone, since the tail does
not start it.
-/

namespace CheckedMemory

namespace TailedPtr

open Operation

variable {h t : ElemType}

/-- The address of the record, which must not be null. -/
def checked (p : TailedPtr h t) : Except Violation Address :=
  if p.isNull then .error .nullDereference else .ok p.address

/-- The head. -/
def head (p : TailedPtr h t) : Operation h.Carrier := do
  loadValue h (← check p.checked)

/-- Assigns to the head. -/
def setHead (p : TailedPtr h t) (x : h.Carrier) : Operation Unit := do
  assign h (← check p.checked) x

/-- The number of tail elements. -/
def tailLength (p : TailedPtr h t) : Operation UInt64 := do
  let a ← check p.checked
  loadValue .uint64 (a + UInt64.ofNat (Layout.Tailed.lengthOffset h.layout))

/-- The tail. -/
def tail (p : TailedPtr h t) : Operation (ArrayPtr t) := do
  let count ← p.tailLength
  return .ofBase (p.address + UInt64.ofNat (Layout.Tailed.tailOffset h.layout t.layout)) count

end TailedPtr

end CheckedMemory
