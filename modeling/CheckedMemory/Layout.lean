import CheckedMemory.Word

/-!
# Layouts

How many bytes a thing takes and to what its address must be a multiple.  Sizes are natural
numbers here: a size is computed exactly and compared once with the largest size there is, which
makes a separate overflow test unnecessary.
-/

namespace CheckedMemory

/-- A size in bytes and an alignment. -/
structure Layout where
  size : Nat
  align : Nat
deriving DecidableEq, Repr

namespace Layout

/-- The largest size of anything in memory. -/
def maxSize : Nat := 2 ^ 63 - 1

/-- The layout of `size` bytes at `align`, unless the size, rounded up to the alignment, exceeds
the largest size. -/
def make? (size align : Nat) : Option Layout :=
  if Word.roundUp size align ≤ maxSize then some ⟨size, align⟩ else none

/-- The layout with its size rounded up to its alignment. -/
def padded (l : Layout) : Layout := { l with size := Word.roundUp l.size l.align }

/-- The layout of `count` elements of layout `l` and `padding` bytes more. -/
def array? (l : Layout) (count padding : Nat) : Option Layout :=
  make? (count * l.size + padding) l.align

/-! ## Records with a variable tail

A head, a length word, and tail elements, each at the first multiple of its alignment after what
comes before. -/

namespace Tailed

/-- Where the length word starts. -/
def lengthOffset (head : Layout) : Nat := Word.roundUp head.size 8

/-- Where the tail starts. -/
def tailOffset (head tail : Layout) : Nat := Word.roundUp (lengthOffset head + 8) tail.align

/-- The alignment of the record: that of its strictest part. -/
def align (head tail : Layout) : Nat := max head.align (max 8 tail.align)

/-- The bytes that a record takes before it has any tail element. -/
def leastSize (head tail : Layout) : Nat := Word.roundUp (tailOffset head tail) (align head tail)

/-- The layout with `count` tail elements, padded to its alignment. -/
def layout? (head tail : Layout) (count : Nat) : Option Layout :=
  (make? (max (count * tail.size + tailOffset head tail) (leastSize head tail))
    (align head tail)).map padded

end Tailed

end Layout

end CheckedMemory
