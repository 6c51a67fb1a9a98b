import CheckedMemory.Violation

/-!
# Spans

A span is the checked core of every array pointer: the address of element 0, a current index and
the number of elements behind the base.  The index moves freely and wraps; nothing is checked
until an element is asked for.  The size of an element is not stored; each operation takes it, so
one span can be read at several sizes (`rescale`).

Four questions are answered here, each with its own arithmetic: one element (`locate`), a run of
elements (`window`), the rest of the array (`remaining`) and a run of bytes (`admitsBytes`).
-/

namespace CheckedMemory

/-- Base address, current index and extent in elements. -/
structure Span where
  base : Address
  index : Int64
  extent : UInt64
deriving DecidableEq, Repr

namespace Span

/-! ## 1. Construction and motion -/

/-- The span of no array. -/
def null : Span := ⟨0, 0, 0⟩

instance : Inhabited Span := ⟨null⟩

def isNull (s : Span) : Bool := s.base == 0

/-- The same array, `d` elements further on.  The index wraps and is not checked. -/
def shift (s : Span) (d : Int64) : Span := { s with index := s.index + d }

/-- The same array at its first element.  The move is by the negated index, which does not exist
for the least index. -/
def toBegin (s : Span) : Checked Span :=
  if s.index = Int64.minValue then .error (.overflow .negation) else .ok (s.shift (-s.index))

/-- The same array, one past its last element.  The move is by extent less index, which must fit
a signed word. -/
def toEnd (s : Span) : Checked Span :=
  let d := s.extent.toInt64.toInt - s.index.toInt
  if d < -2 ^ 63 ∨ 2 ^ 63 ≤ d then .error (.overflow .subtraction)
  else .ok (s.shift (Int64.ofInt d))

@[simp] theorem base_shift (s : Span) (d : Int64) : (s.shift d).base = s.base := rfl

@[simp] theorem extent_shift (s : Span) (d : Int64) : (s.shift d).extent = s.extent := rfl

@[simp] theorem index_shift (s : Span) (d : Int64) : (s.shift d).index = s.index + d := rfl

/-! ## 2. Addresses -/

/-- The address `index` elements of `size` bytes from `base`, wrapping. -/
def elementAddress (base : Address) (size : UInt64) (index : Int64) : Address :=
  base + index.toUInt64 * size

/-- The address of the current element, whether or not it is inside the array. -/
def address (s : Span) (size : UInt64) : Address :=
  elementAddress s.base size s.index

/-- How many elements lie from the other span's position to this one's.  Elements without bytes
are told apart by index alone; otherwise the byte distance is divided toward zero. -/
def distance (s t : Span) (size : UInt64) : Int64 :=
  if size = 0 then s.index - t.index
  else ((s.address size).toInt64 - (t.address size).toInt64) / size.toInt64

/-! ## 3. Checks -/

/-- `index` is a position of an array of `extent` elements. -/
def inExtent (index : Int64) (extent : UInt64) : Bool :=
  0 ≤ index && index.toUInt64 < extent

/-- The address of the element `offset` from the current one, checked. -/
def locate (s : Span) (size : UInt64) (offset : Int64) : Except Violation Address :=
  if s.isNull then .error .nullDereference
  else
    let i := s.index + offset
    if inExtent i s.extent then .ok (elementAddress s.base size i)
    else .error (.outOfBounds i s.extent)

/-- The address of the first of `count` elements from the current one on, all of them checked at
once.  No elements are always there, even behind a null pointer. -/
def window (s : Span) (size : UInt64) (count : UInt64) : Except Violation Address :=
  if count = 0 then .ok (s.address size)
  else if s.isNull then .error .nullDereference
  else if 0 ≤ s.index ∧ s.index.toUInt64.toNat + count.toNat ≤ s.extent.toNat then
    .ok (s.address size)
  else .error (.spanOutOfBounds s.index count s.extent)

/-- The number of elements from the current one to the end. -/
def remaining (s : Span) : Except Violation UInt64 :=
  if s.isNull then .error .nullDereference
  else if 0 ≤ s.index ∧ s.index.toUInt64 ≤ s.extent then .ok (s.extent - s.index.toUInt64)
  else .error (.outOfBounds s.index s.extent)

/-- Whether `bytes` bytes from the current element on are inside the array.  A started element
counts as whole. -/
def admitsBytes (s : Span) (size bytes : UInt64) : Bool :=
  (s.window size (Word.ceilDiv bytes size)).isOk

/-! ## 4. Other element sizes -/

/-- The same memory counted in elements of size `b` instead of `a`.  The extent is the number of
whole new elements; base and index are kept. -/
def rescale (s : Span) (a b : UInt64) : Span :=
  { s with extent := Word.mulSat s.extent a / max b 1 }

end Span

end CheckedMemory
