import CheckedMemory.Pointer.Array
import CheckedMemory.Runs.Order

/-!
# Bulk operations

Filling, copying and comparing runs of elements or bytes.  Every operation checks its whole
destination first, then its whole source, then overlap where it forbids it; only then does it
write.  Byte counts are checked in elements, a started element counting as whole.

A clone of an element is its cells.  `cloneInto` gives the destination what the source held before,
by whatever distance the two overlap; the old elements are released upward when the destination is
not above the source and downward otherwise.
-/

namespace CheckedMemory

namespace Bulk

open Operation

variable {P Q : ElemType → Type} [ArrayLike P] [ArrayLike Q] {τ : ElemType}

/-! ## 1. Ranges -/

/-- Two ranges of equal length share a byte. -/
def overlaps (a b : Address) (bytes : UInt64) : Bool :=
  bytes != 0 && a < b + bytes && b < a + bytes

/-- The address of the first of `bytes` bytes, all of them checked. -/
def requireBytes (p : P τ) (bytes : UInt64) : Except Violation Address :=
  ArrayLike.requireSpan p (Word.ceilDiv bytes τ.size)

/-! ## 2. Elements -/

/-- Sets `n` consecutive elements to the zero value, which every type that has one takes as
default.  They are changed in place, so nothing is released. -/
def setZero (τ : ElemType) (n : Nat) (a : Address) : Operation Unit :=
  store a (τ.encodeRuns (.replicate n τ.default))

/-- Sets `count` elements to the zero value. -/
def zero (dst : P τ) (count : UInt64) : Operation Unit := do
  let a ← check (ArrayLike.requireSpan dst count)
  setZero τ count.toNat a

/-- Assigns clones of a value to `count` elements.  One clone more is made and moved into the
last of them; where there is none, it is released. -/
def fill (dst : P τ) (x : τ.Carrier) (count : UInt64) : Operation Unit := do
  let a ← check (ArrayLike.requireSpan dst count)
  if count = 0 then drop τ x else assignAll τ a (.replicate count.toNat x)

/-- Puts clones of `n` elements over others. -/
def cloneElements (τ : ElemType) (target source : Address) (n : Nat) (upward : Bool) :
    Operation Unit := do
  replaceElements τ target n (← load source (n * τ.layout.size)) upward

/-- Copies `count` elements to where they do not overlap. -/
def copy (dst : P τ) (src : Q τ) (count : UInt64) : Operation Unit := do
  let target ← check (ArrayLike.requireSpan dst count)
  let source ← check (ArrayLike.requireSpan src count)
  match Word.mul? count τ.size with
  | none => throw (.overflow .multiplication)
  | some bytes =>
    require (!overlaps target source bytes) .overlappingCopy
    cloneElements τ target source count.toNat true

/-- Copies `count` elements, overlapping or not. -/
def cloneInto (dst : P τ) (src : Q τ) (count : UInt64) : Operation Unit := do
  let target ← check (ArrayLike.requireSpan dst count)
  let source ← check (ArrayLike.requireSpan src count)
  cloneElements τ target source count.toNat (target ≤ source)

/-- Moves `n` cells, overlapping or not. -/
def moveCells (target source : Address) (n : Nat) : Operation Unit := do
  store target (← load source n)

/-- Copies the cells of `count` elements, overlapping or not. -/
def copyTrivial (dst : P τ) (src : Q τ) (count : UInt64) : Operation Unit := do
  let target ← check (ArrayLike.requireSpan dst count)
  let source ← check (ArrayLike.requireSpan src count)
  moveCells target source (count.toNat * τ.layout.size)

/-! ## 3. Bytes -/

/-- Sets `bytes` bytes. -/
def memset (dst : P τ) (b : UInt8) (bytes : UInt64) : Operation Unit := do
  let a ← check (requireBytes dst bytes)
  storeBytes a (.replicate bytes.toNat b)

/-- Copies `bytes` bytes to where they do not overlap. -/
def memcpy (dst : P τ) (src : Q τ) (bytes : UInt64) : Operation Unit := do
  let target ← check (requireBytes dst bytes)
  let source ← check (requireBytes src bytes)
  require (!overlaps target source bytes) .overlappingCopy
  moveCells target source bytes.toNat

/-- Copies `bytes` bytes, overlapping or not. -/
def memmove (dst : P τ) (src : Q τ) (bytes : UInt64) : Operation Unit := do
  let target ← check (requireBytes dst bytes)
  let source ← check (requireBytes src bytes)
  moveCells target source bytes.toNat

/-- Compares `bytes` bytes. -/
def memcmp (p : P τ) (q : Q τ) (bytes : UInt64) : Operation Ordering := do
  let a ← check (requireBytes p bytes)
  let b ← check (requireBytes q bytes)
  return (← loadBytes a bytes.toNat).compare (← loadBytes b bytes.toNat)

end Bulk

end CheckedMemory
