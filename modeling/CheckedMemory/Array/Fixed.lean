import CheckedMemory.Bulk
import CheckedMemory.Heap.Allocate
import CheckedMemory.Pointer.Convert

/-!
# Arrays of fixed length

An array whose length is part of it: in a frame, inside a heap object, or of static duration.
Handed out in a frame it is stack-scoped; a plain array pointer to it exists only where its
elements are off the stack.
-/

namespace CheckedMemory

/-- `length` elements at `base`. -/
structure FixedArray (τ : ElemType) where
  base : Address
  length : UInt64
deriving DecidableEq, Repr

/-- `length` elements of static duration at `base`. -/
structure GlobalArray (τ : ElemType) where
  base : Address
  length : UInt64
deriving DecidableEq, Repr

open Operation

variable {τ : ElemType}

/-- A position must be inside the length. -/
def requireIndex (i length : UInt64) : Except Violation Unit :=
  if i < length then .ok () else .error (.outOfBounds i.toInt64 length)

/-! ## 1. Making storage -/

/-- Places cells in the current frame. -/
def Operation.placeLocal (cells : Runs Cell) : Operation Address := do
  match (← get).frames.reserve? cells.length with
  | some (a, frames) =>
    modify fun w => { w with frames, memory := w.memory.place a cells }
    return a
  | none => throw .exhausted

/-- Places cells for the whole run, outside the heap table. -/
def Operation.placeStatic (l : Layout) (cells : Runs Cell) : Operation Address := do
  let a ← requestMemory l
  modify fun w => { w with memory := w.memory.place a cells }
  return a

/-- A local array as a stack-scoped array pointer. -/
def StackArrayPtr.newLocal (τ : ElemType) (xs : List τ.Carrier) : Operation (StackArrayPtr τ) := do
  let a ← placeLocal (.ofList (τ.encodeAll xs))
  return .ofParts (← frames) a (UInt64.ofNat xs.length) 0

/-- A static array. -/
def ArrayPtr.newStatic (τ : ElemType) (xs : List τ.Carrier) : Operation (ArrayPtr τ) := do
  let cells := .ofList (τ.encodeAll xs)
  let a ← placeStatic ⟨cells.length, τ.layout.align⟩ cells
  return .ofBase a (UInt64.ofNat xs.length)

/-- A static object. -/
def Ptr.newStatic (τ : ElemType) (x : τ.Carrier) : Operation (Ptr τ) := do
  return ⟨← placeStatic τ.layout (.ofList (τ.encode x))⟩

/-! ## 2. Fixed arrays -/

namespace FixedArray

/-- A fixed array in the current frame. -/
def newLocal (τ : ElemType) (xs : List τ.Carrier) : Operation (FixedArray τ) := do
  return ⟨← placeLocal (.ofList (τ.encodeAll xs)), UInt64.ofNat xs.length⟩

/-- A fixed array as an object of the heap. -/
def newHeap (τ : ElemType) (xs : List τ.Carrier) (request : Request := requestMemory) :
    Operation (FixedArray τ) := do
  let cells := .ofList (τ.encodeAll xs)
  let l : Layout := ⟨cells.length, τ.layout.align⟩
  let a ← request l
  record ⟨a, l.nonempty, a⟩ (.fixed τ xs.length) 1 false cells
  return ⟨a, UInt64.ofNat xs.length⟩

/-- The address of element `i`. -/
def locate (x : FixedArray τ) (i : UInt64) : Except Violation Address := do
  requireIndex i x.length
  return x.base + i * τ.size

def index (x : FixedArray τ) (i : UInt64) : Operation τ.Carrier := do
  loadValue τ (← check (x.locate i))

def set (x : FixedArray τ) (i : UInt64) (v : τ.Carrier) : Operation Unit := do
  assign τ (← check (x.locate i)) v

/-- All elements. -/
def toList (x : FixedArray τ) : Operation (List τ.Carrier) :=
  return (← loadValues τ x.base x.length.toNat).toList

/-- Assigns to the front, as far as both go, and gives the length. -/
def overwrite (x : FixedArray τ) (xs : List τ.Carrier) : Operation UInt64 := do
  assignAll τ x.base (.ofList (xs.take x.length.toNat))
  return x.length

/-- Whether the elements are off the stack. -/
def offStack (x : FixedArray τ) : Bool := Frames.extent.residency x.base == .heap

/-- The array as a stack-scoped pointer of the current frame. -/
def toStackArrayPtr (f : Frames) (x : FixedArray τ) : StackArrayPtr τ :=
  .ofParts f x.base x.length 0

/-- Element `i` as a stack-scoped pointer of the current frame. -/
def offset (f : Frames) (x : FixedArray τ) (i : UInt64) : Except Violation (StackArrayPtr τ) := do
  requireIndex i x.length
  return ArrayLike.offset (x.toStackArrayPtr f) i.toInt64

/-- The array as a plain pointer, if it is off the stack. -/
def toArrayPtr (x : FixedArray τ) : Except Violation (ArrayPtr τ) :=
  if x.offStack then .ok (.ofBase x.base x.length) else .error (.heapOnly x.base)

/-- Element `i` as a plain pointer, if the array is off the stack. -/
def offsetArrayPtr (x : FixedArray τ) (i : UInt64) : Except Violation (ArrayPtr τ) := do
  requireIndex i x.length
  let p ← x.toArrayPtr
  return ArrayLike.offset p i.toInt64

/-- Sets every element to zero. -/
def zero (x : FixedArray τ) : Operation Unit := Bulk.setZero τ x.length.toNat x.base

/-- Equality element by element. -/
def same (x y : FixedArray τ) : Operation Bool := do
  let xs ← x.toList
  let ys ← y.toList
  return xs.length == ys.length && (xs.zip ys).all fun (a, b) => τ.same a b

end FixedArray

/-! ## 3. Global arrays -/

namespace GlobalArray

/-- A global array. -/
def new (τ : ElemType) (xs : List τ.Carrier) : Operation (GlobalArray τ) := do
  let p ← ArrayPtr.newStatic τ xs
  return ⟨p.span.base, p.span.extent⟩

def index (x : GlobalArray τ) (i : UInt64) : Operation τ.Carrier := do
  check (requireIndex i x.length)
  loadValue τ (x.base + i * τ.size)

/-- The array as a pointer. -/
def toArrayPtr (x : GlobalArray τ) : ArrayPtr τ := .ofBase x.base x.length

/-- Element `i` as a pointer. -/
def offset (x : GlobalArray τ) (i : UInt64) : Except Violation (ArrayPtr τ) := do
  requireIndex i x.length
  return ArrayLike.offset x.toArrayPtr i.toInt64

/-- Sets every element to zero. -/
def zero (x : GlobalArray τ) : Operation Unit := Bulk.zero x.toArrayPtr x.length

end GlobalArray

end CheckedMemory
