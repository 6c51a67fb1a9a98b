import CheckedMemory.World

/-!
# Casts

A downcast asks the heap table what was allocated and gives null on a mismatch.  A
reinterpretation views the bytes of plain values as other plain values; any bytes are a value, so
alignment is all that is left to check, and for a single object that the new type is not larger.
-/

namespace CheckedMemory

/-! ## 1. Downcasts -/

/-- How many bytes a value takes, of the type that a block is recorded with. -/
def Stored.size : Stored → UInt64
  | elements τ => τ.size
  | fixed τ n => UInt64.ofNat (n * τ.layout.size)
  | tailed h t => UInt64.ofNat (Layout.Tailed.leastSize h.layout t.layout)

/-- Whether a value of a type was allocated at `a`, alone or as an element. -/
def HeapTable.holdsAt (t : HeapTable) (type : Stored) (a : Address) : Bool :=
  match t.containing? a with
  | some b => b.stored == type && (a - b.payload) % max type.size 1 == 0
  | none => false

/-- The address of an object, if the object was allocated as a value of a type. -/
def HeapTable.downcastObject (t : HeapTable) (type : Stored) (a : Address) : Address :=
  if t.holdsAt type a then a else 0

variable {τ : ElemType}

/-- The object as a value of type `σ`, if it was allocated as one. -/
def Ptr.downcast (t : HeapTable) (σ : ElemType) (p : Ptr τ) : Ptr σ :=
  ⟨t.downcastObject (.elements σ) p.address⟩

/-- The object of forgotten type as a value of type `σ`, if it was allocated as one. -/
def VoidPtr.downcast (t : HeapTable) (σ : ElemType) (p : VoidPtr) : Ptr σ :=
  ⟨t.downcastObject (.elements σ) p.address⟩

/-- An array whose elements have `size` bytes, with the full recorded extent and at the same
address, if what starts where it does was allocated as values of a type. -/
def HeapTable.downcast (t : HeapTable) (type : Stored) (s : Span) (size : UInt64) : Span :=
  match t.containing? s.base with
  | none => .null
  | some b =>
    if b.payload != s.base || b.stored != type then .null
    else
      let bytes := (s.address size).toInt64 - s.base.toInt64
      ⟨s.base, bytes / (max type.size 1).toInt64, b.count⟩

/-- The array as one of `σ`, if it was allocated as one. -/
def ArrayPtr.downcast (t : HeapTable) (σ : ElemType) (p : ArrayPtr τ) : ArrayPtr σ :=
  ⟨t.downcast (.elements σ) p.span τ.size⟩

/-! ## 2. Reinterpretation -/

/-- An address must suit a type. -/
def requireAligned (σ : ElemType) (a : Address) : Except Violation Unit :=
  if a % σ.align = 0 then .ok () else .error (.misaligned a σ.align)

/-- The leading bytes of the object as a value of type `σ`. -/
def Ptr.reinterpret (σ : ElemType) (p : Ptr τ) : Except Violation (Ptr σ) := do
  if p.isNull then return .null
  if τ.size < σ.size then throw (.spanOutOfBounds 0 σ.size τ.size)
  requireAligned σ p.address
  return ⟨p.address⟩

/-- The array's bytes as values of type `σ`.  The index is kept as it is. -/
def ArrayPtr.reinterpret (σ : ElemType) (p : ArrayPtr τ) : Except Violation (ArrayPtr σ) := do
  if p.span.isNull then return .null
  requireAligned σ p.span.base
  return ⟨p.span.rescale τ.size σ.size⟩

/-- The array's bytes as values of type `σ`, with the same bound. -/
def StackArrayPtr.reinterpret (σ : ElemType) (p : StackArrayPtr τ) :
    Except Violation (StackArrayPtr σ) := do
  unless p.span.isNull do
    requireAligned σ p.span.base
  return ⟨p.span.rescale τ.size σ.size, p.bound⟩

end CheckedMemory
