import CheckedMemory.Pointer.Array

/-!
# Conversions between pointer kinds

Stack-scoped pointers are made in a frame and bound to it.  Converting one back to a kind that
must not hold stack data trusts its residency flag; the flag is exact because whatever writes it
classified the address, took it over from a pointer whose flag was exact, or was told by the
program.
-/

namespace CheckedMemory

open Operation

variable {τ : ElemType}

/-! ## 1. One object and arrays -/

/-- The current element as one object.  Null stays null. -/
def ArrayPtr.toPtr (p : ArrayPtr τ) : Except Violation (Ptr τ) :=
  if p.span.isNull then .ok .null else (p.span.locate τ.size 0).map Ptr.mk

/-- One object as an array of one element, null as an array of none. -/
def ArrayPtr.ofPtr (p : Ptr τ) : ArrayPtr τ := ⟨⟨p.address, 0, if p.isNull then 0 else 1⟩⟩

/-! ## 2. Making stack-scoped pointers -/

namespace StackPtr

/-- The null pointer of the current frame. -/
def null (f : Frames) : StackPtr τ := ⟨0, f.captureHeap⟩

/-- A pointer to whatever is at `a`. -/
def ofAddress (f : Frames) (a : Address) : StackPtr τ := ⟨a, f.captureFor a⟩

/-- A heap pointer as a stack-scoped one. -/
def ofPtr (f : Frames) (p : Ptr τ) : StackPtr τ := ⟨p.address, f.captureHeap⟩

/-- The same referent, bound to the current frame.  The flag is copied. -/
def clone (f : Frames) (p : StackPtr τ) : StackPtr τ :=
  ⟨p.address, if p.bound.offStack then f.captureHeap else f.capture⟩

end StackPtr

namespace StackArrayPtr

/-- The null pointer of the current frame. -/
def null (f : Frames) : StackArrayPtr τ := ⟨Span.null, f.captureHeap⟩

/-- A pointer to `extent` elements at `base`. -/
def ofParts (f : Frames) (base : Address) (extent : UInt64) (index : Int64) : StackArrayPtr τ :=
  ⟨⟨base, index, extent⟩, f.captureFor base⟩

/-- A heap pointer as a stack-scoped one. -/
def ofArrayPtr (f : Frames) (p : ArrayPtr τ) : StackArrayPtr τ := ⟨p.span, f.captureHeap⟩

/-- The same array and index, bound to the current frame.  The flag is copied. -/
def clone (f : Frames) (p : StackArrayPtr τ) : StackArrayPtr τ :=
  ⟨p.span, if p.bound.offStack then f.captureHeap else f.capture⟩

/-- The current element as one object, with the same bound.  Null stays null. -/
def toStackPtr (p : StackArrayPtr τ) : Except Violation (StackPtr τ) :=
  if p.span.isNull then .ok ⟨0, p.bound⟩
  else (p.span.locate τ.size 0).map fun a => ⟨a, p.bound⟩

/-- Vouches for the data as global. -/
def setAsGlobal (p : StackArrayPtr τ) : StackArrayPtr τ := { p with bound := p.bound.setHeap }

end StackArrayPtr

/-! ## 3. Back off the stack -/

/-- The object pointer, if its data is off the stack. -/
def Ptr.ofStack (p : StackPtr τ) : Except Violation (Ptr τ) :=
  if p.isNull || p.bound.offStack then .ok ⟨p.address⟩ else .error (.heapOnly p.address)

/-- The array pointer, if its data is off the stack. -/
def ArrayPtr.ofStack (p : StackArrayPtr τ) : Except Violation (ArrayPtr τ) :=
  if p.span.isNull || p.bound.offStack then .ok ⟨p.span⟩ else .error (.heapOnly p.span.base)

/-! ## 4. Taking over referents -/

namespace StackPtr

/-- Whether data at `a` may be taken over. -/
def canAccept (p : StackPtr τ) (a : Address) : Bool :=
  Frames.extent.residency a == .heap || p.bound.admits a

/-- Takes over the referent of another pointer, with its flag. -/
def assign (p q : StackPtr τ) : Except Violation (StackPtr τ) :=
  (p.bound.accept q.address q.bound.residency).map fun b => ⟨q.address, b⟩

/-- Takes over whatever is at `a`. -/
def pointTo (p : StackPtr τ) (a : Address) : Except Violation (StackPtr τ) :=
  (p.bound.accept a (Frames.extent.residency a)).map fun b => ⟨a, b⟩

end StackPtr

namespace StackArrayPtr

/-- Whether data at `a` is off the stack. -/
def dataOffStack (a : Address) : Bool := Frames.extent.residency a == .heap

/-- Whether an array based at `a` may be taken over. -/
def canAccept (p : StackArrayPtr τ) (a : Address) : Bool := dataOffStack a || p.bound.admits a

/-- Takes over the array and index of another pointer, with its flag. -/
def assign (p q : StackArrayPtr τ) : Except Violation (StackArrayPtr τ) :=
  (p.bound.accept q.span.base q.bound.residency).map fun b => ⟨q.span, b⟩

end StackArrayPtr

end CheckedMemory
