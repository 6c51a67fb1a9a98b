import CheckedMemory.Element.Kind
import CheckedMemory.Span
import CheckedMemory.Stack.Bound

/-!
# Pointer kinds

A pointer kind says two things of a pointer: whether it refers to one object or to an array, and
whether it may refer to the stack.  `Ptr`, `ArrayPtr` and `Matrix` never do; the stack-scoped
kinds carry a temporal bound.  All are plain values: copying one copies no memory, and moving,
assigning or freeing through one changes that one alone.
-/

namespace CheckedMemory

/-! ## 1. Off the stack -/

/-- A pointer to one object off the stack. -/
structure Ptr (τ : ElemType) where
  address : Address
deriving DecidableEq, Repr

/-- A pointer into an array off the stack. -/
structure ArrayPtr (τ : ElemType) where
  span : Span
deriving DecidableEq, Repr

/-- A row-major array of two dimensions off the stack. -/
structure Matrix (τ : ElemType) where
  base : Address
  xExtent : UInt64
  yExtent : UInt64
deriving DecidableEq, Repr

/-- A pointer to a record with a variable tail. -/
structure TailedPtr (head tail : ElemType) where
  address : Address
deriving DecidableEq, Repr

/-- A pointer to one object of forgotten type. -/
structure VoidPtr where
  address : Address
deriving DecidableEq, Repr

/-! ## 2. Stack-scoped -/

/-- A pointer to one object, on the stack or not. -/
structure StackPtr (τ : ElemType) where
  address : Address
  bound : TemporalBound
deriving DecidableEq, Repr

/-- A pointer into an array, on the stack or not. -/
structure StackArrayPtr (τ : ElemType) where
  span : Span
  bound : TemporalBound
deriving DecidableEq, Repr

/-! ## 3. Null -/

variable {τ h t : ElemType}

def Ptr.null : Ptr τ := ⟨0⟩

def Ptr.isNull (p : Ptr τ) : Bool := p.address == 0

def ArrayPtr.null : ArrayPtr τ := ⟨Span.null⟩

def Matrix.null : Matrix τ := ⟨0, 0, 0⟩

def Matrix.isNull (m : Matrix τ) : Bool := m.base == 0

def TailedPtr.null : TailedPtr h t := ⟨0⟩

def TailedPtr.isNull (p : TailedPtr h t) : Bool := p.address == 0

def VoidPtr.null : VoidPtr := ⟨0⟩

def StackPtr.isNull (p : StackPtr τ) : Bool := p.address == 0

instance : Inhabited (Ptr τ) := ⟨.null⟩

instance : Inhabited (ArrayPtr τ) := ⟨.null⟩

instance : Inhabited (Matrix τ) := ⟨.null⟩

/-! ## 4. What both array pointers share -/

/-- A pointer kind built around a span.  Everything that only moves or reads through the span is
written once, for any such kind. -/
class ArrayLike (P : ElemType → Type) where
  span : {τ : ElemType} → P τ → Span
  withSpan : {τ : ElemType} → P τ → Span → P τ
  span_withSpan : ∀ {τ : ElemType} (p : P τ) (s : Span), span (withSpan p s) = s

attribute [simp] ArrayLike.span_withSpan

instance : ArrayLike ArrayPtr where
  span p := p.span
  withSpan _ s := ⟨s⟩
  span_withSpan _ _ := rfl

instance : ArrayLike StackArrayPtr where
  span p := p.span
  withSpan p s := { p with span := s }
  span_withSpan _ _ := rfl

end CheckedMemory
