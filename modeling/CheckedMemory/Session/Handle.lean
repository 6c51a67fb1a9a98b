import CheckedMemory.Array.Fixed
import CheckedMemory.Array.Matrix
import CheckedMemory.Array.Tailed
import CheckedMemory.CString.Tokenizer
import CheckedMemory.Heap.Mark
import CheckedMemory.Stream.Handle

/-!
# Handles of any kind

What a program keeps in its variables.  The two array pointer kinds are joined first, since most
operations on arrays do not tell them apart; the joined kind moves and checks like either of its
parts, and a move never changes which one it is.
-/

namespace CheckedMemory

/-! ## 1. Arrays of either kind -/

/-- An array pointer, plain or stack-scoped. -/
inductive AnyArrayPtr (τ : ElemType) where
  | plain (p : ArrayPtr τ)
  | bounded (p : StackArrayPtr τ)
deriving DecidableEq, Repr

namespace AnyArrayPtr

variable {τ : ElemType}

def span : AnyArrayPtr τ → Span
  | plain p => p.span
  | bounded p => p.span

/-- The same kind of pointer, with the same bound if it has one, at another span. -/
def withSpan (s : Span) : AnyArrayPtr τ → AnyArrayPtr τ
  | plain _ => plain ⟨s⟩
  | bounded p => bounded { p with span := s }

/-- The temporal bound of a stack-scoped pointer. -/
def bound? : AnyArrayPtr τ → Option TemporalBound
  | plain _ => none
  | bounded p => some p.bound

@[simp] theorem bound?_withSpan (p : AnyArrayPtr τ) (s : Span) :
    (p.withSpan s).bound? = p.bound? := by
  cases p <;> rfl

instance : ArrayLike AnyArrayPtr where
  span := span
  withSpan p s := p.withSpan s
  span_withSpan p _ := by cases p <;> rfl

end AnyArrayPtr

/-! ## 2. Handles -/

/-- A handle of any kind. -/
inductive Handle where
  | object (τ : ElemType) (p : Ptr τ)
  | boundedObject (τ : ElemType) (p : StackPtr τ)
  | array (τ : ElemType) (p : AnyArrayPtr τ)
  | matrix (τ : ElemType) (m : Matrix τ)
  | tailed (head tail : ElemType) (p : TailedPtr head tail)
  | void (p : VoidPtr)
  | fixed (τ : ElemType) (x : FixedArray τ)
  | global (τ : ElemType) (x : GlobalArray τ)
  | stream (f : StreamPtr)
  | tokenizer (t : Tokenizer AnyArrayPtr)
  | marks (s : MarkSet)

namespace Handle

/-- Where the data behind a handle starts.  An array's is its base, wherever its index is. -/
def storage? : Handle → Option Address
  | object _ p => some p.address
  | boundedObject _ p => some p.address
  | array _ p => some p.span.base
  | matrix _ m => some m.base
  | tailed _ _ p => some p.address
  | void p => some p.address
  | fixed _ x => some x.base
  | global _ x => some x.base
  | tokenizer t => some t.text.span.base
  | stream _ | marks _ => none

/-- The element type of an array or of an object pointer. -/
def elemType? : Handle → Option ElemType
  | object τ _ | boundedObject τ _ | array τ _ => some τ
  | _ => none

/-- The handle as an array of elements of a given type. -/
def arrayOf? (τ : ElemType) : Handle → Option (AnyArrayPtr τ)
  | array σ p => if h : σ = τ then some (h ▸ p) else none
  | _ => none

/-- The handle as a plain array pointer to elements of a given type. -/
def plainArrayOf? (τ : ElemType) (h : Handle) : Option (ArrayPtr τ) :=
  match h.arrayOf? τ with
  | some (.plain p) => some p
  | _ => none

/-- The handle as a plain pointer to one object of a given type. -/
def objectOf? (τ : ElemType) : Handle → Option (Ptr τ)
  | object σ p => if h : σ = τ then some (h ▸ p) else none
  | _ => none

/-- The handle as a matrix of elements of a given type. -/
def matrixOf? (τ : ElemType) : Handle → Option (Matrix τ)
  | matrix σ m => if h : σ = τ then some (h ▸ m) else none
  | _ => none

end Handle

end CheckedMemory
