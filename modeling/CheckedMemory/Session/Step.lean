import CheckedMemory.Session.Datum
import CheckedMemory.Session.State

/-!
# Steps of a session

A step names handles, does something through them and keeps new handles under names.  It fails
where a name has no handle or one of the wrong kind, and where the operation itself stops at a
fault.  A failed step keeps no handle; what the operation left in the world stays.
-/

namespace CheckedMemory

/-- Why a step has no result. -/
inductive Failure where
  /-- The step makes no sense: a name without a handle, a wrong kind or type, a wrong value. -/
  | misuse
  /-- Bytes that a stream did not take. -/
  | transfer
  | fault (f : Fault)
deriving DecidableEq, Repr

/-- A step that gives a result or fails. -/
abbrev Step := ExceptT Failure (StateM Session)

namespace Step

variable {α : Type}

/-! ## 1. Failing -/

def misuse : Step α := throw .misuse

def orMisuse : Option α → Step α
  | some x => pure x
  | none => misuse

/-- Goes on only if the step makes sense. -/
def demand (ok : Bool) : Step Unit := if ok then pure () else misuse

/-- Runs an operation on the session's world. -/
def act (a : Operation α) : Step α := do
  let s ← get
  let (r, world) := a.run.run s.world
  set { s with world }
  match r with
  | .ok x => pure x
  | .error f => throw (.fault f)

/-- Goes on with the result of a check. -/
def check (r : Except Violation α) : Step α := act (Operation.check r)

/-- The frames as they are. -/
def frames : Step Frames := return (← get).world.frames

/-- The heap table as it is. -/
def heap : Step HeapTable := return (← get).world.heap

/-- Opens a frame. -/
def enter : Step Unit := act Operation.enterFrame

/-- Closes the current frame and forgets the handles to its storage. -/
def leave : Step Unit := modify Session.leave

/-! ## 2. Names -/

/-- The handle under a name. -/
def handle (name : String) : Step Handle := do orMisuse ((← get).handle? name)

/-- Keeps a handle under a name. -/
def keep (name : String) (h : Handle) : Step Unit := modify (·.keep name h)

/-- The array under a name, with its element type. -/
def array (name : String) : Step ((τ : ElemType) × AnyArrayPtr τ) := do
  match ← handle name with
  | .array τ p => return ⟨τ, p⟩
  | _ => misuse

/-- The array of a given element type under a name. -/
def arrayOf (τ : ElemType) (name : String) : Step (AnyArrayPtr τ) := do
  orMisuse ((← handle name).arrayOf? τ)

/-- The plain array under a name. -/
def plainArray (name : String) : Step ((τ : ElemType) × ArrayPtr τ) := do
  match ← handle name with
  | .array τ (.plain p) => return ⟨τ, p⟩
  | _ => misuse

/-- The byte string under a name: an array of bytes. -/
def string (name : String) : Step (AnyArrayPtr .uint8) := arrayOf .uint8 name

/-- The object pointer under a name. -/
def object (name : String) : Step ((τ : ElemType) × Ptr τ) := do
  match ← handle name with
  | .object τ p => return ⟨τ, p⟩
  | _ => misuse

/-- The matrix under a name. -/
def matrix (name : String) : Step ((τ : ElemType) × Matrix τ) := do
  match ← handle name with
  | .matrix τ m => return ⟨τ, m⟩
  | _ => misuse

/-- The fixed array under a name. -/
def fixed (name : String) : Step ((τ : ElemType) × FixedArray τ) := do
  match ← handle name with
  | .fixed τ x => return ⟨τ, x⟩
  | _ => misuse

/-- The global array under a name. -/
def global (name : String) : Step ((τ : ElemType) × GlobalArray τ) := do
  match ← handle name with
  | .global τ x => return ⟨τ, x⟩
  | _ => misuse

/-- The mark set under a name. -/
def marks (name : String) : Step MarkSet := do
  match ← handle name with
  | .marks m => return m
  | _ => misuse

/-- The address `by` bytes after the start of the storage behind a name. -/
def storage (name : String) (d : Int64) : Step Address := do
  return (← orMisuse (← handle name).storage?) + d.toUInt64

/-! ## 3. Elements -/

/-- The element type and address of a handle's element: of an array the element `i` from the
current one, checked; of an object pointer the object. -/
def elementOf (h : Handle) (i : Int64) : Step (ElemType × Address) :=
  match h with
  | .array τ p => return (τ, ← check (ArrayLike.locate p i))
  | .object τ p => return (τ, p.address)
  | .boundedObject τ p => return (τ, p.address)
  | _ => misuse

/-- The same for a handle that must have elements of a given type. -/
def elementAt (τ : ElemType) (h : Handle) (i : Int64) : Step Address := do
  demand (h.elemType? == some τ)
  return (← elementOf h i).2

end Step

end CheckedMemory
