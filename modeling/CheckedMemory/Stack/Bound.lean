import CheckedMemory.Violation

/-!
# Stack extents and temporal bounds

The stack grows downward: a callee's frame lies at lower addresses than its caller's.  A pointer
that may refer to stack data remembers the frame that made it.  Stack data at or above that
address belongs to the frame or to a caller and outlives the pointer; data below belongs to a
callee and is refused.

The bound carries a residency flag beside the frame.  `accept` writes the flag and never the
frame, so a bound once captured stays with the pointer for its life.
-/

namespace CheckedMemory

/-! ## 1. Residency -/

/-- The addresses `[low, high)` of a stack. -/
structure StackExtent where
  low : Address
  high : Address
deriving DecidableEq, Repr

/-- Where the data behind a pointer lives: on the stack, or anywhere else. -/
inductive Residency where
  | stack
  | heap
deriving DecidableEq, Repr

namespace StackExtent

def contains (e : StackExtent) (a : Address) : Bool := e.low ≤ a && a < e.high

/-- How many addresses there are. -/
def size (e : StackExtent) : UInt64 := e.high - e.low

/-- A thread that asks the system for its extent has the answer, and keeps it. -/
def initThread (answer : StackExtent) : StackExtent × Option StackExtent := (answer, some answer)

/-- The extent of a thread: what it kept, or else what the system answers when it asks now. -/
def current (kept? : Option StackExtent) (answer : StackExtent) : StackExtent :=
  kept?.getD (initThread answer).1

/-- The residency of an address. -/
def residency (e : StackExtent) (a : Address) : Residency :=
  if e.contains a then .stack else .heap

end StackExtent

/-! ## 2. Bounds -/

/-- The frame that made a pointer, and where the pointer's data lives now. -/
structure TemporalBound where
  frame : Address
  residency : Residency
deriving DecidableEq, Repr

namespace TemporalBound

def offStack (b : TemporalBound) : Bool := b.residency == .heap

/-- Whether a stack address may be held: null, or not below the frame. -/
def admits (b : TemporalBound) (a : Address) : Bool := a == 0 || b.frame ≤ a

/-- Takes over data at `a` with residency `r`.  Data off the stack is always welcome. -/
def accept (b : TemporalBound) (a : Address) (r : Residency) : Except Violation TemporalBound :=
  if r = .heap ∨ b.admits a then .ok { b with residency := r }
  else .error (.stackEscape b.frame a)

/-- The bound of data that the program vouches for as global. -/
def setHeap (b : TemporalBound) : TemporalBound := { b with residency := .heap }

theorem frame_accept {b b' : TemporalBound} {a : Address} {r : Residency}
    (h : b.accept a r = .ok b') : b'.frame = b.frame := by
  unfold accept at h
  split at h
  · cases h; rfl
  · exact absurd h (by simp)

end TemporalBound

end CheckedMemory
