import CheckedMemory.Stack.Bound

/-!
# Frames

The stack of a run: the stack pointer of the current frame, those of the frames that wait for it,
and how many bytes of stack storage were handed out so far.  The stack grows downward, so a frame's
storage lies at or above its own stack pointer and below that of its caller.

How far down a call takes the stack pointer is for the caller to say (`Frames.enterAt`), and when it
returns its addresses may be used again.  A run gives each depth a window of addresses of its own
(`Frames.enter?`): the stack pointer of frame `d` is the low end of window `d`, just below that of
frame `d - 1`.  Storage is placed there above the stack pointer at an offset that only grows, so
that no address is handed out twice, not even in a later frame of the same depth.  A frame without a
window and storage that no longer fits its window are refused, so storage never leaves the window
of its frame.
-/

namespace CheckedMemory

/-- The open frames of a run, and the bytes handed out so far. -/
structure Frames where
  /-- The stack pointers of the frames that wait for the current one, its caller's first. -/
  callers : List Address
  /-- The stack pointer of the current frame. -/
  pointer : Address
  used : Nat
deriving DecidableEq, Repr

namespace Frames

/-! ## 1. The region -/

/-- One past the highest stack address. -/
def top : Nat := 2 ^ 47

/-- The bytes in the window of one frame. -/
def windowSize : Nat := 2 ^ 32

/-- The number of windows in the region. -/
def windowCount : Nat := 2 ^ 12

/-- The addresses of the stack. -/
def extent : StackExtent :=
  ⟨UInt64.ofNat (top - windowCount * windowSize), UInt64.ofNat top⟩

/-! ## 2. Frames -/

/-- The stack pointer of the frame with window `d`. -/
def pointerAt (d : Nat) : Address := UInt64.ofNat (top - (d + 1) * windowSize)

/-- The depth of the frame whose window holds a stack address. -/
def depthOf (a : Address) : Nat := (top - 1 - a.toNat) / windowSize

/-- A run starts in frame 0 with nothing handed out. -/
def initial : Frames := ⟨[], pointerAt 0, 0⟩

/-- How many frames wait for the current one. -/
def depth (f : Frames) : Nat := f.callers.length

/-- The stack pointers of the open frames, the current one's first. -/
def pointers (f : Frames) : List Address := f.pointer :: f.callers

/-- Opens a frame with its stack pointer. -/
def enterAt (f : Frames) (pointer : Address) : Frames :=
  { f with callers := f.pointer :: f.callers, pointer }

/-- Opens a frame in the next window, if there is one left. -/
def enter? (f : Frames) : Option Frames :=
  if f.depth + 1 < windowCount then some (f.enterAt (pointerAt (f.depth + 1))) else none

/-- Closes the current frame, unless it is the first.  What it handed out stays handed out. -/
def leave (f : Frames) : Frames :=
  match f.callers with
  | [] => f
  | caller :: callers => { f with callers, pointer := caller }

/-- The place of `size` bytes in the current frame, if they fit its window: a multiple of 16, with
room after it so that no other storage starts where this one ends. -/
def reserve? (f : Frames) (size : Nat) : Option (Address × Frames) :=
  let used := Word.roundUp (f.used + size + 1) 16
  if used ≤ windowSize then some (UInt64.ofNat (f.pointer.toNat + f.used), { f with used })
  else none

/-! ## 3. Capturing a bound -/

/-- The current frame, for data on the stack. -/
def capture (f : Frames) : TemporalBound := ⟨f.pointer, .stack⟩

/-- The current frame, for data known to be off the stack. -/
def captureHeap (f : Frames) : TemporalBound := ⟨f.pointer, .heap⟩

/-- The current frame, for data at `a`. -/
def captureFor (f : Frames) (a : Address) : TemporalBound := ⟨f.pointer, extent.residency a⟩

end Frames

end CheckedMemory
