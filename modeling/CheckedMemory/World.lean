import CheckedMemory.Heap.Table
import CheckedMemory.Memory.Area
import CheckedMemory.Stack.Frames
import CheckedMemory.Stream.Block

/-!
# The state of a run

Everything that an operation can change: memory, the heap table, the open frames, the drop log
and the streams.  Handles are not part of it; they are values that operations take and give.

An operation is an `Operation`: it gives a result or stops at a fault, and either way leaves a
state.  So what a failed operation leaves behind is a fact about its code and not a convention.
-/

namespace CheckedMemory

/-! ## 1. State -/

/-- The state of a run. -/
structure World where
  memory : Memory
  heap : HeapTable
  frames : Frames
  /-- The system allocator gives addresses from here on, and none twice. -/
  nextFree : Nat
  /-- What released resources left, oldest first. -/
  dropLog : Runs Int64
  directory : Directory
  /-- Open streams by number; closed ones leave a gap. -/
  streams : List (Option Stream)
deriving DecidableEq, Repr

namespace World

/-- The first address that the system allocator may give. -/
def heapStart : Nat := 2 ^ 46

/-- All memory that the system allocator gives lies below this address, and so below the stack. -/
def heapEnd : Nat := 2 ^ 46 + 2 ^ 45

/-- The state in which a run starts. -/
def initial : World :=
  ⟨.empty, .empty, .initial, heapStart, .empty, .empty, []⟩

end World

/-! ## 2. Operations -/

/-- An operation on the state that gives a result or stops at a fault. -/
abbrev Operation := ExceptT Fault (StateM World)

namespace Operation

variable {α : Type}

/-- Stops with a violation. -/
def stop (v : Violation) : Operation α := throw (.violation v)

/-- Goes on with the result of a check, or stops with its violation. -/
def check : Except Violation α → Operation α
  | .ok x => pure x
  | .error v => stop v

/-- Goes on with a result, or stops at its fault. -/
def ofChecked : Checked α → Operation α
  | .ok x => pure x
  | .error f => throw f

/-- Goes on if the condition holds, or stops with the violation. -/
def require (ok : Bool) (v : Violation) : Operation Unit :=
  if ok then pure () else stop v

/-! ## 3. Memory -/

/-- Reads `n` cells. -/
def load (a : Address) (n : Nat) : Operation (Runs Cell) := do
  match (← get).memory.read? a n with
  | some cs => pure cs
  | none => throw (.wild a n)

/-- Writes cells. -/
def store (a : Address) (cs : Runs Cell) : Operation Unit := do
  match (← get).memory.write? a cs with
  | some m => modify ({ · with memory := m })
  | none => throw (.wild a cs.length)

/-- Reads the value at an address. -/
def loadValue (τ : ElemType) (a : Address) : Operation τ.Carrier :=
  return τ.decode (← load a τ.layout.size).toList

/-- Reads `n` consecutive values. -/
def loadValues (τ : ElemType) (a : Address) (n : Nat) : Operation (Runs τ.Carrier) :=
  return τ.decodeRuns n (← load a (n * τ.layout.size))

/-- Reads `n` bytes. -/
def loadBytes (a : Address) (n : Nat) : Operation (Runs UInt8) :=
  return (← load a n).map Cell.toByte

/-- Writes bytes. -/
def storeBytes (a : Address) (bs : Runs UInt8) : Operation Unit := store a (bs.map .byte)

/-! ## 4. Releasing values -/

/-- Writes to the drop log. -/
def logDrops (marks : Runs Int64) : Operation Unit :=
  modify fun w => { w with dropLog := w.dropLog ++ marks }

/-- Releases a value that is in nobody's memory. -/
def drop (τ : ElemType) (x : τ.Carrier) : Operation Unit := logDrops (.ofList (τ.dropMarks x))

/-- Assigns a value to the element at an address: the value that was there is released. -/
def assign (τ : ElemType) (a : Address) (x : τ.Carrier) : Operation Unit := do
  let old ← loadValue τ a
  store a (.ofList (τ.encode x))
  drop τ old

/-- Puts the cells of `n` values over the elements from an address on.  The values that were there
are released, the lowest first or the highest first. -/
def replaceElements (τ : ElemType) (a : Address) (n : Nat) (cs : Runs Cell) (upward : Bool) :
    Operation Unit := do
  let marks := τ.dropMarksAll n (← load a (n * τ.layout.size))
  store a cs
  logDrops (if upward then marks else marks.reverse)

/-- Assigns values to consecutive elements, the lowest first. -/
def assignAll (τ : ElemType) (a : Address) (xs : Runs τ.Carrier) : Operation Unit :=
  replaceElements τ a xs.length (τ.encodeRuns xs) true

/-! ## 5. Frames -/

/-- The current frames. -/
def frames : Operation Frames := return (← get).frames

/-- Opens a frame. -/
def enterFrame : Operation Unit := do
  match (← get).frames.enter? with
  | some frames => modify ({ · with frames })
  | none => throw .exhausted

/-- Closes the current frame. -/
def leaveFrame : Operation Unit := modify fun w => { w with frames := w.frames.leave }

end Operation

end CheckedMemory
