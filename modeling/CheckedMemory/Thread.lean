import CheckedMemory.Pointer.Array

/-!
# Threads

A thread runs a routine over one pointer argument, on a stack of its own.  Only heap and static
data can be handed over, as a plain pointer holds nothing else; a null argument is the routine's
own affair.  The two routines here read an array of words through such an argument.
-/

namespace CheckedMemory

namespace Thread

open Operation

/-- What a thread does with its argument. -/
inductive Routine where
  /-- The wrapping sum of the elements from the current one to the end. -/
  | sum
  /-- The element one past the last. -/
  | pastEnd
deriving DecidableEq, Repr

/-- The wrapping sum of words in runs: a run adds the sum of its piece so many times. -/
def total (xs : Runs UInt64) : UInt64 :=
  xs.runs.foldl (fun sum r => sum + UInt64.ofNat r.times * r.piece.foldl (· + ·) 0) 0

/-- Runs a routine to its end.  Its argument points to an array pointer, or is null. -/
def run (r : Routine) (argument : Option (ArrayPtr .uint64)) : Operation UInt64 :=
  match argument with
  | none => stop .nullDereference
  | some p =>
    match r with
    | .sum => return total (← ArrayLike.elements p)
    | .pastEnd => do ArrayLike.index (← ofChecked (ArrayLike.toEnd p)) 0

/-- Whether data of the routine's own frame is on the stack of its thread.  The extent is known
before the routine starts. -/
def ownsItsFrame (f : Frames) : Bool := Frames.extent.contains f.pointer

end Thread

end CheckedMemory
