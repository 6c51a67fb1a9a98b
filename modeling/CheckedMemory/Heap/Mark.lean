import CheckedMemory.World

/-!
# Marking the heap

Which blocks are reachable from a group of roots.  An address inside a live block marks that
block; a marked block whose values report references has those addresses followed in turn.  Null,
stale and non-heap addresses mark nothing.

Marking only reads.  It keeps the marked payloads and those of them not followed yet; a block
enters both lists at once and at most once, so following as many blocks as the table holds is
enough for any graph, cycles included.
-/

namespace CheckedMemory

/-! ## 1. Marking -/

/-- The payloads marked so far, and those of them still to be followed, latest first. -/
structure Marker where
  marked : List Address
  pending : List Address
deriving DecidableEq, Repr

/-- The payloads of the blocks that a finished mark phase reached. -/
structure MarkSet where
  marked : List Address
deriving DecidableEq, Repr

namespace World

/-- The addresses that the values of a traced block report. -/
def blockReferences (w : World) (payload : Address) : List Address :=
  match w.heap.blockAt? payload with
  | some b =>
    if b.traced then
      b.stored.references b.count.toNat ((w.memory.read? b.payload b.bytes).getD .empty)
    else []
  | none => []

end World

namespace Marker

def empty : Marker := ⟨[], []⟩

/-- Marks the block that contains an address. -/
def mark (t : HeapTable) (m : Marker) (a : Address) : Marker :=
  if a = 0 then m
  else match t.containing? a with
    | none => m
    | some b =>
      if m.marked.contains b.payload then m
      else ⟨b.payload :: m.marked, b.payload :: m.pending⟩

/-- Marks what a list of addresses refers to, in order. -/
def markAll (t : HeapTable) (m : Marker) (as : List Address) : Marker :=
  as.foldl (mark t) m

/-- Follows up to `n` pending blocks. -/
def drain (w : World) : Nat → Marker → Marker
  | 0, m => m
  | n + 1, m =>
    match m.pending with
    | [] => m
    | p :: rest => drain w n (markAll w.heap { m with pending := rest } (w.blockReferences p))

/-- Follows pending blocks until none is left. -/
def finish (w : World) (m : Marker) : MarkSet :=
  ⟨(drain w w.heap.blocks.length m).marked⟩

end Marker

namespace World

/-- A complete mark phase from the addresses that the roots report. -/
def markFrom (w : World) (roots : List Address) : MarkSet :=
  Marker.finish w (Marker.markAll w.heap Marker.empty roots)

end World

/-! ## 2. What was reached -/

namespace MarkSet

def size (s : MarkSet) : Nat := s.marked.length

def isEmpty (s : MarkSet) : Bool := s.marked.isEmpty

/-- Whether the block that contains an address now was reached. -/
def isMarked (s : MarkSet) (t : HeapTable) (a : Address) : Bool :=
  match t.containing? a with
  | some b => s.marked.contains b.payload
  | none => false

/-- The payloads of live blocks that were not reached, in ascending order. -/
def unreachable (s : MarkSet) (t : HeapTable) : List Address :=
  (t.blocks.map Block.payload).filter (!s.marked.contains ·)

/-- Both sets hold the same payloads. -/
def sameAs (s r : MarkSet) : Bool :=
  s.marked.all r.marked.contains && r.marked.all s.marked.contains

end MarkSet

end CheckedMemory
