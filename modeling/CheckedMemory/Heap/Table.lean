import CheckedMemory.Element.Sequence

/-!
# The heap table

Every block of the heap is recorded under the address of its payload with what it holds.  Only
the start of a live block can be released, so a second release, an interior pointer and stack
data are all refused by a look-up.

The blocks are kept in ascending order of payload.  The block that contains an address is the one
with the greatest payload not above it, if the address is inside that block: one comparison
decides, since live blocks do not overlap.
-/

namespace CheckedMemory

/-! ## 1. Blocks -/

/-- What a block holds, as recorded when it was made. -/
inductive Stored where
  /-- Values of one type, one after the other. -/
  | elements (τ : ElemType)
  /-- An array of fixed length as one object. -/
  | fixed (τ : ElemType) (length : Nat)
  /-- A record: a head, a length and tail elements. -/
  | tailed (head tail : ElemType)
deriving DecidableEq, Repr

/-- A live block. -/
structure Block where
  /-- What the system allocator gave, and for which request. -/
  base : Address
  reserved : Layout
  /-- Where the values start. -/
  payload : Address
  /-- The bytes of the values. -/
  bytes : Nat
  /-- The number of values; for a record, of tail elements. -/
  count : UInt64
  stored : Stored
  /-- Whether the values report their references when the heap is marked. -/
  traced : Bool
deriving DecidableEq, Repr

namespace Block

/-- The address is inside the payload, or is its start. -/
def contains (b : Block) (a : Address) : Bool :=
  b.payload ≤ a && (a.toNat < b.payload.toNat + b.bytes || a == b.payload)

end Block

/-! ## 2. The table -/

/-- The live blocks in ascending order of payload, and three running totals. -/
structure HeapTable where
  blocks : List Block
  liveBytes : Nat
  allocations : Nat
  frees : Nat
deriving DecidableEq, Repr

/-- The counters of a table. -/
structure HeapStats where
  liveBlocks : Nat
  liveBytes : Nat
  allocations : Nat
  frees : Nat
deriving DecidableEq, Repr

namespace HeapTable

def empty : HeapTable := ⟨[], 0, 0, 0⟩

def stats (t : HeapTable) : HeapStats := ⟨t.blocks.length, t.liveBytes, t.allocations, t.frees⟩

/-- The live block whose payload starts at `p`. -/
def blockAt? (t : HeapTable) (p : Address) : Option Block := t.blocks.find? (·.payload == p)

/-- Whether `p` is the start of a live block. -/
def isLive (t : HeapTable) (p : Address) : Bool := (t.blockAt? p).isSome

/-- The live block that contains an address: the last one that starts at or before it, if the
address is inside. -/
def containing? (t : HeapTable) (a : Address) : Option Block :=
  (t.blocks.filter (·.payload ≤ a)).getLast?.filter (·.contains a)

/-- The blocks with one more, in order.  A block at the same payload is replaced. -/
def insert (b : Block) : List Block → List Block
  | [] => [b]
  | c :: cs =>
    if b.payload < c.payload then b :: c :: cs
    else if b.payload = c.payload then b :: cs
    else c :: insert b cs

/-- Records a block. -/
def register (t : HeapTable) (b : Block) : HeapTable :=
  { t with
    blocks := insert b t.blocks
    liveBytes := t.liveBytes + b.bytes
    allocations := t.allocations + 1 }

/-- Removes the block whose payload starts at `p`, and gives it. -/
def take? (t : HeapTable) (p : Address) : Option (Block × HeapTable) :=
  (t.blockAt? p).map fun b =>
    (b, { t with
      blocks := t.blocks.filter (·.payload != p)
      liveBytes := t.liveBytes - b.bytes
      frees := t.frees + 1 })

end HeapTable

/-! ## 3. Releasing values -/

namespace Stored

/-- What the release of a block with `count` values in cells writes to the drop log: values in
order, a head before its tail. -/
def dropMarks (count : Nat) (cs : Runs Cell) : Stored → Runs Int64
  | elements τ => τ.dropMarksAll count cs
  | fixed τ n => τ.dropMarksAll n cs
  | tailed h t =>
    h.dropMarksAll 1 (cs.take h.layout.size) ++
      t.dropMarksAll count
        ((cs.drop (Layout.Tailed.tailOffset h.layout t.layout)).take (count * t.layout.size))

/-- The addresses that the values of a block report. -/
def references (count : Nat) (cs : Runs Cell) : Stored → List Address
  | elements τ => τ.referencesAll count cs
  | fixed τ n => τ.referencesAll n cs
  | tailed .. => []

end Stored

end CheckedMemory
