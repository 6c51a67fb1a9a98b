import CheckedMemory.World

/-!
# Making heap blocks

Each constructor reserves room, fills it with values and records the block; only then does a
handle to it exist.  A request that no layout can satisfy stops before anything is reserved, and
a value that was handed in is then released, as it is nobody's any more.

An array at a stricter alignment than its type's asks for room to spare and starts at the first
multiple of the alignment inside it.  That start is the block's payload, so it is what releasing
the array names.

How the system allocator answers is a parameter of every constructor.  Unless another one is named
it is `requestMemory`, which gives no address twice.
-/

namespace CheckedMemory

/-! ## 1. Reserving -/

/-- Room that the system allocator gave: its base, the layout it was asked for, and the payload
address inside it. -/
structure Reservation where
  base : Address
  layout : Layout
  payload : Address
deriving DecidableEq, Repr

namespace Reservation

/-- The first multiple of `align` at or after the base. -/
def carve (base : Address) (align : UInt64) : Address :=
  UInt64.ofNat (Word.roundUp base.toNat align.toNat)

/-- The bytes to spare that an alignment needs beyond the natural one. -/
def padding (natural align : UInt64) : Nat :=
  if natural < align then align.toNat - 1 else 0

/-- The layout to ask the system allocator for: room for `count` values at `align`. -/
def layout? (τ : ElemType) (count align : UInt64) : Option Layout :=
  τ.layout.array? count.toNat (padding τ.align align)

/-- Where the values start in memory obtained at `base`. -/
def payloadAt (τ : ElemType) (base : Address) (align : UInt64) : Address :=
  if padding τ.align align = 0 then base else carve base align

end Reservation

/-- A layout for an actual request: at least one byte. -/
def Layout.nonempty (l : Layout) : Layout := { l with size := max l.size 1 }

/-- What a request has found when the system allocator has no memory to give. -/
inductive AllocError where
  | noMemory
deriving DecidableEq, Repr

namespace AllocError

def message : AllocError → String
  | noMemory => "memory allocation failed"

/-- The name of the cause for a log. -/
def name : AllocError → String
  | noMemory => "AllocError"

end AllocError

namespace Operation

/-- How room for a layout is asked for; the result is its base. -/
abbrev Request := Layout → Operation Address

/-- Asks the system allocator for memory: a multiple of 16 and of the layout's alignment, away
from everything given before. -/
def requestMemory (l : Layout) : Operation Address := do
  let w ← get
  let base := Word.roundUp w.nextFree (max 16 l.align)
  let nextFree := base + l.nonempty.size + 16
  if nextFree ≤ World.heapEnd then
    set { w with nextFree }
    return UInt64.ofNat base
  else throw .exhausted

/-- The violation of a request for `count` values that no layout satisfies. -/
def tooLarge (τ : ElemType) (count : UInt64) : Violation :=
  .allocationFailure (Word.mulSat count τ.size) τ.align

/-- Reserves room for `count` values whose first is at a multiple of `align`. -/
def reserve (τ : ElemType) (count align : UInt64) (request : Request := requestMemory) :
    Operation Reservation := do
  match Reservation.layout? τ count align with
  | none => stop (tooLarge τ count)
  | some l =>
    let base ← request l
    return ⟨base, l.nonempty, Reservation.payloadAt τ base align⟩

/-- The cells of a block in memory.  A request is never for nothing, so a block without values still
has one byte of its own. -/
def room (cells : Runs Cell) : Runs Cell := if cells.length = 0 then .replicate 1 (.byte 0) else cells

/-- Fills reserved room with cells and records the block. -/
def record (r : Reservation) (stored : Stored) (count : UInt64) (traced : Bool)
    (cells : Runs Cell) : Operation Unit :=
  modify fun w =>
    { w with
      memory := w.memory.place r.payload (room cells)
      heap := w.heap.register
        ⟨r.base, r.layout, r.payload, cells.length, count, stored, traced⟩ }

end Operation

/-! ## 2. Arrays and objects -/

namespace ElemType

/-- The cells of `count` equal values. -/
def replicate (τ : ElemType) (count : UInt64) (x : τ.Carrier) : Runs Cell :=
  τ.encodeRuns (.replicate count.toNat x)

/-- The cells of `count` values whose bytes are all zero. -/
def zeroed (τ : ElemType) (count : UInt64) : Runs Cell :=
  .replicate (count.toNat * τ.layout.size) (.byte 0)

end ElemType

namespace ArrayPtr

open Operation

variable {τ : ElemType}

/-- The pointer to the first of `count` elements at an address. -/
def ofBase (base : Address) (count : UInt64) : ArrayPtr τ := ⟨⟨base, 0, count⟩⟩

/-- An array of `count` default values at a given alignment. -/
def newAt (τ : ElemType) (count align : UInt64) (traced : Bool)
    (request : Request := requestMemory) : Operation (ArrayPtr τ) := do
  let r ← reserve τ count align request
  record r (.elements τ) count traced (τ.replicate count τ.default)
  return ofBase r.payload count

/-- An array of `count` default values; its elements report their references if `traced`. -/
def new (τ : ElemType) (count : UInt64) (traced : Bool) (request : Request := requestMemory) :
    Operation (ArrayPtr τ) :=
  newAt τ count τ.align traced request

/-- An array of the given values. -/
def ofList (τ : ElemType) (xs : List τ.Carrier) (request : Request := requestMemory) :
    Operation (ArrayPtr τ) := do
  let count := UInt64.ofNat xs.length
  let r ← reserve τ count τ.align request
  record r (.elements τ) count false (.ofList (τ.encodeAll xs))
  return ofBase r.payload count

/-- An array of `count` clones of a value.  The value itself is released. -/
def filled (τ : ElemType) (count : UInt64) (x : τ.Carrier) (request : Request := requestMemory) :
    Operation (ArrayPtr τ) := do
  drop τ x
  let r ← reserve τ count τ.align request
  record r (.elements τ) count false (τ.replicate count x)
  return ofBase r.payload count

/-- An array of `count` values whose bytes are all zero. -/
def zeroed (τ : ElemType) (count : UInt64) (request : Request := requestMemory) :
    Operation (ArrayPtr τ) := do
  let r ← reserve τ count τ.align request
  record r (.elements τ) count false (τ.zeroed count)
  return ofBase r.payload count

/-- An array of `count` default values that starts at a multiple of `align`. -/
def aligned (τ : ElemType) (count align : UInt64) (request : Request := requestMemory) :
    Operation (ArrayPtr τ) := do
  require (Word.isPowerOfTwo align.toNat) (.invalidAlignment align)
  newAt τ count align false request

end ArrayPtr

namespace Ptr

open Operation

/-- Makes one object of cells already built. -/
def newCells (τ : ElemType) (traced : Bool) (cells : Runs Cell)
    (request : Request := requestMemory) : Operation (Ptr τ) := do
  let base ← request τ.layout
  record ⟨base, τ.layout.nonempty, base⟩ (.elements τ) 1 traced cells
  return ⟨base⟩

/-- An object with a value; it reports its references if `traced`. -/
def new (τ : ElemType) (x : τ.Carrier) (traced : Bool) (request : Request := requestMemory) :
    Operation (Ptr τ) :=
  newCells τ traced (.ofList (τ.encode x)) request

/-- An object whose bytes are all zero. -/
def zeroed (τ : ElemType) (request : Request := requestMemory) : Operation (Ptr τ) :=
  newCells τ false (τ.zeroed 1) request

end Ptr

/-! ## 3. Matrices and records -/

namespace Matrix

open Operation

/-- A matrix of default values. -/
def new (τ : ElemType) (x y : UInt64) (request : Request := requestMemory) :
    Operation (Matrix τ) := do
  if x = 0 ∨ y = 0 then throw (.emptyMatrix x y)
  match Word.mul? x y with
  | none => stop (tooLarge τ (-1))
  | some count =>
    let cells ← ArrayPtr.new τ count false request
    return ⟨cells.span.base, x, y⟩

end Matrix

namespace TailedPtr

open Operation

/-- The cells of a fresh record: head, length, default tail, zeros between and after. -/
def cells (h t : ElemType) (size : Nat) (x : h.Carrier) (count : UInt64) : Runs Cell :=
  let gap := fun (cs : Runs Cell) n => cs ++ .replicate (n - cs.length) (.byte 0)
  let toLength := gap (.ofList (h.encode x)) (Layout.Tailed.lengthOffset h.layout)
  let toTail := gap (toLength ++ .ofList (ElemType.encode .uint64 count))
    (Layout.Tailed.tailOffset h.layout t.layout)
  gap (toTail ++ t.replicate count t.default) size

/-- A record with a head and `count` default tail elements. -/
def new (h t : ElemType) (count : UInt64) (x : h.Carrier) (request : Request := requestMemory) :
    Operation (TailedPtr h t) := do
  if count = 0 then
    drop h x
    throw .emptyTail
  match Layout.Tailed.layout? h.layout t.layout count.toNat with
  | none =>
    drop h x
    stop (tooLarge t count)
  | some l =>
    let base ← request l
    record ⟨base, l.nonempty, base⟩ (.tailed h t) count false (cells h t l.size x count)
    return ⟨base⟩

end TailedPtr

end CheckedMemory
