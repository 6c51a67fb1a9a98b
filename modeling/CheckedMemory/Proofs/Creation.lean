import CheckedMemory.Proofs.Reallocation

/-!
# What the making of a block leaves

A request is refused, or a block is put where the system allocator gives next (`World.withBlock`).
What the block's payload reads as is what it was filled with, whatever that was.

An array is made in one of three ways: there is no layout for it, or no room, and then nothing
changes; or it gets a block, and from the block alone all that is left is known.  The three cases
are given as equations, for any alignment and from any state.
-/

namespace CheckedMemory

open Operation

variable {past : List Block} {w : World} {τ : ElemType} {count align : UInt64} {l : Layout}
  {b : Block} {cells : Runs Cell}

namespace World

/-- The state after a request for a layout was granted and a block of cells recorded there. -/
def withBlock (w : World) (l : Layout) (b : Block) (cells : Runs Cell) : World :=
  { w with
    nextFree := w.grantEnd l
    memory := w.memory.place b.payload (room cells)
    heap := w.heap.register b }

theorem mem_withBlock (w : World) (l : Layout) (b : Block) (cells : Runs Cell) :
    b ∈ (w.withBlock l b cells).heap.blocks :=
  HeapTable.mem_register_self _ _

/-- What a block is filled with is what its payload reads as. -/
theorem cells_withBlock (w : World) (l : Layout) (b : Block) (cells : Runs Cell) :
    (w.withBlock l b cells).memory.cells b.payload cells.length = cells.toList :=
  Memory.cells_place_room _ _ _

/-! ## 1. Arrays -/

/-- The block of an array in what the system allocator gives next for a layout. -/
def arrayBlock (w : World) (τ : ElemType) (count align : UInt64) (traced : Bool)
    (l : Layout) : Block :=
  ⟨UInt64.ofNat (w.grantBase l), l.nonempty,
    Reservation.payloadAt τ (UInt64.ofNat (w.grantBase l)) align, count.toNat * τ.layout.size, count,
    .elements τ, traced⟩

/-- The state after it was filled with default values and recorded. -/
def withArray (w : World) (τ : ElemType) (count align : UInt64) (traced : Bool)
    (l : Layout) : World :=
  w.withBlock l (w.arrayBlock τ count align traced l) (τ.replicate count τ.default)

/-- The new elements read as defaults. -/
theorem elements_withArray (w : World) (τ : ElemType) (count align : UInt64) (traced : Bool)
    (l : Layout) :
    (w.withArray τ count align traced l).elements τ
      (w.arrayBlock τ count align traced l).payload count.toNat =
        List.replicate count.toNat τ.default := by
  have hcells := w.cells_withBlock l (w.arrayBlock τ count align traced l)
    (τ.replicate count τ.default)
  have hdecode := τ.decodeAll_encodeAll (List.replicate count.toNat τ.default)
  rw [ElemType.length_replicate] at hcells
  rw [List.length_replicate] at hdecode
  unfold elements withArray
  rw [hcells, ElemType.replicate, ElemType.toList_encodeRuns, Runs.toList_replicate, hdecode]

end World

namespace ArrayPtr

theorem outcome_newAt (traced : Bool) (hl : Reservation.layout? τ count align = some l)
    (hfit : w.grantEnd l ≤ World.heapEnd) :
    outcome (newAt τ count align traced) w =
      (.ok (ofBase (w.arrayBlock τ count align traced l).payload count),
        w.withArray τ count align traced l) := by
  have hlen := τ.length_replicate count τ.default
  unfold newAt
  rw [outcome_bind_ok _ (outcome_reserve hl hfit)]
  unfold World.withArray World.withBlock World.arrayBlock
  rw [← hlen]
  rfl

theorem outcome_newAt_of_none (traced : Bool) (hl : Reservation.layout? τ count align = none) :
    outcome (newAt τ count align traced) w = (.error (.violation (tooLarge τ count)), w) :=
  outcome_bind_error _ (outcome_reserve_of_none hl)

theorem outcome_newAt_of_full (traced : Bool) (hl : Reservation.layout? τ count align = some l)
    (hfull : ¬w.grantEnd l ≤ World.heapEnd) :
    outcome (newAt τ count align traced) w = (.error .exhausted, w) :=
  outcome_bind_error _ (outcome_reserve_of_full hl hfull)

end ArrayPtr

end CheckedMemory
