import CheckedMemory.Proofs.Release

/-!
# What becomes of the values of a block

A block is released, and then its values are, in order, and its payload is poisoned
(`World.Released`).  Or it is resized: the values before the new count are in a new block, and those
from there on are released (`World.Moved`).

Each is said as what a state looks like after it, next to the one before, and of all that a state
holds: what is not named has not changed.  Both follow where live blocks are settled.  Where memory
is never given again, more can be said of a resize: its new block lies on nothing that there was
(`World.Resized`).
-/

namespace CheckedMemory

open Operation

variable {past : List Block} {w w' : World} {b c : Block} {τ : ElemType}

/-! ## 1. Releasing a block -/

/-- Two blocks of the past have no byte in common. -/
theorem World.Sound.disjoint_of_ne (h : w.Sound past) (hb : b ∈ past) (hc : c ∈ past)
    (hne : c ≠ b) :
    c.payload.toNat + c.bytes ≤ b.payload.toNat ∨ b.payload.toNat + b.bytes ≤ c.payload.toNat := by
  refine Classical.byContradiction fun hmeet => hne ?_
  exact h.block_eq hc hb (World.Sound.covers_payload c) (World.Sound.covers_payload b) (by omega)

/-- `w'` is what the release of a block leaves of `w`. -/
structure World.Released (past : List Block) (b : Block) (w w' : World) : Prop where
  /-- The values that it held are released in order, as many as the table says. -/
  dropped : w'.dropLog.toList = w.dropLog.toList ++ (w.values b).flatMap AnyValue.dropMarks
  poisoned : w'.memory.cells b.payload b.bytes = List.replicate b.bytes (.byte poisonByte)
  taken : w.heap.take? b.payload = some (b, w'.heap)
  remaining : ∀ c, c ∈ w'.heap.blocks ↔ c ∈ w.heap.blocks ∧ c ≠ b
  /-- Memory beside the payload reads as it did, whatever it is. -/
  beside : ∀ (a : Address) n, a.toNat + n ≤ b.payload.toNat ∨
    b.payload.toNat + b.bytes ≤ a.toNat → w'.memory.cells a n = w.memory.cells a n
  others : ∀ c ∈ past, c ≠ b →
    w'.memory.cells c.payload c.bytes = w.memory.cells c.payload c.bytes
  /-- Nothing else is changed. -/
  rest : { w' with memory := w.memory, heap := w.heap, dropLog := w.dropLog } = w

namespace World.Settled

variable (h : w.Settled)

include h

/-- What the table says that a block holds is what its cells are released as. -/
theorem toList_dropMarks (hb : b ∈ w.heap.blocks) {cells : Runs Cell}
    (hread : w.memory.read? b.payload b.bytes = some cells) :
    (b.stored.dropMarks b.count.toNat cells).toList =
      (w.values b).flatMap AnyValue.dropMarks := by
  rw [Block.toList_dropMarks (h.shaped b hb) (Memory.length_of_read? hread), World.values,
    Memory.cells_eq hread]

/-- **The release of a live block releases what it holds, and changes nothing beside it**, whichever
blocks one looks at that have no byte in common with it. -/
theorem released (hb : b ∈ w.heap.blocks)
    (hpast : ∀ c ∈ past, c ≠ b → Clear c.payload c.bytes b.payload b.bytes) :
    ∃ w', outcome (release b.payload) w = (.ok (), w') ∧ w.Released past b w' := by
  obtain ⟨t, cells, m, ht, hread, hwrite, ho⟩ := h.release_eq hb
  obtain ⟨hpoison, hbeside⟩ := Memory.cells_poison hwrite
  refine ⟨_, ho, ?_, hpoison, ht, fun c => h.balanced.mem_take ht, hbeside, ?_, rfl⟩
  · rw [Runs.toList_append, h.toList_dropMarks hb hread]
  · intro c hc hne
    exact hbeside _ _ (hpast c hc hne)

end World.Settled

/-! ## 2. Resizing a block -/

/-- `w'` is what the resize of block `b` of values of one type to `count` of them leaves of `w`;
block `c` is the new one. -/
structure World.Moved (past : List Block) (τ : ElemType) (b : Block) (count : UInt64) (c : Block)
    (w w' : World) : Prop where
  /-- The values from the new count on are released in order. -/
  dropped : w'.dropLog.toList =
    w.dropLog.toList ++ ((w.values b).drop count.toNat).flatMap AnyValue.dropMarks
  /-- Those before it are in the new block, and defaults after them. -/
  moved : w'.values c = (w.values b).take count.toNat ++
    List.replicate (count.toNat - b.count.toNat) ⟨τ, τ.default⟩
  recorded : c.stored = .elements τ ∧ c.count = count
  fresh : ∀ d ∈ past, d.payload ≠ c.payload
  poisoned : w'.memory.cells b.payload b.bytes = List.replicate b.bytes (.byte poisonByte)
  remaining : ∀ d, d ∈ w'.heap.blocks ↔ d = c ∨ d ∈ w.heap.blocks ∧ d ≠ b
  /-- Memory beside the old payload and the new one reads as it did, whatever it is. -/
  elsewhere : ∀ (a : Address) n, Clear a n b.payload b.bytes →
    Clear a n c.payload (max c.bytes 1) → w'.memory.cells a n = w.memory.cells a n
  others : ∀ d ∈ past, d ≠ b →
    w'.memory.cells d.payload d.bytes = w.memory.cells d.payload d.bytes
  /-- Nothing else is changed but where the system allocator goes on. -/
  rest : { w' with
    memory := w.memory
    heap := w.heap
    dropLog := w.dropLog
    nextFree := w.nextFree } = w

/-- The same where memory is given once: all storage beside the old payload reads as it did, a
block's or not. -/
structure World.Resized (past : List Block) (τ : ElemType) (b : Block) (count : UInt64) (c : Block)
    (w w' : World) : Prop extends w.Moved past τ b count c w' where
  beside : ∀ r ∈ w.memory.plots, ∀ (a : Address) n, r.Covers a.toNat n →
    a.toNat + n ≤ b.payload.toNat ∨ b.payload.toNat + b.bytes ≤ a.toNat →
      w'.memory.cells a n = w.memory.cells a n

namespace ArrayPtr

/-- How many values are kept, and how many defaults follow them. -/
theorem toNat_kept (n count : UInt64) :
    (min n count).toNat = min n.toNat count.toNat ∧
      (n - min n count).toNat = n.toNat - (min n count).toNat ∧
      (count - min n count).toNat = count.toNat - n.toNat := by
  have hmin := Word.toNat_min n count
  refine ⟨hmin, UInt64.toNat_sub_of_le _ _ (UInt64.le_iff_toNat_le.mpr (by omega)), ?_⟩
  rw [UInt64.toNat_sub_of_le _ _ (UInt64.le_iff_toNat_le.mpr (by omega))]
  omega

/-- The cells that move and the default cells after them hold the values in front and defaults. -/
theorem values_resized {old : Runs Cell} {n count : UInt64}
    (hold : old.length = n.toNat * τ.layout.size) :
    τ.valuesIn count.toNat (resizedCells τ n count old).toList =
      (τ.valuesIn n.toNat old.toList).take count.toNat ++
        List.replicate (count.toNat - n.toNat) ⟨τ, τ.default⟩ := by
  obtain ⟨hmin, -, hrest⟩ := toNat_kept n count
  have hkept : (min n count).toNat ≤ n.toNat := by omega
  have hle : (min n count).toNat * τ.layout.size ≤ n.toNat * τ.layout.size :=
    Nat.mul_le_mul_right _ hkept
  have hlist : old.toList.length = n.toNat * τ.layout.size := by rw [Runs.length_toList, hold]
  have hfront : (old.toList.take ((min n count).toNat * τ.layout.size)).length =
      (min n count).toNat * τ.layout.size := by
    rw [List.length_take]
    omega
  have hcount : count.toNat = (min n count).toNat + (count.toNat - n.toNat) := by omega
  have hdefaults : (τ.replicate (count - min n count) τ.default).toList =
      τ.encodeAll (List.replicate (count.toNat - n.toNat) τ.default) := by
    rw [ElemType.replicate, ElemType.toList_encodeRuns, Runs.toList_replicate, hrest]
  have hlast := τ.valuesIn_encodeAll (List.replicate (count.toNat - n.toNat) τ.default)
  rw [List.length_replicate, List.map_replicate] at hlast
  have htake : (τ.valuesIn n.toNat old.toList).take (min n count).toNat =
      (τ.valuesIn n.toNat old.toList).take count.toNat := by
    rw [hmin, List.take_eq_take_iff, ElemType.length_valuesIn]
    omega
  have hall := τ.valuesIn_append hfront (count.toNat - n.toNat)
    (τ.encodeAll (List.replicate (count.toNat - n.toNat) τ.default))
  rw [← hcount] at hall
  rw [resizedCells, Runs.toList_append, Runs.toList_take, hdefaults, hall,
    (τ.valuesIn_split hlist hkept).1, htake, hlast]

/-- The cells that are released hold the values behind. -/
theorem dropped_resized {old : Runs Cell} {n count : UInt64}
    (hold : old.length = n.toNat * τ.layout.size) :
    (τ.dropMarksAll (n - min n count).toNat
      (old.drop ((min n count).toNat * τ.layout.size))).toList =
        ((τ.valuesIn n.toNat old.toList).drop count.toNat).flatMap AnyValue.dropMarks := by
  obtain ⟨hmin, hbehind, -⟩ := toNat_kept n count
  have hlist : old.toList.length = n.toNat * τ.layout.size := by rw [Runs.length_toList, hold]
  have hdrop : (τ.valuesIn n.toNat old.toList).drop (min n count).toNat =
      (τ.valuesIn n.toNat old.toList).drop count.toNat := by
    rw [hmin]
    rcases Nat.le_total n.toNat count.toNat with hle | hle
    · have hlen := τ.length_valuesIn n.toNat old.toList
      rw [Nat.min_eq_left hle, List.drop_of_length_le (Nat.le_of_eq hlen),
        List.drop_of_length_le (by omega)]
    · rw [Nat.min_eq_right hle]
  rw [ElemType.toList_dropMarksAll, ← ElemType.flatMap_dropMarks, Runs.toList_drop, hbehind,
    (τ.valuesIn_split hlist (by omega)).2, hdrop]
  rw [Runs.length_drop, hold, hbehind, Nat.sub_mul]

end ArrayPtr

/-- What is put into the room of a block is what its payload reads as. -/
theorem Memory.cells_place_room (m : Memory) (p : Address) (cells : Runs Cell) :
    (m.place p (room cells)).cells p cells.length = cells.toList := by
  by_cases hnone : cells.length = 0
  · rw [hnone]
    exact (List.eq_nil_of_length_eq_zero (by rw [Runs.length_toList, hnone])).symm
  · have hcov : Plot.Covers ⟨p, cells.length⟩ p.toNat cells.length := ⟨Nat.le_refl _, Nat.le_refl _⟩
    have hall : cells.toList.length ≤ cells.length := Nat.le_of_eq (Runs.length_toList _)
    rw [Memory.cells, room, if_neg hnone, Memory.read?_place_same hnone hcov, Nat.sub_self,
      List.drop_zero, Option.getD_some, List.take_of_length_le hall]

/-- **The state after a resize has what it has to have**: the values in the new block, poison over
the old one, and the rest in the log.  The new block is clear of those of the past, the old one
included. -/
theorem World.Settled.moved (h : w.Settled) {count : UInt64} {t : HeapTable} {old : Runs Cell}
    {m : Memory} {r : Reservation} {next : Nat} (hb : b ∈ w.heap.blocks)
    (hs : b.stored = .elements τ) (ht : w.heap.take? b.payload = some (b, t))
    (hread : w.memory.read? b.payload b.bytes = some old)
    (hwrite : w.memory.write? b.payload (poison b.bytes) = some m)
    (hlive : ∀ d ∈ w.heap.blocks, d ∈ past)
    (hpast : ∀ d ∈ past, d ≠ b → Clear d.payload d.bytes b.payload b.bytes)
    (hnew : ∀ d ∈ past, Clear d.payload (max d.bytes 1) r.payload
      (max (ArrayPtr.movedBlock τ b count old r).bytes 1)) :
    w.Moved past τ b count (ArrayPtr.movedBlock τ b count old r)
      (ArrayPtr.movedWorld w τ b count t old m r next) := by
  let cells := ArrayPtr.resizedCells τ b.count count old
  have hold : old.length = b.count.toNat * τ.layout.size := by
    have hshape := h.shaped b hb
    simp only [Block.Shaped, hs] at hshape
    exact (Memory.length_of_read? hread).trans hshape.2
  have hvalues : w.values b = τ.valuesIn b.count.toNat old.toList := by
    rw [World.values, hs, Memory.cells_eq hread]
    rfl
  obtain ⟨hpoison, hbeside⟩ := Memory.cells_poison hwrite
  have hroom : (room cells).length = max cells.length 1 := length_room cells
  have hplace : ∀ (a : Address) n, Clear a n r.payload (max cells.length 1) →
      (m.place r.payload (room cells)).cells a n = m.cells a n :=
    fun a n hd => Memory.cells_place_of_disjoint (by rwa [hroom])
  -- a block of the past that is clear of the new one with its first byte is so with all its bytes
  have hclear : ∀ d ∈ past, Clear d.payload d.bytes r.payload (max cells.length 1) := by
    intro d hd
    have := hnew d hd
    unfold Clear at this ⊢
    change _ ∨ _ + max cells.length 1 ≤ _ at this
    omega
  have hfresh : ∀ d ∈ past, d.payload ≠ r.payload := by
    intro d hd he
    have := hnew d hd
    unfold Clear at this
    rw [he] at this
    omega
  refine ⟨?_, ?_, ⟨rfl, rfl⟩, hfresh, ?_, ?_, ?_, ?_, rfl⟩
  · rw [ArrayPtr.movedWorld, Runs.toList_append, ArrayPtr.dropped_resized hold, hvalues]
  · rw [hvalues]
    have hcells := Memory.cells_place_room m r.payload cells
    refine Eq.trans ?_ (ArrayPtr.values_resized hold)
    exact congrArg (τ.valuesIn count.toNat) hcells
  · exact (hplace _ _ (hclear b (hlive b hb))).trans hpoison
  · intro d
    rw [← h.balanced.mem_take ht]
    refine HeapTable.mem_insert fun e he => ?_
    exact hfresh e (hlive e ((h.balanced.mem_take ht).mp he).1)
  · intro a n hd hd'
    exact (hplace a n hd').trans (hbeside a n hd)
  · intro d hd hne
    exact (hplace _ _ (hclear d hd)).trans (hbeside _ _ (hpast d hd hne))

/-- Where memory is given once, the new block is apart from all that there was. -/
theorem World.Sound.resized (h : w.Sound past) {count : UInt64} {t : HeapTable} {old : Runs Cell}
    {m : Memory} {l : Layout} (hb : b ∈ w.heap.blocks) (hs : b.stored = .elements τ)
    (ht : w.heap.take? b.payload = some (b, t))
    (hread : w.memory.read? b.payload b.bytes = some old)
    (hwrite : w.memory.write? b.payload (poison b.bytes) = some m)
    (hl : Reservation.layout? τ count τ.align = some l) (hfit : w.grantEnd l ≤ heapEnd) :
    w.Resized past τ b count (ArrayPtr.resizedBlock w τ b count l old)
      (ArrayPtr.resizedWorld w τ b count l t old m) := by
  let cells := ArrayPtr.resizedCells τ b.count count old
  let c := ArrayPtr.resizedBlock w τ b count l old
  have hpast := h.live b hb
  obtain ⟨hf, -⟩ := ArrayPtr.follows_resizedWorld h hb hs ht hread hwrite hl hfit
  have hap : ∀ r ∈ w.memory.plots, Plot.Apart ⟨c.payload, (room cells).length⟩ r := by
    intro r hr
    rw [← Memory.plots_write? hwrite] at hr
    exact (List.pairwise_cons.mp hf.sound.apart).1 r hr
  have hroom : (room cells).length = max cells.length 1 := length_room cells
  have hnew : ∀ d ∈ past, Clear d.payload (max d.bytes 1) c.payload (max c.bytes 1) := by
    intro d hd
    have hplots := hap d.plot (h.housed d hd)
    simp only [Plot.Apart, Plot.stop, Block.plot, hroom] at hplots
    change _ ∨ c.payload.toNat + max cells.length 1 ≤ _
    omega
  refine ⟨h.settled.moved hb hs ht hread hwrite h.live (fun d hd hne => ?_) hnew, ?_⟩
  · exact h.disjoint_of_ne hpast hd hne
  · intro r hr a n hcov hd
    have hcells := Memory.cells_place_of_apart (m := m) (hap r hr) hcov
    exact hcells.trans ((Memory.cells_poison hwrite).2 a n hd)

/-- The resize of a null array makes one. -/
theorem ArrayPtr.resize_of_null {p : ArrayPtr τ} (hnull : p.span.isNull = true) (count : UInt64)
    (request : Request := requestMemory) :
    p.resize count request = ArrayPtr.new τ count false request := by
  unfold resize
  rw [hnull]
  rfl

end CheckedMemory
