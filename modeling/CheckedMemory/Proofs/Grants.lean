import CheckedMemory.Proofs.Disposal
import CheckedMemory.Proofs.Lookup

/-!
# Blocks in memory that may be given again

How the system allocator answers is left open here.  `Operation.Serves` says what is asked of it:
memory at a multiple of sixteen that suits the request and is away from the rooms of all blocks that
are not released.  Where a block was released another one may come to lie, wholly or in part, and
each step of a program may be served in another way.

What every making of a block does is said once (`Program.MakesBlock.ensures`): it is refused and
nothing has happened, or the table has one block more, in a room of its own (`World.Gains`).  A
resize is a release and such a block (`ArrayPtr.ensures_resize_from`).  Both keep live blocks
settled and their rooms apart (`World.Lodged`), which is all that the next step needs.
-/

namespace CheckedMemory

open Operation

variable {past : List Block} {w w' v v' : World} {b c : Block} {τ : ElemType} {request : Request}
  {count align : UInt64} {traced : Bool} {cells : Runs Cell} {l : Layout}

/-! ## 1. The system allocator -/

/-- In a step that starts in `w`, a request for a proper layout is granted away from the blocks that
are live there, or there is no more memory.  Nothing is said of where blocks were released. -/
def Operation.Serves (request : Request) (w : World) : Prop :=
  ∀ l v, Word.isPowerOfTwo l.align = true → v.nextFree = w.nextFree →
    outcome (request l) v = (.error .exhausted, v) ∨
      ∃ base v', outcome (request l) v = (.ok base, v') ∧ Grants l base v v' ∧
        base.toNat % 16 = 0 ∧ w.heap.MayGive l base

/-- The system allocator of the model serves if live blocks are not in what it has free. -/
theorem Operation.serves_requestMemory (hstart : World.heapStart ≤ w.nextFree)
    (hfree : ∀ c ∈ w.heap.blocks, c.base.toNat + c.reserved.size ≤ w.nextFree) :
    Serves requestMemory w := by
  intro l v hl hv
  refine (grants_requestMemory (hv ▸ hstart) hl).imp_right ?_
  rintro ⟨base, v', ho, hg, hmod, hnext⟩
  refine ⟨base, v', ho, hg, hmod, by omega, hg.aligned, hg.inside, fun c hc => .inr ?_⟩
  exact Nat.le_trans (hfree c hc) (hv ▸ hnext)

/-- A system allocator that has one room to give, and gives it as often as it is asked. -/
def Operation.roomAt (base : Address) : Request := fun l =>
  if l.size ≤ 4096 ∧ base.toNat % l.align = 0 then pure base else throw .exhausted

/-- It serves where no live block is in that room. -/
theorem Operation.serves_roomAt {base : Address} (hmod : base.toNat % 16 = 0) (hne : base ≠ 0)
    (hinside : base.toNat + 4096 ≤ 2 ^ 63)
    (hap : ∀ c ∈ w.heap.blocks,
      base.toNat + 4096 ≤ c.base.toNat ∨ c.base.toNat + c.reserved.size ≤ base.toNat) :
    Serves (roomAt base) w := by
  intro l v _ _
  by_cases hl : l.size ≤ 4096 ∧ base.toNat % l.align = 0
  · have hsize : l.nonempty.size ≤ 4096 := Nat.max_le.mpr ⟨hl.1, by decide⟩
    have hend : base.toNat + l.nonempty.size ≤ 2 ^ 63 := by omega
    have hgive : w.heap.MayGive l base := by
      refine ⟨by omega, hl.2, hend, fun c hc => ?_⟩
      have := hap c hc
      unfold Block.RoomApart
      omega
    have ho : outcome (roomAt base l) v = (.ok base, v) := by
      rw [roomAt, if_pos hl]
      rfl
    exact .inr ⟨base, v, ho, ⟨hne, hl.2, hend, v.nextFree, rfl⟩, hmod, hgive⟩
  · rw [roomAt, if_neg hl]
    exact .inl rfl

/-- The live blocks of a state are settled and in rooms of their own. -/
structure World.Lodged (w : World) : Prop where
  settled : w.Settled
  kept : w.heap.Kept

theorem World.Lodged.initial : World.initial.Lodged := ⟨.initial, .empty⟩

/-! ## 2. One block more -/

namespace Block

/-- Blocks in rooms that are apart have no byte in common, the byte of an empty one included. -/
theorem clear_of_roomApart (hb : b.Lodged) (hc : c.Lodged) (hap : c.RoomApart b.base b.reserved) :
    Clear c.payload (max c.bytes 1) b.payload (max b.bytes 1) := by
  have hfirst := hb.base_le
  have hlast := hb.end_le
  have hfirst' := hc.base_le
  have hlast' := hc.end_le
  rcases hap with hbelow | habove
  · exact .inr (by omega)
  · exact .inl (by omega)

/-- So one of them is before the other. -/
theorem before_or_before_of_clear
    (hd : Clear c.payload (max c.bytes 1) b.payload (max b.bytes 1)) :
    c.Before b ∨ b.Before c := by
  rcases hd with hd | hd
  · exact .inl ⟨by omega, by omega⟩
  · exact .inr ⟨by omega, by omega⟩

end Block

/-- `w'` is `w` with one more block, filled with cells, in a room apart from those of the blocks
of `past`. -/
structure World.Gains (past : List Block) (w w' : World) (b : Block) (cells : Runs Cell) :
    Prop where
  lodged : b.Lodged
  apart : ∀ c ∈ past, c.RoomApart b.base b.reserved
  started : b.payload ≠ 0
  shaped : b.Shaped
  length : cells.length = b.bytes
  made : ∃ next, w' = { w with
    nextFree := next
    memory := w.memory.place b.payload (room cells)
    heap := w.heap.register b }

namespace World.Gains

/-- **One more block leaves live blocks settled and in rooms of their own.** -/
theorem lodges (hg : w.Gains past w' b cells) (h : w.Lodged)
    (hpast : ∀ c ∈ w.heap.blocks, c ∈ past) : w'.Lodged := by
  have hap : ∀ c ∈ w.heap.blocks, c.RoomApart b.base b.reserved :=
    fun c hc => hg.apart c (hpast c hc)
  have hclear : ∀ c ∈ w.heap.blocks, c.Before b ∨ b.Before c := fun c hc =>
    Block.before_or_before_of_clear
      (Block.clear_of_roomApart hg.lodged (h.kept.lodged c hc) (hap c hc))
  obtain ⟨next, rfl⟩ := hg.made
  let w₁ : World := { w with nextFree := next, memory := w.memory.place b.payload (room cells) }
  have hplaced : w₁.Settled := h.settled.congr rfl fun _ _ hm => Memory.isMapped_place hm
  have hmapped : w₁.memory.isMapped b.payload b.bytes = true := by
    refine Memory.isMapped_of_covers (r := ⟨b.payload, (room cells).length⟩) List.mem_cons_self
      ⟨Nat.le_refl _, ?_⟩
    have hroom := length_room cells
    simp only [Plot.stop]
    rw [hroom, hg.length]
    omega
  exact ⟨hplaced.register hclear hg.started hg.shaped hmapped, h.kept.register hg.lodged hap⟩

/-- Blocks of the past read as they did. -/
theorem cells_eq (hg : w.Gains past w' b cells) (hc : c ∈ past) (hlodged : c.Lodged) :
    w'.memory.cells c.payload c.bytes = w.memory.cells c.payload c.bytes := by
  have hclear := Block.clear_of_roomApart hg.lodged hlodged (hg.apart c hc)
  have hroom := length_room cells
  obtain ⟨next, rfl⟩ := hg.made
  refine Memory.cells_place_of_disjoint ?_
  rw [hroom, hg.length]
  unfold Clear at hclear ⊢
  omega

/-- The block is an area of its own. -/
theorem plots_eq (hg : w.Gains past w' b cells) : w'.memory.plots = b.plot :: w.memory.plots := by
  have hplot : (⟨b.payload, (room cells).length⟩ : Plot) = b.plot := by
    rw [Block.plot, length_room, hg.length]
  obtain ⟨next, rfl⟩ := hg.made
  exact congrArg (· :: w.memory.plots) hplot

/-- The new block is where none was live. -/
theorem ne_payload (hg : w.Gains past w' b cells) (hc : c ∈ past) (hlodged : c.Lodged) :
    c.payload ≠ b.payload := by
  intro he
  have hclear := Block.clear_of_roomApart hg.lodged hlodged (hg.apart c hc)
  unfold Clear at hclear
  rw [he] at hclear
  omega

end World.Gains

/-! ## 3. Reserving room -/

namespace Operation

/-- Room for values of one type: whatever is recorded there is lodged in it, away from the blocks of
`past`, and starts where the type may. -/
structure Fits (past : List Block) (τ : ElemType) (count : UInt64) (r : Reservation) : Prop where
  lodged : ∀ stored traced, (Block.mk r.base r.layout r.payload
    (count.toNat * τ.layout.size) count stored traced).Lodged
  apart : ∀ c ∈ past, c.RoomApart r.base r.layout
  started : r.payload ≠ 0
  aligned : r.payload.toNat % τ.layout.align = 0

section Served

variable (hs : Serves request w) (hv : v.nextFree = w.nextFree)

include hs hv

/-- A reservation is refused and nothing has happened, or room that fits was given. -/
theorem ensures_reserve_from (ha : Word.isPowerOfTwo align.toNat = true) :
    Ensures (reserve τ count align request) v
      (fun r v' => Fits w.heap.blocks τ count r ∧ ∃ next, v' = { v with nextFree := next })
      (fun f v' => v' = v ∧ ∀ p, f ≠ .violation (.invalidFree p)) := by
  have hl := τ.proper_layout.align
  have hlt : τ.layout.align < 2 ^ 64 := Nat.lt_of_le_of_lt τ.align_le (by decide)
  unfold reserve
  cases hr : Reservation.layout? τ count align with
  | none => exact ensures_stop ⟨rfl, fun _ he => by cases he⟩
  | some r =>
    have hcarved : τ.layout.carved? count align = some r := hr
    have halign : r.align = τ.layout.align := by
      rw [((Layout.carved?_eq_some_iff hl hlt).mp hcarved).2]
    rcases hs r v (halign ▸ hl) hv with hfull | ⟨base, v', ho, hg, -, hgive⟩
    · exact ensures_of_error (outcome_bind_error _ hfull) ⟨rfl, fun _ he => by cases he⟩
    · obtain ⟨next, rfl⟩ := hg.world
      have hcarves := Layout.carves hl hlt ha hcarved (halign ▸ hg.aligned) hg.inside
      refine ensures_of_ok (outcome_bind_ok _ ho) ⟨⟨fun stored traced => ?_, hgive.apart, ?_, ?_⟩,
        next, rfl⟩
      · exact Block.lodged_carved hl hlt ha hcarved (halign ▸ hg.aligned) hg.inside hgive.even
      · intro hzero
        have hle := UInt64.le_iff_toNat_le.mp hcarves.base_le
        change base.toNat ≤ (Reservation.payloadAt τ base align).toNat at hle
        simp only at hzero
        rw [hzero] at hle
        exact hg.ne_zero (UInt64.toNat_inj.mp (Nat.le_zero.mp hle))
      · exact hcarves.natural_mod

/-- An array is made so, whatever its elements are. -/
theorem ensures_elements (ha : Word.isPowerOfTwo align.toNat = true)
    (hlen : cells.length = count.toNat * τ.layout.size) :
    Ensures (do
      let r ← reserve τ count align request
      record r (.elements τ) count traced cells
      return (ArrayPtr.ofBase r.payload count : ArrayPtr τ)) v
      (fun p v' => ∃ b, p = ArrayPtr.ofBase b.payload count ∧
        (b.stored = .elements τ ∧ b.count = count) ∧ v.Gains w.heap.blocks v' b cells)
      (fun _ v' => v' = v) := by
  refine ensures_bind ((ensures_reserve_from hs hv ha).mono ?_ fun _ _ h => h.1)
  rintro r _ ⟨hfits, next, rfl⟩
  refine ensures_bind (ensures_modify (ensures_pure ?_))
  refine ⟨⟨r.base, r.layout, r.payload, cells.length, count, .elements τ, traced⟩, rfl, ⟨rfl, rfl⟩,
    ?_, hfits.apart, hfits.started, ⟨hfits.aligned, hlen⟩, rfl, next, rfl⟩
  rw [hlen]
  exact hfits.lodged (.elements τ) traced

/-- A block that starts with its room is made so, whatever it holds. -/
theorem ensures_whole {α : Type} {stored : Stored} (f : Address → α)
    (hl : Word.isPowerOfTwo l.align = true) (hle : cells.length ≤ l.size)
    (hshape : ∀ base : Address, base.toNat % 16 = 0 →
      (Block.mk base l.nonempty base cells.length count stored traced).Shaped) :
    Ensures (do
      let base ← request l
      record ⟨base, l.nonempty, base⟩ stored count traced cells
      return f base) v
      (fun x v' => ∃ b, x = f b.payload ∧ (b.stored = stored ∧ b.count = count) ∧
        v.Gains w.heap.blocks v' b cells)
      (fun _ v' => v' = v) := by
  rcases hs l v hl hv with hfull | ⟨base, v', ho, hg, hmod, hgive⟩
  · exact ensures_of_error (outcome_bind_error _ hfull) rfl
  · obtain ⟨next, rfl⟩ := hg.world
    refine ensures_bind (ensures_of_ok ho (ensures_bind (ensures_modify (ensures_pure ?_))))
    exact ⟨⟨base, l.nonempty, base, cells.length, count, stored, traced⟩, rfl, ⟨rfl, rfl⟩,
      Block.lodged_of_payload_eq rfl rfl hle hg.inside, hgive.apart, hg.ne_zero, hshape base hmod,
      rfl, next, rfl⟩

end Served

end Operation

/-! ## 4. Making blocks -/

/-- `v` is `w` with more in the drop log. -/
def World.Logs (w v : World) : Prop :=
  ∃ log, w.dropLog.toList <+: log.toList ∧ v = { w with dropLog := log }

namespace World.Logs

theorem refl (w : World) : w.Logs w := ⟨w.dropLog, List.prefix_refl _, rfl⟩

theorem append (w : World) (marks : Runs Int64) :
    w.Logs { w with dropLog := w.dropLog ++ marks } :=
  ⟨_, ⟨marks.toList, by rw [Runs.toList_append]⟩, rfl⟩

theorem lodged (hl : w.Logs v) (h : w.Lodged) : v.Lodged := by
  obtain ⟨log, -, rfl⟩ := hl
  exact ⟨h.settled.congr rfl fun _ _ hm => hm, h.kept⟩

end World.Logs

/-- The handle starts where the block does, and what it says is there is in the block. -/
structure Handle.IsTo (h : Handle) (b : Block) : Prop where
  starts : h.storage? = some b.payload
  lies : ∀ {P : Room → Prop}, P b.whole → h.LiesIn (Storage.within P) [b]

/-- The elements of a block are in the block. -/
theorem Block.Shaped.within {P : Room → Prop} (hshape : b.Shaped) (hs : b.stored = .elements τ)
    (hP : P b.whole) : Storage.within P τ b.payload b.count.toNat := by
  simp only [Block.Shaped, hs] at hshape
  exact ⟨hshape.1, b.whole, hP, Nat.le_refl _, Nat.le_of_eq (by rw [Block.whole, hshape.2])⟩

theorem Handle.isTo_array (hshape : b.Shaped) (hs : b.stored = .elements τ) :
    (Handle.array τ (.plain (.ofBase b.payload b.count))).IsTo b :=
  ⟨rfl, fun hP => .inr (hshape.within hs hP)⟩

/-- A handle was made with a block of its own; a value on its way there may have been released. -/
def World.Obtains (w : World) (h : Handle) (w' : World) : Prop :=
  ∃ b v cells, h.IsTo b ∧ w.Logs v ∧ v.Gains w.heap.blocks w' b cells

namespace Program

/-- A making is refused, with nothing changed but the drop log, or one block more is there. -/
def Obtains (a : Operation (List Handle)) (w : World) : Prop :=
  Ensures a w (fun hs w' => ∃ h, hs = [h] ∧ w.Obtains h w') fun _ w' => w.Logs w'

section Making

variable {σ : ElemType} {α : Type} {x y : UInt64}

theorem obtains_giving {a : Operation α} {f : α → Handle}
    (ha : Ensures a w (fun x w' => w.Obtains (f x) w') fun _ w' => w.Logs w') :
    Obtains (giving f a) w :=
  ensures_map (ha.mono (fun x _ hx => ⟨f x, rfl, hx⟩) fun _ _ hf => hf)

variable (hs : Serves request w)

include hs

/-- An array of any elements, after a value was released or not. -/
theorem obtains_elements (hl : w.Logs v) (ha : Word.isPowerOfTwo align.toNat = true)
    (hlen : cells.length = count.toNat * τ.layout.size) :
    Ensures (do
      let r ← reserve τ count align request
      record r (.elements τ) count traced cells
      return (ArrayPtr.ofBase r.payload count : ArrayPtr τ)) v
      (fun p w' => w.Obtains (.array τ (.plain p)) w')
      (fun _ w' => w.Logs w') := by
  have hnext : v.nextFree = w.nextFree := by
    obtain ⟨log, -, rfl⟩ := hl
    rfl
  refine (ensures_elements hs hnext ha hlen).mono ?_ ?_
  · rintro p w' ⟨b, rfl, ⟨hstored, rfl⟩, hg⟩
    exact ⟨b, v, cells, Handle.isTo_array hg.shaped hstored, hl, hg⟩
  · rintro f w' rfl
    exact hl

theorem obtains_new (count : UInt64) (traced : Bool) :
    Ensures (ArrayPtr.new τ count traced request) w
      (fun p w' => w.Obtains (.array τ (.plain p)) w')
      (fun _ w' => w.Logs w') :=
  obtains_elements hs (.refl w) (τ.toNat_align ▸ τ.proper_layout.align)
    (τ.length_replicate count τ.default)

theorem obtains_newCells (hlen : cells.length = τ.layout.size) :
    Ensures (Ptr.newCells τ traced cells request) w (fun p w' => w.Obtains (.object τ p) w')
      (fun _ w' => w.Logs w') := by
  refine (ensures_whole hs rfl (fun base => (⟨base⟩ : Ptr τ)) τ.proper_layout.align
    (Nat.le_of_eq hlen) ?_).mono ?_ ?_
  · intro base hbase
    refine ⟨τ.mod_align_of_mod hbase, ?_⟩
    simp only [hlen, show (1 : UInt64).toNat = 1 from rfl, Nat.one_mul]
  · rintro p w' ⟨b, rfl, ⟨hstored, hcount⟩, hg⟩
    refine ⟨b, w, cells, ⟨rfl, fun hP => .inr ?_⟩, .refl w, hg⟩
    have hwithin := hg.shaped.within hstored hP
    rwa [hcount] at hwithin
  · rintro f w' rfl
    exact .refl w'

theorem obtains_matrix (x y : UInt64) :
    Ensures (Matrix.new τ x y request) w (fun m w' => w.Obtains (.matrix τ m) w')
      (fun _ w' => w.Logs w') := by
  by_cases hzero : x = 0 ∨ y = 0
  · simp only [Matrix.new, if_pos hzero]
    exact ensures_bind (ensures_throw (.refl w))
  · simp only [Matrix.new, if_neg hzero]
    refine ensures_bind (ensures_pure ?_)
    cases hmul : Word.mul? x y with
    | none => exact ensures_stop (.refl w)
    | some count =>
      obtain ⟨hlt, hproduct⟩ := Word.mul?_eq_some_iff.mp hmul
      have hnew : Ensures (ArrayPtr.new τ count false request) w _ _ :=
        ensures_elements hs rfl (τ.toNat_align ▸ τ.proper_layout.align)
          (τ.length_replicate count τ.default)
      refine ensures_bind (hnew.mono ?_ ?_)
      · rintro p w' ⟨b, rfl, ⟨hstored, rfl⟩, hg⟩
        refine ensures_pure ⟨b, w, _, ⟨rfl, fun hP => .inr ⟨hlt, ?_⟩⟩, .refl w, hg⟩
        rw [← hproduct]
        exact hg.shaped.within hstored hP
      · rintro f w' rfl
        exact .refl w'

theorem obtains_record (count : UInt64) (x : σ.Carrier) :
    Ensures (TailedPtr.new σ τ count x request) w (fun p w' => w.Obtains (.tailed σ τ p) w')
      (fun _ w' => w.Logs w') := by
  have hdrop := World.Logs.append w (.ofList (σ.dropMarks x))
  by_cases hzero : count = 0
  · simp only [TailedPtr.new, if_pos hzero]
    exact ensures_bind (ensures_modify (ensures_bind (ensures_throw hdrop)))
  · simp only [TailedPtr.new, if_neg hzero]
    refine ensures_bind (ensures_pure ?_)
    cases hl : Layout.Tailed.layout? σ.layout τ.layout count.toNat with
    | none => exact ensures_bind (ensures_modify (ensures_stop hdrop))
    | some l =>
      obtain ⟨halign, hleast, hsize⟩ := TailedPtr.layout?_eq_some hl
      have hlen := TailedPtr.length_cells σ τ x count hsize
      refine (ensures_whole hs rfl (fun base => (⟨base⟩ : TailedPtr σ τ))
        (Word.isPowerOfTwo_of_dvd halign) (Nat.le_of_eq hlen) ?_).mono ?_ ?_
      · intro base hbase
        exact ⟨hbase, by rw [hlen]; exact hleast, by rw [hlen]; exact hsize⟩
      · rintro p w' ⟨b, rfl, ⟨hstored, -⟩, hg⟩
        exact ⟨b, w, _, ⟨rfl, fun _ => .inr ⟨b, List.mem_cons_self, rfl, hstored⟩⟩, .refl w, hg⟩
      · rintro f w' rfl
        exact .refl w'

theorem obtains_fixed (xs : List τ.Carrier) :
    Ensures (FixedArray.newHeap τ xs request) w (fun x w' => w.Obtains (.fixed τ x) w')
      (fun _ w' => w.Logs w') := by
  refine (ensures_whole hs rfl (fun base => (⟨base, UInt64.ofNat xs.length⟩ : FixedArray τ)) ?_
    (Nat.le_refl _) ?_).mono ?_ ?_
  · exact τ.proper_layout.align
  · intro base hbase
    refine ⟨τ.mod_align_of_mod hbase, rfl, ?_⟩
    rw [Runs.length_ofList, ElemType.length_encodeAll]
  · rintro x w' ⟨b, rfl, ⟨hstored, -⟩, hg⟩
    refine ⟨b, w, _, ⟨rfl, fun hP => ?_⟩, .refl w, hg⟩
    have hshape := hg.shaped
    simp only [Block.Shaped, hstored] at hshape
    have hle : (UInt64.ofNat xs.length).toNat * τ.layout.size ≤ b.bytes := by
      rw [hshape.2.2, UInt64.toNat_ofNat']
      exact Nat.mul_le_mul_right _ (Nat.mod_le _ _)
    exact ⟨hshape.1, b.whole, hP, Nat.le_refl _, Nat.add_le_add_left hle _⟩
  · rintro f w' rfl
    exact .refl w'

/-- **All that the making of a block can do**, whatever it is made for and wherever it is put. -/
theorem MakesBlock.obtains {a : Operation (List Handle)} (ha : MakesBlock request a) :
    Obtains a w := by
  have halign : ∀ τ : ElemType, Word.isPowerOfTwo τ.align.toNat = true :=
    fun τ => τ.toNat_align ▸ τ.proper_layout.align
  cases ha with
  | array τ count traced =>
    exact obtains_giving (obtains_new hs count traced)
  | list τ xs hxs =>
    refine obtains_giving (obtains_elements hs (.refl w) (halign τ) ?_)
    rw [Runs.length_ofList, ElemType.length_encodeAll, Word.toNat_ofNat hxs]
  | filled τ count x =>
    exact obtains_giving (ensures_bind (ensures_modify (obtains_elements hs (.append w _)
      (halign τ) (τ.length_replicate count x))))
  | zeroed τ count =>
    exact obtains_giving (obtains_elements hs (.refl w) (halign τ) (Runs.length_replicate _ _))
  | aligned τ count align =>
    refine obtains_giving (ensures_bind (ensures_require (fun hpow => ?_) fun _ => .refl w))
    exact obtains_elements hs (.refl w) hpow (τ.length_replicate count τ.default)
  | object τ x traced =>
    refine obtains_giving (obtains_newCells hs ?_)
    rw [Runs.length_ofList, ElemType.length_encode]
  | zeroedObject τ =>
    refine obtains_giving (obtains_newCells hs ?_)
    rw [ElemType.zeroed, Runs.length_replicate, show (1 : UInt64).toNat = 1 from rfl, Nat.one_mul]
  | matrix τ x y => exact obtains_giving (obtains_matrix hs x y)
  | record σ τ count x => exact obtains_giving (obtains_record hs count x)
  | fixed τ xs => exact obtains_giving (obtains_fixed hs xs)

end Making

end Program

/-! ## 5. Resizing blocks -/

/-- An array is resized: block `b` is out of the table, and `c` is there in a room apart from all
that were live, the one of `b` included. -/
structure World.Reseats (w : World) (τ : ElemType) (b : Block) (count : UInt64) (c : Block)
    (w' : World) : Prop where
  live : b ∈ w.heap.blocks
  stored : b.stored = .elements τ
  moved : w.Moved w.heap.blocks τ b count c w'
  lodged : w'.Lodged
  started : c.payload ≠ 0
  plots : w'.memory.plots = c.plot :: w.memory.plots
  /-- The one is taken out and then the other is recorded. -/
  table : ∃ t, w.heap.take? b.payload = some (b, t) ∧ w'.heap = t.register c

/-- A resize that fails after the block was taken out leaves the table without it. -/
structure World.Forgets (w : World) (p : Address) (w' : World) : Prop where
  taken : ∃ b t, w.heap.take? p = some (b, t) ∧ w' = { w with heap := t }
  lodged : w'.Lodged

namespace ArrayPtr

/-- **All that a resize can do of an array that is not null**, wherever it is moved to.  It is
refused and nothing has happened; or it fails once the block is out of the table, and not as an
invalid release; or the block is moved. -/
theorem ensures_resize_from (h : w.Lodged) (hs : Serves request w) {p : ArrayPtr τ}
    (hnull : p.span.isNull = false) (count : UInt64) :
    Ensures (p.resize count request) w
      (fun q w' => ∃ b c, b.payload = p.span.base ∧ q = .ofBase c.payload count ∧
        w.Reseats τ b count c w')
      (fun f w' => f = .violation (.invalidFree p.span.base) ∧ w' = w ∨
        (∀ a, f ≠ .violation (.invalidFree a)) ∧ w.Forgets p.span.base w') := by
  cases howns : p.ownsBlock w with
  | false =>
    exact ensures_of_error (outcome_resize_of_not_owned count hnull howns) (.inl ⟨rfl, rfl⟩)
  | true =>
    obtain ⟨b, hb, hbase, hst⟩ := exists_block_of_ownsBlock howns
    obtain ⟨t, ht⟩ := h.settled.exists_take? hb
    obtain ⟨old, m, hread, hwrite⟩ := h.settled.exists_poison hb
    have htaken : { w with heap := t }.Lodged := ⟨h.settled.take ht, h.kept.take ht⟩
    have hreserve : Ensures (reserve τ count τ.align request) { w with heap := t }
        (fun r v' => Fits w.heap.blocks τ count r ∧
          ∃ next, v' = { w with heap := t, nextFree := next })
        (fun f v' => v' = { w with heap := t } ∧ ∀ a, f ≠ .violation (.invalidFree a)) :=
      ensures_reserve_from hs rfl (τ.toNat_align ▸ τ.proper_layout.align)
    rcases hr : outcome (reserve τ count τ.align request) { w with heap := t } with ⟨f | r, w₁⟩
    · obtain ⟨rfl, hf⟩ := hreserve.of_error hr
      exact ensures_of_error (outcome_resize_of_error hnull howns hbase ht hr)
        (.inr ⟨hf, ⟨b, t, hbase ▸ ht, rfl⟩, htaken⟩)
    · obtain ⟨hfits, next, rfl⟩ := hreserve.of_ok hr
      have hlen : (resizedCells τ b.count count old).length = count.toNat * τ.layout.size := by
        have hshape := h.settled.shaped b hb
        simp only [Block.Shaped, hst] at hshape
        exact length_resizedCells ((Memory.length_of_read? hread).trans hshape.2)
      -- the new block is lodged away from all that were live
      have hlodged : (movedBlock τ b count old r).Lodged := by
        unfold movedBlock
        rw [hlen]
        exact hfits.lodged (.elements τ) b.traced
      have hclear : ∀ d ∈ w.heap.blocks, Clear d.payload (max d.bytes 1) r.payload
          (max (movedBlock τ b count old r).bytes 1) := fun d hd =>
        Block.clear_of_roomApart hlodged (h.kept.lodged d hd) (hfits.apart d hd)
      have hmoved : w.Moved w.heap.blocks τ b count (movedBlock τ b count old r)
          (movedWorld w τ b count t old m r next) :=
        h.settled.moved hb hst ht hread hwrite (fun d hd => hd)
          (fun d hd hne => h.settled.disjoint_of_ne hb hd hne) hclear
      -- before it is recorded, the old one is out of the table and poisoned
      let v : World := { w with
        heap := t
        memory := m
        dropLog := (movedWorld w τ b count t old m r next).dropLog }
      have hv : v.Lodged := by
        refine ⟨(h.settled.take ht).congr rfl fun a n hm => ?_, htaken.kept⟩
        exact (Memory.isMapped_write? hwrite a n).trans hm
      have hgains : v.Gains w.heap.blocks (movedWorld w τ b count t old m r next)
          (movedBlock τ b count old r) (resizedCells τ b.count count old) :=
        ⟨hlodged, hfits.apart, hfits.started, ⟨hfits.aligned, hlen⟩, rfl, next, rfl⟩
      have hplots := hgains.plots_eq.trans (congrArg _ (Memory.plots_write? hwrite))
      refine ensures_of_ok (outcome_resize_of_ok hnull howns hbase ht hread hwrite hr)
        ⟨b, movedBlock τ b count old r, hbase, rfl, hb, hst, hmoved, ?_, hfits.started,
          hplots, t, ht, rfl⟩
      exact hgains.lodges hv fun c hc => ((h.settled.balanced.mem_take ht).mp hc).1

end ArrayPtr

end CheckedMemory
