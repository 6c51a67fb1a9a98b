import CheckedMemory.Pointer.Cast
import CheckedMemory.Proofs.Sound

/-!
# Where values may be

A room is a stretch of storage that was made for values: the payload of an array or an object, the
head or the tail of a record, a static array, an array of a frame.  `World.Holds` says of a type, an
address and a number that so many values from there on lie in one room, and start where the type may
start.  It is what every handle keeps true of itself, and the rest of the module says what follows
from it and how it is handed on: to one element, to another type, to a later state.

The payload of an empty array is the start of a room like any other, though one without bytes: a
value without bytes may be there, and nothing else.
-/

namespace CheckedMemory

/-! ## 1. Rooms -/

/-- Addresses `[start, stop)` made for values. -/
structure Room where
  start : Nat
  stop : Nat

/-- The address of an element is exact if it is one. -/
theorem ElemType.toNat_element (τ : ElemType) {a : Address} {n : Nat} {i : UInt64}
    (hend : a.toNat + n * τ.layout.size < 2 ^ 64) (hi : i.toNat ≤ n) :
    (a + i * τ.size).toNat = a.toNat + i.toNat * τ.layout.size := by
  have hmul : i.toNat * τ.layout.size ≤ n * τ.layout.size := Nat.mul_le_mul_right _ hi
  rw [UInt64.toNat_add, UInt64.toNat_mul, ElemType.toNat_size,
    Nat.mod_eq_of_lt (a := i.toNat * _) (by omega), Nat.mod_eq_of_lt (by omega)]

/-- Which values are where: so many of a type, from an address on. -/
abbrev Storage := ElemType → Address → Nat → Prop

namespace Storage

/-- Values that lie in one of some rooms, where their type may start. -/
def within (P : Room → Prop) : Storage := fun τ a n =>
  a.toNat % τ.layout.align = 0 ∧ ∃ r, P r ∧ r.start ≤ a.toNat ∧ a.toNat + n * τ.layout.size ≤ r.stop

/-- Parts of storage are storage: the values after the first ones, and values of another type in the
same bytes, where it may start. -/
structure Divides (Q : Storage) : Prop where
  drop : ∀ {τ a n m} {i : UInt64}, Q τ a n → i.toNat + m ≤ n → Q τ (a + i * τ.size) m
  view : ∀ {σ τ a n m}, Q τ a n → a.toNat % σ.layout.align = 0 →
    m * σ.layout.size ≤ n * τ.layout.size → Q σ a m

theorem within_mono {P P' : Room → Prop} (hP : ∀ {r}, P r → P' r) {τ : ElemType} {a : Address}
    {n : Nat} (ha : within P τ a n) : within P' τ a n := by
  obtain ⟨hal, r, hr, hrest⟩ := ha
  exact ⟨hal, r, hP hr, hrest⟩

/-- What lies in a room can be divided there. -/
theorem divides_within {P : Room → Prop} (hP : ∀ {r}, P r → r.stop < 2 ^ 64) :
    (within P).Divides where
  drop {τ a n m i} ha hi := by
    obtain ⟨hal, r, hr, hlo, hhi⟩ := ha
    have hstop := hP hr
    have haddr := τ.toNat_element (a := a) (n := n) (i := i) (by omega) (by omega)
    have hmul : (i.toNat + m) * τ.layout.size ≤ n * τ.layout.size := Nat.mul_le_mul_right _ hi
    rw [Nat.add_mul] at hmul
    refine ⟨?_, r, hr, by omega, by omega⟩
    rw [haddr, Nat.add_mod, hal, Nat.mul_mod, τ.size_mod_align]
    simp
  view ha hal hle := by
    obtain ⟨-, r, hr, hlo, hhi⟩ := ha
    exact ⟨hal, r, hr, hlo, by omega⟩

end Storage

/-- The rooms of a block.  The length word of a record is in none of them. -/
def Block.rooms (b : Block) : List Room :=
  match b.stored with
  | .elements _ | .fixed .. =>
    [⟨b.payload.toNat, b.payload.toNat + b.bytes⟩]
  | .tailed h t =>
    let tail := b.payload.toNat + Layout.Tailed.tailOffset h.layout t.layout
    [⟨b.payload.toNat, b.payload.toNat + h.layout.size⟩,
      ⟨tail, tail + b.count.toNat * t.layout.size⟩]

/-- All of a block's payload. -/
def Block.whole (b : Block) : Room := ⟨b.payload.toNat, b.payload.toNat + b.bytes⟩

/-- All of an area. -/
def Plot.whole (q : Plot) : Room := ⟨q.base.toNat, q.stop⟩

/-- The rooms of a state: those of the blocks of the past, and every area that is no block's. -/
inductive World.IsRoom (past : List Block) (w : World) : Room → Prop where
  | block {b : Block} {r : Room} (hb : b ∈ past) (hr : r ∈ b.rooms) : IsRoom past w r
  | plain {q : Plot} (hq : q ∈ w.memory.plots) (hno : ∀ b ∈ past, b.payload ≠ q.base) :
    IsRoom past w ⟨q.base.toNat, q.stop⟩

/-- `n` values of a type, from `a` on, lie in one room. -/
def World.Holds (past : List Block) (w : World) : Storage := Storage.within (w.IsRoom past)

variable {past : List Block} {w w' : World} {b : Block} {r : Room} {σ τ : ElemType}

/-- The tail of a record lies in any room that takes it in. -/
theorem Block.Shaped.within_tail {P : Room → Prop} (hshape : b.Shaped) (hs : b.stored = .tailed σ τ)
    (hlt : b.payload.toNat + b.bytes < 2 ^ 64) (hr : P r)
    (hlo : r.start ≤ b.payload.toNat + Layout.Tailed.tailOffset σ.layout τ.layout)
    (hhi : b.payload.toNat + Layout.Tailed.tailOffset σ.layout τ.layout +
      b.count.toNat * τ.layout.size ≤ r.stop) :
    Storage.within P τ
      (b.payload + UInt64.ofNat (Layout.Tailed.tailOffset σ.layout τ.layout)) b.count.toNat := by
  simp only [Block.Shaped, hs] at hshape
  have haddr : (b.payload + UInt64.ofNat (Layout.Tailed.tailOffset σ.layout τ.layout)).toNat =
      b.payload.toNat + Layout.Tailed.tailOffset σ.layout τ.layout :=
    Word.toNat_add_ofNat (by omega)
  refine ⟨?_, r, hr, haddr ▸ hlo, haddr ▸ hhi⟩
  rw [haddr, Nat.add_mod, τ.mod_align_of_mod hshape.1, Layout.Tailed.tailOffset_mod]
  simp

/-- A block's rooms lie in its payload. -/
theorem Block.rooms_within (hs : b.Shaped) (hr : r ∈ b.rooms) :
    b.payload.toNat ≤ r.start ∧ r.stop ≤ b.payload.toNat + b.bytes := by
  unfold Block.rooms at hr
  unfold Block.Shaped at hs
  cases hstored : b.stored with
  | elements τ =>
    simp only [hstored, List.mem_singleton] at hr
    subst hr
    exact ⟨Nat.le_refl _, Nat.le_refl _⟩
  | fixed τ n =>
    simp only [hstored, List.mem_singleton] at hr
    subst hr
    exact ⟨Nat.le_refl _, Nat.le_refl _⟩
  | tailed σ τ =>
    simp only [hstored] at hr hs
    have hhead := Layout.Tailed.size_le_lengthOffset σ.layout
    have htail := Layout.Tailed.lengthOffset_le_tailOffset σ.layout τ.layout
    simp only [List.mem_cons, List.not_mem_nil, or_false] at hr
    rcases hr with rfl | rfl
    · exact ⟨Nat.le_refl _, by simp only; omega⟩
    · refine ⟨?_, ?_⟩
      · simp only
        omega
      · simp only
        omega

/-- In a block with elements, a whole number of them from the start and not past the last one's
start, one more fits. -/
theorem Block.fits_of_whole (hshape : b.Shaped) (hs : b.stored = .elements σ)
    (hcount : 0 < b.count.toNat) {x : Nat} (hle : b.payload.toNat ≤ x)
    (hin : x < b.payload.toNat + b.bytes ∨ x = b.payload.toNat)
    (hwhole : (x - b.payload.toNat) % max σ.layout.size 1 = 0) :
    x % σ.layout.align = 0 ∧ x + σ.layout.size ≤ b.payload.toNat + b.bytes := by
  simp only [Block.Shaped, hs] at hshape
  obtain ⟨hal, hbytes⟩ := hshape
  obtain ⟨k, hk⟩ := Nat.dvd_of_mod_eq_zero hwhole
  by_cases h0 : σ.layout.size = 0
  · have hx : x = b.payload.toNat := by
      rw [h0, Nat.mul_zero] at hbytes
      omega
    rw [hx]
    exact ⟨hal, by omega⟩
  · have hmax : max σ.layout.size 1 = σ.layout.size := by omega
    rw [hmax] at hk
    have hx : x = b.payload.toNat + σ.layout.size * k := by omega
    have hlt : k < b.count.toNat := by
      rcases hin with hin | hin
      · have : σ.layout.size * k < σ.layout.size * b.count.toNat := by
          rw [Nat.mul_comm _ b.count.toNat, ← hbytes]
          omega
        exact Nat.lt_of_mul_lt_mul_left this
      · have hzero : σ.layout.size * k = 0 := by omega
        have := (Nat.mul_eq_zero.mp hzero).resolve_left h0
        omega
    have hnext := Nat.mul_le_mul_left σ.layout.size (Nat.succ_le_of_lt hlt)
    rw [Nat.mul_succ, Nat.mul_comm _ b.count.toNat, ← hbytes] at hnext
    refine ⟨?_, by omega⟩
    rw [hx, Nat.add_mod, hal, Nat.mul_mod, σ.size_mod_align]
    simp

/-- Where a table says that a value of type `σ` was allocated, there is one in a block of it, unless
the block that the address is in has none. -/
theorem HeapTable.exists_block_of_holdsAt {t : HeapTable} {a : Address}
    (hshape : ∀ b ∈ t.blocks, b.Shaped) (hvalue : ∀ b, t.containing? a = some b → b.count ≠ 0)
    (hat : t.holdsAt (.elements σ) a = true) :
    ∃ b ∈ t.blocks, b.stored = .elements σ ∧ a.toNat % σ.layout.align = 0 ∧
      b.payload.toNat ≤ a.toNat ∧ a.toNat + σ.layout.size ≤ b.payload.toNat + b.bytes := by
  unfold holdsAt at hat
  split at hat
  · rename_i b hb
    obtain ⟨hlive, hle, hin⟩ := containing?_eq_some hb
    simp only [Bool.and_eq_true, beq_iff_eq] at hat
    obtain ⟨hs, hmod⟩ := hat
    have hcount : 0 < b.count.toNat :=
      Nat.pos_of_ne_zero fun h0 => hvalue b hb (UInt64.toNat_inj.mp h0)
    -- the address is a whole number of values from the start
    have hdist : (a - b.payload).toNat = a.toNat - b.payload.toNat :=
      UInt64.toNat_sub_of_le _ _ (UInt64.le_iff_toNat_le.mpr hle)
    have hwhole : (a.toNat - b.payload.toNat) % max σ.layout.size 1 = 0 := by
      have := congrArg UInt64.toNat hmod
      rwa [UInt64.toNat_mod, hdist, Word.toNat_max_one, Stored.size, ElemType.toNat_size] at this
    have hstart : a.toNat < b.payload.toNat + b.bytes ∨ a.toNat = b.payload.toNat :=
      hin.imp_right (congrArg UInt64.toNat)
    obtain ⟨hal, hfit⟩ := Block.fits_of_whole (hshape b hlive) hs hcount hle hstart hwhole
    exact ⟨b, hlive, hs, hal, hle, hfit⟩
  · exact absurd hat (by decide)

namespace World.IsRoom

/-- A room lies in one plot; if that is the plot of a block of the past, the room is one of the
block's. -/
theorem exists_plot (h : w.Sound past) (hr : w.IsRoom past r) :
    ∃ q ∈ w.memory.plots, q.base.toNat ≤ r.start ∧ r.stop ≤ q.stop ∧
      ∀ b ∈ past, b.payload = q.base → r ∈ b.rooms := by
  cases hr with
  | @block b r hb hr =>
    obtain ⟨hlo, hhi⟩ := Block.rooms_within (h.shaped b hb) hr
    refine ⟨b.plot, h.housed b hb, hlo, ?_, ?_⟩
    · simp only [Block.plot, Plot.stop]
      omega
    · intro c hc he
      rw [h.unique c hc b hb he]
      exact hr
  | @plain q hq hno =>
    exact ⟨q, hq, Nat.le_refl _, Nat.le_refl _, fun b hb he => absurd he (hno b hb)⟩

/-- A room that reaches into the payload of a block of the past, or to its start or end, is one of
the block's. -/
theorem mem_rooms (h : w.Sound past) (hr : w.IsRoom past r) (hb : b ∈ past) {x : Nat}
    (hroom : r.start ≤ x ∧ x ≤ r.stop)
    (hblock : b.payload.toNat ≤ x ∧ x ≤ b.payload.toNat + b.bytes) : r ∈ b.rooms := by
  obtain ⟨q, hq, hlo, hhi, hown⟩ := hr.exists_plot h
  have hx : q.Covers x 0 := ⟨by omega, by omega⟩
  have hx' : b.plot.Covers x 0 := by
    refine ⟨hblock.1, ?_⟩
    simp only [Block.plot, Plot.stop]
    omega
  have he := Plot.eq_of_pairwise h.apart hq (h.housed b hb) hx hx' (by omega)
  exact hown b hb (congrArg Plot.base he).symm

end World.IsRoom

/-- Another state has the blocks and the rooms of this one. -/
structure World.Extends (past : List Block) (w : World) (past' : List Block) (w' : World) :
    Prop where
  blocks : ∀ b ∈ past, b ∈ past'
  rooms : ∀ r, w.IsRoom past r → w'.IsRoom past' r

/-- What an operation leaves has the rooms there were: new blocks start in storage that is new. -/
theorem World.Follows.extends (h : w.Sound past) (hf : w.Follows past w') :
    w.Extends past (w'.heap.blocks ++ past) w' where
  blocks b hb := List.mem_append_right _ hb
  rooms r hr := by
    cases hr with
    | block hb hr => exact .block (List.mem_append_right _ hb) hr
    | @plain q hq hno =>
      refine .plain (hf.plots q hq) fun b hb => ?_
      rcases List.mem_append.mp hb with hb' | hb'
      · rcases hf.fresh b hb' with hold | hnew
        · exact hno b (h.live b hold)
        · intro he
          have hheap := (hf.sound.onHeap b hb).stop_lt hf.sound.le_heapEnd
          simp only [Block.plot, Plot.stop] at hheap
          rcases h.sited q hq with hs | hs
          · have := hs.2
            simp only [Plot.stop] at this
            rw [he] at hnew
            omega
          · have := hs.le_base
            rw [he] at hheap
            omega
      · exact hno b hb'

/-- Frames are entered and left without a change to storage. -/
theorem World.extends_frames (past : List Block) (w : World) (f : Frames) :
    w.Extends past past { w with frames := f } where
  blocks _ hb := hb
  rooms r hr := by
    cases hr with
    | block hb hr => exact .block hb hr
    | plain hq hno => exact .plain hq hno

/-! ## 2. What it means to hold values -/

namespace World.Holds

variable {a : Address} {n : Nat}

theorem mono {past' : List Block} (hx : w.Extends past past' w') (ha : w.Holds past τ a n) :
    w'.Holds past' τ a n :=
  Storage.within_mono (hx.rooms _) ha

/-- The values lie in one plot. -/
theorem exists_covers (h : w.Sound past) (ha : w.Holds past τ a n) :
    ∃ q ∈ w.memory.plots, q.Covers a.toNat (n * τ.layout.size) := by
  obtain ⟨-, r, hr, hlo, hhi⟩ := ha
  obtain ⟨q, hq, hqlo, hqhi, -⟩ := hr.exists_plot h
  exact ⟨q, hq, by omega, by omega⟩

theorem end_lt (h : w.Sound past) (ha : w.Holds past τ a n) :
    a.toNat + n * τ.layout.size < 2 ^ 47 := by
  obtain ⟨q, hq, hcov⟩ := ha.exists_covers h
  have := h.stop_lt hq
  have := hcov.2
  omega

/-- Parts of what is held are held. -/
theorem divides (h : w.Sound past) : (w.Holds past).Divides := by
  refine Storage.divides_within fun hr => ?_
  obtain ⟨q, hq, -, hstop, -⟩ := World.IsRoom.exists_plot h hr
  have := h.stop_lt hq
  omega

/-- The address of an element is exact. -/
theorem toNat_element (h : w.Sound past) (ha : w.Holds past τ a n) {i : UInt64}
    (hi : i.toNat ≤ n) : (a + i * τ.size).toNat = a.toNat + i.toNat * τ.layout.size := by
  have hend := ha.end_lt h
  exact τ.toNat_element (by omega) hi

/-- The values from element `i` on. -/
theorem drop (h : w.Sound past) (ha : w.Holds past τ a n) {i : UInt64} {m : Nat}
    (hi : i.toNat + m ≤ n) : w.Holds past τ (a + i * τ.size) m :=
  (divides h).drop ha hi

/-- A write among held values misses the length words of live records. -/
theorem misses (h : w.Sound past) (ha : w.Holds past τ a n) {k : Nat}
    (hk : k ≤ n * τ.layout.size) (hb : b ∈ w.heap.blocks) {ρ υ : ElemType}
    (hs : b.stored = .tailed ρ υ) :
    (b.lengthAddress ρ).toNat + 8 ≤ a.toNat ∨ a.toNat + k ≤ (b.lengthAddress ρ).toNat := by
  obtain ⟨-, r, hr, hlo, hhi⟩ := ha
  have hpast := h.live b hb
  obtain ⟨haddr, hin⟩ := h.toNat_lengthAddress hpast hs
  have hhead := Layout.Tailed.size_le_lengthOffset ρ.layout
  have htail := Layout.Tailed.lengthOffset_le_tailOffset ρ.layout υ.layout
  refine Classical.byContradiction fun hmeet => ?_
  have hx : ∃ x, (r.start ≤ x ∧ x ≤ r.stop) ∧
      (b.payload.toNat ≤ x ∧ x ≤ b.payload.toNat + b.bytes) := by
    refine ⟨max a.toNat (b.lengthAddress ρ).toNat, ?_, ?_⟩
    · omega
    · omega
  obtain ⟨x, hroom, hblock⟩ := hx
  have hmem := hr.mem_rooms h hpast hroom hblock
  simp only [Block.rooms, hs, List.mem_cons, List.not_mem_nil, or_false] at hmem
  rcases hmem with rfl | rfl
  · simp only at hlo hhi
    omega
  · simp only at hlo hhi
    omega

/-! ## 3. What holds values -/

/-- A block of elements holds all of them. -/
theorem of_elements (h : w.Sound past) (hb : b ∈ past) (hs : b.stored = .elements τ) :
    w.Holds past τ b.payload b.count.toNat := by
  have hshape := h.shaped b hb
  simp only [Block.Shaped, hs] at hshape
  refine ⟨hshape.1, ⟨b.payload.toNat, b.payload.toNat + b.bytes⟩, ?_, Nat.le_refl _, ?_⟩
  · exact .block hb (by simp [Block.rooms, hs])
  · simp only [hshape.2]
    exact Nat.le_refl _

/-- A fixed array on the heap holds its elements. -/
theorem of_fixed (h : w.Sound past) (hb : b ∈ past) {k : Nat} (hs : b.stored = .fixed τ k)
    {m : Nat} (hm : m ≤ k) : w.Holds past τ b.payload m := by
  have hshape := h.shaped b hb
  simp only [Block.Shaped, hs] at hshape
  obtain ⟨hal, -, hbytes⟩ := hshape
  refine ⟨hal, ⟨b.payload.toNat, b.payload.toNat + b.bytes⟩, ?_, Nat.le_refl _, ?_⟩
  · exact .block hb (by simp [Block.rooms, hs])
  · have := Nat.mul_le_mul_right τ.layout.size hm
    simp only [hbytes]
    omega

/-- A record holds its tail. -/
theorem of_tail (h : w.Sound past) (hb : b ∈ past) (hs : b.stored = .tailed σ τ) :
    w.Holds past τ (b.payload + UInt64.ofNat (Layout.Tailed.tailOffset σ.layout τ.layout))
      b.count.toNat := by
  have hroom : (⟨b.payload.toNat + Layout.Tailed.tailOffset σ.layout τ.layout,
      b.payload.toNat + Layout.Tailed.tailOffset σ.layout τ.layout +
        b.count.toNat * τ.layout.size⟩ : Room) ∈ b.rooms := by
    simp [Block.rooms, hs]
  have hlt := h.payload_add_lt hb
  exact (h.shaped b hb).within_tail hs (by omega) (.block hb hroom) (Nat.le_refl _) (Nat.le_refl _)

/-- A record holds its head. -/
theorem of_head (h : w.Sound past) (hb : b ∈ past) (hs : b.stored = .tailed σ τ) :
    w.Holds past σ b.payload 1 := by
  have hshape := h.shaped b hb
  simp only [Block.Shaped, hs] at hshape
  refine ⟨σ.mod_align_of_mod hshape.1, ⟨b.payload.toNat, b.payload.toNat + σ.layout.size⟩,
    .block hb ?_, Nat.le_refl _, ?_⟩
  · simp [Block.rooms, hs]
  · simp

/-- An area that is no block's holds what fits. -/
theorem of_plain {q : Plot} (hq : q ∈ w.memory.plots) (hno : ∀ b ∈ past, b.payload ≠ q.base)
    (hal : q.base.toNat % 16 = 0) {m : Nat} (hm : m * τ.layout.size ≤ q.length) :
    w.Holds past τ q.base m := by
  refine ⟨τ.mod_align_of_mod hal, _, .plain hq hno, Nat.le_refl _, ?_⟩
  simp only [Plot.stop]
  omega

end World.Holds

end CheckedMemory
