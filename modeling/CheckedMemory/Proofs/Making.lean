import CheckedMemory.Array.Fixed
import CheckedMemory.Proofs.Outcome
import CheckedMemory.Proofs.Room

/-!
# Making storage soundly

One lemma about the system allocator's next addresses, one about a block put there, and one about an
area that is no block's; every constructor is one of the last two after its request.  Each is given
the way it is used: from a sound state it leaves a state that follows, whether it succeeds or not,
and what it gives holds its values.

Arrays, objects and matrices are blocks of elements; they differ in the cells that they start with,
and of those only the number counts.
-/

namespace CheckedMemory

open Operation

variable {past : List Block} {w w' : World} {σ τ : ElemType}

/-! ## 1. What the system allocator gives -/

namespace Word

theorem isPowerOfTwo_iff {n : Nat} : isPowerOfTwo n = true ↔ ∃ k, n = 2 ^ k := by
  simp only [isPowerOfTwo, Bool.and_eq_true, bne_iff_ne, beq_iff_eq]
  constructor
  · rintro ⟨-, hlog⟩
    exact ⟨_, hlog.symm⟩
  · rintro ⟨k, rfl⟩
    exact ⟨Nat.ne_of_gt (Nat.two_pow_pos k), by rw [Nat.log2_two_pow]⟩

theorem pos_of_isPowerOfTwo {n : Nat} (h : isPowerOfTwo n = true) : 0 < n := by
  obtain ⟨k, rfl⟩ := isPowerOfTwo_iff.mp h
  exact Nat.two_pow_pos k

/-- Of two powers of two the smaller divides the greater. -/
theorem dvd_of_le {m n : Nat} (hm : isPowerOfTwo m = true) (hn : isPowerOfTwo n = true)
    (hle : m ≤ n) : m ∣ n := by
  obtain ⟨j, rfl⟩ := isPowerOfTwo_iff.mp hm
  obtain ⟨k, rfl⟩ := isPowerOfTwo_iff.mp hn
  exact Nat.pow_dvd_pow 2 ((Nat.pow_le_pow_iff_right (by decide)).mp hle)

/-- A power of two divides 16 or is a multiple of it. -/
theorem isPowerOfTwo_of_dvd {n : Nat} (h : n ∣ 16) : isPowerOfTwo n = true := by
  have hall : ∀ m < 17, m ∣ 16 → isPowerOfTwo m = true := by decide
  exact hall n (Nat.lt_succ_of_le (Nat.le_of_dvd (by decide) h)) h

theorem dvd_of_isPowerOfTwo {n : Nat} (h : isPowerOfTwo n = true) : n ∣ 16 ∨ 16 ∣ n :=
  (Nat.le_total n 16).imp (dvd_of_le h (by decide)) (dvd_of_le (by decide) h)

/-- A multiple is rounded up to itself. -/
theorem roundUp_of_dvd {n align : Nat} (h : align ∣ n) : roundUp n align = n := by
  unfold roundUp
  split
  · rfl
  · rename_i hne
    obtain ⟨k, rfl⟩ := h
    rw [Nat.mul_add_div (Nat.pos_of_ne_zero hne), Nat.div_eq_of_lt (by omega), Nat.add_zero,
      Nat.mul_comm]

/-- Rounding a multiple of 16 up to a multiple of `align` gives a multiple of 16 again: either the
number itself, or one that is short of the bound by a whole 16. -/
theorem roundUp_of_mod {n align : Nat} (hn : n % 16 = 0) (hpos : 0 < align)
    (ha : align ∣ 16 ∨ 16 ∣ align) :
    roundUp n align % 16 = 0 ∧ (roundUp n align = n ∨ roundUp n align + 16 ≤ n + align) := by
  have hle : n ≤ roundUp n align := le_roundUp n
  have hlt := roundUp_lt n hpos
  rcases ha with ha | ha
  · rw [roundUp_of_dvd (Nat.dvd_trans ha (Nat.dvd_of_mod_eq_zero hn))]
    exact ⟨hn, .inl rfl⟩
  · have hmod : roundUp n align % 16 = 0 :=
      Nat.mod_eq_zero_of_dvd (Nat.dvd_trans ha (Nat.dvd_of_mod_eq_zero (roundUp_mod n align hpos)))
    obtain ⟨k, rfl⟩ := ha
    refine ⟨hmod, .inr ?_⟩
    omega

end Word

namespace World

theorem grantBase_mod (w : World) {l : Layout} (hl : l.align ∣ 16) : w.grantBase l % 16 = 0 := by
  have hmax : max 16 l.align = 16 := by
    have := Nat.le_of_dvd (by decide) hl
    omega
  unfold grantBase
  rw [hmax]
  exact Word.roundUp_mod _ _ (by decide)

theorem nextFree_le_grantBase (w : World) (l : Layout) : w.nextFree ≤ w.grantBase l :=
  Word.le_roundUp _

/-- What is given is far below the end of the word. -/
theorem toNat_grantBase {l : Layout} (hfit : w.grantEnd l ≤ heapEnd) :
    (UInt64.ofNat (w.grantBase l)).toNat = w.grantBase l := by
  refine Word.toNat_ofNat ?_
  simp only [grantEnd, heapEnd] at hfit
  omega

/-- What is given is apart from all storage there is. -/
theorem Sound.apart_of_nextFree_le (h : w.Sound past) {q : Plot} (hlo : w.nextFree ≤ q.base.toNat)
    (hhi : q.stop < heapEnd) : ∀ r ∈ w.memory.plots, q.Apart r := by
  intro r hr
  rcases h.sited r hr with hs | hs
  · exact .inr (Nat.lt_of_lt_of_le hs.2 hlo)
  · have hbase := hs.le_base
    simp only [heapEnd] at hhi
    exact .inl (by omega)

end World

/-! ## 2. A block in what was given -/

theorem Operation.length_room (cells : Runs Cell) : (room cells).length = max cells.length 1 := by
  unfold room
  split
  · rename_i h
    rw [Runs.length_replicate, h]
    rfl
  · omega

/-- In the cells of a record the length word is there, and it is the number of tail elements. -/
def Block.LengthIn (b : Block) (cells : Runs Cell) : Prop :=
  ∀ h t, b.stored = .tailed h t →
    ElemType.decode .uint64
      ((cells.toList.drop (Layout.Tailed.lengthOffset h.layout)).take 8) = b.count

/-- The length word of a record that was just placed. -/
theorem Block.lengthKept_place {b : Block} {cells : Runs Cell} (m : Memory) (hshape : b.Shaped)
    (hbytes : b.bytes = cells.length) (hend : b.payload.toNat + cells.length < 2 ^ 64)
    (hlen : b.LengthIn cells) : b.LengthKept (m.place b.payload (room cells)) := by
  intro σ τ hs
  simp only [Block.Shaped, hs] at hshape
  have hoff := Layout.Tailed.lengthOffset_le_tailOffset σ.layout τ.layout
  have hroom : room cells = cells := by
    unfold room
    rw [if_neg (by omega)]
  have haddr : (b.lengthAddress σ).toNat =
      b.payload.toNat + Layout.Tailed.lengthOffset σ.layout := Word.toNat_add_ofNat (by omega)
  have hcov : Plot.Covers ⟨b.payload, (room cells).length⟩ (b.lengthAddress σ).toNat 8 := by
    rw [hroom, haddr]
    refine ⟨?_, ?_⟩
    · simp only
      omega
    · simp only [Plot.stop]
      omega
  have hread := Memory.read?_place_same (m := m) (by decide) hcov
  rw [Memory.word?, hread, Option.map_some, haddr, Nat.add_sub_cancel_left, hroom, hlen σ τ hs]

/-- **A block recorded in what the system allocator has just given.** -/
theorem World.Follows.record (h : w.Sound past) {l : Layout} {b : Block} {cells : Runs Cell}
    (hfit : w.grantEnd l ≤ heapEnd) (hlo : w.grantBase l ≤ b.payload.toNat)
    (hhi : b.payload.toNat + max cells.length 1 ≤ w.grantBase l + max l.size 1)
    (hbytes : b.bytes = cells.length) (hshape : b.Shaped) (hlen : b.LengthIn cells) :
    w.Follows past { w with
      nextFree := w.grantEnd l
      memory := w.memory.place b.payload (room cells)
      heap := w.heap.register b } := by
  have hfree := w.nextFree_le_grantBase l
  have hgrant : w.grantEnd l = w.grantBase l + max l.size 1 + 16 := rfl
  have hplot : (⟨b.payload, (room cells).length⟩ : Plot) = b.plot := by
    rw [Block.plot, length_room, hbytes]
  have hstop : b.plot.stop < w.grantEnd l := by
    simp only [Block.plot, Plot.stop, hbytes]
    omega
  have hheap : b.plot.OnHeap (w.grantEnd l) := by
    have := h.heapStart_le
    exact ⟨by simp only [Block.plot]; omega, hstop⟩
  have hap : ∀ r ∈ w.memory.plots, Plot.Apart ⟨b.payload, (room cells).length⟩ r := by
    rw [hplot]
    exact h.apart_of_nextFree_le (by simp only [Block.plot]; omega) (by omega)
  have hplaced := h.place hap (.inl (by rw [hplot]; exact hheap)) (by omega) hfit (Nat.le_refl _)
    h.used_le h.used_mod h.windowed
  have hnew : ∀ c ∈ past, c.payload ≠ b.payload := by
    intro c hc he
    have := (h.onHeap c hc).2
    simp only [Block.plot, Plot.stop, he] at this
    omega
  have hlive : ∀ c ∈ w.heap.blocks, c.payload ≠ b.payload := fun c hc => hnew c (h.live c hc)
  have hkept := Block.lengthKept_place w.memory hshape hbytes
    (by simp only [World.heapEnd] at hfit; omega) hlen
  have hsound := hplaced.register (by rw [← hplot]; exact List.mem_cons_self) hheap hnew hshape
    hkept
  refine ⟨hsound.settle ?_, ?_, ?_, by simp only; omega, rfl⟩
  · exact HeapTable.mem_register_self _ _
  · intro r hr
    exact List.mem_cons_of_mem _ hr
  · intro c hc
    rcases (HeapTable.mem_insert hlive).mp hc with rfl | hc'
    · exact .inr (by omega)
    · exact .inl hc'

/-! ## 3. Blocks of elements -/

namespace Reservation

theorem layout?_eq_some {count align : UInt64} {l : Layout} (h : layout? τ count align = some l) :
    l.size = count.toNat * τ.layout.size + padding τ.align align ∧ l.align = τ.layout.align := by
  unfold layout? Layout.array? Layout.make? at h
  split at h
  · cases h
    exact ⟨rfl, rfl⟩
  · cases h

/-- Where the values start in what was given: at a multiple of 16, and so that the bytes to spare
are enough. -/
theorem payloadAt_of_mod (τ : ElemType) {base : Nat} {align : UInt64} (hmod : base % 16 = 0)
    (hend : base + padding τ.align align < 2 ^ 63) (ha : align.toNat ∣ 16 ∨ 16 ∣ align.toNat) :
    (payloadAt τ (UInt64.ofNat base) align).toNat % 16 = 0 ∧
      base ≤ (payloadAt τ (UInt64.ofNat base) align).toNat ∧
      ((payloadAt τ (UInt64.ofNat base) align).toNat = base ∨
        (payloadAt τ (UInt64.ofNat base) align).toNat + 15 ≤ base + padding τ.align align) := by
  have hbase : (UInt64.ofNat base).toNat = base := Word.toNat_ofNat (by omega)
  unfold payloadAt
  split
  · rw [hbase]
    exact ⟨hmod, Nat.le_refl _, .inl rfl⟩
  · rename_i hpad
    have hpos : 1 < align.toNat ∧ padding τ.align align = align.toNat - 1 := by
      unfold padding at hpad ⊢
      split at hpad
      · rename_i hlt
        rw [if_pos hlt]
        exact ⟨by omega, rfl⟩
      · exact absurd rfl hpad
    obtain ⟨hr, hcase⟩ := Word.roundUp_of_mod hmod (by omega) ha
    have hle : base ≤ Word.roundUp base align.toNat := Word.le_roundUp base
    have hcarve : (carve (UInt64.ofNat base) align).toNat = Word.roundUp base align.toNat := by
      unfold carve
      rw [hbase]
      refine Word.toNat_ofNat ?_
      omega
    rw [hcarve]
    refine ⟨hr, hle, ?_⟩
    rcases hcase with hcase | hcase
    · exact .inl hcase
    · exact .inr (by omega)

end Reservation

theorem ElemType.length_encodeRuns (τ : ElemType) (xs : Runs τ.Carrier) :
    (τ.encodeRuns xs).length = xs.length * τ.layout.size := by
  rw [← Runs.length_toList, toList_encodeRuns, length_encodeAll, Runs.length_toList]

/-- Elements recorded where a reservation says. -/
theorem World.Sound.record_elements (h : w.Sound past) {count align : UInt64} {l : Layout}
    (hl : Reservation.layout? τ count align = some l) (hfit : w.grantEnd l ≤ heapEnd)
    (ha : align.toNat ∣ 16 ∨ 16 ∣ align.toNat) (traced : Bool) {cells : Runs Cell}
    (hc : cells.length = count.toNat * τ.layout.size) :
    let b : Block :=
      ⟨UInt64.ofNat (w.grantBase l), l.nonempty,
        Reservation.payloadAt τ (UInt64.ofNat (w.grantBase l)) align, cells.length, count,
        .elements τ, traced⟩
    let w' := { w with
      nextFree := w.grantEnd l
      memory := w.memory.place b.payload (room cells)
      heap := w.heap.register b }
    w.Follows past w' ∧ w'.Holds (w'.heap.blocks ++ past) τ b.payload count.toNat ∧
      Frames.extent.contains b.payload = false := by
  intro b w'
  obtain ⟨hsize, halign⟩ := Reservation.layout?_eq_some hl
  have hmod : w.grantBase l % 16 = 0 := w.grantBase_mod (halign ▸ τ.align_dvd)
  have hend : w.grantBase l + max l.size 1 + 16 ≤ 2 ^ 46 + 2 ^ 45 := hfit
  obtain ⟨hpay, hlo, hhi⟩ := Reservation.payloadAt_of_mod τ hmod (by omega) ha
  have hf : w.Follows past w' := World.Follows.record h (b := b) hfit hlo
    (by simp only [b, hc]; omega) rfl ⟨τ.mod_align_of_mod hpay, hc⟩ (fun _ _ hs => by cases hs)
  have hb : b ∈ w'.heap.blocks ++ past :=
    List.mem_append_left _ (HeapTable.mem_register_self _ _)
  exact ⟨hf, World.Holds.of_elements hf.sound hb rfl, hf.sound.payload_offStack hb⟩

theorem ElemType.length_replicate (τ : ElemType) (count : UInt64) (x : τ.Carrier) :
    (τ.replicate count x).length = count.toNat * τ.layout.size := by
  unfold replicate
  rw [length_encodeRuns, Runs.length_replicate]

/-- Run from `w`, an operation leaves a state that follows, and what it gives is `good` there. -/
def Operation.Preserves {α : Type} (past : List Block) (a : Operation α) (w : World)
    (good : α → List Block → World → Prop) : Prop :=
  Ensures a w (fun x w' => w.Follows past w' ∧ good x (w'.heap.blocks ++ past) w')
    (fun _ w' => w.Follows past w')

/-- An array pointer whose whole extent is held, off the stack. -/
def ArrayPtr.Held (p : ArrayPtr τ) (past : List Block) (w : World) : Prop :=
  w.Holds past τ p.span.base p.span.extent.toNat ∧ Frames.extent.contains p.span.base = false

/-- A pointer to the first of `count` elements that are held. -/
def ArrayPtr.Fresh (count : UInt64) (p : ArrayPtr τ) (past : List Block) (w : World) : Prop :=
  p.span.index = 0 ∧ p.span.extent = count ∧ p.Held past w

/-- An object pointer whose object is held, off the stack. -/
def Ptr.Held (p : Ptr τ) (past : List Block) (w : World) : Prop :=
  w.Holds past τ p.address 1 ∧ Frames.extent.contains p.address = false

namespace Operation

theorem Preserves.map {α β : Type} {a : Operation α} {f : α → β}
    {good : α → List Block → World → Prop} {good' : β → List Block → World → Prop}
    (h : Preserves past a w good) (hg : ∀ x past w, good x past w → good' (f x) past w) :
    Preserves past (f <$> a) w good' :=
  ensures_map (h.mono (fun _ _ hx => ⟨hx.1, hg _ _ _ hx.2⟩) fun _ _ hf => hf)

/-- **An array of elements, whatever they are**: room for them is reserved, filled and recorded. -/
theorem preserves_elements (h : w.Sound past) {count align : UInt64} (traced : Bool)
    {cells : Runs Cell} (ha : align.toNat ∣ 16 ∨ 16 ∣ align.toNat)
    (hc : cells.length = count.toNat * τ.layout.size) :
    Preserves past
      (do
        let r ← reserve τ count align
        record r (.elements τ) count traced cells
        return (ArrayPtr.ofBase r.payload count : ArrayPtr τ)) w (ArrayPtr.Fresh count) := by
  refine ensures_bind ((ensures_reserve τ count align).mono ?_ ?_)
  · rintro r w₁ ⟨l, hl, rfl, hfit, rfl⟩
    obtain ⟨hf, hheld⟩ := h.record_elements hl hfit ha traced hc
    exact ensures_bind (ensures_modify (ensures_pure ⟨hf, rfl, rfl, hheld⟩))
  · rintro f w₁ ⟨rfl, -⟩
    exact World.Follows.refl h

/-- **A block that starts where its memory does**: it is requested, filled and recorded. -/
theorem preserves_request {α : Type} (h : w.Sound past) {l : Layout} {stored : Stored}
    {count : UInt64} {traced : Bool} {cells : Runs Cell} {give : Address → α}
    {good : α → List Block → World → Prop} (hl : l.align ∣ 16) (hc : cells.length ≤ l.size)
    (hshape : ∀ a : Address, a.toNat % 16 = 0 →
      (⟨a, l.nonempty, a, cells.length, count, stored, traced⟩ : Block).Shaped)
    (hlen : ∀ a : Address,
      (⟨a, l.nonempty, a, cells.length, count, stored, traced⟩ : Block).LengthIn cells)
    (hgood : ∀ a past w, w.Sound past →
      ⟨a, l.nonempty, a, cells.length, count, stored, traced⟩ ∈ past → good (give a) past w) :
    Preserves past
      (do
        let base ← requestMemory l
        record ⟨base, l.nonempty, base⟩ stored count traced cells
        return give base) w good := by
  refine ensures_bind ((ensures_requestMemory l).mono ?_ ?_)
  · rintro a w₁ ⟨rfl, hfit, rfl⟩
    refine ensures_bind (ensures_modify (ensures_pure ?_))
    have hbase := World.toNat_grantBase hfit
    have hmod : (UInt64.ofNat (w.grantBase l)).toNat % 16 = 0 := by
      rw [hbase]
      exact w.grantBase_mod hl
    have hf := World.Follows.record h
      (b := ⟨UInt64.ofNat (w.grantBase l), l.nonempty, UInt64.ofNat (w.grantBase l),
        cells.length, count, stored, traced⟩)
      hfit (Nat.le_of_eq hbase.symm) (by simp only [hbase]; omega) rfl (hshape _ hmod) (hlen _)
    exact ⟨hf, hgood _ _ _ hf.sound (List.mem_append_left _ (HeapTable.mem_register_self _ _))⟩
  · rintro f w₁ ⟨-, rfl⟩
    exact World.Follows.refl h

end Operation

/-! ## 4. The constructors of arrays and objects -/

namespace ArrayPtr

theorem preserves_newAt (h : w.Sound past) (count : UInt64) {align : UInt64} (traced : Bool)
    (ha : align.toNat ∣ 16 ∨ 16 ∣ align.toNat) :
    Preserves past (newAt τ count align traced) w (Fresh count) :=
  preserves_elements h traced ha (τ.length_replicate count τ.default)

theorem align_ok (τ : ElemType) : τ.align.toNat ∣ 16 ∨ 16 ∣ τ.align.toNat := by
  rw [ElemType.toNat_align]
  exact .inl τ.align_dvd

theorem preserves_new (h : w.Sound past) (count : UInt64) (traced : Bool) :
    Preserves past (new τ count traced) w (Fresh count) :=
  preserves_newAt h count traced (align_ok τ)

/-- A list of values has a length that the word can hold. -/
theorem preserves_ofList (h : w.Sound past) {xs : List τ.Carrier} (hxs : xs.length < 2 ^ 64) :
    Preserves past (ofList τ xs) w (Fresh (UInt64.ofNat xs.length)) := by
  refine preserves_elements h false (align_ok τ) ?_
  rw [Runs.length_ofList, ElemType.length_encodeAll, Word.toNat_ofNat hxs]

theorem preserves_filled (h : w.Sound past) (count : UInt64) (x : τ.Carrier) :
    Preserves past (filled τ count x) w (Fresh count) := by
  unfold filled
  refine ensures_bind (ensures_modify ?_)
  have hlog := World.Follows.log h (w.dropLog ++ .ofList (τ.dropMarks x))
  have := preserves_elements (h.log (w.dropLog ++ .ofList (τ.dropMarks x))) false (align_ok τ)
    (τ.length_replicate count x)
  exact this.mono (fun p w' hp => ⟨hlog.trans hp.1, hp.2⟩) fun f w' hf => hlog.trans hf

theorem preserves_zeroed (h : w.Sound past) (count : UInt64) :
    Preserves past (zeroed τ count) w (Fresh count) :=
  preserves_elements h false (align_ok τ) (Runs.length_replicate _ _)

theorem preserves_aligned (h : w.Sound past) (count align : UInt64) :
    Preserves past (aligned τ count align) w (Fresh count) := by
  refine ensures_bind (ensures_require ?_ fun _ => World.Follows.refl h)
  intro hp
  exact preserves_newAt h count false (Word.dvd_of_isPowerOfTwo hp)

end ArrayPtr

namespace Ptr

theorem preserves_newCells (h : w.Sound past) (traced : Bool) {cells : Runs Cell}
    (hc : cells.length = τ.layout.size) :
    Preserves past (newCells τ traced cells) w Ptr.Held := by
  refine preserves_request h τ.align_dvd (Nat.le_of_eq hc) ?_ ?_ ?_
  · intro a ha
    refine ⟨τ.mod_align_of_mod ha, ?_⟩
    simp only [hc, show (1 : UInt64).toNat = 1 from rfl, Nat.one_mul]
  · intro a _ _ hs
    cases hs
  · intro a past w hw hb
    exact ⟨World.Holds.of_elements hw hb rfl, hw.payload_offStack hb⟩

theorem preserves_new (h : w.Sound past) (x : τ.Carrier) (traced : Bool) :
    Preserves past (new τ x traced) w Ptr.Held :=
  preserves_newCells h traced (by rw [Runs.length_ofList, ElemType.length_encode])

theorem preserves_zeroed (h : w.Sound past) : Preserves past (zeroed τ) w Ptr.Held := by
  refine preserves_newCells h false ?_
  unfold ElemType.zeroed
  rw [Runs.length_replicate, show (1 : UInt64).toNat = 1 from rfl, Nat.one_mul]

end Ptr

/-- A matrix whose cells are held, and whose size the word can hold. -/
def Matrix.Held (m : Matrix τ) (past : List Block) (w : World) : Prop :=
  m.xExtent.toNat * m.yExtent.toNat < 2 ^ 64 ∧
    w.Holds past τ m.base (m.xExtent.toNat * m.yExtent.toNat)

theorem Matrix.preserves_new (h : w.Sound past) (x y : UInt64) :
    Preserves past (Matrix.new τ x y) w fun m past w =>
      m.Held past w ∧ Frames.extent.contains m.base = false := by
  by_cases hzero : x = 0 ∨ y = 0
  · simp only [Matrix.new, if_pos hzero]
    exact ensures_bind (ensures_throw (World.Follows.refl h))
  · simp only [Matrix.new, if_neg hzero]
    refine ensures_bind (ensures_pure ?_)
    cases hmul : Word.mul? x y with
    | none => exact ensures_stop (World.Follows.refl h)
    | some count =>
      obtain ⟨hlt, hcount⟩ := Word.mul?_eq_some_iff.mp hmul
      refine ensures_bind ((ArrayPtr.preserves_new h count false).mono ?_ fun _ _ hf => hf)
      rintro p w' ⟨hf, -, hextent, hp, hoff⟩
      refine ensures_pure ⟨hf, ⟨hlt, ?_⟩, hoff⟩
      rw [← hcount, ← hextent]
      exact hp

/-! ## 5. Records -/

/-- A record that is a block of the past. -/
def TailedPtr.Held (p : TailedPtr σ τ) (past : List Block) (_ : World) : Prop :=
  ∃ b ∈ past, b.payload = p.address ∧ b.stored = .tailed σ τ

namespace TailedPtr

/-- The length word of a fresh record is where it is looked for. -/
theorem lengthIn_cells (σ τ : ElemType) (size : Nat) (x : σ.Carrier) (count : UInt64) :
    ((cells σ τ size x count).toList.drop (Layout.Tailed.lengthOffset σ.layout)).take 8 =
      ElemType.encode .uint64 count := by
  have hle := Layout.Tailed.size_le_lengthOffset σ.layout
  have hfront : (σ.encode x ++ List.replicate
      (Layout.Tailed.lengthOffset σ.layout - σ.layout.size) (Cell.byte 0)).length =
        Layout.Tailed.lengthOffset σ.layout := by
    rw [List.length_append, ElemType.length_encode, List.length_replicate]
    omega
  simp only [cells, Runs.toList_append, Runs.toList_ofList, Runs.toList_replicate,
    Runs.length_ofList, ElemType.length_encode, List.append_assoc]
  rw [← List.append_assoc (σ.encode x), List.drop_left' hfront]
  exact List.take_left' (ElemType.length_encode .uint64 count)

theorem length_cells (σ τ : ElemType) {size : Nat} (x : σ.Carrier) (count : UInt64)
    (hsize : Layout.Tailed.tailOffset σ.layout τ.layout + count.toNat * τ.layout.size ≤ size) :
    (cells σ τ size x count).length = size := by
  have hhead := Layout.Tailed.size_le_lengthOffset σ.layout
  have htail := Layout.Tailed.lengthOffset_le_tailOffset σ.layout τ.layout
  have h8 : ElemType.layout .uint64 = ⟨8, 8⟩ := rfl
  simp only [cells, Runs.length_append, Runs.length_ofList, Runs.length_replicate,
    ElemType.length_encode, ElemType.length_replicate, h8]
  omega

theorem layout?_eq_some {count : Nat} {l : Layout}
    (h : Layout.Tailed.layout? σ.layout τ.layout count = some l) :
    l.align ∣ 16 ∧ Layout.Tailed.leastSize σ.layout τ.layout ≤ l.size ∧
      Layout.Tailed.tailOffset σ.layout τ.layout + count * τ.layout.size ≤ l.size := by
  have halign : Layout.Tailed.align σ.layout τ.layout ∣ 16 :=
    Word.max_dvd σ.align_dvd (Word.max_dvd (by decide) τ.align_dvd)
  unfold Layout.Tailed.layout? at h
  obtain ⟨l', hmake, rfl⟩ := Option.map_eq_some_iff.mp h
  unfold Layout.make? at hmake
  split at hmake
  · cases hmake
    simp only [Layout.padded, Layout.Tailed.leastSize]
    refine ⟨halign, Nat.le_trans ?_ (Word.le_roundUp _), Nat.le_trans ?_ (Word.le_roundUp _)⟩
    · omega
    · omega
  · cases hmake

theorem preserves_new (h : w.Sound past) (count : UInt64) (x : σ.Carrier) :
    Preserves past (TailedPtr.new σ τ count x) w TailedPtr.Held := by
  have hdrop := World.Follows.log h (w.dropLog ++ .ofList (σ.dropMarks x))
  by_cases hzero : count = 0
  · simp only [TailedPtr.new, if_pos hzero]
    exact ensures_bind (ensures_modify (ensures_bind (ensures_throw hdrop)))
  · simp only [TailedPtr.new, if_neg hzero]
    refine ensures_bind (ensures_pure ?_)
    cases hl : Layout.Tailed.layout? σ.layout τ.layout count.toNat with
    | none => exact ensures_bind (ensures_modify (ensures_stop hdrop))
    | some l =>
      obtain ⟨halign, hleast, hsize⟩ := layout?_eq_some hl
      have hlen := length_cells σ τ x count hsize
      refine preserves_request h halign (Nat.le_of_eq hlen) ?_ ?_ ?_
      · intro a ha
        exact ⟨ha, by rw [hlen]; exact hleast, by rw [hlen]; exact hsize⟩
      · intro a ρ υ hs
        cases hs
        rw [lengthIn_cells, ElemType.decode_encode]
      · intro a past w _ hb
        exact ⟨_, hb, rfl, rfl⟩

end TailedPtr

/-! ## 6. Storage that is no block -/

/-- `n` cells at `a` are an area of their own, and no block's. -/
def World.Houses (past : List Block) (w : World) (a : Address) (n : Nat) : Prop :=
  a.toNat % 16 = 0 ∧ ⟨a, n⟩ ∈ w.memory.plots ∧ ∀ b ∈ past, b.payload ≠ a

theorem World.Houses.holds {a : Address} {n m : Nat} (h : w.Houses past a n)
    (hm : m * τ.layout.size ≤ n) : w.Holds past τ a m :=
  World.Holds.of_plain h.2.1 h.2.2 h.1 hm

/-- As many values as were put there are held, however their number is written as a word. -/
theorem World.Houses.holds_encodeAll {a : Address} {xs : List τ.Carrier}
    (h : w.Houses past a (τ.encodeAll xs).length) :
    w.Holds past τ a (UInt64.ofNat xs.length).toNat := by
  refine h.holds ?_
  rw [ElemType.length_encodeAll]
  refine Nat.mul_le_mul_right _ ?_
  rw [UInt64.toNat_ofNat']
  exact Nat.mod_le _ _

namespace Operation

/-- Static storage is an area that the system allocator gives, or there is none. -/
theorem ensures_placeStatic (l : Layout) (cells : Runs Cell) :
    Ensures (placeStatic l cells) w
      (fun a w' => a = UInt64.ofNat (w.grantBase l) ∧ w.grantEnd l ≤ World.heapEnd ∧
        w' = { w with nextFree := w.grantEnd l, memory := w.memory.place a cells })
      (fun _ w' => w' = w) := by
  refine ensures_bind ((ensures_requestMemory l).mono ?_ fun _ _ hf => hf.2)
  rintro a w₁ ⟨rfl, hfit, rfl⟩
  exact ensures_bind (ensures_modify (ensures_pure ⟨rfl, hfit, rfl⟩))

theorem preserves_placeStatic (h : w.Sound past) (l : Layout) (cells : Runs Cell)
    (hl : l.align ∣ 16) (hc : cells.length ≤ l.size) :
    Preserves past (placeStatic l cells) w fun a past w =>
      w.Houses past a cells.length ∧ Frames.extent.contains a = false := by
  refine (ensures_placeStatic l cells).mono ?_ ?_
  · rintro a w₁ ⟨rfl, hfit, rfl⟩
    have hbase := World.toNat_grantBase hfit
    have hfree := w.nextFree_le_grantBase l
    have hgrant : w.grantEnd l = w.grantBase l + max l.size 1 + 16 := rfl
    have hheap : Plot.OnHeap (w.grantEnd l) ⟨UInt64.ofNat (w.grantBase l), cells.length⟩ := by
      have := h.heapStart_le
      exact ⟨by simp only [hbase]; omega, by simp only [Plot.stop, hbase]; omega⟩
    have hap := h.apart_of_nextFree_le (q := ⟨UInt64.ofNat (w.grantBase l), cells.length⟩)
      (by simp only [hbase]; omega) (by have := hheap.2; omega)
    have hplaced := h.place hap (.inl hheap) (by omega) hfit (Nat.le_refl _) h.used_le h.used_mod
      h.windowed
    refine ⟨⟨hplaced.keep, fun r hr => List.mem_cons_of_mem _ hr, fun b hb => .inl hb,
      by simp only; omega, rfl⟩, ⟨?_, List.mem_cons_self, ?_⟩, ?_⟩
    · rw [hbase]
      exact w.grantBase_mod hl
    · intro b hb he
      have hpast : b ∈ past := by
        rcases List.mem_append.mp hb with hb' | hb'
        · exact h.live b hb'
        · exact hb'
      have := (h.onHeap b hpast).2
      simp only [Block.plot, Plot.stop, he, hbase] at this
      omega
    · simp only [World.heapEnd] at hfit
      exact Frames.not_contains_of_lt (by omega)
  · rintro f w₁ rfl
    exact World.Follows.refl h

/-- What a frame hands out lies in its window, past all that was handed out before. -/
theorem reserve?_eq_some {f f' : Frames} {n : Nat} {a : Address}
    (h : f.reserve? n = some (a, f')) (hf : f.pointer.toNat + Frames.windowSize ≤ Frames.top) :
    a.toNat = f.pointer.toNat + f.used ∧ f'.pointers = f.pointers ∧ f.used + n < f'.used ∧
      f'.used ≤ Frames.windowSize ∧ f'.used % 16 = 0 := by
  unfold Frames.reserve? at h
  simp only at h
  split at h
  · rename_i hfit
    cases h
    have hle : f.used + n + 1 ≤ Word.roundUp (f.used + n + 1) 16 := Word.le_roundUp _
    simp only [Frames.windowSize, Frames.top] at hf
    simp only [Frames.windowSize] at hfit
    exact ⟨Word.toNat_ofNat (by omega), rfl, by simp only; omega, hfit,
      Word.roundUp_mod (f.used + n + 1) 16 (by decide)⟩
  · cases h

/-- Storage of the current frame is apart from all storage there is: the heap and the windows of
other frames are elsewhere, and what the frame handed out before ends below. -/
theorem apart_of_reserve? (h : w.Sound past) {q : Plot} {used : Nat}
    (hbase : q.base.toNat = w.frames.pointer.toNat + w.frames.used)
    (hstop : q.stop < w.frames.pointer.toNat + used) (hused : used ≤ Frames.windowSize) :
    ∀ r ∈ w.memory.plots, q.Apart r := by
  intro r hr
  have hd := h.windowed.depth_lt
  have hwin := h.used_le
  simp only [Frames.windowCount] at hd
  simp only [Frames.windowSize] at hused hwin
  rw [h.windowed.pointer_eq, Frames.toNat_pointerAt] at hbase hstop
  rcases h.sited r hr with hs | ⟨d, hd', hlo, hhi⟩
  · have := hs.stop_lt h.le_heapEnd
    exact .inr (by omega)
  · rw [Frames.toNat_pointerAt] at hlo hhi
    simp only [Frames.windowCount] at hd'
    rcases Nat.lt_trichotomy d w.frames.depth with hlt | heq | hgt
    · exact .inl (by omega)
    · rw [heq] at hhi
      exact .inr (by omega)
    · exact .inr (by omega)

/-- Storage of a frame is an area that the frame hands out, or there is none. -/
theorem ensures_placeLocal (cells : Runs Cell) :
    Ensures (placeLocal cells) w
      (fun a w' => ∃ f, w.frames.reserve? cells.length = some (a, f) ∧
        w' = { w with frames := f, memory := w.memory.place a cells })
      (fun _ w' => w' = w) := by
  unfold placeLocal
  refine ensures_bind (ensures_get ?_)
  cases hr : w.frames.reserve? cells.length with
  | none => exact ensures_throw rfl
  | some x => exact ensures_bind (ensures_modify (ensures_pure ⟨x.2, rfl, rfl⟩))

theorem preserves_placeLocal (h : w.Sound past) (cells : Runs Cell) :
    Preserves past (placeLocal cells) w fun a past w =>
      w.Houses past a cells.length ∧ w.frames.pointer.toNat ≤ a.toNat := by
  refine (ensures_placeLocal cells).mono ?_ ?_
  · rintro a w₁ ⟨f, hr, rfl⟩
    obtain ⟨haddr, hpointers, hused, hwin, hmod⟩ := reserve?_eq_some hr h.windowed.pointer_add_le
    have hptr : f.pointer = w.frames.pointer := (List.cons.inj hpointers).1
    have hdepth := h.windowed.depth_lt
    have hwindow := h.windowed.pointer_eq
    have hstack : Plot.OnStack f.used ⟨a, cells.length⟩ := by
      refine ⟨w.frames.depth, hdepth, ?_, ?_⟩
      · simp only [haddr, hwindow]
        omega
      · simp only [Plot.stop, haddr, hwindow]
        omega
    have hstop : Plot.stop ⟨a, cells.length⟩ < w.frames.pointer.toNat + f.used := by
      simp only [Plot.stop, haddr]
      omega
    have hap := apart_of_reserve? h (q := ⟨a, cells.length⟩) haddr hstop hwin
    have hplaced := h.place hap (.inr hstack) (Nat.le_refl _) h.le_heapEnd (by omega) hwin hmod
      (h.windowed.congr hpointers)
    refine ⟨⟨hplaced.keep, fun r hr => List.mem_cons_of_mem _ hr, fun b hb => .inl hb,
      Nat.le_refl _, hpointers⟩, ⟨?_, List.mem_cons_self, ?_⟩, ?_⟩
    · have := h.used_mod
      rw [haddr, hwindow, Frames.toNat_pointerAt]
      simp only [Frames.windowCount] at hdepth
      omega
    · intro b hb he
      have hpast : b ∈ past := by
        rcases List.mem_append.mp hb with hb' | hb'
        · exact h.live b hb'
        · exact hb'
      have hlow := h.payload_add_lt hpast
      have := hstack.le_base
      rw [he] at hlow
      simp only at this
      omega
    · simp only [hptr, haddr]
      omega
  · rintro f w₁ rfl
    exact World.Follows.refl h

end Operation

/-! ## 7. Static arrays, arrays of frames and fixed arrays -/

/-- A fixed array whose elements are held. -/
def FixedArray.Held (x : FixedArray τ) (past : List Block) (w : World) : Prop :=
  w.Holds past τ x.base x.length.toNat

/-- A global array whose elements are held. -/
def GlobalArray.Held (x : GlobalArray τ) (past : List Block) (w : World) : Prop :=
  w.Holds past τ x.base x.length.toNat

/-- A stack-scoped array pointer whose whole extent is held. -/
def StackArrayPtr.Held (p : StackArrayPtr τ) (past : List Block) (w : World) : Prop :=
  w.Holds past τ p.span.base p.span.extent.toNat

theorem ArrayPtr.preserves_newStatic (h : w.Sound past) (xs : List τ.Carrier) :
    Preserves past (ArrayPtr.newStatic τ xs) w ArrayPtr.Held := by
  have hplace := preserves_placeStatic h ⟨(τ.encodeAll xs).length, τ.layout.align⟩
    (.ofList (τ.encodeAll xs)) τ.align_dvd (Nat.le_of_eq (Runs.length_ofList _))
  simp only [ArrayPtr.newStatic, Runs.length_ofList]
  refine ensures_bind (hplace.mono ?_ fun _ _ hf => hf)
  rintro a w' ⟨hf, ha, hoff⟩
  rw [Runs.length_ofList] at ha
  exact ensures_pure ⟨hf, ha.holds_encodeAll, hoff⟩

theorem Ptr.preserves_newStatic (h : w.Sound past) (x : τ.Carrier) :
    Preserves past (Ptr.newStatic τ x) w Ptr.Held := by
  have hlen : (Runs.ofList (τ.encode x)).length = τ.layout.size := by
    rw [Runs.length_ofList, ElemType.length_encode]
  refine ensures_bind ((preserves_placeStatic h _ _ τ.align_dvd (Nat.le_of_eq hlen)).mono ?_
    fun _ _ hf => hf)
  rintro a w' ⟨hf, ha, hoff⟩
  exact ensures_pure ⟨hf, ha.holds (Nat.le_of_eq (by rw [hlen, Nat.one_mul])), hoff⟩

theorem GlobalArray.preserves_new (h : w.Sound past) (xs : List τ.Carrier) :
    Preserves past (GlobalArray.new τ xs) w fun x past w =>
      x.Held past w ∧ Frames.extent.contains x.base = false :=
  ensures_bind ((ArrayPtr.preserves_newStatic h xs).mono (fun _ _ hp => ensures_pure hp)
    fun _ _ hf => hf)

/-- A local array is held, and lies at or above the stack pointer of its frame. -/
theorem StackArrayPtr.preserves_newLocal (h : w.Sound past) (xs : List τ.Carrier) :
    Preserves past (StackArrayPtr.newLocal τ xs) w fun p past w =>
      p.Held past w ∧ p.bound = w.frames.captureFor p.span.base ∧
        w.frames.pointer.toNat ≤ p.span.base.toNat := by
  refine ensures_bind ((preserves_placeLocal h _).mono ?_ fun _ _ hf => hf)
  rintro a w' ⟨hf, ha, hptr⟩
  rw [Runs.length_ofList] at ha
  exact ensures_bind (ensures_bind (ensures_get (ensures_pure (ensures_pure
    ⟨hf, ha.holds_encodeAll, rfl, hptr⟩))))

theorem FixedArray.preserves_newLocal (h : w.Sound past) (xs : List τ.Carrier) :
    Preserves past (FixedArray.newLocal τ xs) w FixedArray.Held := by
  refine ensures_bind ((preserves_placeLocal h _).mono ?_ fun _ _ hf => hf)
  rintro a w' ⟨hf, ha, -⟩
  rw [Runs.length_ofList] at ha
  exact ensures_pure ⟨hf, ha.holds_encodeAll⟩

theorem FixedArray.preserves_newHeap (h : w.Sound past) (xs : List τ.Carrier) :
    Preserves past (FixedArray.newHeap τ xs) w FixedArray.Held := by
  refine preserves_request h τ.align_dvd (Nat.le_refl _) ?_ ?_ ?_
  · intro a ha
    refine ⟨τ.mod_align_of_mod ha, rfl, ?_⟩
    rw [Runs.length_ofList, ElemType.length_encodeAll]
  · intro a _ _ hs
    cases hs
  · intro a past w hw hb
    refine World.Holds.of_fixed hw hb rfl ?_
    rw [UInt64.toNat_ofNat']
    exact Nat.mod_le _ _

end CheckedMemory
