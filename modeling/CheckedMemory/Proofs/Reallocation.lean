import CheckedMemory.Proofs.Disposal
import CheckedMemory.Proofs.Marking
import CheckedMemory.Proofs.Routes

/-!
# What a resize gives

A resize goes by what the table has recorded, not by the handle that it is given: the number of
elements that are kept, dropped or made is the recorded count against the new one, and the handle
only names the start of the block.  So any handle with the base of a live block of its own type will
do, wherever it stands and however long it claims to be.

Such a resize succeeds exactly if the system allocator has room for the new count
(`World.Admits`), and `World.Reallocated` says what it leaves: a block that was never there before,
with the old elements in front and defaults behind, in the place of the old one.

Main statement: `Program.resize_reallocates`.
-/

namespace CheckedMemory

open Operation

variable {past : List Block} {w w' : World} {b c : Block} {a : Address} {τ : ElemType}
  {count : UInt64}

/-! ## 1. Room for the new block -/

/-- The layout of so many elements one after the other. -/
def ElemType.arrayLayout (τ : ElemType) (count : UInt64) : Layout :=
  ⟨count.toNat * τ.layout.size, τ.layout.align⟩

/-- The system allocator has room left for so many elements. -/
def World.Admits (w : World) (τ : ElemType) (count : UInt64) : Prop :=
  w.grantEnd (τ.arrayLayout count) ≤ heapEnd

instance (w : World) (τ : ElemType) (count : UInt64) : Decidable (w.Admits τ count) :=
  inferInstanceAs (Decidable (_ ≤ _))

/-- At their own alignment elements need no bytes to spare, and their size is a multiple of it. -/
theorem Reservation.layout?_natural (τ : ElemType) (count : UInt64) :
    layout? τ count τ.align = if (τ.arrayLayout count).size ≤ Layout.maxSize then
      some (τ.arrayLayout count) else none := by
  have hpad : padding τ.align τ.align = 0 := if_neg (UInt64.lt_irrefl _)
  have hdvd : τ.layout.align ∣ count.toNat * τ.layout.size :=
    Nat.dvd_mul_left_of_dvd (Nat.dvd_of_mod_eq_zero τ.size_mod_align) _
  unfold layout? Layout.array? Layout.make?
  rw [hpad, Nat.add_zero, Word.roundUp_of_dvd hdvd]
  rfl

/-- Where there is room, the request is not too large for any memory. -/
theorem World.admits_iff : w.Admits τ count ↔
    ∃ l, Reservation.layout? τ count τ.align = some l ∧ w.grantEnd l ≤ heapEnd := by
  rw [Reservation.layout?_natural]
  constructor
  · intro h
    have hsize : (τ.arrayLayout count).size ≤ Layout.maxSize := by
      unfold Admits grantEnd Layout.nonempty at h
      simp only [heapEnd] at h
      simp only [Layout.maxSize]
      omega
    exact ⟨_, if_pos hsize, h⟩
  · rintro ⟨l, hl, hfit⟩
    split at hl
    · cases hl
      exact hfit
    · cases hl

/-! ## 2. The run of a resize -/

namespace ArrayPtr

variable {p q : ArrayPtr τ}

/-- A pointer with the base of a live block of its own type owns it. -/
theorem ownsBlock_of_mem (h : w.Sound past) (hb : b ∈ w.heap.blocks) (hs : b.stored = .elements τ)
    (hp : p.span.base = b.payload) : p.ownsBlock w = true := by
  have hin : b.contains b.payload = true := Block.contains_iff.mpr ⟨Nat.le_refl _, .inr rfl⟩
  unfold ownsBlock
  rw [hp, h.containing?_iff.mpr ⟨hb, hin⟩]
  simp [hs]

theorem isNull_of_mem (h : w.Sound past) (hb : b ∈ w.heap.blocks) (hp : p.span.base = b.payload) :
    p.span.isNull = false := by
  have hne := h.payload_ne_zero (h.live b hb)
  rw [← hp] at hne
  simpa [Span.isNull] using hne

/-- **A resize succeeds where there is room**, and what it does is known: it depends on the block
alone and not on the pointer's index and extent. -/
theorem exists_outcome_resize (h : w.Sound past) (hb : b ∈ w.heap.blocks)
    (hs : b.stored = .elements τ) (hp : p.span.base = b.payload) (hroom : w.Admits τ count) :
    ∃ c t w', outcome (p.resize count) w = (.ok (ofBase c.payload count), w') ∧
      w.Resized past τ b count c w' ∧ c.bytes = count.toNat * τ.layout.size ∧
      c.traced = b.traced ∧ w.heap.take? b.payload = some (b, t) ∧ w'.heap = t.register c := by
  obtain ⟨t, ht⟩ := h.settled.exists_take? hb
  obtain ⟨old, m, hread, hwrite, -, -⟩ := h.exists_poison ht
  rcases outcome_resize_cases (isNull_of_mem h hb hp) (ownsBlock_of_mem h hb hs hp) hp.symm ht hread
    hwrite count with ⟨l, hl, hfit, ho⟩ | ⟨hno, -⟩
  · exact ⟨_, t, _, ho, h.resized hb hs ht hread hwrite hl hfit,
      length_resizedCells (h.length_of_elements (h.live b hb) hs hread), rfl, ht, rfl⟩
  · exact absurd (World.admits_iff.mp hroom) hno

/-- A resize that succeeds has found room. -/
theorem admits_of_outcome_resize (h : w.Sound past) (hb : b ∈ w.heap.blocks)
    (hs : b.stored = .elements τ) (hp : p.span.base = b.payload)
    (ho : outcome (p.resize count) w = (.ok q, w')) : w.Admits τ count := by
  obtain ⟨t, ht⟩ := h.settled.exists_take? hb
  obtain ⟨old, m, hread, hwrite, -, -⟩ := h.exists_poison ht
  rcases outcome_resize_cases (isNull_of_mem h hb hp) (ownsBlock_of_mem h hb hs hp) hp.symm ht hread
    hwrite count with ⟨l, hl, hfit, -⟩ | ⟨-, f, hfail⟩
  · exact World.admits_iff.mpr ⟨l, hl, hfit⟩
  · rw [ho] at hfail
    cases hfail

end ArrayPtr

/-! ## 3. What is left -/

/-- The values of a block of elements are the elements from its payload on. -/
theorem World.values_of_elements (hs : b.stored = .elements τ)
    (hbytes : b.bytes = b.count.toNat * τ.layout.size) :
    w.values b = (w.elements τ b.payload b.count.toNat).map (AnyValue.mk τ) := by
  rw [values, hs, elements, hbytes]
  rfl

theorem AnyValue.mk_injective (τ : ElemType) : Function.Injective (AnyValue.mk τ) := by
  intro x y h
  cases h
  rfl

/-- A read of a whole array from its start gives its elements. -/
theorem ArrayPtr.outcome_toList_ofBase (h : w.Sound past) (ha : w.Holds past τ a count.toNat)
    (hne : a ≠ 0) : outcome (ArrayLike.toList (ArrayPtr.ofBase a count : ArrayPtr τ)) w =
      (.ok (w.elements τ a count.toNat), w) := by
  have hr : ArrayLike.remaining (ArrayPtr.ofBase a count : ArrayPtr τ) = .ok count :=
    Span.remaining_eq_ok_iff.mpr ⟨hne, Int.le_refl _, Int.zero_add _⟩
  have haddr : ArrayLike.address (ArrayPtr.ofBase a count : ArrayPtr τ) = a := by
    change a + 0 * τ.size = a
    rw [UInt64.zero_mul, UInt64.add_zero]
  have hread := ArrayLike.outcome_toList h (.inr ha) hr
  rwa [haddr] at hread

/-- `w'` is what the resize of block `b`, of elements of one type, to `count` of them leaves of `w`;
`q` is the handle that it gives and `c` the block that it is on. -/
structure World.Reallocated (past : List Block) (b c : Block) (count : UInt64) (q : ArrayPtr τ)
    (w w' : World) : Prop where
  /-- The handle is at the first of `count` elements. -/
  handle : q = ArrayPtr.ofBase c.payload count
  live : c ∈ w'.heap.blocks
  recorded : c.stored = .elements τ ∧ c.count = count ∧ c.bytes = count.toNat * τ.layout.size ∧
    c.traced = b.traced
  /-- No block ever started where it does. -/
  fresh : ∀ d ∈ past, d.payload ≠ c.payload
  /-- The elements in front are the old ones, as many as there are and are asked for, and those
  behind are defaults. -/
  contents : ∃ old : List τ.Carrier, old.length = b.count.toNat ∧
    outcome (ArrayLike.toList (ArrayPtr.ofBase b.payload b.count : ArrayPtr τ)) w = (.ok old, w) ∧
    outcome (ArrayLike.toList q) w' =
      (.ok (old.take count.toNat ++ List.replicate (count.toNat - old.length) τ.default), w')
  retired : w'.heap.isLive b.payload = false
  /-- Every other block stays in the table, with the cells that it had, and no more blocks are
  there. -/
  others : (∀ d, d ∈ w'.heap.blocks ↔ d = c ∨ d ∈ w.heap.blocks ∧ d ≠ b) ∧
    ∀ d ∈ w.heap.blocks, d ≠ b →
      w'.memory.cells d.payload d.bytes = w.memory.cells d.payload d.bytes
  counted : w'.heap.stats.allocations = w.heap.stats.allocations + 1 ∧
    w'.heap.stats.frees = w.heap.stats.frees + 1 ∧
    w'.heap.stats.liveBlocks = w.heap.stats.liveBlocks ∧
    (w'.heap.stats.liveBytes : Int) = w.heap.stats.liveBytes +
      ((count.toNat : Int) - b.count.toNat) * τ.layout.size

namespace World.Resized

/-- The elements of the new block are the old ones in front, and defaults. -/
theorem elements (hr : w.Resized past τ b count c w') (hs : b.stored = .elements τ)
    (hbytes : b.bytes = b.count.toNat * τ.layout.size)
    (hcbytes : c.bytes = count.toNat * τ.layout.size) :
    w'.elements τ c.payload count.toNat =
      (w.elements τ b.payload b.count.toNat).take count.toNat ++
        List.replicate (count.toNat - b.count.toNat) τ.default := by
  obtain ⟨hstored, hcount⟩ := hr.recorded
  have hmoved := hr.moved
  rw [values_of_elements hs hbytes, values_of_elements hstored (by rw [hcbytes, hcount]), hcount,
    ← List.map_take, ← List.map_replicate, ← List.map_append] at hmoved
  exact List.map_injective_iff.mpr (AnyValue.mk_injective τ) hmoved

/-- The old payload is not the start of a live block any more. -/
theorem isLive_eq_false (hr : w.Resized past τ b count c w') (h : w.Sound past)
    (hb : b ∈ w.heap.blocks) : w'.heap.isLive b.payload = false := by
  rw [Bool.eq_false_iff]
  intro hlive
  obtain ⟨d, hd, hpayload⟩ := HeapTable.isLive_iff.mp hlive
  rcases (hr.remaining d).mp hd with rfl | ⟨hold, hne⟩
  · exact hr.fresh b (h.live b hb) hpayload.symm
  · exact hne (h.balanced.ascending.eq_of_payload hold hb hpayload)

end World.Resized

/-- A block taken out and one put in: the totals change by the difference. -/
theorem HeapTable.Balanced.stats_register_take {t t' u : HeapTable} (h : t.Balanced)
    (ht : t.take? b.payload = some (b, u)) (ht' : t' = u.register c) (h' : t'.Balanced) :
    t'.stats.allocations = t.stats.allocations + 1 ∧ t'.stats.frees = t.stats.frees + 1 ∧
      t'.stats.liveBlocks = t.stats.liveBlocks ∧
      (t'.stats.liveBytes : Int) = t.stats.liveBytes + (c.bytes - b.bytes) := by
  have hbytes := (h.take ht).2
  have hcounted := h.counted
  have hcounted' := h'.counted
  obtain ⟨-, rfl⟩ := take?_eq_some ht
  subst ht'
  simp only [HeapTable.register, stats] at hbytes hcounted' ⊢
  exact ⟨trivial, trivial, by omega, by omega⟩

/-- **Where there is room, a resize succeeds and leaves what it has to.** -/
theorem ArrayPtr.exists_reallocated (h : w.Sound past) {p : ArrayPtr τ} (hb : b ∈ w.heap.blocks)
    (hs : b.stored = .elements τ) (hp : p.span.base = b.payload) (hroom : w.Admits τ count) :
    ∃ q w' c, outcome (p.resize count) w = (.ok q, w') ∧ w.Reallocated past b c count q w' := by
  obtain ⟨c, t, w', ho, hr, hcbytes, htraced, ht, hheap⟩ :=
    exists_outcome_resize h hb hs hp hroom
  obtain ⟨hf, -⟩ := (preserves_resize h p count).of_ok ho
  have hbytes := h.bytes_of_elements (h.live b hb) hs
  obtain ⟨hstored, hcount⟩ := hr.recorded
  have hlive : c ∈ w'.heap.blocks := (hr.remaining c).mpr (.inl rfl)
  have hmem := hf.sound.live c hlive
  have hold := outcome_toList_ofBase h (.of_elements h (h.live b hb) hs)
    (h.payload_ne_zero (h.live b hb))
  have hnew := outcome_toList_ofBase hf.sound (.of_elements hf.sound hmem hstored)
    (hf.sound.payload_ne_zero hmem)
  rw [hcount, hr.elements hs hbytes hcbytes] at hnew
  obtain ⟨hmade, hfreed, hblocks, htotal⟩ :=
    h.balanced.stats_register_take ht hheap hf.sound.balanced
  rw [hcbytes, hbytes, Int.natCast_mul, Int.natCast_mul, ← Int.sub_mul] at htotal
  exact ⟨_, w', c, ho, {
    handle := rfl
    live := hlive
    recorded := ⟨hstored, hcount, hcbytes, htraced⟩
    fresh := hr.fresh
    contents := ⟨_, World.length_elements .., hold, by rwa [World.length_elements]⟩
    retired := hr.isLive_eq_false h hb
    others := ⟨hr.remaining, fun d hd => hr.others d (h.live d hd)⟩
    counted := ⟨hmade, hfreed, hblocks, htotal⟩ }⟩

/-! ## 4. In a program -/

namespace Program

variable {δ : Discipline} {s : Program}

/-- **What the resize of an array does.**  A pointer with the base of a live block of its own type
is resized exactly if there is room, whatever its index and extent are; and a null pointer is
resized by making an array. -/
theorem resize_reallocates (hs : Reachable δ s) (p : ArrayPtr τ) (count : UInt64) :
    (∀ b ∈ s.world.heap.blocks, b.stored = .elements τ → p.span.base = b.payload →
      ((∃ q w', outcome (p.resize count) s.world = (.ok q, w')) ↔ s.world.Admits τ count) ∧
      ∀ q w', outcome (p.resize count) s.world = (.ok q, w') →
        ∃ c, s.world.Reallocated s.past b c count q w') ∧
    (p.span.isNull = true → p.resize count = ArrayPtr.new τ count false) := by
  have h := hs.sound.world
  refine ⟨fun b hb hstored hp => ?_, fun hnull => ArrayPtr.resize_of_null hnull count⟩
  refine ⟨⟨?_, ?_⟩, ?_⟩
  · rintro ⟨q, w', ho⟩
    exact ArrayPtr.admits_of_outcome_resize h hb hstored hp ho
  · intro hroom
    obtain ⟨q, w', c, ho, -⟩ := ArrayPtr.exists_reallocated h hb hstored hp hroom
    exact ⟨q, w', ho⟩
  · intro q w' ho
    have hroom := ArrayPtr.admits_of_outcome_resize h hb hstored hp ho
    obtain ⟨q₁, w₁, c, ho₁, hc⟩ := ArrayPtr.exists_reallocated h hb hstored hp hroom
    rw [ho] at ho₁
    cases ho₁
    exact ⟨c, hc⟩

/-- The block of three words. -/
def countedBlock : Block :=
  ⟨0x400000000000, ⟨12, 4⟩, 0x400000000000, 12, 3, .elements .uint32, false⟩

/-- Resized to five words through a pointer to the second of them, they are followed by zeros. -/
theorem resize_reallocates_counted_words :
    ∃ q w', outcome ((wordsAt 1).resize 5) countedWords.world = (.ok q, w') ∧
      outcome (ArrayLike.toList q) w' = (.ok ([1, 2, 3, 0, 0] : List UInt32), w') ∧
      (w'.heap.stats.liveBytes : Int) = 20 ∧
      (ArrayPtr.null : ArrayPtr .uint32).resize 5 = ArrayPtr.new .uint32 5 false := by
  have hr := reachable_countedWords .scoped
  obtain ⟨hsome, hall⟩ :=
    (resize_reallocates hr (wordsAt 1) 5).1 countedBlock List.mem_cons_self rfl rfl
  obtain ⟨q, w', ho⟩ := hsome.mpr (by decide)
  obtain ⟨c, hc⟩ := hall q w' ho
  obtain ⟨old, -, hold, hnew⟩ := hc.contents
  have hread : outcome (ArrayLike.toList (ArrayPtr.ofBase countedBlock.payload countedBlock.count :
      ArrayPtr .uint32)) countedWords.world =
        (.ok ([1, 2, 3] : List UInt32), countedWords.world) := by
    decide +kernel
  rw [hread] at hold
  cases hold
  obtain ⟨-, -, -, htotal⟩ := hc.counted
  exact ⟨q, w', ho, hnew, htotal.trans rfl, (resize_reallocates hr ArrayPtr.null 5).2 rfl⟩

end Program

end CheckedMemory
