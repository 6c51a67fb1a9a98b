import CheckedMemory.Proofs.Assignment
import CheckedMemory.Proofs.Confined
import CheckedMemory.Proofs.Creation
import CheckedMemory.Proofs.Dropped
import CheckedMemory.Proofs.Indexing
import CheckedMemory.Proofs.TailLayout

/-!
# Records with a variable tail

A fresh record is filled with head, length, tail elements and zeros (`Layout.Tailed.image`).  Each
part has its own cells there, and a write inside one part misses every other
(`Layout.Tailed.Separates`).  That needs nothing of head and elements but the sizes of their
layouts, so it is said of any cells.

For records of values the rest is about a live block.  From the block alone follows all that the
holder of the record can rely on (`TailedPtr.Laid`), in any sound state: the length word is the one
thing in a record that soundness itself keeps, and the tail is inside the block but does not start
one.  Just after it was made a record is what it was made of (`TailedPtr.Fresh`); and as a block is
the same for as long as it is live, a program can rely on the rest in every later state.
-/

namespace CheckedMemory

open Operation

namespace Layout.Tailed

variable {h t l : Layout} {m m' : Memory} {a b : Address} {count : UInt64}
  {head element xs ys : List Cell} {n k : Nat}

/-! ## 1. What a record is filled with -/

/-- Cells with zeros behind, up to `n` of them. -/
def fill (n : Nat) (xs : List Cell) : List Cell := xs ++ List.replicate (n - xs.length) (.byte 0)

/-- The cells of a fresh record: head, length word and tail elements, zeros between and after. -/
def image (h t : Layout) (size : Nat) (head : List Cell) (count : UInt64) (element : List Cell) :
    List Cell :=
  fill size (fill (tailOffset h t) (fill (lengthOffset h) head ++ ElemType.encode .uint64 count) ++
    (List.replicate count.toNat element).flatten)

/-- Each part with the cells that it is filled with. -/
def contents (h t : Layout) (head : List Cell) (count : UInt64) (element : List Cell) :
    List (Part × List Cell) :=
  (⟨0, h.size, h.align⟩, head) :: (⟨lengthOffset h, 8, 8⟩, ElemType.encode .uint64 count) ::
    (List.range count.toNat).map fun i => (elementPart h t i, element)

theorem map_fst_contents : (contents h t head count element).map Prod.fst =
    parts h t count.toNat := by
  simp [contents, parts, Function.comp_def]

/-- The cells of a part. -/
def Part.of (p : Part) (xs : List Cell) : List Cell := (xs.drop p.offset).take p.size

theorem Part.of_append_left {p : Part} (hp : p.offset + p.size ≤ xs.length) :
    p.of (xs ++ ys) = p.of xs := by
  rw [Part.of, Part.of, List.drop_append_of_le_length (by omega),
    List.take_append_of_le_length (by rw [List.length_drop]; omega)]

theorem Part.of_fill {p : Part} (hp : p.offset + p.size ≤ xs.length) : p.of (fill n xs) = p.of xs :=
  Part.of_append_left hp

theorem length_fill (hn : xs.length ≤ n) : (fill n xs).length = n := by
  rw [fill, List.length_append, List.length_replicate]
  omega

theorem length_flatten_replicate (n : Nat) (xs : List Cell) :
    (List.replicate n xs).flatten.length = n * xs.length := by
  simp

/-- Copies of the same cells in a row: each is where it should be. -/
theorem take_drop_flatten_replicate (hk : k < n) :
    ((List.replicate n xs).flatten.drop (k * xs.length)).take xs.length = xs := by
  induction n generalizing k with
  | zero => exact absurd hk (Nat.not_lt_zero k)
  | succ n ih =>
    rw [List.replicate_succ, List.flatten_cons]
    cases k with
    | zero => rw [Nat.zero_mul, List.drop_zero, List.take_left]
    | succ k =>
      rw [Nat.succ_mul, Nat.add_comm, ← List.drop_drop, List.drop_left]
      exact ih (Nat.lt_of_succ_lt_succ hk)

section Image

variable (hhead : head.length = h.size) (helement : element.length = t.size)

include hhead

/-- The cells in front of the tail. -/
theorem length_front (count : UInt64) :
    (fill (lengthOffset h) head ++ ElemType.encode .uint64 count).length = lengthOffset h + 8 := by
  rw [List.length_append, length_fill (hhead ▸ size_le_lengthOffset h), ElemType.length_encode]
  rfl

theorem length_toTail (t : Layout) (count : UInt64) :
    (fill (tailOffset h t)
      (fill (lengthOffset h) head ++ ElemType.encode .uint64 count)).length = tailOffset h t :=
  length_fill (by rw [length_front hhead count]; exact lengthOffset_le_tailOffset h t)

include helement

theorem length_image (hsize : tailOffset h t + count.toNat * t.size ≤ n) :
    (image h t n head count element).length = n := by
  refine length_fill ?_
  rw [List.length_append, length_toTail hhead t count, length_flatten_replicate, helement]
  exact hsize

/-- **Each part of a fresh record is filled with what belongs there.** -/
theorem of_image (c : Part × List Cell) (hc : c ∈ contents h t head count element) :
    c.1.of (image h t n head count element) = c.2 := by
  have hleOffset := size_le_lengthOffset h
  have hleTail := lengthOffset_le_tailOffset h t
  have hfront := length_front hhead count
  have htoTail := length_toTail hhead t count
  have htail : ((List.replicate count.toNat element).flatten).length = count.toNat * t.size := by
    rw [length_flatten_replicate, helement]
  simp only [contents, List.mem_cons, List.mem_map, List.mem_range] at hc
  unfold image
  rcases hc with rfl | rfl | ⟨i, hi, rfl⟩
  · rw [Part.of_fill (by rw [List.length_append, htoTail]; simp only; omega),
      Part.of_append_left (by rw [htoTail]; simp only; omega),
      Part.of_fill (by rw [hfront]; simp only; omega),
      Part.of_append_left (by rw [length_fill (by omega)]; simp only; omega),
      Part.of_fill (by simp only; omega), Part.of, List.drop_zero,
      List.take_of_length_le (Nat.le_of_eq hhead)]
  · rw [Part.of_fill (by rw [List.length_append, htoTail]; simp only; omega),
      Part.of_append_left (by rw [htoTail]; simp only; omega),
      Part.of_fill (Nat.le_of_eq hfront.symm)]
    simp only [Part.of]
    rw [List.drop_left' (length_fill (by omega)), List.take_of_length_le]
    exact Nat.le_of_eq (ElemType.length_encode .uint64 count)
  · have hnext := Nat.mul_le_mul_right t.size (Nat.succ_le_of_lt hi)
    rw [Nat.succ_mul] at hnext
    rw [Part.of_fill (by rw [List.length_append, htoTail, htail]; simp only [elementPart]; omega)]
    simp only [Part.of, elementPart]
    rw [← List.drop_drop, List.drop_left' htoTail, ← helement]
    exact take_drop_flatten_replicate hi

end Image

/-- Two parts of a record share no byte. -/
theorem disjoint_parts {i j : Nat} {p q : Part} (hp : (parts h t n)[i]? = some p)
    (hq : (parts h t n)[j]? = some q) (hij : i ≠ j) :
    p.offset + p.size ≤ q.offset ∨ q.offset + q.size ≤ p.offset := by
  obtain ⟨hi, rfl⟩ := List.getElem?_eq_some_iff.mp hp
  obtain ⟨hj, rfl⟩ := List.getElem?_eq_some_iff.mp hq
  have hordered := List.pairwise_iff_getElem.mp (ordered_parts h t n)
  rcases Nat.lt_or_gt_of_ne hij with hlt | hgt
  · exact .inl (hordered i j hi hj hlt)
  · exact .inr (hordered j i hj hi hgt)

/-- Wherever a record of this layout is, its parts are what they are filled with and stay so when
another part is written to. -/
structure Separates (h t : Layout) (count : UInt64) (l : Layout) (a : Address)
    (head element : List Cell) : Prop where
  fresh : ∀ m : Memory, ∀ c ∈ contents h t head count element,
    (m.place a (.ofList (image h t l.size head count element))).cells
      (a + UInt64.ofNat c.1.offset) c.1.size = c.2
  apart : ∀ (m m' : Memory) (b : Address) (cs : Runs Cell), m.write? b cs = some m' →
    ∀ (i j : Nat) (p q : Part), (parts h t count.toNat)[i]? = some p →
      (parts h t count.toNat)[j]? = some q → i ≠ j → a.toNat + p.offset ≤ b.toNat →
        b.toNat + cs.length ≤ a.toNat + p.offset + p.size →
          m'.cells (a + UInt64.ofNat q.offset) q.size =
            m.cells (a + UInt64.ofNat q.offset) q.size

theorem Lays.separates (hl : Lays h t count.toNat l) (hend : a.toNat + l.size < 2 ^ 64)
    (hhead : head.length = h.size) (helement : element.length = t.size) :
    Separates h t count l a head element := by
  have haddr : ∀ p ∈ parts h t count.toNat,
      (a + UInt64.ofNat p.offset).toNat = a.toNat + p.offset := by
    intro p hp
    have := hl.inside p hp
    exact Word.toNat_add_ofNat (by omega)
  have hsize : tailOffset h t + count.toNat * t.size ≤ l.size := by
    rw [hl.size]
    exact Word.le_roundUp _
  refine ⟨fun m c hc => ?_, fun m m' b cs hw i j p q hp hq hij hlo hhi => ?_⟩
  · have hpart : c.1 ∈ parts h t count.toNat := map_fst_contents ▸ List.mem_map_of_mem hc
    have hof := of_image (n := l.size) hhead helement c hc
    have hwhere := haddr c.1 hpart
    have hin := hl.inside c.1 hpart
    by_cases hzero : c.1.size = 0
    · rw [Part.of, hzero, List.take_zero] at hof
      rw [hzero, ← hof]
      rfl
    · have hlen : (Runs.ofList (image h t l.size head count element)).length = l.size := by
        rw [Runs.length_ofList, length_image hhead helement hsize]
      have hcov : Plot.Covers ⟨a, (Runs.ofList (image h t l.size head count element)).length⟩
          (a + UInt64.ofNat c.1.offset).toNat c.1.size := by
        rw [hlen, hwhere]
        exact ⟨Nat.le_add_right _ _, by simp only [Plot.stop]; omega⟩
      rw [Memory.cells, Memory.read?_place_same hzero hcov, Option.getD_some, Runs.toList_ofList,
        hwhere, Nat.add_sub_cancel_left]
      exact hof
  · have hdisjoint := disjoint_parts hp hq hij
    have hwhere := haddr q (List.mem_of_getElem? hq)
    refine Memory.cells_write?_of_disjoint hw ?_
    rw [hwhere]
    omega

end Layout.Tailed

namespace TailedPtr

open Layout.Tailed

variable {past : List Block} {w w' : World} {σ τ : ElemType} {p : TailedPtr σ τ} {n : UInt64}
  {x : σ.Carrier} {l : Layout} {b : Block}

/-- The tail as an array of `n` elements. -/
def tailArray (p : TailedPtr σ τ) (n : UInt64) : ArrayPtr τ :=
  .ofBase (p.address + UInt64.ofNat (tailOffset σ.layout τ.layout)) n

/-- The elements of the tail. -/
def elements (p : TailedPtr σ τ) (n : UInt64) (w : World) : List τ.Carrier :=
  w.elements τ (p.tailArray n).span.base n.toNat

/-- The pointer is to a live block that was made as a record with `n` tail elements. -/
structure Recorded (p : TailedPtr σ τ) (n : UInt64) (b : Block) (w : World) : Prop where
  live : b ∈ w.heap.blocks
  payload : b.payload = p.address
  stored : b.stored = .tailed σ τ
  count : b.count = n

section Recorded

variable (h : w.Sound past) (hp : p.Recorded n b w)

include h hp

end Recorded

section Recorded

variable (h : w.Sound past) (hp : p.Recorded n b w)

include h hp

end Recorded

/-! ## 3. A record that is made -/

/-- The block of a record in what the system allocator gives next for a layout. -/
def recordBlock (w : World) (σ τ : ElemType) (n : UInt64) (l : Layout) : Block :=
  ⟨UInt64.ofNat (w.grantBase l), l.nonempty, UInt64.ofNat (w.grantBase l), l.size, n, .tailed σ τ,
    false⟩

/-- The state after it was filled and recorded. -/
def withRecord (w : World) (σ τ : ElemType) (n : UInt64) (x : σ.Carrier) (l : Layout) : World :=
  w.withBlock l (recordBlock w σ τ n l) (cells σ τ l.size x n)

/-- The state after a value was handed in that nothing was made of. -/
def withDropped (w : World) (σ : ElemType) (x : σ.Carrier) : World :=
  { w with dropLog := w.dropLog ++ .ofList (σ.dropMarks x) }

/-- When a record is made, and what else happens.  Where there is none the head is released, and
nothing else changes. -/
structure Decides (σ τ : ElemType) (n : UInt64) (x : σ.Carrier) (w : World) : Prop where
  empty : n = 0 → outcome (new σ τ n x) w = (.error .emptyTail, withDropped w σ x)
  oversized : n ≠ 0 → Overflows σ.layout τ.layout n.toNat →
    outcome (new σ τ n x) w = (.error (.violation (tooLarge τ n)), withDropped w σ x)
  full : ∀ l, n ≠ 0 → layout? σ.layout τ.layout n.toNat = some l → ¬w.grantEnd l ≤ World.heapEnd →
    outcome (new σ τ n x) w = (.error .exhausted, w)
  made : ∀ l, n ≠ 0 → layout? σ.layout τ.layout n.toNat = some l → w.grantEnd l ≤ World.heapEnd →
    outcome (new σ τ n x) w =
      (.ok ⟨(recordBlock w σ τ n l).payload⟩, withRecord w σ τ n x l)

theorem decides_new (σ τ : ElemType) (n : UInt64) (x : σ.Carrier) (w : World) :
    Decides σ τ n x w where
  empty hn := by
    unfold new
    rw [if_pos hn]
    rfl
  oversized hn hover := by
    unfold new
    rw [if_neg hn, layout?_eq_none_iff.mpr hover]
    rfl
  full l hn hl hfull := by
    unfold new
    rw [if_neg hn, hl]
    exact outcome_bind_error _ (outcome_requestMemory_of_full hfull)
  made l hn hl hfit := by
    have hlen := length_cells σ τ x n (layout?_eq_some hl).2.2
    unfold new
    rw [if_neg hn, hl]
    refine (outcome_bind_ok _ (outcome_requestMemory hfit)).trans ?_
    simp only [record, hlen]
    rfl

/-- What a record was made of, if one was. -/
theorem exists_of_outcome_new (ho : outcome (new σ τ n x) w = (.ok p, w')) :
    n ≠ 0 ∧ ∃ l, layout? σ.layout τ.layout n.toNat = some l ∧ w.grantEnd l ≤ World.heapEnd ∧
      p = ⟨(recordBlock w σ τ n l).payload⟩ ∧ w' = withRecord w σ τ n x l := by
  have hd := decides_new σ τ n x w
  by_cases hn : n = 0
  · rw [hd.empty hn] at ho
    cases ho
  · cases hl : layout? σ.layout τ.layout n.toNat with
    | none =>
      rw [hd.oversized hn (layout?_eq_none_iff.mp hl)] at ho
      cases ho
    | some l =>
      by_cases hfit : w.grantEnd l ≤ World.heapEnd
      · rw [hd.made l hn hl hfit] at ho
        cases ho
        exact ⟨hn, l, rfl, hfit, rfl, rfl⟩
      · rw [hd.full l hn hl hfit] at ho
        cases ho

/-- What a record is just after it was made, of a head and a number of tail elements. -/
structure Fresh (p : TailedPtr σ τ) (n : UInt64) (x : σ.Carrier) (l : Layout) (w w' : World) :
    Prop where
  live : w'.heap.isLive p.address = true
  address_mod : p.address.toNat % l.align = 0
  counted : w'.heap.stats.liveBytes = w.heap.stats.liveBytes + l.size
  head : outcome p.head w' = (.ok x, w')
  length : outcome p.tailLength w' = (.ok n, w')
  tail : outcome p.tail w' = (.ok (p.tailArray n), w')
  size : (p.tailArray n).span.extent = n
  elements : outcome (ArrayLike.toList (p.tailArray n)) w' =
    (.ok (List.replicate n.toNat τ.default), w')

end TailedPtr

/-! ## 4. In a program -/

namespace Layout.Tailed

/-- What is asked of the layouts of records with a head, a length word and `n` elements. -/
structure Sound (h t : Layout) (n : UInt64) : Prop where
  none_iff : layout? h t n.toNat = none ↔ Overflows h t n.toNat
  /-- No step of the computation with words is lost. -/
  checked : t.size < 2 ^ 64 → tailOffset h t < 2 ^ 64 → checked? h t n = layout? h t n.toNat
  lays : ∀ l, layout? h t n.toNat = some l → Lays h t n.toNat l
  separates : ∀ l, layout? h t n.toNat = some l → ∀ (a : Address) (head element : List Cell),
    a.toNat + l.size < 2 ^ 64 → head.length = h.size → element.length = t.size →
      Separates h t n l a head element

end Layout.Tailed

namespace Program

variable {δ : Discipline} {s t : Program} {σ τ : ElemType} {p : TailedPtr σ τ} {n : UInt64}

/-- A record is well laid out as long as it is live. -/
theorem Leads.recorded {b : Block} (hs : Sound δ s) (hp : p.Recorded n b s.world)
    (hl : Leads δ s t) (hlive : t.world.heap.isLive p.address = true) :
    p.Recorded n b t.world := by
  have ht := (hl.sound hs).world
  obtain ⟨c, hc, hpayload⟩ := HeapTable.isLive_iff.mp hlive
  have hb := hl.mem_past hs (hs.world.live b hp.live)
  obtain rfl := ht.unique b hb c (ht.live c hc) (hp.payload.trans hpayload.symm)
  exact ⟨hc, hp.payload, hp.stored, hp.count⟩

end Program

end CheckedMemory
