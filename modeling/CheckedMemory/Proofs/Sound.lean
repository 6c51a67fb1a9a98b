import CheckedMemory.Proofs.Plot
import CheckedMemory.Proofs.Table
import CheckedMemory.World

/-!
# Sound states

What holds of memory, the heap table and the frames in every state of a run, and why each kind of
change keeps it.  The blocks that the table holds are only those not yet released, and handles
outlive them; so soundness speaks of a list of blocks of the past as well, which holds every block
that the table ever held.

The blocks of the past stay where they were: no area is ever removed and no address given out
twice.  That is what lets a fact about a handle, once true, stay true (`World.Sound` has no clause
about handles).

The length word of a record is the one place where the contents of memory matter for where handles
point: the tail of a record is as long as its length word says.  Only live records keep theirs,
since releasing a block overwrites all of it.
-/

namespace CheckedMemory

/-! ## 1. Shapes of blocks -/

namespace Layout.Tailed

theorem size_le_lengthOffset (h : Layout) : h.size ≤ lengthOffset h := Word.le_roundUp h.size

theorem lengthOffset_le_tailOffset (h t : Layout) : lengthOffset h + 8 ≤ tailOffset h t :=
  Word.le_roundUp (lengthOffset h + 8)

theorem tailOffset_mod (h : Layout) (τ : ElemType) :
    tailOffset h τ.layout % τ.layout.align = 0 :=
  Word.roundUp_mod _ _ τ.align_pos

end Layout.Tailed

namespace ElemType

/-- A multiple of 16 suits every type. -/
theorem mod_align_of_mod (τ : ElemType) {n : Nat} (h : n % 16 = 0) : n % τ.layout.align = 0 :=
  Nat.mod_eq_zero_of_dvd (Nat.dvd_trans τ.align_dvd (Nat.dvd_of_mod_eq_zero h))

/-- An element ends at the start of any later one, or before. -/
theorem mul_size_add_le (τ : ElemType) {i j : Nat} (h : i < j) :
    i * τ.layout.size + τ.layout.size ≤ j * τ.layout.size := by
  rw [← Nat.succ_mul]
  exact Nat.mul_le_mul_right _ h

end ElemType

namespace Word

/-- The greater of two numbers is one of them. -/
theorem max_dvd {a b n : Nat} (ha : a ∣ n) (hb : b ∣ n) : max a b ∣ n := by
  rcases Nat.le_total a b with hle | hle
  · rwa [Nat.max_eq_right hle]
  · rwa [Nat.max_eq_left hle]

theorem toNat_ofNat {n : Nat} (h : n < 2 ^ 64) : (UInt64.ofNat n).toNat = n :=
  UInt64.toNat_ofNat_of_lt' h

theorem toNat_min (a b : UInt64) : (min a b).toNat = min a.toNat b.toNat := by
  change (if a ≤ b then a else b).toNat = _
  split
  · rename_i hle
    have : a.toNat ≤ b.toNat := UInt64.le_iff_toNat_le.mp hle
    omega
  · rename_i hle
    have : ¬ a.toNat ≤ b.toNat := fun h => hle (UInt64.le_iff_toNat_le.mpr h)
    omega

theorem toNat_max_one (a : UInt64) : (max a 1).toNat = max a.toNat 1 := by
  by_cases h : a = 0
  · subst h
    decide
  · have hpos : 0 < a.toNat := Nat.pos_of_ne_zero fun h0 => h (UInt64.toNat_inj.mp h0)
    change (if a ≤ 1 then (1 : UInt64) else a).toNat = _
    split
    · rename_i hle
      have h1 : a.toNat ≤ 1 := UInt64.le_iff_toNat_le.mp hle
      have h2 : (1 : UInt64).toNat = 1 := by decide
      omega
    · omega

theorem toNat_add_ofNat {a : UInt64} {n : Nat} (h : a.toNat + n < 2 ^ 64) :
    (a + UInt64.ofNat n).toNat = a.toNat + n := by
  rw [UInt64.toNat_add, toNat_ofNat (by omega), Nat.mod_eq_of_lt h]

end Word

namespace Block

/-- What a block holds fits its bytes, and starts where its type may start. -/
def Shaped (b : Block) : Prop :=
  match b.stored with
  | .elements τ => b.payload.toNat % τ.layout.align = 0 ∧ b.bytes = b.count.toNat * τ.layout.size
  | .fixed τ n => b.payload.toNat % τ.layout.align = 0 ∧ b.count = 1 ∧ b.bytes = n * τ.layout.size
  | .tailed h t =>
    b.payload.toNat % 16 = 0 ∧ Layout.Tailed.leastSize h.layout t.layout ≤ b.bytes ∧
      Layout.Tailed.tailOffset h.layout t.layout + b.count.toNat * t.layout.size ≤ b.bytes

/-- The plot of a block's payload; one cell where there are no values. -/
def plot (b : Block) : Plot := ⟨b.payload, max b.bytes 1⟩

/-- Where the length word of a record is. -/
def lengthAddress (b : Block) (h : ElemType) : Address :=
  b.payload + UInt64.ofNat (Layout.Tailed.lengthOffset h.layout)

/-- A record's length word is the number of its tail elements. -/
def LengthKept (m : Memory) (b : Block) : Prop :=
  ∀ h t, b.stored = .tailed h t → m.word? (b.lengthAddress h) = some b.count

end Block

/-! ## 2. Where plots lie -/

namespace Plot

/-- In what the system allocator has given so far. -/
def OnHeap (nextFree : Nat) (r : Plot) : Prop :=
  World.heapStart ≤ r.base.toNat ∧ r.stop < nextFree

/-- In the window of a frame, among the bytes handed out so far. -/
def OnStack (used : Nat) (r : Plot) : Prop :=
  ∃ d < Frames.windowCount, (Frames.pointerAt d).toNat ≤ r.base.toNat ∧
    r.stop < (Frames.pointerAt d).toNat + used

theorem OnHeap.mono {m n : Nat} (hmn : m ≤ n) {r : Plot} (h : r.OnHeap m) : r.OnHeap n :=
  ⟨h.1, Nat.lt_of_lt_of_le h.2 hmn⟩

theorem OnStack.mono {m n : Nat} (hmn : m ≤ n) {r : Plot} (h : r.OnStack m) : r.OnStack n := by
  obtain ⟨d, hd, hlo, hhi⟩ := h
  exact ⟨d, hd, hlo, by omega⟩

end Plot

theorem Frames.toNat_pointerAt (d : Nat) :
    (pointerAt d).toNat = 2 ^ 47 - (d + 1) * 2 ^ 32 := by
  unfold pointerAt
  rw [Word.toNat_ofNat]
  · rfl
  · simp only [top, windowSize]
    omega

/-- The stack pointers of the first `d` windows, the lowest one's first. -/
def Frames.firstPointers (d : Nat) : List Address := (List.range d).reverse.map pointerAt

theorem Frames.firstPointers_succ (d : Nat) :
    firstPointers (d + 1) = pointerAt d :: firstPointers d := by
  rw [firstPointers, List.range_succ, List.reverse_append]
  rfl

/-- Each open frame has the window of its depth. -/
structure Frames.Windowed (f : Frames) : Prop where
  depth_lt : f.depth < windowCount
  pointers_eq : f.pointers = firstPointers (f.depth + 1)

theorem Frames.windowed_initial : initial.Windowed := ⟨by decide, rfl⟩

theorem Frames.used_leave (f : Frames) : f.leave.used = f.used := by
  unfold leave
  split <;> rfl

namespace Frames.Windowed

variable {f f' : Frames}

theorem pointer_eq (h : f.Windowed) : f.pointer = pointerAt f.depth := by
  have hpointers := h.pointers_eq
  rw [firstPointers_succ] at hpointers
  exact (List.cons.inj hpointers).1

/-- Above its stack pointer the current frame has a window of the stack. -/
theorem pointer_add_le (h : f.Windowed) : f.pointer.toNat + windowSize ≤ top := by
  have hd := h.depth_lt
  simp only [windowCount] at hd
  rw [h.pointer_eq, toNat_pointerAt]
  simp only [windowSize, top]
  omega

/-- Only which frames are open counts, not what they handed out. -/
theorem congr (h : f.Windowed) (hpointers : f'.pointers = f.pointers) : f'.Windowed := by
  have hdepth : f'.depth = f.depth := congrArg List.length (List.cons.inj hpointers).2
  exact ⟨hdepth ▸ h.depth_lt, hdepth ▸ hpointers.trans h.pointers_eq⟩

/-- A call opens the next window. -/
theorem enterAt (h : f.Windowed) (hd : f.depth + 1 < windowCount) :
    (f.enterAt (pointerAt (f.depth + 1))).Windowed := by
  refine ⟨hd, ?_⟩
  change pointerAt (f.depth + 1) :: f.pointers = firstPointers (f.depth + 1 + 1)
  rw [firstPointers_succ, h.pointers_eq]

/-- A return closes the last one. -/
theorem leave (h : f.Windowed) : f.leave.Windowed := by
  obtain ⟨callers, pointer, used⟩ := f
  cases callers with
  | nil => exact h
  | cons caller callers =>
    obtain ⟨hlt, hpointers⟩ := h
    rw [firstPointers_succ] at hpointers
    exact ⟨Nat.lt_of_succ_lt hlt, (List.cons.inj hpointers).2⟩

end Frames.Windowed

theorem Frames.contains_extent_iff {a : Address} :
    extent.contains a = true ↔ 2 ^ 47 - 2 ^ 44 ≤ a.toNat ∧ a.toNat < 2 ^ 47 := by
  have hlow : extent.low.toNat = 2 ^ 47 - 2 ^ 44 := by decide
  have hhigh : extent.high.toNat = 2 ^ 47 := by decide
  simp only [StackExtent.contains, Bool.and_eq_true, decide_eq_true_eq, UInt64.le_iff_toNat_le,
    UInt64.lt_iff_toNat_lt, hlow, hhigh]

theorem Frames.not_contains_of_lt {a : Address} (h : a.toNat < 2 ^ 47 - 2 ^ 44) :
    extent.contains a = false := by
  rw [Bool.eq_false_iff]
  intro hc
  have := (contains_extent_iff.mp hc).1
  omega

/-- Everything that the system allocator gives lies below the stack. -/
theorem Plot.OnHeap.stop_lt {r : Plot} {nextFree : Nat} (hn : nextFree ≤ World.heapEnd)
    (h : r.OnHeap nextFree) : r.stop < 2 ^ 47 - 2 ^ 44 := by
  have := h.2
  simp only [World.heapEnd] at hn
  omega

theorem Plot.OnStack.le_base {r : Plot} {used : Nat} (h : r.OnStack used) :
    2 ^ 47 - 2 ^ 44 ≤ r.base.toNat := by
  obtain ⟨d, hd, hlo, -⟩ := h
  rw [Frames.toNat_pointerAt d] at hlo
  simp only [Frames.windowCount] at hd
  omega

theorem Plot.OnStack.stop_lt {r : Plot} {used : Nat} (hu : used ≤ Frames.windowSize)
    (h : r.OnStack used) : r.stop < 2 ^ 47 := by
  obtain ⟨d, hd, -, hhi⟩ := h
  rw [Frames.toNat_pointerAt d] at hhi
  simp only [Frames.windowCount, Frames.windowSize] at hd hu
  omega

/-! ## 3. Soundness -/

/-- What holds of every state of a run.  `past` holds every block that the heap table ever held. -/
structure World.Sound (past : List Block) (w : World) : Prop where
  /-- No two areas of storage share or touch an address. -/
  apart : w.memory.plots.Pairwise Plot.Apart
  /-- Each is where the system allocator or a frame put it. -/
  sited : ∀ r ∈ w.memory.plots, r.OnHeap w.nextFree ∨ r.OnStack w.frames.used
  heapStart_le : World.heapStart ≤ w.nextFree
  le_heapEnd : w.nextFree ≤ World.heapEnd
  used_le : w.frames.used ≤ Frames.windowSize
  used_mod : w.frames.used % 16 = 0
  windowed : w.frames.Windowed
  /-- A live block is one of the past. -/
  live : ∀ b ∈ w.heap.blocks, b ∈ past
  shaped : ∀ b ∈ past, b.Shaped
  /-- A block of the past keeps its area of the heap. -/
  housed : ∀ b ∈ past, b.plot ∈ w.memory.plots
  onHeap : ∀ b ∈ past, b.plot.OnHeap w.nextFree
  /-- No two blocks of the past start at the same payload. -/
  unique : ∀ b ∈ past, ∀ c ∈ past, b.payload = c.payload → b = c
  balanced : w.heap.Balanced
  /-- A live record's length word is its length. -/
  lengths : ∀ b ∈ w.heap.blocks, b.LengthKept w.memory

namespace World.Sound

variable {past past' : List Block} {w : World}

/-- A run starts in a sound state. -/
theorem initial : Sound [] World.initial where
  apart := List.Pairwise.nil
  sited _ h := nomatch h
  heapStart_le := Nat.le_refl _
  le_heapEnd := by decide
  used_le := by decide
  used_mod := by decide
  windowed := Frames.windowed_initial
  live _ h := nomatch h
  shaped _ h := nomatch h
  housed _ h := nomatch h
  onHeap _ h := nomatch h
  unique _ h := nomatch h
  balanced := HeapTable.balanced_empty
  lengths _ h := nomatch h

/-- Only which blocks are of the past counts, not in which order. -/
theorem congr (h : Sound past w) (hp : ∀ b, b ∈ past' ↔ b ∈ past) : Sound past' w :=
  { h with
    live := fun b hb => (hp b).mpr (h.live b hb)
    shaped := fun b hb => h.shaped b ((hp b).mp hb)
    housed := fun b hb => h.housed b ((hp b).mp hb)
    onHeap := fun b hb => h.onHeap b ((hp b).mp hb)
    unique := fun b hb c hc => h.unique b ((hp b).mp hb) c ((hp c).mp hc) }

/-! ### What follows at once -/

theorem stop_lt (h : Sound past w) {r : Plot} (hr : r ∈ w.memory.plots) : r.stop < 2 ^ 47 := by
  rcases h.sited r hr with hs | hs
  · have := hs.stop_lt h.le_heapEnd
    omega
  · exact hs.stop_lt h.used_le

/-- The payload of a block of the past ends far below the largest word. -/
theorem payload_add_lt (h : Sound past w) {b : Block} (hb : b ∈ past) :
    b.payload.toNat + b.bytes < 2 ^ 47 - 2 ^ 44 := by
  have := (h.onHeap b hb).stop_lt h.le_heapEnd
  simp only [Plot.stop, Block.plot] at this
  omega

theorem payload_offStack (h : Sound past w) {b : Block} (hb : b ∈ past) :
    Frames.extent.contains b.payload = false := by
  have := h.payload_add_lt hb
  exact Frames.not_contains_of_lt (by omega)

/-- A payload is never null. -/
theorem payload_ne_zero (h : Sound past w) {b : Block} (hb : b ∈ past) : b.payload ≠ 0 := by
  have h1 := (h.onHeap b hb).1
  intro h0
  simp only [Block.plot, h0, World.heapStart] at h1
  simp at h1

/-- Two blocks of the past whose plots reach a common address are one. -/
theorem block_eq (h : Sound past w) {b c : Block} (hb : b ∈ past) (hc : c ∈ past)
    {x n y m : Nat} (hx : b.plot.Covers x n) (hy : c.plot.Covers y m)
    (hmeet : x ≤ y + m ∧ y ≤ x + n) : b = c := by
  have hp := Plot.eq_of_pairwise h.apart (h.housed b hb) (h.housed c hc) hx hy hmeet
  exact h.unique b hb c hc (congrArg Plot.base hp)

theorem covers_payload (b : Block) : b.plot.Covers b.payload.toNat b.bytes := by
  refine ⟨Nat.le_refl _, ?_⟩
  simp only [Block.plot, Plot.stop]
  omega

/-- In the order of the table, each live block ends before the next one starts. -/
theorem disjoint (h : Sound past w) : w.heap.blocks.Pairwise fun b c =>
    b.payload.toNat < c.payload.toNat ∧ b.payload.toNat + b.bytes ≤ c.payload.toNat := by
  refine h.balanced.ascending.imp_of_mem ?_
  intro b c hb hc hlt
  refine ⟨hlt, Classical.byContradiction fun hmeet => ?_⟩
  have hsame := h.block_eq (h.live b hb) (h.live c hc) (covers_payload b) (covers_payload c)
    (by omega)
  rw [hsame] at hlt
  omega

/-- The length word of a record lies in its payload, after the head and before the tail. -/
theorem toNat_lengthAddress (h : Sound past w) {b : Block} (hb : b ∈ past) {σ τ : ElemType}
    (hs : b.stored = .tailed σ τ) :
    (b.lengthAddress σ).toNat = b.payload.toNat + Layout.Tailed.lengthOffset σ.layout ∧
      b.payload.toNat + Layout.Tailed.tailOffset σ.layout τ.layout + b.count.toNat * τ.layout.size
        ≤ b.payload.toNat + b.bytes := by
  have hshape := h.shaped b hb
  simp only [Block.Shaped, hs] at hshape
  have hlt := h.payload_add_lt hb
  have hoff := Layout.Tailed.lengthOffset_le_tailOffset σ.layout τ.layout
  refine ⟨Word.toNat_add_ofNat (by omega), by omega⟩

theorem covers_length (h : Sound past w) {b : Block} (hb : b ∈ past) {σ τ : ElemType}
    (hs : b.stored = .tailed σ τ) : b.plot.Covers (b.lengthAddress σ).toNat 8 := by
  obtain ⟨ha, hend⟩ := h.toNat_lengthAddress hb hs
  have hoff := Layout.Tailed.lengthOffset_le_tailOffset σ.layout τ.layout
  rw [ha]
  refine ⟨?_, ?_⟩
  · simp only [Block.plot]
    omega
  · simp only [Block.plot, Plot.stop]
    omega

/-! ## 4. What keeps a state sound -/

/-- What is written to the drop log is no concern of storage. -/
theorem log (h : Sound past w) (marks : Runs Int64) : Sound past { w with dropLog := marks } :=
  { h with }

/-- Calls and returns hand out no storage. -/
theorem reframe (h : Sound past w) {f : Frames} (hf : f.Windowed) (hused : f.used = w.frames.used) :
    Sound past { w with frames := f } :=
  { h with
    sited := hused ▸ h.sited
    used_le := hused ▸ h.used_le
    used_mod := hused ▸ h.used_mod
    windowed := hf }

/-- A new area that is apart from all others, put where the system allocator or a frame has moved
its end past. -/
theorem place (h : Sound past w) {a : Address} {cells : Runs Cell} {n : Nat} {f : Frames}
    (hap : ∀ r ∈ w.memory.plots, Plot.Apart ⟨a, cells.length⟩ r)
    (hsite : Plot.OnHeap n ⟨a, cells.length⟩ ∨ Plot.OnStack f.used ⟨a, cells.length⟩)
    (hn : w.nextFree ≤ n) (hend : n ≤ heapEnd) (hu : w.frames.used ≤ f.used)
    (hwin : f.used ≤ Frames.windowSize) (hmod : f.used % 16 = 0)
    (hf : f.Windowed) :
    Sound past { w with memory := w.memory.place a cells, nextFree := n, frames := f } :=
  { h with
    apart := List.pairwise_cons.mpr ⟨hap, h.apart⟩
    sited := by
      intro r hr
      rcases List.mem_cons.mp hr with rfl | hr'
      · exact hsite
      · rcases h.sited r hr' with hs | hs
        · exact .inl (hs.mono hn)
        · exact .inr (hs.mono hu)
    heapStart_le := Nat.le_trans h.heapStart_le hn
    le_heapEnd := hend
    used_le := hwin
    used_mod := hmod
    windowed := hf
    housed := fun b hb => List.mem_cons_of_mem _ (h.housed b hb)
    onHeap := fun b hb => (h.onHeap b hb).mono hn
    lengths := by
      intro b hb σ τ hs
      have hpast := h.live b hb
      rw [Memory.word?_place_of_apart (hap _ (h.housed b hpast)) (h.covers_length hpast hs)]
      exact h.lengths b hb σ τ hs }

/-- A new block at an area of its own, which no block of the past has had. -/
theorem register (h : Sound past w) {b : Block} (hplot : b.plot ∈ w.memory.plots)
    (hheap : b.plot.OnHeap w.nextFree) (hnew : ∀ c ∈ past, c.payload ≠ b.payload)
    (hshape : b.Shaped) (hlen : b.LengthKept w.memory) :
    Sound (b :: past) { w with heap := w.heap.register b } := by
  have hlive : ∀ c ∈ w.heap.blocks, c.payload ≠ b.payload := fun c hc => hnew c (h.live c hc)
  have hmem : ∀ c, c ∈ (w.heap.register b).blocks ↔ c = b ∨ c ∈ w.heap.blocks :=
    fun c => HeapTable.mem_insert hlive
  refine { h with live := ?_, shaped := ?_, housed := ?_, onHeap := ?_, unique := ?_,
                  balanced := h.balanced.register hlive, lengths := ?_ }
  · intro c hc
    rcases (hmem c).mp hc with rfl | hc'
    · exact List.mem_cons_self
    · exact List.mem_cons_of_mem _ (h.live c hc')
  · intro c hc
    rcases List.mem_cons.mp hc with rfl | hc'
    · exact hshape
    · exact h.shaped c hc'
  · intro c hc
    rcases List.mem_cons.mp hc with rfl | hc'
    · exact hplot
    · exact h.housed c hc'
  · intro c hc
    rcases List.mem_cons.mp hc with rfl | hc'
    · exact hheap
    · exact h.onHeap c hc'
  · intro c hc d hd he
    rcases List.mem_cons.mp hc with rfl | hc'
    · rcases List.mem_cons.mp hd with rfl | hd'
      · rfl
      · exact absurd he.symm (hnew d hd')
    · rcases List.mem_cons.mp hd with rfl | hd'
      · exact absurd he (hnew c hc')
      · exact h.unique c hc' d hd' he
  · intro c hc
    rcases (hmem c).mp hc with rfl | hc'
    · exact hlen
    · exact h.lengths c hc'

/-- A block that is taken out stays one of the past. -/
theorem take (h : Sound past w) {p : Address} {b : Block} {t : HeapTable}
    (ht : w.heap.take? p = some (b, t)) : Sound past { w with heap := t } :=
  { h with
    live := fun c hc => h.live c ((h.balanced.mem_take ht).mp hc).1
    balanced := (h.balanced.take ht).1
    lengths := fun c hc => h.lengths c ((h.balanced.mem_take ht).mp hc).1 }

/-- A write that misses the length words of live records. -/
theorem write (h : Sound past w) {a : Address} {cs : Runs Cell} {m : Memory}
    (hw : w.memory.write? a cs = some m)
    (hmiss : ∀ b ∈ w.heap.blocks, ∀ σ τ, b.stored = .tailed σ τ →
      (b.lengthAddress σ).toNat + 8 ≤ a.toNat ∨
        a.toNat + cs.length ≤ (b.lengthAddress σ).toNat) :
    Sound past { w with memory := m } := by
  have hplots := Memory.plots_write? hw
  refine { h with apart := ?_, sited := ?_, housed := ?_, lengths := ?_ }
  · simp only [hplots]
    exact h.apart
  · intro r hr
    simp only [hplots] at hr
    exact h.sited r hr
  · intro b hb
    simp only [hplots]
    exact h.housed b hb
  · intro b hb σ τ hs
    simp only
    rw [Memory.word?_write?_of_disjoint hw (hmiss b hb σ τ hs)]
    exact h.lengths b hb σ τ hs

/-- Where every live block is of the past already, adding the live ones adds nothing. -/
theorem keep (h : Sound past w) : Sound (w.heap.blocks ++ past) w := by
  refine h.congr fun b => ?_
  rw [List.mem_append]
  constructor
  · rintro (hb | hb)
    · exact h.live b hb
    · exact hb
  · exact .inr

/-- A block of the past that is live need not be named. -/
theorem settle {b : Block} (h : Sound (b :: past) w) (hb : b ∈ w.heap.blocks) :
    Sound (w.heap.blocks ++ past) w := by
  refine h.congr fun c => ?_
  rw [List.mem_append, List.mem_cons]
  constructor
  · rintro (hc | hc)
    · exact List.mem_cons.mp (h.live c hc)
    · exact .inr hc
  · rintro (rfl | hc)
    · exact .inl hb
    · exact .inr hc

end World.Sound

/-! ## 5. One state after another -/

/-- `w'` is a state that an operation may leave when it is run from `w`. -/
structure World.Follows (past : List Block) (w w' : World) : Prop where
  /-- It is sound once the blocks that are live now are added to those of the past. -/
  sound : World.Sound (w'.heap.blocks ++ past) w'
  /-- No area is removed. -/
  plots : ∀ r ∈ w.memory.plots, r ∈ w'.memory.plots
  /-- A block that was not live starts at an address never given out before. -/
  fresh : ∀ b ∈ w'.heap.blocks, b ∈ w.heap.blocks ∨ w.nextFree ≤ b.payload.toNat
  nextFree_le : w.nextFree ≤ w'.nextFree
  /-- Calls and returns are steps of their own. -/
  pointers_eq : w'.frames.pointers = w.frames.pointers

namespace World.Follows

variable {past : List Block} {w w₁ w' : World}

theorem refl (h : Sound past w) : Follows past w w where
  sound := h.keep
  plots _ hr := hr
  fresh _ hb := .inl hb
  nextFree_le := Nat.le_refl _
  pointers_eq := rfl

/-- Two parts of an operation, the first of which records no block. -/
theorem trans (h₁ : Follows past w w₁) (h₂ : Follows past w₁ w') : Follows past w w' where
  sound := h₂.sound
  plots r hr := h₂.plots r (h₁.plots r hr)
  fresh b hb := by
    rcases h₂.fresh b hb with hb | hb
    · exact h₁.fresh b hb
    · exact .inr (Nat.le_trans h₁.nextFree_le hb)
  nextFree_le := Nat.le_trans h₁.nextFree_le h₂.nextFree_le
  pointers_eq := h₂.pointers_eq.trans h₁.pointers_eq

theorem log (h : Sound past w) (marks : Runs Int64) : Follows past w { w with dropLog := marks } :=
  { refl h with sound := (h.log marks).keep }

theorem take (h : Sound past w) {p : Address} {b : Block} {t : HeapTable}
    (ht : w.heap.take? p = some (b, t)) : Follows past w { w with heap := t } :=
  { refl h with
    sound := (h.take ht).keep
    fresh := fun _ hc => .inl ((h.balanced.mem_take ht).mp hc).1 }

theorem write (h : Sound past w) {a : Address} {cs : Runs Cell} {m : Memory}
    (hw : w.memory.write? a cs = some m)
    (hmiss : ∀ b ∈ w.heap.blocks, ∀ σ τ, b.stored = .tailed σ τ →
      (b.lengthAddress σ).toNat + 8 ≤ a.toNat ∨
        a.toNat + cs.length ≤ (b.lengthAddress σ).toNat) :
    Follows past w { w with memory := m } :=
  { refl h with
    sound := (h.write hw hmiss).keep
    plots := fun r hr => by
      simp only [Memory.plots_write? hw]
      exact hr }

end World.Follows

end CheckedMemory
