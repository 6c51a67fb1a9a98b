import CheckedMemory.Proofs.Contents
import CheckedMemory.Proofs.Resize

/-!
# Live blocks and their memory

`World.Settled` is what releases and resizes need of a state: the table is in order, live blocks do
not overlap, each is shaped as it is recorded, and its memory is there.  It speaks of live blocks
alone.  Where a block was released another one may be, wholly or in part, if the system allocator
gives memory again; that is why nothing is said of the blocks of the past, and why it is kept where
`World.Sound` is not.

In a sound state it holds (`World.Sound.settled`).  Main statement: `World.Settled.release_eq`.
-/

namespace CheckedMemory

open Operation

variable {past : List Block} {w : World} {m m' : Memory} {b c : Block} {t : HeapTable}
  {a p : Address} {n : Nat} {cells cs : Runs Cell}

/-! ## 1. Memory beside a new area -/

/-- Addresses `[a, a + n)` and `[c, c + k)` have none in common. -/
def Clear (a : Address) (n : Nat) (c : Address) (k : Nat) : Prop :=
  a.toNat + n ≤ c.toNat ∨ c.toNat + k ≤ a.toNat

namespace Memory

/-- A new area unmaps nothing. -/
theorem isMapped_place (h : m.isMapped a n = true) : (m.place p cs).isMapped a n = true := by
  by_cases hn : n = 0
  · simp [isMapped, hn]
  · obtain ⟨r, hr, hc⟩ := (isMapped_iff hn).mp h
    exact isMapped_of_covers (List.mem_cons_of_mem _ hr) hc

/-- **It hides only what lies under it**: what is disjoint from it reads as it did. -/
theorem cells_place_of_disjoint (hd : Clear a n p cs.length) :
    (m.place p cs).cells a n = m.cells a n := by
  by_cases hn : n = 0
  · simp [cells, read?, hn]
  · have hmiss : ¬(Area.mk p cs).covers a n = true := by
      rw [Area.covers_iff]
      rintro ⟨hlo, hhi⟩
      simp only [Area.plot, Plot.stop] at hlo hhi
      rcases hd with hd | hd
      · omega
      · omega
    rw [cells, cells, read?, read?, if_neg hn, if_neg hn]
    simp only [area?, place, List.find?_cons, Bool.eq_false_iff.mpr hmiss]

/-- Poison is all that can be read where it was written, and nothing beside it changes. -/
theorem cells_poison (hw : m.write? p (poison n) = some m') :
    m'.cells p n = List.replicate n (.byte poisonByte) ∧
      ∀ (a : Address) k, Clear a k p n → m'.cells a k = m.cells a k := by
  have hlen : (poison n).length = n := Runs.length_replicate _ _
  have hsame := cells_write?_same hw
  rw [hlen] at hsame
  refine ⟨hsame.trans (Runs.toList_replicate _ _), fun a k hd => ?_⟩
  exact cells_write?_of_disjoint hw (by rwa [hlen])

end Memory

/-! ## 2. Settled states -/

/-- What holds of the live blocks of a state, whatever became of the others. -/
structure World.Settled (w : World) : Prop where
  balanced : w.heap.Balanced
  spaced : HeapTable.Spaced w.heap.blocks
  started : ∀ b ∈ w.heap.blocks, b.payload ≠ 0
  shaped : ∀ b ∈ w.heap.blocks, b.Shaped
  mapped : ∀ b ∈ w.heap.blocks, w.memory.isMapped b.payload b.bytes = true

theorem World.Sound.settled (h : w.Sound past) : w.Settled where
  balanced := h.balanced
  spaced := h.disjoint
  started b hb := h.payload_ne_zero (h.live b hb)
  shaped b hb := h.shaped b (h.live b hb)
  mapped b hb :=
    Memory.isMapped_of_covers (h.housed b (h.live b hb)) (World.Sound.covers_payload b)

namespace World.Settled

/-- A run starts in a settled state. -/
theorem initial : World.initial.Settled := World.Sound.initial.settled

variable (h : w.Settled)

include h

/-- No two live blocks start at the same payload. -/
theorem pairwise_payload : w.heap.blocks.Pairwise fun b d => b.payload ≠ d.payload :=
  h.balanced.ascending.imp fun hlt he => by
    rw [he] at hlt
    omega

theorem nodup_blocks : w.heap.blocks.Nodup :=
  h.pairwise_payload.imp fun hne he => hne (congrArg Block.payload he)

/-- Two live blocks have no byte in common. -/
theorem disjoint_of_ne (hb : b ∈ w.heap.blocks) (hc : c ∈ w.heap.blocks) (hne : c ≠ b) :
    Clear c.payload c.bytes b.payload b.bytes :=
  (h.spaced.before_or_before hc hb hne).imp And.right And.right

theorem exists_take? (hb : b ∈ w.heap.blocks) : ∃ t, w.heap.take? b.payload = some (b, t) := by
  have hat := h.balanced.blockAt?_iff.mpr ⟨hb, rfl⟩
  exact ⟨_, by rw [HeapTable.take?, hat]; rfl⟩

/-- The block that is taken out is a live one with its start at the payload named. -/
theorem mem_of_take? (ht : w.heap.take? p = some (b, t)) : b ∈ w.heap.blocks ∧ b.payload = p :=
  h.balanced.blockAt?_iff.mp (HeapTable.take?_eq_some ht).1

/-- The memory of a live block can be read and overwritten with poison. -/
theorem exists_poison (hb : b ∈ w.heap.blocks) :
    ∃ cells m, w.memory.read? b.payload b.bytes = some cells ∧
      w.memory.write? b.payload (poison b.bytes) = some m := by
  have hmapped := h.mapped b hb
  have hlen : (poison b.bytes).length = b.bytes := Runs.length_replicate _ _
  obtain ⟨cells, hread⟩ := Memory.exists_read?_of_isMapped hmapped
  obtain ⟨m, hwrite⟩ : ∃ m, w.memory.write? b.payload (poison b.bytes) = some m :=
    Memory.exists_write?_of_isMapped (hlen.symm ▸ hmapped)
  exact ⟨cells, m, hread, hwrite⟩

/-- **What a release of a live block leaves**: the table without it, poison in its place, and in the
log the release of what its cells hold. -/
theorem release_eq (hb : b ∈ w.heap.blocks) :
    ∃ t cells m, w.heap.take? b.payload = some (b, t) ∧
      w.memory.read? b.payload b.bytes = some cells ∧
      w.memory.write? b.payload (poison b.bytes) = some m ∧
      outcome (release b.payload) w = (.ok (), { w with
        heap := t
        memory := m
        dropLog := w.dropLog ++ b.stored.dropMarks b.count.toNat cells }) := by
  obtain ⟨t, ht⟩ := h.exists_take? hb
  obtain ⟨cells, m, hread, hwrite⟩ := h.exists_poison hb
  have hload := outcome_load (w := { w with heap := t }) hread
  have hstore := outcome_store (w := { w with heap := t }) hwrite
  refine ⟨t, cells, m, ht, hread, hwrite, ?_⟩
  unfold release
  rw [outcome_bind_ok _ (outcome_takeBlock ht), outcome_bind_ok _ hload, outcome_bind_ok _ hstore]
  rfl

/-! ## 3. What keeps a state settled -/

/-- Taking a block out. -/
theorem take (ht : w.heap.take? p = some (b, t)) : { w with heap := t }.Settled := by
  have hlive : ∀ {c}, c ∈ t.blocks → c ∈ w.heap.blocks :=
    fun hc => ((h.balanced.mem_take ht).mp hc).1
  have hblocks : t.blocks.Sublist w.heap.blocks := by
    obtain ⟨-, rfl⟩ := HeapTable.take?_eq_some ht
    exact List.filter_sublist
  exact {
    balanced := (h.balanced.take ht).1
    spaced := h.spaced.sublist hblocks
    started := fun c hc => h.started c (hlive hc)
    shaped := fun c hc => h.shaped c (hlive hc)
    mapped := fun c hc => h.mapped c (hlive hc) }

/-- Any change that leaves the table as it is and unmaps nothing. -/
theorem congr {w' : World} (hheap : w'.heap = w.heap)
    (hmapped : ∀ a n, w.memory.isMapped a n = true → w'.memory.isMapped a n = true) :
    w'.Settled := by
  refine ⟨?_, ?_, ?_, ?_, ?_⟩
  · exact hheap ▸ h.balanced
  · exact hheap ▸ h.spaced
  · exact hheap ▸ h.started
  · exact hheap ▸ h.shaped
  · rw [hheap]
    exact fun b hb => hmapped _ _ (h.mapped b hb)

/-- A new block in memory of its own, clear of all live ones. -/
theorem register (hclear : ∀ c ∈ w.heap.blocks, c.Before b ∨ b.Before c) (hne : b.payload ≠ 0)
    (hshape : b.Shaped) (hmapped : w.memory.isMapped b.payload b.bytes = true) :
    { w with heap := w.heap.register b }.Settled := by
  have hnew : ∀ c ∈ w.heap.blocks, c.payload ≠ b.payload := by
    intro c hc he
    rcases hclear c hc with hlt | hlt
    · exact Nat.ne_of_lt hlt.1 (congrArg UInt64.toNat he)
    · exact Nat.ne_of_lt hlt.1 (congrArg UInt64.toNat he.symm)
  have hmem : ∀ {c}, c ∈ (w.heap.register b).blocks ↔ c = b ∨ c ∈ w.heap.blocks :=
    HeapTable.mem_insert hnew
  have hbalanced := h.balanced.register hnew
  refine ⟨hbalanced, ?_, ?_, ?_, ?_⟩
  · -- in ascending order, the one that comes before is the one that is listed first
    refine hbalanced.ascending.imp_of_mem fun {c d} hc hd hlt => ?_
    have heither : c.Before d ∨ d.Before c := by
      rcases hmem.mp hc with rfl | hc'
      · rcases hmem.mp hd with rfl | hd'
        · omega
        · exact (hclear d hd').symm
      · rcases hmem.mp hd with rfl | hd'
        · exact hclear c hc'
        · exact h.spaced.before_or_before hc' hd' fun he => by subst he; omega
    rcases heither with hbefore | hafter
    · exact hbefore
    · have := hafter.1
      omega
  · intro c hc
    rcases hmem.mp hc with rfl | hc'
    · exact hne
    · exact h.started c hc'
  · intro c hc
    rcases hmem.mp hc with rfl | hc'
    · exact hshape
    · exact h.shaped c hc'
  · intro c hc
    rcases hmem.mp hc with rfl | hc'
    · exact hmapped
    · exact h.mapped c hc'

end World.Settled

end CheckedMemory
