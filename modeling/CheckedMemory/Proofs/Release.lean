import CheckedMemory.Proofs.Making
import CheckedMemory.Proofs.Settled

/-!
# Releasing and resizing soundly

In a sound state nothing can go wrong with a release except the one check that it makes: the memory
of a live block is there, so it can be read, overwritten and forgotten.  Hence a release succeeds
exactly on the start of a live block, and one that is refused leaves the state as it was.

A resize is a release and a new block, interleaved.  What it can do to a live block is said once
(`ArrayPtr.outcome_resize_cases`).  Where it stops between the two, the state that it leaves is
sound all the same; the old block is then one of the past.
-/

namespace CheckedMemory

open Operation

variable {past : List Block} {w w' : World} {b c : Block} {p : Address} {σ τ : ElemType}

/-! ## 1. Releasing a block -/

/-- Poison over one block misses the length word of every other. -/
theorem World.Sound.misses_of_ne (h : w.Sound past) (hb : b ∈ past) (hc : c ∈ past) (hne : c ≠ b)
    (hs : c.stored = .tailed σ τ) :
    (c.lengthAddress σ).toNat + 8 ≤ b.payload.toNat ∨
      b.payload.toNat + b.bytes ≤ (c.lengthAddress σ).toNat := by
  refine Classical.byContradiction fun hmeet => hne ?_
  exact h.block_eq hc hb (h.covers_length hc hs) (World.Sound.covers_payload b) (by omega)

/-- The memory of a block that was just taken out can be read and overwritten with poison. -/
theorem World.Sound.exists_poison (h : w.Sound past) {t : HeapTable}
    (ht : w.heap.take? p = some (b, t)) :
    ∃ cells m, w.memory.read? b.payload b.bytes = some cells ∧
      w.memory.write? b.payload (poison b.bytes) = some m ∧
      { w with heap := t, memory := m }.Sound past ∧
      w.Follows past { w with heap := t, memory := m } := by
  obtain ⟨hlive, -⟩ := h.settled.mem_of_take? ht
  have hpast := h.live b hlive
  have hlen : (poison b.bytes).length = b.bytes := Runs.length_replicate _ _
  obtain ⟨cells, m, hread, hwrite⟩ := h.settled.exists_poison hlive
  have hmiss : ∀ c ∈ t.blocks, ∀ σ τ, c.stored = .tailed σ τ →
      (c.lengthAddress σ).toNat + 8 ≤ b.payload.toNat ∨
        b.payload.toNat + (poison b.bytes).length ≤ (c.lengthAddress σ).toNat := by
    intro c hc σ τ hs
    obtain ⟨hclive, hne⟩ := (h.balanced.mem_take ht).mp hc
    rw [hlen]
    exact h.misses_of_ne hpast (h.live c hclive) hne hs
  exact ⟨cells, m, hread, hwrite, (h.take ht).write hwrite hmiss,
    (World.Follows.take h ht).trans (World.Follows.write (h.take ht) hwrite hmiss)⟩

/-- **A release of a live block succeeds**, takes it out of the table and changes no other entry. -/
theorem World.Sound.outcome_release (h : w.Sound past) (hb : b ∈ w.heap.blocks) :
    ∃ w' t, outcome (release b.payload) w = (.ok (), w') ∧
      w.heap.take? b.payload = some (b, t) ∧ w'.heap = t ∧ w.Follows past w' := by
  obtain ⟨t, cells, m, ht, hread, hwrite, ho⟩ := h.settled.release_eq hb
  obtain ⟨-, m', -, hwrite', -, hf⟩ := h.exists_poison ht
  obtain rfl := Option.some.inj (hwrite.symm.trans hwrite')
  refine ⟨_, t, ho, ht, rfl, ?_⟩
  exact ⟨hf.sound.log _, hf.plots, hf.fresh, hf.nextFree_le, hf.pointers_eq⟩

/-- A release of anything else is refused, and nothing has happened. -/
theorem outcome_release_of_not_live (h : w.heap.isLive p = false) :
    outcome (release p) w = (.error (.violation (.invalidFree p)), w) := by
  unfold release
  rw [outcome_bind_error _ (outcome_takeBlock_of_not_live h)]

theorem preserves_releaseUnlessNull (h : w.Sound past) (p : Address) :
    Preserves past (releaseUnlessNull p) w fun _ _ _ => True := by
  unfold releaseUnlessNull
  split
  · exact ensures_pure ⟨World.Follows.refl h, trivial⟩
  · cases hlive : w.heap.isLive p with
    | true =>
      obtain ⟨b, hb, rfl⟩ := HeapTable.isLive_iff.mp hlive
      obtain ⟨w', t, ho, -, -, hf⟩ := h.outcome_release hb
      exact ensures_of_ok ho ⟨hf, trivial⟩
    | false =>
      exact ensures_of_error (outcome_release_of_not_live hlive) (World.Follows.refl h)

/-- A block of elements has as many bytes as they take up. -/
theorem World.Sound.bytes_of_elements (h : w.Sound past) (hb : b ∈ past)
    (hs : b.stored = .elements τ) : b.bytes = b.count.toNat * τ.layout.size := by
  have hshape := h.shaped b hb
  simp only [Block.Shaped, hs] at hshape
  exact hshape.2

/-- And so many cells are read of it. -/
theorem World.Sound.length_of_elements (h : w.Sound past) (hb : b ∈ past)
    (hs : b.stored = .elements τ) {old : Runs Cell}
    (hread : w.memory.read? b.payload b.bytes = some old) :
    old.length = b.count.toNat * τ.layout.size :=
  (Memory.length_of_read? hread).trans (h.bytes_of_elements hb hs)

/-! ## 2. Resizing an array -/

namespace ArrayPtr

/-- What an array of its own live block is: the block at its base, with elements of its type. -/
theorem exists_block_of_ownsBlock {p : ArrayPtr τ} (h : p.ownsBlock w = true) :
    ∃ b ∈ w.heap.blocks, b.payload = p.span.base ∧ b.stored = .elements τ := by
  unfold ownsBlock at h
  split at h
  · rename_i b hb
    simp only [Bool.and_eq_true, beq_iff_eq] at h
    exact ⟨b, (HeapTable.containing?_eq_some hb).1, h.1, h.2⟩
  · exact absurd h (by decide)

/-- The cells of an array that is resized from `n` elements: those that move, and default cells. -/
def resizedCells (τ : ElemType) (n count : UInt64) (old : Runs Cell) : Runs Cell :=
  old.take ((min n count).toNat * τ.layout.size) ++ τ.replicate (count - min n count) τ.default

/-- They are as many as the new count asks for. -/
theorem length_resizedCells {old : Runs Cell} {n count : UInt64}
    (hold : old.length = n.toNat * τ.layout.size) :
    (resizedCells τ n count old).length = count.toNat * τ.layout.size := by
  have hmin := Word.toNat_min n count
  have hkept : (min n count).toNat * τ.layout.size ≤ n.toNat * τ.layout.size :=
    Nat.mul_le_mul_right _ (by omega)
  have hrest : (count - min n count).toNat = count.toNat - (min n count).toNat :=
    UInt64.toNat_sub_of_le _ _ (UInt64.le_iff_toNat_le.mpr (by omega))
  rw [resizedCells, Runs.length_append, Runs.length_take, ElemType.length_replicate, hold, hrest,
    Nat.min_eq_left hkept, ← Nat.add_mul]
  congr 1
  omega

/-- The block that an array is resized to, in room that was reserved. -/
def movedBlock (τ : ElemType) (b : Block) (count : UInt64) (old : Runs Cell) (r : Reservation) :
    Block :=
  ⟨r.base, r.layout, r.payload, (resizedCells τ b.count count old).length, count, .elements τ,
    b.traced⟩

/-- The state after a resize of `b` to there: its entry is out of the table, in `t`, its cells were
`old`, and `m` has poison in their place. -/
def movedWorld (w : World) (τ : ElemType) (b : Block) (count : UInt64) (t : HeapTable)
    (old : Runs Cell) (m : Memory) (r : Reservation) (next : Nat) : World :=
  { w with
    nextFree := next
    memory := m.place r.payload (room (resizedCells τ b.count count old))
    heap := t.register (movedBlock τ b count old r)
    dropLog := w.dropLog ++ τ.dropMarksAll (b.count - min b.count count).toNat
      (old.drop ((min b.count count).toNat * τ.layout.size)) }

section Outcomes

variable {request : Request} {p : ArrayPtr τ} {t : HeapTable} {old : Runs Cell} {m : Memory}
  {r : Reservation} {f : Fault} {w₁ : World} {next : Nat} {count : UInt64}
  (hnull : p.span.isNull = false) (howns : p.ownsBlock w = true) (hbase : b.payload = p.span.base)
  (ht : w.heap.take? b.payload = some (b, t))

include hnull howns hbase ht

/-- A resize of a live block of its own type goes on once the block is taken out. -/
theorem outcome_resize_taken : outcome (p.resize count request) w =
    outcome (do
      let r ← reserve τ count τ.align request
      let old ← load b.payload b.bytes
      let kept := min b.count count
      store b.payload (poison b.bytes)
      logDrops (τ.dropMarksAll (b.count - kept).toNat (old.drop (kept.toNat * τ.layout.size)))
      record r (.elements τ) count b.traced
        (old.take (kept.toNat * τ.layout.size) ++ τ.replicate (count - kept) τ.default)
      return (ofBase r.payload count : ArrayPtr τ)) { w with heap := t } := by
  have hrequire : outcome (require (p.ownsBlock w) (.invalidFree p.span.base)) w = (.ok (), w) := by
    rw [howns]
    rfl
  unfold resize
  rw [hnull, if_neg Bool.false_ne_true, outcome_bind_ok _ (outcome_get w),
    outcome_bind_ok _ hrequire, ← hbase, outcome_bind_ok _ (outcome_takeBlock ht)]

/-- Where no room can be reserved, the block is out of the table and nothing else has changed. -/
theorem outcome_resize_of_error
    (hr : outcome (reserve τ count τ.align request) { w with heap := t } = (.error f, w₁)) :
    outcome (p.resize count request) w = (.error f, w₁) := by
  rw [outcome_resize_taken hnull howns hbase ht]
  exact outcome_bind_error _ hr

/-- Where room was reserved, the block is moved there. -/
theorem outcome_resize_of_ok (hread : w.memory.read? b.payload b.bytes = some old)
    (hwrite : w.memory.write? b.payload (poison b.bytes) = some m)
    (hr : outcome (reserve τ count τ.align request) { w with heap := t } =
      (.ok r, { w with heap := t, nextFree := next })) :
    outcome (p.resize count request) w =
      (.ok (ofBase r.payload count), movedWorld w τ b count t old m r next) := by
  have hload := outcome_load (w := { w with heap := t, nextFree := next }) hread
  have hstore := outcome_store (w := { w with heap := t, nextFree := next }) hwrite
  rw [outcome_resize_taken hnull howns hbase ht]
  exact (outcome_bind_ok _ hr).trans
    ((outcome_bind_ok _ hload).trans (outcome_bind_ok _ hstore))

end Outcomes

/-- The block that an array is resized to, at what the system allocator gives. -/
def resizedBlock (w : World) (τ : ElemType) (b : Block) (count : UInt64) (l : Layout)
    (old : Runs Cell) : Block :=
  movedBlock τ b count old ⟨UInt64.ofNat (w.grantBase l), l.nonempty,
    Reservation.payloadAt τ (UInt64.ofNat (w.grantBase l)) τ.align⟩

/-- The state after a resize of `b` to there. -/
def resizedWorld (w : World) (τ : ElemType) (b : Block) (count : UInt64) (l : Layout)
    (t : HeapTable) (old : Runs Cell) (m : Memory) : World :=
  movedWorld w τ b count t old m ⟨UInt64.ofNat (w.grantBase l), l.nonempty,
    Reservation.payloadAt τ (UInt64.ofNat (w.grantBase l)) τ.align⟩ (w.grantEnd l)

/-- **All that a resize of a live block of its own type can do.**  It moves the block if a layout
satisfies the request and there is room; if not, the block is out of the table and nothing else has
changed. -/
theorem outcome_resize_cases {p : ArrayPtr τ} {t : HeapTable} {old : Runs Cell} {m : Memory}
    (hnull : p.span.isNull = false) (howns : p.ownsBlock w = true) (hbase : b.payload = p.span.base)
    (ht : w.heap.take? b.payload = some (b, t))
    (hread : w.memory.read? b.payload b.bytes = some old)
    (hwrite : w.memory.write? b.payload (poison b.bytes) = some m) (count : UInt64) :
    (∃ l, Reservation.layout? τ count τ.align = some l ∧ w.grantEnd l ≤ World.heapEnd ∧
      outcome (p.resize count) w = (.ok (ofBase (resizedBlock w τ b count l old).payload count),
        resizedWorld w τ b count l t old m)) ∨
    (¬∃ l, Reservation.layout? τ count τ.align = some l ∧ w.grantEnd l ≤ World.heapEnd) ∧
      ∃ f, outcome (p.resize count) w = (.error f, { w with heap := t }) := by
  have hreserve := ensures_reserve (w := { w with heap := t }) τ count τ.align
  rcases hr : outcome (reserve τ count τ.align) { w with heap := t } with ⟨f | r, w₁⟩
  · obtain ⟨rfl, -⟩ := hreserve.of_error hr
    refine .inr ⟨?_, f, outcome_resize_of_error hnull howns hbase ht hr⟩
    rintro ⟨l, hl, hfit⟩
    rw [outcome_reserve (w := { w with heap := t }) hl hfit] at hr
    cases hr
  · obtain ⟨l, hl, rfl, hfit, rfl⟩ := hreserve.of_ok hr
    exact .inl ⟨l, hl, hfit, outcome_resize_of_ok hnull howns hbase ht hread hwrite hr⟩

/-- The state after a resize follows, and holds the elements of the new block. -/
theorem follows_resizedWorld (h : w.Sound past) {count : UInt64} {t : HeapTable} {old : Runs Cell}
    {m : Memory} {l : Layout} (hb : b ∈ w.heap.blocks) (hs : b.stored = .elements τ)
    (ht : w.heap.take? b.payload = some (b, t))
    (hread : w.memory.read? b.payload b.bytes = some old)
    (hwrite : w.memory.write? b.payload (poison b.bytes) = some m)
    (hl : Reservation.layout? τ count τ.align = some l) (hfit : w.grantEnd l ≤ World.heapEnd) :
    let w' := resizedWorld w τ b count l t old m
    w.Follows past w' ∧ (ofBase (resizedBlock w τ b count l old).payload count : ArrayPtr τ).Held
      (w'.heap.blocks ++ past) w' := by
  obtain ⟨-, m', -, hwrite', hsound, hf⟩ := h.exists_poison ht
  obtain rfl := Option.some.inj (hwrite.symm.trans hwrite')
  have hold := h.length_of_elements (h.live b hb) hs hread
  obtain ⟨hf', hheld⟩ := (hsound.log _).record_elements hl hfit (align_ok τ) b.traced
    (length_resizedCells hold)
  exact ⟨(hf.trans (World.Follows.log hsound _)).trans hf', hheld⟩

theorem preserves_resize (h : w.Sound past) (p : ArrayPtr τ) (count : UInt64) :
    Preserves past (p.resize count) w (Fresh count) := by
  cases hnull : p.span.isNull with
  | true =>
    unfold resize
    rw [if_pos hnull]
    exact preserves_new h count false
  | false =>
    cases howns : p.ownsBlock w with
    | false =>
      exact ensures_of_error (outcome_resize_of_not_owned count hnull howns) (World.Follows.refl h)
    | true =>
      obtain ⟨b, hb, hbase, hs⟩ := exists_block_of_ownsBlock howns
      obtain ⟨t, ht⟩ := h.settled.exists_take? hb
      obtain ⟨old, m, hread, hwrite, -, -⟩ := h.exists_poison ht
      rcases outcome_resize_cases hnull howns hbase ht hread hwrite count with
        ⟨l, hl, hfit, ho⟩ | ⟨-, f, ho⟩
      · obtain ⟨hf, hheld⟩ := follows_resizedWorld h hb hs ht hread hwrite hl hfit
        exact ensures_of_ok ho ⟨hf, rfl, rfl, hheld⟩
      · exact ensures_of_error ho (World.Follows.take h ht)

end ArrayPtr

end CheckedMemory
