import CheckedMemory.Proofs.Grants

/-!
# The heap table over runs

`World.Accounted` says what holds of the heap table: each entry is found under its own payload,
payloads do not overlap, the counters are what the blocks make them, and a release succeeds exactly
on the start of a live block, which it takes out and nothing else.

It holds in every state of every run in which blocks are made, resized and released, whatever the
system allocator answers and whether or not it gives memory again.  The events of a run
(`World.RunsTo`) are read off what its operations gave: at each address the allocations are as many
as the releases, the losses to a resize that failed, and one more where a block is live
(`World.RunsTo.balance`).  So no allocation is released twice, through however many handles.  A
stale handle is no exception where its address was given again: what it releases then is the new
allocation.

The states of a program are accounted for too.  There no address is given twice, and so what was
released is never the start of a live block again.

Main statement: `Program.heap_accounted`.
-/

namespace CheckedMemory

open Operation

variable {w v v' : World} {b : Block} {base p : Address} {request : Request} {t t' : HeapTable}

/-! ## 1. Releases -/

namespace Program.Frees

variable {a : Operation Handle}

/-- A release of a live block takes it out of the table, and then it is not live. -/
theorem outcome_of_mem (h : w.Settled) (ha : Frees b.payload a) (hb : b ∈ w.heap.blocks) :
    ∃ n w', outcome a w = (.ok n, w') ∧ n.IsNull ∧
      w.heap.take? b.payload = some (b, w'.heap) ∧ w'.heap.isLive b.payload = false := by
  obtain ⟨n, hn, rfl⟩ := ha.eq_release
  obtain ⟨t, cells, m, ht, -, -, ho⟩ := h.release_eq hb
  rw [releaseUnlessNull, if_neg (h.started b hb)]
  exact ⟨n, _, outcome_bind_ok (fun _ => pure n) ho, hn, ht, HeapTable.isLive_take? ht⟩

/-- A release of anything else but null is refused, and nothing has happened. -/
theorem outcome_of_not_live (ha : Frees base a) (hne : base ≠ 0)
    (hdead : w.heap.isLive base = false) :
    outcome a w = (.error (.violation (.invalidFree base)), w) := by
  obtain ⟨n, -, rfl⟩ := ha.eq_release
  rw [releaseUnlessNull, if_neg hne, outcome_bind_error _ (outcome_release_of_not_live hdead)]

/-- A release of null does nothing. -/
theorem outcome_of_null (ha : Frees 0 a) : ∃ n : Handle, n.IsNull ∧ outcome a w = (.ok n, w) := by
  obtain ⟨n, hn, rfl⟩ := ha.eq_release
  exact ⟨n, hn, rfl⟩

/-- **A release of anything but null succeeds exactly on the start of a live block.** -/
theorem succeeds_iff (h : w.Settled) (ha : Frees base a) (hne : base ≠ 0) :
    (∃ n w', outcome a w = (.ok n, w')) ↔ ∃ b ∈ w.heap.blocks, b.payload = base := by
  constructor
  · rintro ⟨n, w', ho⟩
    refine HeapTable.isLive_iff.mp ?_
    cases hlive : w.heap.isLive base with
    | true => rfl
    | false =>
      rw [ha.outcome_of_not_live hne hlive] at ho
      cases ho
  · rintro ⟨b, hb, rfl⟩
    obtain ⟨n, w', ho, -⟩ := ha.outcome_of_mem h hb
    exact ⟨n, w', ho⟩

/-- What a release leaves: the state as it was, or a live block is out of the table and poisoned. -/
theorem world_cases (h : w.Settled) (ha : Frees base a) :
    (outcome a w).2 = w ∨ ∃ b t m log, w.heap.take? b.payload = some (b, t) ∧
      w.memory.write? b.payload (poison b.bytes) = some m ∧
        (outcome a w).2 = { w with heap := t, memory := m, dropLog := log } := by
  by_cases hnull : base = 0
  · subst hnull
    obtain ⟨n, -, ho⟩ := ha.outcome_of_null (w := w)
    exact .inl (congrArg Prod.snd ho)
  · cases hlive : w.heap.isLive base with
    | false => exact .inl (congrArg Prod.snd (ha.outcome_of_not_live hnull hlive))
    | true =>
      obtain ⟨b, hb, rfl⟩ := HeapTable.isLive_iff.mp hlive
      obtain ⟨n, -, rfl⟩ := ha.eq_release
      obtain ⟨t, cells, m, ht, -, hwrite, ho⟩ := h.release_eq hb
      rw [releaseUnlessNull, if_neg hnull]
      exact .inr ⟨b, t, m, _, ht, hwrite, congrArg Prod.snd (outcome_bind_ok (fun _ => pure n) ho)⟩

/-- It is lodged as it was. -/
theorem lodged (h : w.Lodged) (ha : Frees base a) : (outcome a w).2.Lodged := by
  rcases ha.world_cases h.settled with ho | ⟨b, t, m, log, ht, hwrite, ho⟩
  · rw [ho]
    exact h
  · rw [ho]
    refine ⟨(h.settled.take ht).congr rfl fun a n hm => ?_, h.kept.take ht⟩
    exact (Memory.isMapped_write? hwrite a n).trans hm

end Program.Frees

/-! ## 2. The table of a state -/

/-- What holds of the heap table of a state. -/
structure World.Accounted (w : World) : Prop where
  keyed : ∀ {p b}, w.heap.blockAt? p = some b ↔ b ∈ w.heap.blocks ∧ b.payload = p
  /-- Each block ends before the next one starts. -/
  disjoint : w.heap.blocks.Pairwise fun b c =>
    b.payload.toNat < c.payload.toNat ∧ b.payload.toNat + b.bytes ≤ c.payload.toNat
  counted : w.heap.stats.liveBlocks + w.heap.stats.frees = w.heap.stats.allocations
  summed : w.heap.stats.liveBytes = (w.heap.blocks.map Block.bytes).sum
  /-- What is subtracted for a block was counted in. -/
  subtracted : ∀ {p b t}, w.heap.take? p = some (b, t) → t.liveBytes + b.bytes = w.heap.liveBytes
  frees : ∀ {base a}, Program.Frees base a → base ≠ 0 →
    ((∃ n w', outcome a w = (.ok n, w')) ↔ ∃ b ∈ w.heap.blocks, b.payload = base)
  taken : ∀ {b a}, Program.Frees b.payload a → b ∈ w.heap.blocks →
    ∃ n w', outcome a w = (.ok n, w') ∧ n.IsNull ∧
      w.heap.take? b.payload = some (b, w'.heap) ∧ w'.heap.isLive b.payload = false
  refused : ∀ {base a}, Program.Frees base a → base ≠ 0 → w.heap.isLive base = false →
    outcome a w = (.error (.violation (.invalidFree base)), w)

theorem World.Settled.accounted (h : w.Settled) : w.Accounted where
  keyed := h.balanced.blockAt?_iff
  disjoint := h.spaced
  counted := h.balanced.counted
  summed := h.balanced.summed
  subtracted ht := (h.balanced.take ht).2
  frees ha hne := ha.succeeds_iff h hne
  taken ha hb := ha.outcome_of_mem h hb
  refused ha hne hdead := ha.outcome_of_not_live hne hdead

/-! ## 3. Runs and their events -/

/-- What happened to an allocation at an address. -/
inductive Event where
  | allocated (p : Address)
  | released (p : Address)
  /-- By a resize that took the block out and then found no memory. -/
  | lost (p : Address)
deriving DecidableEq

namespace Event

/-- The allocation that a making gave a handle to. -/
def ofMaking : Except Fault (List Handle) → List Event
  | .ok hs => (hs.filterMap Handle.storage?).map allocated
  | .error _ => []

/-- The allocation that was released at an address, if that succeeded.  Null is none. -/
def ofRelease (p : Address) : Except Fault Handle → List Event
  | .ok _ => if p = 0 then [] else [released p]
  | .error _ => []

/-- What a resize of the array at `p` did.  If it is null one is made; and unless it was refused at
once, the old one is gone. -/
def ofResize {τ : ElemType} (p : Address) : Except Fault (ArrayPtr τ) → List Event
  | .ok q => (if p = 0 then [] else [released p]) ++ [allocated q.span.base]
  | .error (.violation (.invalidFree _)) => []
  | .error _ => if p = 0 then [] else [lost p]

theorem ofResize_null {τ : ElemType} (f : Fault) :
    ofResize (τ := τ) 0 (.error f) = [] := by
  unfold ofResize
  split <;> simp_all

theorem ofResize_lost {τ : ElemType} {f : Fault} (hp : p ≠ 0)
    (hf : ∀ a, f ≠ .violation (.invalidFree a)) : ofResize (τ := τ) p (.error f) = [.lost p] := by
  unfold ofResize
  split <;> simp_all

end Event

/-- A run from one state to another, with its events.  Every step may be served by the system
allocator in another way, and anything may come between that leaves the table as it is and unmaps
nothing. -/
inductive World.RunsTo (w : World) : List Event → World → Prop where
  | start : RunsTo w [] w
  | make {es v request a} (h : RunsTo w es v) (hs : Serves request v)
      (ha : Program.MakesBlock request a) :
    RunsTo w (es ++ Event.ofMaking (outcome a v).1) (outcome a v).2
  /-- Through any handle: a copy, a stale one, one to the inside of a block or to the stack. -/
  | free {es v base a} (h : RunsTo w es v) (ha : Program.Frees base a) :
    RunsTo w (es ++ Event.ofRelease base (outcome a v).1) (outcome a v).2
  | resize {es v request τ} (h : RunsTo w es v) (hs : Serves request v) (p : ArrayPtr τ) (count) :
    RunsTo w (es ++ Event.ofResize p.span.base (outcome (p.resize count request) v).1)
      (outcome (p.resize count request) v).2
  | other {es v v'} (h : RunsTo w es v) (hheap : v'.heap = v.heap)
      (hmapped : ∀ a n, v.memory.isMapped a n = true → v'.memory.isMapped a n = true) :
    RunsTo w es v'

namespace HeapTable

/-- How many live blocks start at an address: one or none. -/
def liveAt (t : HeapTable) (p : Address) : Nat := if t.isLive p then 1 else 0

theorem liveAt_register (hnew : t.isLive b.payload = false) (p : Address) :
    (t.register b).liveAt p = t.liveAt p + if b.payload = p then 1 else 0 := by
  unfold liveAt
  by_cases hp : b.payload = p
  · subst hp
    rw [isLive, blockAt?_register, hnew]
    simp
  · rw [isLive_register_of_ne (Ne.symm hp), if_neg hp, Nat.add_zero]

theorem liveAt_take? (ht : t.take? base = some (b, t')) (p : Address) :
    t'.liveAt p + (if base = p then 1 else 0) = t.liveAt p := by
  unfold liveAt
  by_cases hp : base = p
  · subst hp
    have hlive : t.isLive base = true := by
      rw [isLive, (take?_eq_some ht).1]
      rfl
    rw [isLive_take? ht, hlive]
    simp
  · rw [isLive_take?_of_ne ht (Ne.symm hp), if_neg hp, Nat.add_zero]

end HeapTable

namespace World

/-- The events between two states account for what is live at an address. -/
def Balances (p : Address) (w : World) (es : List Event) (v : World) : Prop :=
  w.heap.liveAt p + es.count (.allocated p) =
    es.count (.released p) + es.count (.lost p) + v.heap.liveAt p

namespace Balances

theorem trans {es es' : List Event} (h : Balances p w es v) (h' : Balances p v es' v') :
    Balances p w (es ++ es') v' := by
  unfold Balances at h h' ⊢
  rw [List.count_append, List.count_append, List.count_append]
  omega

theorem of_heap_eq (h : v.heap = w.heap) : Balances p w [] v := by
  unfold Balances
  rw [h]
  simp

/-- A block is made where none was live. -/
theorem allocated (hheap : v.heap = w.heap.register b) (hnew : w.heap.isLive b.payload = false) :
    Balances p w [.allocated b.payload] v := by
  unfold Balances
  rw [hheap, HeapTable.liveAt_register hnew]
  simp [List.count_singleton]

/-- A block is taken out by a release, or lost. -/
theorem taken (ht : w.heap.take? base = some (b, v.heap)) :
    Balances p w [.released base] v ∧ Balances p w [.lost base] v := by
  have hlive := HeapTable.liveAt_take? ht p
  unfold Balances
  simp [List.count_singleton]
  omega

end Balances

end World

/-! ## 4. What a run does to the table -/

/-- What was live stays lodged as it was, and the events account for the table. -/
structure World.Enters (w : World) (es : List Event) (v : World) : Prop where
  lodged : v.Lodged
  balances : ∀ p, World.Balances p w es v

namespace World

theorem Logs.enters (hl : w.Logs v) (h : w.Lodged) : w.Enters [] v := by
  refine ⟨hl.lodged h, fun p => .of_heap_eq ?_⟩
  obtain ⟨log, -, rfl⟩ := hl
  rfl

/-- A block is made where none was live. -/
theorem Obtains.enters {q : Handle} (ho : w.Obtains q w') (h : w.Lodged)
    (hq : q.storage? = some p) : w.Enters [.allocated p] w' := by
  obtain ⟨b, v, cells, hto, hl, hg⟩ := ho
  obtain rfl : b.payload = p := Option.some.inj (hto.starts.symm.trans hq)
  have hv := hl.lodged h
  obtain ⟨log, -, rfl⟩ := hl
  have hnew : w.heap.isLive b.payload = false := by
    refine Bool.eq_false_iff.mpr fun hlive => ?_
    obtain ⟨c, hc, hpayload⟩ := HeapTable.isLive_iff.mp hlive
    exact hg.ne_payload hc (h.kept.lodged c hc) hpayload
  refine ⟨hg.lodges hv fun c hc => hc, fun p => .allocated ?_ hnew⟩
  obtain ⟨next, rfl⟩ := hg.made
  rfl

/-- A block is taken out, and then another one is recorded where none was live. -/
theorem Reseats.enters {τ : ElemType} {count : UInt64} {c : Block} (hr : w.Reseats τ b count c w')
    (h : w.Lodged) : w.Enters [.released b.payload, .allocated c.payload] w' := by
  obtain ⟨t, ht, hheap⟩ := hr.table
  have hnew : t.isLive c.payload = false := by
    refine Bool.eq_false_iff.mpr fun hlive => ?_
    obtain ⟨d, hd, hpayload⟩ := HeapTable.isLive_iff.mp hlive
    exact hr.moved.fresh d ((h.settled.balanced.mem_take ht).mp hd).1 hpayload
  refine ⟨hr.lodged, fun p => ?_⟩
  exact (Balances.taken (v := { w with heap := t }) ht).1.trans (.allocated hheap hnew)

theorem Forgets.enters (hf : w.Forgets base w') : w.Enters [.lost base] w' := by
  obtain ⟨b, t, ht, rfl⟩ := hf.taken
  exact ⟨hf.lodged, fun p => (Balances.taken ht).2⟩

end World

theorem Program.MakesBlock.enters {a : Operation (List Handle)} (h : w.Lodged)
    (hs : Serves request w) (ha : Program.MakesBlock request a) :
    w.Enters (Event.ofMaking (outcome a w).1) (outcome a w).2 := by
  have hobtains := ha.obtains hs
  rcases ho : outcome a w with ⟨f | hs, w'⟩
  · exact (hobtains.of_error ho).enters h
  · obtain ⟨q, rfl, hq⟩ := hobtains.of_ok ho
    obtain ⟨p, hp⟩ : ∃ p, q.storage? = some p := by
      obtain ⟨b, -, -, hto, -⟩ := hq
      exact ⟨_, hto.starts⟩
    have hevents : Event.ofMaking (.ok [q]) = [.allocated p] := by simp [Event.ofMaking, hp]
    exact hevents ▸ hq.enters h hp

theorem Program.Frees.enters {a : Operation Handle} (h : w.Lodged) (ha : Program.Frees base a) :
    w.Enters (Event.ofRelease base (outcome a w).1) (outcome a w).2 := by
  refine ⟨ha.lodged h, fun p => ?_⟩
  by_cases hnull : base = 0
  · subst hnull
    obtain ⟨n, -, ho⟩ := ha.outcome_of_null (w := w)
    rw [ho]
    exact .of_heap_eq rfl
  · cases hlive : w.heap.isLive base with
    | false =>
      rw [ha.outcome_of_not_live hnull hlive]
      exact .of_heap_eq rfl
    | true =>
      obtain ⟨b, hb, rfl⟩ := HeapTable.isLive_iff.mp hlive
      obtain ⟨n, w', ho, -, ht, -⟩ := ha.outcome_of_mem h.settled hb
      rw [ho, Event.ofRelease, if_neg hnull]
      exact (World.Balances.taken ht).1

theorem ArrayPtr.enters_resize {τ : ElemType} (h : w.Lodged) (hs : Serves request w)
    (p : ArrayPtr τ) (count : UInt64) :
    w.Enters (Event.ofResize p.span.base (outcome (p.resize count request) w).1)
      (outcome (p.resize count request) w).2 := by
  cases hnull : p.span.isNull with
  | true =>
    have hzero : p.span.base = 0 := beq_iff_eq.mp hnull
    have hnew := Program.obtains_new (τ := τ) hs count false
    rw [ArrayPtr.resize_of_null hnull count request, hzero]
    rcases ho : outcome (ArrayPtr.new τ count false request) w with ⟨f | q, w'⟩
    · exact Event.ofResize_null (τ := τ) f ▸ (hnew.of_error ho).enters h
    · exact (hnew.of_ok ho).enters h rfl
  | false =>
    have hne : p.span.base ≠ 0 := fun hzero => by simp [Span.isNull, hzero] at hnull
    have hens := p.ensures_resize_from h hs hnull count
    rcases ho : outcome (p.resize count request) w with ⟨f | q, w'⟩
    · rcases hens.of_error ho with ⟨rfl, rfl⟩ | ⟨hf, hforgets⟩
      · exact (World.Logs.refl w').enters h
      · exact Event.ofResize_lost (τ := τ) hne hf ▸ hforgets.enters
    · obtain ⟨b, c, hb, hq, hr⟩ := hens.of_ok ho
      have hevents : Event.ofResize p.span.base (.ok q) =
          [.released b.payload, .allocated c.payload] := by
        simp [Event.ofResize, hne, hb, hq, ArrayPtr.ofBase]
      exact hevents ▸ hr.enters h

/-- **Whatever a run does, live blocks stay in rooms of their own, and its events account for the
table.** -/
theorem World.RunsTo.enters {es : List Event} (hr : w.RunsTo es v) (h : w.Lodged) :
    w.Enters es v := by
  induction hr with
  | start => exact ⟨h, fun p => .of_heap_eq rfl⟩
  | make _ hs ha ih =>
    have hstep := ha.enters ih.lodged hs
    exact ⟨hstep.lodged, fun p => (ih.balances p).trans (hstep.balances p)⟩
  | free _ ha ih =>
    have hstep := ha.enters ih.lodged
    exact ⟨hstep.lodged, fun p => (ih.balances p).trans (hstep.balances p)⟩
  | resize _ hs q count ih =>
    have hstep := q.enters_resize ih.lodged hs count
    exact ⟨hstep.lodged, fun p => (ih.balances p).trans (hstep.balances p)⟩
  | other _ hheap hmapped ih =>
    refine ⟨⟨ih.lodged.settled.congr hheap hmapped, hheap ▸ ih.lodged.kept⟩, fun p => ?_⟩
    have := ih.balances p
    unfold Balances at this ⊢
    rwa [hheap]

/-- **After a release every further release at its address is refused**, through whatever handle,
until something is allocated there again. -/
theorem World.RunsTo.refused {es : List Event} {a : Operation Handle} (hr : w.RunsTo es v)
    (h : w.Lodged) (hdead : w.heap.isLive p = false) (hnone : .allocated p ∉ es) (hp : p ≠ 0)
    (ha : Program.Frees p a) : outcome a v = (.error (.violation (.invalidFree p)), v) := by
  have hbalance := (hr.enters h).balances p
  unfold World.Balances at hbalance
  rw [List.count_eq_zero.mpr hnone, HeapTable.liveAt, hdead] at hbalance
  refine ha.outcome_of_not_live hp (Bool.eq_false_iff.mpr fun hlive => ?_)
  rw [HeapTable.liveAt, if_pos hlive, if_neg Bool.false_ne_true] at hbalance
  omega

/-! ## 5. Runs of a program -/

namespace Program

variable {δ : Discipline} {s s' : Program}

/-- One step forgets no block of the past, and the blocks that it makes live start where none of the
past does. -/
theorem Step.fresh (h : Sound δ s) (hstep : Step δ s s') :
    (∀ b ∈ s.past, b ∈ s'.past) ∧
      ∀ b ∈ s'.world.heap.blocks, b ∈ s.world.heap.blocks ∨ s.world.nextFree ≤ b.payload.toNat := by
  cases hstep with
  | act ha =>
    obtain ⟨hs, w', he, hf, -⟩ := exists_run (ha.preserves h.world h.backed)
    rw [he]
    exact ⟨fun b hb => List.mem_append_right _ hb, hf.fresh⟩
  | derive _ => exact ⟨fun _ hb => hb, fun _ hb => .inl hb⟩
  | bind _ _ => exact ⟨fun _ hb => hb, fun _ hb => .inl hb⟩
  | vouch _ _ => exact ⟨fun _ hb => hb, fun _ hb => .inl hb⟩
  | forget _ => exact ⟨fun _ hb => hb, fun _ hb => .inl hb⟩
  | enter =>
    rcases move_enterFrame s with hmove | ⟨-, hmove⟩
    · rw [hmove]
      exact ⟨fun _ hb => hb, fun _ hb => .inl hb⟩
    · rw [hmove]
      exact ⟨fun _ hb => hb, fun _ hb => .inl hb⟩
  | leave => exact ⟨fun _ hb => hb, fun _ hb => .inl hb⟩

theorem Leads.mem_past (h : Sound δ s) (hl : Leads δ s s') (hb : b ∈ s.past) : b ∈ s'.past := by
  induction hl with
  | refl => exact hb
  | tail hl hstep ih => exact (hstep.fresh (Leads.sound h hl)).1 b ih

/-- **The heap table is accounted for in every state of every run**, and no allocation is released
twice: at each address the releases are as many as the allocations or, while a block is live there,
one fewer; and where none is live no release succeeds before something is allocated there again.
The system allocator is any that gives room away from live blocks.  So it is in a program whatever
else it does. -/
theorem heap_accounted :
    (∀ {es w}, World.initial.RunsTo es w → w.Accounted ∧
      (∀ p, es.count (.allocated p) =
        es.count (.released p) + es.count (.lost p) + w.heap.liveAt p) ∧
      ∀ {p es' v a}, p ≠ 0 → w.heap.isLive p = false → w.RunsTo es' v → .allocated p ∉ es' →
        Frees p a → outcome a v = (.error (.violation (.invalidFree p)), v)) ∧
      ∀ {δ s}, Reachable δ s → s.world.Accounted := by
  refine ⟨fun {es w} hr => ?_, fun hs => hs.sound.world.settled.accounted⟩
  have hw := hr.enters .initial
  refine ⟨hw.lodged.settled.accounted, fun p => ?_, ?_⟩
  · have hbalance := hw.balances p
    unfold World.Balances at hbalance
    rw [← hbalance]
    simp [HeapTable.liveAt, HeapTable.isLive, HeapTable.blockAt?, World.initial, HeapTable.empty]
  · intro p es' v a hp hdead hr' hnone ha
    exact hr'.refused hw.lodged hdead hnone hp ha

/-- Three words made in one room. -/
def wordsInRoom : Operation (List Handle) :=
  giving (.array .uint32 ∘ .plain) (ArrayPtr.new .uint32 3 false (roomAt 0x400000000000))

/-- They are released, made again in the same room, and released through a handle of the first
time. -/
theorem heap_accounted_in_one_room :
    let w₁ := (outcome wordsInRoom .initial).2
    let w₂ := (outcome (freeWords 0) w₁).2
    let w₃ := (outcome wordsInRoom w₂).2
    let w₄ := (outcome (freeWords 7) w₃).2
    let p := (wordsAt 0).span.base
    Serves (roomAt 0x400000000000) .initial ∧ Serves (roomAt 0x400000000000) w₂ ∧
      World.initial.RunsTo [.allocated p, .released p, .allocated p, .released p] w₄ ∧
      w₄.Accounted ∧ outcome (freeWords 0) w₄ = (.error (.violation (.invalidFree p)), w₄) ∧
      initial.world.Accounted := by
  intro w₁ w₂ w₃ w₄ p
  have hfirst : Serves (roomAt 0x400000000000) .initial :=
    serves_roomAt rfl (by decide) (by decide) nofun
  have hagain : Serves (roomAt 0x400000000000) w₂ :=
    serves_roomAt rfl (by decide) (by decide) nofun
  have hr : World.initial.RunsTo [.allocated p, .released p, .allocated p, .released p] w₄ :=
    (((World.RunsTo.start.make hfirst (.array .uint32 3 false)).free (frees_words 0)).make hagain
      (.array .uint32 3 false)).free (frees_words 7)
  obtain ⟨haccounted, -, hrefused⟩ := heap_accounted.1 hr
  refine ⟨hfirst, hagain, hr, haccounted, ?_, heap_accounted.2 (δ := .free) .refl⟩
  exact hrefused (by decide) rfl .start List.not_mem_nil (frees_words 0)

end Program

end CheckedMemory
