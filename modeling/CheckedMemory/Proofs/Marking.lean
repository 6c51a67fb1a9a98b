import CheckedMemory.Proofs.Contents
import CheckedMemory.Proofs.Steps
import CheckedMemory.Session.Inspection
import Mathlib.Data.List.Nodup
import Mathlib.Data.List.Pairwise
import Mathlib.Data.List.Perm.Subperm
import Mathlib.Data.Set.Insert
import Mathlib.Order.Bounds.Basic

/-!
# A mark phase reaches what is reachable

What is to be marked is said without the marker: `World.Closed` holds of a set of live blocks that
has the block of every root and, with a block, the blocks of all the addresses that its values
report.  A mark phase computes the least such set, whatever the graph (`World.marks_exactly`).

Three things make it so.  A look-up by predecessor finds the block that contains an address, since
live blocks do not overlap (`World.Sound.containing?_iff`).  Every block that is marked is either
pending or has had all that it reports marked, which is the invariant of the worklist
(`Marker.Follows`).  And a block is pending at most once, so that following as many blocks as the
table has leaves none (`Marker.pending_drain`): that number is a bound for the loop and not a limit
set to it.
-/

namespace CheckedMemory

variable {past : List Block} {w : World} {m : Marker} {roots as : List Address} {a p q : Address}
  {b c : Block} {n : Nat}

/-! ## 1. Finding the block of an address -/

namespace World.Sound

/-- No live block contains null. -/
theorem ne_zero_of_contains (h : Sound past w) (hb : b ∈ w.heap.blocks)
    (hin : b.contains a = true) : a ≠ 0 := by
  rintro rfl
  have hle := (Block.contains_iff.mp hin).1
  refine h.payload_ne_zero (h.live b hb) (UInt64.toNat_inj.mp ?_)
  have h0 : (0 : Address).toNat = 0 := rfl
  omega

/-- **The look-up finds the live block that contains an address**, if there is one. -/
theorem containing?_iff (h : Sound past w) :
    w.heap.containing? a = some b ↔ b ∈ w.heap.blocks ∧ b.contains a = true :=
  HeapTable.Spaced.containing?_iff h.disjoint

end World.Sound

/-! ## 2. What is to be marked -/

/-- The block has values that report, and one of them refers to the address. -/
def World.Reports (w : World) (b : Block) (a : Address) : Prop :=
  b.traced = true ∧ ¬ b.stored.IsRecord ∧ ∃ x ∈ w.values b, a ∈ x.references

/-- A set of live blocks that has those which contain a root, and with a block those which contain
an address that it reports. -/
structure World.Closed (w : World) (roots : List Address) (S : Set Block) : Prop where
  live : ∀ b ∈ S, b ∈ w.heap.blocks
  root : ∀ a ∈ roots, ∀ b ∈ w.heap.blocks, b.contains a = true → b ∈ S
  reported : ∀ c ∈ S, ∀ a, w.Reports c a → ∀ b ∈ w.heap.blocks, b.contains a = true → b ∈ S

/-- The live blocks whose payloads are listed. -/
def World.blocksAt (w : World) (ps : List Address) : Set Block :=
  {b | b ∈ w.heap.blocks ∧ b.payload ∈ ps}

/-- The payload is that of the live block that contains one of the addresses. -/
def HeapTable.Hit (t : HeapTable) (as : List Address) (p : Address) : Prop :=
  ∃ a ∈ as, ∃ b ∈ t.blocks, b.contains a = true ∧ b.payload = p

theorem World.Sound.mem_blockReferences (h : w.Sound past) (hb : b ∈ w.heap.blocks) :
    a ∈ w.blockReferences b.payload ↔ w.Reports b a := by
  have hpast := h.live b hb
  obtain ⟨cs, hread, hlen⟩ := h.exists_payload hpast
  unfold World.blockReferences World.Reports World.values
  rw [h.balanced.blockAt?_iff.mpr ⟨hb, rfl⟩, Memory.cells_eq hread]
  simp only [hread, Option.getD_some]
  cases b.traced with
  | true => simpa using Block.mem_references (h.shaped b hpast) hlen
  | false => simp

/-! ## 3. Marking a list of addresses -/

namespace Marker

theorem markAll_cons (t : HeapTable) (m : Marker) (a : Address) (as : List Address) :
    markAll t m (a :: as) = markAll t (mark t m a) as := rfl

/-- An address marks the block that contains it, unless it is marked already. -/
theorem mark_cases (h : w.Sound past) (m : Marker) (a : Address) :
    (mark w.heap m a = m ∧
      ∀ b ∈ w.heap.blocks, b.contains a = true → b.payload ∈ m.marked) ∨
    ∃ b ∈ w.heap.blocks, b.contains a = true ∧ b.payload ∉ m.marked ∧
      mark w.heap m a = ⟨b.payload :: m.marked, b.payload :: m.pending⟩ := by
  unfold mark
  by_cases h0 : a = 0
  · rw [if_pos h0]
    exact .inl ⟨rfl, fun b hb hin => absurd h0 (h.ne_zero_of_contains hb hin)⟩
  · rw [if_neg h0]
    cases hfind : w.heap.containing? a with
    | none =>
      refine .inl ⟨rfl, fun b hb hin => ?_⟩
      rw [h.containing?_iff.mpr ⟨hb, hin⟩] at hfind
      cases hfind
    | some b =>
      obtain ⟨hb, hin⟩ := h.containing?_iff.mp hfind
      dsimp only
      by_cases hmarked : b.payload ∈ m.marked
      · rw [if_pos (by simpa using hmarked)]
        refine .inl ⟨rfl, fun c hc hinc => ?_⟩
        rw [h.containing?_iff.mpr ⟨hc, hinc⟩] at hfind
        obtain rfl := Option.some.inj hfind
        exact hmarked
      · rw [if_neg (by simpa using hmarked)]
        exact .inr ⟨b, hb, hin, hmarked, rfl⟩

/-- Marking a list of addresses makes some blocks marked and pending at once, all of them for the
first time, and afterwards all that the addresses hit is marked. -/
theorem exists_new_of_markAll (h : w.Sound past) (m : Marker) (as : List Address) :
    ∃ new : List Address, markAll w.heap m as = ⟨new ++ m.marked, new ++ m.pending⟩ ∧
      new.Nodup ∧ (∀ p ∈ new, p ∉ m.marked ∧ w.heap.Hit as p) ∧
      ∀ p, w.heap.Hit as p → p ∈ new ++ m.marked := by
  induction as generalizing m with
  | nil =>
    refine ⟨[], rfl, List.nodup_nil, ?_, ?_⟩
    · intro p hp
      cases hp
    · rintro p ⟨a, ha, -⟩
      cases ha
  | cons a as ih =>
    rw [markAll_cons]
    rcases mark_cases h m a with ⟨hsame, hall⟩ | ⟨b, hb, hin, hfresh, hnew⟩
    · rw [hsame]
      obtain ⟨new, he, hnodup, hof, hto⟩ := ih m
      refine ⟨new, he, hnodup, fun p hp => ?_, ?_⟩
      · obtain ⟨hnot, c, hc, hit⟩ := hof p hp
        exact ⟨hnot, c, List.mem_cons_of_mem a hc, hit⟩
      · rintro p ⟨c, hc, d, hd, hdin, rfl⟩
        rcases List.mem_cons.mp hc with rfl | hc'
        · exact List.mem_append_right _ (hall d hd hdin)
        · exact hto d.payload ⟨c, hc', d, hd, hdin, rfl⟩
    · rw [hnew]
      obtain ⟨new, he, hnodup, hof, hto⟩ := ih ⟨b.payload :: m.marked, b.payload :: m.pending⟩
      refine ⟨new ++ [b.payload], ?_, ?_, ?_, ?_⟩
      · rw [he]
        simp
      · refine List.nodup_append.mpr ⟨hnodup, List.nodup_singleton _, ?_⟩
        rintro p hp q hq rfl
        exact (hof p hp).1 (List.mem_cons.mpr (.inl (List.mem_singleton.mp hq)))
      · intro p hp
        rcases List.mem_append.mp hp with hp | hp
        · obtain ⟨hnot, c, hc, hit⟩ := hof p hp
          exact ⟨fun hm => hnot (List.mem_cons_of_mem _ hm), c, List.mem_cons_of_mem a hc, hit⟩
        · obtain rfl := List.mem_singleton.mp hp
          exact ⟨hfresh, a, List.mem_cons_self, b, hb, hin, rfl⟩
      · rintro p ⟨c, hc, d, hd, hdin, rfl⟩
        rcases List.mem_cons.mp hc with rfl | hc'
        · -- both blocks contain the address, so they are one
          have hfound := h.containing?_iff.mpr ⟨hb, hin⟩
          rw [h.containing?_iff.mpr ⟨hd, hdin⟩] at hfound
          obtain rfl := Option.some.inj hfound
          simp
        · have := hto d.payload ⟨c, hc', d, hd, hdin, rfl⟩
          simpa using this

/-! ## 4. The worklist -/

/-- What holds of a marker at any time of a mark phase from `roots`. -/
structure Follows (w : World) (roots : List Address) (m : Marker) : Prop where
  live : ∀ p ∈ m.marked, ∃ b ∈ w.heap.blocks, b.payload = p
  nodup : m.marked.Nodup
  pending_marked : ∀ p ∈ m.pending, p ∈ m.marked
  root : ∀ p, w.heap.Hit roots p → p ∈ m.marked
  /-- All that a marked block reports is marked, unless the block is still to be followed. -/
  followed : ∀ p ∈ m.marked, p ∉ m.pending →
    ∀ q, w.heap.Hit (w.blockReferences p) q → q ∈ m.marked
  /-- Nothing is marked that need not be. -/
  within : ∀ S, w.Closed roots S → w.blocksAt m.marked ⊆ S

namespace Follows

/-- The roots are marked, and all of them are pending. -/
theorem start (h : w.Sound past) (roots : List Address) :
    Follows w roots (markAll w.heap empty roots) := by
  obtain ⟨new, he, hnodup, hof, hto⟩ := exists_new_of_markAll h empty roots
  simp only [empty, List.append_nil] at he hto
  simp only [empty, he]
  refine ⟨fun p hp => ?_, hnodup, fun p hp => hp, hto, fun p hp hnot => absurd hp hnot, ?_⟩
  · obtain ⟨-, a, -, b, hb, -, rfl⟩ := hof p hp
    exact ⟨b, hb, rfl⟩
  · rintro S hS b ⟨hb, hmarked⟩
    obtain ⟨-, a, ha, c, hc, hin, hpayload⟩ := hof b.payload hmarked
    obtain rfl := h.balanced.ascending.eq_of_payload hc hb hpayload
    exact hS.root a ha c hc hin

/-- Following one pending block keeps all of it. -/
theorem step (h : w.Sound past) {p : Address} {rest : List Address}
    (hm : Follows w roots ⟨m.marked, p :: rest⟩) :
    Follows w roots (markAll w.heap ⟨m.marked, rest⟩ (w.blockReferences p)) := by
  obtain ⟨new, he, hnodup, hof, hto⟩ :=
    exists_new_of_markAll h ⟨m.marked, rest⟩ (w.blockReferences p)
  dsimp only at he hof hto
  rw [he]
  refine ⟨?_, ?_, ?_, ?_, ?_, ?_⟩
  · intro q hq
    rcases List.mem_append.mp hq with hq | hq
    · obtain ⟨-, a, -, b, hb, -, rfl⟩ := hof q hq
      exact ⟨b, hb, rfl⟩
    · exact hm.live q hq
  · refine List.nodup_append.mpr ⟨hnodup, hm.nodup, ?_⟩
    rintro q hq _ hmarked rfl
    exact (hof q hq).1 hmarked
  · intro q hq
    rcases List.mem_append.mp hq with hq | hq
    · exact List.mem_append_left _ hq
    · exact List.mem_append_right _ (hm.pending_marked q (List.mem_cons_of_mem p hq))
  · exact fun q hq => List.mem_append_right _ (hm.root q hq)
  · intro q hq hnot r hr
    rw [List.mem_append, not_or] at hnot
    -- what was marked just now is pending, so `q` was marked before: it is `p` or done with
    have hold : q ∈ m.marked := (List.mem_append.mp hq).resolve_left hnot.1
    by_cases hqp : q = p
    · subst hqp
      exact hto r hr
    · refine List.mem_append_right _ (hm.followed q hold ?_ r hr)
      exact fun hmem => (List.mem_cons.mp hmem).elim hqp hnot.2
  · rintro S hS b ⟨hb, hmarked⟩
    rcases List.mem_append.mp hmarked with hnew | hold
    · obtain ⟨-, a, ha, c, hc, hin, hpayload⟩ := hof b.payload hnew
      obtain rfl := h.balanced.ascending.eq_of_payload hc hb hpayload
      have hp := hm.pending_marked p List.mem_cons_self
      obtain ⟨d, hd, rfl⟩ := hm.live p hp
      exact hS.reported d (hm.within S hS ⟨hd, hp⟩) a ((h.mem_blockReferences hd).mp ha) c hc hin
    · exact hm.within S hS ⟨hb, hold⟩

/-- No more blocks are marked than there are. -/
theorem length_marked_le (hm : Follows w roots m) : m.marked.length ≤ w.heap.blocks.length := by
  have hsub : m.marked ⊆ w.heap.blocks.map Block.payload := fun p hp =>
    List.mem_map.mpr (hm.live p hp)
  simpa using (List.subperm_of_subset hm.nodup hsub).length_le

/-- **A whole run of the worklist keeps the invariant.** -/
theorem drain (h : w.Sound past) (n : Nat) (hm : Follows w roots m) :
    Follows w roots (drain w n m) := by
  induction n generalizing m with
  | zero => exact hm
  | succ n ih =>
    obtain ⟨marked, pending⟩ := m
    cases pending with
    | nil => exact hm
    | cons p rest => exact ih (m := markAll w.heap ⟨marked, rest⟩ _) (step (m := ⟨marked, []⟩) h hm)

end Follows

/-- **The worklist runs empty**: each step follows one block and adds only blocks not marked
before, so no more steps are made than blocks are pending or unmarked. -/
theorem pending_drain (h : w.Sound past) (hm : Follows w roots m)
    (hn : m.pending.length + (w.heap.blocks.length - m.marked.length) ≤ n) :
    (drain w n m).pending = [] := by
  induction n generalizing m with
  | zero =>
    change m.pending = []
    exact List.eq_nil_of_length_eq_zero (by omega)
  | succ n ih =>
    obtain ⟨marked, pending⟩ := m
    cases pending with
    | nil => rfl
    | cons p rest =>
      have hstep := Follows.step (m := ⟨marked, []⟩) h hm
      refine ih (m := markAll w.heap ⟨marked, rest⟩ _) hstep ?_
      have hle := hstep.length_marked_le
      obtain ⟨new, he, -⟩ := exists_new_of_markAll h ⟨marked, rest⟩ (w.blockReferences p)
      dsimp only at he hle
      rw [he] at hle ⊢
      simp only [List.length_append, List.length_cons] at hle hn ⊢
      omega

/-- With nothing pending there is nothing to follow. -/
theorem drain_of_pending (n : Nat) (hm : m.pending = []) : drain w n m = m := by
  cases n with
  | zero => rfl
  | succ n => simp only [drain, hm]

theorem drain_add (k n : Nat) (m : Marker) : drain w (k + n) m = drain w n (drain w k m) := by
  induction k generalizing m with
  | zero => rw [Nat.zero_add]; rfl
  | succ k ih =>
    rw [Nat.succ_add]
    cases hp : m.pending with
    | nil =>
      rw [drain_of_pending _ hp, drain_of_pending _ hp, drain_of_pending _ hp]
    | cons p rest =>
      simp only [drain, hp]
      exact ih _

end Marker

/-! ## 5. A whole phase -/

namespace World

/-- What a mark phase from `roots` has to give. -/
structure ReachedBy (w : World) (roots : List Address) (s : MarkSet) : Prop where
  /-- The marked blocks are the least set that the roots and the reports of its blocks close. -/
  least : IsLeast {S | w.Closed roots S} (w.blocksAt s.marked)
  /-- What is marked are the payloads of those blocks, each once. -/
  payloads : ∀ p ∈ s.marked, ∃ b ∈ w.blocksAt s.marked, b.payload = p
  nodup : s.marked.Nodup
  isMarked : ∀ a, s.isMarked w.heap a = true ↔ ∃ b ∈ w.blocksAt s.marked, b.contains a = true
  unreachable : ∀ p, p ∈ s.unreachable w.heap ↔
    ∃ b ∈ w.heap.blocks, b ∉ w.blocksAt s.marked ∧ b.payload = p
  ascending : (s.unreachable w.heap).Pairwise (·.toNat < ·.toNat)

/-- A marker that has nothing pending has marked a closed set, and no more than it must. -/
theorem isLeast_of_pending (h : w.Sound past) (hm : m.Follows w roots) (hp : m.pending = []) :
    IsLeast {S | w.Closed roots S} (w.blocksAt m.marked) := by
  refine ⟨⟨fun b hb => hb.1, ?_, ?_⟩, fun S hS => hm.within S hS⟩
  · intro a ha b hb hin
    exact ⟨hb, hm.root b.payload ⟨a, ha, b, hb, hin, rfl⟩⟩
  · rintro c ⟨hc, hmarked⟩ a hreport b hb hin
    refine ⟨hb, hm.followed c.payload hmarked ?_ b.payload ?_⟩
    · rw [hp]
      exact List.not_mem_nil
    · exact ⟨a, (h.mem_blockReferences hc).mpr hreport, b, hb, hin, rfl⟩

theorem reachedBy_of_pending (h : w.Sound past) (hm : m.Follows w roots) (hp : m.pending = []) :
    w.ReachedBy roots ⟨m.marked⟩ where
  least := isLeast_of_pending h hm hp
  payloads p hmarked := by
    obtain ⟨b, hb, rfl⟩ := hm.live p hmarked
    exact ⟨b, ⟨hb, hmarked⟩, rfl⟩
  nodup := hm.nodup
  isMarked a := by
    unfold MarkSet.isMarked
    constructor
    · intro hmark
      cases hfind : w.heap.containing? a with
      | none => simp [hfind] at hmark
      | some b =>
        obtain ⟨hb, hin⟩ := h.containing?_iff.mp hfind
        exact ⟨b, ⟨hb, by simpa [hfind] using hmark⟩, hin⟩
    · rintro ⟨b, ⟨hb, hmarked⟩, hin⟩
      rw [h.containing?_iff.mpr ⟨hb, hin⟩]
      simpa using hmarked
  unreachable p := by
    simp only [MarkSet.unreachable, List.mem_filter, List.mem_map, blocksAt, Set.mem_ofPred_eq]
    constructor
    · rintro ⟨⟨b, hb, rfl⟩, hnot⟩
      exact ⟨b, hb, fun hmem => by simp [hmem.2] at hnot, rfl⟩
    · rintro ⟨b, hb, hnot, rfl⟩
      exact ⟨⟨b, hb, rfl⟩, by simpa using fun hmarked => hnot ⟨hb, hmarked⟩⟩
  ascending := (h.balanced.ascending.map Block.payload fun _ _ hlt => hlt).filter _

/-- Following as many blocks as there are, or more, ends the phase at its mark set. -/
theorem drain_eq_markFrom (h : w.Sound past) (roots : List Address)
    (hn : w.heap.blocks.length ≤ n) :
    Marker.drain w n (.markAll w.heap .empty roots) = ⟨(w.markFrom roots).marked, []⟩ := by
  have hstart := Marker.Follows.start h roots
  have hempty :
      (Marker.drain w w.heap.blocks.length (.markAll w.heap .empty roots)).pending = [] := by
    refine Marker.pending_drain h hstart ?_
    have hle := hstart.length_marked_le
    obtain ⟨new, he, -⟩ := Marker.exists_new_of_markAll h .empty roots
    rw [he] at hle ⊢
    simp only [Marker.empty, List.append_nil] at hle ⊢
    omega
  obtain ⟨k, rfl⟩ := Nat.exists_eq_add_of_le hn
  rw [Marker.drain_add, Marker.drain_of_pending k hempty, ← hempty]
  rfl

/-- **A mark phase ends and reaches exactly what is reachable**: the least set of live blocks with
those of the roots and of all that its blocks report, in whatever order the roots are given; and
the session is left with the world that it had. -/
theorem marks_exactly (h : w.Sound past) (roots : List Address) :
    (∀ n, w.heap.blocks.length ≤ n →
      Marker.drain w n (.markAll w.heap .empty roots) = ⟨(w.markFrom roots).marked, []⟩) ∧
    w.ReachedBy roots (w.markFrom roots) ∧
    (∀ roots', roots'.Perm roots →
      w.blocksAt (w.markFrom roots').marked = w.blocksAt (w.markFrom roots).marked ∧
        (w.markFrom roots').marked.Perm (w.markFrom roots).marked) ∧
    ∀ (s : Session) (dst : Option String), s.world = w →
      ((Step.mark dst roots).run.run s).2.world = w := by
  have hreached : ∀ roots, w.ReachedBy roots (w.markFrom roots) := by
    intro roots
    have hend := drain_eq_markFrom h roots (Nat.le_refl _)
    have hm := (Marker.Follows.start h roots).drain h w.heap.blocks.length
    rw [hend] at hm
    exact reachedBy_of_pending (m := ⟨(w.markFrom roots).marked, []⟩) h hm rfl
  refine ⟨fun n hn => drain_eq_markFrom h roots hn, hreached roots, ?_, ?_⟩
  · intro roots' hperm
    have hclosed : {S | w.Closed roots' S} = {S | w.Closed roots S} := by
      ext S
      constructor
      · intro hS
        exact ⟨hS.live, fun a ha => hS.root a (hperm.mem_iff.mpr ha), hS.reported⟩
      · intro hS
        exact ⟨hS.live, fun a ha => hS.root a (hperm.mem_iff.mp ha), hS.reported⟩
    have hleast := (hreached roots').least
    rw [hclosed] at hleast
    have hsame := hleast.unique (hreached roots).least
    have hnodup := (hreached roots).nodup
    refine ⟨hsame, (List.perm_ext_iff_of_nodup (hreached roots').nodup hnodup).mpr ?_⟩
    intro p
    constructor
    · intro hp
      obtain ⟨b, hb, rfl⟩ := (hreached roots').payloads p hp
      rw [hsame] at hb
      exact hb.2
    · intro hp
      obtain ⟨b, hb, rfl⟩ := (hreached roots).payloads p hp
      rw [← hsame] at hb
      exact hb.2
  · rintro s dst rfl
    cases dst <;> rfl

end World

namespace Program

/-- A node that refers to one other, which need not exist yet. -/
def node (id : UInt32) (next : Address) : Operation (List Handle) :=
  giving (.object .node) (Ptr.new .node ⟨id, ⟨next⟩, .null, none, .null, []⟩ true)

/-- Two nodes in a ring, the first of which refers to the inside of the second, and a third that
refers to the first. -/
def ring : Program :=
  ((initial.run (node 1 0x400000000088)).run (node 2 0x400000000000)).run
    (node 3 0x400000000000)

theorem reachable_ring : Reachable .free ring :=
  ((Relation.ReflTransGen.single (.act (.make (.block (.object _ _ true))))).tail
    (.act (.make (.block (.object _ _ true))))).tail (.act (.make (.block (.object _ _ true))))

theorem marks_exactly_ring : ring.world.Sound ring.past ∧
    ring.world.ReachedBy [0x400000000010] (ring.world.markFrom [0x400000000010]) ∧
    (ring.world.markFrom [0x400000000010]).unreachable ring.world.heap = [0x400000000100] :=
  ⟨reachable_ring.sound.world, (World.marks_exactly reachable_ring.sound.world _).2.1,
    by decide +kernel⟩

end Program

end CheckedMemory
