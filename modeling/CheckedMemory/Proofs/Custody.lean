import CheckedMemory.Proofs.Grants
import Mathlib.Data.List.Nodup
import Mathlib.Logic.Function.Basic

/-!
# No element is released twice

A block is released by the table, whatever handle was used and however many there are, and a resize
moves values from one block to another cell by cell.  That nothing is released twice is a fact about
a whole run, and the state does not say it: two equal values cannot be told apart, and nobody writes
down which of them was released.

So a run keeps a ledger beside its state (`Custody`).  Each value that a block gets has the next
number, keeps it when the block is resized, and is entered as released when its block is released or
loses it to a resize.  The ledger only moves numbers around; that it tells the truth is what is
proved (`Custody.Tracks`): the elements that it says are in a block have the values that are there,
what it says was released is the drop log entry by entry, and every number that was ever given out
is either in one block, once, or was released, once.
-/

namespace CheckedMemory

open Operation

variable {w w' : World} {b d : Block} {bs bs' : List Block} {p q : Address} {τ : ElemType}

/-! ## 1. The ledger -/

/-- A value that a block got, with its number among all that blocks got. -/
structure Element where
  number : Nat
  content : AnyValue

/-- Values with the numbers from `n` on. -/
def Element.numbered (n : Nat) (xs : List AnyValue) : List Element :=
  (xs.zipIdx n).map fun x => ⟨x.2, x.1⟩

@[simp] theorem Element.map_content_numbered (n : Nat) (xs : List AnyValue) :
    (numbered n xs).map content = xs := by
  rw [numbered, List.map_map]
  exact List.zipIdx_map_fst n xs

@[simp] theorem Element.map_number_numbered (n : Nat) (xs : List AnyValue) :
    (numbered n xs).map number = List.range' n xs.length := by
  rw [numbered, List.map_map]
  exact List.zipIdx_map_snd n xs

/-- One entry of the drop log. -/
inductive Disposal where
  /-- An element, by the release of its block or by its resize. -/
  | element (e : Element)
  /-- Values on their way into storage, which were in no block. -/
  | passing (marks : List Int64)

namespace Disposal

def marks : Disposal → List Int64
  | element e => e.content.dropMarks
  | passing marks => marks

def element? : Disposal → Option Element
  | element e => some e
  | passing _ => none

end Disposal

/-- The entries that are new in a table. -/
def World.newBlocks (w w' : World) : List Block :=
  w'.heap.blocks.filter fun b => !w.heap.isLive b.payload

/-- What became of the elements of blocks. -/
structure Custody where
  /-- How many elements blocks have got. -/
  stored : Nat
  /-- The elements of the block at a payload, in order. -/
  held : Address → List Element
  /-- What was released, oldest first. -/
  log : List Disposal

namespace Custody

def empty : Custody := ⟨0, fun _ => [], []⟩

/-- The elements that were released. -/
def dropped (c : Custody) : List Element := c.log.filterMap Disposal.element?

/-- Values that were in no block are released. -/
def pass (c : Custody) (marks : List Int64) : Custody := { c with log := c.log ++ [.passing marks] }

/-- A new block gets values. -/
def store (c : Custody) (p : Address) (xs : List AnyValue) : Custody :=
  { c with
    stored := c.stored + xs.length
    held := Function.update c.held p (Element.numbered c.stored xs) }

/-- The elements of a block are released. -/
def release (c : Custody) (p : Address) : Custody :=
  { c with
    held := Function.update c.held p []
    log := c.log ++ (c.held p).map .element }

/-- The first `count` elements of a block go to a new one, which gets more values after them, and
the others are released. -/
def move (c : Custody) (p q : Address) (count : Nat) (xs : List AnyValue) : Custody where
  stored := c.stored + xs.length
  held := Function.update (Function.update c.held p []) q
    ((c.held p).take count ++ Element.numbered c.stored xs)
  log := c.log ++ ((c.held p).drop count).map .element

/-- Storage is made between two states. -/
def make (c : Custody) (w w' : World) : Custody :=
  (w.newBlocks w').foldl (fun c b => c.store b.payload (w'.values b))
    (c.pass (w'.dropLog.toList.drop w.dropLog.toList.length))

/-- An array is resized to `count` elements and is at `q` then. -/
def resize (c : Custody) (τ : ElemType) (p q : Address) (count : Nat) : Custody :=
  c.move p q count (List.replicate (count - (c.held p).length) ⟨τ, τ.default⟩)

/-- The elements in some blocks. -/
def within (c : Custody) (bs : List Block) : List Element := bs.flatMap fun b => c.held b.payload

/-- **The ledger of a state with some live blocks is right.** -/
structure Tracks (c : Custody) (bs : List Block) (w : World) : Prop where
  /-- What is said to be in a block is what is there. -/
  values : ∀ b ∈ bs, (c.held b.payload).map Element.content = w.values b
  /-- Nothing is said to be anywhere else. -/
  idle : ∀ p, (∀ b ∈ bs, b.payload ≠ p) → c.held p = []
  /-- Every number that was given out is that of one element, in one block or released. -/
  conserved : ((c.dropped ++ c.within bs).map Element.number).Perm (List.range c.stored)
  /-- What is said to have been released is the drop log. -/
  logged : w.dropLog.toList = c.log.flatMap Disposal.marks

variable {c : Custody}

theorem dropped_append_element (c : Custody) (es : List Element) :
    (c.log ++ es.map Disposal.element).filterMap Disposal.element? = c.dropped ++ es := by
  rw [List.filterMap_append, List.filterMap_map]
  exact congrArg _ List.filterMap_some

theorem marks_append_element (c : Custody) (es : List Element) :
    (c.log ++ es.map Disposal.element).flatMap Disposal.marks =
      c.log.flatMap Disposal.marks ++ (es.map Element.content).flatMap AnyValue.dropMarks := by
  rw [List.flatMap_append, List.flatMap_map, List.flatMap_map]
  rfl

/-- What is in blocks that a change is not about stays there. -/
theorem within_congr {c' : Custody} (h : ∀ b ∈ bs, c'.held b.payload = c.held b.payload) :
    c'.within bs = c.within bs :=
  List.flatMap_congr h

/-- The numbers up to `n` and the next `k`. -/
theorem count_range_add (n k i : Nat) :
    (List.range (n + k)).count i = (List.range n).count i + (List.range' n k).count i := by
  rw [List.range_eq_range', List.range_eq_range', ← List.count_append]
  congr 1
  have happend := @List.range'_append 0 n k 1
  rw [Nat.one_mul, Nat.zero_add] at happend
  exact happend.symm

namespace Tracks

theorem start : Tracks empty [] World.initial where
  values _ hb := nomatch hb
  idle _ _ := rfl
  conserved := .refl _
  logged := rfl

/-- Only which blocks are live counts, not in which order. -/
theorem perm (h : c.Tracks bs w) (hp : bs.Perm bs') : c.Tracks bs' w where
  values b hb := h.values b (hp.mem_iff.mpr hb)
  idle p hne := h.idle p fun b hb => hne b (hp.mem_iff.mp hb)
  conserved := by
    refine List.Perm.trans (List.Perm.map _ ?_) h.conserved
    exact (hp.symm.flatMap_right _).append_left _
  logged := h.logged

/-- Blocks keep what they hold, and values that were in none are released. -/
theorem pass (h : c.Tracks bs w) {marks : List Int64} (hv : ∀ b ∈ bs, w'.values b = w.values b)
    (hlog : w'.dropLog.toList = w.dropLog.toList ++ marks) : (c.pass marks).Tracks bs w' where
  values b hb := (h.values b hb).trans (hv b hb).symm
  idle := h.idle
  conserved := by
    have hdropped : (c.pass marks).dropped = c.dropped := by
      simp [dropped, Custody.pass, Disposal.element?]
    rw [hdropped]
    exact h.conserved
  logged := by
    rw [hlog, h.logged, Custody.pass, List.flatMap_append]
    simp [Disposal.marks]

/-- A block that is new gets its values. -/
theorem store (h : c.Tracks bs w) (hnew : ∀ d ∈ bs, d.payload ≠ b.payload) :
    (c.store b.payload (w.values b)).Tracks (b :: bs) w := by
  have hself : (c.store b.payload (w.values b)).held b.payload =
      Element.numbered c.stored (w.values b) := Function.update_self ..
  have hother : ∀ p ≠ b.payload, (c.store b.payload (w.values b)).held p = c.held p :=
    fun p hp => Function.update_of_ne hp ..
  refine ⟨?_, ?_, ?_, h.logged⟩
  · intro d hd
    rcases List.mem_cons.mp hd with rfl | hd
    · rw [hself, Element.map_content_numbered]
    · rw [hother _ (hnew d hd)]
      exact h.values d hd
  · intro p hp
    rw [hother p (hp b List.mem_cons_self).symm]
    exact h.idle p fun d hd => hp d (List.mem_cons_of_mem _ hd)
  · have hwithin : (c.store b.payload (w.values b)).within (b :: bs) =
        Element.numbered c.stored (w.values b) ++ c.within bs := by
      rw [within, List.flatMap_cons, hself]
      exact congrArg _ (within_congr fun d hd => hother _ (hnew d hd))
    rw [hwithin, List.perm_iff_count]
    intro i
    have hcount := h.conserved.count_eq i
    simp only [List.map_append, List.count_append, Element.map_number_numbered] at hcount ⊢
    rw [Custody.store, count_range_add, ← hcount]
    simp only [dropped]
    omega

/-- A block is released, and all others keep what they hold. -/
theorem release (h : c.Tracks (b :: bs) w) (hne : ∀ d ∈ bs, d.payload ≠ b.payload)
    (hv : ∀ d ∈ bs, w'.values d = w.values d)
    (hlog : w'.dropLog.toList = w.dropLog.toList ++ (w.values b).flatMap AnyValue.dropMarks) :
    (c.release b.payload).Tracks bs w' := by
  have hself : (c.release b.payload).held b.payload = [] := Function.update_self ..
  have hother : ∀ p ≠ b.payload, (c.release b.payload).held p = c.held p :=
    fun p hp => Function.update_of_ne hp ..
  refine ⟨?_, ?_, ?_, ?_⟩
  · intro d hd
    rw [hother _ (hne d hd), hv d hd]
    exact h.values d (List.mem_cons_of_mem _ hd)
  · intro p hp
    by_cases hpb : p = b.payload
    · rw [hpb, hself]
    · rw [hother p hpb]
      refine h.idle p fun d hd => ?_
      rcases List.mem_cons.mp hd with rfl | hd
      · exact fun he => hpb he.symm
      · exact hp d hd
  · have hwithin : (c.release b.payload).within bs = c.within bs :=
      within_congr fun d hd => hother _ (hne d hd)
    rw [hwithin, dropped, Custody.release, dropped_append_element, List.append_assoc]
    exact h.conserved
  · rw [hlog, h.logged, Custody.release, marks_append_element, h.values b List.mem_cons_self]

/-- A block is resized: another one has the values in front, and new ones after them. -/
theorem move (h : c.Tracks (b :: bs) w) {count : Nat} {xs : List AnyValue}
    (hne : ∀ e ∈ bs, e.payload ≠ b.payload) (hnew : ∀ e ∈ b :: bs, e.payload ≠ d.payload)
    (hmoved : w'.values d = (w.values b).take count ++ xs)
    (hv : ∀ e ∈ bs, w'.values e = w.values e)
    (hlog : w'.dropLog.toList =
      w.dropLog.toList ++ ((w.values b).drop count).flatMap AnyValue.dropMarks) :
    (c.move b.payload d.payload count xs).Tracks (d :: bs) w' := by
  have hself : (c.move b.payload d.payload count xs).held d.payload =
      (c.held b.payload).take count ++ Element.numbered c.stored xs := Function.update_self ..
  have hbd : b.payload ≠ d.payload := hnew b List.mem_cons_self
  have hold : (c.move b.payload d.payload count xs).held b.payload = [] :=
    (Function.update_of_ne hbd ..).trans (Function.update_self ..)
  have hother : ∀ p, p ≠ b.payload → p ≠ d.payload →
      (c.move b.payload d.payload count xs).held p = c.held p :=
    fun p hpb hpd => (Function.update_of_ne hpd ..).trans (Function.update_of_ne hpb ..)
  have hvalues := h.values b List.mem_cons_self
  refine ⟨?_, ?_, ?_, ?_⟩
  · intro e he
    rcases List.mem_cons.mp he with rfl | he
    · rw [hself, hmoved, List.map_append, Element.map_content_numbered, List.map_take, hvalues]
    · rw [hother _ (hne e he) (hnew e (List.mem_cons_of_mem _ he)), hv e he]
      exact h.values e (List.mem_cons_of_mem _ he)
  · intro p hp
    have hpd : p ≠ d.payload := (hp d List.mem_cons_self).symm
    by_cases hpb : p = b.payload
    · rw [hpb, hold]
    · rw [hother p hpb hpd]
      refine h.idle p fun e he => ?_
      rcases List.mem_cons.mp he with rfl | he
      · exact fun he => hpb he.symm
      · exact hp e (List.mem_cons_of_mem _ he)
  · have hwithin : (c.move b.payload d.payload count xs).within (d :: bs) =
        (c.held b.payload).take count ++ Element.numbered c.stored xs ++ c.within bs := by
      rw [within, List.flatMap_cons, hself]
      exact congrArg _ (within_congr fun e he =>
        hother _ (hne e he) (hnew e (List.mem_cons_of_mem _ he)))
    have hdropped : (c.move b.payload d.payload count xs).dropped =
        c.dropped ++ (c.held b.payload).drop count := dropped_append_element ..
    have hsplit := List.take_append_drop count (c.held b.payload)
    rw [hwithin, hdropped, List.perm_iff_count]
    intro i
    have hcount := h.conserved.count_eq i
    rw [within, List.flatMap_cons, ← hsplit] at hcount
    simp only [List.map_append, List.count_append, Element.map_number_numbered] at hcount ⊢
    rw [Custody.move, count_range_add, ← hcount]
    simp only [within]
    omega
  · rw [hlog, h.logged]
    change _ = (c.log ++ ((c.held b.payload).drop count).map Disposal.element).flatMap _
    rw [marks_append_element, List.map_drop, hvalues]

end Tracks

end Custody

/-! ## 2. What operations do to the ledger -/

theorem World.values_congr
    (h : w'.memory.cells b.payload b.bytes = w.memory.cells b.payload b.bytes) :
    w'.values b = w.values b := by
  rw [World.values, World.values, h]

/-- The live blocks are one of them and the others, whose payloads are other ones. -/
theorem World.Settled.perm_erase (h : w.Settled) (hb : b ∈ w.heap.blocks) :
    w.heap.blocks.Perm (b :: w.heap.blocks.erase b) ∧
      ∀ d ∈ w.heap.blocks.erase b, d.payload ≠ b.payload := by
  have hperm := List.perm_cons_erase hb
  refine ⟨hperm, fun d hd he => ?_⟩
  have hpair := (hperm.pairwise_iff fun hne => hne.symm).mp h.pairwise_payload
  exact (List.pairwise_cons.mp hpair).1 d hd he.symm

namespace World

end World

namespace Custody.Tracks

variable {c : Custody}

/-- **A block is released**: its elements are entered, in order. -/
theorem released (h : c.Tracks w.heap.blocks w) (hs : w.Settled) (hs' : w'.Settled)
    (hb : b ∈ w.heap.blocks) (hr : w.Released w.heap.blocks b w') :
    (c.release b.payload).Tracks w'.heap.blocks w' := by
  obtain ⟨hperm, hne⟩ := hs.perm_erase hb
  have hmem : ∀ d, d ∈ w.heap.blocks.erase b ↔ d ≠ b ∧ d ∈ w.heap.blocks :=
    fun d => hs.nodup_blocks.mem_erase_iff
  have hrest : (w.heap.blocks.erase b).Perm w'.heap.blocks := by
    refine (List.perm_ext_iff_of_nodup (hs.nodup_blocks.erase b) hs'.nodup_blocks).mpr fun d => ?_
    rw [hmem, hr.remaining, and_comm]
  refine ((h.perm hperm).release hne (fun d hd => ?_) hr.dropped).perm hrest
  obtain ⟨hdb, hd⟩ := (hmem d).mp hd
  exact World.values_congr (hr.others d hd hdb)

/-- **A block is resized**: the elements in front have their numbers in the new one. -/
theorem resized (h : c.Tracks w.heap.blocks w) (hs : w.Settled) (hs' : w'.Settled)
    {count : UInt64} (hb : b ∈ w.heap.blocks) (hst : b.stored = .elements τ)
    (hr : w.Moved w.heap.blocks τ b count d w') :
    (c.resize τ b.payload d.payload count.toNat).Tracks w'.heap.blocks w' := by
  obtain ⟨hperm, hne⟩ := hs.perm_erase hb
  have hmem : ∀ e, e ∈ w.heap.blocks.erase b ↔ e ≠ b ∧ e ∈ w.heap.blocks :=
    fun e => hs.nodup_blocks.mem_erase_iff
  have hfresh : ∀ e ∈ b :: w.heap.blocks.erase b, e.payload ≠ d.payload := by
    intro e he
    exact hr.fresh e (hperm.mem_iff.mpr he)
  have hrest : (d :: w.heap.blocks.erase b).Perm w'.heap.blocks := by
    have hd : d ∉ w.heap.blocks.erase b := fun hd => hfresh d (List.mem_cons_of_mem _ hd) rfl
    have hnodup := List.nodup_cons.mpr ⟨hd, hs.nodup_blocks.erase b⟩
    refine (List.perm_ext_iff_of_nodup hnodup hs'.nodup_blocks).mpr fun e => ?_
    rw [List.mem_cons, hmem, hr.remaining, and_comm (a := e ≠ b)]
  have hlength : (c.held b.payload).length = b.count.toNat := by
    rw [← List.length_map, h.values b hb, World.values, hst]
    exact τ.length_valuesIn _ _
  have hmoved := hr.moved
  rw [← hlength] at hmoved
  refine ((h.perm hperm).move hne hfresh hmoved (fun e he => ?_) hr.dropped).perm hrest
  obtain ⟨heb, he⟩ := (hmem e).mp he
  exact World.values_congr (hr.others e he heb)

/-- At an address where no live block starts there is nothing to release. -/
theorem release_eq (h : c.Tracks bs w) (hp : ∀ b ∈ bs, b.payload ≠ p) : c.release p = c := by
  have hidle := h.idle p hp
  have hheld : Function.update c.held p [] = c.held := by
    rw [← hidle]
    exact Function.update_eq_self p c.held
  rw [Custody.release, hheld, hidle, List.map_nil, List.append_nil]

end Custody.Tracks

end CheckedMemory
