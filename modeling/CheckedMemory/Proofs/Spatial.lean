import CheckedMemory.Proofs.Confined
import CheckedMemory.Proofs.Estate

/-!
# Spatial safety

`Estate.spatially_safe` says that in every state that a program can reach, whatever room the system
allocator gives again, each handle either is null or lies in one piece of storage with all that it
says is there.  A piece is the payload of a block of the heap, live or released, or an area that was
placed for a static array, an array of a frame or the like.  Every access through a handle that
succeeds reads and writes bytes of its piece only, wherever motion has taken the handle's index.

It is put together from the run lemma, which has every handle lie in a piece, and from what accesses
to storage are confined to.  A stale handle lies in the piece that it was made for like any other.
Where its room was given again, an access through it reads and writes what is there now, and stays
in the bytes of the old piece.

Runs have premises that the operations do not check, and without any one of them a handle may reach
beyond its piece (`Estate.rash_not_spatiallySafe`).
-/

namespace CheckedMemory.Estate

open Operation Program

variable {e e' : Estate} {b : Block} {a : Address} {σ τ : ElemType}

/-! ## 1. Safety of a state -/

/-- The rooms of the estate: what it was ever given. -/
abbrev Piece (e : Estate) : Room → Prop := IsPiece e.program.past e.areas

/-- No piece ends after all blocks and areas. -/
theorem Piece.stop_le {r : Room} {n : Nat} (hr : e.Piece r)
    (hblocks : ∀ b ∈ e.program.past, b.payload.toNat + b.bytes ≤ n)
    (hareas : ∀ q ∈ e.areas, q.stop ≤ n) : r.stop ≤ n := by
  cases hr with
  | block hb => exact hblocks _ hb
  | area hq => exact hareas _ hq

/-- The object at an address is all in one piece, to which accesses to it are confined, or the
address is null. -/
def ObjectSafe (e : Estate) (τ : ElemType) (a : Address) : Prop :=
  a = 0 ∨ ∃ r, e.Piece r ∧ r.start ≤ a.toNat ∧ a.toNat + τ.layout.size ≤ r.stop ∧
    ObjectConfined τ a e.program.world r.start r.stop

/-- Each handle is null or has all that it says is there in one piece, aligned if it is an array's,
and accesses through it are confined to the piece.  Live blocks have no byte in common. -/
structure SpatiallySafe (e : Estate) : Prop where
  apart : ∀ b ∈ e.program.world.heap.blocks, ∀ c ∈ e.program.world.heap.blocks, b ≠ c →
    Clear b.payload (max b.bytes 1) c.payload (max c.bytes 1)
  array : ∀ {τ : ElemType} {p : AnyArrayPtr τ}, e.program.HasArray τ p →
    p.span.base = 0 ∨ p.span.base.toNat % τ.layout.align = 0 ∧
      ∃ r, e.Piece r ∧ r.start ≤ p.span.base.toNat ∧
        p.span.base.toNat + p.span.extent.toNat * τ.layout.size ≤ r.stop ∧
          ArrayLike.Confined p e.program.world r.start r.stop
  object : ∀ {τ : ElemType} {p : Ptr τ}, .object τ p ∈ e.program.handles →
    e.ObjectSafe τ p.address
  stackObject : ∀ {τ : ElemType} {p : StackPtr τ}, .boundedObject τ p ∈ e.program.handles →
    e.ObjectSafe τ p.address
  record : ∀ {σ τ : ElemType} {p : TailedPtr σ τ}, .tailed σ τ p ∈ e.program.handles →
    p.address = 0 ∨ ∃ r, e.Piece r ∧ r.start ≤ p.address.toNat ∧
      p.address.toNat + Layout.Tailed.leastSize σ.layout τ.layout ≤ r.stop

/-- Accesses to an object in storage are confined to its piece. -/
theorem Charted.objectSafe (h : e.Charted) (ha : a = 0 ∨ e.storage τ a 1) : e.ObjectSafe τ a := by
  by_cases hnull : a = 0
  · exact .inl hnull
  · have hstored := ha.resolve_left hnull
    obtain ⟨r, hr, hlo, hhi⟩ := hstored.2
    rw [Nat.one_mul] at hhi
    exact .inr ⟨r, hr, hlo, hhi, h.mapped.objectConfined hstored hnull hlo hhi⟩

/-- **A charted estate is safe.** -/
theorem Charted.spatiallySafe (h : e.Charted) : e.SpatiallySafe where
  apart b hb c hc hne :=
    Block.clear_of_roomApart (h.lodged.kept.lodged c hc) (h.lodged.kept.lodged b hb)
      (h.lodged.kept.apart b hb c hc hne)
  array {τ p} hp := by
    have hin : (ArrayLike.span p).In e.storage τ := hp.lies h.covered
    by_cases hnull : p.span.base = 0
    · exact .inl hnull
    · obtain ⟨hal, r, hr, hlo, hhi⟩ := hin.resolve_left hnull
      exact .inr ⟨hal, r, hr, hlo, hhi, hin.confined h.mapped hlo hhi⟩
  object hp := h.objectSafe (h.covered _ hp)
  stackObject hp := h.objectSafe (h.covered _ hp)
  record {σ τ p} hp := by
    refine (h.covered _ hp).imp_right ?_
    rintro ⟨b, hb, haddr, hs⟩
    have hshape := h.shaped b hb
    simp only [Block.Shaped, hs] at hshape
    rw [← haddr]
    exact ⟨_, .block hb, Nat.le_refl _, Nat.add_le_add_left hshape.2.1 _⟩

/-! ## 2. Blocks of the past -/

/-- A block of the past after one step was one before, or is live now. -/
theorem Step.mem_past (hstep : Step e e') (hb : b ∈ e'.program.past) :
    b ∈ e.program.past ∨ b ∈ e'.program.world.heap.blocks := by
  have hrun : ∀ {a : Operation (List Handle)}, b ∈ (e.program.run a).past →
      b ∈ e.program.past ∨ b ∈ (e.program.run a).world.heap.blocks := by
    intro a hb
    rw [past_run] at hb
    exact (List.mem_append.mp hb).symm
  cases hstep with
  | make _ _ => exact hrun hb
  | resize _ _ _ => exact hrun hb
  | place _ _ => exact hrun hb
  | use _ => exact hrun hb
  | tail _ _ => exact hrun hb
  | derive _ => exact .inl hb
  | bind _ => exact .inl hb
  | vouch _ => exact .inl hb
  | forget _ => exact .inl hb
  | enter _ _ => exact .inl hb
  | leave => exact .inl hb

/-- Every block of the past was live in some state on the way. -/
theorem Reachable.exists_live (he : Reachable e) (hb : b ∈ e.program.past) :
    ∃ d, Reachable d ∧ Leads d e ∧ b ∈ d.program.world.heap.blocks := by
  induction he with
  | refl => cases hb
  | tail he hstep ih =>
    rcases hstep.mem_past hb with hold | hlive
    · obtain ⟨d, hd, hl, hlive⟩ := ih hold
      exact ⟨d, hd, hl.tail hstep, hlive⟩
    · exact ⟨_, he.tail hstep, .refl, hlive⟩

/-! ## 3. Safety of runs -/

/-- **Every reachable state is spatially safe**, and what it counts as blocks are blocks that are
live or were on the way to it.  Each step keeps every handle in one piece; accesses check the index
against the extent only, which is enough since the piece is as long as the extent says. -/
theorem spatially_safe (he : Reachable e) :
    e.SpatiallySafe ∧ ∀ b ∈ e.program.past,
      ∃ d, Reachable d ∧ Leads d e ∧ b ∈ d.program.world.heap.blocks :=
  ⟨he.charted.spatiallySafe, fun _ hb => he.exists_live hb⟩

/-- Three words are made, and a pointer to them is moved past their end. -/
def wordsMoved : Estate :=
  (initial.run threeWords []).keep (.array .uint32 (ArrayLike.offset (.plain (wordsAt 0)) 5))

/-- They are released. -/
def wordsReleased : Estate := wordsMoved.run (giving id (freeWords 0)) []

/-- The room that was given first. -/
def oneRoom : Request := roomAt 0x400000000000

/-- Two bytes are made where the words were. -/
def bytesThere : Estate :=
  wordsReleased.run (giving (.array .uint8 ∘ .plain) (ArrayPtr.new .uint8 2 false oneRoom)) []

/-- The system allocator of the model serves for the first block. -/
theorem serves_initial : Serves requestMemory initial.program.world :=
  serves_requestMemory (Nat.le_refl _) nofun

/-- The pointer to the words lies in their payload still, and the bytes in theirs. -/
theorem spatially_safe_in_one_room :
    Reachable bytesThere ∧ .array .uint32 (.plain (wordsAt 5)) ∈ bytesThere.program.handles ∧
      bytesThere.program.world.heap.blocks.map Block.bytes = [2] ∧ bytesThere.SpatiallySafe ∧
        ∀ b ∈ bytesThere.program.past,
          ∃ d, Reachable d ∧ Leads d bytesThere ∧ b ∈ d.program.world.heap.blocks := by
  have hagain : Serves oneRoom wordsReleased.program.world :=
    serves_roomAt rfl (by decide) (by decide) nofun
  have he : Reachable bytesThere :=
    (((Relation.ReflTransGen.single (.make serves_initial (.array .uint32 3 false))).tail
      (.derive (.convert (.offset List.mem_cons_self 5)))).tail
        (.use (.free (frees_words 0)))).tail (.make hagain (.array .uint8 2 false))
  have hstale : .array .uint32 (.plain (wordsAt 5)) ∈ bytesThere.program.handles :=
    List.mem_cons_of_mem _ (List.mem_cons_of_mem _ List.mem_cons_self)
  exact ⟨he, hstale, by decide, spatially_safe he⟩

/-! ## 4. The premises -/

/-- A promise that a program does not keep. -/
inductive Rashness where
  /-- It takes the tail of a record through a copy of a pointer that it released. -/
  | staleTail
  /-- It takes the tail of a live record, whatever was written over the record. -/
  | changedTail
  /-- It looks for an object in a block without values. -/
  | emptyBlock

/-- The steps of such a program. -/
inductive RashStep : Rashness → Estate → Estate → Prop where
  | step {ρ e e'} (hstep : Step e e') : RashStep ρ e e'
  | staleTail {e σ τ p} (hp : .tailed σ τ p ∈ e.program.handles)
      (hdead : e.program.world.heap.isLive p.address = false) :
    RashStep .staleTail e (e.run (giving (.array τ ∘ .plain) p.tail) [])
  | changedTail {e σ τ p} (hp : .tailed σ τ p ∈ e.program.handles)
      (hlive : e.program.world.heap.isLive p.address = true) :
    RashStep .changedTail e (e.run (giving (.array τ ∘ .plain) p.tail) [])
  | downcastObject {e τ p} (hp : .object τ p ∈ e.program.handles) (σ) :
    RashStep .emptyBlock e (e.keep (.object σ (p.downcast e.program.world.heap σ)))
  | downcastVoid {e p} (hp : .void p ∈ e.program.handles) (σ) :
    RashStep .emptyBlock e (e.keep (.object σ (p.downcast e.program.world.heap σ)))

/-- The states that runs of such a program lead to. -/
abbrev RashlyReachable (ρ : Rashness) (e : Estate) : Prop :=
  Relation.ReflTransGen (RashStep ρ) initial e

theorem Reachable.rashly {ρ : Rashness} (he : Reachable e) : RashlyReachable ρ e :=
  Relation.ReflTransGen.mono (fun _ _ => .step) _ _ he

/-- A record of two words with a tail of three bytes. -/
def threeByteRecord : TailedPtr .header .uint8 := ⟨0x400000000000⟩

def makeThreeByteRecord (request : Request) : Operation (List Handle) :=
  giving (.tailed .header .uint8) (TailedPtr.new .header .uint8 3 ⟨1, 2⟩ request)

/-- It is released. -/
def recordReleased : Estate :=
  (initial.run (makeThreeByteRecord requestMemory) []).run
    (giving id (.tailed .header .uint8 <$> threeByteRecord.free)) []

/-- Its tail is taken through the pointer as it was. -/
def staleTail : Estate :=
  recordReleased.run (giving (.array .uint8 ∘ .plain) threeByteRecord.tail) []

/-- Three long words, of which the second is where the record has its length. -/
def longWords : ArrayPtr .uint64 := ⟨⟨0x400000000000, 0, 3⟩⟩

/-- They are made and released. -/
def longWordsReleased : Estate :=
  (initial.run (giving (.array .uint64 ∘ .plain) (ArrayPtr.new .uint64 3 false)) []).run
    (giving id ((.array .uint64 ∘ .plain) <$> longWords.free)) []

/-- A record is made where they were, and the second long word is assigned to through the pointer as
it was. -/
def lengthChanged : Estate :=
  (longWordsReleased.run (makeThreeByteRecord oneRoom) []).run
    (givingNone (ArrayLike.set (AnyArrayPtr.plain longWords) 1 (1000 : UInt64))) []

/-- The tail of the record is taken. -/
def changedTail : Estate :=
  lengthChanged.run (giving (.array .uint8 ∘ .plain) threeByteRecord.tail) []

/-- An array of no words is made, and a value without bytes is pointed to where it starts. -/
def unitAtNoWords : Estate :=
  (initial.run (giving (.array .uint32 ∘ .plain) (ArrayPtr.new .uint32 0 false)) []).keep
    (.object .unit ⟨0x400000000000⟩)

/-- The pointer is downcast to a word. -/
def wordAtNoWords : Estate :=
  unitAtNoWords.keep (.object .uint32
    ((⟨0x400000000000⟩ : Ptr .unit).downcast unitAtNoWords.program.world.heap .uint32))

/-- No array ends after all pieces. -/
theorem SpatiallySafe.array_le (h : e.SpatiallySafe) {p : AnyArrayPtr τ} {n : Nat}
    (hp : .array τ p ∈ e.program.handles) (hne : p.span.base ≠ 0)
    (hblocks : ∀ b ∈ e.program.past, b.payload.toNat + b.bytes ≤ n)
    (hareas : ∀ q ∈ e.areas, q.stop ≤ n) :
    p.span.base.toNat + p.span.extent.toNat * τ.layout.size ≤ n := by
  obtain ⟨-, r, hr, -, hhi, -⟩ := (h.array (.handle hp)).resolve_left hne
  exact Nat.le_trans hhi (hr.stop_le hblocks hareas)

/-- **No premise can be left out.**  Nothing looks whether a record is live before its tail is
taken, and that of a released one is as long as the poison says.  A stale handle may write over the
length of a record that was made in its room.  A block without values is taken for one that has a
value where it starts. -/
theorem rash_not_spatiallySafe :
    ¬∃ ρ, ∀ e, RashlyReachable ρ e → e.SpatiallySafe := by
  rintro ⟨ρ, hall⟩
  cases ρ with
  | staleTail =>
    have hreleased : Reachable recordReleased :=
      (Relation.ReflTransGen.single (.make serves_initial (.record .header .uint8 3 ⟨1, 2⟩))).tail
        (.use (.free (.record threeByteRecord)))
    have hreach : RashlyReachable .staleTail staleTail :=
      hreleased.rashly.tail (.staleTail (List.mem_cons_of_mem _ List.mem_cons_self) rfl)
    have hmem : Handle.array .uint8 (.plain ⟨⟨0x400000000010, 0, 0xDDDDDDDDDDDDDDDD⟩⟩) ∈
        staleTail.program.handles := List.mem_cons_self
    have hend := (hall _ hreach).array_le (n := 0x400000000100) hmem (by decide) (by decide)
      (by decide)
    exact absurd hend (by decide)
  | changedTail =>
    have hagain : Serves oneRoom longWordsReleased.program.world :=
      serves_roomAt rfl (by decide) (by decide) nofun
    have hreleased : Reachable longWordsReleased :=
      (Relation.ReflTransGen.single (.make serves_initial (.array .uint64 3 false))).tail
        (.use (.free (.array longWords)))
    have hstale : .array .uint64 (.plain longWords) ∈
        (longWordsReleased.run (makeThreeByteRecord oneRoom) []).program.handles :=
      List.mem_cons_of_mem _ (List.mem_cons_of_mem _ List.mem_cons_self)
    have hchanged : Reachable lengthChanged :=
      (hreleased.tail (.make hagain (.record .header .uint8 3 ⟨1, 2⟩))).tail
        (.use (.assign (.element hstale 1 _)))
    have hreach : RashlyReachable .changedTail changedTail :=
      hchanged.rashly.tail (.changedTail List.mem_cons_self rfl)
    have hmem : Handle.array .uint8 (.plain ⟨⟨0x400000000010, 0, 1000⟩⟩) ∈
        changedTail.program.handles := List.mem_cons_self
    have hend := (hall _ hreach).array_le (n := 0x400000000100) hmem (by decide) (by decide)
      (by decide)
    exact absurd hend (by decide)
  | emptyBlock =>
    have hheld : unitAtNoWords.storage .unit 0x400000000000 1 :=
      ⟨by decide, _, .block List.mem_cons_self, by decide, by decide⟩
    have hunit : Reachable unitAtNoWords :=
      (Relation.ReflTransGen.single (.make serves_initial (.array .uint32 0 false))).tail
        (.derive (.rawObject (.inr hheld) (by decide)))
    have hreach : RashlyReachable .emptyBlock wordAtNoWords :=
      hunit.rashly.tail (.downcastObject List.mem_cons_self .uint32)
    have hmem : Handle.object .uint32 ⟨0x400000000000⟩ ∈ wordAtNoWords.program.handles :=
      List.mem_cons_self
    obtain hzero | ⟨r, hr, -, hhi, -⟩ := (hall _ hreach).object hmem
    · exact absurd hzero (by decide)
    · have hend := hr.stop_le (n := 0x400000000001) (by decide) (by decide)
      exact absurd (Nat.le_trans hhi hend) (by decide)

end CheckedMemory.Estate
