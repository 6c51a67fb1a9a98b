import CheckedMemory.Proofs.Calls

/-!
# Temporal safety

A stack-scoped pointer holds the stack pointer of the frame that it was made in, and takes over no
data of the stack below it.  On a run that makes pointers to data of the stack only in the frame of
the data or in one called from there, a clone included, the flag of each bound is exact and a bound
on the stack admits where its pointer points (`Program.temporally_safe`).  Nothing is asked of the
rest: the bound of a pointer that is moved, reinterpreted or taken apart is the pointer's own, and
one that takes data over checks it.

What that is worth depends on the frame of the bound.  While it is open, the data belongs to it or
to a frame that waits for it, and so, when a frame returns, nothing that is bound to a frame still
open refers to its storage.  After its return the bound is a stack pointer like any other, and what
is not below it may belong to any frame of a later call.

Two things spoil this (`Program.not_temporally_safe`): a clone that is made in a caller of the
frame that its data belongs to, since it is bound anew and nothing is checked, and a pointer that
outlives the frame that it is bound to.
-/

namespace CheckedMemory

open Operation

variable {b : TemporalBound} {a : Address}

namespace Program

variable {s : Program}

/-! ## 1. Safety of a state -/

/-- Some stack-scoped pointer of the program has the bound, and its data at the address. -/
inductive Scoped (s : Program) : TemporalBound → Address → Prop where
  | object {τ : ElemType} {p : StackPtr τ} (hp : .boundedObject τ p ∈ s.handles) :
    Scoped s p.bound p.address
  | array {τ : ElemType} {p : StackArrayPtr τ} (hp : s.HasArray τ (.bounded p)) :
    Scoped s p.bound p.span.base

/-- The bounds of homed handles fit where the data is. -/
theorem Scoped.fits (hh : ∀ h ∈ s.handles, h.Homed) (hb : s.Scoped b a) : b.Fits a := by
  cases hb with
  | object hp => exact hh _ hp
  | array hp => exact hp.homed hh

/-- What holds of all stack-scoped pointers of a state, and of those that are left when the current
frame returns. -/
structure TemporallySafe (s : Program) : Prop where
  flag : ∀ {b a}, s.Scoped b a → (b.residency = .stack ↔ Frames.extent.contains a = true)
  frame_le : ∀ {b a}, s.Scoped b a → b.residency = .stack → b.frame ≤ a
  /-- While the frame of the bound is open, the data belongs to it or to a frame that waits for
  it. -/
  owned : ∀ {b a}, s.Scoped b a → b.residency = .stack → b.frame ∈ s.world.frames.pointers →
    ∃ p, s.world.frames.Owns p a ∧ s.world.frames.NoDeeper p b.frame
  /-- What is bound to a frame that is open after the return is not in the frame that returned. -/
  returned : ∀ {b a}, (s.move leaveFrame).Scoped b a → b.frame ∈ s.world.frames.callers →
    ¬s.world.frames.Owns s.world.frames.pointer a

/-- Where bounds fit, all of that holds. -/
theorem temporallySafe_of_homed (hf : s.world.frames.Descends) (hh : ∀ h ∈ s.handles, h.Homed) :
    s.TemporallySafe where
  flag hb := (hb.fits hh).flag
  frame_le hb := (hb.fits hh).frame_le
  owned hb hstack hopen :=
    hf.exists_owns ((hb.fits hh).flag.mp hstack) hopen ((hb.fits hh).frame_le hstack)
  returned {b a} hb hopen howns := by
    have hfits := Scoped.fits (s := s.move leaveFrame) hh hb
    have hle := hfits.frame_le (hfits.flag.mpr howns.1)
    exact absurd (howns.lt_of_mem_callers hf hopen) (UInt64.not_lt.mpr hle)

/-! ## 2. Safety of runs -/

end Program

/-- Windows lie one below the other. -/
theorem Frames.Windowed.descends {f : Frames} (h : f.Windowed) : f.Descends := by
  unfold Descends
  rw [h.pointers_eq]
  have hd := h.depth_lt
  generalize f.depth = d at hd
  induction d with
  | zero => exact List.pairwise_singleton _ _
  | succ d ih =>
    rw [firstPointers_succ]
    refine List.pairwise_cons.mpr ⟨fun p hp => ?_, ih (by omega)⟩
    obtain ⟨e, he, rfl⟩ := List.mem_map.mp hp
    rw [List.mem_reverse, List.mem_range] at he
    rw [UInt64.lt_iff_toNat_lt, toNat_pointerAt, toNat_pointerAt]
    simp only [windowCount] at hd
    omega

namespace Program

variable {s : Program}

/-- **Every state is temporally safe** if pointers to data of the stack, clones included, are made
where the data is owned or in frames called from there: on runs of calls with any stack pointers,
and on runs of programs with all that they do.  The flag and the frame are looked at together: what
is taken over with a flag that is exact has passed the check if the flag is on the stack, and every
other way to a new pointer either keeps the pair or captures it where the data is still there. -/
theorem temporally_safe :
    (∀ {s}, CallReachable .own .own s → s.TemporallySafe) ∧
      ∀ {s}, Reachable .scoped s → s.TemporallySafe := by
  refine ⟨fun hs => ?_, fun hs => ?_⟩
  · have hcalled := hs.called TemporalBound.law_fits
    exact temporallySafe_of_homed hcalled.descends hcalled.placed
  · exact temporallySafe_of_homed hs.sound.world.windowed.descends (hs.sound.homed rfl)

/-- Two words in the first frame. -/
def localWords : Operation (List Handle) :=
  giving (.array .uint32 ∘ .bounded) (StackArrayPtr.newLocal .uint32 [1, 2])

/-- The pointer to them. -/
def localPtr : StackArrayPtr .uint32 :=
  ⟨⟨Frames.pointerAt 0, 0, 2⟩, ⟨Frames.pointerAt 0, .stack⟩⟩

/-- A clone of the pointer in a frame called from there. -/
def clonedInCall : Program :=
  let s := (initial.run localWords).move enterFrame
  s.keep (.array .uint32 (.bounded (localPtr.clone s.world.frames)))

/-- A word in the first frame, where the stack pointer is `0x7fffffff0000`. -/
def wordPtr : StackPtr .uint32 := .ofAddress ⟨[], 0x7fffffff0000, 0⟩ 0x7fffffff0010

/-- A pointer to it is cloned in a call, and another call is under way whose frame is larger. -/
def clonedInLargeCall : Program :=
  let s := (started 0x7fffffff0000).keep (.boundedObject .uint32 wordPtr)
  let t := s.reframe (s.world.frames.enterAt 0x7ffffffef000)
  let u := (t.keep (.boundedObject .uint32 (wordPtr.clone t.world.frames))).move leaveFrame
  u.reframe (u.world.frames.enterAt 0x7ffffffe0000)

theorem temporally_safe_after_clone :
    (CallReachable .own .own clonedInLargeCall ∧
      clonedInLargeCall.Scoped ⟨0x7ffffffef000, .stack⟩ wordPtr.address ∧
        clonedInLargeCall.TemporallySafe) ∧
      Reachable .scoped clonedInCall ∧
        clonedInCall.Scoped ⟨Frames.pointerAt 1, .stack⟩ localPtr.span.base ∧
          clonedInCall.TemporallySafe := by
  have hword :
      Constructs (started 0x7fffffff0000) 0x7fffffff0010 (.boundedObject .uint32 wordPtr) :=
    .object .uint32 (.inr (Frames.oneSide_of_contains (by decide) (by decide)))
  have hlarge : CallReachable .own .own clonedInLargeCall :=
    (((((CallReachable.start 0x7fffffff0000).tail (.construct hword fun _ => by decide)).tail
      (.enter (by decide))).tail
        (.clone (.object List.mem_cons_self) fun _ => by decide)).tail .leave).tail
          (.enter (by decide))
  have hmade : (initial.run localWords).handles = [.array .uint32 (.bounded localPtr)] := rfl
  have hmem : Handle.array .uint32 (.bounded localPtr) ∈
      ((initial.run localWords).move enterFrame).handles := by
    change _ ∈ (initial.run localWords).handles
    rw [hmade]
    exact List.mem_cons_self
  have hlocal : Reachable .scoped (initial.run localWords) :=
    .tail .refl (.act (.make (.place (.localArray .uint32 [1, 2]))))
  have hs : Reachable .scoped clonedInCall :=
    (hlocal.tail .enter).tail (.bind (.clone (.array hmem)) fun _ _ => by decide)
  have hclone : clonedInCall.Scoped (localPtr.clone clonedInCall.world.frames).bound
      localPtr.span.base := .array (.handle List.mem_cons_self)
  have hlargeClone : clonedInLargeCall.Scoped
      (wordPtr.clone ⟨[0x7fffffff0000], 0x7ffffffef000, 0⟩).bound wordPtr.address :=
    .object List.mem_cons_self
  exact ⟨⟨hlarge, hlargeClone, temporally_safe.1 hlarge⟩, hs, hclone, temporally_safe.2 hs⟩

/-! ## 3. What a bound does not say -/

/-- A word of a frame called from the first, and the pointer made there. -/
def calleeWordPtr : StackPtr .uint32 :=
  .ofAddress ⟨[0x7fffffff0000], 0x7ffffffe0000, 0⟩ 0x7ffffffe0010

/-- The caller clones it when that frame has returned. -/
def clonedByCaller : Program :=
  let s := (started 0x7fffffff0000).reframe ⟨[0x7fffffff0000], 0x7ffffffe0000, 0⟩
  let t := (s.keep (.boundedObject .uint32 calleeWordPtr)).move leaveFrame
  t.keep (.boundedObject .uint32 (calleeWordPtr.clone t.world.frames))

/-- A null pointer that is made in a large frame. -/
def largeFramePtr : StackPtr .uint32 := .null ⟨[0x7fffffff0000], 0x7ffffffe7000, 0⟩

/-- The pointer outlives that frame, and two calls are under way, one in the other, whose frames fit
where the large one was. -/
def deeperCall : Program :=
  let s := (started 0x7fffffff0000).reframe ⟨[0x7fffffff0000], 0x7ffffffe7000, 0⟩
  let t := (s.keep (.boundedObject .uint32 largeFramePtr)).move leaveFrame
  (t.reframe ⟨[0x7fffffff0000], 0x7ffffffee000, 0⟩).reframe
    ⟨[0x7ffffffee000, 0x7fffffff0000], 0x7ffffffed000, 0⟩

theorem callReachable_deeperCall {make clone : Rule} : CallReachable make clone deeperCall :=
  ((((((CallReachable.start 0x7fffffff0000).tail (.enter (by decide))).tail
    (.convert (.nullStackObject .uint32))).tail .leave).tail (.enter (by decide))).tail
      (.enter (by decide)))

/-- The same, pointed at a word of the deeper frame. -/
def pointedDeeper : StackPtr .uint32 := ⟨0x7ffffffed800, ⟨0x7ffffffe7000, .stack⟩⟩

/-- **A clone that a caller makes is bound above its data**, and a pointer that has outlived the
frame of its bound takes over data of a frame deeper than that one was: neither the frame that it
was bound to nor a caller of that frame owns the data, and the pointer outlives the owner too. -/
theorem not_temporally_safe :
    (¬∀ s, CallReachable .own .any s → ∀ b a, s.Scoped b a → b.residency = .stack →
      b.frame ≤ a) ∧
    ¬∀ s, CallReachable .own .own s → ∀ b a, s.Scoped b a → b.residency = .stack →
      ∃ p, s.world.frames.Owns p a ∧ s.world.frames.NoDeeper p b.frame := by
  constructor
  · intro hall
    have hword : Constructs
        ((started 0x7fffffff0000).reframe ⟨[0x7fffffff0000], 0x7ffffffe0000, 0⟩) 0x7ffffffe0010
          (.boundedObject .uint32 calleeWordPtr) :=
      .object .uint32 (.inr (Frames.oneSide_of_contains (by decide) (by decide)))
    have hs : CallReachable .own .any clonedByCaller :=
      ((((CallReachable.start 0x7fffffff0000).tail (.enter (by decide))).tail
        (.construct hword fun _ => by decide)).tail .leave).tail
          (.clone (.object List.mem_cons_self) trivial)
    exact absurd (hall _ hs _ _ (.object List.mem_cons_self) rfl) (by decide)
  · intro hall
    have hside : Frames.OneSide 0x7ffffffed800 4 :=
      Frames.oneSide_of_contains (by decide) (by decide)
    have hs : CallReachable .own .own (deeperCall.keep (.boundedObject .uint32 pointedDeeper)) :=
      callReachable_deeperCall.tail
        (.pointTo (p := largeFramePtr) List.mem_cons_self (.inr hside) rfl)
    obtain ⟨p, -, inner, outer, hsplit, -⟩ := hall _ hs _ _ (.object List.mem_cons_self) rfl
    have hopen : (0x7ffffffe7000 : Address) ∈ deeperCall.world.frames.pointers :=
      hsplit ▸ List.mem_append_right _ List.mem_cons_self
    exact absurd hopen (by decide)

end Program

end CheckedMemory
