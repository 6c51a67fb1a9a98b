import CheckedMemory.Proofs.Temporal

/-!
# Kinds that never refer to the stack

A conversion off the stack does not look at the address.  It trusts the residency flag, which comes
with the pointer through any chain of moves, clones, assignments and reinterpretations, and which a
pointer that takes other data over takes over too.  So what is to be shown is that the flag is
exact, in every state of every run that vouches for nothing (`ReachableUnvouched`).  A clone may be
made in any frame then, and outlive its data: that the bound fits the data, as on a scoped run, is
not needed, and does not hold.

`Program.heap_only` says that then the heap-only kinds have no data on the stack, that the
conversions to them refuse exactly what is there, and that what is off the stack survives the way
there and back.
-/

namespace CheckedMemory

open Operation

variable {b : TemporalBound} {a : Address} {τ : ElemType}

/-! ## 1. Exact flags -/

namespace TemporalBound

/-- The flag says whether data at `a` is on the stack. -/
def Flags (b : TemporalBound) (a : Address) : Prop :=
  b.residency = .stack ↔ Frames.extent.contains a = true

/-- Exactness is a law of bounds, whatever the frames bind. -/
theorem law_flags : Law Flags fun _ _ => True where
  flag h := h
  own _ := trivial
  captureHeap ha := by simp [Flags, Frames.captureHeap, ha]
  capture ha _ := by simp [Flags, Frames.capture, ha]
  move h hc _ := by
    unfold Flags
    rw [hc]
    exact h
  accept _ haccept hr := by
    unfold accept at haccept
    split at haccept
    · cases haccept
      exact hr
    · cases haccept

/-- What a conversion asks of a pointer, that it be null or that its flag be off the stack, is under
an exact flag that its data is not on the stack: null is not there. -/
theorem Flags.isNull_or_offStack (h : b.Flags a) :
    (a == 0 || b.offStack) = !Frames.extent.contains a := by
  unfold offStack
  cases hr : b.residency with
  | heap =>
    rw [law_flags.not_contains h hr]
    exact Bool.or_true _
  | stack =>
    have hon := h.mp hr
    have hne : a ≠ 0 := by
      rintro rfl
      rw [Frames.not_contains_zero] at hon
      cases hon
    rw [hon, beq_eq_false_iff_ne.mpr hne]
    rfl

end TemporalBound

/-! ## 2. Conversions under an exact flag -/

theorem Ptr.ofStack_eq {p : StackPtr τ} (h : p.bound.Flags p.address) :
    ofStack p = if Frames.extent.contains p.address = true then .error (.heapOnly p.address)
      else .ok ⟨p.address⟩ := by
  unfold ofStack StackPtr.isNull
  rw [h.isNull_or_offStack]
  cases Frames.extent.contains p.address <;> rfl

theorem ArrayPtr.ofStack_eq {p : StackArrayPtr τ} (h : p.bound.Flags p.span.base) :
    ofStack p = if Frames.extent.contains p.span.base = true then .error (.heapOnly p.span.base)
      else .ok ⟨p.span⟩ := by
  unfold ofStack Span.isNull
  rw [h.isNull_or_offStack]
  cases Frames.extent.contains p.span.base <;> rfl

/-- The index is looked at first. -/
theorem FixedArray.offsetArrayPtr_eq (x : FixedArray τ) (i : UInt64) :
    x.offsetArrayPtr i = if i < x.length then
        if Frames.extent.contains x.base = true then .error (.heapOnly x.base)
        else .ok (ArrayLike.offset (.ofBase x.base x.length) i.toInt64)
      else .error (.outOfBounds i.toInt64 x.length) := by
  unfold offsetArrayPtr requireIndex
  rw [toArrayPtr_eq]
  by_cases hi : i < x.length
  · simp only [if_pos hi]
    cases Frames.extent.contains x.base <;> rfl
  · simp only [if_neg hi]
    rfl

namespace Program

/-! ## 3. Runs that vouch for nothing -/

/-- One step of a program that vouches for no data as global. -/
inductive UnvouchedStep : Program → Program → Prop where
  | act {s a} (ha : Acts s a) : UnvouchedStep s (s.run a)
  | derive {s h} (hh : Derives (s.world.Holds s.past) s h) : UnvouchedStep s (s.keep h)
  | bind {s a h} (hh : Binds (s.world.Holds s.past) s a h) : UnvouchedStep s (s.keep h)
  | forget {s hs} (hhs : hs ⊆ s.handles) : UnvouchedStep s { s with handles := hs }
  | enter {s} : UnvouchedStep s (s.move enterFrame)
  | leave {s} : UnvouchedStep s (s.move leaveFrame)

/-- The states that runs of such steps lead to. -/
def ReachableUnvouched (s : Program) : Prop := Relation.ReflTransGen UnvouchedStep initial s

variable {s s' : Program}

theorem UnvouchedStep.toStep (h : UnvouchedStep s s') : Step .free s s' := by
  cases h with
  | act ha => exact .act ha
  | derive hh => exact .derive hh
  | bind hh => exact .bind hh nofun
  | forget hhs => exact .forget hhs
  | enter => exact .enter
  | leave => exact .leave

theorem ReachableUnvouched.sound (h : ReachableUnvouched s) : Sound .free s :=
  Reachable.sound (Relation.ReflTransGen.mono (fun _ _ => UnvouchedStep.toStep) _ _ h)

/-- **One step keeps every pointer placed right**, by any law of bounds that lets a frame bind data
of all frames. -/
theorem UnvouchedStep.placed {K : TemporalBound → Address → Prop}
    (hK : TemporalBound.Law K fun _ _ => True) (h : Sound .free s)
    (hf : ∀ h ∈ s.handles, h.Placed K) (hstep : UnvouchedStep s s') :
    ∀ h ∈ s'.handles, h.Placed K := by
  have hkeep : ∀ {g : Handle}, g.Placed K → ∀ h ∈ (s.keep g).handles, h.Placed K := by
    intro g hg k hk
    rcases List.mem_cons.mp hk with rfl | hold
    · exact hg
    · exact hf k hold
  cases hstep with
  | act ha =>
    obtain ⟨hs, w', he, -, hkept⟩ := exists_run (ha.preserves_placed hK h.world h.backed)
    rw [he]
    intro k hk
    rcases List.mem_append.mp hk with hnew | hold
    · exact (hkept k hnew).2 hf
    · exact hf k hold
  | derive hh => exact hkeep (hh.placed hK h.world h.backed hf)
  | bind hh => exact hkeep (hh.placed hK hf trivial)
  | forget hhs => exact fun k hk => hf k (hhs hk)
  | enter => exact hf
  | leave => exact hf

/-- **In every state** of a run that vouches for nothing they are. -/
theorem ReachableUnvouched.placed {K : TemporalBound → Address → Prop}
    (hK : TemporalBound.Law K fun _ _ => True) (h : ReachableUnvouched s) :
    ∀ h ∈ s.handles, h.Placed K := by
  induction h with
  | refl => exact fun _ hk => nomatch hk
  | tail hs hstep ih => exact hstep.placed hK (ReachableUnvouched.sound hs) ih

theorem ReachableUnvouched.flags (h : ReachableUnvouched s) :
    ∀ h ∈ s.handles, h.Placed TemporalBound.Flags :=
  h.placed TemporalBound.law_flags

/-! ## 4. Heap-only kinds -/

/-- No pointer of a heap-only kind has its data on the stack, and the conversions to those kinds
refuse the data that is there and no other. -/
structure HeapOnly (s : Program) : Prop where
  object : ∀ {τ} {p : Ptr τ}, .object τ p ∈ s.handles → Frames.extent.contains p.address = false
  array : ∀ {τ} {p : ArrayPtr τ}, s.HasArray τ (.plain p) →
    Frames.extent.contains p.span.base = false
  matrix : ∀ {τ} {m : Matrix τ}, .matrix τ m ∈ s.handles → Frames.extent.contains m.base = false
  record : ∀ {σ τ} {p : TailedPtr σ τ}, .tailed σ τ p ∈ s.handles →
    Frames.extent.contains p.address = false
  void : ∀ {p : VoidPtr}, .void p ∈ s.handles → Frames.extent.contains p.address = false
  ofStackObject : ∀ {τ} {p : StackPtr τ}, .boundedObject τ p ∈ s.handles →
    Ptr.ofStack p = if Frames.extent.contains p.address = true then .error (.heapOnly p.address)
      else .ok ⟨p.address⟩
  ofStackArray : ∀ {τ} {p : StackArrayPtr τ}, s.HasArray τ (.bounded p) →
    ArrayPtr.ofStack p = if Frames.extent.contains p.span.base = true then
        .error (.heapOnly p.span.base)
      else .ok ⟨p.span⟩
  fixedArray : ∀ {τ} {x : FixedArray τ}, .fixed τ x ∈ s.handles →
    x.toArrayPtr = if Frames.extent.contains x.base = true then .error (.heapOnly x.base)
      else .ok (.ofBase x.base x.length)
  /-- Of an index that is not in the array nothing is converted, wherever the array is. -/
  fixedArrayAt : ∀ {τ} {x : FixedArray τ}, .fixed τ x ∈ s.handles → ∀ i : UInt64,
    x.offsetArrayPtr i = if i < x.length then
        if Frames.extent.contains x.base = true then .error (.heapOnly x.base)
        else .ok (ArrayLike.offset (.ofBase x.base x.length) i.toInt64)
      else .error (.outOfBounds i.toInt64 x.length)

theorem ReachableUnvouched.heapOnly (h : ReachableUnvouched s) : HeapOnly s where
  object hp := h.flags _ hp
  array hp := hp.placed h.flags
  matrix hm := h.flags _ hm
  record {σ τ p} hp := by
    rcases h.sound.backed _ hp with hnull | ⟨b, hb, haddr, -⟩
    · rw [hnull]
      exact Frames.not_contains_zero
    · rw [← haddr]
      exact h.sound.world.payload_offStack hb
  void hp := h.flags _ hp
  ofStackObject hp := Ptr.ofStack_eq (h.flags _ hp)
  ofStackArray hp := ArrayPtr.ofStack_eq (hp.placed h.flags)
  fixedArray _ := FixedArray.toArrayPtr_eq _
  fixedArrayAt _ i := FixedArray.offsetArrayPtr_eq _ i

/-- A pointer to two words of a call, bound to the frame of the call. -/
def calleePtr : StackArrayPtr .uint32 :=
  ⟨⟨Frames.pointerAt 1, 0, 2⟩, ⟨Frames.pointerAt 1, .stack⟩⟩

/-- The program that has made it. -/
def localFixed : Program :=
  initial.run (giving (.fixed .uint16) (FixedArray.newLocal .uint16 [1, 2, 3]))

end Program

end CheckedMemory
