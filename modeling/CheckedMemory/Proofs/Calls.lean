import CheckedMemory.Proofs.Steps

/-!
# Calls with any stack pointers

How far down a call takes the stack pointer depends on the frame that it opens, and when it returns
the next call may use its addresses again.  What stack-scoped pointers keep to does not depend on
that, nor on what is in memory, so it is said here of runs that have storage wherever they like
(`Program.CallStep`): a frame is opened with any stack pointer below that of its caller, and a
pointer refers to any address of the stack or off it.

An open frame owns the addresses from its stack pointer up to that of its caller (`Frames.Owns`).
Which data a frame may bind is a parameter of the runs, once for pointers that are constructed and
once for clones (`Program.Rule`).

What such a run keeps is said once for every law of bounds (`Program.CallReachable.called`).
-/

namespace CheckedMemory

open Operation

/-! ## 1. What a frame owns -/

namespace Frames

variable {f : Frames} {a p q : Address} {inner outer : List Address}

/-- A frame has its stack pointer below those of the frames that wait for it. -/
def Descends (f : Frames) : Prop := f.pointers.Pairwise (· < ·)

/-- Address `a` of the stack is in the storage of the open frame with stack pointer `p`, which goes
from there up to the stack pointer of its caller. -/
def Owns (f : Frames) (p a : Address) : Prop :=
  extent.contains a = true ∧ p ≤ a ∧
    ∃ inner outer, f.pointers = inner ++ p :: outer ∧ ∀ r ∈ outer, a < r

/-- The open frame with stack pointer `q` is the one with stack pointer `p`, or waits for it. -/
def NoDeeper (f : Frames) (q p : Address) : Prop :=
  ∃ inner outer, f.pointers = inner ++ p :: outer ∧ q ∈ p :: outer

namespace Descends

theorem enterAt (h : f.Descends) (hp : p < f.pointer) : (f.enterAt p).Descends := by
  refine List.pairwise_cons.mpr ⟨fun r hr => ?_, h⟩
  rcases List.mem_cons.mp hr with rfl | hr
  · exact hp
  · exact UInt64.lt_trans hp ((List.pairwise_cons.mp h).1 r hr)

theorem leave (h : f.Descends) : f.leave.Descends := by
  obtain ⟨callers, pointer, used⟩ := f
  cases callers with
  | nil => exact h
  | cons caller callers => exact (List.pairwise_cons.mp h).2

/-- The frames that wait for one have stack pointers above its own, and those that it waits for have
them below. -/
theorem split (h : f.Descends) (hsplit : f.pointers = inner ++ p :: outer) :
    (∀ r ∈ inner, r < p) ∧ ∀ r ∈ outer, p < r := by
  unfold Descends at h
  rw [hsplit, List.pairwise_append] at h
  obtain ⟨-, hrest, hcross⟩ := h
  exact ⟨fun r hr => hcross r hr p List.mem_cons_self, (List.pairwise_cons.mp hrest).1⟩

/-- Of open frames, the one with the higher stack pointer waits for the other. -/
theorem noDeeper_iff (h : f.Descends) (hp : p ∈ f.pointers) :
    f.NoDeeper q p ↔ q ∈ f.pointers ∧ p ≤ q := by
  constructor
  · rintro ⟨inner, outer, hsplit, hq⟩
    refine ⟨hsplit ▸ List.mem_append_right _ hq, ?_⟩
    rcases List.mem_cons.mp hq with rfl | hq
    · exact UInt64.le_refl q
    · exact UInt64.le_of_lt ((h.split hsplit).2 q hq)
  · rintro ⟨hq, hle⟩
    obtain ⟨inner, outer, hsplit⟩ := List.append_of_mem hp
    refine ⟨inner, outer, hsplit, ?_⟩
    rw [hsplit] at hq
    rcases List.mem_append.mp hq with hinner | hrest
    · exact absurd ((h.split hsplit).1 q hinner) (UInt64.not_lt.mpr hle)
    · exact hrest

/-- **What is on the stack, and not below the stack pointer of an open frame, is owned by that frame
or by one that waits for it.** -/
theorem exists_owns (h : f.Descends) (ha : extent.contains a = true) (hp : p ∈ f.pointers)
    (hle : p ≤ a) : ∃ q, f.Owns q a ∧ f.NoDeeper q p := by
  suffices hex : ∃ q, f.Owns q a ∧ q ∈ f.pointers ∧ p ≤ q by
    obtain ⟨q, ho, hq⟩ := hex
    exact ⟨q, ho, (h.noDeeper_iff hp).mpr hq⟩
  obtain ⟨inner, outer, hsplit⟩ := List.append_of_mem hp
  -- outward from `p`, up to the last stack pointer that is not above the address
  induction outer generalizing inner p with
  | nil => exact ⟨p, ⟨ha, hle, inner, [], hsplit, nofun⟩, hp, UInt64.le_refl p⟩
  | cons r outer ih =>
    have hnext : f.pointers = (inner ++ [p]) ++ r :: outer := by
      rw [hsplit, List.append_assoc, List.singleton_append]
    have hpr : p < r := (h.split hsplit).2 r List.mem_cons_self
    by_cases hr : a < r
    · refine ⟨p, ⟨ha, hle, inner, r :: outer, hsplit, fun q hq => ?_⟩, hp, UInt64.le_refl p⟩
      rcases List.mem_cons.mp hq with rfl | hq
      · exact hr
      · exact UInt64.lt_trans hr ((h.split hnext).2 q hq)
    · have hmem : r ∈ f.pointers := by
        rw [hnext]
        exact List.mem_append_right _ List.mem_cons_self
      obtain ⟨q, ho, hq, hrq⟩ := ih hmem (UInt64.not_lt.mp hr) _ hnext
      exact ⟨q, ho, hq, UInt64.le_trans (UInt64.le_of_lt hpr) hrq⟩

/-- **The owner of an address is a frame or one that waits for it exactly if the address is not
below the stack pointer of that frame.** -/
theorem le_iff_noDeeper (h : f.Descends) (ho : f.Owns q a) (hp : p ∈ f.pointers) :
    p ≤ a ↔ f.NoDeeper q p := by
  obtain ⟨-, hqa, inner, outer, hsplit, habove⟩ := ho
  rw [h.noDeeper_iff hp]
  constructor
  · intro hpa
    refine ⟨hsplit ▸ List.mem_append_right _ List.mem_cons_self, ?_⟩
    rw [hsplit] at hp
    rcases List.mem_append.mp hp with hinner | hrest
    · exact UInt64.le_of_lt ((h.split hsplit).1 p hinner)
    · rcases List.mem_cons.mp hrest with rfl | houter
      · exact UInt64.le_refl p
      · exact absurd (habove p houter) (UInt64.not_lt.mpr hpa)
  · rintro ⟨-, hle⟩
    exact UInt64.le_trans hle hqa

end Descends

/-- The storage of a frame ends below the stack pointers of the frames that wait for it. -/
theorem Owns.lt_of_mem_callers (ho : f.Owns f.pointer a) (h : f.Descends) (hp : p ∈ f.callers) :
    a < p := by
  obtain ⟨-, -, inner, outer, hsplit, habove⟩ := ho
  cases inner with
  | nil => exact habove p ((List.cons.inj hsplit).2 ▸ hp)
  | cons r inner =>
    obtain ⟨hr, -⟩ := List.cons.inj hsplit
    exact absurd ((h.split hsplit).1 r List.mem_cons_self) (hr ▸ UInt64.lt_irrefl f.pointer)

end Frames

/-! ## 2. Runs of calls -/

namespace Program

/-- Which data a frame may bind. -/
abbrev Rule := Frames → Address → Prop

/-- Any data. -/
def Rule.any : Rule := fun _ _ => True

/-- Data off the stack, and on the stack that of the current frame or of one that waits for it. -/
def Rule.own : Rule := fun f a => Frames.extent.contains a = true → f.pointer ≤ a

/-- The stack-scoped pointers that may be constructed in the current frame, with the address of the
data that each refers to: that of a value, an array, a fixed array or an element of it. -/
inductive Constructs (s : Program) : Address → Handle → Prop where
  | object (τ : ElemType) {a} (hside : a = 0 ∨ Frames.OneSide a τ.layout.size) :
    Constructs s a (.boundedObject τ (.ofAddress s.world.frames a))
  | array (τ : ElemType) {base extent} (hside : Span.OneSided τ ⟨base, 0, extent⟩) (index) :
    Constructs s base (.array τ (.bounded (.ofParts s.world.frames base extent index)))
  | fixedArray {τ} {x : FixedArray τ} (hside : Span.OneSided τ ⟨x.base, 0, x.length⟩) :
    Constructs s x.base (.array τ (.bounded (x.toStackArrayPtr s.world.frames)))
  | fixedArrayAt {τ} {x : FixedArray τ} {i p} (hside : Span.OneSided τ ⟨x.base, 0, x.length⟩)
      (hp : x.offset s.world.frames i = .ok p) : Constructs s x.base (.array τ (.bounded p))

/-- One step of a run in which `make` says for which data a pointer may be constructed, and `clone`
for which one may be cloned. -/
inductive CallStep (make clone : Rule) : Program → Program → Prop where
  | convert {s h} (hh : Converts s h) : CallStep make clone s (s.keep h)
  | rawObject {s : Program} (τ : ElemType) {a} (hoff : Frames.extent.contains a = false)
      (hside : a = 0 ∨ Frames.OneSide a τ.layout.size) :
    CallStep make clone s (s.keep (.object τ ⟨a⟩))
  | rawArray {s : Program} {τ} {p : Span} (hoff : Frames.extent.contains p.base = false)
      (hside : p.OneSided τ) : CallStep make clone s (s.keep (.array τ (.plain ⟨p⟩)))
  | pointTo {s : Program} {τ p a r} (hp : .boundedObject τ p ∈ s.handles)
      (hside : a = 0 ∨ Frames.OneSide a τ.layout.size) (hr : p.pointTo a = .ok r) :
    CallStep make clone s (s.keep (.boundedObject τ r))
  | construct {s a h} (hh : Constructs s a h) (hmake : make s.world.frames a) :
    CallStep make clone s (s.keep h)
  | clone {s a h} (hh : Clones s a h) (hclone : clone s.world.frames a) :
    CallStep make clone s (s.keep h)
  | forget {s : Program} {hs} (hhs : hs ⊆ s.handles) :
    CallStep make clone s { s with handles := hs }
  /-- A call takes the stack pointer down as far as the frame needs. -/
  | enter {s : Program} {p} (hp : p < s.world.frames.pointer) :
    CallStep make clone s (s.reframe (s.world.frames.enterAt p))
  /-- A return gives the addresses of the frame free. -/
  | leave {s : Program} : CallStep make clone s (s.move leaveFrame)

/-- A thread starts with one frame. -/
def started (p : Address) : Program := initial.reframe ⟨[], p, 0⟩

/-- The states that such runs lead to, from any stack pointer. -/
def CallReachable (make clone : Rule) (s : Program) : Prop :=
  ∃ p, Relation.ReflTransGen (CallStep make clone) (started p) s

namespace CallReachable

variable {s s' : Program} {make clone : Rule}

theorem start (p : Address) : CallReachable make clone (started p) := ⟨p, .refl⟩

theorem tail (hs : CallReachable make clone s) (hstep : CallStep make clone s s') :
    CallReachable make clone s' := by
  obtain ⟨p, hl⟩ := hs
  exact ⟨p, hl.tail hstep⟩

end CallReachable

end Program

/-! ## 3. What runs keep -/

/-- What ends on the stack is all there. -/
theorem Frames.oneSide_of_contains {a : Address} {n : Nat} (ha : extent.contains a = true)
    (hend : a.toNat + n ≤ 2 ^ 47) : OneSide a n := by
  refine ⟨by omega, fun b hlo hhi => ?_⟩
  have hlow := (contains_extent_iff.mp ha).1
  rw [ha, contains_extent_iff]
  omega

/-- All of one object is on the stack, or off it. -/
theorem Frames.oneSided_object {τ : ElemType} {a : Address}
    (h : a = 0 ∨ OneSide a τ.layout.size) : a = 0 ∨ SameSide τ a 1 := by
  rwa [SameSide, Nat.one_mul]

namespace Program

variable {s s' : Program} {make clone : Rule} {K : TemporalBound → Address → Prop}

theorem Constructs.oneSided {a : Address} {g : Handle} (hg : Constructs s a g) : g.OneSided := by
  cases hg with
  | object τ hside => exact Frames.oneSided_object hside
  | array τ hside index => exact hside
  | fixedArray hside => exact hside
  | fixedArrayAt hside hp =>
    obtain rfl := FixedArray.offset_eq_ok hp
    exact hside

/-- **A pointer that is constructed is placed right**, if the frame may bind its data. -/
theorem Constructs.placed {A : Rule} (hK : TemporalBound.Law K A) {a : Address} {g : Handle}
    (hg : Constructs s a g) (hA : A s.world.frames a) : g.Placed K := by
  cases hg with
  | object τ hside => exact hK.captureFor hA
  | array τ hside index => exact hK.captureFor hA
  | fixedArray hside => exact hK.captureFor hA
  | fixedArrayAt hside hp =>
    obtain rfl := FixedArray.offset_eq_ok hp
    exact hK.captureFor hA

/-- What holds of every state of a run of calls, if the bounds obey a law. -/
structure Called (K : TemporalBound → Address → Prop) (s : Program) : Prop where
  descends : s.world.frames.Descends
  oneSided : ∀ h ∈ s.handles, h.OneSided
  placed : ∀ h ∈ s.handles, h.Placed K

namespace Called

theorem keep (h : Called K s) {g : Handle} (hside : g.OneSided) (hplaced : g.Placed K) :
    Called K (s.keep g) where
  descends := h.descends
  oneSided k hk := by
    rcases List.mem_cons.mp hk with rfl | hold
    · exact hside
    · exact h.oneSided k hold
  placed k hk := by
    rcases List.mem_cons.mp hk with rfl | hold
    · exact hplaced
    · exact h.placed k hold

theorem reframe (h : Called K s) {f : Frames} (hf : f.Descends) : Called K (s.reframe f) :=
  ⟨hf, h.oneSided, h.placed⟩

end Called

/-- **One step keeps every bound by the law**, whatever stack pointer a call has. -/
theorem CallStep.called {A : Rule} (hK : TemporalBound.Law K A) (h : Called K s)
    (hstep : CallStep A A s s') : Called K s' := by
  cases hstep with
  | convert hg =>
    exact h.keep (hg.within Frames.divides_sameSide h.oneSided) (hg.placed hK h.oneSided h.placed)
  | rawObject τ hoff hside => exact h.keep (Frames.oneSided_object hside) hoff
  | rawArray hoff hside => exact h.keep hside hoff
  | @pointTo τ p a r hp hside hr =>
    obtain ⟨haddr, haccept⟩ := StackPtr.pointTo_eq_ok hr
    have hright : K p.bound p.address := h.placed _ hp
    subst haddr
    exact h.keep (Frames.oneSided_object hside)
      (hK.accept hright haccept residency_eq_stack_iff)
  | construct hg hmake => exact h.keep hg.oneSided (hg.placed hK hmake)
  | clone hg hclone => exact h.keep (hg.within h.oneSided) (hg.placed hK h.placed hclone)
  | forget hsub =>
    exact ⟨h.descends, fun k hk => h.oneSided k (hsub hk), fun k hk => h.placed k (hsub hk)⟩
  | enter hp => exact h.reframe (h.descends.enterAt hp)
  | leave => exact h.reframe h.descends.leave

/-- **Every state of a run of calls keeps by the law.** -/
theorem CallReachable.called {A : Rule} (hK : TemporalBound.Law K A) (hs : CallReachable A A s) :
    Called K s := by
  obtain ⟨p, hl⟩ := hs
  induction hl with
  | refl => exact ⟨List.pairwise_singleton _ _, nofun, nofun⟩
  | tail _ hstep ih => exact hstep.called hK ih

end Program

end CheckedMemory
