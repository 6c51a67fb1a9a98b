import CheckedMemory.Proofs.Conversion
import CheckedMemory.Proofs.Program
import CheckedMemory.Proofs.Release

/-!
# What every handle keeps

Two things hold of the handles of a program.  `Handle.Backed` is about space: what a handle says is
there is held, or the handle is null.  `Handle.Placed` is about time: a plain handle is off the
stack, and the bound of a stack-scoped one obeys some law.  Under the strictest, `Handle.Homed`, it
knows whether its data is on the stack, and data there is not below the stack pointer it is bound
to.  Backing holds on every run, and that handles are homed on a scoped one.

Backing must be carried from state to state, which is what `World.Extends` is for; where a handle is
placed does not depend on the state at all.  Which bounds there are does depend on what the frames
may bind, so a law of bounds (`TemporalBound.Law`) comes with that.
-/

namespace CheckedMemory

open Operation

variable {past : List Block} {w w' : World} {a : Address} {σ τ : ElemType}

/-! ## 1. Backed handles -/

/-- What a pointer says is there is storage, or the pointer is null. -/
def Handle.In (Q : Storage) : Handle → Prop
  | .object τ p => p.address = 0 ∨ Q τ p.address 1
  | .boundedObject τ p => p.address = 0 ∨ Q τ p.address 1
  | .array τ p => p.span.In Q τ
  | _ => True

/-- What any handle says is there is storage, or the handle is null.  A record is a block of the
past. -/
def Handle.LiesIn (Q : Storage) (past : List Block) : Handle → Prop
  | .matrix τ m => m.base = 0 ∨ m.xExtent.toNat * m.yExtent.toNat < 2 ^ 64 ∧
      Q τ m.base (m.xExtent.toNat * m.yExtent.toNat)
  | .tailed σ τ p => p.address = 0 ∨ ∃ b ∈ past, b.payload = p.address ∧ b.stored = .tailed σ τ
  | .void p => p.address = 0 ∨ Q .unit p.address 1
  | .fixed τ x => Q τ x.base x.length.toNat
  | .global τ x => Q τ x.base x.length.toNat
  | .tokenizer t => t.text.span.In Q .uint8 ∧ ∀ p, t.cursor = some p → p.span.In Q .uint8
  | h => h.In Q

/-- What the handle says is there is held, or the handle is null. -/
def Handle.Backed (past : List Block) (w : World) (h : Handle) : Prop :=
  h.LiesIn (w.Holds past) past

section LiesIn

variable {Q : Storage} {h : Handle}

theorem Handle.LiesIn.within (hl : h.LiesIn Q past) : h.In Q := by
  cases h with
  | object τ p => exact hl
  | boundedObject τ p => exact hl
  | array τ p => exact hl
  | _ => trivial

theorem Handle.LiesIn.mono {Q' : Storage} {past' : List Block} (hQ : ∀ {τ a n}, Q τ a n → Q' τ a n)
    (hpast : ∀ b ∈ past, b ∈ past') (hl : h.LiesIn Q past) : h.LiesIn Q' past' := by
  cases h with
  | object τ p => exact Or.imp_right hQ hl
  | boundedObject τ p => exact Or.imp_right hQ hl
  | array τ p => exact Or.imp_right hQ hl
  | matrix τ m => exact Or.imp_right (And.imp_right hQ) hl
  | tailed σ τ p =>
    refine Or.imp_right ?_ hl
    rintro ⟨b, hb, hrest⟩
    exact ⟨b, hpast b hb, hrest⟩
  | void p => exact Or.imp_right hQ hl
  | fixed τ x => exact hQ hl
  | global τ x => exact hQ hl
  | tokenizer t => exact ⟨hl.1.imp_right hQ, fun p hp => (hl.2 p hp).imp_right hQ⟩
  | stream f => trivial
  | marks s => trivial

end LiesIn

theorem Handle.Backed.mono {past' : List Block} (hx : w.Extends past past' w') {h : Handle}
    (hb : h.Backed past w) : h.Backed past' w' :=
  LiesIn.mono (World.Holds.mono hx) hx.blocks hb

/-! ## 2. Homed handles -/

/-- The flag says whether data at `a` is on the stack; if it is, it does not lie below the stack
pointer that the bound holds. -/
structure TemporalBound.Fits (b : TemporalBound) (a : Address) : Prop where
  flag : b.residency = .stack ↔ Frames.extent.contains a = true
  frame_le : b.residency = .stack → b.frame ≤ a

/-- A plain array is off the stack, and the bound of a stack-scoped one is right for its base. -/
def AnyArrayPtr.Placed (K : TemporalBound → Address → Prop) : AnyArrayPtr τ → Prop
  | .plain p => Frames.extent.contains p.span.base = false
  | .bounded p => K p.bound p.span.base

/-- A handle of a plain kind is off the stack, and the bound of a stack-scoped one is right for its
data. -/
def Handle.Placed (K : TemporalBound → Address → Prop) : Handle → Prop
  | .object _ p => Frames.extent.contains p.address = false
  | .boundedObject _ p => K p.bound p.address
  | .array _ p => p.Placed K
  | .matrix _ m => Frames.extent.contains m.base = false
  | .void p => Frames.extent.contains p.address = false
  | .global _ x => Frames.extent.contains x.base = false
  | .tokenizer t => t.text.Placed K ∧ ∀ p, t.cursor = some p → p.Placed K
  | .tailed .. | .fixed .. | .stream _ | .marks _ => True

/-- A plain array is off the stack, and the bound of a stack-scoped one fits. -/
def AnyArrayPtr.Homed : AnyArrayPtr τ → Prop := AnyArrayPtr.Placed TemporalBound.Fits

/-- A handle of a plain kind is off the stack, and the bound of a stack-scoped one fits. -/
def Handle.Homed : Handle → Prop := Handle.Placed TemporalBound.Fits

/-- The null address is off the stack. -/
theorem Frames.not_contains_zero : extent.contains 0 = false := by decide

namespace TemporalBound

/-- A bound whose flag is off the stack fits data off the stack. -/
theorem fits_of_heap {b : TemporalBound} (hb : b.residency = .heap)
    (ha : Frames.extent.contains a = false) : b.Fits a := by
  refine ⟨?_, ?_⟩
  · rw [hb, ha]
    simp
  · intro hs
    rw [hb] at hs
    cases hs

/-- A bound whose flag is on the stack fits data that is there and not below its frame. -/
theorem fits_of_stack {b : TemporalBound} (hb : b.residency = .stack)
    (ha : Frames.extent.contains a = true) (hle : b.frame ≤ a) : b.Fits a :=
  ⟨by simp [hb, ha], fun _ => hle⟩

/-- A bound fits wherever data is that is as much on the stack and does not lie lower. -/
theorem Fits.move {b : TemporalBound} {a' : Address} (h : b.Fits a)
    (hc : Frames.extent.contains a' = Frames.extent.contains a) (hle : a.toNat ≤ a'.toNat) :
    b.Fits a' := by
  refine ⟨by rw [hc]; exact h.flag, fun hs => ?_⟩
  have := UInt64.le_iff_toNat_le.mp (h.frame_le hs)
  exact UInt64.le_iff_toNat_le.mpr (by omega)

/-- What a bound accepts with a flag that is exact, it then fits: the frame stays that of before. -/
theorem fits_of_accept {b b' : TemporalBound} {r : Residency}
    (h : b.accept a r = .ok b') (hr : r = .stack ↔ Frames.extent.contains a = true) :
    b'.Fits a := by
  unfold accept at h
  split at h
  · rename_i hadmit
    cases h
    cases r with
    | heap =>
      refine fits_of_heap rfl ?_
      rw [Bool.eq_false_iff]
      intro ha
      cases hr.mpr ha
    | stack =>
      have ha := hr.mp rfl
      refine fits_of_stack rfl ha ?_
      have hadm := hadmit.resolve_left (by decide)
      simp only [admits, Bool.or_eq_true, beq_iff_eq, decide_eq_true_eq] at hadm
      rcases hadm with rfl | hle
      · rw [Frames.not_contains_zero] at ha
        cases ha
      · exact hle
  · cases h

/-- A law of bounds: what the bound of a stack-scoped pointer must be for its data, where a frame
may bind data anew if `A` says so.  Its own data and its callers' it may always bind, and so it may
what is off the stack. -/
structure Law (K : TemporalBound → Address → Prop) (A : Frames → Address → Prop) : Prop where
  /-- The flag is exact. -/
  flag : ∀ {b a}, K b a → (b.residency = .stack ↔ Frames.extent.contains a = true)
  own : ∀ {f : Frames} {a}, (Frames.extent.contains a = true → f.pointer ≤ a) → A f a
  captureHeap : ∀ {f : Frames} {a}, Frames.extent.contains a = false → K f.captureHeap a
  capture : ∀ {f : Frames} {a}, Frames.extent.contains a = true → A f a → K f.capture a
  /-- A bound that is right for data is right for what lies in it. -/
  move : ∀ {b a a'}, K b a → Frames.extent.contains a' = Frames.extent.contains a →
    a.toNat ≤ a'.toNat → K b a'
  /-- What a bound accepts with a flag that is exact it is right for. -/
  accept : ∀ {b b' a₀ a r}, K b a₀ → b.accept a r = .ok b' →
    (r = .stack ↔ Frames.extent.contains a = true) → K b' a

theorem law_fits : Law Fits fun f a => Frames.extent.contains a = true → f.pointer ≤ a where
  flag h := h.flag
  own h := h
  captureHeap ha := fits_of_heap rfl ha
  capture ha hle := fits_of_stack rfl ha (hle ha)
  move h hc hle := h.move hc hle
  accept _ haccept hr := fits_of_accept haccept hr

namespace Law

variable {K : TemporalBound → Address → Prop} {A : Frames → Address → Prop} {b : TemporalBound}
  {f : Frames}

/-- A pointer whose flag is off the stack has its data off the stack. -/
theorem not_contains (hK : Law K A) (h : K b a) (hb : b.residency = .heap) :
    Frames.extent.contains a = false := by
  rw [Bool.eq_false_iff]
  intro ha
  have := (hK.flag h).mpr ha
  rw [hb] at this
  cases this

/-- A bound captured for data that the frame may bind is right for it, wherever it is. -/
theorem captureFor (hK : Law K A) (hA : A f a) :
    K (f.captureFor a) a := by
  unfold Frames.captureFor StackExtent.residency
  cases ha : Frames.extent.contains a with
  | true => exact hK.capture ha hA
  | false => exact hK.captureHeap ha

/-- And so is the bound of a clone, which is made anew with the flag copied. -/
theorem clone (hK : Law K A) (h : K b a) (hA : A f a) :
    K (if b.offStack then f.captureHeap else f.capture) a := by
  unfold offStack
  cases hr : b.residency with
  | heap => exact hK.captureHeap (hK.not_contains h hr)
  | stack => exact hK.capture ((hK.flag h).mp hr) hA

end Law

end TemporalBound

/-! ## 3. Elements lie where their array does -/

/-- Addresses that one plot covers are all on the stack or all off it. -/
theorem World.Sound.contains_eq (h : w.Sound past) {q : Plot} (hq : q ∈ w.memory.plots)
    {b : Address} {m n : Nat} (ha : q.Covers a.toNat m) (hb : q.Covers b.toNat n) :
    Frames.extent.contains b = Frames.extent.contains a := by
  obtain ⟨halo, hahi⟩ := ha
  obtain ⟨hblo, hbhi⟩ := hb
  rcases h.sited q hq with hs | hs
  · have hstop := hs.stop_lt h.le_heapEnd
    rw [Frames.not_contains_of_lt (by omega), Frames.not_contains_of_lt (by omega)]
  · have hbase := hs.le_base
    have hstop := hs.stop_lt h.used_le
    rw [Frames.contains_extent_iff.mpr ⟨by omega, by omega⟩,
      Frames.contains_extent_iff.mpr ⟨by omega, by omega⟩]

/-- `n` bytes from an address on are all on the stack or all off it. -/
structure Frames.OneSide (a : Address) (n : Nat) : Prop where
  end_le : a.toNat + n ≤ 2 ^ 64
  contains_eq : ∀ b : Address, a.toNat ≤ b.toNat → b.toNat < a.toNat + n →
    extent.contains b = extent.contains a

theorem Frames.OneSide.mono {n m : Nat} (h : OneSide a n) (hm : m ≤ n) : OneSide a m :=
  ⟨by have := h.end_le; omega, fun b hlo hhi => h.contains_eq b hlo (by omega)⟩

/-- Values that are all on the stack or all off it. -/
def Frames.SameSide : Storage := fun τ a n => OneSide a (n * τ.layout.size)

/-- All that the span says is there is on the stack, or off it. -/
def Span.OneSided (τ : ElemType) (s : Span) : Prop := s.In Frames.SameSide τ

/-- All that a pointer says is there is on the stack, or off it. -/
def Handle.OneSided : Handle → Prop := Handle.In Frames.SameSide

theorem Frames.divides_sameSide : SameSide.Divides where
  drop {τ a n m i} hside hi := by
    have hmul : (i.toNat + m) * τ.layout.size ≤ n * τ.layout.size := Nat.mul_le_mul_right _ hi
    rw [Nat.add_mul] at hmul
    obtain ⟨hend, hcontains⟩ := hside
    by_cases hnone : m * τ.layout.size = 0
    · have hlt := (a + i * τ.size).toNat_lt
      exact ⟨by omega, fun b hlo hhi => by omega⟩
    · have haddr : (a + i * τ.size).toNat = a.toNat + i.toNat * τ.layout.size :=
        τ.toNat_element (n := i.toNat) (by omega) (Nat.le_refl _)
      have hsame := hcontains (a + i * τ.size) (by omega) (by omega)
      exact ⟨by omega, fun b hlo hhi => (hcontains b (by omega) (by omega)).trans hsame.symm⟩
  view hside _ hle := hside.mono hle

/-- An element that a check let through is as much on the stack as its array, and not below it. -/
theorem Span.OneSided.locate {s : Span} {i : Int64} (h : s.OneSided τ)
    (hl : s.locate τ.size i = .ok a) :
    Frames.extent.contains a = Frames.extent.contains s.base ∧ s.base.toNat ≤ a.toNat ∧
      Frames.OneSide a τ.layout.size := by
  obtain ⟨hne, k, hk, rfl⟩ := locate_eq_ok hl
  obtain ⟨hend, hcontains⟩ := h.resolve_left hne
  have hmul : (k.toNat + 1) * τ.layout.size ≤ s.extent.toNat * τ.layout.size :=
    Nat.mul_le_mul_right _ hk
  rw [Nat.add_mul, Nat.one_mul] at hmul
  by_cases hzero : τ.layout.size = 0
  · have hsize : τ.size = 0 := UInt64.toNat_inj.mp (τ.toNat_size.trans hzero)
    rw [hsize, UInt64.mul_zero, UInt64.add_zero, hzero]
    exact ⟨rfl, Nat.le_refl _, by omega, fun b hlo hhi => absurd hlo (by omega)⟩
  · have haddr : (s.base + k * τ.size).toNat = s.base.toNat + k.toNat * τ.layout.size :=
      τ.toNat_element (n := k.toNat) (by omega) (Nat.le_refl _)
    have hsame := hcontains (s.base + k * τ.size) (by omega) (by omega)
    refine ⟨hsame, by omega, by omega, fun b hlo hhi => ?_⟩
    rw [hsame]
    exact hcontains b (by omega) (by omega)

/-- What is held is on the stack or off it: it lies in one plot. -/
theorem World.Holds.oneSide (h : w.Sound past) {n : Nat} (ha : w.Holds past τ a n) :
    Frames.OneSide a (n * τ.layout.size) := by
  obtain ⟨q, hq, hlo, hhi⟩ := ha.exists_covers h
  have hend := ha.end_lt h
  refine ⟨by omega, fun b hb hb' => ?_⟩
  exact h.contains_eq hq (m := n * τ.layout.size) (n := 0) ⟨hlo, hhi⟩ ⟨by omega, by omega⟩

theorem Handle.Backed.oneSided (h : w.Sound past) {g : Handle} (hg : g.Backed past w) :
    g.OneSided := by
  cases g with
  | object τ p => exact Or.imp_right (World.Holds.oneSide h) hg
  | boundedObject τ p => exact Or.imp_right (World.Holds.oneSide h) hg
  | array τ p => exact Or.imp_right (World.Holds.oneSide h) hg
  | _ => trivial

/-! ## 4. Array pointers of a program -/

theorem AnyArrayPtr.offset_zero (p : AnyArrayPtr τ) : ArrayLike.offset p 0 = p := by
  have hspan : p.span.shift 0 = p.span := by
    rw [Span.shift, Int64.add_zero]
  change p.withSpan (p.span.shift 0) = p
  rw [hspan]
  cases p <;> rfl

namespace Program

variable {s : Program}

/-- The program has the array pointer: as a handle of its own, or in a tokenizer. -/
inductive HasArray (s : Program) : (τ : ElemType) → AnyArrayPtr τ → Prop where
  | handle {τ p} (hp : .array τ p ∈ s.handles) : HasArray s τ p
  | text {t} (ht : .tokenizer t ∈ s.handles) : HasArray s .uint8 t.text
  | cursor {t p} (ht : .tokenizer t ∈ s.handles) (hp : t.cursor = some p) : HasArray s .uint8 p

theorem HasArray.lies {Q : Storage} {p : AnyArrayPtr τ} (hs : ∀ h ∈ s.handles, h.LiesIn Q past)
    (hp : s.HasArray τ p) : p.span.In Q τ := by
  cases hp with
  | handle hp => exact hs _ hp
  | text ht => exact (hs _ ht).1
  | cursor ht hp => exact (hs _ ht).2 _ hp

theorem HasArray.backs {p : AnyArrayPtr τ} (hs : ∀ h ∈ s.handles, h.Backed s.past s.world)
    (hp : s.HasArray τ p) : s.world.Backs s.past τ p.span :=
  hp.lies hs

theorem HasArray.placed {K : TemporalBound → Address → Prop} {p : AnyArrayPtr τ}
    (hh : ∀ h ∈ s.handles, h.Placed K) (hp : s.HasArray τ p) : p.Placed K := by
  cases hp with
  | handle hp => exact hh _ hp
  | text ht => exact (hh _ ht).1
  | cursor ht hp => exact (hh _ ht).2 _ hp

theorem HasArray.homed {p : AnyArrayPtr τ} (hh : ∀ h ∈ s.handles, h.Homed)
    (hp : s.HasArray τ p) : p.Homed :=
  hp.placed hh

end Program

end CheckedMemory
