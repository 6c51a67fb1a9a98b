import CheckedMemory.Array.Fixed
import CheckedMemory.Array.Matrix
import CheckedMemory.Pointer.Cast
import CheckedMemory.Proofs.Access

/-!
# What conversions give

Each conversion is read backwards: from a result that it gave to what it was given and what its
checks found.  Nothing is said of memory there except for downcasts, which ask the heap table; so
the same lemma serves for where a handle points and for how long it may.  The last section puts the
two together for the conversions that change what a handle says is there.
-/

namespace CheckedMemory

variable {past : List Block} {w : World} {a : Address} {σ τ : ElemType}

/-! ## 1. Motion -/

/-- The first element is at some distance from the current one. -/
theorem ArrayLike.toBegin_eq_ok {P : ElemType → Type} [ArrayLike P] {p q : P τ}
    (h : toBegin p = .ok q) : ∃ d, q = offset p d := by
  unfold toBegin Span.toBegin at h
  split at h
  · cases h
  · cases h
    exact ⟨_, rfl⟩

/-- And so is the end. -/
theorem ArrayLike.toEnd_eq_ok {P : ElemType → Type} [ArrayLike P] {p q : P τ}
    (h : toEnd p = .ok q) : ∃ d, q = offset p d := by
  unfold toEnd Span.toEnd at h
  simp only at h
  split at h
  · cases h
  · cases h
    exact ⟨_, rfl⟩

/-! ## 2. One object and arrays -/

/-- The current element as an object is null, or it is an element that a check let through. -/
theorem ArrayPtr.toPtr_eq_ok {p : ArrayPtr τ} {q : Ptr τ} (h : p.toPtr = .ok q) :
    q.address = 0 ∨ p.span.locate τ.size 0 = .ok q.address := by
  unfold toPtr at h
  split at h
  · cases h
    exact .inl rfl
  · obtain ⟨a, ha, rfl⟩ := exists_ok_of_map h
    exact .inr ha

/-- Likewise for a stack-scoped array, and the bound is kept. -/
theorem StackArrayPtr.toStackPtr_eq_ok {p : StackArrayPtr τ} {q : StackPtr τ}
    (h : p.toStackPtr = .ok q) :
    q.bound = p.bound ∧
      ((q.address = 0 ∧ p.span.base = 0) ∨ p.span.locate τ.size 0 = .ok q.address) := by
  unfold toStackPtr at h
  split at h
  · rename_i hnull
    cases h
    exact ⟨rfl, .inl ⟨rfl, by simpa [Span.isNull] using hnull⟩⟩
  · obtain ⟨a, ha, rfl⟩ := exists_ok_of_map h
    exact ⟨rfl, .inr ha⟩

/-! ## 3. Stack-scoped kinds -/

/-- What leaves the stack-scoped kinds is null or flagged as off the stack. -/
theorem Ptr.ofStack_eq_ok {p : StackPtr τ} {q : Ptr τ} (h : ofStack p = .ok q) :
    q.address = p.address ∧ (p.address = 0 ∨ p.bound.residency = .heap) := by
  unfold ofStack StackPtr.isNull TemporalBound.offStack at h
  split at h
  · rename_i hoff
    cases h
    exact ⟨rfl, by simpa using hoff⟩
  · cases h

theorem ArrayPtr.ofStack_eq_ok {p : StackArrayPtr τ} {q : ArrayPtr τ} (h : ofStack p = .ok q) :
    q.span = p.span ∧ (p.span.base = 0 ∨ p.bound.residency = .heap) := by
  unfold ofStack Span.isNull TemporalBound.offStack at h
  split at h
  · rename_i hoff
    cases h
    exact ⟨rfl, by simpa using hoff⟩
  · cases h

theorem StackPtr.assign_eq_ok {p q r : StackPtr τ} (h : p.assign q = .ok r) :
    r.address = q.address ∧ p.bound.accept q.address q.bound.residency = .ok r.bound := by
  obtain ⟨b, hb, rfl⟩ := exists_ok_of_map h
  exact ⟨rfl, hb⟩

theorem StackPtr.pointTo_eq_ok {p r : StackPtr τ} (h : p.pointTo a = .ok r) :
    r.address = a ∧ p.bound.accept a (Frames.extent.residency a) = .ok r.bound := by
  obtain ⟨b, hb, rfl⟩ := exists_ok_of_map h
  exact ⟨rfl, hb⟩

theorem StackArrayPtr.assign_eq_ok {p q r : StackArrayPtr τ} (h : p.assign q = .ok r) :
    r.span = q.span ∧ p.bound.accept q.span.base q.bound.residency = .ok r.bound := by
  obtain ⟨b, hb, rfl⟩ := exists_ok_of_map h
  exact ⟨rfl, hb⟩

/-! ## 4. Other element types -/

theorem requireAligned_eq_ok {u : Unit} (h : requireAligned σ a = .ok u) : a % σ.align = 0 := by
  unfold requireAligned at h
  split at h
  · assumption
  · cases h

/-- An object viewed as another is null, or it suits the other type and is not smaller. -/
theorem Ptr.reinterpret_eq_ok {p : Ptr τ} {q : Ptr σ} (h : p.reinterpret σ = .ok q) :
    q.address = 0 ∨ (q.address = p.address ∧ p.address ≠ 0 ∧ p.address % σ.align = 0 ∧
      σ.size.toNat ≤ τ.size.toNat) := by
  unfold reinterpret isNull at h
  by_cases hnull : p.address = 0
  · simp only [hnull, beq_self_eq_true, if_true] at h
    cases h
    exact .inl rfl
  · simp only [beq_iff_eq, hnull, if_false] at h
    by_cases hsize : τ.size < σ.size
    · simp only [if_pos hsize] at h
      cases h
    · simp only [if_neg hsize] at h
      obtain ⟨_, hal, hq⟩ := exists_ok_of_bind h
      cases hq
      refine .inr ⟨rfl, hnull, requireAligned_eq_ok hal, ?_⟩
      have : ¬ τ.size.toNat < σ.size.toNat := fun hlt => hsize (UInt64.lt_iff_toNat_lt.mpr hlt)
      omega

/-- An array viewed as another is null, or suits the other type and has its extent counted anew. -/
theorem ArrayPtr.reinterpret_eq_ok {p : ArrayPtr τ} {q : ArrayPtr σ}
    (h : p.reinterpret σ = .ok q) :
    q.span.base = 0 ∨ (p.span.base % σ.align = 0 ∧ q.span = p.span.rescale τ.size σ.size) := by
  unfold reinterpret Span.isNull at h
  by_cases hnull : p.span.base = 0
  · simp only [hnull, beq_self_eq_true, if_true] at h
    cases h
    exact .inl rfl
  · simp only [beq_iff_eq, hnull, if_false] at h
    obtain ⟨_, hal, hq⟩ := exists_ok_of_bind h
    cases hq
    exact .inr ⟨requireAligned_eq_ok hal, rfl⟩

/-- Likewise for a stack-scoped array, whose bound is kept. -/
theorem StackArrayPtr.reinterpret_eq_ok {p : StackArrayPtr τ} {q : StackArrayPtr σ}
    (h : p.reinterpret σ = .ok q) :
    q.bound = p.bound ∧ q.span = p.span.rescale τ.size σ.size ∧
      (p.span.base = 0 ∨ p.span.base % σ.align = 0) := by
  unfold reinterpret Span.isNull at h
  by_cases hnull : p.span.base = 0
  · simp only [hnull, beq_self_eq_true, if_true] at h
    cases h
    exact ⟨rfl, rfl, .inl hnull⟩
  · simp only [beq_iff_eq, hnull, if_false] at h
    obtain ⟨_, hal, hq⟩ := exists_ok_of_bind h
    cases hq
    exact ⟨rfl, rfl, .inr (requireAligned_eq_ok hal)⟩

/-! ## 5. Downcasts -/

/-- The object that a downcast gives is null or at the same address, and is of the type recorded if
the block there has values. -/
theorem Ptr.downcast_cases {Q : Storage} {t : HeapTable} (hQ : Q.HasBlocks t) (p : Ptr τ)
    (σ : ElemType) (hvalue : ∀ b, t.containing? p.address = some b → b.count ≠ 0) :
    (p.downcast t σ).address = 0 ∨
      ((p.downcast t σ).address = p.address ∧ Q σ p.address 1) := by
  unfold downcast HeapTable.downcastObject
  split
  · rename_i hat
    obtain ⟨b, hb, hs, hal, hle, hfit⟩ :=
      HeapTable.exists_block_of_holdsAt hQ.shaped hvalue hat
    exact .inr ⟨rfl, hQ.elements hb hs hal hle (by rwa [Nat.one_mul])⟩
  · exact .inl rfl

theorem VoidPtr.downcast_cases {Q : Storage} {t : HeapTable} (hQ : Q.HasBlocks t) (p : VoidPtr)
    (σ : ElemType) (hvalue : ∀ b, t.containing? p.address = some b → b.count ≠ 0) :
    (p.downcast t σ).address = 0 ∨
      ((p.downcast t σ).address = p.address ∧ Q σ p.address 1) :=
  Ptr.downcast_cases hQ (⟨p.address⟩ : Ptr .unit) σ hvalue

/-- The array that a downcast gives is null or has all of a live block of the type asked for. -/
theorem ArrayPtr.downcast_cases (t : HeapTable) (p : ArrayPtr τ) (σ : ElemType) :
    (p.downcast t σ).span.base = 0 ∨
      ∃ b ∈ t.blocks, b.stored = .elements σ ∧ b.payload = p.span.base ∧
        (p.downcast t σ).span.base = b.payload ∧ (p.downcast t σ).span.extent = b.count := by
  unfold downcast HeapTable.downcast
  cases hb : t.containing? p.span.base with
  | none => exact .inl rfl
  | some b =>
    simp only [Bool.or_eq_true, bne_iff_ne, ne_eq]
    by_cases hpay : b.payload = p.span.base
    · by_cases hs : b.stored = .elements σ
      · rw [if_neg (by simp [hpay, hs])]
        exact .inr ⟨b, (HeapTable.containing?_eq_some hb).1, hs, hpay, hpay.symm, rfl⟩
      · rw [if_pos (.inr hs)]
        exact .inl rfl
    · rw [if_pos (.inl hpay)]
      exact .inl rfl

/-! ## 6. Aggregates -/

/-- A matrix that is held has as many cells as its size says. -/
theorem Matrix.toNat_size {m : Matrix τ} (h : m.xExtent.toNat * m.yExtent.toNat < 2 ^ 64) :
    m.size.toNat = m.xExtent.toNat * m.yExtent.toNat := by
  unfold size
  rw [UInt64.toNat_mul, Nat.mod_eq_of_lt h]

/-- A fixed array has no flag; it is asked where it lies. -/
theorem FixedArray.toArrayPtr_eq (x : FixedArray τ) :
    x.toArrayPtr = if Frames.extent.contains x.base = true then .error (.heapOnly x.base)
      else .ok (.ofBase x.base x.length) := by
  unfold toArrayPtr offStack StackExtent.residency
  cases Frames.extent.contains x.base <;> rfl

/-- A fixed array as a plain one is the whole of it, off the stack. -/
theorem FixedArray.toArrayPtr_eq_ok {x : FixedArray τ} {p : ArrayPtr τ} (h : x.toArrayPtr = .ok p) :
    p = .ofBase x.base x.length ∧ Frames.extent.contains x.base = false := by
  rw [toArrayPtr_eq] at h
  split at h
  · cases h
  · rename_i hoff
    exact ⟨(Except.ok.inj h).symm, Bool.eq_false_iff.mpr hoff⟩

theorem FixedArray.offsetArrayPtr_eq_ok {x : FixedArray τ} {i : UInt64} {p : ArrayPtr τ}
    (h : x.offsetArrayPtr i = .ok p) :
    p = ArrayLike.offset (.ofBase x.base x.length) i.toInt64 ∧
      Frames.extent.contains x.base = false := by
  obtain ⟨_, -, h⟩ := exists_ok_of_bind h
  obtain ⟨q, hq, h⟩ := exists_ok_of_bind h
  obtain ⟨rfl, hoff⟩ := toArrayPtr_eq_ok hq
  exact ⟨(Except.ok.inj h).symm, hoff⟩

theorem FixedArray.offset_eq_ok {f : Frames} {x : FixedArray τ} {i : UInt64} {p : StackArrayPtr τ}
    (h : x.offset f i = .ok p) : p = ArrayLike.offset (x.toStackArrayPtr f) i.toInt64 := by
  obtain ⟨_, -, h⟩ := exists_ok_of_bind h
  exact (Except.ok.inj h).symm

theorem GlobalArray.offset_eq_ok {x : GlobalArray τ} {i : UInt64} {p : ArrayPtr τ}
    (h : x.offset i = .ok p) : p = ArrayLike.offset x.toArrayPtr i.toInt64 := by
  obtain ⟨_, -, h⟩ := exists_ok_of_bind h
  exact (Except.ok.inj h).symm

/-! ## 7. Conversions of what is there -/

section Storage

variable {Q : Storage}

/-- One object as an array is that object. -/
theorem ArrayPtr.in_ofPtr {p : Ptr τ} (hp : p.address = 0 ∨ Q τ p.address 1) :
    (ArrayPtr.ofPtr p).span.In Q τ := by
  by_cases hnull : p.address = 0
  · exact .inl (by simp [ArrayPtr.ofPtr, Ptr.isNull, hnull])
  · have hone : (ArrayPtr.ofPtr p).span = ⟨p.address, 0, 1⟩ := by
      simp [ArrayPtr.ofPtr, Ptr.isNull, hnull]
    rw [hone]
    exact hp

/-- The array that a downcast gives is there, whatever it is made of: the table knows the block. -/
theorem ArrayPtr.in_downcast {t : HeapTable} (hQ : Q.HasBlocks t) (p : ArrayPtr τ) (σ : ElemType) :
    (p.downcast t σ).span.In Q σ := by
  rcases downcast_cases t p σ with hnull | ⟨b, hb, hstored, -, hbase, hext⟩
  · exact .inl hnull
  · refine .inr ?_
    have hshape := hQ.shaped b hb
    simp only [Block.Shaped, hstored] at hshape
    rw [hbase, hext]
    exact hQ.elements hb hstored hshape.1 (Nat.le_refl _) (Nat.le_of_eq (by rw [hshape.2]))

/-- The cells of a matrix are there as an array. -/
theorem Matrix.in_toArrayPtr {m : Matrix τ}
    (hm : m.base = 0 ∨ m.xExtent.toNat * m.yExtent.toNat < 2 ^ 64 ∧
      Q τ m.base (m.xExtent.toNat * m.yExtent.toNat)) : m.toArrayPtr.span.In Q τ := by
  refine hm.imp_right ?_
  rintro ⟨hsize, hthere⟩
  change Q τ m.base m.size.toNat
  rw [toNat_size hsize]
  exact hthere

variable (hQ : Q.Divides)

include hQ

/-- An object viewed as another is all in the bytes of the first. -/
theorem Ptr.in_reinterpret {p : Ptr τ} {q : Ptr σ} (hp : p.address = 0 ∨ Q τ p.address 1)
    (hq : p.reinterpret σ = .ok q) : q.address = 0 ∨ Q σ q.address 1 := by
  rcases reinterpret_eq_ok hq with hnull | ⟨haddr, hne, hal, hsize⟩
  · exact .inl hnull
  · rw [ElemType.toNat_size, ElemType.toNat_size] at hsize
    have hal' := congrArg UInt64.toNat hal
    rw [UInt64.toNat_mod, ElemType.toNat_align] at hal'
    rw [haddr]
    exact .inr (hQ.view (hp.resolve_left hne) hal' (by omega))

/-- An array viewed as another has no element that is not in the bytes of the first. -/
theorem ArrayPtr.in_reinterpret {p : ArrayPtr τ} {q : ArrayPtr σ} (hp : p.span.In Q τ)
    (hq : p.reinterpret σ = .ok q) : q.span.In Q σ := by
  rcases reinterpret_eq_ok hq with hnull | ⟨hal, hspan⟩
  · exact .inl hnull
  · rw [hspan]
    exact hp.rescale hQ hal

theorem StackArrayPtr.in_reinterpret {p : StackArrayPtr τ} {q : StackArrayPtr σ}
    (hp : p.span.In Q τ) (hq : p.reinterpret σ = .ok q) : q.span.In Q σ := by
  obtain ⟨-, hspan, hcase⟩ := reinterpret_eq_ok hq
  rw [hspan]
  rcases hcase with hnull | hal
  · exact .inl hnull
  · exact hp.rescale hQ hal

end Storage

end CheckedMemory
