import CheckedMemory.Proofs.Outcome
import CheckedMemory.Proofs.Table

/-!
# What a refused resize leaves behind

Resizing has two checks, and the table changes between them.  The first asks whether the array is
a live block of its own type; a refusal there leaves the state as it was.  The second asks whether
a layout satisfies the request; by then the old block has left the table, and a refusal does not
put it back.

Main statement: `resize_not_atomic_iff` says of every state, array and count exactly when a resize
stops at a violation and leaves a changed state, and what the changed state is: the table without
the block, its release counted, and nothing else.  The block's memory is still there, but no handle
can release it any more.
-/

namespace CheckedMemory

open Operation

variable {τ : ElemType} {w : World}

/-! ## 1. The parts of a resize -/

namespace Operation

theorem outcome_takeBlock {p : Address} {b : Block} {t : HeapTable}
    (h : w.heap.take? p = some (b, t)) :
    outcome (takeBlock p) w = (.ok b, { w with heap := t }) := by
  unfold takeBlock
  rw [outcome_bind, outcome_get]
  simp only [h]
  rw [outcome_bind, outcome_set]
  rfl

/-- A release of what is no start of a live block is refused, and nothing has happened. -/
theorem outcome_takeBlock_of_not_live {p : Address} (h : w.heap.isLive p = false) :
    outcome (takeBlock p) w = (.error (.violation (.invalidFree p)), w) := by
  unfold takeBlock
  rw [outcome_bind, outcome_get]
  simp only [HeapTable.take?_eq_none.mpr h]
  rfl

end Operation

namespace ArrayPtr

/-- An array of a type is a live block of that type only if some block starts at its base. -/
theorem isLive_of_ownsBlock {p : ArrayPtr τ} (h : p.ownsBlock w = true) :
    w.heap.isLive p.span.base = true := by
  unfold ownsBlock at h
  split at h
  · rename_i b hb
    obtain ⟨hmem, -, -⟩ := HeapTable.containing?_eq_some hb
    simp only [Bool.and_eq_true, beq_iff_eq] at h
    exact HeapTable.isLive_iff.mpr ⟨b, hmem, h.1⟩
  · exact absurd h (by decide)

/-! ## 2. Where a resize stops -/

theorem outcome_resize_of_null {p : ArrayPtr τ} (count : UInt64) (h : p.span.isNull = true) :
    outcome (p.resize count) w = outcome (ArrayPtr.new τ count false) w := by
  unfold resize
  rw [if_pos h]

theorem outcome_resize_of_not_owned {p : ArrayPtr τ} {request : Request} (count : UInt64)
    (hn : p.span.isNull = false) (h : p.ownsBlock w = false) :
    outcome (p.resize count request) w = (.error (.violation (.invalidFree p.span.base)), w) := by
  unfold resize
  rw [if_neg (by simp [hn])]
  simp only [outcome_bind, outcome_get, h]
  rfl

/-- A resize of an owned block has taken it out of the table before it asks for the new one. -/
theorem outcome_resize_of_no_layout {p : ArrayPtr τ} {count : UInt64} {b : Block} {t : HeapTable}
    (hn : p.span.isNull = false) (h : p.ownsBlock w = true)
    (ht : w.heap.take? p.span.base = some (b, t))
    (hl : Reservation.layout? τ count τ.align = none) :
    outcome (p.resize count) w =
      (.error (.violation (tooLarge τ count)), { w with heap := t }) := by
  have hr : ∀ w', outcome (reserve τ count τ.align) w' =
      (.error (.violation (tooLarge τ count)), w') := by
    intro w'
    unfold reserve
    simp only [hl]
    rfl
  have hq : outcome (require (p.ownsBlock w) (.invalidFree p.span.base)) w = (.ok (), w) := by
    rw [h]
    rfl
  unfold resize
  rw [if_neg (by simp [hn]), outcome_bind_ok _ (outcome_get w), outcome_bind_ok _ hq,
    outcome_bind_ok _ (outcome_takeBlock ht), outcome_bind_error _ (hr _)]

/-- Where there is a layout for the new block, nothing after the first check is a violation. -/
theorem ensures_resize_of_layout {p : ArrayPtr τ} {count : UInt64} {l : Layout}
    (hn : p.span.isNull = false) (h : p.ownsBlock w = true)
    (hl : Reservation.layout? τ count τ.align = some l) :
    Ensures (p.resize count) w (fun _ _ => True) (fun f _ => ∀ v, f ≠ .violation v) := by
  obtain ⟨⟨b, t⟩, ht⟩ : ∃ x, w.heap.take? p.span.base = some x := by
    cases ht : w.heap.take? p.span.base with
    | none => exact absurd (isLive_of_ownsBlock h) (by simp [HeapTable.take?_eq_none.mp ht])
    | some x => exact ⟨x, rfl⟩
  unfold resize
  rw [if_neg (by simp [hn])]
  refine ensures_bind (ensures_get (ensures_bind (ensures_require ?_ ?_)))
  · intro _
    refine ensures_bind ?_
    unfold Ensures
    rw [outcome_takeBlock ht]
    refine ensures_bind ((ensures_reserve τ count τ.align).mono ?_ ?_)
    · intro r w' _
      refine ensures_bind (ensures_load ?_ fun v hv => by cases hv)
      intro cs _
      refine ensures_bind (ensures_store ?_ fun v hv => by cases hv)
      intro m _
      exact ensures_bind (ensures_modify (ensures_bind (ensures_modify (ensures_pure trivial))))
    · rintro f w' ⟨-, hf⟩ v rfl
      rw [hf v rfl] at hl
      cases hl
  · intro hno
    rw [h] at hno
    cases hno

/-! ## 3. Exactly when the old block is lost -/

/-- The array is a live block of its own type, and no layout satisfies the request. -/
def LosesBlock (p : ArrayPtr τ) (count : UInt64) (w : World) : Prop :=
  p.span.isNull = false ∧ p.ownsBlock w = true ∧ Reservation.layout? τ count τ.align = none

theorem exists_take?_of_losesBlock {p : ArrayPtr τ} {count : UInt64} (h : p.LosesBlock count w) :
    ∃ b t, w.heap.take? p.span.base = some (b, t) ∧
      outcome (p.resize count) w =
        (.error (.violation (tooLarge τ count)), { w with heap := t }) := by
  obtain ⟨hn, ho, hl⟩ := h
  cases ht : w.heap.take? p.span.base with
  | none => exact absurd (isLive_of_ownsBlock ho) (by simp [HeapTable.take?_eq_none.mp ht])
  | some x => exact ⟨x.1, x.2, rfl, outcome_resize_of_no_layout hn ho ht hl⟩

/-- A resize that stops at a violation without losing the block has changed nothing at all. -/
theorem unchanged_of_not_losesBlock {p : ArrayPtr τ} {count : UInt64} {v : Violation} {w' : World}
    (h : ¬ p.LosesBlock count w)
    (ho : outcome (p.resize count) w = (.error (.violation v), w')) : w' = w := by
  cases hn : p.span.isNull with
  | true =>
    rw [outcome_resize_of_null count hn] at ho
    have hnew : Ensures (ArrayPtr.new τ count false) w (fun _ _ => True) (fun _ w' => w' = w) := by
      refine ensures_bind ((ensures_reserve τ count τ.align).mono ?_ fun _ _ hb => hb.1)
      intro r w' _
      exact ensures_bind (ensures_modify (ensures_pure trivial))
    exact hnew.of_error ho
  | false =>
    cases hown : p.ownsBlock w with
    | false =>
      rw [outcome_resize_of_not_owned count hn hown] at ho
      cases ho
      rfl
    | true =>
      cases hl : Reservation.layout? τ count τ.align with
      | none => exact absurd ⟨hn, hown, hl⟩ h
      | some l =>
        exact absurd rfl ((ensures_resize_of_layout hn hown hl).of_error ho v)

/-- **A refused resize changes the state exactly when the array is a live block of its own type and
no layout satisfies the request.**  Then the refusal is for the size, and the state left behind is
the one before with the block taken out of the table and its release counted. -/
theorem resize_not_atomic_iff (p : ArrayPtr τ) (count : UInt64) (w : World) :
    ((∃ v w', outcome (p.resize count) w = (.error (.violation v), w') ∧ w' ≠ w) ↔
      p.LosesBlock count w) ∧
    (p.LosesBlock count w ↔
      ∃ b t, w.heap.take? p.span.base = some (b, t) ∧
        outcome (p.resize count) w =
          (.error (.violation (tooLarge τ count)), { w with heap := t })) := by
  have hchanged : ∀ b t, w.heap.take? p.span.base = some (b, t) → { w with heap := t } ≠ w := by
    intro b t ht he
    exact HeapTable.ne_of_take? ht (congrArg World.heap he)
  refine ⟨⟨?_, ?_⟩, ⟨exists_take?_of_losesBlock, ?_⟩⟩
  · rintro ⟨v, w', ho, hne⟩
    exact Classical.byContradiction fun h => hne (unchanged_of_not_losesBlock h ho)
  · intro h
    obtain ⟨b, t, ht, ho⟩ := exists_take?_of_losesBlock h
    exact ⟨_, _, ho, hchanged b t ht⟩
  · rintro ⟨b, t, ht, ho⟩
    exact Classical.byContradiction fun h => hchanged b t ht (unchanged_of_not_losesBlock h ho)

/-- Three bytes, resized to half the address space: the refusal leaves a table in which the array
is freed by its counters and released by nobody, and a release through the handle is refused. -/
theorem resize_loses_three_bytes :
    ∃ (p : ArrayPtr .uint8) (w w' : World),
      outcome (ArrayPtr.new .uint8 3 false) .initial = (.ok p, w) ∧
      outcome (p.resize 9223372036854775808) w =
        (.error (.violation (.allocationFailure 9223372036854775808 1)), w') ∧
      w.heap.isLive p.span.base = true ∧ w'.heap.isLive p.span.base = false ∧
      w.heap.stats = ⟨1, 3, 1, 0⟩ ∧ w'.heap.stats = ⟨0, 0, 1, 1⟩ ∧
      outcome p.free w' = (.error (.violation (.invalidFree p.span.base)), w') := by
  refine ⟨⟨⟨70368744177664, 0, 3⟩⟩, (outcome (ArrayPtr.new .uint8 3 false) .initial).2,
    (outcome (ArrayPtr.resize (⟨⟨70368744177664, 0, 3⟩⟩ : ArrayPtr .uint8) 9223372036854775808)
      (outcome (ArrayPtr.new .uint8 3 false) .initial).2).2, ?_, ?_, ?_, ?_, ?_, ?_, ?_⟩
  · rfl
  · rfl
  · rfl
  · rfl
  · rfl
  · rfl
  · rfl

end ArrayPtr

end CheckedMemory
