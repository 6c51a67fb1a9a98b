import CheckedMemory.Heap.Release

/-!
# Outcomes of operations

An operation is run from a state and leaves a result and a state.  Two readings of that are given.
`outcome` is the pair itself, with one equation for each way in which operations are put together:
proofs about what a particular operation does rewrite with these.  `Ensures` says what holds of the
states that can be left, apart for success and for failure: invariants are carried through an
operation with its rules, one bind at a time, and never look at the monad.

A failed operation leaves a state too, and nothing here says that it is the one it started from.
-/

namespace CheckedMemory

namespace Operation

variable {α β : Type}

/-! ## 1. Outcomes -/

/-- What an operation gives from a state, and the state that it leaves. -/
def outcome (a : Operation α) (w : World) : Except Fault α × World := a.run.run w

@[simp] theorem outcome_pure (x : α) (w : World) :
    outcome (pure x) w = (.ok x, w) := rfl

@[simp] theorem outcome_throw (f : Fault) (w : World) :
    outcome (throw f : Operation α) w = (.error f, w) := rfl

@[simp] theorem outcome_stop (v : Violation) (w : World) :
    outcome (stop v : Operation α) w = (.error (.violation v), w) := rfl

@[simp] theorem outcome_get (w : World) : outcome get w = (.ok w, w) := rfl

@[simp] theorem outcome_set (w w' : World) : outcome (set w') w = (.ok ⟨⟩, w') := rfl

@[simp] theorem outcome_modify (f : World → World) (w : World) :
    outcome (modify f) w = (.ok ⟨⟩, f w) := rfl

/-- A bind runs its second part from where the first left off, unless that failed. -/
theorem outcome_bind (a : Operation α) (f : α → Operation β) (w : World) :
    outcome (a >>= f) w =
      match outcome a w with
      | (.ok x, w') => outcome (f x) w'
      | (.error e, w') => (.error e, w') := by
  simp only [outcome, ExceptT.run_bind, StateT.run_bind]
  rcases a.run.run w with ⟨e | x, w'⟩ <;> rfl

theorem outcome_bind_ok {a : Operation α} {w w' : World} {x : α} (f : α → Operation β)
    (h : outcome a w = (.ok x, w')) : outcome (a >>= f) w = outcome (f x) w' := by
  rw [outcome_bind, h]

theorem outcome_bind_error {a : Operation α} {w w' : World} {e : Fault} (f : α → Operation β)
    (h : outcome a w = (.error e, w')) : outcome (a >>= f) w = (.error e, w') := by
  rw [outcome_bind, h]

/-- A bind that succeeds did so in both parts. -/
theorem exists_of_outcome_bind {a : Operation α} {f : α → Operation β} {w w' : World} {y : β}
    (h : outcome (a >>= f) w = (.ok y, w')) :
    ∃ x w₁, outcome a w = (.ok x, w₁) ∧ outcome (f x) w₁ = (.ok y, w') := by
  rw [outcome_bind] at h
  rcases ha : outcome a w with ⟨e | x, w₁⟩
  · rw [ha] at h
    cases h
  · rw [ha] at h
    exact ⟨x, w₁, rfl, h⟩

/-! ## 2. What an operation ensures -/

/-- From `w`, success leaves a result and a state that are `good`, and failure a fault and a state
that are `bad`. -/
def Ensures (a : Operation α) (w : World) (good : α → World → Prop)
    (bad : Fault → World → Prop) : Prop :=
  match outcome a w with
  | (.ok x, w') => good x w'
  | (.error e, w') => bad e w'

section Rules

variable {w w' : World} {good : α → World → Prop} {good' : β → World → Prop}
  {bad : Fault → World → Prop} {a : Operation α}

theorem ensures_of_ok {x : α} (e : outcome a w = (.ok x, w')) (h : good x w') :
    Ensures a w good bad := by
  unfold Ensures
  rw [e]
  exact h

theorem ensures_of_error {f : Fault} (e : outcome a w = (.error f, w')) (h : bad f w') :
    Ensures a w good bad := by
  unfold Ensures
  rw [e]
  exact h

theorem Ensures.of_ok (h : Ensures a w good bad) {x : α} (e : outcome a w = (.ok x, w')) :
    good x w' := by
  unfold Ensures at h
  rwa [e] at h

theorem Ensures.of_error (h : Ensures a w good bad) {f : Fault}
    (e : outcome a w = (.error f, w')) : bad f w' := by
  unfold Ensures at h
  rwa [e] at h

theorem Ensures.mono {good₁ : α → World → Prop} {bad₁ : Fault → World → Prop}
    (h : Ensures a w good bad) (hg : ∀ x w', good x w' → good₁ x w')
    (hb : ∀ f w', bad f w' → bad₁ f w') : Ensures a w good₁ bad₁ := by
  unfold Ensures at h ⊢
  rcases ha : outcome a w with ⟨f | x, w'⟩
  · rw [ha] at h
    exact hb f w' h
  · rw [ha] at h
    exact hg x w' h

/-- What two statements ensure. -/
theorem Ensures.and {bad' : Fault → World → Prop} {good₁ : α → World → Prop}
    (h : Ensures a w good bad) (h' : Ensures a w good₁ bad') :
    Ensures a w (fun x w' => good x w' ∧ good₁ x w') fun f w' => bad f w' ∧ bad' f w' := by
  unfold Ensures at h h' ⊢
  rcases ha : outcome a w with ⟨f | x, w'⟩
  · rw [ha] at h h'
    exact ⟨h, h'⟩
  · rw [ha] at h h'
    exact ⟨h, h'⟩

theorem ensures_true (a : Operation α) (w : World) :
    Ensures a w (fun _ _ => True) (fun _ _ => True) := by
  unfold Ensures
  rcases outcome a w with ⟨f | x, w'⟩ <;> trivial

theorem ensures_pure {x : α} (h : good x w) : Ensures (pure x) w good bad := h

theorem ensures_throw {f : Fault} (h : bad f w) : Ensures (throw f) w good bad := h

theorem ensures_stop {v : Violation} (h : bad (.violation v) w) :
    Ensures (stop v) w good bad := h

/-- A bind ensures what its second part ensures of everything that its first part can leave. -/
theorem ensures_bind {f : α → Operation β}
    (h : Ensures a w (fun x w' => Ensures (f x) w' good' bad) bad) :
    Ensures (a >>= f) w good' bad := by
  unfold Ensures at h ⊢
  rw [outcome_bind]
  rcases ha : outcome a w with ⟨f | x, w'⟩
  · rw [ha] at h
    exact h
  · rw [ha] at h
    exact h

theorem ensures_map {f : α → β} (h : Ensures a w (fun x w' => good' (f x) w') bad) :
    Ensures (f <$> a) w good' bad := by
  rw [map_eq_pure_bind]
  exact ensures_bind h

theorem ensures_get {good : World → World → Prop} (h : good w w) : Ensures get w good bad := h

theorem ensures_set {good : PUnit → World → Prop} (h : good ⟨⟩ w') :
    Ensures (set w') w good bad := h

theorem ensures_modify {good : PUnit → World → Prop} {f : World → World} (h : good ⟨⟩ (f w)) :
    Ensures (modify f) w good bad := h

theorem ensures_check {r : Except Violation α} (ok : ∀ x, r = .ok x → good x w)
    (error : ∀ v, r = .error v → bad (.violation v) w) : Ensures (check r) w good bad := by
  cases r with
  | ok x => exact ok x rfl
  | error v => exact error v rfl

theorem ensures_require {good : Unit → World → Prop} {ok : Bool} {v : Violation}
    (yes : ok = true → good () w) (no : ok = false → bad (.violation v) w) :
    Ensures (require ok v) w good bad := by
  cases ok with
  | true => exact yes rfl
  | false => exact no rfl

/-! ## 3. Access to memory

A load leaves the state alone, and a store changes the memory alone. -/

theorem outcome_load {b : Address} {n : Nat} {cs : Runs Cell} (h : w.memory.read? b n = some cs) :
    outcome (load b n) w = (.ok cs, w) := by
  unfold load
  rw [outcome_bind, outcome_get]
  simp only [h, outcome_pure]

theorem outcome_store {b : Address} {cs : Runs Cell} {m : Memory}
    (h : w.memory.write? b cs = some m) :
    outcome (store b cs) w = (.ok ⟨⟩, { w with memory := m }) := by
  unfold store
  rw [outcome_bind, outcome_get]
  simp only [h, outcome_modify]

theorem exists_read?_of_outcome {b : Address} {n : Nat} {cs : Runs Cell}
    (h : outcome (load b n) w = (.ok cs, w')) : w' = w ∧ w.memory.read? b n = some cs := by
  unfold load at h
  rw [outcome_bind, outcome_get] at h
  cases hr : w.memory.read? b n with
  | some ds =>
    simp only [hr, outcome_pure] at h
    cases h
    exact ⟨rfl, rfl⟩
  | none =>
    simp only [hr, outcome_throw] at h
    cases h

theorem exists_write?_of_outcome {b : Address} {cs : Runs Cell} {u : Unit}
    (h : outcome (store b cs) w = (.ok u, w')) :
    ∃ m, w.memory.write? b cs = some m ∧ w' = { w with memory := m } := by
  unfold store at h
  rw [outcome_bind, outcome_get] at h
  cases hr : w.memory.write? b cs with
  | some m =>
    simp only [hr, outcome_modify] at h
    cases h
    exact ⟨m, rfl, rfl⟩
  | none =>
    simp only [hr, outcome_throw] at h
    cases h

theorem ensures_load {good : Runs Cell → World → Prop} {b : Address} {n : Nat}
    (read : ∀ cs, w.memory.read? b n = some cs → good cs w) (wild : bad (.wild b n) w) :
    Ensures (load b n) w good bad := by
  unfold load
  refine ensures_bind (ensures_get ?_)
  cases h : w.memory.read? b n with
  | some cs => exact ensures_pure (read cs h)
  | none => exact ensures_throw wild

theorem ensures_store {good : PUnit → World → Prop} {b : Address} {cs : Runs Cell}
    (written : ∀ m, w.memory.write? b cs = some m → good ⟨⟩ { w with memory := m })
    (wild : bad (.wild b cs.length) w) : Ensures (store b cs) w good bad := by
  unfold store
  refine ensures_bind (ensures_get ?_)
  cases h : w.memory.write? b cs with
  | some m => exact ensures_modify (written m h)
  | none => exact ensures_throw wild

end Rules

end Operation

/-! ## 4. Requests for storage -/

/-- The first address that the system allocator gives for a request. -/
def World.grantBase (w : World) (l : Layout) : Nat := Word.roundUp w.nextFree (max 16 l.align)

/-- One past the last address that the request uses up. -/
def World.grantEnd (w : World) (l : Layout) : Nat := w.grantBase l + l.nonempty.size + 16

namespace Operation

variable {w : World}

/-- The system allocator gives the next addresses or is out of memory; nothing else changes. -/
theorem ensures_requestMemory (l : Layout) :
    Ensures (requestMemory l) w
      (fun a w' => a = UInt64.ofNat (w.grantBase l) ∧ w.grantEnd l ≤ World.heapEnd ∧
        w' = { w with nextFree := w.grantEnd l })
      (fun f w' => f = .exhausted ∧ w' = w) := by
  unfold requestMemory
  refine ensures_bind (ensures_get ?_)
  dsimp only
  split
  · rename_i hfit
    exact ensures_bind (ensures_set (ensures_pure ⟨rfl, hfit, rfl⟩))
  · exact ensures_throw ⟨rfl, rfl⟩

/-- A reservation that fails leaves the state alone, and is a violation only if no layout satisfies
it. -/
theorem ensures_reserve (τ : ElemType) (count align : UInt64) :
    Ensures (reserve τ count align) w
      (fun r w' => ∃ l, Reservation.layout? τ count align = some l ∧
        r = ⟨UInt64.ofNat (w.grantBase l), l.nonempty,
          Reservation.payloadAt τ (UInt64.ofNat (w.grantBase l)) align⟩ ∧
        w.grantEnd l ≤ World.heapEnd ∧ w' = { w with nextFree := w.grantEnd l })
      (fun f w' => w' = w ∧
        ∀ v, f = .violation v → Reservation.layout? τ count align = none) := by
  unfold reserve
  cases hl : Reservation.layout? τ count align with
  | none => exact ensures_stop ⟨rfl, fun _ _ => rfl⟩
  | some l =>
    refine ensures_bind ((ensures_requestMemory l).mono ?_ ?_)
    · rintro _ w' ⟨rfl, hfit, rfl⟩
      exact ensures_pure ⟨l, rfl, rfl, hfit, rfl⟩
    · rintro f w' ⟨rfl, rfl⟩
      exact ⟨rfl, fun v hv => by cases hv⟩

/-- **A request that fits is granted.** -/
theorem outcome_requestMemory {l : Layout} (hfit : w.grantEnd l ≤ World.heapEnd) :
    outcome (requestMemory l) w =
      (.ok (UInt64.ofNat (w.grantBase l)), { w with nextFree := w.grantEnd l }) := by
  unfold requestMemory
  rw [outcome_bind_ok _ (outcome_get w)]
  change outcome (if w.grantEnd l ≤ World.heapEnd then _ else _) w = _
  rw [if_pos hfit]
  rfl

/-- One that does not fit is refused, and nothing changes. -/
theorem outcome_requestMemory_of_full {l : Layout} (hfull : ¬w.grantEnd l ≤ World.heapEnd) :
    outcome (requestMemory l) w = (.error .exhausted, w) := by
  unfold requestMemory
  rw [outcome_bind_ok _ (outcome_get w)]
  change outcome (if w.grantEnd l ≤ World.heapEnd then _ else _) w = _
  rw [if_neg hfull]
  rfl

/-- **A reservation that fits succeeds**, and uses up what it is given. -/
theorem outcome_reserve {τ : ElemType} {count align : UInt64} {l : Layout}
    (hl : Reservation.layout? τ count align = some l) (hfit : w.grantEnd l ≤ World.heapEnd) :
    outcome (reserve τ count align) w =
      (.ok ⟨UInt64.ofNat (w.grantBase l), l.nonempty,
        Reservation.payloadAt τ (UInt64.ofNat (w.grantBase l)) align⟩,
      { w with nextFree := w.grantEnd l }) := by
  unfold reserve
  rw [hl]
  change outcome (requestMemory l >>= _) w = _
  rw [outcome_bind_ok _ (outcome_requestMemory hfit)]
  rfl

theorem outcome_reserve_of_none {τ : ElemType} {count align : UInt64}
    (hl : Reservation.layout? τ count align = none) :
    outcome (reserve τ count align) w = (.error (.violation (tooLarge τ count)), w) := by
  unfold reserve
  rw [hl]
  rfl

theorem outcome_reserve_of_full {τ : ElemType} {count align : UInt64} {l : Layout}
    (hl : Reservation.layout? τ count align = some l) (hfull : ¬w.grantEnd l ≤ World.heapEnd) :
    outcome (reserve τ count align) w = (.error .exhausted, w) := by
  unfold reserve
  rw [hl]
  exact outcome_bind_error _ (outcome_requestMemory_of_full hfull)

end Operation

/-! ## 5. Results of checks -/

section Results

variable {α β ε : Type} {e : Except ε α} {y : β}

/-- A result of two checks is that of the second, after the first gave one. -/
theorem exists_ok_of_bind {f : α → Except ε β} (h : (e >>= f) = .ok y) :
    ∃ x, e = .ok x ∧ f x = .ok y := by
  cases e with
  | error v => cases h
  | ok x => exact ⟨x, rfl, h⟩

theorem exists_ok_of_map {f : α → β} (h : e.map f = .ok y) : ∃ x, e = .ok x ∧ f x = y := by
  cases e with
  | error v => cases h
  | ok x => exact ⟨x, rfl, Except.ok.inj h⟩

end Results

end CheckedMemory
