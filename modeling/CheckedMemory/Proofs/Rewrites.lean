import CheckedMemory.Proofs.Guarded
import CheckedMemory.Proofs.Ledger

/-!
# Operations that make no storage

An assignment, a step of a tokenizer and the like write over values that are there and enter what
was released in the drop log.  The heap table, the areas of memory and the frames are as they were
(`Operation.Rewrites`), and that is so whatever the handles are, stale ones included: it is read off
the operations and needs no invariant.  A release takes a block out of the table besides.  So none
of them adds to the storage there is (`Program.Uses.keepsStorage`).
-/

namespace CheckedMemory

open Operation

variable {w w' v : World} {σ τ : ElemType} {α β : Type}

/-! ## 1. Writing over values -/

/-- `w'` is `w` but for values and the log. -/
structure World.Rewrites (w w' : World) : Prop where
  heap : w'.heap = w.heap
  plots : w'.memory.plots = w.memory.plots
  frames : w'.frames = w.frames

namespace World.Rewrites

theorem refl (w : World) : w.Rewrites w := ⟨rfl, rfl, rfl⟩

theorem trans (h : w.Rewrites v) (h' : v.Rewrites w') : w.Rewrites w' :=
  ⟨h'.heap.trans h.heap, h'.plots.trans h.plots, h'.frames.trans h.frames⟩

end World.Rewrites

namespace Operation

/-- Whatever it gives, the state is as it was but for values and the log. -/
def Rewrites (a : Operation α) : Prop :=
  ∀ w, Ensures a w (fun _ w' => w.Rewrites w') fun _ w' => w.Rewrites w'

section Rules

variable {a : Operation α} {f : α → Operation β}

theorem Looks.rewrites (ha : Looks a) : Rewrites a := fun w =>
  (ha w).mono (fun _ _ h => h ▸ .refl w) fun _ _ h => h ▸ .refl w

theorem Rewrites.bind (ha : Rewrites a) (hf : ∀ x, Rewrites (f x)) : Rewrites (a >>= f) := by
  intro w
  refine ensures_bind ((ha w).mono ?_ fun _ _ h => h)
  intro x v hv
  exact (hf x v).mono (fun _ _ h => hv.trans h) fun _ _ h => hv.trans h

theorem Rewrites.map (ha : Rewrites a) (g : α → β) : Rewrites (g <$> a) := fun w =>
  ensures_map (ha w)

end Rules

theorem rewrites_pure (x : α) : Rewrites (pure x) := (looks_pure x).rewrites

theorem rewrites_check (r : Except Violation α) : Rewrites (check r) := (looks_check r).rewrites

theorem rewrites_store (a : Address) (cs : Runs Cell) : Rewrites (store a cs) := fun w =>
  ensures_store (fun _ hm => ⟨rfl, Memory.plots_write? hm, rfl⟩) (.refl w)

theorem rewrites_logDrops (marks : Runs Int64) : Rewrites (logDrops marks) := fun _ =>
  ensures_modify ⟨rfl, rfl, rfl⟩

theorem rewrites_assign (τ : ElemType) (a : Address) (x : τ.Carrier) : Rewrites (assign τ a x) :=
  (looks_loadValue τ a).rewrites.bind fun _ =>
    (rewrites_store a _).bind fun _ => rewrites_logDrops _

/-- What a check found is assigned to. -/
theorem rewrites_check_assign (r : Except Violation Address) (x : τ.Carrier) :
    Rewrites (check r >>= fun a => assign τ a x) :=
  (rewrites_check r).bind fun a => rewrites_assign τ a x

theorem rewrites_assignAll (τ : ElemType) (a : Address) (xs : Runs τ.Carrier) :
    Rewrites (assignAll τ a xs) :=
  (looks_load a _).rewrites.bind fun _ => (rewrites_store a _).bind fun _ => rewrites_logDrops _

theorem rewrites_tryWriteObject (a : Address) (x : τ.Carrier) : Rewrites (tryWriteObject a x) := by
  unfold tryWriteObject
  split
  · exact rewrites_pure false
  · exact (rewrites_assign τ a x).bind fun _ => rewrites_pure true

end Operation

theorem ArrayLike.rewrites_trySet {P : ElemType → Type} [ArrayLike P] (p : P τ) (i : Int64)
    (x : τ.Carrier) : Rewrites (trySet p i x) := by
  unfold trySet
  split
  · exact (rewrites_assign τ _ x).bind fun _ => rewrites_pure true
  · exact rewrites_pure false

theorem Matrix.rewrites_trySet (m : Matrix τ) (x y : UInt64) (v : τ.Carrier) :
    Rewrites (m.trySet x y v) := by
  unfold trySet
  split
  · exact (rewrites_assign τ _ v).bind fun _ => rewrites_pure true
  · exact rewrites_pure false

theorem Tokenizer.rewrites_next {P Q : ElemType → Type} [ArrayLike P] [ArrayLike Q]
    (t : Tokenizer P) (delims : Q .uint8) : Rewrites (t.next delims) := fun w =>
  (ensures_reaches (.refl w) delims fun _ _ _ => rewrites_store _ _ w).mono (fun _ _ h => h.1)
    fun _ _ h => h

namespace Program

variable {s : Program}

/-- **An assignment writes over values**, whatever it goes through. -/
theorem Assigns.rewrites {a : Operation Unit} (ha : Assigns s a) : Rewrites a := by
  cases ha with
  | element hp i x => exact rewrites_check_assign _ x
  | tryElement hp i x => exact (ArrayLike.rewrites_trySet _ i x).map _
  | elements hp xs =>
    exact ((rewrites_check _).bind fun _ =>
      (rewrites_assignAll _ _ _).bind fun _ => rewrites_pure _).map _
  | object hp x => exact rewrites_check_assign _ x
  | tryObject hp x => exact (rewrites_tryWriteObject _ x).map _
  | stackObject hp x => exact rewrites_check_assign _ x
  | tryStackObject hp x => exact (rewrites_tryWriteObject _ x).map _
  | cell hm x y v => exact rewrites_check_assign _ v
  | tryCell hm x y v => exact (Matrix.rewrites_trySet _ x y v).map _
  | head hp x => exact rewrites_check_assign _ x
  | fixedElement hx i v => exact rewrites_check_assign _ v
  | fixedElements hx xs =>
    exact ((rewrites_assignAll _ _ _).bind fun _ => rewrites_pure _).map _

end Program

/-! ## 2. Storage that there is -/

/-- `w'` has no storage that `w` has not: no block more, and the areas and frames of before. -/
structure World.KeepsStorage (w w' : World) : Prop where
  lodged : w'.Lodged
  live : ∀ b ∈ w'.heap.blocks, b ∈ w.heap.blocks
  plots : w'.memory.plots = w.memory.plots
  frames : w'.frames = w.frames

namespace World

theorem Lodged.keepsStorage (h : w.Lodged) : w.KeepsStorage w := ⟨h, fun _ hb => hb, rfl, rfl⟩

theorem Rewrites.keepsStorage (hr : w.Rewrites w') (h : w.Lodged) : w.KeepsStorage w' where
  lodged := by
    refine ⟨h.settled.congr hr.heap fun a n hm => ?_, hr.heap ▸ h.kept⟩
    by_cases hn : n = 0
    · simp [Memory.isMapped, hn]
    · rwa [Memory.isMapped_iff hn, hr.plots, ← Memory.isMapped_iff hn]
  live b hb := hr.heap ▸ hb
  plots := hr.plots
  frames := hr.frames

theorem Logs.keepsStorage (hl : w.Logs w') (h : w.Lodged) : w.KeepsStorage w' := by
  refine Rewrites.keepsStorage ?_ h
  obtain ⟨log, -, rfl⟩ := hl
  exact ⟨rfl, rfl, rfl⟩

theorem Forgets.keepsStorage {p : Address} (hf : w.Forgets p w') (h : w.Lodged) :
    w.KeepsStorage w' := by
  obtain ⟨⟨b, t, ht, rfl⟩, hlodged⟩ := hf
  exact ⟨hlodged, fun c hc => ((h.settled.balanced.mem_take ht).mp hc).1, rfl, rfl⟩

end World

namespace Program

variable {s : Program}

theorem Frees.keepsStorage (h : w.Lodged) {base : Address} {a : Operation Handle}
    (ha : Frees base a) : w.KeepsStorage (outcome a w).2 := by
  have hlodged := ha.lodged h
  rcases ha.world_cases h.settled with ho | ⟨b, t, m, log, ht, hm, ho⟩
  · rw [ho]
    exact h.keepsStorage
  · rw [ho] at hlodged ⊢
    exact ⟨hlodged, fun c hc => ((h.settled.balanced.mem_take ht).mp hc).1,
      Memory.plots_write? hm, rfl⟩

/-- **No use of storage adds to it**, through whatever handle. -/
theorem Uses.keepsStorage (h : w.Lodged) {a : Operation (List Handle)} (ha : Uses s a) :
    Ensures a w (fun _ w' => w.KeepsStorage w') fun _ w' => w.KeepsStorage w' := by
  have hrewrites : ∀ {α : Type} {b : Operation α} {f : α → List Handle}, Rewrites b →
      Ensures (f <$> b) w (fun _ w' => w.KeepsStorage w') fun _ w' => w.KeepsStorage w' :=
    fun hb => (hb.map _ w).mono (fun _ _ hr => hr.keepsStorage h) fun _ _ hr => hr.keepsStorage h
  cases ha with
  | @free base a ha =>
    have hfree := ha.keepsStorage h
    refine ensures_map ?_
    unfold Ensures
    rcases ho : outcome a w with ⟨f | n, w'⟩
    · rwa [ho] at hfree
    · rwa [ho] at hfree
  | assign ha => exact hrewrites ha.rewrites
  | find hp c =>
    exact hrewrites fun w =>
      (CString.ensures_find? _ c).mono (fun _ _ hw => hw.1 ▸ .refl w) fun _ _ hw => hw ▸ .refl w
  | tokenize hp =>
    exact hrewrites fun w =>
      (Tokenizer.ensures_start _).mono (fun _ _ hw => hw.1 ▸ .refl w) fun _ _ hw => hw ▸ .refl w
  | nextToken ht hd => exact hrewrites (Tokenizer.rewrites_next _ _)

end Program

end CheckedMemory
