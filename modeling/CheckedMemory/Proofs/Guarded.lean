import CheckedMemory.Proofs.Offers
import CheckedMemory.Proofs.Outcome

/-!
# Checks before changes

Every operation but a resize makes all its checks before it changes anything, so that a refusal
finds the state as it was.  Nothing in an operation says so; it is the order of its parts.  Three
notions are enough to read that order off: an operation may only look, it may never refuse, and it
may be guarded, which is what becomes of one that only looks, followed by a guarded one, followed by
one that never refuses.

Main statements: `Offers.guarded`, and `Consumes.drops` for operations that are handed a value for
good.  A resize is neither: a refused one may have taken the old block out of the table.
-/

namespace CheckedMemory

/-! ## 1. Refusals -/

/-- A check said no, a precondition of a constructor was broken, or arithmetic left the word.  The
other faults are no answer of the library: there is no room, or an access met no storage. -/
def Fault.IsRefusal : Fault → Prop
  | violation _ | overflow _ | emptyMatrix .. | emptyTail => True
  | exhausted | wild .. => False

/-- The state once the release of some values was logged. -/
def World.dropping (w : World) (marks : List Int64) : World :=
  { w with dropLog := w.dropLog ++ .ofList marks }

namespace Operation

variable {α β : Type}

/-- Whatever it gives, the state is as it was. -/
def Looks (a : Operation α) : Prop :=
  ∀ w, Ensures a w (fun _ w' => w' = w) fun _ w' => w' = w

/-- No check of it says no. -/
def NeverRefuses (a : Operation α) : Prop :=
  ∀ w, Ensures a w (fun _ _ => True) fun f _ => ¬ f.IsRefusal

/-- Where it refuses, the state is as it was. -/
def Guarded (a : Operation α) : Prop :=
  ∀ w, Ensures a w (fun _ _ => True) fun f w' => f.IsRefusal → w' = w

section Rules

variable {a : Operation α} {f : α → Operation β}

theorem Looks.guarded (ha : Looks a) : Guarded a := fun w =>
  (ha w).mono (fun _ _ _ => trivial) fun _ _ h _ => h

theorem NeverRefuses.guarded (ha : NeverRefuses a) : Guarded a := fun w =>
  (ha w).mono (fun _ _ _ => trivial) fun _ _ h hr => absurd hr h

theorem Looks.bind (ha : Looks a) (hf : ∀ x, Looks (f x)) : Looks (a >>= f) := fun w => by
  refine ensures_bind ((ha w).mono ?_ fun _ _ h => h)
  rintro x w' rfl
  exact hf x w'

theorem NeverRefuses.bind (ha : NeverRefuses a) (hf : ∀ x, NeverRefuses (f x)) :
    NeverRefuses (a >>= f) := fun w =>
  ensures_bind ((ha w).mono (fun x w' _ => hf x w') fun _ _ h => h)

/-- A look may come before any guarded operation. -/
theorem Looks.bind_guarded (ha : Looks a) (hf : ∀ x, Guarded (f x)) : Guarded (a >>= f) := by
  intro w
  refine ensures_bind ((ha w).mono ?_ fun _ _ h _ => h)
  rintro x w' rfl
  exact hf x w'

/-- What comes after a guarded operation must refuse nothing. -/
theorem Guarded.bind (ha : Guarded a) (hf : ∀ x, NeverRefuses (f x)) : Guarded (a >>= f) := fun w =>
  ensures_bind ((ha w).mono
    (fun x w' _ => (hf x w').mono (fun _ _ h => h) fun _ _ h hr => absurd hr h) fun _ _ h => h)

theorem Looks.map (ha : Looks a) (g : α → β) : Looks (g <$> a) := fun w => ensures_map (ha w)

end Rules

/-! ### The parts of operations -/

theorem looks_pure (x : α) : Looks (pure x) := fun _ => ensures_pure rfl

theorem looks_stop (v : Violation) : Looks (stop v : Operation α) := fun _ => ensures_stop rfl

theorem looks_throw (f : Fault) : Looks (throw f : Operation α) := fun _ => ensures_throw rfl

theorem looks_get : Looks get := fun _ => ensures_get rfl

theorem looks_check (r : Except Violation α) : Looks (check r) := fun _ =>
  ensures_check (fun _ _ => rfl) fun _ _ => rfl

theorem looks_ofChecked (r : Checked α) : Looks (ofChecked r) := by
  cases r with
  | ok x => exact looks_pure x
  | error f => exact looks_throw f

theorem looks_require (ok : Bool) (v : Violation) : Looks (require ok v) := fun _ =>
  ensures_require (fun _ => rfl) fun _ => rfl

theorem looks_load (b : Address) (n : Nat) : Looks (load b n) := fun _ =>
  ensures_load (fun _ _ => rfl) rfl

theorem looks_loadValue (τ : ElemType) (b : Address) : Looks (loadValue τ b) :=
  (looks_load b _).bind fun _ => looks_pure _

theorem looks_loadValues (τ : ElemType) (b : Address) (n : Nat) : Looks (loadValues τ b n) :=
  (looks_load b _).bind fun _ => looks_pure _

theorem looks_loadBytes (b : Address) (n : Nat) : Looks (loadBytes b n) :=
  (looks_load b n).bind fun _ => looks_pure _

theorem neverRefuses_pure (x : α) : NeverRefuses (pure x) := fun _ => ensures_pure trivial

theorem neverRefuses_get : NeverRefuses get := fun _ => ensures_get trivial

theorem neverRefuses_set (w : World) : NeverRefuses (set w) := fun _ => ensures_set trivial

theorem neverRefuses_modify (g : World → World) : NeverRefuses (modify g) := fun _ =>
  ensures_modify trivial

/-- An access that meets no storage is no refusal. -/
theorem neverRefuses_load (b : Address) (n : Nat) : NeverRefuses (load b n) := fun _ =>
  ensures_load (fun _ _ => trivial) id

theorem neverRefuses_store (b : Address) (cs : Runs Cell) : NeverRefuses (store b cs) := fun _ =>
  ensures_store (fun _ _ => trivial) id

theorem neverRefuses_loadValue (τ : ElemType) (b : Address) : NeverRefuses (loadValue τ b) :=
  (neverRefuses_load b _).bind fun _ => neverRefuses_pure _

theorem neverRefuses_assign (τ : ElemType) (b : Address) (x : τ.Carrier) :
    NeverRefuses (assign τ b x) :=
  (neverRefuses_loadValue τ b).bind fun _ =>
    (neverRefuses_store b _).bind fun _ => neverRefuses_modify _

theorem neverRefuses_replaceElements (τ : ElemType) (b : Address) (n : Nat) (cs : Runs Cell)
    (upward : Bool) : NeverRefuses (replaceElements τ b n cs upward) :=
  (neverRefuses_load b _).bind fun _ =>
    (neverRefuses_store b cs).bind fun _ => neverRefuses_modify _

/-- There may be no room, which is no refusal. -/
theorem neverRefuses_requestMemory (l : Layout) : NeverRefuses (requestMemory l) := fun _ =>
  (ensures_requestMemory l).mono (fun _ _ _ => trivial) fun f _ h hr => by
    rw [h.1] at hr
    exact hr

theorem neverRefuses_record (r : Reservation) (stored : Stored) (count : UInt64) (traced : Bool)
    (cells : Runs Cell) : NeverRefuses (record r stored count traced cells) :=
  neverRefuses_modify _

end Operation

open Operation

variable {h t σ τ : ElemType} {α : Type}

/-! ## 2. Making storage -/

theorem Operation.guarded_reserve (τ : ElemType) (count align : UInt64) :
    Guarded (reserve τ count align) := fun _ =>
  (ensures_reserve τ count align).mono (fun _ _ _ => trivial) fun _ _ hf _ => hf.1

/-- An array of elements, whatever they are. -/
theorem Operation.guarded_elements (τ : ElemType) (count align : UInt64) (traced : Bool)
    (cells : Runs Cell) :
    Guarded (do
      let r ← reserve τ count align
      record r (.elements τ) count traced cells
      return (ArrayPtr.ofBase r.payload count : ArrayPtr τ)) :=
  (guarded_reserve τ count align).bind fun r =>
    (neverRefuses_record r _ count traced cells).bind fun _ => neverRefuses_pure _

theorem ArrayPtr.guarded_new (τ : ElemType) (count : UInt64) (traced : Bool) :
    Guarded (ArrayPtr.new τ count traced) :=
  guarded_elements τ count τ.align traced _

theorem ArrayPtr.guarded_ofList (τ : ElemType) (xs : List τ.Carrier) :
    Guarded (ArrayPtr.ofList τ xs) :=
  guarded_elements τ _ τ.align false _

theorem Matrix.guarded_new (τ : ElemType) (x y : UInt64) : Guarded (Matrix.new τ x y) := by
  by_cases hzero : x = 0 ∨ y = 0
  · simp only [Matrix.new, if_pos hzero]
    exact fun _ => ensures_bind (ensures_throw fun _ => rfl)
  · simp only [Matrix.new, if_neg hzero]
    cases Word.mul? x y with
    | none => exact (looks_stop _).guarded
    | some count => exact (ArrayPtr.guarded_new τ count false).bind fun _ => neverRefuses_pure _

theorem Ptr.neverRefuses_newCells (τ : ElemType) (traced : Bool) (cells : Runs Cell) :
    NeverRefuses (Ptr.newCells τ traced cells) :=
  (neverRefuses_requestMemory _).bind fun _ =>
    (neverRefuses_record _ _ _ _ _).bind fun _ => neverRefuses_pure _

theorem Operation.neverRefuses_placeStatic (l : Layout) (cells : Runs Cell) :
    NeverRefuses (placeStatic l cells) :=
  (neverRefuses_requestMemory l).bind fun _ =>
    (neverRefuses_modify _).bind fun _ => neverRefuses_pure _

theorem Operation.neverRefuses_placeLocal (cells : Runs Cell) :
    NeverRefuses (placeLocal cells) := by
  refine neverRefuses_get.bind fun w => ?_
  cases w.frames.reserve? cells.length with
  | none => exact fun _ => ensures_throw id
  | some x => exact (neverRefuses_modify _).bind fun _ => neverRefuses_pure _

theorem ArrayPtr.neverRefuses_newStatic (τ : ElemType) (xs : List τ.Carrier) :
    NeverRefuses (ArrayPtr.newStatic τ xs) :=
  (neverRefuses_placeStatic _ _).bind fun _ => neverRefuses_pure _

/-- A request that some layout satisfies is never refused. -/
theorem Operation.neverRefuses_reserve {count align : UInt64} {l : Layout}
    (hl : Reservation.layout? τ count align = some l) : NeverRefuses (reserve τ count align) := by
  unfold reserve
  rw [hl]
  exact (neverRefuses_requestMemory l).bind fun _ => neverRefuses_pure _

theorem ArrayPtr.neverRefuses_ofList {xs : List τ.Carrier}
    (hfit : xs.length * τ.layout.size + τ.layout.align ≤ Layout.maxSize + 1) :
    NeverRefuses (ArrayPtr.ofList τ xs) := by
  have hcount : (UInt64.ofNat xs.length).toNat * τ.layout.size ≤ xs.length * τ.layout.size := by
    refine Nat.mul_le_mul_right _ ?_
    rw [UInt64.toNat_ofNat']
    exact Nat.mod_le _ _
  have hround := Word.roundUp_lt ((UInt64.ofNat xs.length).toNat * τ.layout.size) τ.align_pos
  have hl : Reservation.layout? τ (UInt64.ofNat xs.length) τ.align =
      some ⟨(UInt64.ofNat xs.length).toNat * τ.layout.size, τ.layout.align⟩ := by
    unfold Reservation.layout? Layout.array? Layout.make? Reservation.padding
    rw [if_neg (UInt64.lt_irrefl _), Nat.add_zero, if_pos (by omega)]
  exact (neverRefuses_reserve hl).bind fun r =>
    (neverRefuses_record r _ _ _ _).bind fun _ => neverRefuses_pure _

namespace CString

theorem neverRefuses_literals {texts : List String}
    (hfit : ∀ t ∈ texts, t.toUTF8.toList.length < Layout.maxSize) :
    NeverRefuses (literals texts) := by
  induction texts with
  | nil => exact neverRefuses_pure _
  | cons t ts ih =>
    have hone : NeverRefuses (literal t) := by
      refine ArrayPtr.neverRefuses_ofList ?_
      have := hfit t List.mem_cons_self
      rw [List.length_append, show ElemType.layout .uint8 = ⟨1, 1⟩ from rfl]
      simp only [List.length_cons, List.length_nil]
      omega
    exact hone.bind fun _ =>
      (ih fun u hu => hfit u (List.mem_cons_of_mem _ hu)).bind fun _ => neverRefuses_pure _

theorem length_literals {texts : List String} {w w' : World} {ss : List (ArrayPtr .uint8)}
    (h : outcome (literals texts) w = (.ok ss, w')) : ss.length = texts.length := by
  induction texts generalizing w w' ss with
  | nil =>
    cases h
    rfl
  | cons t ts ih =>
    obtain ⟨s, w₁, -, h⟩ := exists_of_outcome_bind h
    obtain ⟨rest, w₂, hrest, h⟩ := exists_of_outcome_bind h
    cases h
    rw [List.length_cons, List.length_cons, ih hrest]

/-- All strings of a vector are made before the vector is, so none may be refused. -/
theorem neverRefuses_vector {texts : List String} (hfit : Fit texts) :
    NeverRefuses (vector texts) := by
  intro w
  unfold vector
  refine ensures_bind ?_
  have hliterals := neverRefuses_literals hfit.1 w
  unfold Ensures at hliterals ⊢
  rcases ho : outcome (literals texts) w with ⟨f | ss, w'⟩
  · rw [ho] at hliterals
    exact hliterals
  · refine ArrayPtr.neverRefuses_ofList ?_ w'
    have hsize := hfit.2
    rw [length_literals ho, show ElemType.layout (.arrayPointer .uint8) = ⟨24, 8⟩ from rfl]
    rw [show ElemType.layout (.arrayPointer .uint8) = ⟨24, 8⟩ from rfl] at hsize
    simp only [Layout.maxSize] at hsize ⊢
    omega

end CString

theorem Allocates.guarded {a : Operation α} (ha : Allocates a) : Guarded a := by
  cases ha with
  | array τ count traced => exact ArrayPtr.guarded_new τ count traced
  | list τ xs => exact ArrayPtr.guarded_ofList τ xs
  | zeroed τ count => exact guarded_elements τ count τ.align false _
  | aligned τ count align =>
    exact (looks_require _ _).bind_guarded fun _ => guarded_elements τ count align false _
  | object τ x traced => exact (Ptr.neverRefuses_newCells τ traced _).guarded
  | zeroedObject τ => exact (Ptr.neverRefuses_newCells τ false _).guarded
  | matrix τ x y => exact Matrix.guarded_new τ x y
  | staticArray τ xs => exact (ArrayPtr.neverRefuses_newStatic τ xs).guarded
  | staticObject τ x =>
    exact ((neverRefuses_placeStatic _ _).bind fun _ => neverRefuses_pure _).guarded
  | global τ xs =>
    exact ((ArrayPtr.neverRefuses_newStatic τ xs).bind fun _ => neverRefuses_pure _).guarded
  | localArray τ xs =>
    exact ((neverRefuses_placeLocal _).bind fun _ =>
      (neverRefuses_get.bind fun _ => neverRefuses_pure _).bind fun _ =>
        neverRefuses_pure _).guarded
  | localFixed τ xs =>
    exact ((neverRefuses_placeLocal _).bind fun _ => neverRefuses_pure _).guarded
  | heapFixed τ xs =>
    exact ((neverRefuses_requestMemory _).bind fun _ =>
      (neverRefuses_record _ _ _ _ _).bind fun _ => neverRefuses_pure _).guarded
  | bytes bytes => exact ArrayPtr.guarded_ofList .uint8 _
  | literal text => exact ArrayPtr.guarded_ofList .uint8 _
  | vector texts hfit => exact (CString.neverRefuses_vector hfit).guarded

/-- **A refusal to take over a value releases the value**, and that is all it does. -/
theorem Consumes.drops {a : Operation α} {marks : List Int64} (ha : Consumes a marks) (w : World) :
    Ensures a w (fun _ _ => True) fun f w' => f.IsRefusal → w' = w.dropping marks := by
  cases ha with
  | filled τ count x =>
    exact ensures_bind (ensures_modify (guarded_elements τ count τ.align false _ _))
  | record σ τ count x =>
    by_cases hzero : count = 0
    · simp only [TailedPtr.new, if_pos hzero]
      exact ensures_bind (ensures_modify (ensures_bind (ensures_throw fun _ => rfl)))
    · simp only [TailedPtr.new, if_neg hzero]
      cases Layout.Tailed.layout? σ.layout τ.layout count.toNat with
      | none => exact ensures_bind (ensures_modify (ensures_stop fun _ => rfl))
      | some l =>
        refine Ensures.mono (NeverRefuses.bind (neverRefuses_requestMemory l) (fun base => ?_) w)
          (fun _ _ h => h) fun _ _ h hr => absurd hr h
        exact (neverRefuses_record _ _ _ _ _).bind fun _ => neverRefuses_pure _

/-! ## 3. Access -/

/-- A checked assignment: what follows the check refuses nothing. -/
theorem Operation.guarded_check_assign (r : Except Violation Address) (x : τ.Carrier) :
    Guarded (check r >>= fun a => assign τ a x) :=
  (looks_check r).bind_guarded fun a => (neverRefuses_assign τ a x).guarded

section Arrays

variable {P : ElemType → Type} [ArrayLike P]

namespace ArrayLike

theorem looks_index (p : P τ) (i : Int64) : Looks (index p i) :=
  (looks_check _).bind fun _ => looks_loadValue τ _

theorem looks_elements (p : P τ) : Looks (elements p) :=
  (looks_check _).bind fun _ => looks_loadValues τ _ _

theorem neverRefuses_trySet (p : P τ) (i : Int64) (x : τ.Carrier) :
    NeverRefuses (trySet p i x) := by
  unfold trySet
  cases locate p i with
  | ok a => exact (neverRefuses_assign τ a x).bind fun _ => neverRefuses_pure _
  | error v => exact neverRefuses_pure _

theorem looks_get? (p : P τ) (i : Int64) : Looks (get? p i) := by
  unfold get?
  cases locate p i with
  | ok a => exact (looks_loadValue τ a).map _
  | error v => exact looks_pure _

theorem guarded_overwrite (p : P τ) (xs : List τ.Carrier) : Guarded (overwrite p xs) :=
  (looks_check _).bind_guarded fun _ =>
    ((neverRefuses_replaceElements τ _ _ _ true).bind fun _ => neverRefuses_pure _).guarded

end ArrayLike

end Arrays

namespace Operation

theorem looks_readObject (τ : ElemType) (a : Address) : Looks (readObject τ a) :=
  (looks_check _).bind fun _ => looks_loadValue τ _

theorem looks_readObject? (τ : ElemType) (a : Address) : Looks (readObject? τ a) := by
  unfold readObject?
  split
  · exact looks_pure _
  · exact (looks_loadValue τ a).map _

theorem neverRefuses_tryWriteObject (a : Address) (x : τ.Carrier) :
    NeverRefuses (tryWriteObject a x) := by
  unfold tryWriteObject
  split
  · exact neverRefuses_pure _
  · exact (neverRefuses_assign τ a x).bind fun _ => neverRefuses_pure _

end Operation

namespace Matrix

theorem looks_get? (m : Matrix τ) (x y : UInt64) : Looks (m.get? x y) := by
  unfold get?
  cases m.locate x y with
  | ok a => exact (looks_loadValue τ a).map _
  | error v => exact looks_pure _

theorem neverRefuses_trySet (m : Matrix τ) (x y : UInt64) (v : τ.Carrier) :
    NeverRefuses (m.trySet x y v) := by
  unfold trySet
  cases m.locate x y with
  | ok a => exact (neverRefuses_assign τ a v).bind fun _ => neverRefuses_pure _
  | error e => exact neverRefuses_pure _

end Matrix

theorem TailedPtr.looks_tailLength (p : TailedPtr h t) : Looks p.tailLength :=
  (looks_check _).bind fun _ => looks_loadValue .uint64 _

theorem FixedArray.looks_toList (x : FixedArray τ) : Looks x.toList :=
  (looks_loadValues τ _ _).bind fun _ => looks_pure _

theorem Thread.looks_run (r : Routine) (argument : Option (ArrayPtr .uint64)) :
    Looks (run r argument) := by
  cases argument with
  | none => exact looks_stop _
  | some p =>
    cases r with
    | sum => exact (ArrayLike.looks_elements p).bind fun _ => looks_pure _
    | pastEnd => exact (looks_ofChecked _).bind fun _ => ArrayLike.looks_index _ 0

theorem Bulk.guarded_zero {P : ElemType → Type} [ArrayLike P] (dst : P τ) (count : UInt64) :
    Guarded (Bulk.zero dst count) :=
  (looks_check _).bind_guarded fun _ => (neverRefuses_store _ _).guarded

theorem Accesses.guarded {a : Operation α} (ha : Accesses a) : Guarded a := by
  cases ha with
  | index p i => exact (ArrayLike.looks_index p i).guarded
  | get? p i => exact (ArrayLike.looks_get? p i).guarded
  | set p i x => exact guarded_check_assign _ x
  | trySet p i x => exact (ArrayLike.neverRefuses_trySet p i x).guarded
  | toList p => exact ((ArrayLike.looks_elements p).bind fun _ => looks_pure _).guarded
  | overwrite p xs => exact ArrayLike.guarded_overwrite p xs
  | read p => exact (looks_readObject _ _).guarded
  | read? p => exact (looks_readObject? _ _).guarded
  | write p x => exact guarded_check_assign _ x
  | tryWrite p x => exact (neverRefuses_tryWriteObject _ x).guarded
  | readStack p => exact (looks_readObject _ _).guarded
  | readStack? p => exact (looks_readObject? _ _).guarded
  | writeStack p x => exact guarded_check_assign _ x
  | tryWriteStack p x => exact (neverRefuses_tryWriteObject _ x).guarded
  | cell m x y => exact ((looks_check _).bind fun _ => looks_loadValue _ _).guarded
  | cell? m x y => exact (m.looks_get? x y).guarded
  | setCell m x y v => exact guarded_check_assign _ v
  | trySetCell m x y v => exact (m.neverRefuses_trySet x y v).guarded
  | head p => exact ((looks_check _).bind fun _ => looks_loadValue _ _).guarded
  | setHead p x => exact guarded_check_assign _ x
  | tailLength p => exact p.looks_tailLength.guarded
  | tail p => exact (p.looks_tailLength.bind fun _ => looks_pure _).guarded
  | fixedIndex x i => exact ((looks_check _).bind fun _ => looks_loadValue _ _).guarded
  | fixedSet x i v => exact guarded_check_assign _ v
  | fixedToList x => exact x.looks_toList.guarded
  | fixedOverwrite x xs =>
    exact ((neverRefuses_replaceElements _ _ _ _ true).bind fun _ => neverRefuses_pure _).guarded
  | fixedZero x => exact (neverRefuses_store _ _).guarded
  | fixedSame x y =>
    exact (x.looks_toList.bind fun _ => y.looks_toList.bind fun _ => looks_pure _).guarded
  | fixedDescribe x => exact (x.looks_toList.bind fun _ => looks_pure _).guarded
  | globalIndex x i => exact ((looks_check _).bind fun _ => looks_loadValue _ _).guarded
  | globalZero x => exact Bulk.guarded_zero _ _
  | thread r argument => exact (Thread.looks_run r argument).guarded

/-! ## 4. Other pointers -/

/-- The one check of a release is the look-up, and it is made before the block is taken out. -/
theorem Operation.guarded_releaseUnlessNull (p : Address) : Guarded (releaseUnlessNull p) := by
  unfold releaseUnlessNull
  split
  · exact (looks_pure _).guarded
  · unfold release
    refine Guarded.bind ?_ fun b => (neverRefuses_load _ _).bind fun cs =>
      (neverRefuses_store _ _).bind fun _ => neverRefuses_modify _
    unfold takeBlock
    refine looks_get.bind_guarded fun w => ?_
    cases w.heap.take? p with
    | none => exact (looks_stop _).guarded
    | some x => exact ((neverRefuses_set _).bind fun _ => neverRefuses_pure _).guarded

theorem Releases.guarded {a : Operation α} (ha : Releases a) : Guarded a := by
  cases ha with
  | object p => exact (guarded_releaseUnlessNull _).bind fun _ => neverRefuses_pure _
  | array p => exact (guarded_releaseUnlessNull _).bind fun _ => neverRefuses_pure _
  | matrix m => exact (guarded_releaseUnlessNull _).bind fun _ => neverRefuses_pure _
  | record p => exact (guarded_releaseUnlessNull _).bind fun _ => neverRefuses_pure _

/-! ## 5. Many elements, bytes and strings -/

section Arrays

variable {P Q : ElemType → Type} [ArrayLike P] [ArrayLike Q]

namespace Bulk

theorem neverRefuses_cloneElements (τ : ElemType) (target source : Address) (n : Nat)
    (upward : Bool) : NeverRefuses (cloneElements τ target source n upward) :=
  (neverRefuses_load _ _).bind fun _ => neverRefuses_replaceElements τ _ _ _ _

theorem neverRefuses_moveCells (target source : Address) (n : Nat) :
    NeverRefuses (moveCells target source n) :=
  (neverRefuses_load _ _).bind fun _ => neverRefuses_store _ _

theorem guarded_fill (dst : P τ) (x : τ.Carrier) (count : UInt64) : Guarded (fill dst x count) := by
  refine (looks_check _).bind_guarded fun a => ?_
  split
  · exact (neverRefuses_modify _).guarded
  · exact (neverRefuses_replaceElements τ _ _ _ true).guarded

/-- Two operands are checked, and no more is refused once they are. -/
theorem guarded_checkBoth {r s : Except Violation Address} {f : Address → Address → Operation α}
    (hf : ∀ a b, Guarded (f a b)) :
    Guarded (do
      let a ← check r
      let b ← check s
      f a b) :=
  (looks_check r).bind_guarded fun a => (looks_check s).bind_guarded fun b => hf a b

theorem guarded_copy (dst : P τ) (src : Q τ) (count : UInt64) : Guarded (copy dst src count) := by
  refine guarded_checkBoth fun target source => ?_
  cases Word.mul? count τ.size with
  | none => exact (looks_throw _).guarded
  | some bytes =>
    exact (looks_require _ _).bind_guarded fun _ =>
      (neverRefuses_cloneElements τ target source _ true).guarded

end Bulk

theorem Transfers.guarded {a : Operation α} (ha : Transfers a) : Guarded a := by
  cases ha with
  | zero dst count => exact Bulk.guarded_zero dst count
  | fill dst x count => exact Bulk.guarded_fill dst x count
  | copy dst src count => exact Bulk.guarded_copy dst src count
  | cloneInto dst src count =>
    exact Bulk.guarded_checkBoth fun a b => (Bulk.neverRefuses_cloneElements _ a b _ _).guarded
  | copyTrivial dst src count =>
    exact Bulk.guarded_checkBoth fun a b => (Bulk.neverRefuses_moveCells a b _).guarded
  | memset dst b bytes =>
    exact (looks_check _).bind_guarded fun _ => (neverRefuses_store _ _).guarded
  | memcpy dst src bytes =>
    exact Bulk.guarded_checkBoth fun a b =>
      (looks_require _ _).bind_guarded fun _ => (Bulk.neverRefuses_moveCells a b _).guarded
  | memmove dst src bytes =>
    exact Bulk.guarded_checkBoth fun a b => (Bulk.neverRefuses_moveCells a b _).guarded
  | memcmp p q bytes =>
    exact Bulk.guarded_checkBoth fun a b =>
      ((looks_loadBytes a _).bind fun _ => (looks_loadBytes b _).bind fun _ =>
        looks_pure _).guarded

namespace CString

theorem looks_window (p : P .uint8) : Looks (window p) :=
  (looks_check _).bind fun _ => looks_loadBytes _ _

theorem looks_contents (p : P .uint8) : Looks (contents p) := by
  refine (looks_window p).bind fun bytes => ?_
  split
  · exact looks_pure _
  · exact looks_stop _

theorem looks_leading (p : P .uint8) (n : UInt64) : Looks (leading p n) := by
  refine (looks_window p).bind fun bytes => ?_
  dsimp only
  split
  · exact looks_pure _
  · split
    · exact looks_pure _
    · exact looks_stop _

theorem looks_length (p : P .uint8) : Looks (length p) :=
  (looks_contents p).bind fun _ => looks_pure _

/-- Room first, then overlap, and the bytes last. -/
theorem guarded_write (dst : P .uint8) (needed : Nat) (apart : Bool) (a : Address)
    (bytes : Runs UInt8) :
    Guarded (do
      requireRoom dst needed
      require apart .overlappingCopy
      storeBytes a bytes) :=
  ((looks_check _).bind fun _ => looks_require _ _).bind_guarded fun _ =>
    (looks_require _ _).bind_guarded fun _ => (neverRefuses_store _ _).guarded

theorem guarded_append (dst : P .uint8) (src : Q .uint8) (n : UInt64) :
    Guarded (append dst src n) :=
  (looks_contents src).bind_guarded fun _ => (looks_length dst).bind_guarded fun _ =>
    guarded_write dst _ _ _ _

theorem guarded_print (buffer : P .uint8) (size : UInt64) (text : String) :
    Guarded (print buffer size text) := by
  refine (looks_check _).bind_guarded fun a => ?_
  dsimp only
  split
  · exact ((neverRefuses_store _ _).bind fun _ => neverRefuses_pure _).guarded
  · exact (looks_pure _).guarded

end CString

theorem Tokenizer.guarded_next (k : Tokenizer P) (delims : Q .uint8) :
    Guarded (k.next delims) := by
  refine (CString.looks_contents delims).bind_guarded fun ds => ?_
  cases k.cursor with
  | none => exact (looks_pure _).guarded
  | some p =>
    refine (CString.looks_window p).bind_guarded fun bytes => ?_
    dsimp only
    split
    · exact (looks_pure _).guarded
    · split
      · exact (looks_pure _).guarded
      · exact ((neverRefuses_store _ _).bind fun _ => neverRefuses_pure _).guarded

theorem Strings.guarded {a : Operation α} (ha : Strings a) : Guarded a := by
  cases ha with
  | length p => exact (CString.looks_length p).guarded
  | contents p => exact (CString.looks_contents p).guarded
  | compare p q =>
    exact ((CString.looks_contents p).bind fun _ => (CString.looks_contents q).bind fun _ =>
      looks_pure _).guarded
  | compareLeading p q n =>
    exact ((CString.looks_leading p n).bind fun _ => (CString.looks_leading q n).bind fun _ =>
      looks_pure _).guarded
  | find? p c => exact ((CString.looks_contents p).bind fun _ => looks_pure _).guarded
  | append dst src n => exact CString.guarded_append dst src n
  | appendAll dst src => exact CString.guarded_append dst src (-1)
  | copy dst src =>
    exact (CString.looks_contents src).bind_guarded fun _ => CString.guarded_write dst _ _ _ _
  | copyPadded dst src n =>
    exact (CString.looks_leading src n).bind_guarded fun _ => CString.guarded_write dst _ _ _ _
  | print buffer size text => exact CString.guarded_print buffer size text
  | tokenize text =>
    exact (((CString.looks_contents text).map _).bind fun _ => looks_pure _).guarded
  | nextToken k delims => exact k.guarded_next delims

end Arrays

/-! ## 6. Streams -/

namespace StreamPtr

/-- A transfer checks the stream before it is started. -/
theorem guarded_use (f : StreamPtr) {β : Type}
    (transfer : Stream → Directory → β × Stream × Directory) : Guarded (f.use transfer) := by
  refine looks_get.bind_guarded fun w => ?_
  cases f.number?.bind fun n => (w.streams[n]?.join).map (n, ·) with
  | none => exact (looks_stop _).guarded
  | some x => exact ((neverRefuses_set _).bind fun _ => neverRefuses_pure _).guarded

end StreamPtr

theorem Streams.guarded {a : Operation α} (ha : Streams a) : Guarded a := by
  cases ha with
  | openFile name mode =>
    refine (CString.looks_contents name).bind_guarded fun name =>
      (CString.looks_contents mode).bind_guarded fun mode => looks_get.bind_guarded fun w => ?_
    cases OpenMode.parse? mode.toList with
    | none => exact (looks_pure _).guarded
    | some mode => exact ((neverRefuses_set _).bind fun _ => neverRefuses_pure _).guarded
  | flush f => exact f.guarded_use _
  | close f => exact (f.guarded_use _).bind fun _ => (neverRefuses_modify _).bind fun _ =>
      neverRefuses_pure _
  | getByte f => exact f.guarded_use _
  | readInto f buffer count =>
    exact (looks_check _).bind_guarded fun _ => (f.guarded_use _).bind fun _ =>
      (neverRefuses_store _ _).bind fun _ => neverRefuses_pure _
  | writeFrom f buffer count =>
    exact (looks_check _).bind_guarded fun _ => (looks_loadBytes _ _).bind_guarded fun _ =>
      (f.guarded_use _).bind fun _ => neverRefuses_pure _
  | readLine f buffer room =>
    refine (looks_check _).bind_guarded fun a => ?_
    split
    · exact f.guarded_use _
    · refine (f.guarded_use _).bind fun line => ?_
      split
      · exact neverRefuses_pure _
      · exact (neverRefuses_store _ _).bind fun _ => neverRefuses_pure _
  | writeString f text => exact (CString.looks_contents text).bind_guarded fun _ => f.guarded_use _
  | seek f offset origin => exact f.guarded_use _
  | tell f => exact f.guarded_use _
  | atEnd f => exact f.guarded_use _
  | failed f => exact f.guarded_use _
  | readWordInto f buffer =>
    exact (looks_check _).bind_guarded fun _ => (looks_check _).bind_guarded fun _ =>
      (f.guarded_use _).bind fun _ => (neverRefuses_store _ _).bind fun _ => neverRefuses_pure _
  | readWord f form => exact (f.guarded_use _).bind fun _ => neverRefuses_pure _
  | print f text => exact (f.guarded_use _).bind fun _ => neverRefuses_pure _

/-! ## 7. All operations -/

/-- **A refusal leaves the state as it was**, whatever was asked for. -/
theorem Offers.guarded {a : Operation α} (ha : Offers a) : Guarded a := by
  cases ha with
  | allocate ha => exact ha.guarded
  | release ha => exact ha.guarded
  | access ha => exact ha.guarded
  | convert hr => exact (looks_check _).guarded
  | toBegin p => exact (looks_ofChecked _).guarded
  | toEnd p => exact (looks_ofChecked _).guarded
  | transfer ha => exact ha.guarded
  | string ha => exact ha.guarded
  | stream ha => exact ha.guarded

end CheckedMemory
