import CheckedMemory.Element.Value
import CheckedMemory.Runs.Basic

/-!
# Consecutive values

The cells of many values of one type, one after the other, as lists and in runs.  Main statements:
consecutive cells give back the values that they hold (`decodeAll_encodeAll`), and runs hold what
the lists do that they stand for (`toList_encodeRuns`, `toList_decodeRuns`).

An array of equal values is one run, and stays few runs when some of its elements change.
-/

namespace CheckedMemory

namespace ElemType

/-! ## 1. Cells and values -/

/-- The cells of consecutive values. -/
def encodeAll (τ : ElemType) (xs : List τ.Carrier) : List Cell := xs.flatMap (encode τ)

/-- `n` consecutive values. -/
def decodeAll (τ : ElemType) (n : Nat) (cs : List Cell) : List τ.Carrier :=
  go n cs []
where
  go : Nat → List Cell → List τ.Carrier → List τ.Carrier
    | 0, _, xs => xs.reverse
    | n + 1, cs, xs =>
      go n (cs.drop τ.layout.size) (decode τ (cs.take τ.layout.size) :: xs)

/-- The cells of consecutive values in runs. -/
def encodeRuns (τ : ElemType) (xs : Runs τ.Carrier) : Runs Cell :=
  .ofRuns (xs.runs.map fun r => ⟨r.times, encodeAll τ r.piece⟩)

/-- The values in a run of cells whose piece holds whole values. -/
def decodeRun (τ : ElemType) (r : Run Cell) : Run τ.Carrier :=
  ⟨r.times, decodeAll τ (r.piece.length / τ.layout.size) r.piece⟩

/-- `n` consecutive values in runs, if every run holds whole values; otherwise one by one. -/
def decodeRuns (τ : ElemType) (n : Nat) (cs : Runs Cell) : Runs τ.Carrier :=
  let rs := cs.runs.flatMap (·.regroup τ.layout.size)
  if τ.layout.size = 0 then .replicate n (decode τ [])
  else if rs.all (·.piece.length % τ.layout.size == 0) then .ofRuns (rs.map (decodeRun τ))
  else .ofList (decodeAll τ n cs.toList)

/-- What the release of `n` consecutive values writes to the drop log. -/
def dropMarksAll : ElemType → Nat → Runs Cell → Runs Int64
  | resource, n, cs => (decodeRuns resource n cs).map Resource.number
  | _, _, _ => .empty

/-- The addresses that `n` consecutive values refer to.  Equal values in a run report once. -/
def referencesAll (τ : ElemType) (n : Nat) (cs : Runs Cell) : List Address :=
  (decodeRuns τ n cs).elements.flatMap (references τ)

/-! ## 2. Lists -/

theorem length_encodeAll (τ : ElemType) (xs : List τ.Carrier) :
    (encodeAll τ xs).length = xs.length * τ.layout.size := by
  induction xs with
  | nil => simp [encodeAll]
  | cons x xs ih =>
    simp only [encodeAll, List.flatMap_cons, List.length_append, length_encode,
      List.length_cons, Nat.add_mul, Nat.one_mul] at ih ⊢
    omega

theorem decodeAll_go (τ : ElemType) (n : Nat) (cs : List Cell) (xs : List τ.Carrier) :
    decodeAll.go τ n cs xs = xs.reverse ++ decodeAll.go τ n cs [] := by
  induction n generalizing cs xs with
  | zero => simp [decodeAll.go]
  | succ n ih =>
    rw [decodeAll.go, ih, decodeAll.go, ih _ [_]]
    simp

@[simp] theorem decodeAll_zero (τ : ElemType) (cs : List Cell) : decodeAll τ 0 cs = [] := rfl

theorem decodeAll_succ (τ : ElemType) (n : Nat) (cs : List Cell) :
    decodeAll τ (n + 1) cs =
      decode τ (cs.take τ.layout.size) :: decodeAll τ n (cs.drop τ.layout.size) := by
  rw [decodeAll, decodeAll.go, decodeAll_go]
  rfl

theorem decodeAll_append (τ : ElemType) {n : Nat} {cs : List Cell}
    (h : cs.length = n * τ.layout.size) (m : Nat) (ds : List Cell) :
    decodeAll τ (n + m) (cs ++ ds) = decodeAll τ n cs ++ decodeAll τ m ds := by
  induction n generalizing cs with
  | zero => simp [List.eq_nil_of_length_eq_zero (l := cs) (by omega)]
  | succ n ih =>
    rw [Nat.succ_mul] at h
    rw [Nat.add_right_comm, decodeAll_succ, decodeAll_succ, List.take_append_of_le_length (by omega),
      List.drop_append_of_le_length (by omega), ih (by rw [List.length_drop]; omega),
      List.cons_append]

/-- **The values of consecutive cells are those that were written.** -/
theorem decodeAll_encodeAll (τ : ElemType) (xs : List τ.Carrier) :
    decodeAll τ xs.length (encodeAll τ xs) = xs := by
  induction xs with
  | nil => rfl
  | cons x xs ih =>
    rw [List.length_cons, decodeAll_succ, encodeAll, List.flatMap_cons,
      List.take_left' (length_encode τ x), List.drop_left' (length_encode τ x), decode_encode]
    exact congrArg _ ih

/-! ## 3. Runs -/

theorem toList_encodeRun (τ : ElemType) (n : Nat) (xs : List τ.Carrier) :
    Run.toList ⟨n, encodeAll τ xs⟩ = encodeAll τ (Run.toList ⟨n, xs⟩) := by
  induction n with
  | zero => simp [Run.toList, encodeAll]
  | succ n ih =>
    rw [Run.toList_add, Run.toList_add, ih, Run.toList_one, Run.toList_one, encodeAll, encodeAll,
      encodeAll, List.flatMap_append]

/-- **Values in runs have the cells of the list that they are.** -/
theorem toList_encodeRuns (τ : ElemType) (xs : Runs τ.Carrier) :
    (encodeRuns τ xs).toList = encodeAll τ xs.toList := by
  rw [encodeRuns, Runs.toList_ofRuns, Runs.toList, List.flatMap_map, encodeAll, List.flatMap_assoc]
  exact congrArg (List.flatMap · xs.runs) (funext fun r => toList_encodeRun τ r.times r.piece)

theorem toList_decodeRun (τ : ElemType) {r : Run Cell} (hpos : 0 < τ.layout.size)
    (h : r.piece.length % τ.layout.size = 0) :
    (decodeRun τ r).toList = decodeAll τ (r.length / τ.layout.size) r.toList := by
  obtain ⟨times, piece⟩ := r
  obtain ⟨k, hk⟩ := Nat.dvd_of_mod_eq_zero h
  simp only [Nat.mul_comm] at hk
  have hdiv : ∀ n, n * piece.length / τ.layout.size = n * k := fun n => by
    rw [hk, ← Nat.mul_assoc, Nat.mul_div_cancel _ hpos]
  have h1 := hdiv 1
  simp only [decodeRun, Run.length, hdiv, Nat.one_mul] at h1 ⊢
  rw [h1]
  induction times with
  | zero => simp [Run.toList]
  | succ n ih =>
    rw [Run.toList_add, Run.toList_add, ih h, Run.toList_one, Run.toList_one, Nat.succ_mul,
      decodeAll_append]
    rw [Run.length_toList, Run.length, hk, Nat.mul_assoc]

/-- **Cells in runs hold the values of the list that they are.** -/
theorem toList_decodeRuns (τ : ElemType) {n : Nat} {cs : Runs Cell}
    (h : cs.length = n * τ.layout.size) :
    (decodeRuns τ n cs).toList = decodeAll τ n cs.toList := by
  simp only [decodeRuns]
  split
  · rename_i h0
    have hnil : cs.toList = [] := List.eq_nil_of_length_eq_zero (by simp [h, h0])
    rw [hnil, Runs.toList_replicate]
    clear h hnil
    induction n with
    | zero => rfl
    | succ n ih => rw [List.replicate_succ, ih, decodeAll_succ, List.take_nil, List.drop_nil]
  · rename_i h0
    split
    · rename_i hall
      have hpos := Nat.pos_of_ne_zero h0
      have hcs : cs.toList = (cs.runs.flatMap (·.regroup τ.layout.size)).flatMap Run.toList := by
        rw [List.flatMap_assoc, Runs.toList]
        exact congrArg (List.flatMap · cs.runs) (funext fun r => (r.flatMap_regroup _).symm)
      rw [← Runs.length_toList] at h
      rw [hcs] at h ⊢
      generalize cs.runs.flatMap (·.regroup τ.layout.size) = rs at hall h ⊢
      rw [Runs.toList_ofRuns, List.flatMap_map]
      clear hcs
      induction rs generalizing n with
      | nil =>
        simp only [List.flatMap_nil, List.length_nil] at h ⊢
        have : n = 0 := by
          rcases Nat.mul_eq_zero.mp h.symm with h | h
          · exact h
          · exact absurd h h0
        rw [this, decodeAll_zero]
      | cons r rs ih =>
        simp only [List.all_cons, Bool.and_eq_true, beq_iff_eq] at hall
        rw [List.flatMap_cons, List.length_append, Run.length_toList] at h
        have hr : r.length = r.length / τ.layout.size * τ.layout.size :=
          (Nat.div_mul_cancel (Nat.dvd_trans (Nat.dvd_of_mod_eq_zero hall.1)
            (Nat.dvd_mul_left _ _))).symm
        obtain ⟨m, rfl⟩ : ∃ m, n = r.length / τ.layout.size + m :=
          ⟨n - r.length / τ.layout.size, by
            have : r.length / τ.layout.size ≤ n :=
              Nat.le_of_mul_le_mul_right (by omega) hpos
            omega⟩
        rw [List.flatMap_cons, List.flatMap_cons, toList_decodeRun τ hpos hall.1,
          decodeAll_append τ (by rw [Run.length_toList]; exact hr), ih hall.2]
        rw [Nat.add_mul] at h
        omega
    · rw [Runs.toList_ofList]

theorem toList_dropMarksAll (τ : ElemType) {n : Nat} {cs : Runs Cell}
    (h : cs.length = n * τ.layout.size) :
    (dropMarksAll τ n cs).toList = (decodeAll τ n cs.toList).flatMap (dropMarks τ) := by
  cases τ with
  | resource =>
    rw [dropMarksAll, Runs.toList_map, toList_decodeRuns resource h]
    exact List.map_eq_flatMap
  | _ => simp [dropMarksAll, dropMarks]

theorem mem_referencesAll (τ : ElemType) {n : Nat} {cs : Runs Cell}
    (h : cs.length = n * τ.layout.size) {a : Address} :
    a ∈ referencesAll τ n cs ↔ a ∈ (decodeAll τ n cs.toList).flatMap (references τ) := by
  rw [← toList_decodeRuns τ h]
  simp only [referencesAll, List.mem_flatMap, Runs.mem_elements]

end ElemType

end CheckedMemory
