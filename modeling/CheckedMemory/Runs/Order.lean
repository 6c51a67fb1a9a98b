import CheckedMemory.Runs.Basic

/-!
# The order of byte strings

Byte strings are ordered by the first byte that differs, and a beginning comes first.  For strings
in runs the order is found run against run: two runs that agree as far as the product of the
lengths of their pieces agree as far as both go.

Main statement: both ways give the same order (`Runs.compare_eq`).
-/

namespace CheckedMemory

/-! ## 1. Byte by byte -/

/-- The order of byte strings. -/
def compareBytes : List UInt8 → List UInt8 → Ordering
  | [], [] => .eq
  | [], _ :: _ => .lt
  | _ :: _, [] => .gt
  | a :: as, b :: bs => if a < b then .lt else if b < a then .gt else compareBytes as bs

@[simp] theorem compareBytes_self (as : List UInt8) : compareBytes as as = .eq := by
  induction as with
  | nil => rfl
  | cons a as ih => simp [compareBytes, ih]

theorem eq_of_compareBytes {as bs : List UInt8} (h : compareBytes as bs = .eq) : as = bs := by
  fun_induction compareBytes as bs with
  | case1 => rfl
  | case2 | case3 | case4 | case5 => simp at h
  | case6 a as b bs h1 h2 ih =>
    rw [ih h, UInt8.le_antisymm (UInt8.not_lt.mp h2) (UInt8.not_lt.mp h1)]

theorem compareBytes_append {as bs : List UInt8} (h : as.length = bs.length)
    (cs ds : List UInt8) :
    compareBytes (as ++ cs) (bs ++ ds) = (compareBytes as bs).then (compareBytes cs ds) := by
  induction as generalizing bs with
  | nil => cases bs with
    | nil => rfl
    | cons b bs => simp at h
  | cons a as ih => cases bs with
    | nil => simp at h
    | cons b bs =>
      simp only [List.cons_append, compareBytes]
      split
      · rfl
      · split
        · rfl
        · exact ih (by simpa using h)

/-! ## 2. Run by run -/

namespace Run

variable {α : Type}

/-- **Two runs that agree as far as the product of the lengths of their pieces agree as far as
both go.** -/
theorem take_eq_take {r s : Run α} {n : Nat} (hr : n ≤ r.length) (hs : n ≤ s.length)
    (h : r.toList.take (r.piece.length * s.piece.length) =
      s.toList.take (r.piece.length * s.piece.length)) :
    r.toList.take n = s.toList.take n := by
  apply List.ext_getElem?
  intro i
  simp only [List.getElem?_take]
  split
  · rename_i hi
    have hrl := length_pos (r := r) (n := i) (by omega)
    have hsl := length_pos (r := s) (n := i) (by omega)
    have hlt := Nat.mod_lt i (Nat.mul_pos hrl hsl)
    have hle := Nat.mod_le i (r.piece.length * s.piece.length)
    have := congrArg (·[i % (r.piece.length * s.piece.length)]?) h
    simp only [List.getElem?_take, if_pos hlt] at this
    rw [getElem?_toList (by omega), getElem?_toList (by omega), Nat.mod_mul_right_mod,
      Nat.mod_mul_left_mod] at this
    rw [getElem?_toList (by omega), getElem?_toList (by omega), this]
  · rfl

end Run

namespace Runs

/-- The order of the first `n` bytes of two runs. -/
def compareFronts (r s : Run UInt8) (n : Nat) : Ordering :=
  compareBytes ((takeRuns [r] n).flatMap Run.toList) ((takeRuns [s] n).flatMap Run.toList)

/-- The order of byte strings in runs. -/
def compareRuns : List (Run UInt8) → List (Run UInt8) → Ordering
  | [], ss => if ss.all Run.isEmpty then .eq else .lt
  | r :: rs, [] => if (r :: rs).all Run.isEmpty then .eq else .gt
  | r :: rs, s :: ss =>
    if r.length = 0 then compareRuns rs (s :: ss)
    else if s.length = 0 then compareRuns (r :: rs) ss
    else
      let n := min r.length s.length
      (compareFronts r s (min n (r.piece.length * s.piece.length))).then
        (compareRuns (dropRuns (r :: rs) n) (dropRuns (s :: ss) n))
termination_by rs ss =>
  (lengthRuns rs + lengthRuns ss, rs.length + ss.length)
decreasing_by
  · rename_i h
    simp only [lengthRuns, h, Nat.zero_add, List.length_cons]
    exact Prod.Lex.right _ (by omega)
  · rename_i h
    simp only [lengthRuns, h, Nat.zero_add, List.length_cons]
    exact Prod.Lex.right _ (by omega)
  · simp only [lengthRuns_dropRuns, lengthRuns]
    exact Prod.Lex.left _ _ (by omega)

/-- The order of byte strings in runs. -/
def compare (r s : Runs UInt8) : Ordering := compareRuns r.runs s.runs

theorem compareFronts_eq {r s : Run UInt8} {n : Nat} (hr : n ≤ r.length) (hs : n ≤ s.length) :
    compareFronts r s (min n (r.piece.length * s.piece.length)) =
      compareBytes (r.toList.take n) (s.toList.take n) := by
  simp only [compareFronts, flatMap_takeRuns, List.flatMap_cons, List.flatMap_nil,
    List.append_nil]
  rcases Nat.le_total n (r.piece.length * s.piece.length) with h | h
  · rw [Nat.min_eq_left h]
  · rw [Nat.min_eq_right h]
    have hsplit : ∀ t : Run UInt8, t.toList.take n =
        t.toList.take (r.piece.length * s.piece.length) ++
          (t.toList.drop (r.piece.length * s.piece.length)).take
            (n - r.piece.length * s.piece.length) := fun t => by
      rw [← List.take_add, Nat.add_sub_cancel' h]
    rw [hsplit r, hsplit s, compareBytes_append (by simp; omega)]
    cases heq : compareBytes (r.toList.take (r.piece.length * s.piece.length))
      (s.toList.take (r.piece.length * s.piece.length)) with
    | lt | gt => rfl
    | eq =>
      have hfront := eq_of_compareBytes heq
      have hall := Run.take_eq_take hr hs hfront
      rw [hsplit r, hsplit s, hfront] at hall
      rw [List.append_cancel_left hall, compareBytes_self]
      rfl

theorem compareBytes_nil (bs : List UInt8) :
    compareBytes [] bs = if bs = [] then .eq else .lt := by
  cases bs <;> rfl

theorem compareBytes_nil_right (as : List UInt8) :
    compareBytes as [] = if as = [] then .eq else .gt := by
  cases as <;> rfl

/-- What is inside the first run is in it alone. -/
theorem take_flatMap_cons {r : Run UInt8} (rs : List (Run UInt8)) {n : Nat} (h : n ≤ r.length) :
    ((r :: rs).flatMap Run.toList).take n = r.toList.take n := by
  rw [List.flatMap_cons, List.take_append_of_le_length (by simpa using h)]

theorem compareRuns_eq (rs ss : List (Run UInt8)) :
    compareRuns rs ss = compareBytes (rs.flatMap Run.toList) (ss.flatMap Run.toList) := by
  have hnil : ∀ ts : List (Run UInt8), ts.all Run.isEmpty = true ↔ ts.flatMap Run.toList = [] :=
    fun ts => isEmpty_iff ⟨ts⟩
  fun_induction compareRuns rs ss with
  | case1 ss h => rw [List.flatMap_nil, compareBytes_nil, if_pos ((hnil ss).mp h)]
  | case2 ss h => rw [List.flatMap_nil, compareBytes_nil, if_neg (mt (hnil ss).mpr h)]
  | case3 r rs h => rw [List.flatMap_nil, compareBytes_nil_right, if_pos ((hnil _).mp h)]
  | case4 r rs h => rw [List.flatMap_nil, compareBytes_nil_right, if_neg (mt (hnil _).mpr h)]
  | case5 r rs s ss h ih =>
    rw [ih, List.flatMap_cons (x := r), List.eq_nil_of_length_eq_zero (l := r.toList) (by simpa using h),
      List.nil_append]
  | case6 r rs s ss _ h ih =>
    rw [ih, List.flatMap_cons (x := s), List.eq_nil_of_length_eq_zero (l := s.toList) (by simpa using h),
      List.nil_append]
  | case7 r rs s ss hr hs n ih =>
    have hn : n ≤ r.length ∧ n ≤ s.length := by omega
    rw [compareFronts_eq hn.1 hn.2, ih, flatMap_dropRuns, flatMap_dropRuns,
      ← compareBytes_append (by simp; omega)]
    congr 1
    · rw [← take_flatMap_cons rs hn.1, List.take_append_drop]
    · rw [← take_flatMap_cons ss hn.2, List.take_append_drop]

/-- **Runs have the order of their bytes.** -/
theorem compare_eq (r s : Runs UInt8) : r.compare s = compareBytes r.toList s.toList :=
  compareRuns_eq r.runs s.runs

end Runs

end CheckedMemory
