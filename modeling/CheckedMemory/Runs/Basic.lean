/-!
# Lists in runs

Fresh storage, a cleared buffer and the gap in a file are long lists that say little.  Such a list
is kept as runs, each a piece and the number of times that it stands there, and the cost of an
operation is that of the pieces, whatever the length.

`Runs.toList` is what runs mean, and every operation has one equation through it.
-/

namespace CheckedMemory

/-! ## 1. One run -/

/-- A piece of a list, so many times. -/
structure Run (α : Type) where
  times : Nat
  piece : List α
deriving DecidableEq, Repr

namespace Run

variable {α β : Type}

def toList (r : Run α) : List α := (List.replicate r.times r.piece).flatten

def length (r : Run α) : Nat := r.times * r.piece.length

def isEmpty (r : Run α) : Bool := r.times == 0 || r.piece.isEmpty

/-- The first `n` elements, fewer than all. -/
def take (r : Run α) (n : Nat) : List (Run α) :=
  [⟨n / r.piece.length, r.piece⟩, ⟨1, r.piece.take (n % r.piece.length)⟩]

/-- All but the first `n` elements, fewer than all.  Where `n` is inside a piece, the pieces start
there from then on, and the last one is short. -/
def drop (r : Run α) (n : Nat) : List (Run α) :=
  let count := r.times - n / r.piece.length
  let i := n % r.piece.length
  if i = 0 then [⟨count, r.piece⟩]
  else [⟨count - 1, r.piece.drop i ++ r.piece.take i⟩, ⟨1, r.piece.drop i⟩]

def map (f : α → β) (r : Run α) : Run β := ⟨r.times, r.piece.map f⟩

def reverse (r : Run α) : Run α := ⟨r.times, r.piece.reverse⟩

/-- The same elements with as many pieces put together as it takes for `n` to divide the length of
a piece.  Pieces left over make a run of their own. -/
def regroup (r : Run α) (n : Nat) : List (Run α) :=
  let count := n / Nat.gcd n r.piece.length
  if r.times < count then [r]
  else [⟨r.times / count, toList ⟨count, r.piece⟩⟩, ⟨1, toList ⟨r.times % count, r.piece⟩⟩]

@[simp] theorem length_toList (r : Run α) : r.toList.length = r.length := by
  simp [toList, length]

@[simp] theorem toList_one (xs : List α) : toList ⟨1, xs⟩ = xs := by simp [toList]

theorem toList_eq_nil {r : Run α} (h : r.isEmpty = true) : r.toList = [] := by
  simp only [isEmpty, Bool.or_eq_true, beq_iff_eq, List.isEmpty_iff] at h
  rcases h with h | h <;> simp [toList, h]

theorem toList_add (m n : Nat) (xs : List α) :
    toList ⟨m + n, xs⟩ = toList ⟨m, xs⟩ ++ toList ⟨n, xs⟩ := by
  simp [toList, ← List.replicate_append_replicate]

theorem toList_mul (m n : Nat) (xs : List α) :
    toList ⟨m * n, xs⟩ = toList ⟨m, toList ⟨n, xs⟩⟩ := by
  induction m with
  | zero => simp [toList]
  | succ m ih => rw [Nat.succ_mul, toList_add, ih, toList_add, toList_one]

/-- The piece in which position `n` lies, with what is before and after it. -/
theorem toList_eq_append {r : Run α} {n : Nat} (h : n < r.length) :
    r.toList = toList ⟨n / r.piece.length, r.piece⟩ ++
      (r.piece ++ toList ⟨r.times - n / r.piece.length - 1, r.piece⟩) := by
  obtain ⟨times, piece⟩ := r
  simp only [length] at h ⊢
  have hlt : n / piece.length < times := Nat.div_lt_of_lt_mul (by rwa [Nat.mul_comm])
  obtain ⟨d, rfl⟩ : ∃ d, times = n / piece.length + (1 + d) := ⟨times - n / piece.length - 1, by omega⟩
  have hd : n / piece.length + (1 + d) - n / piece.length - 1 = d := by omega
  rw [hd, toList_add, toList_add, toList_one]

theorem length_pos {r : Run α} {n : Nat} (h : n < r.length) : 0 < r.piece.length :=
  Nat.pos_of_ne_zero fun h0 => by simp [length, h0] at h

theorem flatMap_take {r : Run α} {n : Nat} (h : n < r.length) :
    (r.take n).flatMap toList = r.toList.take n := by
  have hmod := Nat.mod_lt n (length_pos h)
  have hn := Nat.div_add_mod' n r.piece.length
  have hlen : (toList ⟨n / r.piece.length, r.piece⟩).length
      = n / r.piece.length * r.piece.length := by rw [length_toList, length]
  rw [toList_eq_append h, List.take_append, List.take_of_length_le (by omega), hlen,
    show n - n / r.piece.length * r.piece.length = n % r.piece.length by omega,
    List.take_append_of_le_length (by omega)]
  simp [take]

/-- Pieces may start anywhere inside. -/
theorem toList_rotate (n : Nat) (xs ys : List α) :
    toList ⟨n, ys ++ xs⟩ ++ ys = ys ++ toList ⟨n, xs ++ ys⟩ := by
  induction n with
  | zero => simp [toList]
  | succ n ih =>
    rw [Nat.add_comm n 1, toList_add, toList_add, toList_one, toList_one, List.append_assoc, ih]
    simp

theorem flatMap_drop {r : Run α} {n : Nat} (h : n < r.length) :
    (r.drop n).flatMap toList = r.toList.drop n := by
  have hmod := Nat.mod_lt n (length_pos h)
  have hn := Nat.div_add_mod' n r.piece.length
  have hlen : (toList ⟨n / r.piece.length, r.piece⟩).length
      = n / r.piece.length * r.piece.length := by rw [length_toList, length]
  have hlt : n / r.piece.length < r.times :=
    Nat.div_lt_of_lt_mul (by rwa [length, Nat.mul_comm] at h)
  rw [toList_eq_append h, List.drop_append, List.drop_of_length_le (by omega), hlen,
    show n - n / r.piece.length * r.piece.length = n % r.piece.length by omega,
    List.drop_append_of_le_length (by omega), drop]
  split
  · rename_i h0
    obtain ⟨count, hcount⟩ : ∃ count, r.times - n / r.piece.length = 1 + count :=
      ⟨r.times - n / r.piece.length - 1, by omega⟩
    simp [h0, hcount, toList_add]
  · rw [List.flatMap_cons, List.flatMap_cons, List.flatMap_nil, List.append_nil, toList_one,
      toList_rotate, List.take_append_drop, List.nil_append]

theorem toList_map (f : α → β) (r : Run α) : (r.map f).toList = r.toList.map f := by
  simp [toList, map, List.map_flatten]

theorem toList_reverse (r : Run α) : r.reverse.toList = r.toList.reverse := by
  simp [toList, reverse, List.reverse_flatten]

theorem flatMap_regroup (r : Run α) (n : Nat) : (r.regroup n).flatMap toList = r.toList := by
  simp only [regroup]
  split
  · simp
  · simp only [List.flatMap_cons, List.flatMap_nil, List.append_nil, toList_one]
    rw [← toList_mul, ← toList_add, Nat.div_add_mod']

/-- Every element of a run is one of its piece, at the place that its position has in it. -/
theorem getElem?_toList {r : Run α} {i : Nat} (h : i < r.length) :
    r.toList[i]? = r.piece[i % r.piece.length]? := by
  have hmod := Nat.mod_lt i (length_pos h)
  have hn := Nat.div_add_mod' i r.piece.length
  have hlen : (toList ⟨i / r.piece.length, r.piece⟩).length
      = i / r.piece.length * r.piece.length := by rw [length_toList, length]
  rw [toList_eq_append h, List.getElem?_append_right (by omega), hlen,
    show i - i / r.piece.length * r.piece.length = i % r.piece.length by omega,
    List.getElem?_append_left (by omega)]

theorem mem_toList {r : Run α} {x : α} : x ∈ r.toList ↔ r.times ≠ 0 ∧ x ∈ r.piece := by
  simp only [toList, List.mem_flatten, List.mem_replicate]
  grind

end Run

/-! ## 2. Lists of runs -/

/-- A list in runs. -/
structure Runs (α : Type) where
  runs : List (Run α)
deriving DecidableEq, Repr

namespace Runs

variable {α β : Type}

def toList (r : Runs α) : List α := r.runs.flatMap Run.toList

/-- The number of elements in a list of runs. -/
def lengthRuns : List (Run α) → Nat
  | [] => 0
  | r :: rs => r.length + lengthRuns rs

def length (r : Runs α) : Nat := lengthRuns r.runs

/-- A list of runs without those that hold nothing. -/
def ofRuns (rs : List (Run α)) : Runs α := ⟨rs.filter (!·.isEmpty)⟩

def empty : Runs α := ⟨[]⟩

instance : Inhabited (Runs α) := ⟨empty⟩

def ofList (xs : List α) : Runs α := ofRuns [⟨1, xs⟩]

/-- A piece, so many times. -/
def cycle (n : Nat) (xs : List α) : Runs α := ofRuns [⟨n, xs⟩]

def replicate (n : Nat) (x : α) : Runs α := cycle n [x]

instance : Append (Runs α) := ⟨fun r s => ⟨r.runs ++ s.runs⟩⟩

def isEmpty (r : Runs α) : Bool := r.runs.all Run.isEmpty

theorem length_flatMap (rs : List (Run α)) : (rs.flatMap Run.toList).length = lengthRuns rs := by
  induction rs with
  | nil => rfl
  | cons r rs ih => rw [List.flatMap_cons, List.length_append, ih, Run.length_toList, lengthRuns]

@[simp] theorem length_toList (r : Runs α) : r.toList.length = r.length := length_flatMap r.runs

@[simp] theorem toList_ofRuns (rs : List (Run α)) : (ofRuns rs).toList = rs.flatMap Run.toList := by
  induction rs with
  | nil => rfl
  | cons r rs ih =>
    simp only [toList, ofRuns, List.filter_cons, List.flatMap_cons] at ih ⊢
    cases h : r.isEmpty
    · simp [ih]
    · simp [ih, Run.toList_eq_nil h]

@[simp] theorem toList_empty : (empty : Runs α).toList = [] := rfl

@[simp] theorem toList_ofList (xs : List α) : (ofList xs).toList = xs := by simp [ofList]

@[simp] theorem toList_cycle (n : Nat) (xs : List α) :
    (cycle n xs).toList = (List.replicate n xs).flatten := by
  simp [cycle, Run.toList]

@[simp] theorem toList_replicate (n : Nat) (x : α) :
    (replicate n x).toList = List.replicate n x := by
  simp [replicate]

@[simp] theorem toList_append (r s : Runs α) : (r ++ s).toList = r.toList ++ s.toList :=
  List.flatMap_append

@[simp] theorem length_append (r s : Runs α) : (r ++ s).length = r.length + s.length := by
  rw [← length_toList]; simp

@[simp] theorem length_ofList (xs : List α) : (ofList xs).length = xs.length := by
  rw [← length_toList]; simp

@[simp] theorem length_replicate (n : Nat) (x : α) : (replicate n x).length = n := by
  rw [← length_toList]; simp

theorem isEmpty_iff (r : Runs α) : r.isEmpty = true ↔ r.toList = [] := by
  simp only [isEmpty, List.all_eq_true, toList, List.flatMap_eq_nil_iff]
  refine forall_congr' fun s => imp_congr_right fun _ => ⟨Run.toList_eq_nil, fun h => ?_⟩
  have := congrArg List.length h
  simpa [Run.length, Run.isEmpty, Nat.mul_eq_zero] using this

/-! ## 3. Parts -/

/-- The first `n` elements of a list of runs. -/
def takeRuns : List (Run α) → Nat → List (Run α)
  | [], _ => []
  | r :: rs, n => if r.length ≤ n then r :: takeRuns rs (n - r.length) else r.take n

/-- All but the first `n` elements of a list of runs. -/
def dropRuns : List (Run α) → Nat → List (Run α)
  | [], _ => []
  | r :: rs, n =>
    if n = 0 then r :: rs
    else if r.length ≤ n then dropRuns rs (n - r.length)
    else r.drop n ++ rs

def take (r : Runs α) (n : Nat) : Runs α := ofRuns (takeRuns r.runs n)

def drop (r : Runs α) (n : Nat) : Runs α := ofRuns (dropRuns r.runs n)

/-- The list with other elements from position `i` on.  A gap up to there is filled with `x`. -/
def overwrite (r : Runs α) (i : Nat) (x : α) (s : Runs α) : Runs α :=
  r.take i ++ replicate (i - r.length) x ++ s ++ r.drop (i + s.length)

theorem flatMap_takeRuns (rs : List (Run α)) (n : Nat) :
    (takeRuns rs n).flatMap Run.toList = (rs.flatMap Run.toList).take n := by
  induction rs generalizing n with
  | nil => simp [takeRuns]
  | cons r rs ih =>
    simp only [takeRuns, List.flatMap_cons, List.take_append, Run.length_toList]
    split
    · rename_i h
      rw [List.flatMap_cons, ih, List.take_of_length_le (l := r.toList) (by simpa using h)]
    · rename_i h
      rw [Run.flatMap_take (by omega), show n - r.length = 0 by omega]
      simp

theorem flatMap_dropRuns (rs : List (Run α)) (n : Nat) :
    (dropRuns rs n).flatMap Run.toList = (rs.flatMap Run.toList).drop n := by
  induction rs generalizing n with
  | nil => simp [dropRuns]
  | cons r rs ih =>
    simp only [dropRuns]
    split
    · rename_i h
      rw [h, List.drop_zero]
    · rw [List.flatMap_cons, List.drop_append, Run.length_toList]
      split
      · rename_i h
        rw [ih, List.drop_of_length_le (l := r.toList) (by simpa using h), List.nil_append]
      · rename_i h
        rw [List.flatMap_append, Run.flatMap_drop (by omega), show n - r.length = 0 by omega]
        simp

theorem lengthRuns_dropRuns (rs : List (Run α)) (n : Nat) :
    lengthRuns (dropRuns rs n) = lengthRuns rs - n := by
  rw [← length_flatMap, flatMap_dropRuns, List.length_drop, length_flatMap]

@[simp] theorem toList_take (r : Runs α) (n : Nat) : (r.take n).toList = r.toList.take n := by
  rw [take, toList_ofRuns, flatMap_takeRuns, toList]

@[simp] theorem toList_drop (r : Runs α) (n : Nat) : (r.drop n).toList = r.toList.drop n := by
  rw [drop, toList_ofRuns, flatMap_dropRuns, toList]

@[simp] theorem toList_overwrite (r : Runs α) (i : Nat) (x : α) (s : Runs α) :
    (r.overwrite i x s).toList =
      r.toList.take i ++ List.replicate (i - r.length) x ++ s.toList ++
        r.toList.drop (i + s.length) := by
  simp [overwrite]

@[simp] theorem length_take (r : Runs α) (n : Nat) : (r.take n).length = min n r.length := by
  rw [← length_toList]; simp

@[simp] theorem length_drop (r : Runs α) (n : Nat) : (r.drop n).length = r.length - n := by
  rw [← length_toList]; simp

/-! ## 4. Element by element -/

def map (f : α → β) (r : Runs α) : Runs β := ⟨r.runs.map (·.map f)⟩

def reverse (r : Runs α) : Runs α := ⟨(r.runs.map Run.reverse).reverse⟩

/-- The elements, those of a run only once. -/
def elements (r : Runs α) : List α := r.runs.flatMap fun s => if s.times = 0 then [] else s.piece

def any (p : α → Bool) (r : Runs α) : Bool := r.runs.any fun s => s.times != 0 && s.piece.any p

/-- The longest front of a list of runs whose elements all satisfy a predicate. -/
def takeWhileRuns (p : α → Bool) : List (Run α) → List (Run α)
  | [] => []
  | r :: rs =>
    if r.times = 0 || r.piece.all p then r :: takeWhileRuns p rs else [⟨1, r.piece.takeWhile p⟩]

def takeWhile (p : α → Bool) (r : Runs α) : Runs α := ofRuns (takeWhileRuns p r.runs)

@[simp] theorem toList_map (f : α → β) (r : Runs α) : (r.map f).toList = r.toList.map f := by
  simp [toList, map, List.map_flatMap, List.flatMap_map, Run.toList_map]

@[simp] theorem length_map (f : α → β) (r : Runs α) : (r.map f).length = r.length := by
  rw [← length_toList]; simp

@[simp] theorem toList_reverse (r : Runs α) : r.reverse.toList = r.toList.reverse := by
  simp [toList, reverse, List.reverse_flatMap, List.flatMap_map, Function.comp_def,
    Run.toList_reverse, ← List.map_reverse]

theorem mem_elements {r : Runs α} {x : α} : x ∈ r.elements ↔ x ∈ r.toList := by
  simp only [elements, toList, List.mem_flatMap, Run.mem_toList]
  grind

theorem any_eq (p : α → Bool) (r : Runs α) : r.any p = r.toList.any p := by
  rw [Bool.eq_iff_iff]
  simp only [any, List.any_eq_true, toList, List.mem_flatMap, Run.mem_toList, Bool.and_eq_true,
    bne_iff_ne]
  grind

@[simp] theorem toList_takeWhile (p : α → Bool) (r : Runs α) :
    (r.takeWhile p).toList = r.toList.takeWhile p := by
  rw [takeWhile, toList_ofRuns, toList]
  induction r.runs with
  | nil => rfl
  | cons r rs ih =>
    obtain ⟨times, piece⟩ := r
    simp only [takeWhileRuns, List.flatMap_cons]
    split
    · rename_i h
      have hall : ∀ x ∈ Run.toList ⟨times, piece⟩, p x = true := by
        simp only [Bool.or_eq_true, decide_eq_true_eq, List.all_eq_true] at h
        intro x hx
        have := Run.mem_toList.mp hx
        grind
      rw [List.flatMap_cons, ih, List.takeWhile_append_of_pos hall]
    · rename_i h
      simp only [Bool.or_eq_true, decide_eq_true_eq, not_or, Bool.not_eq_true] at h
      obtain ⟨t, rfl⟩ := Nat.exists_eq_succ_of_ne_zero h.1
      have hne : (piece.takeWhile p).length ≠ piece.length := fun h0 => by
        have hall := List.all_takeWhile (p := p) (l := piece)
        rw [(List.takeWhile_prefix p).eq_of_length h0, h.2] at hall
        exact absurd hall (by simp)
      rw [Nat.succ_eq_one_add, Run.toList_add, Run.toList_one, List.append_assoc]
      simp [List.takeWhile_append, hne]

end Runs

end CheckedMemory
