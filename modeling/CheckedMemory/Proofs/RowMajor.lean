import CheckedMemory.Proofs.Assignment
import CheckedMemory.Proofs.Creation
import CheckedMemory.Proofs.Dropped
import CheckedMemory.Proofs.Indexing
import Mathlib.Data.Set.Function

/-!
# Matrices as rows of one array

A matrix numbers its cells row by row.  The number of cells was checked when the matrix was made,
and from that alone follows that no position wraps: the last cell of a row comes before the first of
the next, and that of the last row before the number of cells.  So the positions are the numbers
below that, each of exactly one cell, and a division with remainder finds it again
(`Matrix.bijOn_positionOf`).

`Matrix.RowMajor` says what that means for accesses: which there are, where they go, and that a
write to a cell is a write to one element of the list of all.

Main statement: `Program.matrix_rowMajor`.
-/

namespace CheckedMemory

open Operation

variable {past : List Block} {w w' : World} {τ : ElemType} {m : Matrix τ} {k : UInt64}
  {c d : UInt64 × UInt64}

namespace Matrix

/-! ## 1. Coordinates and positions -/

/-- The coordinates of the cells, column first. -/
def coordinates (m : Matrix τ) : Set (UInt64 × UInt64) := {c | c.1 < m.xExtent ∧ c.2 < m.yExtent}

/-- The flat position of the cell at given coordinates. -/
def positionOf (m : Matrix τ) (c : UInt64 × UInt64) : UInt64 := m.position c.1 c.2

/-- The coordinates of the cell at a flat position. -/
def coordinatesAt (m : Matrix τ) (k : UInt64) : UInt64 × UInt64 := (k % m.xExtent, k / m.xExtent)

/-- The address of the cell at given coordinates. -/
def addressOf (m : Matrix τ) (c : UInt64 × UInt64) : Address := m.base + m.positionOf c * τ.size

theorem mem_coordinates_iff : c ∈ m.coordinates ↔
    c.1.toNat < m.xExtent.toNat ∧ c.2.toNat < m.yExtent.toNat := by
  exact and_congr UInt64.lt_iff_toNat_lt UInt64.lt_iff_toNat_lt

section Positions

variable (hsize : m.xExtent.toNat * m.yExtent.toNat < 2 ^ 64)

include hsize

/-- The position of a cell is exact, and one of the cells. -/
theorem toNat_positionOf (hc : c ∈ m.coordinates) :
    (m.positionOf c).toNat = c.2.toNat * m.xExtent.toNat + c.1.toNat ∧
      (m.positionOf c).toNat < m.xExtent.toNat * m.yExtent.toNat := by
  obtain ⟨hx, hy⟩ := mem_coordinates_iff.mp hc
  have hlt : (m.positionOf c).toNat < _ := toNat_position hsize hx hy
  have hrow : (c.2.toNat + 1) * m.xExtent.toNat ≤ m.yExtent.toNat * m.xExtent.toNat :=
    Nat.mul_le_mul_right _ hy
  rw [Nat.mul_comm m.yExtent.toNat, Nat.add_mul, Nat.one_mul] at hrow
  refine ⟨?_, hlt⟩
  unfold positionOf position
  rw [UInt64.toNat_add, UInt64.toNat_mul, Nat.mod_eq_of_lt (a := c.2.toNat * _) (by omega),
    Nat.mod_eq_of_lt (by omega)]

theorem positionOf_lt (hc : c ∈ m.coordinates) : m.positionOf c < m.size := by
  rw [UInt64.lt_iff_toNat_lt, toNat_size hsize]
  exact (toNat_positionOf hsize hc).2

/-- Every position below the number of cells is that of a cell. -/
theorem coordinatesAt_mem (hk : k < m.size) : m.coordinatesAt k ∈ m.coordinates := by
  rw [UInt64.lt_iff_toNat_lt, toNat_size hsize] at hk
  have hpos : 0 < m.xExtent.toNat :=
    Nat.pos_of_ne_zero fun h0 => by simp [h0] at hk
  rw [mem_coordinates_iff, coordinatesAt, UInt64.toNat_mod, UInt64.toNat_div]
  exact ⟨Nat.mod_lt _ hpos, Nat.div_lt_of_lt_mul hk⟩

/-- A cell is found again from its position. -/
theorem coordinatesAt_positionOf (hc : c ∈ m.coordinates) :
    m.coordinatesAt (m.positionOf c) = c := by
  have hexact := (toNat_positionOf hsize hc).1
  obtain ⟨hx, -⟩ := mem_coordinates_iff.mp hc
  refine Prod.ext (UInt64.toNat_inj.mp ?_) (UInt64.toNat_inj.mp ?_)
  · rw [coordinatesAt, UInt64.toNat_mod, hexact, Nat.mul_add_mod_self_right, Nat.mod_eq_of_lt hx]
  · rw [coordinatesAt, UInt64.toNat_div, hexact, Nat.add_comm, Nat.add_mul_div_right _ _ (by omega),
      Nat.div_eq_of_lt hx, Nat.zero_add]

/-- And a position from its cell. -/
theorem positionOf_coordinatesAt (hk : k < m.size) : m.positionOf (m.coordinatesAt k) = k := by
  refine UInt64.toNat_inj.mp ?_
  rw [(toNat_positionOf hsize (coordinatesAt_mem hsize hk)).1, coordinatesAt, UInt64.toNat_mod,
    UInt64.toNat_div]
  exact Nat.div_add_mod' _ _

theorem invOn_positionOf :
    Set.InvOn m.coordinatesAt m.positionOf m.coordinates {k | k < m.size} :=
  ⟨fun _ hc => coordinatesAt_positionOf hsize hc, fun _ hk => positionOf_coordinatesAt hsize hk⟩

/-- **The cells and the positions below their number are the same, one for one.** -/
theorem bijOn_positionOf : Set.BijOn m.positionOf m.coordinates {k | k < m.size} :=
  (invOn_positionOf hsize).bijOn (fun _ hc => positionOf_lt hsize hc)
    fun _ hk => coordinatesAt_mem hsize hk

end Positions

/-! ## 2. Which accesses there are -/

/-- What is wrong with coordinates that are of no cell: the column, or else the row. -/
def outside (m : Matrix τ) (c : UInt64 × UInt64) : Violation :=
  if m.xExtent ≤ c.1 then .outOfBounds c.1.toInt64 m.xExtent
  else .outOfBounds c.2.toInt64 m.yExtent

theorem locate_of_mem (hne : m.base ≠ 0) (hc : c ∈ m.coordinates) :
    m.locate c.1 c.2 = .ok (m.addressOf c) := by
  obtain ⟨hx, hy⟩ := hc
  unfold locate isNull
  rw [if_neg (by simpa using hne), if_neg (UInt64.not_le.mpr hx), if_neg (UInt64.not_le.mpr hy)]
  rfl

theorem locate_of_not_mem (hne : m.base ≠ 0) (hc : c ∉ m.coordinates) :
    m.locate c.1 c.2 = .error (m.outside c) := by
  unfold locate isNull outside
  rw [if_neg (by simpa using hne)]
  by_cases hx : m.xExtent ≤ c.1
  · rw [if_pos hx, if_pos hx]
  · have hy : m.yExtent ≤ c.2 := UInt64.not_lt.mp fun hy => hc ⟨UInt64.not_le.mp hx, hy⟩
    rw [if_neg hx, if_neg hx, if_pos hy]

/-! ## 3. What accesses do -/

/-- The values of the cells, row by row. -/
def cells (m : Matrix τ) (w : World) : List τ.Carrier := w.elements τ m.base m.size.toNat

/-- Accesses to the flat array at the position of a cell are the accesses to the cell. -/
structure Flat (m : Matrix τ) (c : UInt64 × UInt64) : Prop where
  locate : ArrayLike.locate m.toArrayPtr (m.positionOf c).toInt64 = m.locate c.1 c.2
  index : ArrayLike.index m.toArrayPtr (m.positionOf c).toInt64 = m.index c.1 c.2
  get? : ArrayLike.get? m.toArrayPtr (m.positionOf c).toInt64 = m.get? c.1 c.2
  set : ∀ v, ArrayLike.set m.toArrayPtr (m.positionOf c).toInt64 v = m.set c.1 c.2 v
  trySet : ∀ v, ArrayLike.trySet m.toArrayPtr (m.positionOf c).toInt64 v = m.trySet c.1 c.2 v

/-- Every access to the cell at coordinates `c` succeeds, and is to one element of the flat list. -/
structure Accesses (m : Matrix τ) (w : World) (c : UInt64 × UInt64) : Prop where
  read : ∃ v, (m.cells w)[(m.positionOf c).toNat]? = some v ∧
    outcome (m.index c.1 c.2) w = (.ok v, w) ∧ outcome (m.get? c.1 c.2) w = (.ok (some v), w)
  /-- A write changes that element and no byte of any other cell. -/
  write : ∀ v, ∃ w', outcome (m.set c.1 c.2 v) w = (.ok (), w') ∧
    outcome (m.trySet c.1 c.2 v) w = (.ok true, w') ∧
    World.Assigned τ (m.addressOf c) v w w' ∧
    m.cells w' = (m.cells w).set (m.positionOf c).toNat v ∧
    outcome (m.index c.1 c.2) w' = (.ok v, w') ∧
    ∀ d ∈ m.coordinates, d ≠ c → ∀ u, outcome (m.index d.1 d.2) w = (.ok u, w) →
      outcome (m.index d.1 d.2) w' = (.ok u, w')
  /-- An access to the flat array there is the same access, as far as an index can say where. -/
  flat : (m.positionOf c).toNat < 2 ^ 63 → m.Flat c

/-- Every access at coordinates `c` is refused, with a trap or with nothing, and changes nothing. -/
structure Refuses (m : Matrix τ) (w : World) (c : UInt64 × UInt64) : Prop where
  index : outcome (m.index c.1 c.2) w = (.error (.violation (m.outside c)), w)
  get? : outcome (m.get? c.1 c.2) w = (.ok none, w)
  set : ∀ v, outcome (m.set c.1 c.2 v) w = (.error (.violation (m.outside c)), w)
  trySet : ∀ v, outcome (m.trySet c.1 c.2 v) w = (.ok false, w)

/-- The matrix is its flat array, row by row. -/
structure RowMajor (m : Matrix τ) (w : World) : Prop where
  size : m.size.toNat = m.xExtent.toNat * m.yExtent.toNat
  position : ∀ c ∈ m.coordinates,
    (m.positionOf c).toNat = c.2.toNat * m.xExtent.toNat + c.1.toNat
  bijOn : Set.BijOn m.positionOf m.coordinates {k | k < m.size}
  invOn : Set.InvOn m.coordinatesAt m.positionOf m.coordinates {k | k < m.size}
  /-- No two cells share a byte. -/
  apart : ∀ c ∈ m.coordinates, ∀ d ∈ m.coordinates, c ≠ d →
    (m.addressOf c).toNat + τ.layout.size ≤ (m.addressOf d).toNat ∨
      (m.addressOf d).toNat + τ.layout.size ≤ (m.addressOf c).toNat
  list : outcome (ArrayLike.toList m.toArrayPtr) w = (.ok (m.cells w), w)
  accesses : ∀ c ∈ m.coordinates, m.Accesses w c
  refuses : ∀ c ∉ m.coordinates, m.Refuses w c

theorem index_of_locate {x y : UInt64} {a : Address} (hl : m.locate x y = .ok a) :
    m.index x y = loadValue τ a := by
  unfold index
  rw [hl]
  exact pure_bind a _

theorem get?_of_locate {x y : UInt64} {a : Address} (hl : m.locate x y = .ok a) :
    m.get? x y = (do return some (← loadValue τ a)) := by
  unfold get?
  rw [hl]
  exact map_eq_pure_bind some _

theorem set_of_locate {x y : UInt64} {a : Address} (hl : m.locate x y = .ok a) (v : τ.Carrier) :
    m.set x y v = assign τ a v := by
  unfold set
  rw [hl]
  exact pure_bind a _

theorem trySet_of_locate {x y : UInt64} {a : Address} (hl : m.locate x y = .ok a) (v : τ.Carrier) :
    m.trySet x y v = (do assign τ a v; return true) := by
  unfold trySet
  rw [hl]

theorem refuses_of_not_mem (hne : m.base ≠ 0) (hc : c ∉ m.coordinates) : m.Refuses w c := by
  have hl := locate_of_not_mem hne hc
  refine ⟨?_, ?_, fun v => ?_, fun v => ?_⟩
  · unfold index
    rw [hl]
    rfl
  · unfold get?
    rw [hl]
    rfl
  · unfold set
    rw [hl]
    rfl
  · unfold trySet
    rw [hl]
    rfl

theorem flat_of_mem (hsize : m.xExtent.toNat * m.yExtent.toNat < 2 ^ 64) (hne : m.base ≠ 0)
    (hc : c ∈ m.coordinates) (hindex : (m.positionOf c).toNat < 2 ^ 63) : m.Flat c := by
  have hl := locate_of_mem hne hc
  have hlt := UInt64.lt_iff_toNat_lt.mp (positionOf_lt hsize hc)
  have hl' : ArrayLike.locate m.toArrayPtr (m.positionOf c).toInt64 = .ok (m.addressOf c) :=
    ArrayPtr.locate_ofBase hne hlt hindex
  refine ⟨hl'.trans hl.symm, ?_, ?_, fun v => ?_, fun v => ?_⟩
  · rw [index_of_locate hl, ArrayLike.index_of_locate hl']
  · rw [get?_of_locate hl, ArrayLike.get?_of_locate hl']
  · rw [set_of_locate hl, ArrayLike.set_of_locate hl']
  · rw [trySet_of_locate hl, ArrayLike.trySet_of_locate hl']

theorem Held.holds (hm : m.Held past w) : w.Holds past τ m.base m.size.toNat := by
  rw [toNat_size hm.1]
  exact hm.2

section Held

variable (h : w.Sound past) (hm : m.Held past w) (hne : m.base ≠ 0)

include h hm

/-- The address of a cell is exact. -/
theorem toNat_addressOf (hc : c ∈ m.coordinates) :
    (m.addressOf c).toNat = m.base.toNat + (m.positionOf c).toNat * τ.layout.size :=
  hm.2.toNat_element h (Nat.le_of_lt (toNat_positionOf hm.1 hc).2)

/-- Cells at other coordinates are elsewhere. -/
theorem addressOf_apart (hc : c ∈ m.coordinates) (hd : d ∈ m.coordinates) (hcd : c ≠ d) :
    (m.addressOf c).toNat + τ.layout.size ≤ (m.addressOf d).toNat ∨
      (m.addressOf d).toNat + τ.layout.size ≤ (m.addressOf c).toNat := by
  have hpos : (m.positionOf c).toNat ≠ (m.positionOf d).toNat := fun he =>
    hcd ((bijOn_positionOf hm.1).injOn hc hd (UInt64.toNat_inj.mp he))
  rw [toNat_addressOf h hm hc, toNat_addressOf h hm hd]
  rcases Nat.lt_or_gt_of_ne hpos with hlt | hgt
  · have := τ.mul_size_add_le hlt
    exact .inl (by omega)
  · have := τ.mul_size_add_le hgt
    exact .inr (by omega)

include hne

theorem outcome_index (hc : c ∈ m.coordinates) : ∃ v,
    (m.cells w)[(m.positionOf c).toNat]? = some v ∧ outcome (m.index c.1 c.2) w = (.ok v, w) ∧
      outcome (m.get? c.1 c.2) w = (.ok (some v), w) := by
  have hlt := UInt64.lt_iff_toNat_lt.mp (positionOf_lt hm.1 hc)
  have hl := locate_of_mem hne hc
  obtain ⟨v, hload, hv⟩ := (hm.holds).outcome_element h hlt
  rw [index_of_locate hl, get?_of_locate hl]
  refine ⟨v, hv, hload, ?_⟩
  rw [addressOf, outcome_bind_ok _ hload]
  rfl

theorem accesses_of_mem (hc : c ∈ m.coordinates) : m.Accesses w c where
  read := outcome_index h hm hne hc
  write v := by
    have hlt := UInt64.lt_iff_toNat_lt.mp (positionOf_lt hm.1 hc)
    have hheld := hm.holds
    have hcell : w.Holds past τ (m.addressOf c) 1 := hheld.drop h (by omega)
    have hl := locate_of_mem hne hc
    obtain ⟨w', ho, hw, hf⟩ := hcell.assigned h v
    have hcells := hw.elements h hheld m.size.toNat_lt hlt
    have hm' : m.Held (w'.heap.blocks ++ past) w' :=
      ⟨hm.1, hm.2.mono (hf.extends h)⟩
    refine ⟨w', ?_, ?_, hw, hcells, ?_, fun d hd hne' u hu => ?_⟩
    · rw [set_of_locate hl, ho]
    · rw [trySet_of_locate hl, outcome_bind_ok _ ho]
      rfl
    · rw [index_of_locate hl]
      exact hw.outcome_loadValue h hcell
    · obtain ⟨u₀, hu₀, hread, -⟩ := outcome_index h hm hne hd
      obtain ⟨u₁, hu₁, hread', -⟩ := outcome_index hf.sound hm' hne hd
      have hpos : (m.positionOf c).toNat ≠ (m.positionOf d).toNat := fun he =>
        hne' ((bijOn_positionOf hm.1).injOn hd hc (UInt64.toNat_inj.mp he.symm))
      change (w'.elements τ m.base m.size.toNat)[_]? = _ at hu₁
      rw [hcells, List.getElem?_set_ne hpos] at hu₁
      rw [hread] at hu
      cases hu
      rw [hread', Option.some.inj (hu₁.symm.trans hu₀)]
  flat := flat_of_mem hm.1 hne hc

/-- **A matrix whose cells are held is its flat array, row by row.** -/
theorem rowMajor_of_held : m.RowMajor w where
  size := toNat_size hm.1
  position _ hc := (toNat_positionOf hm.1 hc).1
  bijOn := bijOn_positionOf hm.1
  invOn := invOn_positionOf hm.1
  apart _ hc _ hd := addressOf_apart h hm hc hd
  list := ArrayPtr.outcome_toList_ofBase h (hm.holds) hne
  accesses _ hc := accesses_of_mem h hm hne hc
  refuses _ hc := refuses_of_not_mem hne hc

end Held

/-! ## 4. Making a matrix -/

/-- How the making of a matrix ends: there are no cells, or more than a word can count, or more
bytes than any layout has, or no room is left; or there is a matrix.  Only the last changes the
state. -/
structure Decides (τ : ElemType) (x y : UInt64) (w : World) : Prop where
  empty : x = 0 ∨ y = 0 → outcome (new τ x y) w = (.error (.emptyMatrix x y), w)
  overflowing : x ≠ 0 → y ≠ 0 → 2 ^ 64 ≤ x.toNat * y.toNat →
    outcome (new τ x y) w = (.error (.violation (tooLarge τ (-1))), w)
  oversized : x.toNat * y.toNat < 2 ^ 64 →
    Layout.maxSize < x.toNat * y.toNat * τ.layout.size →
      outcome (new τ x y) w = (.error (.violation (tooLarge τ (x * y))), w)
  full : x ≠ 0 → y ≠ 0 → x.toNat * y.toNat < 2 ^ 64 →
    x.toNat * y.toNat * τ.layout.size ≤ Layout.maxSize → ¬w.Admits τ (x * y) →
      outcome (new τ x y) w = (.error .exhausted, w)
  made : x ≠ 0 → y ≠ 0 → x.toNat * y.toNat < 2 ^ 64 → w.Admits τ (x * y) →
    ∃ m w', outcome (new τ x y) w = (.ok m, w')

section New

variable {x y : UInt64}

theorem new_of_ne_zero (hx : x ≠ 0) (hy : y ≠ 0) : new τ x y =
    match Word.mul? x y with
    | none => stop (tooLarge τ (-1))
    | some count => do
      let cells ← ArrayPtr.new τ count false
      return ⟨cells.span.base, x, y⟩ := by
  unfold new
  refine (if_neg (not_or.mpr ⟨hx, hy⟩)).trans ?_
  rfl

/-- With a number of cells that the word can hold, a matrix is its array of cells. -/
theorem new_of_lt (hx : x ≠ 0) (hy : y ≠ 0) (hsize : x.toNat * y.toNat < 2 ^ 64) : new τ x y = do
    let cells ← ArrayPtr.newAt τ (x * y) τ.align false
    return ⟨cells.span.base, x, y⟩ := by
  rw [new_of_ne_zero hx hy, Word.mul?, if_pos hsize]
  rfl

theorem outcome_new_of_fits {l : Layout} (hx : x ≠ 0) (hy : y ≠ 0)
    (hsize : x.toNat * y.toNat < 2 ^ 64)
    (hl : Reservation.layout? τ (x * y) τ.align = some l) (hfit : w.grantEnd l ≤ World.heapEnd) :
    outcome (new τ x y) w =
      (.ok ⟨(w.arrayBlock τ (x * y) τ.align false l).payload, x, y⟩,
        w.withArray τ (x * y) τ.align false l) := by
  rw [new_of_lt hx hy hsize, outcome_bind_ok _ (ArrayPtr.outcome_newAt false hl hfit)]
  rfl

theorem decides_new (τ : ElemType) (x y : UInt64) (w : World) : Decides τ x y w where
  empty hzero := by
    unfold new
    rw [if_pos hzero]
    rfl
  overflowing hx hy hsize := by
    rw [new_of_ne_zero hx hy, Word.mul?, if_neg (Nat.not_lt.mpr hsize)]
    rfl
  oversized hsize hlarge := by
    have hx : x ≠ 0 := by
      rintro rfl
      simp at hlarge
    have hy : y ≠ 0 := by
      rintro rfl
      simp at hlarge
    have hnone : Reservation.layout? τ (x * y) τ.align = none := by
      rw [Reservation.layout?_natural, if_neg]
      rw [ElemType.arrayLayout, UInt64.toNat_mul, Nat.mod_eq_of_lt hsize]
      exact Nat.not_le.mpr hlarge
    rw [new_of_lt hx hy hsize]
    exact outcome_bind_error _ (ArrayPtr.outcome_newAt_of_none false hnone)
  full hx hy hsize hlayout hfull := by
    have hsome : Reservation.layout? τ (x * y) τ.align = some (τ.arrayLayout (x * y)) := by
      rw [Reservation.layout?_natural, if_pos]
      rw [ElemType.arrayLayout, UInt64.toNat_mul, Nat.mod_eq_of_lt hsize]
      exact hlayout
    rw [new_of_lt hx hy hsize]
    exact outcome_bind_error _ (ArrayPtr.outcome_newAt_of_full false hsome hfull)
  made hx hy hsize hroom := by
    obtain ⟨l, hl, hfit⟩ := World.admits_iff.mp hroom
    exact ⟨_, _, outcome_new_of_fits hx hy hsize hl hfit⟩

/-- What a matrix was made of, if one was. -/
theorem exists_of_outcome_new (ho : outcome (new τ x y) w = (.ok m, w')) :
    x.toNat * y.toNat < 2 ^ 64 ∧ ∃ l, Reservation.layout? τ (x * y) τ.align = some l ∧
      w.grantEnd l ≤ World.heapEnd ∧
      m = ⟨(w.arrayBlock τ (x * y) τ.align false l).payload, x, y⟩ ∧
      w' = w.withArray τ (x * y) τ.align false l := by
  have hd := decides_new τ x y w
  by_cases hzero : x = 0 ∨ y = 0
  · rw [hd.empty hzero] at ho
    cases ho
  · obtain ⟨hx, hy⟩ := not_or.mp hzero
    by_cases hsize : x.toNat * y.toNat < 2 ^ 64
    · refine ⟨hsize, ?_⟩
      by_cases hlayout : x.toNat * y.toNat * τ.layout.size ≤ Layout.maxSize
      · by_cases hroom : w.Admits τ (x * y)
        · obtain ⟨l, hl, hfit⟩ := World.admits_iff.mp hroom
          rw [outcome_new_of_fits hx hy hsize hl hfit] at ho
          cases ho
          exact ⟨l, hl, hfit, rfl, rfl⟩
        · rw [hd.full hx hy hsize hlayout hroom] at ho
          cases ho
      · rw [hd.oversized hsize (Nat.not_le.mp hlayout)] at ho
        cases ho
    · rw [hd.overflowing hx hy (Nat.not_lt.mp hsize)] at ho
      cases ho

end New

end Matrix

/-! ## 5. In a program -/

namespace Program

variable {δ : Discipline} {s t : Program} {x y : UInt64}

/-- A block of elements holds a matrix of as many cells, in every later state. -/
theorem Leads.rowMajor {b : Block} (hs : Sound δ s) (hb : b ∈ s.past)
    (hstored : b.stored = .elements τ) (hcount : b.count.toNat = x.toNat * y.toNat)
    (hl : Leads δ s t) :
    (⟨b.payload, x, y⟩ : Matrix τ).RowMajor t.world := by
  have ht := (hl.sound hs).world
  have hmem := hl.mem_past hs hb
  have hheld := World.Holds.of_elements ht hmem hstored
  rw [hcount] at hheld
  exact Matrix.rowMajor_of_held ht ⟨hcount ▸ b.count.toNat_lt, hheld⟩
    (ht.payload_ne_zero hmem)

/-- **A matrix is made exactly if it has cells, as many as a word can count and memory has room for,
and it is row-major from then on**: in every state that the program comes to, its cells are the
elements of its flat array, one for one and row by row, and so are the accesses to them. -/
theorem matrix_rowMajor (hs : Reachable δ s) (τ : ElemType) (x y : UInt64) :
    Matrix.Decides τ x y s.world ∧
      ∀ m w', outcome (Matrix.new τ x y) s.world = (.ok m, w') →
        m.xExtent = x ∧ m.yExtent = y ∧ w'.heap.isLive m.base = true ∧
        m.cells w' = List.replicate (x.toNat * y.toNat) τ.default ∧
        ∀ t, Leads δ (s.run (giving (.matrix τ) (Matrix.new τ x y))) t → m.RowMajor t.world := by
  refine ⟨Matrix.decides_new τ x y s.world, fun m w' ho => ?_⟩
  obtain ⟨hsize, l, hl, hfit, rfl, rfl⟩ := Matrix.exists_of_outcome_new ho
  have hcount : (x * y).toNat = x.toNat * y.toNat := by
    rw [UInt64.toNat_mul, Nat.mod_eq_of_lt hsize]
  have hmem := s.world.mem_withBlock l (s.world.arrayBlock τ (x * y) τ.align false l)
    (τ.replicate (x * y) τ.default)
  refine ⟨rfl, rfl, HeapTable.isLive_iff.mpr ⟨_, hmem, rfl⟩, ?_, fun t ht => ?_⟩
  · rw [← hcount]
    exact s.world.elements_withArray τ (x * y) τ.align false l
  · have hrun := Reachable.sound (hs.tail (.act (.make (.block (.matrix τ x y)))))
    refine Leads.rowMajor hrun ?_ rfl hcount ht
    rw [past_run, world_run_giving, ho]
    exact List.mem_append_left _ hmem

/-- A matrix of three columns and two rows. -/
def threeByTwo : Matrix .uint32 := ⟨0x400000000000, 3, 2⟩

/-- The program that made it. -/
def tabled : Program := initial.run (giving (.matrix .uint32) (Matrix.new .uint32 3 2))

theorem matrix_rowMajor_three_by_two :
    Reachable .scoped initial ∧
      outcome (Matrix.new .uint32 3 2) initial.world = (.ok threeByTwo, tabled.world) ∧
      Leads .scoped tabled tabled ∧ threeByTwo.RowMajor tabled.world ∧
      (2, 1) ∈ threeByTwo.coordinates ∧ threeByTwo.positionOf (2, 1) = 5 ∧
      (3, 0) ∉ threeByTwo.coordinates := by
  have hs : Reachable .scoped initial := .refl
  have ho : outcome (Matrix.new .uint32 3 2) initial.world = (.ok threeByTwo, tabled.world) := by
    rfl
  obtain ⟨-, -, -, -, hrow⟩ := (matrix_rowMajor hs .uint32 3 2).2 threeByTwo _ ho
  exact ⟨hs, ho, .refl, hrow tabled .refl, ⟨by decide, by decide⟩, by decide,
    fun hc => absurd hc.1 (by decide)⟩

end Program

end CheckedMemory
