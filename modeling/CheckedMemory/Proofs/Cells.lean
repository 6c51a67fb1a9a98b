import CheckedMemory.Proofs.Access
import CheckedMemory.Proofs.Patches

/-!
# Memory cell by cell

A read gives the cells of a range as one list.  Here that list is taken apart: a part of the range
has the same part of the list (`Memory.cells_slice`), and each place of the list has the cell at its
address (`Memory.getElem?_cells`).  A write is then said once for all reads: at the addresses that
it covers are its own cells, at every other address the cell that was there (`Memory.cell?_write?`).

The values of an array are read through the same list (`World.elements`), all of them at once or
each by itself.
-/

namespace CheckedMemory

open Operation

/-! ## 1. Parts of a range -/

/-- One of the `n` addresses from `a` on. -/
def Word.Among (b a : Address) (n : Nat) : Prop := a.toNat ≤ b.toNat ∧ b.toNat < a.toNat + n

instance (b a : Address) (n : Nat) : Decidable (Word.Among b a n) :=
  inferInstanceAs (Decidable (_ ∧ _))

namespace Memory

variable {m m' : Memory} {a b : Address} {n k i : Nat} {cs : Runs Cell}

@[simp] theorem cells_zero (m : Memory) (a : Address) : m.cells a 0 = [] := rfl

/-- A range that is mapped has as many cells as it is long. -/
theorem length_cells (hm : m.isMapped a n = true) : (m.cells a n).length = n := by
  obtain ⟨cs, hcs⟩ := exists_read?_of_isMapped hm
  rw [cells_eq hcs, Runs.length_toList, length_of_read? hcs]

/-- One that is not reads as nothing. -/
theorem cells_of_not_isMapped (hm : ¬m.isMapped a n = true) : m.cells a n = [] := by
  rw [← isSome_read?, Bool.not_eq_true, Option.isSome_eq_false_iff, Option.isNone_iff_eq_none] at hm
  rw [cells, hm]
  rfl

/-- What is mapped depends on the plots alone. -/
theorem isMapped_congr (hplots : m'.plots = m.plots) (a : Address) (n : Nat) :
    m'.isMapped a n = m.isMapped a n := by
  by_cases hn : n = 0
  · simp [isMapped, hn]
  · rw [Bool.eq_iff_iff, isMapped_iff hn, isMapped_iff hn, hplots]

/-- A part of a range that is mapped is mapped. -/
theorem isMapped_slice (hm : m.isMapped a n = true) (hb : b.toNat = a.toNat + i)
    (hle : i + k ≤ n) : m.isMapped b k = true := by
  by_cases hk : k = 0
  · simp [isMapped, hk]
  · obtain ⟨q, hq, hlo, hhi⟩ := (isMapped_iff (by omega)).mp hm
    exact isMapped_of_covers hq ⟨by omega, by omega⟩

/-- A read of a part of a range gives that part of what a read of the range gives. -/
theorem cells_slice (hap : m.plots.Pairwise Plot.Apart) (hm : m.isMapped a n = true)
    (hb : b.toNat = a.toNat + i) (hle : i + k ≤ n) :
    m.cells b k = ((m.cells a n).drop i).take k := by
  by_cases hk : k = 0
  · simp [hk]
  · obtain ⟨q, hq, hlo, hhi⟩ := (isMapped_iff (by omega)).mp hm
    obtain ⟨r, hr, rfl⟩ := List.mem_map.mp hq
    have hwhole : r.covers a n = true := Area.covers_iff.mpr ⟨hlo, hhi⟩
    have hpart : r.covers b k = true := Area.covers_iff.mpr ⟨by omega, by omega⟩
    have hbase := (Area.le_of_covers hwhole).1
    rw [cells_of_covers hap hr hwhole, cells_of_covers hap hr hpart, List.drop_take,
      List.drop_drop, List.take_take, hb, Nat.min_eq_left (by omega), Nat.sub_add_comm hbase]

/-- A range that is mapped does not wrap, if no area does. -/
theorem add_lt_of_isMapped (hend : ∀ q ∈ m.plots, q.stop < 2 ^ 64) (hm : m.isMapped a n = true) :
    a.toNat + n < 2 ^ 64 := by
  by_cases hn : n = 0
  · rw [hn]
    exact a.toNat_lt
  · obtain ⟨q, hq, hc⟩ := (isMapped_iff hn).mp hm
    exact Nat.lt_of_le_of_lt hc.2 (hend q hq)

/-- The cell at an address, if there is storage. -/
def cell? (m : Memory) (a : Address) : Option Cell := (m.cells a 1).head?

/-- Each place of what a read gives has the cell at its address. -/
theorem getElem?_cells (hap : m.plots.Pairwise Plot.Apart) (hm : m.isMapped a n = true)
    (hb : b.toNat = a.toNat + i) (hi : i < n) : (m.cells a n)[i]? = m.cell? b := by
  rw [cell?, cells_slice hap hm hb hi, List.head?_take, if_neg Nat.one_ne_zero, List.head?_drop]

/-- A read is known from the cells at its addresses. -/
theorem cells_ext (hap : m.plots.Pairwise Plot.Apart) (hend : ∀ q ∈ m.plots, q.stop < 2 ^ 64)
    (hplots : m'.plots = m.plots)
    (h : ∀ b : Address, Word.Among b a n → m'.cell? b = m.cell? b) :
    m'.cells a n = m.cells a n := by
  have hsame := isMapped_congr hplots a n
  by_cases hm : m.isMapped a n = true
  · have hm' := hsame.trans hm
    refine List.ext_getElem? fun i => ?_
    by_cases hi : i < n
    · have hlt := add_lt_of_isMapped hend hm
      have hb : (a + UInt64.ofNat i).toNat = a.toNat + i := Word.toNat_add_ofNat (by omega)
      rw [getElem?_cells (hplots ▸ hap) hm' hb hi, getElem?_cells hap hm hb hi]
      exact h _ ⟨by omega, by omega⟩
    · rw [List.getElem?_eq_none (by rw [length_cells hm']; omega),
        List.getElem?_eq_none (by rw [length_cells hm]; omega)]
  · rw [cells_of_not_isMapped hm, cells_of_not_isMapped (by rwa [hsame])]

/-- **After a write, the addresses that it covers have its cells, and every other its own.** -/
theorem cell?_write? (hap : m.plots.Pairwise Plot.Apart) (hw : m.write? a cs = some m')
    (b : Address) : m'.cell? b =
      if Word.Among b a cs.length then cs.toList[b.toNat - a.toNat]? else m.cell? b := by
  split
  · rename_i hin
    obtain ⟨hlo, hhi⟩ := hin
    have hm : m'.isMapped a cs.length = true := by
      rw [isMapped_write? hw, ← isSome_write?, hw]
      rfl
    rw [← plots_write? hw] at hap
    rw [← cells_write?_same hw, getElem?_cells hap hm (b := b) (by omega) (by omega)]
  · rename_i hout
    rw [cell?, cell?, cells_write?_of_disjoint hw (by unfold Word.Among at hout; omega)]

end Memory

/-! ## 2. Consecutive values -/

namespace ElemType

@[simp] theorem length_decodeAll (τ : ElemType) (n : Nat) (cs : List Cell) :
    (τ.decodeAll n cs).length = n := by
  have h := τ.length_valuesIn n cs
  rwa [valuesIn, List.length_map] at h

/-- Each of some consecutive values is in its own cells. -/
theorem getElem?_decodeAll (τ : ElemType) {n k : Nat} (cs : List Cell) (hk : k < n) :
    (τ.decodeAll n cs)[k]? =
      some (τ.decode ((cs.drop (k * τ.layout.size)).take τ.layout.size)) := by
  induction n generalizing k cs with
  | zero => exact absurd hk (Nat.not_lt_zero k)
  | succ n ih =>
    rw [decodeAll_succ]
    cases k with
    | zero => simp
    | succ k =>
      rw [List.getElem?_cons_succ, ih _ (Nat.lt_of_succ_lt_succ hk), List.drop_drop, Nat.succ_mul,
        Nat.add_comm]

end ElemType

/-- The address of element `i` of those from `a` on. -/
def ElemType.elementAt (τ : ElemType) (a : Address) (i : Nat) : Address :=
  a + UInt64.ofNat i * τ.size

/-- The address of an element that is there is exact. -/
theorem Memory.toNat_elementAt {m : Memory} {τ : ElemType} {a : Address} {n i : Nat}
    (hend : ∀ q ∈ m.plots, q.stop < 2 ^ 64) (hm : m.isMapped a (n * τ.layout.size) = true)
    (hn : n < 2 ^ 64) (hi : i < n) :
    (τ.elementAt a i).toNat = a.toNat + i * τ.layout.size := by
  have hword : (UInt64.ofNat i).toNat = i := Word.toNat_ofNat (by omega)
  have hle := τ.mul_size_add_le hi
  have hlt := add_lt_of_isMapped hend hm
  unfold ElemType.elementAt
  rw [UInt64.toNat_add, UInt64.toNat_mul, hword, τ.toNat_size,
    Nat.mod_eq_of_lt (a := i * _) (by omega), Nat.mod_eq_of_lt (by omega)]

/-- The values of a type that `n` elements from `a` on hold, in order. -/
def World.elements (w : World) (τ : ElemType) (a : Address) (n : Nat) : List τ.Carrier :=
  τ.decodeAll n (w.memory.cells a (n * τ.layout.size))

@[simp] theorem World.length_elements (w : World) (τ : ElemType) (a : Address) (n : Nat) :
    (w.elements τ a n).length = n :=
  τ.length_decodeAll n _

/-- Each value is the one at the address of its element. -/
theorem World.elements_eq_map {w : World} {τ : ElemType} {a : Address} {n : Nat}
    (hap : w.memory.plots.Pairwise Plot.Apart) (hend : ∀ q ∈ w.memory.plots, q.stop < 2 ^ 64)
    (hm : w.memory.isMapped a (n * τ.layout.size) = true) (hn : n < 2 ^ 64) :
    w.elements τ a n = (List.range n).map fun i =>
      τ.decode (w.memory.cells (τ.elementAt a i) τ.layout.size) := by
  refine List.ext_getElem? fun i => ?_
  by_cases hi : i < n
  · have haddr := Memory.toNat_elementAt hend hm hn hi
    rw [elements, τ.getElem?_decodeAll _ hi,
      ← Memory.cells_slice hap hm haddr (τ.mul_size_add_le hi), List.getElem?_map,
      List.getElem?_range hi, Option.map_some]
  · rw [List.getElem?_eq_none (by simpa using hi), List.getElem?_eq_none (by simpa using hi)]

/-- A read of a value where there is storage succeeds and changes nothing. -/
theorem Operation.outcome_loadValue {w : World} {τ : ElemType} {a : Address}
    (hm : w.memory.isMapped a τ.layout.size = true) : outcome (loadValue τ a) w =
      (.ok (τ.decode (w.memory.cells a τ.layout.size)), w) := by
  obtain ⟨cs, hcs⟩ := Memory.exists_read?_of_isMapped hm
  unfold loadValue
  rw [outcome_bind_ok _ (outcome_load hcs), Memory.cells_eq hcs]
  rfl

namespace World.Holds

variable {past : List Block} {w : World} {τ : ElemType} {a : Address} {n : Nat}

theorem isMapped (h : w.Sound past) (ha : w.Holds past τ a n) :
    w.memory.isMapped a (n * τ.layout.size) = true :=
  (mapped h).mapped ha

/-- **All of the values at once**: a read of them succeeds and changes nothing. -/
theorem outcome_loadValues (h : w.Sound past) (ha : w.Holds past τ a n) :
    ∃ xs, outcome (loadValues τ a n) w = (.ok xs, w) ∧ xs.toList = w.elements τ a n := by
  obtain ⟨cs, hcs⟩ := ha.exists_read? h
  refine ⟨τ.decodeRuns n cs, ?_, ?_⟩
  · unfold loadValues
    rw [outcome_bind_ok _ (outcome_load hcs)]
    rfl
  · rw [ElemType.toList_decodeRuns τ (Memory.length_of_read? hcs), elements, Memory.cells_eq hcs]

/-- **Each of them by itself** gives the same. -/
theorem outcome_element (h : w.Sound past) (ha : w.Holds past τ a n) {k : UInt64}
    (hk : k.toNat < n) : ∃ x, outcome (loadValue τ (a + k * τ.size)) w = (.ok x, w) ∧
      (w.elements τ a n)[k.toNat]? = some x := by
  have haddr := ha.toNat_element h (i := k) (by omega)
  obtain ⟨cs, hcs, ho⟩ := (ha.drop h (i := k) (m := 1) (by omega)).outcome_loadValue h
  refine ⟨_, ho, ?_⟩
  rw [elements, τ.getElem?_decodeAll _ hk,
    ← Memory.cells_slice h.apart (ha.isMapped h) haddr (τ.mul_size_add_le hk), Memory.cells_eq hcs]

end World.Holds

end CheckedMemory
