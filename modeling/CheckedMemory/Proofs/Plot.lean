import CheckedMemory.Element.Sequence
import CheckedMemory.Memory.Area

/-!
# Where storage lies

An area without its contents is a plot: where it starts and how many cells it has.  Which ranges can
be read and written depends on the plots alone, a write changes none of them, and a new area adds
one.  So facts about where handles point are facts about plots, and survive every write.

Two plots are apart when at least one byte lies between them.  With touching plots the address one
past the first would belong to both, and a handle to no elements there to neither.
-/

namespace CheckedMemory

/-! ## 1. Plots -/

/-- A storage area without its contents. -/
structure Plot where
  base : Address
  length : Nat

namespace Plot

/-- One past the last address. -/
def stop (r : Plot) : Nat := r.base.toNat + r.length

/-- `n` bytes from `a` on lie in the plot. -/
def Covers (r : Plot) (a n : Nat) : Prop := r.base.toNat ≤ a ∧ a + n ≤ r.stop

/-- One plot ends before the other starts, with a byte between. -/
def Apart (r s : Plot) : Prop := r.stop < s.base.toNat ∨ s.stop < r.base.toNat

/-- A range of one plot is disjoint from every range of a plot apart from it. -/
theorem Apart.disjoint {r s : Plot} (h : r.Apart s) {a n b m : Nat} (ha : r.Covers a n)
    (hb : s.Covers b m) : a + n < b ∨ b + m < a := by
  obtain ⟨ha1, ha2⟩ := ha
  obtain ⟨hb1, hb2⟩ := hb
  rcases h with h | h
  · exact .inl (by omega)
  · exact .inr (by omega)

/-- Plots apart from each other that reach a common address are one. -/
theorem eq_of_pairwise {rs : List Plot} (h : rs.Pairwise Apart) {r s : Plot} (hr : r ∈ rs)
    (hs : s ∈ rs) {a n b m : Nat} (ha : r.Covers a n) (hb : s.Covers b m)
    (hmeet : a ≤ b + m ∧ b ≤ a + n) : r = s := by
  induction rs with
  | nil => cases hr
  | cons q qs ih =>
    obtain ⟨hq, hqs⟩ := List.pairwise_cons.mp h
    rcases List.mem_cons.mp hr with rfl | hr'
    · rcases List.mem_cons.mp hs with rfl | hs'
      · rfl
      · have := (hq s hs').disjoint ha hb
        omega
    · rcases List.mem_cons.mp hs with rfl | hs'
      · have := (hq r hr').disjoint hb ha
        omega
      · exact ih hqs hr' hs'

end Plot

/-- The plot of an area. -/
def Area.plot (r : Area) : Plot := ⟨r.base, r.cells.length⟩

theorem Area.covers_iff {r : Area} {a : Address} {n : Nat} :
    r.covers a n = true ↔ r.plot.Covers a.toNat n := by
  simp [covers, plot, Plot.Covers, Plot.stop, UInt64.le_iff_toNat_le]

namespace Memory

variable {m m' : Memory} {a b : Address} {n : Nat} {cs : Runs Cell}

/-- The plots of all areas, newest first. -/
def plots (m : Memory) : List Plot := m.areas.map Area.plot

/-! ## 2. Writes leave the plots alone -/

theorem plots_storeFirst :
    ∀ {rs rs' : List Area}, storeFirst a cs rs = some rs' →
      rs'.map Area.plot = rs.map Area.plot
  | [], _, h => by simp [storeFirst] at h
  | r :: rs, rs', h => by
    simp only [storeFirst] at h
    split at h
    · rename_i hr
      cases h
      simp only [List.map_cons, List.cons.injEq, and_true]
      simp only [Area.plot, Area.length_store hr]
      rfl
    · obtain ⟨rs'', h', rfl⟩ := Option.map_eq_some_iff.mp h
      simp only [List.map_cons, plots_storeFirst h']

theorem plots_write? (h : m.write? a cs = some m') : m'.plots = m.plots := by
  unfold write? at h
  split at h
  · cases h
    rfl
  · obtain ⟨rs', h', rfl⟩ := Option.map_eq_some_iff.mp h
    exact plots_storeFirst h'

/-! ## 3. What can be read and written -/

/-- Cells can be reached exactly where a plot covers them. -/
theorem isMapped_iff (hn : n ≠ 0) :
    m.isMapped a n = true ↔ ∃ r ∈ m.plots, r.Covers a.toNat n := by
  simp only [isMapped, area?, Bool.or_eq_true, beq_iff_eq, hn, false_or, List.find?_isSome,
    plots, List.mem_map]
  constructor
  · rintro ⟨r, hr, hc⟩
    exact ⟨r.plot, ⟨r, hr, rfl⟩, Area.covers_iff.mp hc⟩
  · rintro ⟨q, ⟨r, hr, rfl⟩, hc⟩
    exact ⟨r, hr, Area.covers_iff.mpr hc⟩

theorem isMapped_of_covers {r : Plot} (hr : r ∈ m.plots) (hc : r.Covers a.toNat n) :
    m.isMapped a n = true := by
  by_cases hn : n = 0
  · simp [isMapped, hn]
  · exact (isMapped_iff hn).mpr ⟨r, hr, hc⟩

theorem length_of_read? (h : m.read? a n = some cs) : cs.length = n := by
  unfold read? at h
  split at h
  · rename_i hn
    cases h
    rw [hn]
    rfl
  · obtain ⟨r, hr, rfl⟩ := Option.map_eq_some_iff.mp h
    exact Area.length_load (by simpa using List.find?_some hr)

theorem exists_read?_of_isMapped (h : m.isMapped a n = true) : ∃ cs, m.read? a n = some cs := by
  rw [← isSome_read?] at h
  exact Option.isSome_iff_exists.mp h

theorem exists_write?_of_isMapped (h : m.isMapped a cs.length = true) :
    ∃ m', m.write? a cs = some m' := by
  rw [← isSome_write?] at h
  exact Option.isSome_iff_exists.mp h

theorem exists_read? {r : Plot} (hr : r ∈ m.plots) (hc : r.Covers a.toNat n) :
    ∃ cs, m.read? a n = some cs :=
  exists_read?_of_isMapped (isMapped_of_covers hr hc)

theorem exists_write? {r : Plot} (hr : r ∈ m.plots) (hc : r.Covers a.toNat cs.length) :
    ∃ m', m.write? a cs = some m' :=
  exists_write?_of_isMapped (isMapped_of_covers hr hc)

/-! ## 4. Reads beside a new area -/

/-- A new area that is apart from an old plot leaves every read of that plot as it was. -/
theorem read?_place_of_apart {r : Plot} (hap : Plot.Apart ⟨b, cs.length⟩ r)
    (hc : r.Covers a.toNat n) : (m.place b cs).read? a n = m.read? a n := by
  unfold read?
  split
  · rfl
  · rename_i hn
    have hno : (Area.mk b cs).covers a n = false := by
      rw [Bool.eq_false_iff]
      intro h
      have := hap.disjoint (Area.covers_iff.mp h) hc
      omega
    simp only [area?, place, List.find?_cons, hno]

/-- A read of a new area gives the cells it was placed with. -/
theorem read?_place_same (hn : n ≠ 0) (hc : Plot.Covers ⟨b, cs.length⟩ a.toNat n) :
    ((m.place b cs).read? a n).map Runs.toList =
      some ((cs.toList.drop (a.toNat - b.toNat)).take n) := by
  have hyes : (Area.mk b cs).covers a n = true := Area.covers_iff.mpr hc
  unfold read?
  rw [if_neg hn]
  simp only [area?, place, List.find?_cons, hyes, Option.map_some, Area.load, Runs.toList_take,
    Runs.toList_drop]

/-! ## 5. Words in memory -/

/-- The word at an address. -/
def word? (m : Memory) (a : Address) : Option UInt64 :=
  ((m.read? a 8).map Runs.toList).map (ElemType.decode .uint64)

theorem word?_write?_of_disjoint (h : m.write? a cs = some m')
    (hd : b.toNat + 8 ≤ a.toNat ∨ a.toNat + cs.length ≤ b.toNat) : m'.word? b = m.word? b := by
  unfold word?
  rw [read?_write?_of_disjoint h hd]

theorem word?_place_of_apart {r : Plot} (hap : Plot.Apart ⟨b, cs.length⟩ r)
    (hc : r.Covers a.toNat 8) : (m.place b cs).word? a = m.word? a := by
  unfold word?
  rw [read?_place_of_apart hap hc]

end Memory

end CheckedMemory
