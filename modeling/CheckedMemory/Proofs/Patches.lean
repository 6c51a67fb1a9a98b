import CheckedMemory.Proofs.Contents
import Mathlib.Data.List.Basic
import Mathlib.Data.List.Pairwise

/-!
# Memory byte by byte

A value of a plain type is nothing but its bytes, so what a read gives depends on the byte at each
address of the element and on nothing else, and a write puts the bytes of a value over those that
were there.  That is a patch, and memory after some writes is memory before them under their
patches: at each address the byte of the newest one that covers it (`Memory.byte_write?`,
`lastWritten`).

One read takes its cells from one area, so that reads of different lengths see the same byte needs
that no two areas have an address in common.
-/

namespace CheckedMemory

/-! ## 1. Values that are their bytes -/

namespace Cell

theorem toBytes_take (n : Nat) (cs : List Cell) : toBytes (cs.take n) = (toBytes cs).take n :=
  List.map_take

theorem toBytes_drop (n : Nat) (cs : List Cell) : toBytes (cs.drop n) = (toBytes cs).drop n :=
  List.map_drop

theorem toBytes_append (cs ds : List Cell) : toBytes (cs ++ ds) = toBytes cs ++ toBytes ds :=
  List.map_append

end Cell

namespace ElemType

variable {τ : ElemType} {cs ds : List Cell} {bs bs' : List UInt8}

/-- The value that has these bytes, the lowest byte of each word first. -/
def ofBytes (τ : ElemType) (bs : List UInt8) : τ.Carrier := τ.decode (Cell.ofBytes bs)

/-- The bytes of a value. -/
def toBytes (τ : ElemType) (x : τ.Carrier) : List UInt8 := Cell.toBytes (τ.encode x)

@[simp] theorem length_toBytes (x : τ.Carrier) : (τ.toBytes x).length = τ.layout.size := by
  rw [toBytes, Cell.length_toBytes, length_encode]

/-- A plain value depends on the bytes of its cells alone. -/
theorem decode_congr (hτ : τ.isPlain = true) (h : Cell.toBytes cs = Cell.toBytes ds) :
    τ.decode cs = τ.decode ds := by
  cases τ with
  | text | resource | pointer _ | arrayPointer _ | node => cases hτ
  | plain l => simp only [decode, bytesOfCells, h]
  | _ => simp only [decode, natOfCells, wordAt, wordOfCells, Cell.toBytes_take, Cell.toBytes_drop, h]

theorem ofBytes_toBytes_cells (hτ : τ.isPlain = true) (cs : List Cell) :
    τ.ofBytes (Cell.toBytes cs) = τ.decode cs :=
  decode_congr hτ (Cell.toBytes_ofBytes _)

/-- The number in the first `n` of some bytes, for `n` that are there, has those bytes. -/
theorem toBytes_cellsOfNat {n : Nat} (hlen : n ≤ bs.length) :
    natOfCells ((Cell.ofBytes bs).take n) < 256 ^ n ∧
      Cell.toBytes (cellsOfNat n (natOfCells ((Cell.ofBytes bs).take n))) = bs.take n := by
  have hbytes : Cell.toBytes ((Cell.ofBytes bs).take n) = bs.take n := by
    rw [Cell.toBytes_take, Cell.toBytes_ofBytes]
  have htake : (bs.take n).length = n := by rw [List.length_take, Nat.min_eq_left hlen]
  have hlt := LittleEndian.ofBytes_lt (bs.take n)
  have hback := LittleEndian.toBytes_ofBytes (bs.take n)
  rw [htake] at hlt hback
  rw [natOfCells, hbytes]
  exact ⟨hlt, by rw [cellsOfNat, Cell.toBytes_ofBytes, hback]⟩

/-- **Any bytes are those of the plain value that has them.** -/
theorem toBytes_ofBytes (hτ : τ.isPlain = true) (hlen : bs.length = τ.layout.size) :
    τ.toBytes (τ.ofBytes bs) = bs := by
  have hall : bs.take τ.layout.size = bs := List.take_of_length_le (Nat.le_of_eq hlen)
  obtain ⟨hlt, hback⟩ := toBytes_cellsOfNat (Nat.le_of_eq hlen.symm)
  rw [hall] at hback
  cases τ with
  | text | resource | pointer _ | arrayPointer _ | node => cases hτ
  | uint8 =>
    simp only [layout, toBytes, ofBytes, encode, decode] at hlt hback ⊢
    rwa [UInt8.toNat_ofNat_of_lt' hlt]
  | uint16 =>
    simp only [layout, toBytes, ofBytes, encode, decode] at hlt hback ⊢
    rwa [UInt16.toNat_ofNat_of_lt' hlt]
  | uint32 =>
    simp only [layout, toBytes, ofBytes, encode, decode] at hlt hback ⊢
    rwa [UInt32.toNat_ofNat_of_lt' hlt]
  | int16 =>
    simp only [layout, toBytes, ofBytes, encode, decode, UInt16.toUInt16_toInt16] at hlt hback ⊢
    rwa [UInt16.toNat_ofNat_of_lt' hlt]
  | int32 =>
    simp only [layout, toBytes, ofBytes, encode, decode, UInt32.toUInt32_toInt32] at hlt hback ⊢
    rwa [UInt32.toNat_ofNat_of_lt' hlt]
  | uint64 | int64 | binary64 =>
    simp only [layout, toBytes, ofBytes, encode, decode, wordAt, wordOfCells, Nat.mul_zero,
      List.drop_zero, UInt64.toUInt64_toInt64] at hlt hback ⊢
    rwa [UInt64.toNat_ofNat_of_lt' hlt]
  | header =>
    have hlen : bs.length = 8 := hlen
    have hfirst : 4 ≤ bs.length := by omega
    have hsecond : 4 ≤ (bs.drop 4).length := by
      rw [List.length_drop]
      omega
    obtain ⟨htag, htag'⟩ := toBytes_cellsOfNat hfirst
    obtain ⟨hlength, hlength'⟩ := toBytes_cellsOfNat hsecond
    have hdrop : (Cell.ofBytes bs).drop 4 = Cell.ofBytes (bs.drop 4) := List.map_drop.symm
    have hrest : (bs.drop 4).take 4 = bs.drop 4 :=
      List.take_of_length_le (by rw [List.length_drop]; omega)
    simp only [toBytes, ofBytes, encode, decode, Cell.toBytes_append, hdrop]
    rw [UInt32.toNat_ofNat_of_lt' htag, UInt32.toNat_ofNat_of_lt' hlength, htag', hlength', hrest,
      List.take_append_drop]
  | rgb =>
    have hlen : bs.length = 3 := hlen
    obtain ⟨_, _, _, rfl⟩ := List.length_eq_three.mp hlen
    rfl
  | unit => exact (List.eq_nil_of_length_eq_zero hlen).symm
  | plain l =>
    simp only [toBytes, ofBytes, encode, decode, bytesOfCells, Cell.toBytes_ofBytes]
    exact List.take_left' hlen

/-- Plain values differ exactly if their bytes do. -/
theorem ofBytes_inj (hτ : τ.isPlain = true) (hlen : bs.length = τ.layout.size)
    (hlen' : bs'.length = τ.layout.size) : τ.ofBytes bs = τ.ofBytes bs' ↔ bs = bs' := by
  refine ⟨fun h => ?_, fun h => by rw [h]⟩
  rw [← toBytes_ofBytes hτ hlen, h, toBytes_ofBytes hτ hlen']

end ElemType

/-! ## 2. The bytes of memory -/

/-- The bytes that `f` has at `n` addresses from `a` on. -/
def bytesFrom (f : Address → UInt8) (a : Address) (n : Nat) : List UInt8 :=
  (List.range n).map fun i => f (a + UInt64.ofNat i)

@[simp] theorem length_bytesFrom (f : Address → UInt8) (a : Address) (n : Nat) :
    (bytesFrom f a n).length = n := by
  simp [bytesFrom]

theorem bytesFrom_eq_iff {f g : Address → UInt8} {a : Address} {n : Nat} :
    bytesFrom f a n = bytesFrom g a n ↔
      ∀ i < n, f (a + UInt64.ofNat i) = g (a + UInt64.ofNat i) := by
  simp [bytesFrom, List.map_inj_left]

namespace Memory

variable {m m' : Memory} {a b : Address} {n : Nat} {cs : Runs Cell} {r : Area}

/-- The byte at an address; zero where there is no storage. -/
def byte (m : Memory) (a : Address) : UInt8 := (Cell.toBytes (m.cells a 1)).headD 0

/-- An area that covers a range is where the range is read, if all areas are apart. -/
theorem area?_eq (hap : m.plots.Pairwise Plot.Apart) (hr : r ∈ m.areas)
    (hc : r.covers a n = true) : m.area? a n = some r := by
  unfold area?
  have hexists : (m.areas.find? (·.covers a n)).isSome = true :=
    List.find?_isSome.mpr ⟨r, hr, hc⟩
  obtain ⟨s, hs⟩ := Option.isSome_iff_exists.mp hexists
  have hpair : m.areas.Pairwise fun r s => r.plot.Apart s.plot := List.pairwise_map.mp hap
  have : Std.Symm fun r s : Area => r.plot.Apart s.plot := ⟨fun _ _ => Or.symm⟩
  have hcov : s.covers a n = true := List.find?_some (p := fun t : Area => t.covers a n) hs
  rw [hs]
  refine congrArg some (Classical.byContradiction fun hne => ?_)
  have := (hpair.forall (List.mem_of_find?_eq_some hs) hr hne).disjoint
    (Area.covers_iff.mp hcov) (Area.covers_iff.mp hc)
  omega

theorem cells_of_covers (hap : m.plots.Pairwise Plot.Apart) (hr : r ∈ m.areas)
    (hc : r.covers a n = true) :
    m.cells a n = (r.cells.toList.drop (a.toNat - r.base.toNat)).take n := by
  by_cases hn : n = 0
  · subst hn
    rfl
  · have hread : m.read? a n = some (r.load a n) := by
      rw [read?, if_neg hn, area?_eq hap hr hc, Option.map_some]
    rw [cells_eq hread, Area.load, Runs.toList_take, Runs.toList_drop]

/-- The bytes that a read gives are those at its addresses. -/
theorem toBytes_cells (hap : m.plots.Pairwise Plot.Apart) {q : Plot} (hq : q ∈ m.plots)
    (hc : q.Covers a.toNat n) (hlt : a.toNat + n ≤ 2 ^ 64) :
    Cell.toBytes (m.cells a n) = bytesFrom m.byte a n := by
  obtain ⟨r, hr, rfl⟩ := List.mem_map.mp hq
  obtain ⟨hlo, hhi⟩ := Area.le_of_covers (Area.covers_iff.mpr hc)
  have hlen := Runs.length_toList r.cells
  have hcells := cells_of_covers hap hr (Area.covers_iff.mpr hc)
  apply List.ext_getElem
  · simp only [Cell.length_toBytes, length_bytesFrom, hcells, List.length_take, List.length_drop]
    omega
  · intro i h _
    rw [Cell.length_toBytes, hcells, List.length_take] at h
    have hi : (a + UInt64.ofNat i).toNat = a.toNat + i := Word.toNat_add_ofNat (by omega)
    have hone : r.covers (a + UInt64.ofNat i) 1 = true :=
      Area.covers_iff.mpr ⟨by change r.base.toNat ≤ _; omega,
        by change _ ≤ r.base.toNat + r.cells.length; omega⟩
    have hbyte := cells_of_covers hap hr hone
    have hat : a.toNat + i - r.base.toNat < r.cells.toList.length := by omega
    have hsum : a.toNat - r.base.toNat + i = a.toNat + i - r.base.toNat := by omega
    rw [hi, List.drop_eq_getElem_cons hat] at hbyte
    simp only [Cell.toBytes, bytesFrom, byte, hcells, hbyte, List.getElem_map, List.getElem_take,
      List.getElem_drop, List.getElem_range, hsum, List.take_succ_cons, List.map_cons,
      List.headD_cons]

end Memory

/-! ## 3. Patches -/

/-- Bytes to be put from an address on. -/
structure Patch where
  start : Address
  bytes : List UInt8

namespace Patch

variable {p : Patch} {a b : Address} {f : Address → UInt8} {n : Nat}

/-- The byte that the patch puts at an address, if it covers it. -/
def byte? (p : Patch) (a : Address) : Option UInt8 :=
  if p.start ≤ a then p.bytes[a.toNat - p.start.toNat]? else none

/-- None of `n` addresses from `a` on are covered. -/
def Misses (p : Patch) (a : Address) (n : Nat) : Prop :=
  a.toNat + n ≤ p.start.toNat ∨ p.start.toNat + p.bytes.length ≤ a.toNat

/-- The patch changes one of the `n` bytes from `a` on: it covers its address with another byte. -/
def Alters (p : Patch) (f : Address → UInt8) (a : Address) (n : Nat) : Prop :=
  ∃ i < n, ∃ x, p.byte? (a + UInt64.ofNat i) = some x ∧ x ≠ f (a + UInt64.ofNat i)

theorem byte?_eq_none_iff : p.byte? a = none ↔ p.Misses a 1 := by
  unfold byte? Misses
  split
  · rename_i hle
    have := UInt64.le_iff_toNat_le.mp hle
    rw [List.getElem?_eq_none_iff]
    omega
  · rename_i hlt
    have := mt UInt64.le_iff_toNat_le.mpr hlt
    simp only [true_iff]
    omega

theorem Misses.not_alters (h : p.Misses a n) (hlt : a.toNat + n ≤ 2 ^ 64) : ¬p.Alters f a n := by
  rintro ⟨i, hi, x, hx, -⟩
  have haddr : (a + UInt64.ofNat i).toNat = a.toNat + i := Word.toNat_add_ofNat (by omega)
  have hnone : p.byte? (a + UInt64.ofNat i) = none := by
    rw [byte?_eq_none_iff]
    unfold Misses at h ⊢
    omega
  rw [hnone] at hx
  cases hx

/-- The bytes under a patch are as they were exactly if it alters none of them. -/
theorem bytesFrom_eq_iff_not_alters :
    bytesFrom (fun b => (p.byte? b).getD (f b)) a n = bytesFrom f a n ↔ ¬p.Alters f a n := by
  rw [bytesFrom_eq_iff]
  unfold Alters
  constructor
  · rintro h ⟨i, hi, x, hx, hne⟩
    have := h i hi
    rw [hx] at this
    exact hne this
  · intro h i hi
    cases hx : p.byte? (a + UInt64.ofNat i) with
    | none => rfl
    | some x => exact Classical.byContradiction fun hne => h ⟨i, hi, x, hx, hne⟩

end Patch

/-- The byte at an address after patches, the newest first: that of the newest one that covers the
address. -/
def lastWritten (f : Address → UInt8) : List Patch → Address → UInt8
  | [], a => f a
  | p :: older, a => (p.byte? a).getD (lastWritten f older a)

namespace Memory

variable {m m' : Memory} {a b : Address} {cs : Runs Cell}

/-- **A write puts its bytes over those that were there**, and changes no other. -/
theorem byte_write? (hap : m.plots.Pairwise Plot.Apart) (hend : ∀ q ∈ m.plots, q.stop ≤ 2 ^ 64)
    (hw : m.write? a cs = some m') (b : Address) :
    m'.byte b = ((Patch.mk a (Cell.toBytes cs.toList)).byte? b).getD (m.byte b) := by
  have hlen : (Cell.toBytes cs.toList).length = cs.length := by
    rw [Cell.length_toBytes, Runs.length_toList]
  cases hx : (Patch.mk a (Cell.toBytes cs.toList)).byte? b with
  | none =>
    have hmiss := Patch.byte?_eq_none_iff.mp hx
    simp only [Patch.Misses, hlen] at hmiss
    rw [byte, cells_write?_of_disjoint hw (by omega)]
    rfl
  | some x =>
    -- the byte is the one that a read of the whole patch gives
    have hin : a.toNat ≤ b.toNat ∧ b.toNat - a.toNat < cs.length := by
      have hcov : ¬(Patch.mk a (Cell.toBytes cs.toList)).Misses b 1 := by
        rw [← Patch.byte?_eq_none_iff, hx]
        exact Option.some_ne_none x
      simp only [Patch.Misses, hlen] at hcov
      omega
    have hmapped : m.isMapped a cs.length = true := by
      rw [← isSome_write?, hw]
      rfl
    obtain ⟨q, hq, hc⟩ := (isMapped_iff (by omega)).mp hmapped
    have hstop := hend q hq
    have hend' : a.toNat + cs.length ≤ 2 ^ 64 := Nat.le_trans hc.2 hstop
    rw [← plots_write? hw] at hap hq
    have hread := toBytes_cells hap hq hc hend'
    rw [cells_write?_same hw] at hread
    simp only [Patch.byte?, UInt64.le_iff_toNat_le, hin.1, if_true, hread, bytesFrom,
      List.getElem?_map, List.getElem?_range hin.2, Option.map_some, Option.some.injEq] at hx
    have haddr : a + UInt64.ofNat (b.toNat - a.toNat) = b := by
      apply UInt64.toNat_inj.mp
      rw [Word.toNat_add_ofNat (by omega)]
      omega
    rw [haddr] at hx
    rw [hx]
    rfl

end Memory

end CheckedMemory
