import CheckedMemory.Bounds
import CheckedMemory.Proofs.Bytes

/-!
# The two strategies accept the same elements

The register compares addresses, which wrap, where the software compares indices, which do not.
The two agree since nothing that the register computes wraps without notice: the product that makes
the range saturates, and the two sums and the product that find an element are checked.  One word
may wrap, the end of a range that reaches the top of memory; the limit is the address before it,
and that is right again.

Only a range that is empty and starts at the null address has a limit that is wrong: there is no
address below it.  A register denotes its range in every other case, and in that one it denotes all
of memory.

Main statements: `BoundsRegister.make_denotes_iff`, `RegisterBounds.admits_eq_software`.
-/

namespace CheckedMemory

variable {base size extent length a : UInt64} {index : Int64}

/-! ## 1. The limits of a range -/

namespace BoundsRegister

/-- The limit is the address before the end, if there is one. -/
theorem toNat_upper_make (hne : base ≠ 0 ∨ length ≠ 0)
    (hend : base.toNat + length.toNat ≤ 2 ^ 64) :
    (make base length).upper.toNat = base.toNat + length.toNat - 1 := by
  have hpos : 0 < base.toNat + length.toNat := by
    have := hne.imp Word.toNat_pos Word.toNat_pos
    omega
  have hone : (1 : UInt64).toNat = 1 := rfl
  change (base + length - 1).toNat = _
  -- the end is a word or the one past the top of memory, which is zero; the limit is a word
  rw [UInt64.toNat_sub, UInt64.toNat_add, hone]
  omega

theorem admitsLower_make_iff : (make base length).admitsLower a = true ↔ base.toNat ≤ a.toNat := by
  simp only [admitsLower, make, decide_eq_true_eq, UInt64.le_iff_toNat_le]

/-- The upper limit lets through what lies before the end, and nothing if the range is empty. -/
theorem admitsUpper_make_iff (hne : base ≠ 0 ∨ length ≠ 0)
    (hend : base.toNat + length.toNat ≤ 2 ^ 64) :
    (make base length).admitsUpper a = true ↔
      0 < length.toNat ∧ a.toNat < base.toNat + length.toNat := by
  have hpos := hne.imp Word.toNat_pos Word.toNat_pos
  have hlower : (make base length).lower = base := rfl
  simp only [admitsUpper, Bool.and_eq_true, decide_eq_true_eq, UInt64.le_iff_toNat_le,
    toNat_upper_make hne hend, hlower]
  omega

/-- The address passes both limits. -/
def Admits (r : BoundsRegister) (a : Address) : Prop :=
  r.admitsLower a = true ∧ r.admitsUpper a = true

/-- The addresses that pass are those of the `length` bytes from `base` on. -/
def Denotes (r : BoundsRegister) (base length : UInt64) : Prop :=
  ∀ a, r.Admits a ↔ base.toNat ≤ a.toNat ∧ a.toNat < base.toNat + length.toNat

/-- **The empty range at the null address is all of memory**: its limit is the top of it. -/
theorem admits_make_zero (a : Address) : (make 0 0).Admits a := by
  have hupper : (make 0 0).upper.toNat = 2 ^ 64 - 1 := by decide
  have hlt := a.toNat_lt
  refine ⟨admitsLower_make_iff.mpr (Nat.zero_le _), ?_⟩
  simp only [admitsUpper, Bool.and_eq_true, decide_eq_true_eq, UInt64.le_iff_toNat_le]
  exact ⟨Nat.zero_le _, by omega⟩

theorem make_denotes (hne : base ≠ 0 ∨ length ≠ 0) (hend : base.toNat + length.toNat ≤ 2 ^ 64) :
    (make base length).Denotes base length := by
  intro a
  rw [Admits, admitsLower_make_iff, admitsUpper_make_iff hne hend]
  omega

/-- **A register denotes exactly its range, unless the range is empty and starts at the null
address**, for every range that ends inside the address space or at the end of it.  So a register of
no bytes rejects every address unless its base is null, and then it lets every address through. -/
theorem make_denotes_iff (hend : base.toNat + length.toNat ≤ 2 ^ 64) :
    ((make base length).Denotes base length ↔ base ≠ 0 ∨ length ≠ 0) ∧
      ((∀ a, ¬(make base 0).Admits a) ↔ base ≠ 0) ∧ ∀ a, (make 0 0).Admits a := by
  have hzero : (0 : UInt64).toNat = 0 := rfl
  refine ⟨⟨fun hdenotes => ?_, fun hne => make_denotes hne hend⟩, ⟨?_, fun hbase a hin => ?_⟩,
    admits_make_zero⟩
  · refine Classical.byContradiction fun hno => ?_
    obtain ⟨rfl, rfl⟩ := not_or.mp hno |>.imp not_not.mp not_not.mp
    have hin := (hdenotes 0).mp (admits_make_zero 0)
    omega
  · rintro hrejects rfl
    exact hrejects 0 (admits_make_zero 0)
  · have hempty := base.toNat_lt
    have hin := (make_denotes (.inl hbase) (by omega) a).mp hin
    omega

/-- The last three bytes of memory: the end of the range wraps to null. -/
theorem make_denotes_iff_at_top :
    (18446744073709551613 : UInt64).toNat + (3 : UInt64).toNat ≤ 2 ^ 64 ∧
      (18446744073709551613 : UInt64) + 3 = 0 ∧
        (make 18446744073709551613 3).Denotes 18446744073709551613 3 ∧
          ∀ a, ¬(make 18446744073709551613 0).Admits a := by
  have hend : (18446744073709551613 : UInt64).toNat + (3 : UInt64).toNat ≤ 2 ^ 64 := by decide
  have hexact := make_denotes_iff hend
  exact ⟨hend, rfl, hexact.1.mpr (.inl (by decide)), hexact.2.1.mpr (by decide)⟩

/-- **Not every register denotes its range**: this one has no bytes, and lets an address through. -/
theorem exists_not_denotes :
    (0 : UInt64).toNat + (0 : UInt64).toNat ≤ 2 ^ 64 ∧ (make 0 0).Admits 7 ∧
      ¬(make 0 0).Denotes 0 0 :=
  ⟨by decide, ⟨by decide, by decide⟩, fun hdenotes =>
    absurd ((hdenotes 7).mp ⟨by decide, by decide⟩) (by decide)⟩

end BoundsRegister

/-! ## 2. The addresses of an element -/

namespace RegisterBounds

/-- An element has a first and a last byte exactly if it ends inside the address space, and they are
where exact arithmetic has them. -/
theorem elementRange?_eq_some_iff {first last : Address} (hsize : size ≠ 0) :
    elementRange? base size index = some (first, last) ↔
      base.toNat + (index.toUInt64.toNat + 1) * size.toNat ≤ 2 ^ 64 ∧
        first.toNat = base.toNat + index.toUInt64.toNat * size.toNat ∧
          last.toNat + 1 = base.toNat + (index.toUInt64.toNat + 1) * size.toNat := by
  have hpos := Word.toNat_pos hsize
  have hone : (1 : UInt64).toNat = 1 := rfl
  have hpred : (size - 1).toNat = size.toNat - 1 := by
    rw [UInt64.toNat_sub_of_le _ _ (UInt64.le_iff_toNat_le.mpr (by omega)), hone]
  rw [Nat.add_one_mul]
  constructor
  · intro h
    obtain ⟨offset, hmul, h⟩ := Option.bind_eq_some_iff.mp h
    obtain ⟨first', hfirst, h⟩ := Option.bind_eq_some_iff.mp h
    obtain ⟨last', hlast, h⟩ := Option.bind_eq_some_iff.mp h
    cases h
    obtain ⟨-, hmul⟩ := Word.mul?_eq_some_iff.mp hmul
    obtain ⟨-, hfirst⟩ := Word.add?_eq_some_iff.mp hfirst
    obtain ⟨hlt, hlast⟩ := Word.add?_eq_some_iff.mp hlast
    omega
  · rintro ⟨hend, hfirst, hlast⟩
    have hlt : index.toUInt64.toNat * size.toNat < 2 ^ 64 := by omega
    have hoffset : (index.toUInt64 * size).toNat = index.toUInt64.toNat * size.toNat := by
      rw [UInt64.toNat_mul, Nat.mod_eq_of_lt hlt]
    refine Option.bind_eq_some_iff.mpr ⟨_, Word.mul?_eq_some_iff.mpr ⟨hlt, hoffset⟩, ?_⟩
    refine Option.bind_eq_some_iff.mpr ⟨first, Word.add?_eq_some_iff.mpr (by omega), ?_⟩
    exact Option.bind_eq_some_iff.mpr ⟨last, Word.add?_eq_some_iff.mpr (by omega), rfl⟩

theorem exists_elementRange? (hsize : size ≠ 0)
    (hend : base.toNat + (index.toUInt64.toNat + 1) * size.toNat ≤ 2 ^ 64) :
    ∃ first last, elementRange? base size index = some (first, last) := by
  have hpos := Word.toNat_pos hsize
  have hsucc := Nat.add_one_mul index.toUInt64.toNat size.toNat
  refine ⟨.ofNat (base.toNat + index.toUInt64.toNat * size.toNat),
    .ofNat (base.toNat + (index.toUInt64.toNat + 1) * size.toNat - 1),
    (elementRange?_eq_some_iff hsize).mpr ⟨hend, Word.toNat_ofNat (by omega), ?_⟩⟩
  rw [Word.toNat_ofNat (by omega)]
  omega

/-! ## 3. Agreement -/

/-- Elements with bytes pass the register exactly if the index is in the extent. -/
theorem admits_make_iff (hbase : base ≠ 0)
    (hend : base.toNat + extent.toNat * size.toNat ≤ 2 ^ 64) (hsize : size ≠ 0) :
    admits (make base size extent) base size extent index = true ↔
      0 ≤ index.toInt ∧ index.toInt < extent.toNat := by
  have hsign : index < 0 ↔ index.toInt < 0 := Int64.lt_iff_toInt_lt
  unfold admits
  rw [if_neg hsize]
  by_cases hneg : index < 0
  · have := hsign.mp hneg
    rw [if_pos hneg]
    simp
    omega
  · have h0 : 0 ≤ index.toInt := Int.not_lt.mp (mt hsign.mpr hneg)
    have hnat := Word.toNat_toUInt64 h0
    have hlength : (Word.mulSat extent size).toNat = extent.toNat * size.toNat := by
      have := Word.toNat_pos hbase
      rw [Word.toNat_mulSat]
      omega
    -- the whole element lies before the end exactly if the index lies before the extent
    have hpos := Word.toNat_pos hsize
    have hsucc := Nat.add_one_mul index.toUInt64.toNat size.toNat
    have hfits : (index.toUInt64.toNat + 1) * size.toNat ≤ extent.toNat * size.toNat ↔
        index.toUInt64.toNat + 1 ≤ extent.toNat := Nat.mul_le_mul_right_iff hpos
    rw [if_neg hneg]
    cases hr : elementRange? base size index with
    | none =>
      have hout : ¬base.toNat + (index.toUInt64.toNat + 1) * size.toNat ≤ 2 ^ 64 := by
        intro hin
        obtain ⟨first, last, hsome⟩ := exists_elementRange? hsize hin
        rw [hr] at hsome
        cases hsome
      simp
      omega
    | some range =>
      obtain ⟨first, last⟩ := range
      obtain ⟨-, hfirst, hlast⟩ := (elementRange?_eq_some_iff hsize).mp hr
      simp only [make, Bool.and_eq_true, BoundsRegister.admitsLower_make_iff,
        BoundsRegister.admitsUpper_make_iff (.inl hbase) (hlength ▸ hend), hlength]
      omega

/-- **The strategies accept the same elements** of every array that starts at an address and ends
inside the address space, or at the end of it. -/
theorem admits_eq_software (hbase : base ≠ 0)
    (hend : base.toNat + extent.toNat * size.toNat ≤ 2 ^ 64) :
    admits (make base size extent) base size extent index = SoftwareBounds.admits extent index := by
  by_cases hsize : size = 0
  · unfold admits
    rw [if_pos hsize]
  · rw [Bool.eq_iff_iff, admits_make_iff hbase hend hsize]
    exact Span.inExtent_iff.symm

/-- Four elements of three bytes at the top of memory.  The end of the range wraps, and so does the
address of the element past it. -/
theorem admits_eq_software_at_top :
    (18446744073709551604 : UInt64) ≠ 0 ∧
      (18446744073709551604 : UInt64).toNat + (4 : UInt64).toNat * (3 : UInt64).toNat ≤ 2 ^ 64 ∧
        ∀ index, admits (make 18446744073709551604 3 4) 18446744073709551604 3 4 index =
          SoftwareBounds.admits 4 index := by
  have hbase : (18446744073709551604 : UInt64) ≠ 0 := by decide
  have hend : (18446744073709551604 : UInt64).toNat +
      (4 : UInt64).toNat * (3 : UInt64).toNat ≤ 2 ^ 64 := by decide
  exact ⟨hbase, hend, fun index => admits_eq_software hbase hend⟩

/-- The upper limit of an empty range at the null address is the top of memory. -/
example : admits (make 0 1 0) 0 1 0 7 = true ∧ SoftwareBounds.admits 0 7 = false := by decide

end RegisterBounds

end CheckedMemory
