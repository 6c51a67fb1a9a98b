import CheckedMemory.Proofs.Contents
import CheckedMemory.Proofs.Steps

/-!
# Arrays that are downcast

A downcast of an array asks the heap table for the block that starts where the array does, and gives
as many values as the block is recorded with.  Two things that one would ask of the result hold on
a condition only.

It is at the same address if and only if that is a whole number of values away from the start: the
distance is divided toward zero, and what is left of it is lost.  And it is inside the block if the
block is no record.  A record with a tail is recorded with the number of its tail elements, and as
an array of records it has that many of them.

Main statement: `Program.downcast_recovers`.
-/

namespace CheckedMemory

/-! ## 1. Division toward zero -/

namespace Word

/-- A quotient times its divisor is between zero and what was divided. -/
theorem tdiv_mul_between (d k : Int) (hk : 0 ≤ k) :
    (0 ≤ d → 0 ≤ d.tdiv k * k ∧ d.tdiv k * k ≤ d) ∧
      (d ≤ 0 → d ≤ d.tdiv k * k ∧ d.tdiv k * k ≤ 0) := by
  have hpos : ∀ e : Int, 0 ≤ e → 0 ≤ e.tdiv k * k ∧ e.tdiv k * k ≤ e := by
    intro e he
    have hsum := Int.mul_tdiv_add_tmod e k
    have hmod := Int.tmod_nonneg k he
    rw [Int.mul_comm] at hsum
    exact ⟨Int.mul_nonneg (Int.tdiv_nonneg he hk) hk, by omega⟩
  refine ⟨hpos d, fun hd => ?_⟩
  have hneg := hpos (-d) (by omega)
  rw [Int.neg_tdiv, Int.neg_mul] at hneg
  omega

theorem toInt_toInt64 {k : UInt64} (hk : k.toNat < 2 ^ 63) : k.toInt64.toInt = k.toNat := by
  change k.toBitVec.toInt = _
  have hlt : 2 * k.toBitVec.toNat < 2 ^ 64 := by
    change 2 * k.toNat < _
    omega
  rw [BitVec.toInt_eq_toNat_of_lt hlt]
  rfl

/-- No quotient by such a divisor leaves the word. -/
theorem toInt_div_toInt64 (d : Int64) {k : UInt64} (hk : k.toNat < 2 ^ 63) :
    (d / k.toInt64).toInt = d.toInt.tdiv k.toNat := by
  have hlo := d.le_toInt
  have hhi := d.toInt_lt
  have hsmall := Int.natAbs_tdiv_le_natAbs d.toInt k.toNat
  rw [Int64.toInt_div, toInt_toInt64 hk]
  refine Int.bmod_eq_of_le ?_ ?_
  · omega
  · rcases Int.le_total 0 d.toInt with hd | hd
    · omega
    · have hneg := Int.tdiv_nonneg (Int.neg_nonneg_of_nonpos hd) (Int.natCast_nonneg k.toNat)
      rw [Int.neg_tdiv] at hneg
      omega

/-- **What was divided is got back exactly if the divisor divides it.** -/
theorem div_mul_eq_iff {d : Int64} {k : UInt64} (hk : k.toNat < 2 ^ 63) :
    d / (max k 1).toInt64 * k.toInt64 = d ↔ (k.toNat : Int) ∣ d.toInt := by
  by_cases hzero : k = 0
  · subst hzero
    have hmul : d / (max 0 1 : UInt64).toInt64 * (0 : UInt64).toInt64 = 0 := Int64.mul_zero
    rw [hmul, ← Int64.toInt_inj, show (0 : UInt64).toNat = 0 from rfl, Int.natCast_zero,
      Int.zero_dvd]
    exact eq_comm
  · have hpos : k.toNat ≠ 0 := fun h0 => hzero (UInt64.toNat_inj.mp h0)
    have hmax : max k 1 = k := by
      refine UInt64.toNat_inj.mp ?_
      rw [toNat_max_one]
      omega
    have hlo := d.le_toInt
    have hhi := d.toInt_lt
    have hback := tdiv_mul_between d.toInt k.toNat (by omega)
    have hprod : (d / k.toInt64 * k.toInt64).toInt = d.toInt.tdiv k.toNat * k.toNat := by
      rw [Int64.toInt_mul, toInt_div_toInt64 d hk, toInt_toInt64 hk]
      refine Int.bmod_eq_of_le ?_ ?_ <;> omega
    rw [hmax, ← Int64.toInt_inj, hprod]
    constructor
    · intro heq
      exact ⟨d.toInt.tdiv k.toNat, by rw [Int.mul_comm]; exact heq.symm⟩
    · exact Int.tdiv_mul_cancel

end Word

/-! ## 2. Positions -/

namespace Span

variable {s t : Span} {k m : UInt64}

/-- How many bytes the current element is away from the start, backward if the word is negative. -/
def bytesIn (s : Span) (size : UInt64) : Int64 := (s.address size).toInt64 - s.base.toInt64

theorem bytesIn_eq (s : Span) (size : UInt64) : s.bytesIn size = s.index * size.toInt64 := by
  have hindex : s.index.toUInt64.toInt64 = s.index := rfl
  rw [bytesIn, address, elementAddress, UInt64.toInt64_add, UInt64.toInt64_mul, hindex,
    Int64.add_comm, Int64.add_sub_cancel]

/-- Where the distance is one that a word can say, it is so many elements. -/
theorem toInt_bytesIn (hk : k.toNat < 2 ^ 63) (hlo : -2 ^ 63 ≤ s.index.toInt * k.toNat)
    (hhi : s.index.toInt * k.toNat < 2 ^ 63) : (s.bytesIn k).toInt = s.index.toInt * k.toNat := by
  rw [bytesIn_eq, Int64.toInt_mul, Word.toInt_toInt64 hk]
  exact Int.bmod_eq_of_le (by omega) (by omega)

/-- Pointers into one array are at the same address exactly if they are as far into it. -/
theorem address_eq_iff (hbase : s.base = t.base) :
    s.address k = t.address m ↔ s.bytesIn k = t.bytesIn m := by
  unfold bytesIn
  rw [hbase]
  constructor
  · intro h
    rw [h]
  · intro h
    have := congrArg (· + t.base.toInt64) h
    simp only [Int64.sub_add_cancel] at this
    exact congrArg Int64.toUInt64 this

end Span

/-! ## 3. Sizes -/

namespace Stored

/-- The size of a value, in exact arithmetic. -/
def width : Stored → Nat
  | elements τ => τ.layout.size
  | fixed τ n => n * τ.layout.size
  | tailed h t => Layout.Tailed.leastSize h.layout t.layout

end Stored

theorem ElemType.toNat_size_lt (τ : ElemType) : τ.size.toNat < 2 ^ 63 := by
  rw [τ.toNat_size]
  exact τ.size_lt

namespace Block

variable {b : Block}

/-- The values of a block have sizes that a word can say. -/
theorem toNat_size (hb : b.Shaped) (hlt : b.bytes < 2 ^ 63) :
    b.stored.size.toNat = b.stored.width ∧ b.stored.width < 2 ^ 63 := by
  unfold Shaped at hb
  cases hs : b.stored with
  | elements τ =>
    exact ⟨τ.toNat_size, τ.size_lt⟩
  | fixed τ n =>
    rw [hs] at hb
    obtain ⟨-, -, hbytes⟩ := hb
    have hwidth : (Stored.fixed τ n).width = b.bytes := hbytes.symm
    exact ⟨Word.toNat_ofNat (by change (Stored.fixed τ n).width < _; omega), by omega⟩
  | tailed h t =>
    rw [hs] at hb
    obtain ⟨-, hleast, -⟩ := hb
    have hwidth : (Stored.tailed h t).width ≤ b.bytes := hleast
    exact ⟨Word.toNat_ofNat (by change (Stored.tailed h t).width < _; omega), by omega⟩

/-- **As many values as are recorded are in the block**, unless it is a record with more than one
tail element. -/
theorem count_mul_width_le (hb : b.Shaped) (hone : b.stored.IsRecord → b.count = 1) :
    b.count.toNat * b.stored.width ≤ b.bytes := by
  unfold Shaped at hb
  cases hs : b.stored with
  | elements τ =>
    rw [hs] at hb
    exact Nat.le_of_eq hb.2.symm
  | fixed τ n =>
    rw [hs] at hb
    rw [hb.2.1, hb.2.2]
    exact Nat.le_of_eq (Nat.one_mul _)
  | tailed h t =>
    rw [hs] at hb hone
    rw [hone trivial]
    exact Nat.le_trans (Nat.le_of_eq (Nat.one_mul _)) hb.2.1

end Block

/-! ## 4. Downcasts -/

/-- What a downcast of an array gives, whose elements have `size` bytes, from a block. -/
structure Recovers (type : Stored) (p : Span) (size : UInt64) (q : Span) (b : Block) : Prop where
  payload : b.payload = p.base
  stored : b.stored = type
  base : q.base = p.base
  extent : q.extent = b.count
  /-- It is at the same address exactly if that is a whole number of values away. -/
  address_eq_iff : q.address type.size = p.address size ↔
    (type.width : Int) ∣ (p.bytesIn size).toInt
  /-- Which is to say so many bytes, unless no word says how many. -/
  address_eq_iff_index : size.toNat < 2 ^ 63 → -2 ^ 63 ≤ p.index.toInt * size.toNat →
    p.index.toInt * size.toNat < 2 ^ 63 → (q.address type.size = p.address size ↔
      (type.width : Int) ∣ p.index.toInt * size.toNat)
  /-- All of it is inside the block exactly if it is no record, or one with so many bytes. -/
  inside_iff : q.extent.toNat * type.width ≤ b.bytes ↔
    ¬(type.IsRecord ∧ b.bytes < b.count.toNat * type.width)
  /-- A record with one tail element has. -/
  inside_of_one : type.IsRecord → b.count = 1 → q.extent.toNat * type.width ≤ b.bytes

/-- A downcast that gives anything has found the block. -/
theorem HeapTable.downcast_eq {t : HeapTable} {type : Stored} {p : Span} {size : UInt64}
    (hne : (t.downcast type p size).base ≠ 0) : ∃ b ∈ t.blocks, b.payload = p.base ∧
      b.stored = type ∧ t.downcast type p size =
        ⟨p.base, p.bytesIn size / (max type.size 1).toInt64, b.count⟩ := by
  unfold downcast at hne ⊢
  cases hb : t.containing? p.base with
  | none =>
    rw [hb] at hne
    exact absurd rfl hne
  | some b =>
    rw [hb] at hne
    dsimp only at hne ⊢
    split at hne
    · exact absurd rfl hne
    · rename_i hno
      simp only [Bool.or_eq_true, bne_iff_ne, ne_eq, not_or, Decidable.not_not] at hno
      refine ⟨b, (containing?_eq_some hb).1, hno.1, hno.2, ?_⟩
      rw [if_neg (by simp [hno.1, hno.2])]
      rfl

namespace Program

variable {δ : Discipline} {s : Program}

/-- **What a downcast gives is all of a live block**, and it is where the array was and inside the
block on the two conditions. -/
theorem downcast_recovers (hs : Reachable δ s) (type : Stored) (p : Span) (size : UInt64)
    (hne : (s.world.heap.downcast type p size).base ≠ 0) :
    ∃ b ∈ s.world.heap.blocks,
      Recovers type p size (s.world.heap.downcast type p size) b := by
  have h := hs.sound.world
  obtain ⟨b, hb, hpay, rfl, hq⟩ := HeapTable.downcast_eq hne
  have hshape := h.shaped b (h.live b hb)
  have hlt := h.payload_add_lt (h.live b hb)
  obtain ⟨hsize, hwidth⟩ := Block.toNat_size hshape (by omega)
  have hfits := Block.count_mul_width_le hshape
  rw [hq]
  have hbase : (Span.mk p.base (p.bytesIn size / (max b.stored.size 1).toInt64) b.count).base =
      p.base := rfl
  have hplace := Word.div_mul_eq_iff (d := p.bytesIn size) (k := b.stored.size) (by omega)
  rw [hsize] at hplace
  refine ⟨b, hb, hpay, rfl, rfl, rfl, ?_, fun hk hlo hhi => ?_, ?_,
    fun _ hone => hfits fun _ => hone⟩
  · rw [Span.address_eq_iff hbase, Span.bytesIn_eq]
    exact hplace
  · rw [Span.address_eq_iff hbase, Span.bytesIn_eq, ← Span.toInt_bytesIn hk hlo hhi]
    exact hplace
  · dsimp only
    constructor
    · rintro hle ⟨-, hover⟩
      omega
    · intro hno
      by_cases hrecord : b.stored.IsRecord
      · exact Nat.le_of_not_lt fun hover => hno ⟨hrecord, hover⟩
      · exact hfits fun h => absurd h hrecord

/-- Four words of two bytes, with a pointer to one of their bytes. -/
def fourShorts (i : Int64) : Program :=
  ((initial.run (giving (.array .uint16 ∘ .plain) (ArrayPtr.new .uint16 4 false))).keep
    (.array .uint8 (.plain ⟨⟨0x400000000000, 0, 8⟩⟩))).keep
      (.array .uint8 (ArrayLike.offset (.plain ⟨⟨0x400000000000, 0, 8⟩⟩) i))

theorem reachable_fourShorts (δ : Discipline) (i : Int64) : Reachable δ (fourShorts i) := by
  have hmade : Reachable δ
      (initial.run (giving (.array .uint16 ∘ .plain) (ArrayPtr.new .uint16 4 false))) :=
    .tail .refl (.act (.make (.block (.array .uint16 4 false))))
  exact (hmade.tail (.derive (.convert (.reinterpretArray (p := ⟨⟨0x400000000000, 0, 4⟩⟩)
    List.mem_cons_self rfl)))).tail (.derive (.convert (.offset List.mem_cons_self i)))

/-- At an even byte the words are found where the byte is. -/
theorem downcast_recovers_four_shorts :
    ∃ b ∈ (fourShorts 2).world.heap.blocks,
      Recovers (.elements .uint16) ⟨0x400000000000, 2, 8⟩ 1
        ((fourShorts 2).world.heap.downcast (.elements .uint16) ⟨0x400000000000, 2, 8⟩ 1) b :=
  downcast_recovers (reachable_fourShorts .scoped 2) (.elements .uint16) _ 1 (by decide)

/-- A record with a tail of three words of two bytes. -/
def shortTail : Program :=
  initial.run (giving (.tailed .uint32 .uint16) (TailedPtr.new .uint32 .uint16 3 0))

theorem reachable_shortTail (δ : Discipline) : Reachable δ shortTail :=
  .tail .refl (.act (.make (.block (.record .uint32 .uint16 3 0))))

/-- **Not every downcast keeps to the address and to the block**: from an odd byte the words are
found one byte before it, and a record with three tail elements is found to be three records, which
take twice as many bytes as there are. -/
theorem exists_downcast_astray :
    (Reachable .scoped (fourShorts 3) ∧
      .array .uint8 (.plain ⟨⟨0x400000000000, 3, 8⟩⟩) ∈ (fourShorts 3).handles ∧
      (ArrayPtr.downcast (fourShorts 3).world.heap .uint16
        (⟨⟨0x400000000000, 3, 8⟩⟩ : ArrayPtr .uint8)).span = ⟨0x400000000000, 1, 4⟩ ∧
      (Span.mk 0x400000000000 1 4).address 2 ≠ (Span.mk 0x400000000000 3 8).address 1) ∧
    (Reachable .scoped shortTail ∧
      .tailed .uint32 .uint16 ⟨0x400000000000⟩ ∈ shortTail.handles ∧
      shortTail.world.heap.downcast (.tailed .uint32 .uint16) ⟨0x400000000000, 0, 1⟩ 16 =
        ⟨0x400000000000, 0, 3⟩ ∧
      shortTail.world.heap.blocks.map (·.bytes) = [24] ∧
      (Stored.tailed .uint32 .uint16).width = 16) := by
  refine ⟨⟨reachable_fourShorts .scoped 3, List.mem_cons_self, by decide, by decide⟩,
    reachable_shortTail .scoped, List.mem_cons_self, by decide, by decide, by decide⟩

end Program

end CheckedMemory
