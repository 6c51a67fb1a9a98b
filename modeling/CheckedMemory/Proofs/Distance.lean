import CheckedMemory.Proofs.Downcast

/-!
# Differences of array pointers

The difference of two pointers into one array is the byte distance of their current elements divided
by the size of an element.  Their indices and their addresses wrap, and so the byte distance is that
of the exact difference of the indices up to whole turns of the word: wrapping alone loses nothing.
What is lost is lost in the division, which reads the byte distance as a signed word.  If the exact
one is not a signed word, no quotient of the word that is there is the difference.

A pointer that is moved is as far from where it was as it was moved, therefore, if that many
elements are a number of bytes that a signed word can say (`Span.InReach`), and otherwise never.
Elements without bytes are told apart by index and have no such limit.

Main statement: `ArrayLike.distance_offset_eq_iff`.
-/

namespace CheckedMemory

variable {size k : UInt64} {d : Int64}

/-! ## 1. A product divided by its factor -/

/-- **The other factor is got back exactly if the product is a signed word.**  A quotient times its
divisor is never farther from zero than what was divided, and that is a signed word in any case. -/
theorem Word.mul_div_eq_iff (hpos : k ≠ 0) (hk : k.toNat < 2 ^ 63) :
    d * k.toInt64 / k.toInt64 = d ↔
      -2 ^ 63 ≤ d.toInt * k.toNat ∧ d.toInt * k.toNat < 2 ^ 63 := by
  have hne : (k.toNat : Int) ≠ 0 := fun h0 => hpos (UInt64.toNat_inj.mp (Int.ofNat.inj h0))
  have hprod : (d * k.toInt64).toInt = (d.toInt * k.toNat).bmod (2 ^ 64) := by
    rw [Int64.toInt_mul, toInt_toInt64 hk]
  rw [← Int64.toInt_inj, toInt_div_toInt64 _ hk]
  constructor
  · intro heq
    have hlo := (d * k.toInt64).le_toInt
    have hhi := (d * k.toInt64).toInt_lt
    have hback := tdiv_mul_between (d * k.toInt64).toInt k.toNat (by omega)
    rw [heq] at hback
    omega
  · rintro ⟨hlo, hhi⟩
    rw [hprod, Int.bmod_eq_of_le (by omega) (by omega), Int.mul_tdiv_cancel _ hne]

/-! ## 2. Distances in one array -/

namespace Span

variable {s t : Span}

/-- So many elements are a number of bytes that a signed word can say. -/
def InReach (size : UInt64) (n : Int) : Prop :=
  -2 ^ 63 ≤ n * size.toNat ∧ n * size.toNat < 2 ^ 63

instance (n : Int) : Decidable (InReach size n) := inferInstanceAs (Decidable (_ ∧ _))

theorem inReach_zero (n : Int) : InReach 0 n := by
  have h0 : ((0 : UInt64).toNat : Int) = 0 := rfl
  unfold InReach
  rw [h0, Int.mul_zero]
  decide

/-- The byte distance of two positions of one array is that of their indices; all of it wraps. -/
theorem address_sub_address (hbase : s.base = t.base) :
    (s.address size).toInt64 - (t.address size).toInt64 =
      (s.index - t.index) * size.toInt64 := by
  have hs : (s.address size).toInt64 - s.base.toInt64 = s.index * size.toInt64 :=
    bytesIn_eq s size
  have ht : (t.address size).toInt64 - t.base.toInt64 = t.index * size.toInt64 :=
    bytesIn_eq t size
  rw [Int64.sub_mul, ← hs, ← ht, hbase]
  grind

/-- **The difference of two positions of one array is that of their indices** exactly if it is in
reach. -/
theorem distance_eq_iff (hsize : size.toNat < 2 ^ 63) (hbase : s.base = t.base) :
    s.distance t size = s.index - t.index ↔ InReach size (s.index - t.index).toInt := by
  unfold distance
  by_cases hzero : size = 0
  · subst hzero
    simp [inReach_zero]
  · rw [if_neg hzero, address_sub_address hbase]
    exact Word.mul_div_eq_iff hzero hsize

end Span

/-! ## 3. Pointers that are moved -/

namespace ArrayLike

variable {P : ElemType → Type} [ArrayLike P] {τ : ElemType}

/-- **What was added to a pointer is its difference from where it was**, exactly if that is in
reach; for pointers of both kinds, wherever their index is, and at any size of an element. -/
theorem distance_offset_eq_iff (p : P τ) (d : Int64) :
    (distance (offset p d) p = d ↔ Span.InReach τ.size d.toInt) ∧
      ∀ size : UInt64, size.toNat < 2 ^ 63 →
        (((span p).shift d).distance (span p) size = d ↔ Span.InReach size d.toInt) := by
  have hmoved : ((span p).shift d).index - (span p).index = d := by
    rw [Span.index_shift, Int64.add_comm, Int64.add_sub_cancel]
  have hspan : ∀ size : UInt64, size.toNat < 2 ^ 63 →
      (((span p).shift d).distance (span p) size = d ↔ Span.InReach size d.toInt) := by
    intro size hlt
    have hiff := Span.distance_eq_iff hlt ((span p).base_shift d)
    rwa [hmoved] at hiff
  refine ⟨?_, hspan⟩
  unfold distance offset
  rw [span_withSpan]
  exact hspan τ.size τ.toNat_size_lt

end ArrayLike

namespace Program

/-- From the second of three words the farthest moves that are in reach are those by a quarter of
the numbers that a word can say, either way. -/
theorem distance_offset_eq_of_quarter :
    (4 : UInt64).toNat < 2 ^ 63 ∧ Span.InReach 4 (2 ^ 61 - 1) ∧ Span.InReach 4 (-2 ^ 61) ∧
      ((wordsAt 1).span.shift 2305843009213693951).distance (wordsAt 1).span 4 =
        2305843009213693951 ∧
      ((wordsAt 1).span.shift (-2305843009213693952)).distance (wordsAt 1).span 4 =
        -2305843009213693952 := by
  have hsize : (4 : UInt64).toNat < 2 ^ 63 := by decide
  have hiff := fun d => (ArrayLike.distance_offset_eq_iff (wordsAt 1) d).2 4 hsize
  exact ⟨hsize, by decide, by decide, (hiff _).mpr (by decide), (hiff _).mpr (by decide)⟩

/-- An array of one word of two bytes, with a pointer that was moved by a quarter of all words. -/
def shortMoved : Program :=
  (initial.run (giving (.array .uint16 ∘ .plain) (ArrayPtr.new .uint16 1 false))).keep
    (.array .uint16 (ArrayLike.offset (.plain ⟨⟨0x400000000000, 0, 1⟩⟩) 4611686018427387904))

theorem reachable_shortMoved (δ : Discipline) : Reachable δ shortMoved :=
  .tail (.tail .refl (.act (.make (.block (.array .uint16 1 false)))))
    (.derive (.convert (.offset List.mem_cons_self 4611686018427387904)))

/-- **Not every move is the difference that it makes**: this one is found to be as far back as it
was forward. -/
theorem exists_difference_lost :
    Reachable .scoped shortMoved ∧
      shortMoved.handles = [.array .uint16 (.plain ⟨⟨0x400000000000, 4611686018427387904, 1⟩⟩),
        .array .uint16 (.plain ⟨⟨0x400000000000, 0, 1⟩⟩)] ∧
      ArrayLike.distance (ArrayLike.offset (⟨⟨0x400000000000, 0, 1⟩⟩ : ArrayPtr .uint16)
        4611686018427387904) ⟨⟨0x400000000000, 0, 1⟩⟩ = -4611686018427387904 ∧
      (-4611686018427387904 : Int64) ≠ 4611686018427387904 := by
  refine ⟨reachable_shortMoved .scoped, rfl, by decide, by decide⟩

end Program

end CheckedMemory
