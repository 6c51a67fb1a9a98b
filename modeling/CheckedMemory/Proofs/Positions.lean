import CheckedMemory.Proofs.Bytes
import CheckedMemory.Proofs.Distance

/-!
# Positions of one array

The positions of an array of `n` elements are those from its first element to one past its last
(`Span.nth`), and two pointers to positions can be compared in two ways.  Their order and equality
are those of their addresses, and their difference is the byte distance divided by the size of an
element.  If elements have bytes and the array does not wrap around the address space, both say of
two positions what their numbers say, except that a difference of too many bytes is not a signed
word (`Span.InReach`).

Elements without bytes are all at one address.  Only the difference tells their positions apart; the
comparison finds any two of them equal, also the first and the one past the last.  So the loop that
moves a pointer forward until it equals the end of the array (`ArrayLike.Passes`) passes every
element once if elements have bytes, and none if they have not.

Main statement: `ArrayLike.positions_agree`.
-/

namespace CheckedMemory

variable {s t : Span} {size : UInt64} {i j k n : Nat}

/-! ## 1. Words -/

namespace Word

theorem compare_eq_toNat (a b : UInt64) : compare a b = compare a.toNat b.toNat := by
  change compareOfLessAndEq a b = compareOfLessAndEq a.toNat b.toNat
  unfold compareOfLessAndEq
  simp only [UInt64.lt_iff_toNat_lt, UInt64.toNat_inj]

/-- Counted in steps of `k`, numbers are ordered as they are, unless the steps are none. -/
theorem compare_add_mul (a i j k : Nat) :
    compare (a + i * k) (a + j * k) = if k = 0 then .eq else compare i j := by
  split
  · rename_i hzero
    rw [hzero, Nat.mul_zero, Nat.mul_zero]
    exact Nat.compare_eq_eq.mpr rfl
  · rename_i hpos
    have hless : ∀ {x y : Nat}, a + x * k < a + y * k ↔ x < y := by
      intro x y
      rw [Nat.add_lt_add_iff_left, Nat.mul_lt_mul_right (Nat.pos_of_ne_zero hpos)]
    rw [Nat.compare_eq_ite_lt, Nat.compare_eq_ite_lt]
    simp only [hless]

end Word

/-! ## 2. The positions of an array -/

namespace Span

/-- The same array at its element `k`. -/
def nth (s : Span) (k : Nat) : Span := { s with index := Int64.ofNat k }

theorem shift_nth (s : Span) (k m : Nat) : (s.nth k).shift (Int64.ofNat m) = s.nth (k + m) := by
  unfold shift nth
  rw [Int64.ofNat_add]

/-- The start is found from everywhere but the least index. -/
theorem toBegin_eq_ok_iff : s.toBegin = .ok t ↔ s.index ≠ Int64.minValue ∧ t = s.nth 0 := by
  have hmoved : s.shift (-s.index) = s.nth 0 := by
    unfold shift nth
    rw [Int64.add_right_neg]
    rfl
  unfold toBegin
  rw [hmoved]
  split
  · rename_i hmin
    exact ⟨fun h => (nomatch h), fun h => absurd hmin h.1⟩
  · rename_i hmin
    rw [Except.ok.injEq]
    exact ⟨fun h => ⟨hmin, h.symm⟩, fun h => h.2.symm⟩

/-- The end is found where the way to it is a signed word. -/
theorem toEnd_eq_ok_iff : s.toEnd = .ok t ↔
    (-2 ^ 63 ≤ s.extent.toInt64.toInt - s.index.toInt ∧
      s.extent.toInt64.toInt - s.index.toInt < 2 ^ 63) ∧ t = s.nth s.extent.toNat := by
  have hlast : s.extent.toInt64 = Int64.ofNat s.extent.toNat := by
    rw [← UInt64.toInt64_ofNat', UInt64.ofNat_toNat]
  have hmoved : s.shift (Int64.ofInt (s.extent.toInt64.toInt - s.index.toInt)) =
      s.nth s.extent.toNat := by
    unfold shift nth
    rw [Int64.ofInt_sub, Int64.ofInt_toInt, Int64.ofInt_toInt, Int64.add_comm,
      Int64.sub_add_cancel, hlast]
  unfold toEnd
  dsimp only
  rw [hmoved]
  split
  · rename_i hfar
    exact ⟨fun h => (nomatch h), fun h => by omega⟩
  · rename_i hnear
    rw [Except.ok.injEq]
    exact ⟨fun h => ⟨by omega, h.symm⟩, fun h => h.2.symm⟩

/-- The addresses of positions are exact if the array does not wrap around the address space. -/
theorem toNat_address_nth (hfit : s.base.toNat + s.extent.toNat * size.toNat < 2 ^ 64)
    (hk : k ≤ s.extent.toNat) : ((s.nth k).address size).toNat = s.base.toNat + k * size.toNat := by
  have hlt := s.extent.toNat_lt
  have hmul : k * size.toNat ≤ s.extent.toNat * size.toNat := Nat.mul_le_mul_right _ hk
  have hword : (UInt64.ofNat k).toNat = k := Word.toNat_ofNat (by omega)
  have haddr : (s.nth k).address size = s.base + (Int64.ofNat k).toUInt64 * size := rfl
  rw [haddr, Int64.toUInt64_ofNat', UInt64.toNat_add, UInt64.toNat_mul, hword,
    Nat.mod_eq_of_lt (a := k * _) (by omega), Nat.mod_eq_of_lt (by omega)]

/-- In reach of elements that count as one byte if they have none: besides, a signed word. -/
theorem inReach_max_iff {n : Int} :
    InReach (max size 1) n ↔ (-2 ^ 63 ≤ n ∧ n < 2 ^ 63) ∧ InReach size n := by
  have hone := Word.toNat_max_one size
  unfold InReach
  rw [hone]
  rcases Nat.eq_zero_or_pos size.toNat with hzero | hpos
  · rw [hzero, show max 0 1 = 1 from rfl]
    omega
  · rw [Nat.max_eq_left hpos]
    refine ⟨fun h => ⟨?_, h⟩, fun h => h.2⟩
    have hpos' : (1 : Int) ≤ size.toNat := by omega
    rcases Int.le_total 0 n with hn | hn
    · have hle : n * 1 ≤ n * size.toNat := Int.mul_le_mul_of_nonneg_left hpos' hn
      omega
    · have hle : n * size.toNat ≤ n * 1 := Int.mul_le_mul_of_nonpos_left hn hpos'
      omega

/-- **The difference of two positions is that of their numbers** exactly if it is in reach, where
elements without bytes count as if they had one. -/
theorem toInt_distance_nth_iff (hsize : size.toNat < 2 ^ 63) :
    ((s.nth i).distance (s.nth j) size).toInt = i - j ↔ InReach (max size 1) (i - j) := by
  have hindex : (s.nth i).index - (s.nth j).index = Int64.ofInt (i - j) := by
    rw [Int64.ofInt_sub, Int64.ofInt_eq_ofNat, Int64.ofInt_eq_ofNat]
    rfl
  rw [inReach_max_iff]
  constructor
  · intro heq
    have hlo := ((s.nth i).distance (s.nth j) size).le_toInt
    have hhi := ((s.nth i).distance (s.nth j) size).toInt_lt
    have hword : -2 ^ 63 ≤ (i : Int) - j ∧ (i : Int) - j < 2 ^ 63 := by omega
    have hexact := Int64.toInt_ofInt_of_le hword.1 hword.2
    have hreach := (distance_eq_iff (s := s.nth i) (t := s.nth j) hsize rfl).mp
      (Int64.toInt_inj.mp (by rw [heq, hindex, hexact]))
    rw [hindex, hexact] at hreach
    exact ⟨hword, hreach⟩
  · rintro ⟨hword, hreach⟩
    have hexact := Int64.toInt_ofInt_of_le hword.1 hword.2
    rw [(distance_eq_iff (s := s.nth i) (t := s.nth j) hsize rfl).mpr (by rwa [hindex, hexact]),
      hindex, hexact]

/-- Any two positions of an array of so few elements and bytes are in reach. -/
theorem inReach_of_le (hn : n * max size.toNat 1 < 2 ^ 63) (hi : i ≤ n) (hj : j ≤ n) :
    InReach (max size 1) (i - j) := by
  have hone := Word.toNat_max_one size
  have hi' : i * max size.toNat 1 ≤ n * max size.toNat 1 := Nat.mul_le_mul_right _ hi
  have hj' : j * max size.toNat 1 ≤ n * max size.toNat 1 := Nat.mul_le_mul_right _ hj
  unfold InReach
  rw [hone, Int.sub_mul]
  omega

end Span

/-! ## 3. A loop over the array -/

namespace ArrayLike

variable {P : ElemType → Type} [ArrayLike P] {τ : ElemType}

/-- The passes of a loop that moves a pointer forward by one until it equals `stop`: where the
pointer is in each. -/
inductive Passes (stop : P τ) : P τ → List Span → Prop where
  | done {p : P τ} (hsame : sameAddress p stop = true) : Passes stop p []
  | pass {p : P τ} {ss : List Span} (hsame : sameAddress p stop = false)
      (hrest : Passes stop (increment p) ss) : Passes stop p (span p :: ss)

variable {p stop : P τ} {ss : List Span}

theorem passes_iff_of_same (hsame : sameAddress p stop = true) : Passes stop p ss ↔ ss = [] := by
  constructor
  · intro h
    cases h with
    | done => rfl
    | pass hno => rw [hsame] at hno; cases hno
  · rintro rfl
    exact .done hsame

theorem passes_iff_of_not_same (hsame : sameAddress p stop = false) :
    Passes stop p ss ↔ ∃ rest, ss = span p :: rest ∧ Passes stop (increment p) rest := by
  constructor
  · intro h
    cases h with
    | done hyes => rw [hsame] at hyes; cases hyes
    | pass _ hrest => exact ⟨_, rfl, hrest⟩
  · rintro ⟨rest, rfl, hrest⟩
    exact .pass hsame hrest

theorem toBegin_eq_ok_iff {a b : P τ} : toBegin a = .ok b ↔
    (span a).index ≠ Int64.minValue ∧ b = withSpan a ((span a).nth 0) := by
  unfold toBegin
  constructor
  · intro h
    obtain ⟨t, ht, rfl⟩ := exists_ok_of_map h
    obtain ⟨hindex, rfl⟩ := Span.toBegin_eq_ok_iff.mp ht
    exact ⟨hindex, rfl⟩
  · rintro ⟨hindex, rfl⟩
    rw [Span.toBegin_eq_ok_iff.mpr ⟨hindex, rfl⟩]
    rfl

theorem toEnd_eq_ok_iff {a e : P τ} : toEnd a = .ok e ↔
    (-2 ^ 63 ≤ (span a).extent.toInt64.toInt - (span a).index.toInt ∧
      (span a).extent.toInt64.toInt - (span a).index.toInt < 2 ^ 63) ∧
        e = withSpan a ((span a).nth (span a).extent.toNat) := by
  unfold toEnd
  constructor
  · intro h
    obtain ⟨t, ht, rfl⟩ := exists_ok_of_map h
    obtain ⟨hnear, rfl⟩ := Span.toEnd_eq_ok_iff.mp ht
    exact ⟨hnear, rfl⟩
  · rintro ⟨hnear, rfl⟩
    rw [Span.toEnd_eq_ok_iff.mpr ⟨hnear, rfl⟩]
    rfl

theorem span_offset_nth {s : Span} {k m : Nat} (hp : span p = s.nth k) :
    span (offset p (Int64.ofNat m)) = s.nth (k + m) := by
  unfold offset
  rw [span_withSpan, hp, Span.shift_nth]

theorem sameAddress_iff {q : P τ} :
    sameAddress p q = true ↔ (address p).toNat = (address q).toNat := by
  unfold sameAddress
  rw [beq_iff_eq, UInt64.toNat_inj]

/-- The address of a pointer at a position. -/
theorem toNat_address {s : Span} {k : Nat} (hp : span p = s.nth k)
    (hfit : s.base.toNat + s.extent.toNat * τ.layout.size < 2 ^ 64) (hk : k ≤ s.extent.toNat) :
    (address p).toNat = s.base.toNat + k * τ.layout.size := by
  unfold address
  rw [hp, Span.toNat_address_nth (by rwa [τ.toNat_size]) hk, τ.toNat_size]

/-- **A loop to the end of an array passes each element from where it starts on.**  The induction is
on how many elements are left. -/
theorem passes_to_end_iff {s : Span} (hsize : τ.layout.size ≠ 0)
    (hfit : s.base.toNat + s.extent.toNat * τ.layout.size < 2 ^ 64)
    (hstop : span stop = s.nth s.extent.toNat) {m k : Nat} (hm : k + m = s.extent.toNat)
    (hp : span p = s.nth k) : Passes stop p ss ↔ ss = (List.range' k m).map s.nth := by
  have hhere := toNat_address hp hfit (by omega)
  have hend := toNat_address hstop hfit (Nat.le_refl _)
  induction m generalizing k p ss with
  | zero => exact passes_iff_of_same (sameAddress_iff.mpr (by rw [hhere, hend, ← hm, Nat.add_zero]))
  | succ m ih =>
    have hless : k * τ.layout.size < s.extent.toNat * τ.layout.size :=
      Nat.mul_lt_mul_of_pos_right (by omega) (Nat.pos_of_ne_zero hsize)
    have hno : sameAddress p stop = false := by
      rw [← Bool.not_eq_true, sameAddress_iff]
      omega
    have hnext : span (increment p) = s.nth (k + 1) := span_offset_nth hp
    rw [passes_iff_of_not_same hno, List.range'_succ, List.map_cons, ← hp]
    have hrest : ∀ ts : List Span,
        Passes stop (increment p) ts ↔ ts = (List.range' (k + 1) m).map s.nth :=
      fun _ => ih (by omega) hnext (toNat_address hnext hfit (by omega))
    simp only [hrest, exists_eq_right]

/-! ## 4. The two comparisons -/

/-- What comparisons say of the positions of the array of `a`, where `b` is at its first element. -/
structure PositionsAgree (a b : P τ) : Prop where
  span_eq : span b = (span a).nth 0
  /-- Position `k` is so many elements from the base. -/
  address_eq : ∀ k ≤ (span a).extent.toNat, (address (offset b (Int64.ofNat k))).toNat =
    (span a).base.toNat + k * τ.layout.size
  /-- The difference of two positions is that of their numbers exactly if it is in reach. -/
  distance_iff : ∀ i ≤ (span a).extent.toNat, ∀ j ≤ (span a).extent.toNat,
    (distance (offset b (Int64.ofNat i)) (offset b (Int64.ofNat j))).toInt = i - j ↔
      Span.InReach (max τ.size 1) (i - j)
  /-- So are all in an array of so few elements and bytes. -/
  distance_eq : (span a).extent.toNat * max τ.layout.size 1 < 2 ^ 63 →
    ∀ i ≤ (span a).extent.toNat, ∀ j ≤ (span a).extent.toNat,
      (distance (offset b (Int64.ofNat i)) (offset b (Int64.ofNat j))).toInt = i - j
  /-- Positions are ordered as their numbers are, unless elements have no bytes. -/
  compare_eq : ∀ i ≤ (span a).extent.toNat, ∀ j ≤ (span a).extent.toNat,
    compareAddress (offset b (Int64.ofNat i)) (offset b (Int64.ofNat j)) =
      if τ.layout.size = 0 then .eq else compare i j
  same_iff : ∀ i ≤ (span a).extent.toNat, ∀ j ≤ (span a).extent.toNat,
    sameAddress (offset b (Int64.ofNat i)) (offset b (Int64.ofNat j)) = true ↔
      τ.layout.size = 0 ∨ i = j
  /-- The loop from the first element to the end passes each of them, unless they have no bytes. -/
  passes_iff : ∀ e, toEnd a = .ok e → ∀ ss, Passes e b ss ↔ ss =
    if τ.layout.size = 0 then [] else (List.range (span a).extent.toNat).map (span a).nth

theorem positionsAgree_of_span {a b : P τ} (hb : span b = (span a).nth 0)
    (hfit : (span a).base.toNat + (span a).extent.toNat * τ.layout.size < 2 ^ 64) :
    PositionsAgree a b := by
  have hspan : ∀ k : Nat, span (offset b (Int64.ofNat k)) = (span a).nth k := by
    intro k
    rw [span_offset_nth hb, Nat.zero_add]
  have haddr : ∀ k ≤ (span a).extent.toNat, (address (offset b (Int64.ofNat k))).toNat =
      (span a).base.toNat + k * τ.layout.size := fun k hk => toNat_address (hspan k) hfit hk
  have hdist : ∀ i j : Nat,
      (distance (offset b (Int64.ofNat i)) (offset b (Int64.ofNat j))).toInt = i - j ↔
        Span.InReach (max τ.size 1) (i - j) := by
    intro i j
    unfold distance
    rw [hspan, hspan]
    exact Span.toInt_distance_nth_iff τ.toNat_size_lt
  refine ⟨hb, haddr, fun i _ j _ => hdist i j, fun hfew i hi j hj => ?_, fun i hi j hj => ?_,
    fun i hi j hj => ?_, fun e he ss => ?_⟩
  · exact (hdist i j).mpr (Span.inReach_of_le (by rwa [τ.toNat_size]) hi hj)
  · unfold compareAddress
    rw [Word.compare_eq_toNat, haddr i hi, haddr j hj]
    exact Word.compare_add_mul _ i j τ.layout.size
  · rw [sameAddress_iff, ← Nat.compare_eq_eq, haddr i hi, haddr j hj, Word.compare_add_mul]
    split
    · rename_i hzero
      exact ⟨fun _ => .inl hzero, fun _ => rfl⟩
    · rename_i hpos
      rw [Nat.compare_eq_eq, or_iff_right hpos]
  · obtain ⟨-, rfl⟩ := toEnd_eq_ok_iff.mp he
    split
    · rename_i hzero
      refine passes_iff_of_same (sameAddress_iff.mpr ?_)
      rw [toNat_address hb hfit (Nat.zero_le _),
        toNat_address (span_withSpan a _) hfit (Nat.le_refl _), hzero, Nat.mul_zero, Nat.mul_zero]
    · rename_i hpos
      rw [passes_to_end_iff hpos hfit (span_withSpan a _) (Nat.zero_add _) hb,
        List.range_eq_range']

/-- **In an array that does not wrap around the address space** the two comparisons agree as far as
elements have bytes and differences are in reach.  Its start and its end are found from all indices
but those that are too far from them. -/
theorem positions_agree (a : P τ)
    (hfit : (span a).base.toNat + (span a).extent.toNat * τ.layout.size < 2 ^ 64) :
    ((∃ b, toBegin a = .ok b) ↔ (span a).index ≠ Int64.minValue) ∧
      ((∃ e, toEnd a = .ok e) ↔
        -2 ^ 63 ≤ (span a).extent.toInt64.toInt - (span a).index.toInt ∧
          (span a).extent.toInt64.toInt - (span a).index.toInt < 2 ^ 63) ∧
      ∀ b, toBegin a = .ok b → PositionsAgree a b := by
  refine ⟨⟨?_, fun h => ⟨_, toBegin_eq_ok_iff.mpr ⟨h, rfl⟩⟩⟩,
    ⟨?_, fun h => ⟨_, toEnd_eq_ok_iff.mpr ⟨h, rfl⟩⟩⟩, fun b hb => ?_⟩
  · rintro ⟨b, hb⟩
    exact (toBegin_eq_ok_iff.mp hb).1
  · rintro ⟨e, he⟩
    exact (toEnd_eq_ok_iff.mp he).1
  · obtain ⟨-, rfl⟩ := toBegin_eq_ok_iff.mp hb
    exact positionsAgree_of_span (span_withSpan a _) hfit

end ArrayLike

namespace Program

/-- The third of three words: found from it, the start is where the words start, and the loop from
there passes all three. -/
theorem positions_agree_three_words :
    (wordsAt 2).span.base.toNat + (wordsAt 2).span.extent.toNat * (ElemType.layout .uint32).size <
        2 ^ 64 ∧
      ArrayLike.toBegin (wordsAt 2) = .ok (wordsAt 0) ∧
      ArrayLike.toEnd (wordsAt 2) = .ok (wordsAt 3) ∧
      ArrayLike.PositionsAgree (wordsAt 2) (wordsAt 0) ∧
      ArrayLike.Passes (wordsAt 3) (wordsAt 0)
        [(wordsAt 0).span, (wordsAt 1).span, (wordsAt 2).span] := by
  have hfit : (wordsAt 2).span.base.toNat +
      (wordsAt 2).span.extent.toNat * (ElemType.layout .uint32).size < 2 ^ 64 := by decide
  have hbegin : ArrayLike.toBegin (wordsAt 2) = .ok (wordsAt 0) := rfl
  have hend : ArrayLike.toEnd (wordsAt 2) = .ok (wordsAt 3) := rfl
  have hagree := (ArrayLike.positions_agree (wordsAt 2) hfit).2.2 _ hbegin
  exact ⟨hfit, hbegin, hend, hagree, (hagree.passes_iff _ hend _).mpr rfl⟩

/-- An array of two values without bytes. -/
def twoUnits : Program :=
  initial.run (giving (.array .unit ∘ .plain) (ArrayPtr.new .unit 2 false))

theorem reachable_twoUnits (δ : Discipline) : Reachable δ twoUnits :=
  .tail .refl (.act (.make (.block (.array .unit 2 false))))

/-- A pointer to it at an index. -/
def unitsAt (i : Int64) : ArrayPtr .unit := ⟨⟨0x400000000000, i, 2⟩⟩

/-- **Comparison and difference do not always agree.**  The start of two values without bytes equals
the end, from which it is two elements away, and a loop from one to the other passes nothing.  In an
array of more bytes than a signed word can say, the difference of the end and the start is negative.
And from the least index neither start nor end is found. -/
theorem exists_positions_disagree :
    (Reachable .scoped twoUnits ∧ .array .unit (.plain (unitsAt 0)) ∈ twoUnits.handles ∧
      (unitsAt 0).span.base ≠ 0 ∧
      (unitsAt 0).span.base.toNat + (unitsAt 0).span.extent.toNat * (ElemType.layout .unit).size <
        2 ^ 64 ∧
      ArrayLike.toBegin (unitsAt 0) = .ok (unitsAt 0) ∧
      ArrayLike.toEnd (unitsAt 0) = .ok (unitsAt 2) ∧
      ArrayLike.distance (unitsAt 0) (unitsAt 2) = -2 ∧
      ArrayLike.compareAddress (unitsAt 0) (unitsAt 2) = .eq ∧
      ArrayLike.sameAddress (unitsAt 0) (unitsAt 2) = true ∧
      ArrayLike.Passes (unitsAt 2) (unitsAt 0) []) ∧
    (∃ a e : ArrayPtr .uint16, a.span.base ≠ 0 ∧
      a.span.base.toNat + a.span.extent.toNat * (ElemType.layout .uint16).size < 2 ^ 64 ∧
      ArrayLike.toBegin a = .ok a ∧ ArrayLike.toEnd a = .ok e ∧
      a.span.extent = 4611686018427387904 ∧ ArrayLike.distance e a = -4611686018427387904) ∧
    ∀ b, ArrayLike.toBegin (wordsAt Int64.minValue) ≠ .ok b ∧
      ArrayLike.toEnd (wordsAt Int64.minValue) ≠ .ok b := by
  refine ⟨⟨reachable_twoUnits .scoped, List.mem_cons_self, by decide, by decide, rfl, rfl,
    by decide, by decide, by decide, .done (by decide)⟩, ?_, ?_⟩
  · exact ⟨⟨⟨2, 0, 4611686018427387904⟩⟩, ⟨⟨2, 4611686018427387904, 4611686018427387904⟩⟩,
      by decide, by decide, rfl, rfl, rfl, by decide⟩
  · exact fun b => ⟨nofun, nofun⟩

end Program

end CheckedMemory
