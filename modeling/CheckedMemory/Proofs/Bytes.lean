import CheckedMemory.Bulk
import CheckedMemory.Proofs.Contents
import CheckedMemory.Proofs.Steps

/-!
# Bytes behind an array

The byte operations check whole elements and then touch bytes.  For elements that have bytes the
two agree: so many bytes as pass the check lie inside the array, and the operation writes and reads
those and no others.  The divisor that turns bytes into elements counts an element without bytes as
one byte, and there the check passes for as many bytes as there are elements, none of which the
array has.

Main statement: `Bulk.bytes_inside_iff`.  The closed case below it, an array of three values without
bytes, lets one byte be set that belongs to none of them.
-/

namespace CheckedMemory

open Operation

/-! ## 1. Bytes counted in elements -/

namespace Word

theorem toNat_ceilDiv (n d : UInt64) : (ceilDiv n d).toNat =
    n.toNat / max d.toNat 1 + if n.toNat % max d.toNat 1 = 0 then 0 else 1 := by
  have hn := n.toNat_lt
  have hmod : n % max d 1 = 0 ↔ n.toNat % max d.toNat 1 = 0 := by
    rw [← UInt64.toNat_inj, UInt64.toNat_mod, toNat_max_one]
    rfl
  simp only [ceilDiv]
  by_cases h0 : n.toNat % max d.toNat 1 = 0
  · rw [if_pos (hmod.mpr h0), if_pos h0, UInt64.toNat_add, UInt64.toNat_div, toNat_max_one]
    have hle := Nat.div_le_self n.toNat (max d.toNat 1)
    exact Nat.mod_eq_of_lt (by change _ + 0 < _; omega)
  · rw [if_neg (mt hmod.mp h0), if_neg h0, UInt64.toNat_add, UInt64.toNat_div, toNat_max_one]
    -- a remainder needs a divisor of two at least, and the quotient is half the word at most
    have htwo : 2 ≤ max d.toNat 1 := by
      refine Nat.lt_of_not_le fun hle => h0 ?_
      rw [show max d.toNat 1 = 1 by omega, Nat.mod_one]
    have hle := Nat.div_le_div_left (c := 2) (a := n.toNat) htwo (by decide)
    exact Nat.mod_eq_of_lt (by change _ + 1 < _; omega)

/-- The elements counted hold all of the bytes, if elements have bytes. -/
theorem le_ceilDiv_mul (n : UInt64) {d : UInt64} (hd : d.toNat ≠ 0) :
    n.toNat ≤ (ceilDiv n d).toNat * d.toNat := by
  have hmax : max d.toNat 1 = d.toNat := by omega
  rw [toNat_ceilDiv, hmax, Nat.add_mul]
  have hdiv := Nat.div_add_mod n.toNat d.toNat
  rw [Nat.mul_comm] at hdiv
  have hlt := Nat.mod_lt n.toNat (Nat.pos_of_ne_zero hd)
  split
  · omega
  · omega

/-- Elements without bytes count one for every byte. -/
theorem ceilDiv_of_zero (n : UInt64) {d : UInt64} (hd : d.toNat = 0) : ceilDiv n d = n := by
  apply UInt64.toNat_inj.mp
  rw [toNat_ceilDiv, hd]
  simp [Nat.mod_one]

theorem ceilDiv_ne_zero {n d : UInt64} (hn : n ≠ 0) : ceilDiv n d ≠ 0 := by
  intro h0
  by_cases hd : d.toNat = 0
  · rw [ceilDiv_of_zero n hd] at h0
    exact hn h0
  · have hle := le_ceilDiv_mul n hd
    rw [h0] at hle
    refine hn (UInt64.toNat_inj.mp ?_)
    change n.toNat = 0
    change n.toNat ≤ 0 * _ at hle
    omega

theorem toNat_pos {n : UInt64} (hn : n ≠ 0) : 0 < n.toNat :=
  Nat.pos_of_ne_zero fun h0 => hn (UInt64.toNat_inj.mp h0)

/-- A signed word that is not negative is the same number unsigned. -/
theorem toNat_toUInt64 {i : Int64} (hi : 0 ≤ i.toInt) : (i.toUInt64.toNat : Int) = i.toInt := by
  have hcond := BitVec.toInt_eq_toNat_cond i.toBitVec
  have hlt := i.toUInt64.toNat_lt
  change 0 ≤ i.toBitVec.toInt at hi
  change (i.toBitVec.toNat : Int) = i.toBitVec.toInt
  split at hcond
  · exact hcond.symm
  · change i.toBitVec.toNat < _ at hlt
    omega

theorem ofNat_toInt {i : Int64} (hi : 0 ≤ i.toInt) : UInt64.ofNat i.toInt.toNat = i.toUInt64 := by
  have hnat := toNat_toUInt64 hi
  have hlt := i.toInt_lt
  refine UInt64.toNat_inj.mp ?_
  rw [UInt64.toNat_ofNat', Nat.mod_eq_of_lt (by omega)]
  omega

end Word

/-! ## 2. What the check lets through -/

namespace Span

variable {s : Span} {n : UInt64}

theorem inExtent_iff {i : Int64} :
    inExtent i n = true ↔ 0 ≤ i.toInt ∧ i.toInt < n.toNat := by
  have hsign : (0 : Int64) ≤ i ↔ 0 ≤ i.toInt := Int64.le_iff_toInt_le
  simp only [inExtent, Bool.and_eq_true, decide_eq_true_eq, hsign, UInt64.lt_iff_toNat_lt]
  refine and_congr_right fun h0 => ?_
  rw [← Word.toNat_toUInt64 h0, Int.ofNat_lt]

/-- `n` bytes from the current element on are among the bytes of the array. -/
def Includes (s : Span) (size n : Nat) : Prop :=
  0 ≤ s.index.toInt ∧ s.index.toInt * size + n ≤ s.extent.toNat * size

/-- `n` bytes from `a` on are none of the bytes of the array. -/
def Misses (s : Span) (size : Nat) (a : Address) (n : Nat) : Prop :=
  a.toNat + n ≤ s.base.toNat ∨ s.base.toNat + s.extent.toNat * size ≤ a.toNat

theorem isOk_window_iff {size count : UInt64} (hc : count ≠ 0) :
    (s.window size count).isOk = true ↔
      s.base ≠ 0 ∧ 0 ≤ s.index.toInt ∧ s.index.toInt + count.toNat ≤ s.extent.toNat := by
  have hindex : 0 ≤ s.index ↔ 0 ≤ s.index.toInt := Int64.le_iff_toInt_le
  unfold window isNull
  rw [if_neg hc]
  split
  · rename_i hnull
    have : s.base = 0 := by simpa using hnull
    simp [this, Except.isOk, Except.toBool]
  · rename_i hnull
    have hne : s.base ≠ 0 := by simpa using hnull
    split
    · rename_i hin
      have hnat := Word.toNat_toUInt64 (hindex.mp hin.1)
      exact ⟨fun _ => ⟨hne, hindex.mp hin.1, by omega⟩, fun _ => rfl⟩
    · rename_i hout
      constructor
      · intro h
        cases h
      · rintro ⟨-, h0, hle⟩
        have hnat := Word.toNat_toUInt64 h0
        exact absurd ⟨hindex.mpr h0, by omega⟩ hout

/-- **For elements that have bytes, the bytes let through are the array's.** -/
theorem includes_of_admitsBytes {size : UInt64} (hsize : size.toNat ≠ 0) (hn : n ≠ 0)
    (h : s.admitsBytes size n = true) : s.base ≠ 0 ∧ s.Includes size.toNat n.toNat := by
  obtain ⟨hne, h0, hle⟩ := (isOk_window_iff (Word.ceilDiv_ne_zero hn)).mp h
  have hbytes := Word.le_ceilDiv_mul n hsize
  have hmul : (s.index.toInt + (Word.ceilDiv n size).toNat) * size.toNat ≤
      s.extent.toNat * size.toNat :=
    Int.mul_le_mul_of_nonneg_right (by omega) (Int.natCast_nonneg _)
  rw [Int.add_mul] at hmul
  refine ⟨hne, h0, ?_⟩
  have hcast : (n.toNat : Int) ≤ (Word.ceilDiv n size).toNat * size.toNat := by
    exact_mod_cast hbytes
  omega

/-- For elements without bytes, as many bytes are let through as there are elements left. -/
theorem admitsBytes_of_zero {size : UInt64} (hsize : size.toNat = 0) (hn : n ≠ 0) :
    s.admitsBytes size n = true ↔
      s.base ≠ 0 ∧ 0 ≤ s.index.toInt ∧ s.index.toInt + n.toNat ≤ s.extent.toNat := by
  unfold admitsBytes
  rw [Word.ceilDiv_of_zero n hsize]
  exact isOk_window_iff hn

/-- **The bytes let through are the array's exactly if its elements have bytes.** -/
theorem includes_iff_of_admitsBytes {size : UInt64} (hn : n ≠ 0)
    (h : s.admitsBytes size n = true) : s.Includes size.toNat n.toNat ↔ size.toNat ≠ 0 := by
  constructor
  · rintro ⟨-, hle⟩ h0
    have hpos : n.toNat ≠ 0 := fun h => hn (UInt64.toNat_inj.mp h)
    rw [h0] at hle
    simp only [Int.natCast_zero, Int.mul_zero, Int.zero_add] at hle
    omega
  · intro hsize
    exact (includes_of_admitsBytes hsize hn h).2

end Span

/-! ## 3. What the operations touch -/

/-- The span is null, or the bytes of its whole extent lie in one area. -/
def World.BacksBytes (w : World) (size : Nat) (s : Span) : Prop :=
  s.base = 0 ∨ ∃ q ∈ w.memory.plots, q.Covers s.base.toNat (s.extent.toNat * size)

section Effects

variable {P Q : ElemType → Type} [ArrayLike P] [ArrayLike Q] {τ : ElemType} {p : P τ} {q : Q τ}
  {past : List Block} {w w' : World} {n : UInt64} {b : UInt8}

/-- The operation has put cells at the pointer's current element, and no cell but those and nothing
but memory has changed.  The bytes of the array hold all of them. -/
structure ArrayLike.Overwritten (p : P τ) (cs : List Cell) (w w' : World) : Prop where
  memory : w' = { w with memory := w'.memory }
  inside : w'.memory.cells (ArrayLike.address p) cs.length = cs
  outside : ∀ (a : Address) (k : Nat), (ArrayLike.span p).Misses τ.layout.size a k →
    w'.memory.cells a k = w.memory.cells a k

/-- Bytes of an array that is backed lie where its area does, from the current element on. -/
theorem ArrayLike.covers_address (h : w.Sound past) (hsize : τ.layout.size ≠ 0)
    (hp : w.BacksBytes τ.layout.size (span p)) (hn : n ≠ 0) (hcheck : spatialCheck p n = true) :
    (∃ r ∈ w.memory.plots, r.Covers (address p).toNat n.toNat) ∧
      (span p).base.toNat ≤ (address p).toNat ∧ (address p).toNat + n.toNat ≤
        (span p).base.toNat + (span p).extent.toNat * τ.layout.size := by
  rw [← τ.toNat_size] at hsize
  obtain ⟨hne, h0, hle⟩ := Span.includes_of_admitsBytes hsize hn hcheck
  rw [τ.toNat_size] at hle
  obtain ⟨r, hr, hlo, hhi⟩ := hp.resolve_left hne
  have hstop := h.stop_lt hr
  have hnat := Word.toNat_toUInt64 h0
  have hin : (span p).index.toUInt64.toNat * τ.layout.size + n.toNat ≤
      (span p).extent.toNat * τ.layout.size := by
    rw [← hnat] at hle
    exact_mod_cast hle
  have haddr : (address p).toNat =
      (span p).base.toNat + (span p).index.toUInt64.toNat * τ.layout.size := by
    unfold address Span.address Span.elementAddress
    rw [UInt64.toNat_add, UInt64.toNat_mul, τ.toNat_size, Nat.mod_eq_of_lt (a := _ * _) (by omega),
      Nat.mod_eq_of_lt (by omega)]
  exact ⟨⟨r, hr, by omega, by omega⟩, by omega, by omega⟩

namespace Bulk

/-- An operation that checks bytes first is refused unless the check passes. -/
theorem exists_of_not_refused {α : Type} {r : Except Violation Address} {f : Address → Operation α}
    (h : ∀ v, (outcome (check r >>= f) w).1 ≠ .error (.violation v)) :
    ∃ a, r = .ok a ∧ outcome (check r >>= f) w = outcome (f a) w := by
  cases r with
  | ok a => exact ⟨a, rfl, rfl⟩
  | error v => exact absurd rfl (h v)

theorem spatialCheck_of_requireBytes {a : Address} (h : requireBytes p n = .ok a) :
    ArrayLike.spatialCheck p n = true := by
  unfold requireBytes ArrayLike.requireSpan at h
  unfold ArrayLike.spatialCheck Span.admitsBytes
  rw [h]
  rfl

theorem requireBytes_of_spatialCheck (h : ArrayLike.spatialCheck p n = true) :
    requireBytes p n = .ok (ArrayLike.address p) := by
  unfold ArrayLike.spatialCheck Span.admitsBytes at h
  unfold requireBytes ArrayLike.requireSpan
  cases hw : (ArrayLike.span p).window τ.size (Word.ceilDiv n τ.size) with
  | error v =>
    rw [hw] at h
    cases h
  | ok a => rw [Span.window_address hw, ArrayLike.address]

/-- A store where the bytes of an array are overwrites them and no others. -/
theorem overwritten_of_store (h : w.Sound past) (hsize : τ.layout.size ≠ 0)
    (hp : w.BacksBytes τ.layout.size (ArrayLike.span p)) (hn : n ≠ 0)
    (hcheck : ArrayLike.spatialCheck p n = true) {cs : Runs Cell} (hlen : cs.length = n.toNat) :
    ∃ w', outcome (store (ArrayLike.address p) cs) w = (.ok (), w') ∧
      ArrayLike.Overwritten p cs.toList w w' := by
  obtain ⟨⟨r, hr, hcov⟩, hlo, hhi⟩ := ArrayLike.covers_address h hsize hp hn hcheck
  obtain ⟨m, hm⟩ := Memory.exists_write? hr (hlen ▸ hcov)
  refine ⟨_, outcome_store hm, rfl, ?_, ?_⟩
  · rw [Runs.length_toList]
    exact Memory.cells_write?_same hm
  · rintro a k (hbefore | hafter)
    · exact Memory.cells_write?_of_disjoint hm (.inl (by omega))
    · exact Memory.cells_write?_of_disjoint hm (.inr (by omega))

/-- The bytes of an array that passed the check can be read. -/
theorem exists_load (h : w.Sound past) (hsize : τ.layout.size ≠ 0)
    (hp : w.BacksBytes τ.layout.size (ArrayLike.span p)) (hn : n ≠ 0)
    (hcheck : ArrayLike.spatialCheck p n = true) :
    ∃ cs : Runs Cell, outcome (load (ArrayLike.address p) n.toNat) w = (.ok cs, w) ∧
      cs.length = n.toNat ∧ cs.toList = w.memory.cells (ArrayLike.address p) n.toNat := by
  obtain ⟨⟨r, hr, hcov⟩, -⟩ := ArrayLike.covers_address h hsize hp hn hcheck
  obtain ⟨cs, hcs⟩ := Memory.exists_read? hr hcov
  exact ⟨cs, outcome_load hcs, Memory.length_of_read? hcs, (Memory.cells_eq hcs).symm⟩

theorem outcome_memset (h : w.Sound past) (hsize : τ.layout.size ≠ 0)
    (hp : w.BacksBytes τ.layout.size (ArrayLike.span p)) (hn : n ≠ 0)
    (hcheck : ArrayLike.spatialCheck p n = true) (b : UInt8) :
    ∃ w', outcome (memset p b n) w = (.ok (), w') ∧
      ArrayLike.Overwritten p (List.replicate n.toNat (.byte b)) w w' := by
  have hlen : ((Runs.replicate n.toNat b).map Cell.byte).length = n.toNat := by simp
  obtain ⟨w', ho, hw⟩ := overwritten_of_store h hsize hp hn hcheck hlen
  refine ⟨w', ?_, by simpa using hw⟩
  unfold memset
  rw [requireBytes_of_spatialCheck hcheck]
  exact ho

theorem outcome_moveCells (h : w.Sound past) (hsize : τ.layout.size ≠ 0)
    (hp : w.BacksBytes τ.layout.size (ArrayLike.span p))
    (hq : w.BacksBytes τ.layout.size (ArrayLike.span q)) (hn : n ≠ 0)
    (hcheck : ArrayLike.spatialCheck p n = true) (hcheck' : ArrayLike.spatialCheck q n = true) :
    ∃ w', outcome (moveCells (ArrayLike.address p) (ArrayLike.address q) n.toNat) w = (.ok (), w') ∧
      ArrayLike.Overwritten p (w.memory.cells (ArrayLike.address q) n.toNat) w w' := by
  obtain ⟨cs, hload, hlen, hlist⟩ := exists_load h hsize hq hn hcheck'
  obtain ⟨w', ho, hw⟩ := overwritten_of_store h hsize hp hn hcheck hlen
  refine ⟨w', ?_, hlist ▸ hw⟩
  unfold moveCells
  rw [outcome_bind_ok _ hload]
  exact ho

theorem outcome_memmove (h : w.Sound past) (hsize : τ.layout.size ≠ 0)
    (hp : w.BacksBytes τ.layout.size (ArrayLike.span p))
    (hq : w.BacksBytes τ.layout.size (ArrayLike.span q)) (hn : n ≠ 0)
    (hcheck : ArrayLike.spatialCheck p n = true) (hcheck' : ArrayLike.spatialCheck q n = true) :
    ∃ w', outcome (memmove p q n) w = (.ok (), w') ∧
      ArrayLike.Overwritten p (w.memory.cells (ArrayLike.address q) n.toNat) w w' := by
  unfold memmove
  rw [requireBytes_of_spatialCheck hcheck, requireBytes_of_spatialCheck hcheck']
  exact outcome_moveCells h hsize hp hq hn hcheck hcheck'

/-- Bytes that overlap are refused, and all else is copied. -/
theorem outcome_memcpy (h : w.Sound past) (hsize : τ.layout.size ≠ 0)
    (hp : w.BacksBytes τ.layout.size (ArrayLike.span p))
    (hq : w.BacksBytes τ.layout.size (ArrayLike.span q)) (hn : n ≠ 0)
    (hcheck : ArrayLike.spatialCheck p n = true) (hcheck' : ArrayLike.spatialCheck q n = true) :
    outcome (memcpy p q n) w = (.error (.violation .overlappingCopy), w) ∨
      ∃ w', outcome (memcpy p q n) w = (.ok (), w') ∧
        ArrayLike.Overwritten p (w.memory.cells (ArrayLike.address q) n.toNat) w w' := by
  unfold memcpy
  rw [requireBytes_of_spatialCheck hcheck, requireBytes_of_spatialCheck hcheck']
  cases hover : overlaps (ArrayLike.address p) (ArrayLike.address q) n with
  | true => exact .inl (by simp [check, require, hover, outcome_bind])
  | false =>
    have hmove := outcome_moveCells h hsize hp hq hn hcheck hcheck'
    exact .inr (by simpa [check, require, hover] using hmove)

theorem outcome_memcmp (h : w.Sound past) (hsize : τ.layout.size ≠ 0)
    (hp : w.BacksBytes τ.layout.size (ArrayLike.span p))
    (hq : w.BacksBytes τ.layout.size (ArrayLike.span q)) (hn : n ≠ 0)
    (hcheck : ArrayLike.spatialCheck p n = true) (hcheck' : ArrayLike.spatialCheck q n = true) :
    outcome (memcmp p q n) w =
      (.ok (compareBytes (Cell.toBytes (w.memory.cells (ArrayLike.address p) n.toNat))
        (Cell.toBytes (w.memory.cells (ArrayLike.address q) n.toNat))), w) := by
  obtain ⟨cs, hload, -, hlist⟩ := exists_load h hsize hp hn hcheck
  obtain ⟨cs', hload', -, hlist'⟩ := exists_load h hsize hq hn hcheck'
  unfold memcmp loadBytes
  rw [requireBytes_of_spatialCheck hcheck, requireBytes_of_spatialCheck hcheck']
  simp only [check, pure_bind, bind_assoc]
  rw [outcome_bind_ok _ hload, outcome_bind_ok _ hload', outcome_pure, Runs.compare_eq,
    Runs.toList_map, Runs.toList_map, hlist, hlist']
  rfl

/-! ## 4. Bytes inside the array -/

/-- The operation stops with a violation. -/
def Refused {α : Type} (a : Operation α) (w : World) : Prop :=
  ∃ v, (outcome a w).1 = .error (.violation v)

/-- What is not refused has passed its checks, and a check that passed means of `n` bytes from the
current element of `p` or of `q` on what `good` says of them. -/
structure BytesChecked (p : P τ) (q : Q τ) (n : UInt64) (w : World) (good : Span → Prop) :
    Prop where
  spatialCheck : ArrayLike.spatialCheck p n = true → good (ArrayLike.span p)
  memset : ∀ b, ¬ Refused (memset p b n) w → good (ArrayLike.span p)
  memcpy : ¬ Refused (memcpy p q n) w → good (ArrayLike.span p) ∧ good (ArrayLike.span q)
  memmove : ¬ Refused (memmove p q n) w → good (ArrayLike.span p) ∧ good (ArrayLike.span q)
  memcmp : ¬ Refused (memcmp p q n) w → good (ArrayLike.span p) ∧ good (ArrayLike.span q)

/-- What the operations do once the checks have passed: they write among the bytes of `p` only, and
what they write or give is made of the bytes that were checked. -/
structure BytesTouched (p : P τ) (q : Q τ) (n : UInt64) (w : World) : Prop where
  memset : ∀ b, ∃ w', outcome (memset p b n) w = (.ok (), w') ∧
    ArrayLike.Overwritten p (List.replicate n.toNat (.byte b)) w w'
  memcpy : outcome (memcpy p q n) w = (.error (.violation .overlappingCopy), w) ∨
    ∃ w', outcome (memcpy p q n) w = (.ok (), w') ∧
      ArrayLike.Overwritten p (w.memory.cells (ArrayLike.address q) n.toNat) w w'
  memmove : ∃ w', outcome (memmove p q n) w = (.ok (), w') ∧
    ArrayLike.Overwritten p (w.memory.cells (ArrayLike.address q) n.toNat) w w'
  memcmp : outcome (memcmp p q n) w =
    (.ok (compareBytes (Cell.toBytes (w.memory.cells (ArrayLike.address p) n.toNat))
      (Cell.toBytes (w.memory.cells (ArrayLike.address q) n.toNat))), w)

/-- Two checks before anything else: what is not refused has passed both. -/
theorem exists_of_not_refused₂ {α : Type} {f : Address → Address → Operation α}
    (h : ¬ Refused (do
      let a ← check (requireBytes p n)
      let c ← check (requireBytes q n)
      f a c) w) :
    ArrayLike.spatialCheck p n = true ∧ ArrayLike.spatialCheck q n = true := by
  obtain ⟨a, ha, ho⟩ := exists_of_not_refused fun v hv => h ⟨v, hv⟩
  unfold Refused at h
  rw [ho] at h
  obtain ⟨c, hc, -⟩ := exists_of_not_refused fun v hv => h ⟨v, hv⟩
  exact ⟨spatialCheck_of_requireBytes ha, spatialCheck_of_requireBytes hc⟩

theorem bytesChecked (p : P τ) (q : Q τ) (n : UInt64) (w : World) {good : Span → Prop}
    (hgood : ∀ s : Span, s.admitsBytes τ.size n = true → good s) :
    BytesChecked p q n w good where
  spatialCheck hcheck := hgood _ hcheck
  memset b h := by
    obtain ⟨a, ha, -⟩ := exists_of_not_refused fun v hv => h ⟨v, hv⟩
    exact hgood _ (spatialCheck_of_requireBytes ha)
  memcpy h := by
    obtain ⟨hp, hq⟩ := exists_of_not_refused₂ h
    exact ⟨hgood _ hp, hgood _ hq⟩
  memmove h := by
    obtain ⟨hp, hq⟩ := exists_of_not_refused₂ h
    exact ⟨hgood _ hp, hgood _ hq⟩
  memcmp h := by
    obtain ⟨hp, hq⟩ := exists_of_not_refused₂ h
    exact ⟨hgood _ hp, hgood _ hq⟩

/-- **So many bytes as pass a check lie inside the array exactly if its elements have bytes.**  Then
the operations touch no byte of any other place.  If they have none, the check passes for as many
bytes as there are elements left. -/
theorem bytes_inside_iff (h : w.Sound past) (hp : w.BacksBytes τ.layout.size (ArrayLike.span p))
    (hq : w.BacksBytes τ.layout.size (ArrayLike.span q)) (hn : n ≠ 0) :
    BytesChecked p q n w (fun s => s.Includes τ.layout.size n.toNat ↔ τ.layout.size ≠ 0) ∧
    (τ.layout.size ≠ 0 → ArrayLike.spatialCheck p n = true → ArrayLike.spatialCheck q n = true →
      BytesTouched p q n w) ∧
    (τ.layout.size = 0 → (ArrayLike.spatialCheck p n = true ↔
      (ArrayLike.span p).base ≠ 0 ∧ 0 ≤ (ArrayLike.span p).index.toInt ∧
        (ArrayLike.span p).index.toInt + n.toNat ≤ (ArrayLike.span p).extent.toNat)) := by
  refine ⟨bytesChecked p q n w fun s hs => ?_, fun hsize hcheck hcheck' => ?_, fun hsize => ?_⟩
  · have hiff := Span.includes_iff_of_admitsBytes hn hs
    rwa [τ.toNat_size] at hiff
  · exact ⟨outcome_memset h hsize hp hn hcheck, outcome_memcpy h hsize hp hq hn hcheck hcheck',
      outcome_memmove h hsize hp hq hn hcheck hcheck',
      outcome_memcmp h hsize hp hq hn hcheck hcheck'⟩
  · exact Span.admitsBytes_of_zero (τ.toNat_size.trans hsize) hn

/-- Four bytes of an array of three words: from the first word on, and from the second. -/
theorem bytes_inside_three_words :
    (Program.wordsAt 1).span.Includes 4 4 ∧
      BytesTouched (Program.wordsAt 0) (Program.wordsAt 1) 4
        (Program.initial.run Program.threeWords).world := by
  have hbacked : ∃ r ∈ (Program.initial.run Program.threeWords).world.memory.plots,
      r.Covers 0x400000000000 12 :=
    ⟨⟨0x400000000000, 12⟩, List.mem_cons_self, by decide, by decide⟩
  obtain ⟨hchecked, htouched, -⟩ := bytes_inside_iff (p := Program.wordsAt 0)
    (q := Program.wordsAt 1) (n := 4) (Program.reachable_threeWords .free).sound.world
    (.inr hbacked) (.inr hbacked) (by decide)
  obtain ⟨w', ho, -⟩ := (htouched (by decide) (by decide) (by decide)).memmove
  have hpassed : ¬ Refused (memmove (Program.wordsAt 0) (Program.wordsAt 1) 4)
      (Program.initial.run Program.threeWords).world := by
    rintro ⟨v, hv⟩
    rw [ho] at hv
    cases hv
  exact ⟨(hchecked.memmove hpassed).2.mpr (by decide), htouched (by decide) (by decide) (by decide)⟩

/-- An array of three values without bytes: the check says that one byte is there, and the byte that
is set is none of the array's. -/
theorem one_byte_of_three_units :
    ∃ (p : ArrayPtr .unit) (w w' : World),
      outcome (ArrayPtr.new .unit 3 false) .initial = (.ok p, w) ∧
      ArrayLike.spatialCheck p 1 = true ∧ ¬ p.span.Includes (ElemType.layout .unit).size 1 ∧
      outcome (memset p 0xFF 1) w = (.ok (), w') ∧
      p.span.Misses (ElemType.layout .unit).size p.span.base 1 ∧
      w'.memory.cells p.span.base 1 ≠ w.memory.cells p.span.base 1 := by
  refine ⟨⟨⟨0x400000000000, 0, 3⟩⟩, (outcome (ArrayPtr.new .unit 3 false) .initial).2,
    (outcome (memset (⟨⟨0x400000000000, 0, 3⟩⟩ : ArrayPtr .unit) 0xFF 1)
      (outcome (ArrayPtr.new .unit 3 false) .initial).2).2, rfl, rfl, ?_, rfl, ?_, ?_⟩
  · rintro ⟨-, hle⟩
    revert hle
    decide
  · exact .inr (by decide)
  · decide

end Bulk

end Effects

end CheckedMemory
