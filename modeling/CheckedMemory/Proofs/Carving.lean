import CheckedMemory.Proofs.Creation
import CheckedMemory.Proofs.TailLayout

/-!
# Arrays carved out of the room they are given

An array at a stricter alignment than its elements need asks for more bytes than it fills, and
starts at the first multiple of the alignment in what it is given.  The bytes to spare have to be
enough wherever that is, so all is said for any layout of elements and any answer of the system
allocator that is as aligned as was asked for and ends in the lower half of the address space
(`Operation.Grants`).

The start is computed with a mask on words, where a sum that leaves the word would go unnoticed:
`Layout.Carves` says that none does.  The heap table has the array under its start, and what else is
live is not changed by it (`Operation.Recorded`).
-/

namespace CheckedMemory

open Operation

/-! ## 1. Rounding up with a mask -/

namespace Word

variable {base align x m : UInt64} {k n : Nat}

/-- The address plus the alignment less one, with the bits below the alignment cleared. -/
def maskUp (base align : UInt64) : UInt64 := (base + align - 1) &&& ~~~(align - 1)

/-- The lowest `k` bits cleared: a multiple of `2 ^ k`. -/
theorem toNat_and_not (hm : m.toNat = 2 ^ k - 1) :
    (x &&& ~~~m).toNat = x.toNat / 2 ^ k * 2 ^ k := by
  have hmlt := m.toNat_lt
  refine Nat.eq_of_testBit_eq fun i => ?_
  have hnot : (~~~m).toNat = 2 ^ 64 - (m.toNat + 1) := by
    rw [UInt64.toNat_not, UInt64.size]
    omega
  rw [UInt64.toNat_and, Nat.testBit_and, hnot, Nat.testBit_two_pow_sub_succ hmlt, hm,
    Nat.testBit_two_pow_sub_one, Nat.testBit_mul_two_pow, Nat.testBit_div_two_pow]
  by_cases hk : k ≤ i
  · rw [Nat.sub_add_cancel hk]
    by_cases hi : i < 64
    · simp [hk, hi]
    · have hx : x.toNat.testBit i = false :=
        Nat.testBit_lt_two_pow (Nat.lt_of_lt_of_le x.toNat_lt (Nat.pow_le_pow_right (by decide)
          (Nat.le_of_not_lt hi)))
      simp [hx]
  · simp [hk, Nat.lt_of_not_le hk]

/-- **The mask rounds up**, if the sum does not leave the word. -/
theorem toNat_maskUp (ha : isPowerOfTwo align.toNat = true)
    (hsum : base.toNat + align.toNat < 2 ^ 64) :
    (maskUp base align).toNat = roundUp base.toNat align.toNat := by
  have hpos := pos_of_isPowerOfTwo ha
  obtain ⟨k, hk⟩ := isPowerOfTwo_iff.mp ha
  have hadd : (base + align).toNat = base.toNat + align.toNat := by
    rw [UInt64.toNat_add, Nat.mod_eq_of_lt hsum]
  have hone : (1 : UInt64).toNat = 1 := rfl
  have hsub : (base + align - 1).toNat = base.toNat + (align.toNat - 1) := by
    rw [UInt64.toNat_sub_of_le _ _ (UInt64.le_iff_toNat_le.mpr (by omega)), hadd, hone]
    omega
  have hmask : (align - 1).toNat = 2 ^ k - 1 := by
    rw [UInt64.toNat_sub_of_le _ _ (UInt64.le_iff_toNat_le.mpr (by omega)), hk, hone]
  rw [maskUp, toNat_and_not hmask, hsub, roundUp, if_neg (Nat.ne_of_gt hpos), ← hk]

/-- A word that is a power of two divides the half of the words. -/
theorem dvd_half (hn : isPowerOfTwo n = true) (hlt : n < 2 ^ 64) : n ∣ 2 ^ 63 := by
  obtain ⟨k, rfl⟩ := isPowerOfTwo_iff.mp hn
  have hk : k < 64 := (Nat.pow_lt_pow_iff_right (by decide)).mp hlt
  exact Nat.pow_dvd_pow 2 (by omega)

end Word

/-! ## 2. The layout that is asked for -/

namespace Layout

variable {l r : Layout} {count align : UInt64} {base : Address} {n : Nat}

/-- The bytes to spare that an alignment needs. -/
def spare (l : Layout) (align : UInt64) : Nat := Reservation.padding (UInt64.ofNat l.align) align

/-- The layout to ask for: room for `count` elements at `align`. -/
def carved? (l : Layout) (count align : UInt64) : Option Layout :=
  l.array? count.toNat (l.spare align)

/-- Where the elements start in room at `base`. -/
def payloadAt (l : Layout) (base : Address) (align : UInt64) : Address :=
  if l.spare align = 0 then base else Reservation.carve base align

/-- The largest size of a layout, which depends on the alignment: rounded up, it must be a size. -/
def largest (align : Nat) : Nat := maxSize + 1 - align

/-- The bytes that are needed leave the word, or exceed the largest size. -/
def Exceeds (l : Layout) (count align : UInt64) : Prop :=
  2 ^ 64 ≤ count.toNat * l.size ∨ 2 ^ 64 ≤ count.toNat * l.size + l.spare align ∨
    largest l.align < count.toNat * l.size + l.spare align

/-- What is rounded up is a size exactly up to the largest one. -/
theorem roundUp_le_maxSize_iff (hl : Word.isPowerOfTwo l.align = true) (hlt : l.align < 2 ^ 64) :
    Word.roundUp n l.align ≤ maxSize ↔ n ≤ largest l.align := by
  have hpos := Word.pos_of_isPowerOfTwo hl
  have hdvd := Word.dvd_half hl hlt
  have hhalf := Nat.le_of_dvd (by decide) hdvd
  have hn : n ≤ Word.roundUp n l.align := Word.le_roundUp n
  unfold largest maxSize
  constructor
  · intro hle
    -- two multiples of the alignment, so the lesser is less by that much
    obtain ⟨j, hj⟩ := Nat.dvd_of_mod_eq_zero (Word.roundUp_mod n l.align hpos)
    obtain ⟨k, hk⟩ := hdvd
    have hjk : j < k := Nat.lt_of_mul_lt_mul_left (a := l.align) (by omega)
    have hsucc := Nat.mul_le_mul_left l.align (Nat.succ_le_of_lt hjk)
    rw [Nat.mul_succ] at hsucc
    omega
  · intro hle
    have hmod : (2 ^ 63 - l.align) % l.align = 0 :=
      Nat.mod_eq_zero_of_dvd (Nat.dvd_sub hdvd (Nat.dvd_refl _))
    have hround := Word.roundUp_le (m := 2 ^ 63 - l.align) (by omega) hmod
    omega

theorem spare_eq (hlt : l.align < 2 ^ 64) :
    l.spare align = if l.align < align.toNat then align.toNat - 1 else 0 := by
  have hnat : (UInt64.ofNat l.align).toNat = l.align := Word.toNat_ofNat hlt
  simp only [spare, Reservation.padding, UInt64.lt_iff_toNat_lt, hnat]

theorem carved?_eq_some_iff (hl : Word.isPowerOfTwo l.align = true) (hlt : l.align < 2 ^ 64) :
    l.carved? count align = some r ↔
      count.toNat * l.size + l.spare align ≤ largest l.align ∧
        r = ⟨count.toNat * l.size + l.spare align, l.align⟩ := by
  rw [← roundUp_le_maxSize_iff hl hlt]
  unfold carved? array? make?
  split
  · rename_i hle
    rw [Option.some.injEq]
    exact ⟨fun he => ⟨hle, he.symm⟩, fun he => he.2.symm⟩
  · rename_i hlarge
    exact ⟨fun he => absurd he.symm (Option.some_ne_none r), fun he => absurd he.1 hlarge⟩

/-- **There is no layout exactly if the bytes overflow or are too many.** -/
theorem carved?_eq_none_iff (hl : Word.isPowerOfTwo l.align = true) (hlt : l.align < 2 ^ 64) :
    l.carved? count align = none ↔ l.Exceeds count align := by
  have hlargest : largest l.align ≤ 2 ^ 63 := Nat.sub_le _ _
  rw [Option.eq_none_iff_forall_ne_some]
  constructor
  · intro hno
    refine .inr (.inr (Nat.lt_of_not_le fun hle => ?_))
    exact hno _ ((carved?_eq_some_iff hl hlt).mpr ⟨hle, rfl⟩)
  · intro hover r hr
    have hle := ((carved?_eq_some_iff hl hlt).mp hr).1
    rcases hover with hmul | hadd | hlarge <;> omega

/-- The layout computed with words. -/
def carvedChecked? (l : Layout) (count align : UInt64) : Option Layout :=
  (Word.mulAdd? count (UInt64.ofNat l.size) (UInt64.ofNat (l.spare align))).bind fun bytes =>
    make? bytes.toNat l.align

/-- **It is the same layout.** -/
theorem carvedChecked?_eq (hl : Word.isPowerOfTwo l.align = true) (hlt : l.align < 2 ^ 64)
    (hsize : l.size < 2 ^ 64) : l.carvedChecked? count align = l.carved? count align := by
  have hspare : l.spare align < 2 ^ 64 := by
    have := align.toNat_lt
    rw [spare_eq hlt]
    split <;> omega
  have hs : (UInt64.ofNat l.size).toNat = l.size := Word.toNat_ofNat hsize
  have hp : (UInt64.ofNat (l.spare align)).toNat = l.spare align := Word.toNat_ofNat hspare
  unfold carvedChecked?
  cases hsum : Word.mulAdd? count (UInt64.ofNat l.size) (UInt64.ofNat (l.spare align)) with
  | none =>
    have hle := Word.mulAdd?_eq_none_iff.mp hsum
    rw [hs, hp] at hle
    exact ((carved?_eq_none_iff hl hlt).mpr (.inr (.inl hle))).symm
  | some bytes =>
    obtain ⟨-, hbytes⟩ := Word.mulAdd?_eq_some_iff.mp hsum
    rw [Option.bind_some, hbytes, hs, hp]
    rfl

/-! ## 3. The start of the elements -/

/-- What the start of the elements is in room of layout `r` at `base`. -/
structure Carves (l : Layout) (count align : UInt64) (r : Layout) (base : Address) : Prop where
  /-- The sum under the mask does not leave the word. -/
  sum_lt : base.toNat + align.toNat < 2 ^ 64
  /-- Where something is carved off, it is what the mask says, and the difference does not wrap. -/
  masked : l.spare align ≠ 0 → base ≤ Word.maskUp base align ∧
    l.payloadAt base align = base + (Word.maskUp base align - base)
  align_mod : (l.payloadAt base align).toNat % align.toNat = 0
  natural_mod : (l.payloadAt base align).toNat % l.align = 0
  base_le : base ≤ l.payloadAt base align
  end_le : (l.payloadAt base align).toNat + count.toNat * l.size ≤ base.toNat + r.size
  /-- At the natural alignment or below nothing is spared or carved off. -/
  plain : align.toNat ≤ l.align → l.spare align = 0 ∧ l.payloadAt base align = base

theorem carves (hl : Word.isPowerOfTwo l.align = true) (hlt : l.align < 2 ^ 64)
    (ha : Word.isPowerOfTwo align.toNat = true) (hr : l.carved? count align = some r)
    (hmod : base.toNat % l.align = 0) (hend : base.toNat + r.nonempty.size ≤ 2 ^ 63) :
    l.Carves count align r base := by
  obtain ⟨hle, rfl⟩ := (carved?_eq_some_iff hl hlt).mp hr
  have hspare : l.spare align = if l.align < align.toNat then align.toNat - 1 else 0 := spare_eq hlt
  have hhalf := Nat.le_of_dvd (by decide) (Word.dvd_half ha align.toNat_lt)
  have hpos := Word.pos_of_isPowerOfTwo ha
  have hlpos := Word.pos_of_isPowerOfTwo hl
  simp only [nonempty] at hend
  have hsum : base.toNat + align.toNat < 2 ^ 64 := by omega
  by_cases hstrict : l.align < align.toNat
  · rw [if_pos hstrict] at hspare
    have hne : l.spare align ≠ 0 := by omega
    have hup := Word.roundUp_lt base.toNat hpos
    have hbase : base.toNat ≤ Word.roundUp base.toNat align.toNat := Word.le_roundUp _
    have hmask := Word.toNat_maskUp ha hsum
    have hpayload : l.payloadAt base align = Word.maskUp base align := by
      refine UInt64.toNat_inj.mp ?_
      rw [payloadAt, if_neg hne, Reservation.carve, hmask]
      exact Word.toNat_ofNat (by omega)
    have hbelow : base ≤ Word.maskUp base align := UInt64.le_iff_toNat_le.mpr (hmask ▸ hbase)
    have hround := Word.roundUp_mod base.toNat align.toNat hpos
    refine ⟨hsum, fun _ => ⟨hbelow, ?_⟩, ?_, ?_, hpayload ▸ hbelow, ?_, fun hplain => ?_⟩
    · rw [hpayload, UInt64.add_comm, UInt64.sub_add_cancel]
    · rw [hpayload, hmask, hround]
    · have hdvd := Word.dvd_of_le hl ha (Nat.le_of_lt hstrict)
      rw [hpayload, hmask]
      exact Nat.mod_eq_zero_of_dvd (Nat.dvd_trans hdvd (Nat.dvd_of_mod_eq_zero hround))
    · rw [hpayload, hmask]
      simp only
      omega
    · exact absurd hstrict (Nat.not_lt.mpr hplain)
  · rw [if_neg hstrict] at hspare
    have hpayload : l.payloadAt base align = base := by rw [payloadAt, if_pos hspare]
    have hdvd := Word.dvd_of_le ha hl (Nat.le_of_not_lt hstrict)
    refine ⟨hsum, fun hne => absurd hspare hne, ?_, ?_, ?_, ?_, fun _ => ⟨hspare, hpayload⟩⟩
    · rw [hpayload]
      exact Nat.mod_eq_zero_of_dvd (Nat.dvd_trans hdvd (Nat.dvd_of_mod_eq_zero hmod))
    · rw [hpayload, hmod]
    · rw [hpayload]
      exact UInt64.le_refl _
    · rw [hpayload]
      simp only
      omega

end Layout

/-! ## 4. What is recorded -/

namespace HeapTable

variable {t t' : HeapTable} {b c : Block} {p a : Address}

/-- The block recorded last is the one at its payload, whatever was there. -/
theorem blockAt?_register (t : HeapTable) (b : Block) :
    (t.register b).blockAt? b.payload = some b := by
  simp only [blockAt?, register]
  induction t.blocks with
  | nil => simp [insert]
  | cons d ds ih =>
    unfold insert
    split
    · exact List.find?_cons_of_pos (by simp)
    · split
      · exact List.find?_cons_of_pos (by simp)
      · rename_i hne
        rw [List.find?_cons_of_neg (by simpa using fun he => hne he.symm)]
        exact ih

/-- Elsewhere it changes nothing. -/
theorem isLive_register_of_ne (h : a ≠ b.payload) : (t.register b).isLive a = t.isLive a := by
  simp only [isLive, blockAt?, register]
  induction t.blocks with
  | nil => simp [insert, h.symm]
  | cons d ds ih =>
    unfold insert
    split
    · rw [List.find?_cons_of_neg (by simpa using h.symm)]
    · split
      · rename_i he
        rw [List.find?_cons_of_neg (by simpa using h.symm),
          List.find?_cons_of_neg (by simpa [← he] using h.symm)]
      · by_cases hd : d.payload = a
        · simp [hd]
        · rw [List.find?_cons_of_neg (by simpa using hd), ih,
            List.find?_cons_of_neg (by simpa using hd)]

/-- A block taken out leaves the others. -/
theorem isLive_take?_of_ne (h : t.take? p = some (b, t')) (hne : a ≠ p) :
    t'.isLive a = t.isLive a := by
  obtain ⟨-, rfl⟩ := take?_eq_some h
  simp only [isLive, blockAt?, List.find?_filter]
  congr 2
  funext c
  by_cases hc : c.payload = a
  · simp [hc, hne]
  · simp [hc]

end HeapTable

namespace Operation

variable {w w₁ w' : World} {request : Layout → Operation Address} {l r : Layout}
  {stored : Stored} {count align : UInt64} {traced : Bool} {cells : Runs Cell}
  {base p : Address} {b : Block} {t : HeapTable}

/-- A release of a recorded block whose memory is there succeeds. -/
theorem exists_outcome_release (ht : w.heap.take? p = some (b, t))
    (hm : w.memory.isMapped b.payload b.bytes = true) :
    ∃ w', outcome (release p) w = (.ok (), w') ∧ w'.heap = t := by
  have hlen : (poison b.bytes).length = b.bytes := Runs.length_replicate _ _
  obtain ⟨cs, hread⟩ := Memory.exists_read?_of_isMapped hm
  obtain ⟨m, hwrite⟩ : ∃ m, w.memory.write? b.payload (poison b.bytes) = some m :=
    Memory.exists_write?_of_isMapped (hlen.symm ▸ hm)
  unfold release
  rw [outcome_bind_ok _ (outcome_takeBlock ht),
    outcome_bind_ok _ (outcome_load (w := { w with heap := t }) hread),
    outcome_bind_ok _ (outcome_store (w := { w with heap := t }) hwrite)]
  exact ⟨_, rfl, rfl⟩

/-- An array of any elements, in room that is asked for in any way. -/
def carvedFrom (request : Layout → Operation Address) (l : Layout) (stored : Stored)
    (count align : UInt64) (traced : Bool) (cells : Runs Cell) : Operation Address := do
  require (Word.isPowerOfTwo align.toNat) (.invalidAlignment align)
  match l.carved? count align with
  | none =>
    stop (.allocationFailure (Word.mulSat count (UInt64.ofNat l.size)) (UInt64.ofNat l.align))
  | some r =>
    let base ← request r
    let payload := l.payloadAt base align
    record ⟨base, r.nonempty, payload⟩ stored count traced cells
    return payload

/-- **An aligned array is one of these.** -/
theorem aligned_eq (τ : ElemType) (count align : UInt64) : ArrayPtr.aligned τ count align = do
    let payload ← carvedFrom requestMemory τ.layout (.elements τ) count align false
      (τ.replicate count τ.default)
    return .ofBase payload count := by
  unfold ArrayPtr.aligned ArrayPtr.newAt reserve carvedFrom
  rw [bind_assoc]
  refine congrArg _ (funext fun _ => ?_)
  change _ = (match Reservation.layout? τ count align with | none => _ | some r => _) >>= _
  cases Reservation.layout? τ count align with
  | none => rfl
  | some r =>
    simp only [bind_assoc, pure_bind]
    rfl

/-- What the system allocator may give for a layout: an address as aligned as was asked for, with
its bytes in the lower half of the address space.  It changes nothing that is recorded. -/
structure Grants (r : Layout) (base : Address) (w w₁ : World) : Prop where
  ne_zero : base ≠ 0
  aligned : base.toNat % r.align = 0
  inside : base.toNat + r.nonempty.size ≤ 2 ^ 63
  world : ∃ next, w₁ = { w with nextFree := next }

/-- It gives such an address for what is asked, or has no more. -/
def Answers (request : Layout → Operation Address) (l : Layout) (count align : UInt64) (w : World) :
    Prop :=
  ∀ r, l.carved? count align = some r →
    outcome (request r) w = (.error .exhausted, w) ∨
      ∃ base w₁, outcome (request r) w = (.ok base, w₁) ∧ Grants r base w w₁

/-- A payload is the start of a live block and the one address that releases it.  Every other
address is the start of a live block or not as it was before. -/
structure RecordedAt (p : Address) (b : Block) (w w' : World) : Prop where
  found : w'.heap.blockAt? p = some b
  others : ∀ a, a ≠ p → w'.heap.isLive a = w.heap.isLive a
  freed : ∃ w'', outcome (releaseUnlessNull p) w' = (.ok (), w'') ∧ w''.heap.isLive p = false ∧
    ∀ a, a ≠ p → w''.heap.isLive a = w.heap.isLive a
  refused : ∀ a, a ≠ 0 → a ≠ p → w.heap.isLive a = false →
    outcome (releaseUnlessNull a) w' = (.error (.violation (.invalidFree a)), w')

theorem recordedAt_of_register (hheap : w'.heap = w.heap.register b)
    (hmem : w'.memory = w₁.memory.place b.payload (room cells)) (hbytes : b.bytes = cells.length)
    (hne : b.payload ≠ 0) : RecordedAt b.payload b w w' := by
  have hfound : w'.heap.blockAt? b.payload = some b := by
    rw [hheap]
    exact HeapTable.blockAt?_register w.heap b
  have hothers : ∀ a, a ≠ b.payload → w'.heap.isLive a = w.heap.isLive a := by
    rw [hheap]
    exact fun a ha => HeapTable.isLive_register_of_ne ha
  have hmapped : w'.memory.isMapped b.payload b.bytes = true := by
    have hplot : (⟨b.payload, (room cells).length⟩ : Plot) ∈ w'.memory.plots := by
      rw [hmem]
      exact List.mem_cons_self
    refine Memory.isMapped_of_covers hplot ⟨Nat.le_refl _, ?_⟩
    change b.payload.toNat + b.bytes ≤ b.payload.toNat + (room cells).length
    rw [hbytes, length_room]
    omega
  obtain ⟨t, ht⟩ : ∃ t, w'.heap.take? b.payload = some (b, t) :=
    ⟨_, by rw [HeapTable.take?, hfound]; rfl⟩
  obtain ⟨w'', ho, rfl⟩ := exists_outcome_release ht hmapped
  refine ⟨hfound, hothers, ⟨w'', ?_, HeapTable.isLive_take? ht, fun a ha => ?_⟩,
    fun a hzero ha hdead => ?_⟩
  · rw [releaseUnlessNull, if_neg hne]
    exact ho
  · exact (HeapTable.isLive_take?_of_ne ht ha).trans (hothers a ha)
  · rw [releaseUnlessNull, if_neg hzero]
    exact outcome_release_of_not_live ((hothers a ha).trans hdead)

/-! ## 5. What a request for an aligned array does -/

/-- The block of an array carved out of room at `base`. -/
def carvedBlock (l r : Layout) (stored : Stored) (count align : UInt64) (traced : Bool)
    (base : Address) : Block :=
  ⟨base, r.nonempty, l.payloadAt base align, count.toNat * l.size, count, stored, traced⟩

/-- When an aligned array is made, and where. -/
structure CarvesExactly (request : Layout → Operation Address) (l : Layout) (stored : Stored)
    (count align : UInt64) (traced : Bool) (cells : Runs Cell) (w : World) : Prop where
  unaligned_iff : outcome (carvedFrom request l stored count align traced cells) w =
      (.error (.violation (.invalidAlignment align)), w) ↔
    Word.isPowerOfTwo align.toNat = false
  exceeding_iff : outcome (carvedFrom request l stored count align traced cells) w =
      (.error (.violation (.allocationFailure (Word.mulSat count (UInt64.ofNat l.size))
        (UInt64.ofNat l.align))), w) ↔
    Word.isPowerOfTwo align.toNat = true ∧ l.Exceeds count align
  /-- Computed with words the layout that is asked for is the same. -/
  checked : l.carvedChecked? count align = l.carved? count align
  full : ∀ r, Word.isPowerOfTwo align.toNat = true → l.carved? count align = some r →
    outcome (request r) w = (.error .exhausted, w) →
      outcome (carvedFrom request l stored count align traced cells) w = (.error .exhausted, w)
  made : ∀ r base w₁, Word.isPowerOfTwo align.toNat = true → l.carved? count align = some r →
    outcome (request r) w = (.ok base, w₁) → Grants r base w w₁ →
      l.Carves count align r base ∧ ∃ w',
        outcome (carvedFrom request l stored count align traced cells) w =
          (.ok (l.payloadAt base align), w') ∧
        RecordedAt (l.payloadAt base align) (carvedBlock l r stored count align traced base) w w'

section Outcomes

theorem outcome_carvedFrom_of_unaligned (ha : Word.isPowerOfTwo align.toNat = false) :
    outcome (carvedFrom request l stored count align traced cells) w =
      (.error (.violation (.invalidAlignment align)), w) := by
  unfold carvedFrom require
  rw [ha]
  rfl

variable (ha : Word.isPowerOfTwo align.toNat = true)

include ha

theorem outcome_carvedFrom_of_none (hr : l.carved? count align = none) :
    outcome (carvedFrom request l stored count align traced cells) w =
      (.error (.violation (.allocationFailure (Word.mulSat count (UInt64.ofNat l.size))
        (UInt64.ofNat l.align))), w) := by
  unfold carvedFrom require
  rw [if_pos ha, hr]
  rfl

theorem outcome_carvedFrom_of_full (hr : l.carved? count align = some r)
    (hfull : outcome (request r) w = (.error .exhausted, w)) :
    outcome (carvedFrom request l stored count align traced cells) w = (.error .exhausted, w) := by
  unfold carvedFrom require
  rw [if_pos ha, hr, pure_bind]
  exact outcome_bind_error _ hfull

theorem outcome_carvedFrom (hcells : cells.length = count.toNat * l.size)
    (hr : l.carved? count align = some r) (ho : outcome (request r) w = (.ok base, w₁)) :
    outcome (carvedFrom request l stored count align traced cells) w =
      (.ok (l.payloadAt base align), { w₁ with
        memory := w₁.memory.place (l.payloadAt base align) (room cells)
        heap := w₁.heap.register (carvedBlock l r stored count align traced base) }) := by
  unfold carvedFrom require
  rw [if_pos ha, hr, pure_bind]
  refine (outcome_bind_ok _ ho).trans ?_
  simp only [record, hcells]
  rfl

end Outcomes

/-- A request at a power of two is refused for want of a layout only. -/
theorem carved?_eq_none_of_outcome (hcells : cells.length = count.toNat * l.size)
    (hrequest : Answers request l count align w) (ha : Word.isPowerOfTwo align.toNat = true)
    {v : Violation} (hv : outcome (carvedFrom request l stored count align traced cells) w =
      (.error (.violation v), w)) : l.carved? count align = none := by
  refine Option.eq_none_iff_forall_ne_some.mpr fun r hr => ?_
  rcases hrequest r hr with hfull | ⟨base, w₁, ho, hg⟩
  · rw [outcome_carvedFrom_of_full ha hr hfull] at hv
    cases hv
  · rw [outcome_carvedFrom ha hcells hr ho] at hv
    cases hv

section Exactly

variable (hl : Word.isPowerOfTwo l.align = true) (hlt : l.align < 2 ^ 64)

include hl hlt

theorem exists_carved (hcells : cells.length = count.toNat * l.size)
    (ha : Word.isPowerOfTwo align.toNat = true) (hr : l.carved? count align = some r)
    (ho : outcome (request r) w = (.ok base, w₁)) (hg : Grants r base w w₁) :
    l.Carves count align r base ∧ ∃ w',
      outcome (carvedFrom request l stored count align traced cells) w =
        (.ok (l.payloadAt base align), w') ∧
      RecordedAt (l.payloadAt base align) (carvedBlock l r stored count align traced base) w w' := by
  have hralign : r.align = l.align := by rw [((Layout.carved?_eq_some_iff hl hlt).mp hr).2]
  have hcarves := Layout.carves hl hlt ha hr (hralign ▸ hg.aligned) hg.inside
  have hne : (carvedBlock l r stored count align traced base).payload ≠ 0 := by
    intro hzero
    have hle : base.toNat ≤ (carvedBlock l r stored count align traced base).payload.toNat :=
      UInt64.le_iff_toNat_le.mp hcarves.base_le
    rw [hzero] at hle
    exact hg.ne_zero (UInt64.toNat_inj.mp (Nat.le_zero.mp hle))
  obtain ⟨next, rfl⟩ := hg.world
  exact ⟨hcarves, _, outcome_carvedFrom ha hcells hr ho,
    recordedAt_of_register rfl rfl hcells.symm hne⟩

theorem carvesExactly (hsize : l.size < 2 ^ 64) (hcells : cells.length = count.toNat * l.size)
    (hrequest : Answers request l count align w) :
    CarvesExactly request l stored count align traced cells w where
  unaligned_iff := by
    refine ⟨fun hv => Bool.eq_false_iff.mpr fun ha => ?_, outcome_carvedFrom_of_unaligned⟩
    have hnone := carved?_eq_none_of_outcome hcells hrequest ha hv
    rw [outcome_carvedFrom_of_none ha hnone] at hv
    cases hv
  exceeding_iff := by
    constructor
    · intro hv
      have ha : Word.isPowerOfTwo align.toNat = true := by
        refine Classical.byContradiction fun hno => ?_
        rw [outcome_carvedFrom_of_unaligned (Bool.eq_false_iff.mpr hno)] at hv
        cases hv
      have hnone := carved?_eq_none_of_outcome hcells hrequest ha hv
      exact ⟨ha, (Layout.carved?_eq_none_iff hl hlt).mp hnone⟩
    · rintro ⟨ha, hover⟩
      exact outcome_carvedFrom_of_none ha ((Layout.carved?_eq_none_iff hl hlt).mpr hover)
  checked := Layout.carvedChecked?_eq hl hlt hsize
  full _ ha hr hfull := outcome_carvedFrom_of_full ha hr hfull
  made _ _ _ ha hr ho hg := exists_carved hl hlt hcells ha hr ho hg

end Exactly

/-- The system allocator of the model grants memory at a multiple of 16, in what is free. -/
theorem grants_requestMemory {r : Layout} (hstart : World.heapStart ≤ w.nextFree)
    (hr : Word.isPowerOfTwo r.align = true) :
    outcome (requestMemory r) w = (.error .exhausted, w) ∨
      ∃ base w₁, outcome (requestMemory r) w = (.ok base, w₁) ∧ Grants r base w w₁ ∧
        base.toNat % 16 = 0 ∧ w.nextFree ≤ base.toNat := by
  by_cases hfit : w.grantEnd r ≤ World.heapEnd
  · have hbase := World.toNat_grantBase hfit
    have hmax : Word.isPowerOfTwo (max 16 r.align) = true := by
      rcases Nat.le_total 16 r.align with hle | hle
      · rw [Nat.max_eq_right hle]
        exact hr
      · rw [Nat.max_eq_left hle]
        decide
    have hround : max 16 r.align ∣ w.grantBase r :=
      Nat.dvd_of_mod_eq_zero (Word.roundUp_mod _ _ (Word.pos_of_isPowerOfTwo hmax))
    have hdvd : r.align ∣ max 16 r.align := Word.dvd_of_le hr hmax (Nat.le_max_right _ _)
    have hdvd₁₆ : 16 ∣ max 16 r.align := Word.dvd_of_le (by decide) hmax (Nat.le_max_left _ _)
    have hfree := w.nextFree_le_grantBase r
    refine .inr ⟨_, _, outcome_requestMemory hfit, ⟨?_, ?_, ?_, _, rfl⟩, ?_, ?_⟩
    · intro hzero
      rw [hzero] at hbase
      simp only [UInt64.toNat_zero, World.heapStart] at hbase hstart
      omega
    · rw [hbase]
      exact Nat.mod_eq_zero_of_dvd (Nat.dvd_trans hdvd hround)
    · rw [hbase]
      simp only [World.grantEnd, World.heapEnd] at hfit
      omega
    · rw [hbase]
      exact Nat.mod_eq_zero_of_dvd (Nat.dvd_trans hdvd₁₆ hround)
    · rw [hbase]
      exact hfree
  · exact .inl (outcome_requestMemory_of_full hfit)

/-- So it answers in any sound state. -/
theorem answers_requestMemory {past : List Block} (h : w.Sound past)
    (hl : Word.isPowerOfTwo l.align = true) (hlt : l.align < 2 ^ 64) :
    Answers requestMemory l count align w := by
  intro r hr
  have hralign : r.align = l.align := by rw [((Layout.carved?_eq_some_iff hl hlt).mp hr).2]
  refine (grants_requestMemory h.heapStart_le (hralign ▸ hl)).imp_right ?_
  rintro ⟨base, w₁, ho, hg, -⟩
  exact ⟨base, w₁, ho, hg⟩

/-- **Aligned arrays are carved exactly**: for elements of any size and alignment, and whatever the
system allocator answers.  The arrays of the model are among them, in every state of a program. -/
theorem carved_exactly :
    (∀ (request : Layout → Operation Address) (l : Layout) (stored : Stored) (count align : UInt64)
      (traced : Bool) (cells : Runs Cell) (w : World), Word.isPowerOfTwo l.align = true →
        l.align < 2 ^ 64 → l.size < 2 ^ 64 → cells.length = count.toNat * l.size →
          Answers request l count align w →
            CarvesExactly request l stored count align traced cells w) ∧
      ∀ (τ : ElemType) (count align : UInt64),
        (ArrayPtr.aligned τ count align = do
          let payload ← carvedFrom requestMemory τ.layout (.elements τ) count align false
            (τ.replicate count τ.default)
          return .ofBase payload count) ∧
        ∀ (δ : Program.Discipline) (s : Program), Program.Reachable δ s →
          CarvesExactly requestMemory τ.layout (.elements τ) count align false
            (τ.replicate count τ.default) s.world := by
  refine ⟨fun request l stored count align traced cells w hl hlt hsize hcells hrequest =>
    carvesExactly hl hlt hsize hcells hrequest, fun τ count align =>
      ⟨aligned_eq τ count align, fun δ s hs => ?_⟩⟩
  have hl := τ.proper_layout.align
  have hlt : τ.layout.align < 2 ^ 64 := Nat.lt_of_le_of_lt τ.align_le (by decide)
  exact carvesExactly hl hlt (τ.toNat_size ▸ τ.size.toNat_lt) (τ.length_replicate count τ.default)
    (answers_requestMemory hs.sound.world hl hlt)

/-- Three bytes at a multiple of sixteen, where the room starts one after such a multiple: the bytes
to spare are just enough. -/
theorem carved_exactly_three_bytes :
    Answers (fun _ => pure 0x1001) ⟨1, 1⟩ 3 16 Program.initial.world ∧
      Layout.Carves ⟨1, 1⟩ 3 16 ⟨18, 1⟩ 0x1001 ∧
      Layout.payloadAt ⟨1, 1⟩ 0x1001 16 = 0x1010 ∧ 0x1010 + 3 = 0x1001 + 18 := by
  have hanswers : Answers (fun _ => pure 0x1001) ⟨1, 1⟩ 3 16 Program.initial.world := by
    intro r hr
    cases hr
    exact .inr ⟨_, _, rfl, by decide, rfl, by decide, _, rfl⟩
  have hexactly := carved_exactly.1 (fun _ => pure 0x1001) ⟨1, 1⟩ (.elements .uint8) 3 16 false
    (.replicate 3 (.byte 0)) Program.initial.world (by decide) (by decide) (by decide)
    (Runs.length_replicate 3 (.byte 0)) hanswers
  have hgrants : Grants ⟨18, 1⟩ 0x1001 Program.initial.world Program.initial.world :=
    ⟨by decide, rfl, by decide, _, rfl⟩
  exact ⟨hanswers, (hexactly.made ⟨18, 1⟩ _ _ (by decide) rfl rfl hgrants).1, by decide, rfl⟩

end Operation

end CheckedMemory
