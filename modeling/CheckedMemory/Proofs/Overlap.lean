import CheckedMemory.Proofs.Cloning
import CheckedMemory.Proofs.Guarded

/-!
# Copies that must not overlap

`Bulk.copy` and `Bulk.memcpy` refuse ranges that overlap, and tell by two comparisons of an address
with the end of the other range.  The ends are sums of words.  Where they do not wrap the test is
exact: it finds an overlap if and only if some address is in both ranges (`Bulk.overlaps_iff`).  No
range of storage wraps, so for the pointers of a program there is nothing more to ask.

What is not refused is done as it is for ranges that may overlap, and since they do not, the source
is left as it was.

Main statement: `Program.overlap_exact`.
-/

namespace CheckedMemory

open Operation

namespace Bulk

variable {P Q : ElemType → Type} [ArrayLike P] [ArrayLike Q] {τ : ElemType} {dst : P τ} {src : Q τ}
  {target source a b : Address} {n : Nat} {count bytes : UInt64} {past : List Block} {w : World}

/-! ## 1. The test -/

/-- Two ranges of `n` bytes have an address in common. -/
def Shares (a b : Address) (n : Nat) : Prop := ∃ x, Word.Among x a n ∧ Word.Among x b n

theorem shares_comm : Shares a b n ↔ Shares b a n := by
  constructor
  · rintro ⟨x, ha, hb⟩
    exact ⟨x, hb, ha⟩
  · rintro ⟨x, hb, ha⟩
    exact ⟨x, ha, hb⟩

theorem not_shares_zero (a b : Address) : ¬Shares a b 0 := by
  rintro ⟨x, ⟨hlo, hhi⟩, -⟩
  omega

/-- Ranges have an address in common exactly if each starts before the other ends. -/
theorem shares_iff : Shares a b n ↔
    n ≠ 0 ∧ a.toNat < b.toNat + n ∧ b.toNat < a.toNat + n := by
  unfold Shares Word.Among
  constructor
  · rintro ⟨x, ⟨hlo, hhi⟩, hlo', hhi'⟩
    omega
  · rintro ⟨hn, hab, hba⟩
    -- the later of the two starts is in both
    rcases Nat.le_total a.toNat b.toNat with hle | hle
    · exact ⟨b, ⟨hle, hba⟩, ⟨Nat.le_refl _, by omega⟩⟩
    · exact ⟨a, ⟨Nat.le_refl _, by omega⟩, ⟨hle, hab⟩⟩

instance (a b : Address) (n : Nat) : Decidable (Shares a b n) :=
  decidable_of_iff _ shares_iff.symm

/-- **The test for an overlap is exact**, if neither range wraps. -/
theorem overlaps_iff (ha : a.toNat + bytes.toNat < 2 ^ 64) (hb : b.toNat + bytes.toNat < 2 ^ 64) :
    overlaps a b bytes = true ↔ Shares a b bytes.toNat := by
  have hzero : bytes ≠ 0 ↔ bytes.toNat ≠ 0 := by
    rw [ne_eq, ← UInt64.toNat_inj]
    rfl
  rw [shares_iff, ← hzero]
  simp only [overlaps, Bool.and_eq_true, bne_iff_ne, decide_eq_true_eq, UInt64.lt_iff_toNat_lt,
    UInt64.toNat_add, Nat.mod_eq_of_lt ha, Nat.mod_eq_of_lt hb, and_assoc]

/-! ## 2. Refusals -/

/-- The operation stops because of an overlap, and changes nothing. -/
def RefusesOverlap (act : Operation Unit) (w : World) : Prop :=
  outcome act w = (.error (.violation .overlappingCopy), w)

/-- Where an operation never refuses, one that first asks for a condition refuses if it fails. -/
theorem refusesOverlap_require_iff {ok : Bool} {act : Operation Unit} (hact : NeverRefuses act) :
    RefusesOverlap (do require ok .overlappingCopy; act) w ↔ ok = false := by
  unfold RefusesOverlap
  cases ok with
  | false => simp [require, outcome_bind]
  | true =>
    simp only [require, if_true, pure_bind, Bool.true_eq_false, iff_false]
    intro h
    exact (hact w).of_error h trivial

/-- And where it does not refuse, the condition holds and the operation is run. -/
theorem outcome_require_of_not_refuses {ok : Bool} {act : Operation Unit} (hact : NeverRefuses act)
    (hno : ¬RefusesOverlap (do require ok .overlappingCopy; act) w) :
    outcome (do require ok .overlappingCopy; act) w = outcome act w := by
  have hok := mt (refusesOverlap_require_iff hact).mpr hno
  rw [Bool.not_eq_false] at hok
  rw [hok]
  rfl

theorem outcome_copy (hT : ArrayLike.requireSpan dst count = .ok target)
    (hF : ArrayLike.requireSpan src count = .ok source)
    (hbytes : Word.mul? count τ.size = some bytes) (w : World) :
    outcome (copy dst src count) w = outcome (do
      require (!overlaps target source bytes) .overlappingCopy
      cloneElements τ target source count.toNat true) w := by
  unfold copy
  rw [hT, hF, hbytes]
  rfl

/-- **Copies of elements refuse exactly the ranges that overlap.** -/
theorem refusesOverlap_copy_iff (hT : ArrayLike.requireSpan dst count = .ok target)
    (hF : ArrayLike.requireSpan src count = .ok source)
    (ha : target.toNat + count.toNat * τ.layout.size < 2 ^ 64)
    (hb : source.toNat + count.toNat * τ.layout.size < 2 ^ 64) :
    RefusesOverlap (copy dst src count) w ↔
      Shares target source (count.toNat * τ.layout.size) := by
  have hmul : Word.mul? count τ.size = some (count * τ.size) := by
    unfold Word.mul?
    rw [τ.toNat_size, if_pos (by omega)]
  have hbytes := (Word.mul?_eq_some_iff.mp hmul).2
  rw [τ.toNat_size] at hbytes
  rw [← hbytes] at ha hb ⊢
  rw [← overlaps_iff ha hb, RefusesOverlap, outcome_copy hT hF hmul]
  refine (refusesOverlap_require_iff (neverRefuses_cloneElements τ _ _ _ _)).trans ?_
  rw [Bool.not_eq_false']

/-- **And so do copies of bytes.** -/
theorem refusesOverlap_memcpy_iff (hT : requireBytes dst bytes = .ok target)
    (hF : requireBytes src bytes = .ok source) (ha : target.toNat + bytes.toNat < 2 ^ 64)
    (hb : source.toNat + bytes.toNat < 2 ^ 64) :
    RefusesOverlap (memcpy dst src bytes) w ↔ Shares target source bytes.toNat := by
  rw [← overlaps_iff ha hb, RefusesOverlap, show outcome (memcpy dst src bytes) w = _ from
    outcome_checkBoth hT hF w]
  refine (refusesOverlap_require_iff (neverRefuses_moveCells _ _ _)).trans ?_
  rw [Bool.not_eq_false']

/-- What it means that an operation refuses overlaps and nothing else: `act` takes the bytes from
`source` to `target`, and `back` takes them the other way. -/
structure RefusesExactly (act back : Operation Unit) (target source : Address) (n : Nat)
    (w : World) : Prop where
  exact : RefusesOverlap act w ↔ Shares target source n
  symm : RefusesOverlap act w ↔ RefusesOverlap back w
  empty : n = 0 → ¬RefusesOverlap act w

theorem RefusesExactly.of_iff {act back : Operation Unit}
    (h : RefusesOverlap act w ↔ Shares target source n)
    (h' : RefusesOverlap back w ↔ Shares source target n) :
    RefusesExactly act back target source n w where
  exact := h
  symm := h.trans (shares_comm.trans h'.symm)
  empty := by
    rintro rfl hrefuses
    exact not_shares_zero _ _ (h.mp hrefuses)

/-! ## 3. Copies -/

/-- The cells of the source are at the target too, and all other cells are as they were. -/
structure Copied (target source : Address) (n : Nat) (m m' : Memory) : Prop where
  arrived : m'.cells target n = m.cells source n
  intact : m'.cells source n = m.cells source n
  outside : ∀ (a : Address) (k : Nat), a.toNat + k ≤ target.toNat ∨ target.toNat + n ≤ a.toNat →
    m'.cells a k = m.cells a k

/-- A move to where the source is not leaves the source alone. -/
theorem Copied.of_moved {m m' : Memory} (h : m.Moved m' target source n)
    (hno : ¬Shares target source n) : Copied target source n m m' := by
  refine ⟨h.inside, ?_, h.outside⟩
  by_cases hn : n = 0
  · simp [hn]
  · rw [shares_iff] at hno
    exact h.outside source n (by omega)

/-- Elements that do not overlap are copied as they are cloned. -/
theorem outcome_copy_of_not_refuses (hr : Ranges τ target source count.toNat w.memory)
    (hT : ArrayLike.requireSpan dst count = .ok target)
    (hF : ArrayLike.requireSpan src count = .ok source)
    (hno : ¬RefusesOverlap (copy dst src count) w) :
    ∃ w' v, outcome (copy dst src count) w = (.ok (), w') ∧
      outcome (cloneInto dst src count) w = (.ok (), v) ∧ w'.memory = v.memory ∧
      w.memory.Moved w'.memory target source (count.toNat * τ.layout.size) ∧
      w' = { w with memory := w'.memory, dropLog := w'.dropLog } := by
  obtain ⟨bytes, hmul, -⟩ := hr.exists_bytes
  obtain ⟨marks, hcopy, -⟩ := outcome_cloneElements hr true
  obtain ⟨marks', hclone, -⟩ := outcome_cloneElements hr (target ≤ source)
  have hdone := outcome_copy hT hF hmul w
  rw [RefusesOverlap, hdone] at hno
  have hpass := outcome_require_of_not_refuses (neverRefuses_cloneElements τ _ _ _ _) hno
  exact ⟨_, _, hdone.trans (hpass.trans hcopy), (outcome_checkBoth hT hF w).trans hclone, rfl,
    Memory.moved_move hr.target hr.source, rfl⟩

/-- Bytes that do not overlap are copied as they are moved. -/
theorem outcome_memcpy_of_not_refuses (ht : w.memory.isMapped target bytes.toNat = true)
    (hs : w.memory.isMapped source bytes.toNat = true) (hT : requireBytes dst bytes = .ok target)
    (hF : requireBytes src bytes = .ok source) (hno : ¬RefusesOverlap (memcpy dst src bytes) w) :
    ∃ w', outcome (memcpy dst src bytes) w = (.ok (), w') ∧
      outcome (memmove dst src bytes) w = (.ok (), w') ∧
      w.memory.Moved w'.memory target source bytes.toNat ∧
      w' = { w with memory := w'.memory } := by
  have hmove := outcome_moveCells_of_isMapped ht hs
  have hcopy : outcome (memcpy dst src bytes) w = _ := outcome_checkBoth hT hF w
  rw [RefusesOverlap, hcopy] at hno
  have hpass := outcome_require_of_not_refuses (neverRefuses_moveCells _ _ _) hno
  exact ⟨_, hcopy.trans (hpass.trans hmove), (outcome_checkBoth hT hF w).trans hmove,
    Memory.moved_move ht hs, rfl⟩

/-- Bytes of elements that have bytes are storage where they are let through. -/
theorem isMapped_of_requireBytes (h : w.Sound past) (hd : w.Backs past τ (ArrayLike.span dst))
    (hsize : τ.layout.size ≠ 0) (hT : requireBytes dst bytes = .ok target) :
    w.memory.isMapped target bytes.toNat = true := by
  by_cases hn : bytes = 0
  · simp [hn, Memory.isMapped]
  · have hcheck := spatialCheck_of_requireBytes hT
    rw [requireBytes_of_spatialCheck hcheck] at hT
    cases hT
    have hbytes : w.BacksBytes τ.layout.size (ArrayLike.span dst) :=
      hd.imp_right fun hheld => hheld.exists_covers h
    obtain ⟨⟨r, hr, hc⟩, -⟩ := ArrayLike.covers_address h hsize hbytes hn hcheck
    exact Memory.isMapped_of_covers hr hc

end Bulk

/-- Storage ends long before the last address. -/
theorem World.Sound.add_lt {past : List Block} {w : World} (h : w.Sound past) {a : Address}
    {n : Nat} (hm : w.memory.isMapped a n = true) : a.toNat + n < 2 ^ 64 :=
  Memory.add_lt_of_isMapped (fun _ hq => Nat.lt_trans (h.stop_lt hq) (by decide)) hm

/-! ## 4. The law on runs -/

namespace Program

open Bulk

variable {τ : ElemType}

/-- Overlaps are refused exactly, and what is not refused is done as if it could overlap. -/
structure OverlapExact (dst src : AnyArrayPtr τ) : Prop where
  /-- Of any pointers, to storage or not, in any state: where neither range wraps. -/
  copy : ∀ (count : UInt64) (target source : Address),
    ArrayLike.requireSpan dst count = .ok target → ArrayLike.requireSpan src count = .ok source →
    target.toNat + count.toNat * τ.layout.size < 2 ^ 64 →
    source.toNat + count.toNat * τ.layout.size < 2 ^ 64 →
    ∀ w, RefusesExactly (Bulk.copy dst src count) (Bulk.copy src dst count) target source
      (count.toNat * τ.layout.size) w
  memcpy : ∀ (bytes : UInt64) (target source : Address),
    requireBytes dst bytes = .ok target → requireBytes src bytes = .ok source →
    target.toNat + bytes.toNat < 2 ^ 64 → source.toNat + bytes.toNat < 2 ^ 64 →
    ∀ w, RefusesExactly (Bulk.memcpy dst src bytes) (Bulk.memcpy src dst bytes) target source
      bytes.toNat w
  /-- No range of a program's pointers wraps, and elements that do not overlap are copied to the
  same effect on memory as they are cloned. -/
  copied : ∀ δ s, Reachable δ s → s.HasArray τ dst → s.HasArray τ src →
    ∀ (count : UInt64) (target source : Address),
    ArrayLike.requireSpan dst count = .ok target → ArrayLike.requireSpan src count = .ok source →
    target.toNat + count.toNat * τ.layout.size < 2 ^ 64 ∧
      source.toNat + count.toNat * τ.layout.size < 2 ^ 64 ∧
      (¬Shares target source (count.toNat * τ.layout.size) → ∃ w' v,
        outcome (Bulk.copy dst src count) s.world = (.ok (), w') ∧
        outcome (cloneInto dst src count) s.world = (.ok (), v) ∧ w'.memory = v.memory ∧
        Copied target source (count.toNat * τ.layout.size) s.world.memory w'.memory ∧
        w' = { s.world with memory := w'.memory, dropLog := w'.dropLog })
  /-- The same of bytes, and of all of the state, for elements that have bytes. -/
  bytesCopied : ∀ δ s, Reachable δ s → s.HasArray τ dst → s.HasArray τ src →
    τ.layout.size ≠ 0 → ∀ (bytes : UInt64) (target source : Address),
    requireBytes dst bytes = .ok target → requireBytes src bytes = .ok source →
    target.toNat + bytes.toNat < 2 ^ 64 ∧ source.toNat + bytes.toNat < 2 ^ 64 ∧
      (¬Shares target source bytes.toNat → ∃ w',
        outcome (Bulk.memcpy dst src bytes) s.world = (.ok (), w') ∧
        outcome (memmove dst src bytes) s.world = (.ok (), w') ∧
        Copied target source bytes.toNat s.world.memory w'.memory ∧
        w' = { s.world with memory := w'.memory })

/-- **The copies that forbid overlaps refuse exactly those**, and leave the same memory otherwise as
the operations that allow them. -/
theorem overlap_exact (dst src : AnyArrayPtr τ) : OverlapExact dst src where
  copy _ _ _ hT hF ha hb _ :=
    .of_iff (refusesOverlap_copy_iff hT hF ha hb) (refusesOverlap_copy_iff hF hT hb ha)
  memcpy _ _ _ hT hF ha hb _ :=
    .of_iff (refusesOverlap_memcpy_iff hT hF ha hb) (refusesOverlap_memcpy_iff hF hT hb ha)
  copied δ s hs hd hq count target source hT hF := by
    have hr := Ranges.of_requireSpan hs.sound.world (hd.backs hs.sound.backed)
      (hq.backs hs.sound.backed) hT hF
    have ha := hs.sound.world.add_lt hr.target
    have hb := hs.sound.world.add_lt hr.source
    refine ⟨ha, hb, fun hno => ?_⟩
    obtain ⟨w', v, hcopy, hclone, hsame, hmoved, hrest⟩ := outcome_copy_of_not_refuses hr hT hF
      (mt (refusesOverlap_copy_iff hT hF ha hb).mp hno)
    exact ⟨w', v, hcopy, hclone, hsame, .of_moved hmoved hno, hrest⟩
  bytesCopied δ s hs hd hq hsize bytes target source hT hF := by
    have ht := isMapped_of_requireBytes hs.sound.world (hd.backs hs.sound.backed) hsize hT
    have hs' := isMapped_of_requireBytes hs.sound.world (hq.backs hs.sound.backed) hsize hF
    have ha := hs.sound.world.add_lt ht
    have hb := hs.sound.world.add_lt hs'
    refine ⟨ha, hb, fun hno => ?_⟩
    obtain ⟨w', hcopy, hmove, hmoved, hrest⟩ := outcome_memcpy_of_not_refuses ht hs' hT hF
      (mt (refusesOverlap_memcpy_iff hT hF ha hb).mp hno)
    exact ⟨w', hcopy, hmove, .of_moved hmoved hno, hrest⟩

/-- Of three words, the first two overlap the last two and the first one does not overlap the
second. -/
theorem overlap_exact_counted_words :
    RefusesOverlap (Bulk.copy (AnyArrayPtr.plain (wordsAt 1)) (AnyArrayPtr.plain (wordsAt 0)) 2)
        countedWords.world ∧
      ∃ w', outcome (Bulk.memcpy (AnyArrayPtr.plain (wordsAt 1)) (AnyArrayPtr.plain (wordsAt 0)) 4)
        countedWords.world = (.ok (), w') := by
  have hexact := overlap_exact (AnyArrayPtr.plain (wordsAt 1)) (AnyArrayPtr.plain (wordsAt 0))
  have hd : countedWords.HasArray .uint32 (.plain (wordsAt 1)) := .handle List.mem_cons_self
  have hq : countedWords.HasArray .uint32 (.plain (wordsAt 0)) :=
    .handle (List.mem_cons_of_mem _ List.mem_cons_self)
  have htwo := hexact.copy 2 0x400000000004 0x400000000000 rfl rfl (by decide) (by decide)
  have hone := hexact.bytesCopied .scoped countedWords (reachable_countedWords .scoped) hd hq
    (by decide) 4 0x400000000004 0x400000000000 rfl rfl
  obtain ⟨w', ho, -⟩ := hone.2.2 (by decide)
  exact ⟨(htwo _).exact.mpr (by decide), w', ho⟩

end Program

end CheckedMemory
