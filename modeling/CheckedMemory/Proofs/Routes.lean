import CheckedMemory.Proofs.Cells
import CheckedMemory.Proofs.Indexing

/-!
# Routes to the same elements

An element can be reached in several ways: at an offset, at no offset from a pointer that was moved,
as one of a run of elements checked at once, as one of all that are left, or by its bytes.  Four
checks stand before them, and each has arithmetic of its own: the first adds words that wrap, the
second adds numbers and compares, the third subtracts, the fourth divides and rounds up.  They draw
the same line all the same: each lets through what the first lets through one by one.

Only the first can be off, by a whole turn of the word (see `Span.Aliases`), and only for offsets
below zero, which none of the others takes.

Main statement: `Program.routes_agree`.
-/

namespace CheckedMemory

open Operation

/-! ## 1. Bytes in whole elements -/

/-- Bytes fit in whole elements exactly if the elements counted for them do. -/
theorem Word.ceilDiv_le_iff {n d : UInt64} (hd : d.toNat ≠ 0) {k : Nat} :
    (ceilDiv n d).toNat ≤ k ↔ n.toNat ≤ k * d.toNat := by
  constructor
  · intro h
    exact Nat.le_trans (le_ceilDiv_mul n hd) (Nat.mul_le_mul_right _ h)
  · intro h
    have hmax : max d.toNat 1 = d.toNat := by omega
    have hsplit := Nat.div_add_mod n.toNat d.toNat
    rw [Nat.mul_comm] at hsplit
    refine Nat.le_of_not_lt fun hlt => ?_
    rw [toNat_ceilDiv, hmax] at hlt
    split at hlt
    · have hmul : (k + 1) * d.toNat ≤ n.toNat / d.toNat * d.toNat :=
        Nat.mul_le_mul_right _ (by omega)
      rw [Nat.succ_mul] at hmul
      omega
    · have hmul : k * d.toNat ≤ n.toNat / d.toNat * d.toNat := Nat.mul_le_mul_right _ (by omega)
      omega

/-! ## 2. The four checks -/

namespace Span

variable {s : Span} {size count : UInt64} {a : Address}

/-- The current position is one of the array, or the end of it. -/
def Inside (s : Span) : Prop := s.base ≠ 0 ∧ 0 ≤ s.index.toInt ∧ s.index.toInt ≤ s.extent.toNat

/-- An offset that is not negative is let through exactly if its position is one of the array: the
sum is too large by less than a turn of the word at most. -/
theorem exists_locate_iff (hext : s.extent.toNat < 2 ^ 63) {k : Int64} (hk : 0 ≤ k.toInt) :
    (∃ a, s.locate size k = .ok a) ↔ s.base ≠ 0 ∧ s.Contains (s.target k) := by
  constructor
  · rintro ⟨a, ha⟩
    have hne := (locate_eq_ok ha).1
    refine ⟨hne, ?_⟩
    rcases inExtent_add (i := k) hext with ⟨hc, -, -⟩ | ⟨hal, -, -⟩ | ⟨-, -, hout⟩
    · exact hc
    · have hlow := s.index.le_toInt
      unfold Aliases target at hal
      omega
    · rw [locate_of_not_inExtent hne hout] at ha
      cases ha
  · rintro ⟨hne, hc⟩
    rcases inExtent_add (i := k) hext with ⟨-, hin, -⟩ | ⟨hal, -, -⟩ | ⟨hno, -, -⟩
    · exact ⟨_, locate_of_inExtent hne hin⟩
    · exact absurd hc hal.not_contains
    · exact absurd hc hno

theorem exists_window_iff (hc : count ≠ 0) : (∃ a, s.window size count = .ok a) ↔
    s.base ≠ 0 ∧ 0 ≤ s.index.toInt ∧ s.index.toInt + count.toNat ≤ s.extent.toNat := by
  have hiff : (s.window size count).isOk = true ↔ _ := isOk_window_iff hc
  rw [← hiff]
  cases s.window size count with
  | ok a => simp [Except.isOk, Except.toBool]
  | error v => simp [Except.isOk, Except.toBool]

/-- **A run of elements is let through exactly if each of them is.** -/
theorem exists_window_iff_forall_locate (hext : s.extent.toNat < 2 ^ 63) (hc : count ≠ 0) :
    (∃ a, s.window size count = .ok a) ↔
      ∀ k : Int64, 0 ≤ k.toInt → k.toInt < count.toNat → ∃ a, s.locate size k = .ok a := by
  have hpos := Word.toNat_pos hc
  have hlow := s.index.le_toInt
  rw [exists_window_iff hc]
  constructor
  · rintro ⟨hne, h0, hle⟩ k hk hlt
    exact (exists_locate_iff hext hk).mpr ⟨hne, by unfold target; omega, by unfold target; omega⟩
  · intro hall
    have hzero : (0 : Int64).toInt = 0 := rfl
    obtain ⟨hne, hfirst⟩ := (exists_locate_iff hext (Int.le_of_eq hzero.symm)).mp
      (hall 0 (Int.le_of_eq hzero.symm) (by omega))
    unfold Contains target at hfirst
    refine ⟨hne, by omega, Int.not_lt.mp fun hover => ?_⟩
    -- the first offset past the end is one of the run, and a word can hold it
    have hpast : (Int64.ofInt (s.extent.toNat - s.index.toInt)).toInt =
        s.extent.toNat - s.index.toInt := Int64.toInt_ofInt_of_le (by omega) (by omega)
    obtain ⟨-, hin⟩ := (exists_locate_iff hext (k := Int64.ofInt _) (by omega)).mp
      (hall (Int64.ofInt (s.extent.toNat - s.index.toInt)) (by omega) (by omega))
    unfold Contains target at hin
    omega

/-- Elements are left at a position of the array or at its end. -/
theorem remaining_eq_ok_iff : s.remaining = .ok count ↔
    s.base ≠ 0 ∧ 0 ≤ s.index.toInt ∧ s.index.toInt + count.toNat = s.extent.toNat := by
  have hle : 0 ≤ s.index ↔ 0 ≤ s.index.toInt := Int64.le_iff_toInt_le
  constructor
  · intro h
    obtain ⟨hne, hsum⟩ := remaining_eq_ok h
    have h0 : 0 ≤ s.index.toInt := by
      unfold remaining at h
      split at h
      · cases h
      · split at h
        · rename_i hin
          exact hle.mp hin.1
        · cases h
    have := Word.toNat_toUInt64 h0
    exact ⟨hne, h0, by omega⟩
  · rintro ⟨hne, h0, hsum⟩
    have hnat := Word.toNat_toUInt64 h0
    have hin : s.index.toUInt64 ≤ s.extent := UInt64.le_iff_toNat_le.mpr (by omega)
    have hcount : s.extent - s.index.toUInt64 = count := by
      apply UInt64.toNat_inj.mp
      rw [UInt64.toNat_sub_of_le _ _ hin]
      omega
    unfold remaining isNull
    rw [if_neg (by simpa using hne), if_pos ⟨hle.mpr h0, hin⟩, hcount]

theorem exists_remaining_iff : (∃ n, s.remaining = .ok n) ↔ s.Inside := by
  constructor
  · rintro ⟨n, hn⟩
    obtain ⟨hne, h0, hsum⟩ := remaining_eq_ok_iff.mp hn
    exact ⟨hne, h0, by omega⟩
  · rintro ⟨hne, h0, hle⟩
    have hlt := s.extent.toNat_lt
    have hnat : (UInt64.ofNat (s.extent.toNat - s.index.toInt.toNat)).toNat =
        s.extent.toNat - s.index.toInt.toNat := Word.toNat_ofNat (by omega)
    exact ⟨_, remaining_eq_ok_iff.mpr ⟨hne, h0, by rw [hnat]; omega⟩⟩

/-- An element is as far from the current one as its offset says. -/
theorem elementAddress_add (s : Span) (size : UInt64) (k : Int64) :
    elementAddress s.base size (s.index + k) = s.address size + k.toUInt64 * size := by
  unfold address elementAddress
  rw [Int64.toUInt64_add, UInt64.add_mul, UInt64.add_assoc]

/-- **So many bytes are let through as there are in the array from the current element on.** -/
theorem admitsBytes_iff (hsize : size.toNat ≠ 0) {n : UInt64} (hn : n ≠ 0) :
    s.admitsBytes size n = true ↔ s.base ≠ 0 ∧ s.Includes size.toNat n.toNat := by
  constructor
  · exact includes_of_admitsBytes hsize hn
  · rintro ⟨hne, h0, hle⟩
    have hpos := Word.toNat_pos hn
    -- the bytes reach into the array, so the index is a position of it
    have hin : s.index.toInt ≤ s.extent.toNat := by
      refine Int.not_lt.mp fun hlt => ?_
      have := Int.mul_le_mul_of_nonneg_right (Int.le_of_lt hlt) (Int.natCast_nonneg size.toNat)
      omega
    obtain ⟨i, hi⟩ := Int.eq_ofNat_of_zero_le h0
    obtain ⟨k, hk⟩ := Nat.le.dest (show i ≤ s.extent.toNat by omega)
    have hfit : n.toNat ≤ k * size.toNat := by
      rw [hi, ← hk, Int.natCast_add, Int.add_mul] at hle
      have : (n.toNat : Int) ≤ k * size.toNat := by omega
      exact_mod_cast this
    have hceil := (Word.ceilDiv_le_iff hsize).mpr hfit
    exact (isOk_window_iff (Word.ceilDiv_ne_zero hn)).mpr ⟨hne, h0, by omega⟩

end Span

/-! ## 3. The routes -/

namespace ArrayLike

variable {P : ElemType → Type} [ArrayLike P] {τ : ElemType} {p : P τ} {a : Address}
  {count n : UInt64} {past : List Block} {w : World}

/-- Where it is known how many elements are left, they are all there. -/
theorem requireSpan_of_remaining (h : remaining p = .ok count) :
    requireSpan p count = .ok (address p) := by
  obtain ⟨hne, h0, hsum⟩ := Span.remaining_eq_ok_iff.mp h
  have hnat := Word.toNat_toUInt64 h0
  unfold requireSpan address Span.window Span.isNull
  split
  · rfl
  · rw [if_neg (by simpa using hne), if_pos ⟨Int64.le_iff_toInt_le.mpr h0, by omega⟩]

theorem rest_of_remaining (h : remaining p = .ok count) : rest p = .ok (address p, count) := by
  unfold rest
  rw [h]
  change (do
    let a ← requireSpan p count
    return (a, count)) = _
  rw [requireSpan_of_remaining h]
  rfl

theorem remaining_of_rest (h : rest p = .ok (a, count)) : remaining p = .ok count := by
  obtain ⟨n, hn, hr⟩ := exists_ok_of_bind h
  obtain ⟨b, -, hr⟩ := exists_ok_of_bind hr
  cases hr
  exact hn

/-- What is let through is at its offset from the current element. -/
theorem locate_address {k : Int64} (h : ∃ a, locate p k = .ok a) :
    locate p k = .ok (address p + k.toUInt64 * τ.size) := by
  obtain ⟨a, ha⟩ := h
  have hne := (Span.locate_eq_ok ha).1
  cases hin : Span.inExtent ((span p).index + k) (span p).extent with
  | false =>
    have hno : locate p k = .error _ := Span.locate_of_not_inExtent hne hin
    rw [hno] at ha
    cases ha
  | true =>
    have hyes : locate p k = .ok _ := Span.locate_of_inExtent hne hin
    rwa [Span.elementAddress_add] at hyes

/-- A pointer moved by an offset is, at no offset, where the pointer is at that offset. -/
theorem locate_offset (p : P τ) (i : Int64) : locate (offset p i) 0 = locate p i := by
  unfold locate offset Span.locate Span.shift Span.isNull
  rw [span_withSpan, Int64.add_zero]

/-- An access is let through exactly if it gives an element of the storage behind the pointer. -/
theorem exists_index_iff (h : w.Sound past) (hb : w.Backs past τ (span p)) {k : Int64} :
    (∃ x, outcome (index p k) w = (.ok x, w)) ↔ ∃ a, locate p k = .ok a := by
  constructor
  · rintro ⟨x, hx⟩
    cases hl : locate p k with
    | ok a => exact ⟨a, rfl⟩
    | error v =>
      unfold index at hx
      rw [hl] at hx
      cases hx
  · rintro ⟨a, ha⟩
    obtain ⟨cs, -, ho⟩ := (hb.holds_locate h ha).outcome_loadValue h
    rw [index_of_locate ha]
    exact ⟨_, ho⟩

/-- A run of elements starts with the first of them. -/
theorem locate_of_requireSpan (hext : (span p).extent.toNat < 2 ^ 63) (hc : count ≠ 0)
    (h : requireSpan p count = .ok a) : locate p 0 = .ok a := by
  have hzero : (0 : Int64).toInt = 0 := rfl
  have hword : (0 : Int64).toUInt64 = 0 := rfl
  have hpos := Word.toNat_pos hc
  have hfirst : ∃ a, locate p 0 = .ok a :=
    (Span.exists_window_iff_forall_locate hext hc).mp ⟨a, h⟩ 0 (by omega) (by omega)
  rw [locate_address hfirst, Span.window_address h, hword, UInt64.zero_mul,
    UInt64.add_zero]
  rfl

theorem toNat_of_remaining (h : remaining p = .ok n) :
    (n.toNat : Int) = (span p).extent.toNat - (span p).index.toInt := by
  obtain ⟨-, -, hsum⟩ := Span.remaining_eq_ok_iff.mp h
  omega

/-- Each of the elements that are left is let through. -/
theorem locate_of_remaining (hext : (span p).extent.toNat < 2 ^ 63) (h : remaining p = .ok n)
    {k : Int64} (hk : 0 ≤ k.toInt) (hlt : k.toInt < n.toNat) :
    locate p k = .ok (address p + k.toUInt64 * τ.size) := by
  obtain ⟨hne, h0, hsum⟩ := Span.remaining_eq_ok_iff.mp h
  refine locate_address ((Span.exists_locate_iff hext hk).mpr ⟨hne, ?_, ?_⟩)
  · unfold Span.target
    omega
  · unfold Span.target
    omega

theorem exists_rest_iff : (∃ r, rest p = .ok r) ↔ (span p).Inside := by
  rw [← Span.exists_remaining_iff]
  constructor
  · rintro ⟨⟨a, n⟩, hr⟩
    exact ⟨n, remaining_of_rest hr⟩
  · rintro ⟨n, hn⟩
    exact ⟨_, rest_of_remaining hn⟩

/-- **All the elements that are left, at once.** -/
theorem outcome_toList (h : w.Sound past) (hb : w.Backs past τ (span p))
    (hr : remaining p = .ok n) :
    outcome (toList p) w = (.ok (w.elements τ (address p) n.toNat), w) := by
  have hrest := rest_of_remaining hr
  obtain ⟨xs, hload, hlist⟩ := ((hb.holds_rest h hrest).2).outcome_loadValues h
  unfold toList elements
  rw [hrest]
  simp only [check, pure_bind]
  rw [outcome_bind_ok _ hload, hlist]
  rfl

/-- **Each of them by itself.** -/
theorem outcome_index_of_remaining (h : w.Sound past) (hb : w.Backs past τ (span p))
    (hr : remaining p = .ok n) (hext : (span p).extent.toNat < 2 ^ 63) {k : Int64}
    (hk : 0 ≤ k.toInt) (hlt : k.toInt < n.toNat) :
    ∃ x, (w.elements τ (address p) n.toNat)[k.toInt.toNat]? = some x ∧
      outcome (index p k) w = (.ok x, w) := by
  have hnat := Word.toNat_toUInt64 hk
  obtain ⟨x, ho, hx⟩ := (hb.holds_rest h (rest_of_remaining hr)).2.outcome_element h
    (k := k.toUInt64) (by omega)
  rw [show k.toUInt64.toNat = k.toInt.toNat by omega] at hx
  rw [index_of_locate (locate_of_remaining hext hr hk hlt)]
  exact ⟨x, hx, ho⟩

/-- A read of what is left that gives elements has passed its check. -/
theorem exists_remaining_of_toList {xs : List τ.Carrier} (h : outcome (toList p) w = (.ok xs, w)) :
    ∃ n, remaining p = .ok n := by
  cases hr : rest p with
  | ok r => exact ⟨r.2, remaining_of_rest (a := r.1) hr⟩
  | error v =>
    unfold toList elements at h
    rw [hr] at h
    cases h

theorem exists_toList_iff (h : w.Sound past) (hb : w.Backs past τ (span p)) :
    (∃ xs, outcome (toList p) w = (.ok xs, w)) ↔ (span p).Inside := by
  rw [← Span.exists_remaining_iff]
  constructor
  · rintro ⟨xs, hxs⟩
    exact exists_remaining_of_toList hxs
  · rintro ⟨n, hn⟩
    exact ⟨_, outcome_toList h hb hn⟩

end ArrayLike

/-! ## 4. The law -/

namespace Program

open ArrayLike

variable {τ : ElemType} {p : AnyArrayPtr τ}

/-- All routes to the elements of an array lead to the same elements and stop at the same line. -/
structure RoutesAgree (p : AnyArrayPtr τ) : Prop where
  /-- A run of elements is let through if every one of them is, and starts with the first. -/
  run : ∀ count ≠ 0,
    ((∃ a, requireSpan p count = .ok a) ↔
      ∀ k : Int64, 0 ≤ k.toInt → k.toInt < count.toNat → ∃ a, locate p k = .ok a) ∧
    ∀ a, requireSpan p count = .ok a → locate p 0 = .ok a
  /-- Elements are left, none or some, from the first position of the array to its end. -/
  remaining : ((∃ n, remaining p = .ok n) ↔ p.span.Inside) ∧
    ∀ n, remaining p = .ok n → (n.toNat : Int) = p.span.extent.toNat - p.span.index.toInt
  /-- The elements that are left are let through exactly then, and are where each of them is. -/
  rest : ((∃ r, rest p = .ok r) ↔ p.span.Inside) ∧
    ∀ a n, rest p = .ok (a, n) → ArrayLike.remaining p = .ok n ∧
      ∀ k : Int64, 0 ≤ k.toInt → k.toInt < n.toNat → locate p k = .ok (a + k.toUInt64 * τ.size)
  /-- In every state of a program that has the pointer, an access that is let through gives an
  element, and a read of what is left gives these elements in order. -/
  elements : ∀ δ s, Reachable δ s → s.HasArray τ p →
    (∀ k, (∃ x, outcome (index p k) s.world = (.ok x, s.world)) ↔ ∃ a, locate p k = .ok a) ∧
    ((∃ xs, outcome (toList p) s.world = (.ok xs, s.world)) ↔ p.span.Inside) ∧
    ∀ xs, outcome (toList p) s.world = (.ok xs, s.world) →
      (xs.length : Int) = p.span.extent.toNat - p.span.index.toInt ∧
      ∀ k : Int64, 0 ≤ k.toInt → k.toInt < xs.length →
        ∃ x, xs[k.toInt.toNat]? = some x ∧ outcome (index p k) s.world = (.ok x, s.world)
  /-- Moving and then accessing is accessing at the offset, whether it is let through or not. -/
  offset : ∀ i, locate (offset p i) 0 = locate p i ∧ index (ArrayLike.offset p i) 0 = index p i ∧
    get? (ArrayLike.offset p i) 0 = get? p i ∧
    ∀ x, ArrayLike.set (ArrayLike.offset p i) 0 x = ArrayLike.set p i x ∧
      trySet (ArrayLike.offset p i) 0 x = trySet p i x
  /-- Bytes are let through if they are among those of the array. -/
  bytes : τ.layout.size ≠ 0 → ∀ n ≠ 0, spatialCheck p n = true ↔
    p.span.base ≠ 0 ∧ 0 ≤ p.span.index.toInt ∧
      p.span.index.toInt * τ.layout.size + n.toNat ≤ p.span.extent.toNat * τ.layout.size

/-- **Every route to an element of an array leads to the same element, or is refused with the same
violation**, whatever the pointer's base, index and extent are. -/
theorem routes_agree (p : AnyArrayPtr τ) (hext : p.span.extent.toNat < 2 ^ 63) :
    RoutesAgree p where
  run _ hc := ⟨Span.exists_window_iff_forall_locate hext hc,
    fun _ ha => locate_of_requireSpan hext hc ha⟩
  remaining := ⟨Span.exists_remaining_iff, fun _ hn => toNat_of_remaining hn⟩
  rest := by
    refine ⟨exists_rest_iff, fun a n hr => ?_⟩
    have hn := remaining_of_rest hr
    rw [rest_of_remaining hn] at hr
    cases hr
    exact ⟨hn, fun k hk hlt => locate_of_remaining hext hn hk hlt⟩
  elements δ s hs hp := by
    have hsound := hs.sound.world
    have hb : s.world.Backs s.past τ (span p) := hp.backs hs.sound.backed
    refine ⟨fun k => exists_index_iff hsound hb, exists_toList_iff hsound hb, fun xs hxs => ?_⟩
    obtain ⟨n, hn⟩ := exists_remaining_of_toList hxs
    rw [outcome_toList hsound hb hn] at hxs
    cases hxs
    rw [World.length_elements]
    refine ⟨toNat_of_remaining hn, fun k hk hlt => ?_⟩
    exact outcome_index_of_remaining hsound hb hn hext hk hlt
  offset i := by
    have hl := locate_offset p i
    refine ⟨hl, ?_, ?_, fun x => ⟨?_, ?_⟩⟩
    · simp only [index, hl]
    · simp only [get?, hl]
    · simp only [ArrayLike.set, hl]
    · simp only [trySet, hl]
  bytes hsize n hn := by
    rw [← τ.toNat_size] at hsize ⊢
    exact Span.admitsBytes_iff hsize hn

/-- An array of three words, from its second one on: two words are left, which are eight bytes. -/
theorem routes_agree_three_words :
    RoutesAgree (.plain (wordsAt 1)) ∧
      (∃ xs, outcome (toList (AnyArrayPtr.plain (wordsAt 1)))
        (initial.run threeWords).world = (.ok xs, (initial.run threeWords).world)) ∧
      spatialCheck (AnyArrayPtr.plain (wordsAt 1)) 8 = true ∧
      ¬spatialCheck (AnyArrayPtr.plain (wordsAt 1)) 9 = true := by
  have hagree := routes_agree (.plain (wordsAt 1)) (by decide)
  have hs : Reachable .scoped
      ((initial.run threeWords).keep (.array .uint32 (.plain (wordsAt 1)))) :=
    (reachable_threeWords .scoped).tail (.derive (.convert (.offset (p := .plain (wordsAt 0))
      List.mem_cons_self 1)))
  have hlist := (hagree.elements .scoped _ hs (.handle List.mem_cons_self)).2.1
  exact ⟨hagree, hlist.mpr ⟨by decide, by decide, by decide⟩,
    (hagree.bytes (by decide) 8 (by decide)).mpr ⟨by decide, by decide, by decide⟩,
    fun h => absurd ((hagree.bytes (by decide) 9 (by decide)).mp h).2.2 (by decide)⟩

end Program

end CheckedMemory
