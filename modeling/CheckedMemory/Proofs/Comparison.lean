import CheckedMemory.Proofs.Writers

/-!
# Strings compared like the loop over their bytes

A comparison takes each string out of its array, up to its terminator or to `n` bytes, and orders
what it took.  The loop of the C library (`CString.compareLoop`) takes nothing out: it looks at both
arrays at once, one position after the other, and stops at the first difference, at a terminator of
both or after `n` bytes.

The two give the same (`CString.compareLoop_eq`): a string that ends first is the lesser one because
its terminator is the least byte, and behind a difference nothing matters.  So wherever a comparison
is not refused the loop looks at no byte outside the arrays, and which arrays are refused is said
without either of them (`CString.HasFront`, `CString.HasEnd`).  What is compared is a list of bytes,
so a comparison orders arrays as lists are ordered.

Main statement: `Program.compares_like_loop`.
-/

namespace CheckedMemory

open Operation

/-! ## 1. The order of lists -/

/-- Byte strings are ordered as lists of bytes are. -/
theorem compareBytes_eq_compare (as bs : List UInt8) : compareBytes as bs = Ord.compare as bs := by
  induction as generalizing bs with
  | nil => cases bs <;> rfl
  | cons a as ih =>
    cases bs with
    | nil => rfl
    | cons b bs =>
      rw [List.compare_cons_cons, ← ih]
      change _ = (compareOfLessAndEq a b).then _
      rw [compareBytes, compareOfLessAndEq]
      by_cases hlt : a < b
      · rw [if_pos hlt, if_pos hlt]
        rfl
      · by_cases heq : a = b
        · subst heq
          rw [if_neg hlt, if_neg hlt, if_neg hlt, if_pos rfl]
          rfl
        · have hgt : b < a := UInt8.lt_of_le_of_ne (UInt8.not_lt.mp hlt) (Ne.symm heq)
          rw [if_neg hlt, if_pos hgt, if_neg hlt, if_neg heq]
          rfl

/-! ## 2. The loop -/

theorem bytesFrom_succ (f : Address → UInt8) (a : Address) (n : Nat) :
    bytesFrom f a (n + 1) = f a :: bytesFrom f (a + 1) n := by
  have hzero : a + UInt64.ofNat 0 = a := UInt64.add_zero _
  rw [Nat.add_comm, bytesFrom_add]
  simp only [bytesFrom, List.range_one, List.map_cons, List.map_nil, hzero, List.singleton_append]
  rfl

namespace CString

/-- The loop of the C library.  From two addresses on it compares bytes as numbers without a sign,
up to the first that differ, a terminator of both or `n` of them. -/
def compareLoop (f : Address → UInt8) (a b : Address) : Nat → Ordering
  | 0 => .eq
  | n + 1 =>
    if f a < f b then .lt
    else if f b < f a then .gt
    else if f a = 0 then .eq
    else compareLoop f (a + 1) (b + 1) n

/-- The first bytes decide, unless they are the same and no terminator.  A string whose first byte
is a terminator is empty, and a terminator is the least byte. -/
theorem compareBytes_takeWhile_cons (a b : UInt8) (as bs : List UInt8) :
    compareBytes ((a :: as).takeWhile (· != 0)) ((b :: bs).takeWhile (· != 0)) =
      if a < b then .lt
      else if b < a then .gt
      else if a = 0 then .eq
      else compareBytes (as.takeWhile (· != 0)) (bs.takeWhile (· != 0)) := by
  by_cases ha : a = 0
  · subst ha
    by_cases hb : b = 0
    · subst hb
      rfl
    · have hpos : 0 < b := UInt8.pos_iff_ne_zero.mpr hb
      rw [List.takeWhile_cons_of_neg (by simp), List.takeWhile_cons_of_pos (by simpa using hb),
        if_pos hpos]
      rfl
  · have hpos : 0 < a := UInt8.pos_iff_ne_zero.mpr ha
    rw [List.takeWhile_cons_of_pos (by simpa using ha)]
    by_cases hb : b = 0
    · subst hb
      rw [List.takeWhile_cons_of_neg (by simp), if_neg (UInt8.lt_asymm hpos), if_pos hpos]
      rfl
    · rw [List.takeWhile_cons_of_pos (by simpa using hb), compareBytes, if_neg ha]

/-- **The loop orders what comes before the terminators.** -/
theorem compareLoop_eq (f : Address → UInt8) (a b : Address) (n : Nat) :
    compareLoop f a b n = compareBytes ((bytesFrom f a n).takeWhile (· != 0))
      ((bytesFrom f b n).takeWhile (· != 0)) := by
  induction n generalizing a b with
  | zero => rfl
  | succ n ih =>
    rw [bytesFrom_succ, bytesFrom_succ, compareBytes_takeWhile_cons, compareLoop, ih]

end CString

/-! ## 3. What is refused -/

section Arrays

variable {P Q : ElemType → Type} [ArrayLike P] [ArrayLike Q] {p : P .uint8} {q : Q .uint8}
  {past : List Block} {w : World} {n : UInt64} {k : Nat} {t u : List UInt8}

/-- Why the rest of an array is not taken: there is no array, the index is outside it, or what is
there is too little. -/
def Span.refusal (s : Span) (short : Violation) : Violation :=
  if s.isNull then .nullDereference
  else if 0 ≤ s.index ∧ s.index.toUInt64 ≤ s.extent then short
  else .outOfBounds s.index s.extent

/-- The rest of the array is there, or the reason is that there is none. -/
theorem Span.refusal_cases (s : Span) (short : Violation) :
    s.Inside ∧ s.refusal short = short ∨
      ¬s.Inside ∧ s.remaining = .error (s.refusal short) := by
  rw [← exists_remaining_iff]
  unfold remaining refusal
  by_cases hnull : s.isNull = true
  · rw [if_pos hnull, if_pos hnull]
    exact .inr ⟨nofun, rfl⟩
  · rw [if_neg hnull, if_neg hnull]
    by_cases hin : 0 ≤ s.index ∧ s.index.toUInt64 ≤ s.extent
    · rw [if_pos hin, if_pos hin]
      exact .inl ⟨⟨_, rfl⟩, rfl⟩
    · rw [if_neg hin, if_neg hin]
      exact .inr ⟨nofun, rfl⟩

namespace CString

open ArrayLike (span address)

/-- The array has `k` bytes left, or a terminator among those that it has. -/
structure HasFront (p : P .uint8) (w : World) (k : Nat) : Prop where
  inside : (span p).Inside
  enough : 0 ∈ (bytesLeft p w).take k ∨ k ≤ (span p).left

/-- The array has a terminator left. -/
structure HasEnd (p : P .uint8) (w : World) : Prop where
  inside : (span p).Inside
  ended : 0 ∈ bytesLeft p w

/-- What the first `k` bytes say. -/
def front (p : P .uint8) (w : World) (k : Nat) : List UInt8 :=
  ((bytesLeft p w).take k).takeWhile (· != 0)

theorem HasFront.begins (h : HasFront p w k) : Begins p w k (front p w k) :=
  begins_iff.mpr ⟨h.inside, h.enough, rfl⟩

theorem HasFront.of_begins (h : Begins p w k t) : HasFront p w k :=
  ⟨(begins_iff.mp h).1, (begins_iff.mp h).2.1⟩

theorem Begins.front_eq (h : Begins p w k t) : front p w k = t := (begins_iff.mp h).2.2.symm

theorem HasEnd.exists_spells (h : HasEnd p w) : ∃ t, Spells p w t :=
  ⟨_, spells_iff.mpr ⟨h.inside, h.ended, rfl⟩⟩

/-- Outside the array there is no look at it. -/
theorem outcome_window_of_remaining {v : Violation} (h : (span p).remaining = .error v) :
    outcome (window p) w = (.error (.violation v), w) := by
  have hrest : ArrayLike.rest p = .error v := by
    unfold ArrayLike.rest ArrayLike.remaining
    rw [h]
    rfl
  unfold window
  rw [hrest]
  rfl

theorem outcome_leading_refused (h : w.Sound past) (hb : w.Backs past .uint8 (span p))
    (hno : ¬HasFront p w n.toNat) : outcome (leading p n) w =
      (.error (.violation ((span p).refusal (.spanOutOfBounds (span p).index n (span p).extent))),
        w) := by
  rcases (span p).refusal_cases (.spanOutOfBounds (span p).index n (span p).extent) with
    ⟨hin, hshort⟩ | ⟨-, hrem⟩
  · obtain ⟨bytes, ho, hbytes⟩ := outcome_window h hb hin
    have hterm : ¬isTerminated (bytes.take n.toNat) = true := by
      rw [isTerminated_iff, Runs.toList_take, hbytes]
      exact fun hzero => hno ⟨hin, .inl hzero⟩
    have hfew : ¬n.toNat ≤ bytes.length := by
      rw [← Runs.length_toList, hbytes, length_bytesLeft]
      exact fun hle => hno ⟨hin, .inr hle⟩
    unfold leading
    rw [outcome_bind_ok _ ho, if_neg hterm, if_neg hfew, hshort]
    rfl
  · exact outcome_bind_error _ (outcome_window_of_remaining hrem)

theorem outcome_contents_refused (h : w.Sound past) (hb : w.Backs past .uint8 (span p))
    (hno : ¬HasEnd p w) : outcome (contents p) w =
      (.error (.violation ((span p).refusal (.unterminated (UInt64.ofNat (span p).left)))), w) := by
  rcases (span p).refusal_cases (.unterminated (UInt64.ofNat (span p).left)) with
    ⟨hin, hshort⟩ | ⟨-, hrem⟩
  · obtain ⟨bytes, ho, hbytes⟩ := outcome_window h hb hin
    have hterm : ¬isTerminated bytes = true := by
      rw [isTerminated_iff, hbytes]
      exact fun hzero => hno ⟨hin, hzero⟩
    have hlen : bytes.length = (span p).left := by
      rw [← Runs.length_toList, hbytes, length_bytesLeft]
    unfold contents
    rw [outcome_bind_ok _ ho, if_neg hterm, hshort, ← hlen]
    rfl
  · exact outcome_bind_error _ (outcome_window_of_remaining hrem)

/-! ## 4. What is compared -/

/-- The memory has the array as it is in the state.  Its other bytes may be any. -/
def SameArray (p : P .uint8) (w : World) (f : Address → UInt8) : Prop :=
  bytesFrom f (address p) (span p).left = bytesLeft p w

/-- What the first bytes say is what comes before a terminator from there on, in any memory with the
same array: where fewer bytes are left, a terminator is among them. -/
theorem Begins.takeWhile_bytesFrom (h : Begins p w k t) {f : Address → UInt8}
    (hf : SameArray p w f) : (bytesFrom f (address p) k).takeWhile (· != 0) = t := by
  obtain ⟨-, hends, rfl⟩ := begins_iff.mp h
  by_cases hle : k ≤ (span p).left
  · rw [← hf, take_bytesFrom _ _ hle]
  · -- the array ends first, so a terminator is in it, and what is behind the array does not count
    have hall : (bytesLeft p w).take k = bytesLeft p w :=
      List.take_of_length_le (by rw [length_bytesLeft]; omega)
    have hzero := hends.resolve_right hle
    rw [hall] at hzero ⊢
    obtain ⟨m, rfl⟩ := Nat.exists_eq_add_of_le (Nat.le_of_not_le hle)
    rw [bytesFrom_add, hf, List.takeWhile_append, if_neg]
    intro hlen
    have hself := (List.takeWhile_prefix _).eq_of_length hlen
    simpa using List.takeWhile_eq_self_iff.mp hself 0 hzero

theorem compareLoop_of_begins {f : Address → UInt8} (ht : Begins p w k t) (hu : Begins q w k u)
    (hp : SameArray p w f) (hq : SameArray q w f) :
    compareLoop f (address p) (address q) k = compareBytes t u := by
  rw [compareLoop_eq, ht.takeWhile_bytesFrom hp, hu.takeWhile_bytesFrom hq]

section Outcomes

variable (h : w.Sound past) (hp : w.Backs past .uint8 (span p))

include h hp

theorem compareLeading_refused_first (q : Q .uint8) (hno : ¬HasFront p w n.toNat) :
    outcome (compareLeading p q n) w =
      (.error (.violation ((span p).refusal (.spanOutOfBounds (span p).index n (span p).extent))),
        w) :=
  outcome_bind_error _ (outcome_leading_refused h hp hno)

theorem compare_refused_first (q : Q .uint8) (hno : ¬HasEnd p w) : outcome (compare p q) w =
    (.error (.violation ((span p).refusal (.unterminated (UInt64.ofNat (span p).left)))), w) :=
  outcome_bind_error _ (outcome_contents_refused h hp hno)

variable (hq : w.Backs past .uint8 (span q))

include hq

theorem compareLeading_refused_second (hfront : HasFront p w n.toNat)
    (hno : ¬HasFront q w n.toNat) : outcome (compareLeading p q n) w =
      (.error (.violation ((span q).refusal (.spanOutOfBounds (span q).index n (span q).extent))),
        w) := by
  obtain ⟨r, ho, -⟩ := outcome_leading h hp hfront.begins
  exact (outcome_bind_ok _ ho).trans (outcome_bind_error _ (outcome_leading_refused h hq hno))

theorem compare_refused_second (hend : HasEnd p w) (hno : ¬HasEnd q w) :
    outcome (compare p q) w =
      (.error (.violation ((span q).refusal (.unterminated (UInt64.ofNat (span q).left)))), w) := by
  obtain ⟨t, ht⟩ := hend.exists_spells
  obtain ⟨r, ho, -⟩ := outcome_contents h hp ht
  exact (outcome_bind_ok _ ho).trans (outcome_bind_error _ (outcome_contents_refused h hq hno))

theorem outcome_compareLeading (ht : Begins p w n.toNat t) (hu : Begins q w n.toNat u) :
    outcome (compareLeading p q n) w = (.ok (compareBytes t u), w) := by
  obtain ⟨r, ho, rfl⟩ := outcome_leading h hp ht
  obtain ⟨r', ho', rfl⟩ := outcome_leading h hq hu
  unfold compareLeading
  rw [outcome_bind_ok _ ho, outcome_bind_ok _ ho', outcome_pure, Runs.compare_eq]

theorem outcome_compare (ht : Spells p w t) (hu : Spells q w u) :
    outcome (compare p q) w = (.ok (compareBytes t u), w) := by
  obtain ⟨r, ho, rfl⟩ := outcome_contents h hp ht
  obtain ⟨r', ho', rfl⟩ := outcome_contents h hq hu
  unfold compare
  rw [outcome_bind_ok _ ho, outcome_bind_ok _ ho', outcome_pure, Runs.compare_eq]

/-- A comparison of the first bytes fails exactly if one array has too few. -/
theorem compareLeading_fails_iff :
    (∃ f w', outcome (compareLeading p q n) w = (.error f, w')) ↔
      ¬HasFront p w n.toNat ∨ ¬HasFront q w n.toNat := by
  by_cases hfront : HasFront p w n.toNat
  · by_cases hfront' : HasFront q w n.toNat
    · rw [outcome_compareLeading h hp hq hfront.begins hfront'.begins]
      exact iff_of_false nofun fun hno => hno.elim (absurd hfront) (absurd hfront')
    · rw [compareLeading_refused_second h hp hq hfront hfront']
      exact iff_of_true ⟨_, _, rfl⟩ (.inr hfront')
  · rw [compareLeading_refused_first h hp q hfront]
    exact iff_of_true ⟨_, _, rfl⟩ (.inl hfront)

/-- And one of whole strings if one has no end. -/
theorem compare_fails_iff :
    (∃ f w', outcome (compare p q) w = (.error f, w')) ↔ ¬HasEnd p w ∨ ¬HasEnd q w := by
  by_cases hend : HasEnd p w
  · by_cases hend' : HasEnd q w
    · obtain ⟨t, ht⟩ := hend.exists_spells
      obtain ⟨u, hu⟩ := hend'.exists_spells
      rw [outcome_compare h hp hq ht hu]
      exact iff_of_false nofun fun hno => hno.elim (absurd hend) (absurd hend')
    · rw [compare_refused_second h hp hq hend hend']
      exact iff_of_true ⟨_, _, rfl⟩ (.inr hend')
  · rw [compare_refused_first h hp q hend]
    exact iff_of_true ⟨_, _, rfl⟩ (.inl hend)

end Outcomes

end CString

end Arrays

/-! ## 5. The law on runs -/

namespace Program

open CString

variable {δ : Discipline} {s : Program}

/-- What a comparison of two arrays gives. -/
structure ComparesLikeLoop (p q : AnyArrayPtr .uint8) (w : World) : Prop where
  fails_iff : ∀ n, (∃ f w', outcome (compareLeading p q n) w = (.error f, w')) ↔
    ¬HasFront p w n.toNat ∨ ¬HasFront q w n.toNat
  /-- The first array is refused before the second one is looked at. -/
  refusedFirst : ∀ n, ¬HasFront p w n.toNat → outcome (compareLeading p q n) w =
    (.error (.violation (p.span.refusal (.spanOutOfBounds p.span.index n p.span.extent))), w)
  refusedSecond : ∀ n, HasFront p w n.toNat → ¬HasFront q w n.toNat →
    outcome (compareLeading p q n) w =
      (.error (.violation (q.span.refusal (.spanOutOfBounds q.span.index n q.span.extent))), w)
  compared : ∀ n, HasFront p w n.toNat → HasFront q w n.toNat → outcome (compareLeading p q n) w =
    (.ok (compareLoop w.memory.byte (ArrayLike.address p) (ArrayLike.address q) n.toNat), w)
  /-- The loop looks at no byte outside the arrays. -/
  confined : ∀ k f, HasFront p w k → HasFront q w k → SameArray p w f → SameArray q w f →
    compareLoop f (ArrayLike.address p) (ArrayLike.address q) k =
      compareLoop w.memory.byte (ArrayLike.address p) (ArrayLike.address q) k
  whole_fails_iff : (∃ f w', outcome (compare p q) w = (.error f, w')) ↔
    ¬HasEnd p w ∨ ¬HasEnd q w
  wholeRefusedFirst : ¬HasEnd p w → outcome (compare p q) w =
    (.error (.violation (p.span.refusal (.unterminated (UInt64.ofNat p.span.left)))), w)
  wholeRefusedSecond : HasEnd p w → ¬HasEnd q w → outcome (compare p q) w =
    (.error (.violation (q.span.refusal (.unterminated (UInt64.ofNat q.span.left)))), w)
  /-- Without a bound the loop goes as far as with any that is greater than both lengths. -/
  whole : ∀ t u, Spells p w t → Spells q w u → ∀ k, t.length < k → u.length < k →
    outcome (compare p q) w =
      (.ok (compareLoop w.memory.byte (ArrayLike.address p) (ArrayLike.address q) k), w)
  bounded : ∀ t u, Spells p w t → Spells q w u → ∀ n : UInt64, t.length < n.toNat →
    u.length < n.toNat → outcome (compare p q) w = outcome (compareLeading p q n) w

/-- The first `n` bytes of one array come before those of the other or are the same. -/
def AtMost (n : UInt64) (w : World) (p q : AnyArrayPtr .uint8) : Prop :=
  ∃ o, outcome (compareLeading p q n) w = (.ok o, w) ∧ o.isLE = true

/-- A pointer of the program to an array that a comparison of `n` bytes does not refuse. -/
structure Accepted (n : UInt64) (s : Program) (p : AnyArrayPtr .uint8) : Prop where
  hasArray : s.HasArray .uint8 p
  hasFront : HasFront p s.world n.toNat

/-- The comparison of `n` bytes is a total preorder, and what it cannot tell apart are the arrays
whose first bytes say the same. -/
structure Preorders (n : UInt64) (s : Program) : Prop where
  refl : ∀ p, Accepted n s p → AtMost n s.world p p
  trans : ∀ p q r, Accepted n s p → Accepted n s q → Accepted n s r →
    AtMost n s.world p q → AtMost n s.world q r → AtMost n s.world p r
  total : ∀ p q, Accepted n s p → Accepted n s q → AtMost n s.world p q ∨ AtMost n s.world q p
  swapped : ∀ p q, Accepted n s p → Accepted n s q → ∀ o,
    outcome (compareLeading p q n) s.world = (.ok o, s.world) →
      outcome (compareLeading q p n) s.world = (.ok o.swap, s.world)
  equal_iff : ∀ p q, Accepted n s p → Accepted n s q →
    (outcome (compareLeading p q n) s.world = (.ok .eq, s.world) ↔
      ∃ t, Begins p s.world n.toNat t ∧ Begins q s.world n.toNat t)

section Handles

variable {p q : AnyArrayPtr .uint8} {n : UInt64} (hs : Reachable δ s)

include hs

theorem comparesLikeLoop (hp : s.HasArray .uint8 p) (hq : s.HasArray .uint8 q) :
    ComparesLikeLoop p q s.world := by
  have h := hs.sound.world
  have hbp := hp.backs hs.sound.backed
  have hbq := hq.backs hs.sound.backed
  refine
    { fails_iff := fun n => compareLeading_fails_iff h hbp hbq
      refusedFirst := fun n => compareLeading_refused_first h hbp q
      refusedSecond := fun n => compareLeading_refused_second h hbp hbq
      compared := fun n hfront hfront' => ?_
      confined := fun k f hfront hfront' hf hf' => ?_
      whole_fails_iff := compare_fails_iff h hbp hbq
      wholeRefusedFirst := compare_refused_first h hbp q
      wholeRefusedSecond := compare_refused_second h hbp hbq
      whole := fun t u ht hu k hlt hlt' => ?_
      bounded := fun t u ht hu n hlt hlt' => ?_ }
  · rw [outcome_compareLeading h hbp hbq hfront.begins hfront'.begins,
      compareLoop_of_begins hfront.begins hfront'.begins rfl rfl]
  · rw [compareLoop_of_begins hfront.begins hfront'.begins hf hf',
      compareLoop_of_begins hfront.begins hfront'.begins rfl rfl]
  · rw [outcome_compare h hbp hbq ht hu,
      compareLoop_of_begins (.ended ht hlt) (.ended hu hlt') rfl rfl]
  · rw [outcome_compare h hbp hbq ht hu,
      outcome_compareLeading h hbp hbq (.ended ht hlt) (.ended hu hlt')]

/-- What is given for accepted arrays is the order of two lists. -/
theorem Accepted.outcome_eq (hp : Accepted n s p) (hq : Accepted n s q) :
    outcome (compareLeading p q n) s.world =
      (.ok (Ord.compare (front p s.world n.toNat) (front q s.world n.toNat)), s.world) := by
  rw [← compareBytes_eq_compare]
  exact outcome_compareLeading hs.sound.world (hp.hasArray.backs hs.sound.backed)
    (hq.hasArray.backs hs.sound.backed) hp.hasFront.begins hq.hasFront.begins

theorem Accepted.atMost_iff (hp : Accepted n s p) (hq : Accepted n s q) :
    AtMost n s.world p q ↔
      (Ord.compare (front p s.world n.toNat) (front q s.world n.toNat)).isLE = true := by
  unfold AtMost
  rw [hp.outcome_eq hs hq]
  constructor
  · rintro ⟨o, ho, hle⟩
    cases ho
    exact hle
  · exact fun hle => ⟨_, rfl, hle⟩

/-- So the laws are those of the order of lists. -/
theorem preorders (n : UInt64) : Preorders n s where
  refl p hp := by
    have hself : Ord.compare (front p s.world n.toNat) (front p s.world n.toNat) = .eq :=
      Std.ReflCmp.compare_self
    rw [hp.atMost_iff hs hp, hself]
    rfl
  trans p q r hp hq hr hpq hqr := by
    rw [hp.atMost_iff hs hq] at hpq
    rw [hq.atMost_iff hs hr] at hqr
    rw [hp.atMost_iff hs hr]
    exact Std.TransCmp.isLE_trans hpq hqr
  total p q hp hq := by
    have hswap : Ord.compare (front q s.world n.toNat) (front p s.world n.toNat) =
        (Ord.compare (front p s.world n.toNat) (front q s.world n.toNat)).swap :=
      Std.OrientedCmp.eq_swap
    rw [hp.atMost_iff hs hq, hq.atMost_iff hs hp, hswap]
    cases Ord.compare (front p s.world n.toNat) (front q s.world n.toNat) with
    | lt | eq => exact .inl rfl
    | gt => exact .inr rfl
  swapped p q hp hq o ho := by
    rw [hp.outcome_eq hs hq] at ho
    cases ho
    rw [hq.outcome_eq hs hp, ← Std.OrientedCmp.eq_swap]
  equal_iff p q hp hq := by
    rw [hp.outcome_eq hs hq, Prod.mk.injEq, Except.ok.injEq, Std.LawfulEqCmp.compare_eq_iff_eq]
    constructor
    · rintro ⟨hsame, -⟩
      exact ⟨_, hp.hasFront.begins, hsame ▸ hq.hasFront.begins⟩
    · rintro ⟨t, ht, hu⟩
      exact ⟨ht.front_eq.trans hu.front_eq.symm, rfl⟩

/-- **Strings are compared like the loop over their bytes compares them**, for arrays of any kind
and in every state of a program, and for one bound the comparison is a total preorder. -/
theorem compares_like_loop :
    (∀ p q, s.HasArray .uint8 p → s.HasArray .uint8 q → ComparesLikeLoop p q s.world) ∧
      ∀ n, Preorders n s :=
  ⟨fun _ _ hp hq => comparesLikeLoop hs hp hq, preorders hs⟩

end Handles

set_option maxRecDepth 2000 in
/-- The string of two letters comes before that of the second one alone, though it is longer.  Eight
bytes are more than either array has left. -/
theorem compares_like_loop_letters :
    Reachable .scoped (lettersAnd 1) ∧
      outcome (compareLeading (letters 0) (letters 1) 8) (lettersAnd 1).world =
        (.ok .lt, (lettersAnd 1).world) ∧
      AtMost 8 (lettersAnd 1).world (letters 1) (letters 1) := by
  have hr := reachable_lettersAnd .scoped 1
  obtain ⟨hfirst, hsecond⟩ := hasArray_letters 1
  have hspells : Spells (letters 1) (lettersAnd 1).world [98] :=
    ⟨⟨by decide, by decide, by decide⟩, by decide, by decide, rfl⟩
  have hfront : HasFront (letters 0) (lettersAnd 1).world 8 :=
    .of_begins ((spells_letters 1).begins 8)
  have hfront' : HasFront (letters 1) (lettersAnd 1).world 8 := .of_begins (hspells.begins 8)
  refine ⟨hr, ?_, ((compares_like_loop hr).2 8).refl _ ⟨hsecond, hfront'⟩⟩
  rw [((compares_like_loop hr).1 _ _ hfirst hsecond).compared 8 hfront hfront']
  rfl

end Program

end CheckedMemory
