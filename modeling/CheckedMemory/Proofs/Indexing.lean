import CheckedMemory.Proofs.Bytes

/-!
# Elements at an offset

A pointer's index moves freely, and an access adds an offset to it before it checks.  The law is
about the exact sum: where it is a position of the array the access is to that element, and where it
is not the access is refused.  The sum that is checked is a word, however.  One that is too large
wraps to a negative word and is refused all the same, but one that is too small wraps to a positive
word, which may be a position of the array again.

`Program.obeys_iff` says when the law holds: unless the exact sum is less than the extent when a
whole turn of the word is added.  What happens then is said too.
-/

namespace CheckedMemory

open Operation

/-! ## 1. Sums of indices -/

/-- A sum of signed words is exact, or is off by a whole turn, to the other side of zero. -/
theorem Word.toInt_add_cases (i j : Int64) :
    (i + j).toInt = i.toInt + j.toInt ∨
      2 ^ 63 ≤ i.toInt + j.toInt ∧ (i + j).toInt = i.toInt + j.toInt - 2 ^ 64 ∨
        i.toInt + j.toInt < -2 ^ 63 ∧ (i + j).toInt = i.toInt + j.toInt + 2 ^ 64 := by
  have hi := i.toInt_lt
  have hi' := i.le_toInt
  have hj := j.toInt_lt
  have hj' := j.le_toInt
  rw [Int64.toInt_add, Int.bmod_def]
  omega

namespace Span

variable {s : Span} {size : UInt64} {i : Int64}

/-- The position that an offset asks for, in exact arithmetic. -/
def target (s : Span) (i : Int64) : Int := s.index.toInt + i.toInt

/-- The position is one of the array. -/
def Contains (s : Span) (k : Int) : Prop := 0 ≤ k ∧ k < s.extent.toNat

instance (k : Int) : Decidable (s.Contains k) := inferInstanceAs (Decidable (_ ∧ _))

/-- The position wraps to one of the array: it is that far below zero. -/
def Aliases (s : Span) (i : Int64) : Prop := s.target i + 2 ^ 64 < s.extent.toNat

instance : Decidable (s.Aliases i) := inferInstanceAs (Decidable (_ < _))

/-- No position both is one of the array and wraps to one. -/
theorem Aliases.not_contains (h : s.Aliases i) : ¬s.Contains (s.target i) := by
  have hext := s.extent.toNat_lt
  unfold Aliases at h
  unfold Contains
  omega

/-- The word that is checked is in the extent if the position is, or if it wraps to one that is. -/
theorem inExtent_add (hext : s.extent.toNat < 2 ^ 63) :
    (s.Contains (s.target i) ∧ inExtent (s.index + i) s.extent = true ∧
        (s.index + i).toInt = s.target i) ∨
      (s.Aliases i ∧ inExtent (s.index + i) s.extent = true ∧
        (s.index + i).toInt = s.target i + 2 ^ 64) ∨
      ¬s.Contains (s.target i) ∧ ¬s.Aliases i ∧ inExtent (s.index + i) s.extent = false := by
  have hlow := (s.index + i).le_toInt
  have hindex := s.index.le_toInt
  have hindex' := s.index.toInt_lt
  have hi := i.le_toInt
  have hi' := i.toInt_lt
  have hin := inExtent_iff (i := s.index + i) (n := s.extent)
  rw [← Bool.not_eq_true, hin]
  unfold Contains Aliases target
  rcases Word.toInt_add_cases s.index i with hsum | ⟨hbig, hsum⟩ | ⟨hsmall, hsum⟩
  · omega
  · omega
  · omega

theorem locate_of_inExtent (hne : s.base ≠ 0) (hin : inExtent (s.index + i) s.extent = true) :
    s.locate size i = .ok (elementAddress s.base size (s.index + i)) := by
  unfold locate isNull
  rw [if_neg (by simpa using hne)]
  exact if_pos hin

theorem locate_of_not_inExtent (hne : s.base ≠ 0)
    (hin : inExtent (s.index + i) s.extent = false) :
    s.locate size i = .error (.outOfBounds (s.index + i) s.extent) := by
  unfold locate isNull
  rw [if_neg (by simpa using hne)]
  exact if_neg (by rw [hin]; decide)

end Span

/-- Counted from the start of an array, an index says any position that a signed word can. -/
theorem ArrayPtr.locate_ofBase {τ : ElemType} {a : Address} {n k : UInt64} (hne : a ≠ 0)
    (hk : k.toNat < n.toNat) (hindex : k.toNat < 2 ^ 63) :
    ArrayLike.locate (ofBase a n : ArrayPtr τ) k.toInt64 = .ok (a + k * τ.size) := by
  have hmove : (0 : Int64) + k.toInt64 = k.toInt64 := Int64.zero_add _
  have hword : k.toInt64 = Int64.ofNat k.toNat := by
    rw [← UInt64.toInt64_ofNat', UInt64.ofNat_toNat]
  have hin : Span.inExtent (0 + k.toInt64) n = true := by
    rw [hmove, Span.inExtent_iff, hword, Int64.toInt_ofNat_of_lt hindex]
    exact ⟨Int.natCast_nonneg _, Int.ofNat_lt.mpr hk⟩
  have hl : Span.locate ⟨a, 0, n⟩ τ.size k.toInt64 =
      .ok (Span.elementAddress a τ.size (0 + k.toInt64)) := Span.locate_of_inExtent hne hin
  rw [hmove, Span.elementAddress, UInt64.toUInt64_toInt64] at hl
  exact hl

/-! ## 2. What an access does -/

section Arrays

variable {P : ElemType → Type} [ArrayLike P] {τ : ElemType} {p : P τ} {i : Int64}
  {past : List Block} {w : World} {a : Address}

namespace ArrayLike

/-- Every access with the offset succeeds, and is to the element at position `k`. -/
def AccessesAt (p : P τ) (i : Int64) (w : World) (k : Int) : Prop :=
  ∃ a : Address, (a.toNat : Int) = (span p).base.toNat + k * τ.layout.size ∧
    (∃ x, outcome (loadValue τ a) w = (.ok x, w) ∧ outcome (index p i) w = (.ok x, w) ∧
      outcome (get? p i) w = (.ok (some x), w)) ∧
    ∀ x, ∃ w', outcome (assign τ a x) w = (.ok (), w') ∧ outcome (set p i x) w = (.ok (), w') ∧
      outcome (trySet p i x) w = (.ok true, w')

/-- Every access with the offset is refused, with a trap or with nothing, and changes nothing. -/
structure Refuses (p : P τ) (i : Int64) (w : World) : Prop where
  index : outcome (index p i) w =
    (.error (.violation (.outOfBounds ((span p).index + i) (span p).extent)), w)
  get? : outcome (get? p i) w = (.ok none, w)
  set : ∀ x, outcome (set p i x) w =
    (.error (.violation (.outOfBounds ((span p).index + i) (span p).extent)), w)
  trySet : ∀ x, outcome (trySet p i x) w = (.ok false, w)

/-- The law of bounds for one offset. -/
structure Obeys (p : P τ) (i : Int64) (w : World) : Prop where
  inside : (span p).Contains ((span p).target i) → AccessesAt p i w ((span p).target i)
  outside : ¬(span p).Contains ((span p).target i) → Refuses p i w

/-- An access to an element of its own is not refused. -/
theorem AccessesAt.not_refuses {k : Int} (h : AccessesAt p i w k) : ¬Refuses p i w := by
  intro hr
  obtain ⟨a, -, ⟨x, -, -, hget⟩, -⟩ := h
  rw [hr.get?] at hget
  cases hget

theorem index_of_locate (hl : locate p i = .ok a) : index p i = loadValue τ a := by
  unfold index
  rw [hl]
  exact pure_bind a _

theorem set_of_locate (hl : locate p i = .ok a) (x : τ.Carrier) : set p i x = assign τ a x := by
  unfold set
  rw [hl]
  exact pure_bind a _

theorem get?_of_locate (hl : locate p i = .ok a) :
    get? p i = (do return some (← loadValue τ a)) := by
  unfold get?
  rw [hl]
  exact map_eq_pure_bind some _

theorem trySet_of_locate (hl : locate p i = .ok a) (x : τ.Carrier) :
    trySet p i x = (do assign τ a x; return true) := by
  unfold trySet
  rw [hl]

theorem accessesAt_of_inExtent (h : w.Sound past) (hb : w.Backs past τ (span p))
    (hne : (span p).base ≠ 0)
    (hin : Span.inExtent ((span p).index + i) (span p).extent = true) :
    AccessesAt p i w ((span p).index + i).toInt := by
  have hl : locate p i = .ok _ := Span.locate_of_inExtent hne hin
  have hheld := hb.holds_locate h hl
  obtain ⟨h0, hlt⟩ := Span.inExtent_iff.mp hin
  have hnat := Word.toNat_toUInt64 h0
  refine ⟨Span.elementAddress (span p).base τ.size ((span p).index + i), ?_, ?_, fun x => ?_⟩
  · unfold Span.elementAddress
    rw [(hb.holds hne).toNat_element h (by omega), ← hnat]
    push_cast
    rfl
  · obtain ⟨cs, -, ho⟩ := hheld.outcome_loadValue h
    rw [index_of_locate hl, get?_of_locate hl, outcome_bind_ok _ ho]
    exact ⟨τ.decode cs.toList, ho, ho, rfl⟩
  · obtain ⟨cs, m, -, -, ho, -⟩ := hheld.outcome_assign h x
    rw [set_of_locate hl, trySet_of_locate hl, outcome_bind_ok _ ho]
    exact ⟨_, ho, ho, rfl⟩

theorem refuses_of_not_inExtent (hne : (span p).base ≠ 0)
    (hin : Span.inExtent ((span p).index + i) (span p).extent = false) : Refuses p i w := by
  have hl : locate p i = .error _ := Span.locate_of_not_inExtent hne hin
  refine ⟨?_, ?_, fun x => ?_, fun x => ?_⟩
  · unfold index
    rw [hl]
    rfl
  · unfold get?
    rw [hl]
    rfl
  · unfold set
    rw [hl]
    rfl
  · unfold trySet
    rw [hl]
    rfl

/-- An access with an offset that aliases is to the element that it aliases. -/
theorem accessesAt_of_aliases (h : w.Sound past) (hb : w.Backs past τ (span p))
    (hne : (span p).base ≠ 0) (hext : (span p).extent.toNat < 2 ^ 63) (hal : (span p).Aliases i) :
    AccessesAt p i w ((span p).target i + 2 ^ 64) := by
  rcases Span.inExtent_add (i := i) hext with ⟨hc, -⟩ | ⟨-, hin, hsum⟩ | ⟨-, hno, -⟩
  · exact absurd hc hal.not_contains
  · rw [← hsum]
    exact accessesAt_of_inExtent h hb hne hin
  · exact absurd hal hno

theorem obeys_of_not_aliases (h : w.Sound past) (hb : w.Backs past τ (span p))
    (hne : (span p).base ≠ 0) (hext : (span p).extent.toNat < 2 ^ 63)
    (hal : ¬(span p).Aliases i) : Obeys p i w := by
  rcases Span.inExtent_add (i := i) hext with ⟨hc, hin, hsum⟩ | ⟨hyes, -⟩ | ⟨hc, -, hin⟩
  · refine ⟨fun _ => ?_, fun hno => absurd hc hno⟩
    rw [← hsum]
    exact accessesAt_of_inExtent h hb hne hin
  · exact absurd hyes hal
  · exact ⟨fun hyes => absurd hyes hc, fun _ => refuses_of_not_inExtent hne hin⟩

end ArrayLike

end Arrays

/-! ## 3. The law on runs -/

namespace Program

variable {δ : Discipline} {s : Program} {τ : ElemType} {p : AnyArrayPtr τ}

/-- **In every reachable state an access obeys the law of bounds unless its position aliases** an
element, whatever the pointer's index and the offset are; one that aliases is to that element. -/
theorem obeys_iff (hs : Reachable δ s) (hp : s.HasArray τ p) (hne : p.span.base ≠ 0)
    (hext : p.span.extent.toNat < 2 ^ 63) (i : Int64) :
    (ArrayLike.Obeys p i s.world ↔ ¬p.span.Aliases i) ∧
      (p.span.Aliases i → ArrayLike.AccessesAt p i s.world (p.span.target i + 2 ^ 64)) := by
  have hb : s.world.Backs s.past τ (ArrayLike.span p) := hp.backs hs.sound.backed
  have halias : p.span.Aliases i →
      ArrayLike.AccessesAt p i s.world (p.span.target i + 2 ^ 64) := fun hal =>
    ArrayLike.accessesAt_of_aliases hs.sound.world hb hne hext hal
  refine ⟨⟨fun hobeys hal => ?_, fun hal => ?_⟩, halias⟩
  · exact (halias hal).not_refuses (hobeys.outside hal.not_contains)
  · exact ArrayLike.obeys_of_not_aliases hs.sound.world hb hne hext hal

/-- An array of three words with a pointer that was moved as far back as one move goes. -/
def wordsFarBack : Program :=
  (initial.run threeWords).keep
    (.array .uint32 (ArrayLike.offset (.plain (wordsAt 0)) Int64.minValue))

theorem reachable_wordsFarBack (δ : Discipline) : Reachable δ wordsFarBack :=
  (reachable_threeWords δ).tail (.derive (.convert (.offset List.mem_cons_self _)))

/-- From there all offsets obey the law but the three least, with the third to the last element. -/
theorem obeys_iff_far_back :
    Reachable .scoped wordsFarBack ∧
      wordsFarBack.HasArray .uint32 (.plain (wordsAt Int64.minValue)) ∧
        (∀ i, ArrayLike.Obeys (AnyArrayPtr.plain (wordsAt Int64.minValue)) i wordsFarBack.world ↔
          ¬(wordsAt Int64.minValue).span.Aliases i) ∧
        ArrayLike.AccessesAt (AnyArrayPtr.plain (wordsAt Int64.minValue)) (Int64.minValue + 2)
          wordsFarBack.world 2 := by
  have hs := reachable_wordsFarBack .scoped
  have hp : wordsFarBack.HasArray .uint32 (.plain (wordsAt Int64.minValue)) :=
    .handle List.mem_cons_self
  have hlaw := obeys_iff hs hp (by decide) (by decide)
  exact ⟨hs, hp, fun i => (hlaw i).1, (hlaw (Int64.minValue + 2)).2 (by decide)⟩

/-- **Not every access obeys the law**: the position of this one is a whole turn before the array,
and it reads the first element. -/
theorem exists_not_obeys :
    Reachable .scoped wordsFarBack ∧
      wordsFarBack.HasArray .uint32 (.plain (wordsAt Int64.minValue)) ∧
        (wordsAt Int64.minValue).span.target Int64.minValue = -2 ^ 64 ∧
          ArrayLike.AccessesAt (AnyArrayPtr.plain (wordsAt Int64.minValue)) Int64.minValue
            wordsFarBack.world 0 ∧
          ¬ArrayLike.Obeys (AnyArrayPtr.plain (wordsAt Int64.minValue)) Int64.minValue
            wordsFarBack.world := by
  have hs := reachable_wordsFarBack .scoped
  have hp : wordsFarBack.HasArray .uint32 (.plain (wordsAt Int64.minValue)) :=
    .handle List.mem_cons_self
  have hal : (wordsAt Int64.minValue).span.Aliases Int64.minValue := by decide
  have hfirst : ArrayLike.AccessesAt (AnyArrayPtr.plain (wordsAt Int64.minValue)) Int64.minValue
      wordsFarBack.world 0 :=
    ArrayLike.accessesAt_of_aliases hs.sound.world (hp.backs hs.sound.backed) (by decide)
      (by decide) hal
  exact ⟨hs, hp, by decide, hfirst,
    fun hobeys => hfirst.not_refuses (hobeys.outside hal.not_contains)⟩

end Program

end CheckedMemory
