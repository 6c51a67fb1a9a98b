import CheckedMemory.Array.Matrix
import CheckedMemory.Array.Tailed
import CheckedMemory.CString.Tokenizer
import CheckedMemory.Pointer.Object
import CheckedMemory.Proofs.Making

/-!
# Access to what is held

A span asks its bounds and nothing else, so what it lets through is storage exactly if its whole
extent is.  That does not depend on what counts as storage, as long as parts of storage are storage
(`Storage.Divides`).  The first part of the module turns a check that passed into values that
are held: one element, a run of them, the rest of the array.  Motion keeps base and extent, and so
needs no lemma; another element size does, since it counts the extent anew.

The second part is what reads and writes of held values do: they never fail, a read changes
nothing, and a write leaves a state that follows and every other byte as it was.
-/

namespace CheckedMemory

open Operation

variable {past : List Block} {w w' : World} {a : Address} {n : Nat} {s : Span} {σ τ : ElemType}

/-! ## 1. Spans over storage -/

/-- All of it is in memory, and before the last address. -/
structure Storage.Mapped (Q : Storage) (m : Memory) : Prop extends Q.Divides where
  end_lt : ∀ {τ a n}, Q τ a n → a.toNat + n * τ.layout.size < 2 ^ 64
  mapped : ∀ {τ a n}, Q τ a n → m.isMapped a (n * τ.layout.size) = true

/-- Where a table records live elements, there is storage for them. -/
structure Storage.HasBlocks (Q : Storage) (t : HeapTable) : Prop where
  shaped : ∀ b ∈ t.blocks, b.Shaped
  elements : ∀ {σ a n} {b : Block}, b ∈ t.blocks → b.stored = .elements σ →
    a.toNat % σ.layout.align = 0 → b.payload.toNat ≤ a.toNat →
      a.toNat + n * σ.layout.size ≤ b.payload.toNat + b.bytes → Q σ a n

/-- The address of an element is exact. -/
theorem Storage.Mapped.toNat_element {Q : Storage} {m : Memory} (hQ : Q.Mapped m) (ha : Q τ a n)
    {i : UInt64} (hi : i.toNat ≤ n) : (a + i * τ.size).toNat = a.toNat + i.toNat * τ.layout.size :=
  τ.toNat_element (hQ.end_lt ha) hi

/-- The span is null, or its whole extent is there. -/
def Span.In (Q : Storage) (τ : ElemType) (s : Span) : Prop := s.base = 0 ∨ Q τ s.base s.extent.toNat

/-- The span is null, or its whole extent is held. -/
def World.Backs (past : List Block) (w : World) (τ : ElemType) (s : Span) : Prop :=
  s.In (w.Holds past) τ

/-- What is held in a sound state is in memory. -/
theorem World.Holds.mapped (h : w.Sound past) : Storage.Mapped (w.Holds past) w.memory where
  toDivides := World.Holds.divides h
  end_lt ha := by
    have := ha.end_lt h
    omega
  mapped ha := by
    obtain ⟨q, hq, hc⟩ := ha.exists_covers h
    exact Memory.isMapped_of_covers hq hc

/-- Live blocks are held. -/
theorem World.Holds.hasBlocks (h : w.Sound past) : Storage.HasBlocks (w.Holds past) w.heap where
  shaped b hb := h.shaped b (h.live b hb)
  elements {σ a n b} hb hs hal hlo hhi :=
    ⟨hal, ⟨b.payload.toNat, b.payload.toNat + b.bytes⟩,
      .block (h.live b hb) (by simp [Block.rooms, hs]), hlo, hhi⟩

namespace Span

/-- What a check of one element lets through: a position of the array, at its address. -/
theorem locate_eq_ok {size : UInt64} {i : Int64} (h : s.locate size i = .ok a) :
    s.base ≠ 0 ∧ ∃ k : UInt64, k.toNat < s.extent.toNat ∧ a = s.base + k * size := by
  unfold locate isNull at h
  split at h
  · cases h
  · rename_i hnull
    simp only at h
    split at h
    · rename_i hin
      cases h
      simp only [inExtent, Bool.and_eq_true, decide_eq_true_eq] at hin
      exact ⟨by simpa using hnull, _, UInt64.lt_iff_toNat_lt.mp hin.2, rfl⟩
    · cases h

theorem window_address {size count : UInt64} (h : s.window size count = .ok a) :
    a = s.address size := by
  unfold window at h
  split at h
  · exact (Except.ok.inj h).symm
  · split at h
    · cases h
    · split at h
      · exact (Except.ok.inj h).symm
      · cases h

/-- The elements from the current one on are those of the array that are left. -/
theorem remaining_eq_ok {count : UInt64} (h : s.remaining = .ok count) :
    s.base ≠ 0 ∧ s.index.toUInt64.toNat + count.toNat = s.extent.toNat := by
  unfold remaining isNull at h
  split at h
  · cases h
  · rename_i hnull
    split at h
    · rename_i hin
      cases h
      have hsub := UInt64.toNat_sub_of_le _ _ hin.2
      have hle := UInt64.le_iff_toNat_le.mp hin.2
      exact ⟨by simpa using hnull, by omega⟩
    · cases h

/-- Counted in elements of another size, a span says of no more bytes that they are there. -/
theorem rescale_le (s : Span) (σ τ : ElemType) :
    (s.rescale τ.size σ.size).extent.toNat * σ.layout.size ≤ s.extent.toNat * τ.layout.size := by
  have hext : (s.rescale τ.size σ.size).extent.toNat =
      (Word.mulSat s.extent τ.size).toNat / max σ.layout.size 1 := by
    rw [rescale, UInt64.toNat_div, Word.toNat_max_one, ElemType.toNat_size]
  have hsat : (Word.mulSat s.extent τ.size).toNat ≤ s.extent.toNat * τ.layout.size := by
    rw [Word.toNat_mulSat, ElemType.toNat_size]
    exact Nat.min_le_left _ _
  have hle : σ.layout.size ≤ max σ.layout.size 1 := Nat.le_max_left _ _
  rw [hext]
  calc
    _ ≤ (Word.mulSat s.extent τ.size).toNat / max σ.layout.size 1 * max σ.layout.size 1 :=
        Nat.mul_le_mul_left _ hle
    _ ≤ (Word.mulSat s.extent τ.size).toNat := Nat.div_mul_le_self _ _
    _ ≤ s.extent.toNat * τ.layout.size := hsat

namespace In

variable {Q : Storage}

/-- One element that a check let through is there. -/
theorem locate (hQ : Q.Divides) (hs : s.In Q τ) {i : Int64} (hl : s.locate τ.size i = .ok a) :
    Q τ a 1 := by
  obtain ⟨hne, k, hk, rfl⟩ := locate_eq_ok hl
  exact hQ.drop (hs.resolve_left hne) (by omega)

/-- **Counted in elements of another size, the extent is there again**: a whole number of the new
elements fits in the bytes of the old ones. -/
theorem rescale (hQ : Q.Divides) (hs : s.In Q τ) (hal : s.base % σ.align = 0) :
    (s.rescale τ.size σ.size).In Q σ := by
  refine hs.imp_right fun hthere => hQ.view hthere ?_ (s.rescale_le σ τ)
  have := congrArg UInt64.toNat hal
  rwa [UInt64.toNat_mod, ElemType.toNat_align] at this

end In

end Span

/-- The rest of an array starts at its current element. -/
theorem ArrayLike.rest_eq_ok {P : ElemType → Type} [ArrayLike P] {p : P τ} {count : UInt64}
    (h : ArrayLike.rest p = .ok (a, count)) :
    a = ArrayLike.address p ∧ (ArrayLike.span p).base ≠ 0 ∧
      (ArrayLike.span p).index.toUInt64.toNat + count.toNat = (ArrayLike.span p).extent.toNat := by
  obtain ⟨m, hrem, h⟩ := exists_ok_of_bind h
  obtain ⟨b, hwin, h⟩ := exists_ok_of_bind h
  cases h
  exact ⟨Span.window_address hwin, Span.remaining_eq_ok hrem⟩

namespace World.Backs

theorem mono {past' : List Block} (hx : w.Extends past past' w') (hb : w.Backs past τ s) :
    w'.Backs past' τ s :=
  hb.imp_right (World.Holds.mono hx)

theorem holds (hb : w.Backs past τ s) (hne : s.base ≠ 0) :
    w.Holds past τ s.base s.extent.toNat :=
  hb.resolve_left hne

/-- One element that a check let through is held. -/
theorem holds_locate (h : w.Sound past) (hb : w.Backs past τ s) {i : Int64}
    (hl : s.locate τ.size i = .ok a) : w.Holds past τ a 1 :=
  Span.In.locate (World.Holds.divides h) hb hl

/-- The rest of an array is held. -/
theorem holds_rest {P : ElemType → Type} [ArrayLike P] {p : P τ} {count : UInt64}
    (h : w.Sound past) (hb : w.Backs past τ (ArrayLike.span p))
    (hr : ArrayLike.rest p = .ok (a, count)) :
    a = ArrayLike.address p ∧ w.Holds past τ a count.toNat := by
  obtain ⟨rfl, hne, hsum⟩ := ArrayLike.rest_eq_ok hr
  refine ⟨rfl, ?_⟩
  exact (hb.holds hne).drop h (by omega)

variable (σ) in
/-- The new extent is the exact number of whole new elements, by elements of one byte at least. -/
theorem toNat_extent_rescale (h : w.Sound past) (hb : w.Backs past τ s) (hne : s.base ≠ 0) :
    (s.rescale τ.size σ.size).extent.toNat =
      s.extent.toNat * τ.layout.size / max σ.layout.size 1 := by
  have hend := (hb.holds hne).end_lt h
  have hmul : (Word.mulSat s.extent τ.size).toNat = s.extent.toNat * τ.layout.size := by
    rw [Word.toNat_mulSat, ElemType.toNat_size]
    omega
  simp only [Span.rescale]
  rw [UInt64.toNat_div, hmul, Word.toNat_max_one, ElemType.toNat_size]

/-- Counted in elements of another size, the extent is held again. -/
theorem rescale (h : w.Sound past) (hb : w.Backs past τ s) (hal : s.base % σ.align = 0) :
    w.Backs past σ (s.rescale τ.size σ.size) :=
  Span.In.rescale (World.Holds.divides h) hb hal

end World.Backs

/-! ## 2. Reading and writing held values -/

namespace World.Holds

/-- Held values can be read. -/
theorem exists_read? (h : w.Sound past) (ha : w.Holds past τ a n) :
    ∃ cs, w.memory.read? a (n * τ.layout.size) = some cs := by
  obtain ⟨q, hq, hcov⟩ := ha.exists_covers h
  exact Memory.exists_read? hq hcov

/-- Cells can be written where values are held that take up as many, and the state that is left
follows. -/
theorem exists_write? (h : w.Sound past) (ha : w.Holds past τ a n) {cs : Runs Cell}
    (hlen : cs.length ≤ n * τ.layout.size) :
    ∃ m, w.memory.write? a cs = some m ∧ w.Follows past { w with memory := m } := by
  obtain ⟨q, hq, hlo, hhi⟩ := ha.exists_covers h
  have hcov : q.Covers a.toNat cs.length := ⟨hlo, by omega⟩
  obtain ⟨m, hm⟩ := Memory.exists_write? hq hcov
  exact ⟨m, hm, World.Follows.write h hm fun b hb σ τ hs => ha.misses h hlen hb hs⟩

/-- **A read of a held value succeeds and changes nothing.**  What it gives are the bytes of the
value and no others. -/
theorem outcome_loadValue (h : w.Sound past) (ha : w.Holds past τ a 1) :
    ∃ cs, w.memory.read? a τ.layout.size = some cs ∧
      outcome (loadValue τ a) w = (.ok (τ.decode cs.toList), w) := by
  obtain ⟨cs, hcs⟩ := ha.exists_read? h
  rw [Nat.one_mul] at hcs
  refine ⟨cs, hcs, ?_⟩
  unfold loadValue
  rw [outcome_bind_ok _ (outcome_load hcs)]
  rfl

/-- **An assignment to a held value succeeds and writes that value's bytes alone**, beside what it
logs of the value that was there. -/
theorem outcome_assign (h : w.Sound past) (ha : w.Holds past τ a 1) (x : τ.Carrier) :
    ∃ cs m, w.memory.read? a τ.layout.size = some cs ∧
      w.memory.write? a (.ofList (τ.encode x)) = some m ∧
      outcome (assign τ a x) w = (.ok (), { w with
        memory := m
        dropLog := w.dropLog ++ .ofList (τ.dropMarks (τ.decode cs.toList)) }) ∧
      w.Follows past { w with memory := m } := by
  obtain ⟨cs, hcs, hload⟩ := ha.outcome_loadValue h
  have hlen : (Runs.ofList (τ.encode x)).length ≤ 1 * τ.layout.size := by
    exact Nat.le_of_eq (by rw [Runs.length_ofList, ElemType.length_encode, Nat.one_mul])
  obtain ⟨m, hm, hf⟩ := ha.exists_write? h hlen
  refine ⟨cs, m, hcs, hm, ?_, hf⟩
  unfold assign
  rw [outcome_bind_ok _ hload, outcome_bind_ok _ (outcome_store hm)]
  rfl

end World.Holds

namespace Operation

/-- Run from `w`, an operation leaves a state that follows, whatever it gives. -/
def Keeps {α : Type} (past : List Block) (a : Operation α) (w : World) : Prop :=
  Preserves past a w fun _ _ _ => True

/-- Whatever a check finds, the state is as it was. -/
theorem preserves_check {α β : Type} (h : w.Sound past) {r : Except Violation α}
    {f : α → Operation β} {good : β → List Block → World → Prop}
    (hf : ∀ x, r = .ok x → Preserves past (f x) w good) :
    Preserves past (check r >>= f) w good :=
  ensures_bind (ensures_check hf fun _ _ => World.Follows.refl h)

theorem keeps_pure {α : Type} (h : w.Sound past) (x : α) : Keeps past (pure x) w := by
  unfold Keeps Preserves
  exact ensures_pure ⟨World.Follows.refl h, trivial⟩

theorem keeps_store (h : w.Sound past) (ha : w.Holds past τ a n) {cs : Runs Cell}
    (hlen : cs.length ≤ n * τ.layout.size) : Keeps past (store a cs) w := by
  obtain ⟨m, hm, hf⟩ := ha.exists_write? h hlen
  exact ensures_of_ok (outcome_store hm) ⟨hf, trivial⟩

theorem keeps_assign (h : w.Sound past) (ha : w.Holds past τ a 1) (x : τ.Carrier) :
    Keeps past (assign τ a x) w := by
  obtain ⟨cs, m, -, -, ho, hf⟩ := ha.outcome_assign h x
  exact ensures_of_ok ho ⟨⟨hf.sound.log _, hf.plots, hf.fresh, hf.nextFree_le, hf.pointers_eq⟩,
    trivial⟩

/-- Values assigned to the front of values that are held. -/
theorem keeps_assignAll (h : w.Sound past) (ha : w.Holds past τ a n) {xs : List τ.Carrier}
    (hlen : xs.length ≤ n) : Keeps past (assignAll τ a (.ofList xs)) w := by
  unfold assignAll replaceElements
  refine ensures_bind (ensures_load ?_ (World.Follows.refl h))
  intro old _
  have hcells : (τ.encodeRuns (.ofList xs)).length ≤ n * τ.layout.size := by
    rw [ElemType.length_encodeRuns, Runs.length_ofList]
    exact Nat.mul_le_mul_right _ hlen
  obtain ⟨m, hm, hf⟩ := ha.exists_write? h hcells
  refine ensures_bind (ensures_of_ok (outcome_store hm) (ensures_modify ⟨?_, trivial⟩))
  exact ⟨hf.sound.log _, hf.plots, hf.fresh, hf.nextFree_le, hf.pointers_eq⟩

end Operation

/-! ## 3. Assignment through handles -/

section Arrays

variable {P : ElemType → Type} [ArrayLike P] {p : P τ}

theorem ArrayLike.keeps_set (h : w.Sound past) (hb : w.Backs past τ (span p)) (i : Int64)
    (x : τ.Carrier) : Keeps past (set p i x) w :=
  preserves_check h fun _ hl => keeps_assign h (hb.holds_locate h hl) x

theorem ArrayLike.keeps_trySet (h : w.Sound past) (hb : w.Backs past τ (span p)) (i : Int64)
    (x : τ.Carrier) : Keeps past (trySet p i x) w := by
  unfold trySet
  cases hl : locate p i with
  | ok a =>
    refine ensures_bind ((keeps_assign h (hb.holds_locate h hl) x).mono ?_ fun _ _ hf => hf)
    rintro _ w' ⟨hf, -⟩
    exact ensures_pure ⟨hf, trivial⟩
  | error v => exact keeps_pure h false

theorem ArrayLike.keeps_overwrite (h : w.Sound past) (hb : w.Backs past τ (span p))
    (xs : List τ.Carrier) : Keeps past (overwrite p xs) w := by
  unfold overwrite
  refine preserves_check h ?_
  rintro ⟨a, count⟩ hr
  have hlen : (xs.take count.toNat).length ≤ count.toNat := List.length_take_le _ _
  refine ensures_bind ((keeps_assignAll h (hb.holds_rest h hr).2 hlen).mono ?_ fun _ _ hf => hf)
  rintro _ w' ⟨hf, -⟩
  exact ensures_pure ⟨hf, trivial⟩

end Arrays

theorem Operation.keeps_writeObject (h : w.Sound past) (ha : a = 0 ∨ w.Holds past τ a 1)
    (x : τ.Carrier) : Keeps past (writeObject a x) w := by
  refine preserves_check h fun b hb => ?_
  unfold notNull at hb
  split at hb
  · cases hb
  · rename_i hne
    cases hb
    exact keeps_assign h (ha.resolve_left hne) x

theorem Operation.keeps_tryWriteObject (h : w.Sound past) (ha : a = 0 ∨ w.Holds past τ a 1)
    (x : τ.Carrier) : Keeps past (tryWriteObject a x) w := by
  unfold tryWriteObject
  by_cases hne : a = 0
  · rw [if_pos hne]
    exact keeps_pure h false
  · rw [if_neg hne]
    refine ensures_bind ((keeps_assign h (ha.resolve_left hne) x).mono ?_ fun _ _ hf => hf)
    rintro _ w' ⟨hf, -⟩
    exact ensures_pure ⟨hf, trivial⟩

namespace Matrix

variable {m : Matrix τ}

/-- The flat position of a cell is one of the cells. -/
theorem toNat_position (hsize : m.xExtent.toNat * m.yExtent.toNat < 2 ^ 64) {x y : UInt64}
    (hx : x.toNat < m.xExtent.toNat) (hy : y.toNat < m.yExtent.toNat) :
    (m.position x y).toNat < m.xExtent.toNat * m.yExtent.toNat := by
  have hrow : (y.toNat + 1) * m.xExtent.toNat ≤ m.yExtent.toNat * m.xExtent.toNat :=
    Nat.mul_le_mul_right _ hy
  rw [Nat.mul_comm m.yExtent.toNat, Nat.add_mul, Nat.one_mul] at hrow
  unfold position
  rw [UInt64.toNat_add, UInt64.toNat_mul, Nat.mod_eq_of_lt (a := y.toNat * _) (by omega),
    Nat.mod_eq_of_lt (by omega)]
  omega

/-- A cell that a check let through is held. -/
theorem holds_locate (h : w.Sound past) (hm : m.base = 0 ∨ m.Held past w) {x y : UInt64}
    (hl : m.locate x y = .ok a) : w.Holds past τ a 1 := by
  unfold locate isNull at hl
  split at hl
  · cases hl
  · rename_i hnull
    split at hl
    · cases hl
    · rename_i hx
      split at hl
      · cases hl
      · rename_i hy
        cases hl
        obtain ⟨hsize, hheld⟩ := hm.resolve_left (by simpa using hnull)
        have hx' : x.toNat < m.xExtent.toNat := by
          rw [UInt64.le_iff_toNat_le] at hx
          omega
        have hy' : y.toNat < m.yExtent.toNat := by
          rw [UInt64.le_iff_toNat_le] at hy
          omega
        exact hheld.drop h (toNat_position hsize hx' hy')

theorem keeps_set (h : w.Sound past) (hm : m.base = 0 ∨ m.Held past w) (x y : UInt64)
    (v : τ.Carrier) : Keeps past (m.set x y v) w :=
  preserves_check h fun _ hl => keeps_assign h (holds_locate h hm hl) v

theorem keeps_trySet (h : w.Sound past) (hm : m.base = 0 ∨ m.Held past w) (x y : UInt64)
    (v : τ.Carrier) : Keeps past (m.trySet x y v) w := by
  unfold trySet
  cases hl : m.locate x y with
  | ok a =>
    refine ensures_bind ((keeps_assign h (holds_locate h hm hl) v).mono ?_ fun _ _ hf => hf)
    rintro _ w' ⟨hf, -⟩
    exact ensures_pure ⟨hf, trivial⟩
  | error e => exact keeps_pure h false

end Matrix

namespace FixedArray

variable {x : FixedArray τ}

theorem locate_eq_ok {i : UInt64} (h : x.locate i = .ok a) :
    i.toNat < x.length.toNat ∧ a = x.base + i * τ.size := by
  unfold locate requireIndex at h
  by_cases hi : i < x.length
  · rw [if_pos hi] at h
    exact ⟨UInt64.lt_iff_toNat_lt.mp hi, (Except.ok.inj h).symm⟩
  · rw [if_neg hi] at h
    cases h

theorem keeps_set (h : w.Sound past) (hx : x.Held past w) (i : UInt64) (v : τ.Carrier) :
    Keeps past (x.set i v) w := by
  refine preserves_check h fun a ha => ?_
  obtain ⟨hi, rfl⟩ := locate_eq_ok ha
  exact keeps_assign h (World.Holds.drop h hx (by omega)) v

theorem keeps_overwrite (h : w.Sound past) (hx : x.Held past w) (xs : List τ.Carrier) :
    Keeps past (x.overwrite xs) w := by
  have hlen : (xs.take x.length.toNat).length ≤ x.length.toNat := List.length_take_le _ _
  refine ensures_bind ((keeps_assignAll h hx hlen).mono ?_ fun _ _ hf => hf)
  rintro _ w' ⟨hf, -⟩
  exact ensures_pure ⟨hf, trivial⟩

end FixedArray

/-! ## 4. Records -/

namespace TailedPtr

variable {p : TailedPtr σ τ}

theorem checked_eq_ok (h : p.checked = .ok a) : p.address ≠ 0 ∧ a = p.address := by
  unfold checked isNull at h
  split at h
  · cases h
  · rename_i hnull
    exact ⟨by simpa using hnull, (Except.ok.inj h).symm⟩

theorem keeps_setHead (h : w.Sound past) (hp : p.address = 0 ∨ p.Held past w) (x : σ.Carrier) :
    Keeps past (p.setHead x) w := by
  refine preserves_check h fun a ha => ?_
  obtain ⟨hne, rfl⟩ := checked_eq_ok ha
  obtain ⟨b, hb, hbase, hs⟩ := hp.resolve_left hne
  rw [← hbase]
  exact keeps_assign h (World.Holds.of_head h hb hs) x

/-- A length word that is as it was made gives the number of tail elements. -/
theorem decode_length {b : Block} (hkept : b.LengthKept w.memory) (hs : b.stored = .tailed σ τ)
    {cs : Runs Cell} (hcs : w.memory.read? (b.lengthAddress σ) 8 = some cs) :
    ElemType.decode .uint64 cs.toList = b.count := by
  have hlen := hkept σ τ hs
  simp only [Memory.word?, hcs, Option.map_some, Option.some.injEq] at hlen
  exact hlen

/-- **The tail of a record whose length is as it was made** is all of it.  The length is read from
memory, so nothing less will do. -/
theorem ensures_tail {bs : List Block} (hp : p.address = 0 ∨ ∃ b ∈ bs, b.payload = p.address ∧
    b.stored = .tailed σ τ ∧ b.LengthKept w.memory) :
    Ensures p.tail w
      (fun q w' => w' = w ∧ ∃ b ∈ bs, b.payload = p.address ∧ b.stored = .tailed σ τ ∧
        q = .ofBase (b.payload + UInt64.ofNat (Layout.Tailed.tailOffset σ.layout τ.layout)) b.count)
      (fun _ w' => w' = w) := by
  unfold tail tailLength
  refine ensures_bind (ensures_bind (ensures_check (fun a ha => ?_) fun _ _ => rfl))
  obtain ⟨hne, rfl⟩ := checked_eq_ok ha
  obtain ⟨b, hb, hbase, hs, hkept⟩ := hp.resolve_left hne
  rw [← hbase]
  refine ensures_bind (ensures_load (fun cs hcs => ?_) rfl)
  refine ensures_pure (ensures_pure ⟨rfl, b, hb, rfl, hs, ?_⟩)
  rw [decode_length hkept hs hcs]

/-- **The tail of a record that is still live lies in the record.**  That it is live is needed:
releasing the record overwrites its length. -/
theorem preserves_tail (h : w.Sound past) (hp : p.address = 0 ∨ p.Held past w)
    (hlive : p.address = 0 ∨ w.heap.isLive p.address = true) :
    Preserves past p.tail w ArrayPtr.Held := by
  have hf := World.Follows.refl h
  have hrecord : p.address = 0 ∨ ∃ b ∈ w.heap.blocks, b.payload = p.address ∧
      b.stored = .tailed σ τ ∧ b.LengthKept w.memory := by
    by_cases hnull : p.address = 0
    · exact .inl hnull
    · obtain ⟨b, hb, hbase, hs⟩ := hp.resolve_left hnull
      obtain ⟨c, hc, hcbase⟩ := HeapTable.isLive_iff.mp (hlive.resolve_left hnull)
      obtain rfl := h.unique b hb c (h.live c hc) (hbase.trans hcbase.symm)
      exact .inr ⟨b, hc, hbase, hs, h.lengths b hc⟩
  refine (ensures_tail hrecord).mono ?_ ?_
  · rintro q w' ⟨rfl, b, hb, -, hs, rfl⟩
    have hpast := h.live b hb
    refine ⟨hf, (World.Holds.of_tail h hpast hs).mono (hf.extends h), Frames.not_contains_of_lt ?_⟩
    have hend := (h.toNat_lengthAddress hpast hs).2
    have hlt := h.payload_add_lt hpast
    simp only [ArrayPtr.ofBase]
    rw [Word.toNat_add_ofNat (by omega)]
    omega
  · rintro f w' rfl
    exact hf

end TailedPtr

/-! ## 5. Strings -/

namespace CString

variable {P Q : ElemType → Type} [ArrayLike P] [ArrayLike Q]

/-- Reading the rest of a byte array gives as many bytes as are left, and changes nothing. -/
theorem ensures_window (p : P .uint8) :
    Ensures (window p) w
      (fun bytes w' => w' = w ∧
        ∃ a count, ArrayLike.rest p = .ok (a, count) ∧ bytes.length = count.toNat)
      (fun _ w' => w' = w) := by
  unfold window
  refine ensures_bind (ensures_check ?_ fun _ _ => rfl)
  rintro ⟨a, count⟩ hr
  refine ensures_bind (ensures_load ?_ rfl)
  intro cs hcs
  refine ensures_pure ⟨rfl, a, count, hr, ?_⟩
  rw [Runs.length_map, Memory.length_of_read? hcs]

/-- Reading a string changes nothing, whether there is one or not. -/
theorem ensures_contents (p : P .uint8) :
    Ensures (contents p) w (fun _ w' => w' = w) (fun _ w' => w' = w) := by
  unfold contents
  refine ensures_bind ((ensures_window p).mono ?_ fun _ _ hw => hw)
  rintro bytes w' ⟨rfl, -⟩
  split
  · exact ensures_pure rfl
  · exact ensures_stop rfl

theorem length_beforeTerminator_le (bytes : Runs UInt8) :
    (beforeTerminator bytes).length ≤ bytes.length := by
  unfold beforeTerminator
  rw [← Runs.length_toList, Runs.toList_takeWhile, ← Runs.length_toList bytes]
  exact (List.takeWhile_sublist _).length_le

/-- A terminator put over one of the bytes of an array. -/
theorem keeps_terminate (h : w.Sound past) (ha : w.Holds past .uint8 a n) {i : Nat} (hi : i < n)
    (hn : n < 2 ^ 64) : Keeps past (storeBytes (a + UInt64.ofNat i) terminator) w := by
  have hpos : (UInt64.ofNat i).toNat = i := Word.toNat_ofNat (by omega)
  have hbyte : w.Holds past .uint8 (a + UInt64.ofNat i * ElemType.size .uint8) 1 :=
    ha.drop h (by omega)
  have hone : UInt64.ofNat i * ElemType.size .uint8 = UInt64.ofNat i := UInt64.mul_one _
  rw [hone] at hbyte
  exact keeps_store h hbyte (Nat.le_of_eq (Runs.length_map _ _))

/-- The byte that is found is a position of the array that was searched, and nothing changes. -/
theorem ensures_find? (p : P .uint8) (c : UInt8) :
    Ensures (find? p c) w (fun r w' => w' = w ∧ ∀ q, r = some q → ∃ d, q = ArrayLike.offset p d)
      (fun _ w' => w' = w) := by
  unfold find?
  refine ensures_bind ((ensures_contents p).mono ?_ fun _ _ hw => hw)
  rintro text w' rfl
  refine ensures_pure ⟨rfl, fun q hq => ?_⟩
  split at hq
  · cases hq
    exact ⟨_, rfl⟩
  · cases hq

end CString

namespace Tokenizer

variable {P Q : ElemType → Type} [ArrayLike P] [ArrayLike Q]

theorem ensures_start (p : P .uint8) :
    Ensures (Tokenizer.new p) w (fun t w' => w' = w ∧ t = ⟨p, some p⟩) (fun _ w' => w' = w) := by
  unfold Tokenizer.new discard
  refine ensures_bind (ensures_map ((CString.ensures_contents p).mono ?_ fun _ _ hw => hw))
  rintro _ w' rfl
  exact ensures_pure ⟨rfl, rfl⟩

/-- Delimiters, token and what follows make up the text. -/
theorem length_split (delims : List UInt8) (text : Runs UInt8) :
    (split delims text).1.length + (split delims text).2.1.length +
      (split delims text).2.2.length = text.length := by
  have hwhile : ∀ (q : UInt8 → Bool) (xs : List UInt8), (xs.takeWhile q).length ≤ xs.length :=
    fun q xs => (List.takeWhile_sublist q).length_le
  have hblank := hwhile delims.contains text.toList
  have htoken := hwhile (!delims.contains ·)
    (text.drop (text.takeWhile delims.contains).length).toList
  simp only [split]
  rw [← Runs.toList_takeWhile, Runs.length_toList, Runs.length_toList] at hblank htoken
  simp only [Runs.length_drop] at htoken ⊢
  omega

/-- Where there is a pointer, it is to an array that the tokenizer is at, at any index. -/
def Reaches (t : Tokenizer P) (r : Option (P .uint8)) : Prop :=
  ∀ q, r = some q → ∃ p d, t.cursor = some p ∧ q = ArrayLike.offset p d

theorem reaches_none (t : Tokenizer P) : t.Reaches none := fun _ hq => by cases hq

theorem reaches_offset {t : Tokenizer P} {p : P .uint8} (h : t.cursor = some p) (d : Int64) :
    t.Reaches (some (ArrayLike.offset p d)) := fun _ hq => by
  cases hq
  exact ⟨p, d, h, rfl⟩

/-- **A step of a tokenizer** gives a token and a tokenizer that are where it was, at other indices.
All that it writes is a terminator, over one of the bytes that are left. -/
theorem ensures_reaches {K : World → Prop} (hw : K w) {t : Tokenizer P} (delims : Q .uint8)
    (hstore : ∀ {p a count i}, t.cursor = some p → ArrayLike.rest p = .ok (a, count) →
      i < count.toNat → Ensures (storeBytes (a + UInt64.ofNat i) CString.terminator) w
        (fun _ w' => K w') fun _ w' => K w') :
    Ensures (t.next delims) w
      (fun r w' => K w' ∧ r.2.text = t.text ∧ t.Reaches r.1 ∧ t.Reaches r.2.cursor)
      (fun _ w' => K w') := by
  unfold next
  refine ensures_bind ((CString.ensures_contents delims).mono ?_ ?_)
  · rintro ds w' rfl
    cases hcursor : t.cursor with
    | none =>
      refine ensures_pure ⟨hw, rfl, reaches_none t, ?_⟩
      simp only [hcursor]
      exact reaches_none t
    | some p =>
      refine ensures_bind ((CString.ensures_window p).mono ?_ ?_)
      · rintro bytes w' ⟨rfl, a, count, hrest, hbytes⟩
        have hlen := length_split ds.elements (CString.beforeTerminator bytes)
        dsimp only
        generalize split ds.elements (CString.beforeTerminator bytes) = parts at hlen ⊢
        obtain ⟨blank, token, rest⟩ := parts
        simp only at hlen ⊢
        split
        · exact ensures_pure ⟨hw, rfl, reaches_none t, reaches_none t⟩
        · split
          · exact ensures_pure ⟨hw, rfl, reaches_offset hcursor _, reaches_none t⟩
          · rename_i hrestne
            have haddr := (ArrayLike.rest_eq_ok hrest).1
            have hpos : 0 < rest.length := by
              rw [← Runs.length_toList]
              refine List.length_pos_iff.mpr fun hnil => hrestne ?_
              exact (Runs.isEmpty_iff rest).mpr hnil
            have htext := CString.length_beforeTerminator_le bytes
            rw [← haddr]
            refine ensures_bind ((hstore hcursor hrest (i := blank.length + token.length)
              (by omega)).mono ?_ fun _ _ hk => hk)
            intro _ w'' hk
            exact ensures_pure ⟨hk, rfl, reaches_offset hcursor _, reaches_offset hcursor _⟩
      · rintro f w' rfl
        exact hw
  · rintro f w' rfl
    exact hw

/-- It keeps the state sound, if the text is held. -/
theorem preserves_next (h : w.Sound past) {t : Tokenizer P}
    (ht : ∀ p, t.cursor = some p → w.Backs past .uint8 (ArrayLike.span p)) (delims : Q .uint8) :
    Preserves past (t.next delims) w fun r _ _ =>
      r.2.text = t.text ∧ t.Reaches r.1 ∧ t.Reaches r.2.cursor := by
  refine ensures_reaches (World.Follows.refl h) delims fun {p a count i} hcursor hrest hi => ?_
  obtain ⟨-, hheld⟩ := (ht p hcursor).holds_rest h hrest
  exact (CString.keeps_terminate h hheld hi count.toNat_lt).mono (fun _ _ hf => hf.1)
    fun _ _ hf => hf

end Tokenizer

end CheckedMemory
