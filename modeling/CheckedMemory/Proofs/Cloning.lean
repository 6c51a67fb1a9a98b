import CheckedMemory.Proofs.Routes

/-!
# Clones between ranges that overlap

`Bulk.cloneInto` reads all of the source before it writes any of the target.  What it stands for is
a loop over the elements that reads each of them after those before it were written
(`Bulk.cloneLoop`), from the lowest up if the target is not above the source and from the highest
down if it is.  The two leave the same state.

The loop's argument is one relation between elements, `Bulk.Precedes`: what is written for the one
is neither the other's target nor its source.  In the order that the loop takes every element
precedes all that come after it (`Bulk.pairwise_cloneOrder`), by whatever distance the ranges
overlap and by whatever part of an element.  So each step reads what was there before the first
(`Bulk.Cloned.cons`).

Main statement: `Program.clone_moves`.
-/

namespace CheckedMemory

open Operation

/-! ## 1. Cells moved -/

namespace Memory

variable {m m' : Memory} {target source : Address} {n : Nat}

/-- Memory with the cells from `source` on put from `target` on as well, as they were before. -/
def move (m : Memory) (target source : Address) (n : Nat) : Memory :=
  ((m.read? source n).bind (m.write? target)).getD m

/-- The cells from `source` on have been put from `target` on, and no other cell has changed. -/
structure Moved (m m' : Memory) (target source : Address) (n : Nat) : Prop where
  plots : m'.plots = m.plots
  inside : m'.cells target n = m.cells source n
  outside : ∀ (a : Address) (k : Nat), a.toNat + k ≤ target.toNat ∨ target.toNat + n ≤ a.toNat →
    m'.cells a k = m.cells a k

/-- What can be read can be put where there is storage for as much. -/
theorem exists_move (hT : m.isMapped target n = true) (hF : m.isMapped source n = true) :
    ∃ cs, m.read? source n = some cs ∧ m.write? target cs = some (m.move target source n) := by
  obtain ⟨cs, hcs⟩ := exists_read?_of_isMapped hF
  have hroom : m.isMapped target cs.length = true := by
    rw [length_of_read? hcs]
    exact hT
  obtain ⟨m', hm'⟩ := exists_write?_of_isMapped hroom
  refine ⟨cs, hcs, ?_⟩
  simp [move, hcs, hm']

theorem moved_move (hT : m.isMapped target n = true) (hF : m.isMapped source n = true) :
    m.Moved (m.move target source n) target source n := by
  obtain ⟨cs, hread, hwrite⟩ := exists_move hT hF
  have hlen := length_of_read? hread
  refine ⟨plots_write? hwrite, ?_, fun a k hd => ?_⟩
  · rw [cells_eq hread, ← cells_write?_same hwrite, hlen]
  · exact cells_write?_of_disjoint hwrite (by omega)

end Memory

/-! ## 2. Elements cloned -/

namespace Bulk

variable {τ : ElemType} {target source : Address} {n i j : Nat} {is : List Nat} {w w₁ w₂ : World}
  {m m' : Memory}

/-- `n` elements from either address on are storage. -/
structure Ranges (τ : ElemType) (target source : Address) (n : Nat) (m : Memory) : Prop where
  apart : m.plots.Pairwise Plot.Apart
  stop_lt : ∀ q ∈ m.plots, q.stop < 2 ^ 64
  target : m.isMapped target (n * τ.layout.size) = true
  source : m.isMapped source (n * τ.layout.size) = true
  count_lt : n < 2 ^ 64

/-- After the elements were cloned in this order, and if each was cloned as it was at first. -/
structure Cloned (τ : ElemType) (target source : Address) (is : List Nat) (w w' : World) :
    Prop where
  rest : w' = { w with memory := w'.memory, dropLog := w'.dropLog }
  plots : w'.memory.plots = w.memory.plots
  cell : ∀ b, w'.memory.cell? b =
    if ∃ i ∈ is, Word.Among b (τ.elementAt target i) τ.layout.size then
      w.memory.cell? (source + (b - target))
    else w.memory.cell? b
  dropLog : w'.dropLog.toList = w.dropLog.toList ++ is.flatMap fun i =>
    τ.dropMarks (τ.decode (w.memory.cells (τ.elementAt target i) τ.layout.size))

/-- Neither the target nor the source of `j` is written over when `i` is cloned. -/
def Precedes (τ : ElemType) (target source : Address) (i j : Nat) : Prop :=
  i ≠ j ∧ (target.toNat + i * τ.layout.size + τ.layout.size ≤ source.toNat + j * τ.layout.size ∨
    source.toNat + j * τ.layout.size + τ.layout.size ≤ target.toNat + i * τ.layout.size)

/-- Clones single elements over others, one after the other. -/
def cloneEach (τ : ElemType) (target source : Address) : List Nat → Operation Unit
  | [] => pure ()
  | i :: is => do
    cloneElements τ (τ.elementAt target i) (τ.elementAt source i) 1 true
    cloneEach τ target source is

/-- From the lowest up, unless the target is above the source. -/
def cloneOrder (target source : Address) (n : Nat) : List Nat :=
  if target ≤ source then List.range n else (List.range n).reverse

/-- Puts clones of `count` elements over others, one after the other. -/
def cloneLoop {P Q : ElemType → Type} [ArrayLike P] [ArrayLike Q] (dst : P τ) (src : Q τ)
    (count : UInt64) : Operation Unit := do
  let target ← check (ArrayLike.requireSpan dst count)
  let source ← check (ArrayLike.requireSpan src count)
  cloneEach τ target source (cloneOrder target source count.toNat)

theorem mem_cloneOrder_iff : i ∈ cloneOrder target source n ↔ i < n := by
  unfold cloneOrder
  split
  · exact List.mem_range
  · exact List.mem_reverse.trans List.mem_range

/-- **In the order of the loop every element precedes those after it.**  Upward it is written below
what is still to be read, and downward above it. -/
theorem pairwise_cloneOrder (τ : ElemType) (target source : Address) (n : Nat) :
    (cloneOrder target source n).Pairwise (Precedes τ target source) := by
  unfold cloneOrder
  split
  · rename_i hle
    have hle := UInt64.le_iff_toNat_le.mp hle
    refine List.pairwise_lt_range.imp fun {i j} hij => ⟨by omega, .inl ?_⟩
    have := τ.mul_size_add_le hij
    omega
  · rename_i hlt
    have hlt := mt UInt64.le_iff_toNat_le.mpr hlt
    refine List.pairwise_reverse.mpr (List.pairwise_lt_range.imp fun {j i} hij => ?_)
    have := τ.mul_size_add_le hij
    exact ⟨by omega, .inr (by omega)⟩

namespace Ranges

variable (hr : Ranges τ target source n m)

include hr

theorem congr (hplots : m'.plots = m.plots) : Ranges τ target source n m' where
  apart := hplots ▸ hr.apart
  stop_lt := hplots ▸ hr.stop_lt
  target := (Memory.isMapped_congr hplots _ _).trans hr.target
  source := (Memory.isMapped_congr hplots _ _).trans hr.source
  count_lt := hr.count_lt

theorem toNat_target (hi : i < n) :
    (τ.elementAt target i).toNat = target.toNat + i * τ.layout.size :=
  Memory.toNat_elementAt hr.stop_lt hr.target hr.count_lt hi

theorem toNat_source (hi : i < n) :
    (τ.elementAt source i).toNat = source.toNat + i * τ.layout.size :=
  Memory.toNat_elementAt hr.stop_lt hr.source hr.count_lt hi

/-- One element of each range. -/
theorem element (hi : i < n) :
    Ranges τ (τ.elementAt target i) (τ.elementAt source i) 1 m := by
  have hle : i * τ.layout.size + 1 * τ.layout.size ≤ n * τ.layout.size := by
    rw [Nat.one_mul]
    exact τ.mul_size_add_le hi
  exact ⟨hr.apart, hr.stop_lt, Memory.isMapped_slice hr.target (hr.toNat_target hi) hle,
    Memory.isMapped_slice hr.source (hr.toNat_source hi) hle, by decide⟩

/-- The address in the source that is as far from its start as an address of the target is. -/
theorem toNat_mirror {b : Address} (hb : Word.Among b target (n * τ.layout.size)) :
    (source + (b - target)).toNat = source.toNat + (b.toNat - target.toNat) := by
  obtain ⟨hlo, hhi⟩ := hb
  have hlt := Memory.add_lt_of_isMapped hr.stop_lt hr.source
  rw [UInt64.toNat_add, UInt64.toNat_sub_of_le _ _ (UInt64.le_iff_toNat_le.mpr hlo)]
  exact Nat.mod_eq_of_lt (by omega)

/-- The cell at each address after a move. -/
theorem cell?_move (b : Address) :
    (m.move target source (n * τ.layout.size)).cell? b =
      if Word.Among b target (n * τ.layout.size) then m.cell? (source + (b - target))
      else m.cell? b := by
  obtain ⟨cs, hread, hwrite⟩ := Memory.exists_move hr.target hr.source
  rw [Memory.cell?_write? hr.apart hwrite b, Memory.length_of_read? hread]
  refine if_ctx_congr Iff.rfl (fun hb => ?_) fun _ => rfl
  -- as far from the start of the source as it is from that of the target
  obtain ⟨hlo, hhi⟩ := hb
  rw [← Memory.cells_eq hread,
    Memory.getElem?_cells hr.apart hr.source (hr.toNat_mirror ⟨hlo, hhi⟩) (by omega)]

/-- The bytes of the elements can be counted in a word. -/
theorem mul_lt : n * τ.layout.size < 2 ^ 64 := by
  have hlt := Memory.add_lt_of_isMapped hr.stop_lt hr.target
  omega

/-- An address of the target is one of exactly the elements of the target. -/
theorem exists_among_iff (b : Address) :
    (∃ i ∈ cloneOrder target source n, Word.Among b (τ.elementAt target i) τ.layout.size) ↔
      Word.Among b target (n * τ.layout.size) := by
  unfold Word.Among
  constructor
  · rintro ⟨i, hi, hlo, hhi⟩
    have hi := mem_cloneOrder_iff.mp hi
    have hle := τ.mul_size_add_le hi
    rw [hr.toNat_target hi] at hlo hhi
    omega
  · rintro ⟨hlo, hhi⟩
    have hpos : 0 < τ.layout.size := by
      refine Nat.pos_of_ne_zero fun h0 => ?_
      rw [h0, Nat.mul_zero] at hhi
      omega
    have hi : (b.toNat - target.toNat) / τ.layout.size < n :=
      (Nat.div_lt_iff_lt_mul hpos).mpr (by omega)
    have hsplit := Nat.div_add_mod (b.toNat - target.toNat) τ.layout.size
    have hmod := Nat.mod_lt (b.toNat - target.toNat) hpos
    rw [Nat.mul_comm] at hsplit
    refine ⟨_, mem_cloneOrder_iff.mpr hi, ?_⟩
    rw [hr.toNat_target hi]
    omega

end Ranges

/-! ## 3. All at once -/

theorem outcome_moveCells_of_isMapped (hT : w.memory.isMapped target n = true)
    (hF : w.memory.isMapped source n = true) : outcome (moveCells target source n) w =
      (.ok (), { w with memory := w.memory.move target source n }) := by
  obtain ⟨cs, hread, hwrite⟩ := Memory.exists_move hT hF
  unfold moveCells
  rw [outcome_bind_ok _ (outcome_load hread)]
  exact outcome_store hwrite

/-- The release of one value logs one mark at most, which reads the same backward. -/
theorem reverse_dropMarks (τ : ElemType) (x : τ.Carrier) :
    (τ.dropMarks x).reverse = τ.dropMarks x := by
  cases τ <;> rfl

/-- Clones of all elements, read before the first is written. -/
theorem outcome_cloneElements (hr : Ranges τ target source n w.memory) (upward : Bool) :
    ∃ marks, outcome (cloneElements τ target source n upward) w = (.ok (), { w with
        memory := w.memory.move target source (n * τ.layout.size)
        dropLog := w.dropLog ++ marks }) ∧
      marks.toList = (if upward then List.range n else (List.range n).reverse).flatMap fun i =>
        τ.dropMarks (τ.decode (w.memory.cells (τ.elementAt target i) τ.layout.size)) := by
  obtain ⟨cs, hread, hwrite⟩ := Memory.exists_move hr.target hr.source
  obtain ⟨old, hold⟩ := Memory.exists_read?_of_isMapped hr.target
  have hmarks : (τ.dropMarksAll n old).toList = (List.range n).flatMap fun i =>
      τ.dropMarks (τ.decode (w.memory.cells (τ.elementAt target i) τ.layout.size)) := by
    rw [ElemType.toList_dropMarksAll τ (Memory.length_of_read? hold), ← Memory.cells_eq hold]
    change (w.elements τ target n).flatMap τ.dropMarks = _
    rw [World.elements_eq_map hr.apart hr.stop_lt hr.target hr.count_lt, List.flatMap_map]
  refine ⟨if upward then τ.dropMarksAll n old else (τ.dropMarksAll n old).reverse, ?_, ?_⟩
  · unfold cloneElements replaceElements
    rw [outcome_bind_ok _ (outcome_load hread), outcome_bind_ok _ (outcome_load hold),
      outcome_bind_ok _ (outcome_store hwrite)]
    rfl
  · cases upward with
    | true => exact hmarks
    | false =>
      simp only [Bool.false_eq_true, if_false, Runs.toList_reverse, hmarks, List.reverse_flatMap]
      refine List.flatMap_congr fun i _ => ?_
      exact reverse_dropMarks τ _

theorem cloned_cloneElements (hr : Ranges τ target source n w.memory) :
    ∃ w', outcome (cloneElements τ target source n (target ≤ source)) w = (.ok (), w') ∧
      Cloned τ target source (cloneOrder target source n) w w' ∧
      w'.memory = w.memory.move target source (n * τ.layout.size) := by
  obtain ⟨marks, ho, hmarks⟩ := outcome_cloneElements hr (target ≤ source)
  refine ⟨_, ho, ⟨rfl, (Memory.moved_move hr.target hr.source).plots, fun b => ?_, ?_⟩, rfl⟩
  · rw [hr.cell?_move b]
    simp only [hr.exists_among_iff b]
  · simp only [decide_eq_true_eq] at hmarks
    rw [Runs.toList_append, hmarks]
    rfl

/-! ## 4. One after the other -/

theorem Cloned.nil (w : World) : Cloned τ target source [] w w :=
  ⟨rfl, rfl, fun b => by simp, by simp⟩

/-- One element cloned. -/
theorem cloned_one (hr : Ranges τ target source n w.memory) (hi : i < n) :
    ∃ w', outcome (cloneElements τ (τ.elementAt target i) (τ.elementAt source i) 1 true) w =
      (.ok (), w') ∧ Cloned τ target source [i] w w' := by
  have hone := hr.element hi
  obtain ⟨marks, ho, hmarks⟩ := outcome_cloneElements hone true
  refine ⟨_, ho, rfl, (Memory.moved_move hone.target hone.source).plots, fun b => ?_, ?_⟩
  · rw [hone.cell?_move b]
    simp only [Nat.one_mul, List.mem_singleton, exists_eq_left]
    refine ite_congr rfl (fun hb => congrArg _ ?_) fun _ => rfl
    -- as far from the element's start as from the range's
    unfold ElemType.elementAt
    generalize UInt64.ofNat i * τ.size = d
    rw [show b - (target + d) = b - target - d by
      rw [UInt64.sub_eq_add_neg, UInt64.sub_eq_add_neg, UInt64.sub_eq_add_neg, UInt64.neg_add,
        UInt64.sub_eq_add_neg, UInt64.add_assoc]]
    rw [UInt64.add_assoc, UInt64.add_comm d, UInt64.sub_add_cancel]
  · rw [Runs.toList_append, hmarks]
    simp [ElemType.elementAt]

/-- Elements of the target have no address in common. -/
theorem Ranges.not_among_of_ne (hr : Ranges τ target source n m) (hi : i < n) (hj : j < n)
    (hne : i ≠ j) {b : Address} (hb : Word.Among b (τ.elementAt target j) τ.layout.size) :
    ¬Word.Among b (τ.elementAt target i) τ.layout.size := by
  have hapart := (Nat.lt_or_gt_of_ne hne).imp τ.mul_size_add_le τ.mul_size_add_le
  unfold Word.Among at hb ⊢
  rw [hr.toNat_target hj] at hb
  rw [hr.toNat_target hi]
  omega

/-- What is cloned to an element is not in the target of one that precedes it. -/
theorem Ranges.not_among_mirror (hr : Ranges τ target source n m) (hi : i < n) (hj : j < n)
    (hpre : Precedes τ target source i j) {b : Address}
    (hb : Word.Among b (τ.elementAt target j) τ.layout.size) :
    ¬Word.Among (source + (b - target)) (τ.elementAt target i) τ.layout.size := by
  have hmirror := hr.toNat_mirror ((hr.exists_among_iff b).mp ⟨j, mem_cloneOrder_iff.mpr hj, hb⟩)
  have hmiss := hpre.2
  unfold Word.Among at hb ⊢
  rw [hr.toNat_target hj] at hb
  rw [hr.toNat_target hi, hmirror]
  omega

/-- An element that is cloned leaves every cell alone that is not its own. -/
theorem Cloned.cell?_of_not_among (h : Cloned τ target source [i] w w₁) {b : Address}
    (hb : ¬Word.Among b (τ.elementAt target i) τ.layout.size) :
    w₁.memory.cell? b = w.memory.cell? b := by
  rw [h.cell b, if_neg (by simpa using hb)]

/-- **A step of the loop**: the elements that are cloned after one that precedes them are cloned as
they were before it. -/
theorem Cloned.cons (hr : Ranges τ target source n w.memory) (hi : i < n) (his : ∀ j ∈ is, j < n)
    (hpre : ∀ j ∈ is, Precedes τ target source i j) (h₁ : Cloned τ target source [i] w w₁)
    (h₂ : Cloned τ target source is w₁ w₂) : Cloned τ target source (i :: is) w w₂ := by
  refine ⟨?_, h₂.plots.trans h₁.plots, fun b => ?_, ?_⟩
  · rw [h₂.rest, h₁.rest]
  · rw [h₂.cell b]
    by_cases hlater : ∃ j ∈ is, Word.Among b (τ.elementAt target j) τ.layout.size
    · -- the cell comes from the source of `j`, which was not written over
      obtain ⟨j, hj, hb⟩ := hlater
      rw [if_pos ⟨j, hj, hb⟩, if_pos ⟨j, List.mem_cons_of_mem _ hj, hb⟩]
      exact h₁.cell?_of_not_among (hr.not_among_mirror hi (his j hj) (hpre j hj) hb)
    · rw [if_neg hlater, h₁.cell b]
      refine ite_congr (propext ?_) (fun _ => rfl) fun _ => rfl
      simp only [List.mem_cons, List.not_mem_nil, or_false, exists_eq_left, exists_eq_or_imp,
        hlater]
  · rw [h₂.dropLog, h₁.dropLog, List.append_assoc, List.flatMap_singleton, List.flatMap_cons]
    congr 2
    refine List.flatMap_congr fun j hj => ?_
    -- the target of `j` was not written over either
    have hcells : w₁.memory.cells (τ.elementAt target j) τ.layout.size =
        w.memory.cells (τ.elementAt target j) τ.layout.size :=
      Memory.cells_ext hr.apart hr.stop_lt h₁.plots fun b hb =>
        h₁.cell?_of_not_among (hr.not_among_of_ne hi (his j hj) (hpre j hj).1 hb)
    rw [hcells]

/-- **The loop**, over elements each of which precedes those after it. -/
theorem cloned_cloneEach (is : List Nat) : ∀ {w : World}, Ranges τ target source n w.memory →
    (∀ i ∈ is, i < n) → is.Pairwise (Precedes τ target source) →
    ∃ w', outcome (cloneEach τ target source is) w = (.ok (), w') ∧
      Cloned τ target source is w w' := by
  induction is with
  | nil => exact fun _ _ _ => ⟨_, rfl, .nil _⟩
  | cons i is ih =>
    intro w hr his hpair
    obtain ⟨hpre, hpair⟩ := List.pairwise_cons.mp hpair
    obtain ⟨hi, his⟩ := List.forall_mem_cons.mp his
    obtain ⟨w₁, ho₁, h₁⟩ := cloned_one hr hi
    obtain ⟨w₂, ho₂, h₂⟩ := ih (hr.congr h₁.plots) his hpair
    refine ⟨w₂, ?_, h₁.cons hr hi his hpre h₂⟩
    unfold cloneEach
    rw [outcome_bind_ok _ ho₁, ho₂]

/-- Two states with the same cells at every address, the same drop log and the same of all else. -/
structure Alike (w w' : World) : Prop where
  rest : w' = { w with memory := w'.memory, dropLog := w'.dropLog }
  cells : ∀ a k, w'.memory.cells a k = w.memory.cells a k
  dropLog : w'.dropLog.toList = w.dropLog.toList

theorem Cloned.alike (hr : Ranges τ target source n w.memory)
    (h₁ : Cloned τ target source is w w₁) (h₂ : Cloned τ target source is w w₂) :
    Alike w₁ w₂ := by
  have hr₁ := hr.congr h₁.plots
  refine ⟨?_, fun a k => ?_, ?_⟩
  · rw [h₂.rest, h₁.rest]
  · exact Memory.cells_ext hr₁.apart hr₁.stop_lt (h₂.plots.trans h₁.plots.symm) fun b _ =>
      (h₂.cell b).trans (h₁.cell b).symm
  · rw [h₂.dropLog, h₁.dropLog]

/-! ## 5. Through handles -/

section Arrays

variable {P Q : ElemType → Type} [ArrayLike P] [ArrayLike Q] {dst : P τ} {src : Q τ}
  {count bytes : UInt64} {past : List Block}

/-- Two checks that pass, and what comes after them. -/
theorem outcome_checkBoth {α : Type} {r r' : Except Violation Address}
    {f : Address → Address → Operation α} (hr : r = .ok target) (hr' : r' = .ok source)
    (w : World) :
    outcome (do let a ← check r; let b ← check r'; f a b) w = outcome (f target source) w := by
  rw [hr, hr']
  rfl

/-- A run of elements that is let through is storage. -/
theorem isMapped_of_requireSpan (h : w.Sound past) (hd : w.Backs past τ (ArrayLike.span dst))
    (hT : ArrayLike.requireSpan dst count = .ok target) :
    w.memory.isMapped target (count.toNat * τ.layout.size) = true := by
  by_cases hc : count = 0
  · simp [hc, Memory.isMapped]
  · obtain ⟨hne, h0, hle⟩ := (Span.exists_window_iff hc).mp ⟨target, hT⟩
    have hnat := Word.toNat_toUInt64 h0
    rw [Span.window_address hT]
    exact ((hd.holds hne).drop h (i := (ArrayLike.span dst).index.toUInt64)
      (m := count.toNat) (by omega)).isMapped h

theorem Ranges.of_requireSpan (h : w.Sound past) (hd : w.Backs past τ (ArrayLike.span dst))
    (hq : w.Backs past τ (ArrayLike.span src))
    (hT : ArrayLike.requireSpan dst count = .ok target)
    (hF : ArrayLike.requireSpan src count = .ok source) :
    Ranges τ target source count.toNat w.memory where
  apart := h.apart
  stop_lt q hq := by
    have := h.stop_lt hq
    omega
  target := isMapped_of_requireSpan h hd hT
  source := isMapped_of_requireSpan h hq hF
  count_lt := count.toNat_lt

/-- The bytes of the elements are counted without overflow. -/
theorem Ranges.exists_bytes (hr : Ranges τ target source count.toNat m) :
    ∃ bytes, Word.mul? count τ.size = some bytes ∧
      bytes.toNat = count.toNat * τ.layout.size := by
  have hlt := hr.mul_lt
  have hbytes : (count * τ.size).toNat = count.toNat * τ.layout.size := by
    rw [UInt64.toNat_mul, τ.toNat_size, Nat.mod_eq_of_lt hlt]
  refine ⟨count * τ.size, Word.mul?_eq_some_iff.mpr ⟨?_, ?_⟩, hbytes⟩
  · rwa [τ.toNat_size]
  · rw [hbytes, τ.toNat_size]

/-- The bytes of so many elements are let through where the elements are. -/
theorem requireBytes_of_requireSpan (hbytes : bytes.toNat = count.toNat * τ.layout.size)
    (hT : ArrayLike.requireSpan dst count = .ok target) : requireBytes dst bytes = .ok target := by
  unfold requireBytes
  by_cases h0 : τ.layout.size = 0
  · have hzero : bytes = 0 := UInt64.toNat_inj.mp (by rw [hbytes, h0, Nat.mul_zero]; rfl)
    have hceil : Word.ceilDiv bytes τ.size = 0 := by
      rw [Word.ceilDiv_of_zero _ (τ.toNat_size.trans h0), hzero]
    rw [hceil, Span.window_address hT]
    rfl
  · have hpos := Nat.pos_of_ne_zero h0
    have hceil : Word.ceilDiv bytes τ.size = count := by
      apply UInt64.toNat_inj.mp
      rw [Word.toNat_ceilDiv, τ.toNat_size, Nat.max_eq_left hpos, hbytes, Nat.mul_div_cancel _ hpos,
        Nat.mul_mod_left, if_pos rfl, Nat.add_zero]
    rw [hceil, hT]

/-- What has become of the elements of `dst`, and of all else, when those of `src` were cloned over
them. -/
structure Clones (dst : P τ) (src : Q τ) (count : UInt64) (target source : Address)
    (w w' : World) : Prop where
  /-- Each element holds what the one that was cloned held before. -/
  element : ∀ k < count.toNat, ∃ x,
    outcome (loadValue τ (τ.elementAt source k)) w = (.ok x, w) ∧
      outcome (loadValue τ (τ.elementAt target k)) w' = (.ok x, w')
  /-- The pointers say so too, at every offset that they let through. -/
  index : ∀ k : Int64, 0 ≤ k.toInt → k.toInt < count.toNat →
    (∃ a, ArrayLike.locate dst k = .ok a) → (∃ a, ArrayLike.locate src k = .ok a) →
    ∃ x, outcome (ArrayLike.index src k) w = (.ok x, w) ∧
      outcome (ArrayLike.index dst k) w' = (.ok x, w')
  /-- No byte but those of the elements has changed. -/
  outside : ∀ (a : Address) (k : Nat), a.toNat + k ≤ target.toNat ∨
    target.toNat + count.toNat * τ.layout.size ≤ a.toNat →
    w'.memory.cells a k = w.memory.cells a k
  /-- Nothing but memory has changed, beside what the old elements left in the drop log. -/
  rest : w' = { w with memory := w'.memory, dropLog := w'.dropLog }

/-- Element `k` from a pointer's current one on is at the address of its offset. -/
theorem locate_elementAt (hT : ArrayLike.requireSpan dst count = .ok target) {k : Int64}
    (hk : 0 ≤ k.toInt) (hl : ∃ a, ArrayLike.locate dst k = .ok a) :
    ArrayLike.locate dst k = .ok (τ.elementAt target k.toInt.toNat) := by
  rw [ArrayLike.locate_address hl, Span.window_address hT, ElemType.elementAt, Word.ofNat_toInt hk]
  rfl

/-- Cells that have moved are elements that were cloned. -/
theorem Clones.of_moved (hr : Ranges τ target source count.toNat w.memory)
    (hT : ArrayLike.requireSpan dst count = .ok target)
    (hF : ArrayLike.requireSpan src count = .ok source) {w' : World}
    (hrest : w' = { w with memory := w'.memory, dropLog := w'.dropLog })
    (hmoved : w.memory.Moved w'.memory target source (count.toNat * τ.layout.size)) :
    Clones dst src count target source w w' := by
  have hr' := hr.congr hmoved.plots
  have helement : ∀ k < count.toNat, ∃ x,
      outcome (loadValue τ (τ.elementAt source k)) w = (.ok x, w) ∧
        outcome (loadValue τ (τ.elementAt target k)) w' = (.ok x, w') := by
    intro k hk
    have hle := τ.mul_size_add_le hk
    have hsource := Memory.isMapped_slice hr.source (hr.toNat_source hk) hle
    have htarget := Memory.isMapped_slice hr'.target (hr'.toNat_target hk) hle
    have hcells : w'.memory.cells (τ.elementAt target k) τ.layout.size =
        w.memory.cells (τ.elementAt source k) τ.layout.size := by
      rw [Memory.cells_slice hr'.apart hr'.target (hr'.toNat_target hk) hle, hmoved.inside,
        Memory.cells_slice hr.apart hr.source (hr.toNat_source hk) hle]
    refine ⟨_, outcome_loadValue hsource, ?_⟩
    rw [← hcells]
    exact outcome_loadValue htarget
  refine ⟨helement, fun k hk hlt hl hl' => ?_, hmoved.outside, hrest⟩
  obtain ⟨x, hx, hx'⟩ := helement k.toInt.toNat (by omega)
  rw [ArrayLike.index_of_locate (locate_elementAt hF hk hl'),
    ArrayLike.index_of_locate (locate_elementAt hT hk hl)]
  exact ⟨x, hx, hx'⟩

end Arrays

end Bulk

/-! ## 6. The law on runs -/

namespace Program

variable {δ : Discipline} {s : Program} {τ : ElemType} {dst src : AnyArrayPtr τ} {count : UInt64}
  {target source : Address}

/-- **A clone between any two ranges moves the elements as they were**, wherever the ranges are and
however they overlap.  The loop leaves the same state, and so far as memory goes a copy of the cells
and a move of the bytes do too. -/
theorem clone_moves (hs : Reachable δ s) (hd : s.HasArray τ dst) (hq : s.HasArray τ src)
    (hT : ArrayLike.requireSpan dst count = .ok target)
    (hF : ArrayLike.requireSpan src count = .ok source) :
    ∃ w', outcome (Bulk.cloneInto dst src count) s.world = (.ok (), w') ∧
      Bulk.Clones dst src count target source s.world w' ∧
      (∃ v, outcome (Bulk.cloneLoop dst src count) s.world = (.ok (), v) ∧ Bulk.Alike w' v) ∧
      (∃ v, outcome (Bulk.copyTrivial dst src count) s.world = (.ok (), v) ∧
        v.memory = w'.memory) ∧
      ∃ bytes, Word.mul? count τ.size = some bytes ∧
        ∃ v, outcome (Bulk.memmove dst src bytes) s.world = (.ok (), v) ∧
          v.memory = w'.memory := by
  have hr := Bulk.Ranges.of_requireSpan hs.sound.world (hd.backs hs.sound.backed)
    (hq.backs hs.sound.backed) hT hF
  obtain ⟨w', ho, hcloned, hmemory⟩ := Bulk.cloned_cloneElements hr
  obtain ⟨v, hloop, hv⟩ := Bulk.cloned_cloneEach _ hr (fun _ => Bulk.mem_cloneOrder_iff.mp)
    (Bulk.pairwise_cloneOrder τ target source count.toNat)
  have hmoved := Memory.moved_move hr.target hr.source
  obtain ⟨u, hmove, hu⟩ : ∃ u, outcome (Bulk.moveCells target source
      (count.toNat * τ.layout.size)) s.world = (.ok (), u) ∧ u.memory = w'.memory :=
    ⟨_, Bulk.outcome_moveCells_of_isMapped hr.target hr.source, hmemory.symm⟩
  obtain ⟨bytes, hmul, hbytes⟩ := hr.exists_bytes
  refine ⟨w', ?_, .of_moved hr hT hF hcloned.rest (hmemory ▸ hmoved), ⟨v, ?_, hcloned.alike hr hv⟩,
    ⟨u, ?_, hu⟩, bytes, hmul, u, ?_, hu⟩
  · exact (Bulk.outcome_checkBoth hT hF _).trans ho
  · exact (Bulk.outcome_checkBoth hT hF _).trans hloop
  · exact (Bulk.outcome_checkBoth hT hF _).trans hmove
  · refine (Bulk.outcome_checkBoth (Bulk.requireBytes_of_requireSpan hbytes hT)
      (Bulk.requireBytes_of_requireSpan hbytes hF) _).trans ?_
    rw [hbytes]
    exact hmove

/-- The first two of three words cloned over the last two, one of them over itself: the last word is
the second one of before. -/
theorem clone_moves_two_words :
    ∃ w', outcome (Bulk.cloneInto (AnyArrayPtr.plain (wordsAt 1)) (AnyArrayPtr.plain (wordsAt 0)) 2)
        countedWords.world = (.ok (), w') ∧
      outcome (ArrayLike.index (AnyArrayPtr.plain (wordsAt 1)) 1) w' = (.ok (2 : UInt32), w') := by
  have hd : countedWords.HasArray .uint32 (.plain (wordsAt 1)) := .handle List.mem_cons_self
  have hq : countedWords.HasArray .uint32 (.plain (wordsAt 0)) :=
    .handle (List.mem_cons_of_mem _ List.mem_cons_self)
  have hT : ArrayLike.requireSpan (AnyArrayPtr.plain (wordsAt 1)) 2 = .ok 0x400000000004 := rfl
  have hF : ArrayLike.requireSpan (AnyArrayPtr.plain (wordsAt 0)) 2 = .ok 0x400000000000 := rfl
  obtain ⟨w', ho, hclones, -⟩ := clone_moves (reachable_countedWords .scoped) hd hq hT hF
  obtain ⟨x, hx, hx'⟩ := hclones.index 1 (by decide) (by decide) ⟨_, rfl⟩ ⟨_, rfl⟩
  have hsecond : outcome (ArrayLike.index (AnyArrayPtr.plain (wordsAt 0)) 1) countedWords.world =
      (.ok (2 : UInt32), countedWords.world) := rfl
  rw [hsecond] at hx
  cases hx
  exact ⟨w', ho, hx'⟩

end Program

end CheckedMemory
