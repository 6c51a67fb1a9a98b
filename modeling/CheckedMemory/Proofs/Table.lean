import CheckedMemory.Heap.Table
import Mathlib.Algebra.GroupWithZero.Nat
import Mathlib.Data.List.Pairwise

/-!
# The heap table in step

The table keeps its blocks in ascending order of payload and three running totals beside them.
`HeapTable.Balanced` says that the order is strict and that the totals are what the blocks make
them; the two changes of a table, `register` and `take?`, keep it.  The one condition is on the
caller of `register`: the payload must not be that of a recorded block, since the totals would
count the block that is replaced.

Nothing is said here of memory.  That payloads do not overlap is a fact about the state; what it
means for a look-up by address is said in the last section (`HeapTable.Spaced.containing?_iff`).
-/

namespace CheckedMemory

namespace HeapTable

variable {t t' : HeapTable} {b c : Block} {p : Address}

/-! ## 1. Look-ups -/

theorem blockAt?_eq_some (h : t.blockAt? p = some b) : b ∈ t.blocks ∧ b.payload = p := by
  refine ⟨List.mem_of_find?_eq_some h, ?_⟩
  simpa using List.find?_some h

theorem isLive_iff : t.isLive p = true ↔ ∃ b ∈ t.blocks, b.payload = p := by
  simp [isLive, blockAt?, List.find?_isSome]

/-- The block that contains an address is a live one, and the address is its start or inside. -/
theorem containing?_eq_some {a : Address} (h : t.containing? a = some b) :
    b ∈ t.blocks ∧ b.payload.toNat ≤ a.toNat ∧
      (a.toNat < b.payload.toNat + b.bytes ∨ a = b.payload) := by
  unfold containing? at h
  obtain ⟨hlast, hin⟩ := Option.filter_eq_some_iff.mp h
  have hmem : b ∈ t.blocks := (List.mem_filter.mp (List.mem_of_getLast? hlast)).1
  simp only [Block.contains, Bool.and_eq_true, Bool.or_eq_true, decide_eq_true_eq, beq_iff_eq,
    UInt64.le_iff_toNat_le] at hin
  exact ⟨hmem, hin.1, hin.2⟩

/-- What `take?` gives: the block at the payload, and the table without it. -/
theorem take?_eq_some (h : t.take? p = some (b, t')) :
    t.blockAt? p = some b ∧ t' = { t with
      blocks := t.blocks.filter (·.payload != p)
      liveBytes := t.liveBytes - b.bytes
      frees := t.frees + 1 } := by
  unfold take? at h
  obtain ⟨c, hc, he⟩ := Option.map_eq_some_iff.mp h
  cases he
  exact ⟨hc, rfl⟩

theorem take?_eq_none : t.take? p = none ↔ t.isLive p = false := by
  simp [take?, isLive]

/-- A block taken out never leaves the table as it was: its release is counted. -/
theorem ne_of_take? (h : t.take? p = some (b, t')) : t' ≠ t := by
  obtain ⟨-, rfl⟩ := take?_eq_some h
  intro he
  have : t.frees + 1 = t.frees := congrArg frees he
  omega

/-- Nothing starts any more where a block was taken out. -/
theorem isLive_take? (h : t.take? p = some (b, t')) : t'.isLive p = false := by
  obtain ⟨-, rfl⟩ := take?_eq_some h
  rw [Bool.eq_false_iff]
  intro hlive
  obtain ⟨c, hc, hp⟩ := isLive_iff.mp hlive
  simp [hp] at hc

/-! ## 2. Blocks in ascending order -/

/-- Each block starts before all that come after it. -/
abbrev Ascending (bs : List Block) : Prop :=
  bs.Pairwise fun b c => b.payload.toNat < c.payload.toNat

theorem Ascending.eq_of_payload {bs : List Block} (h : Ascending bs) (hb : b ∈ bs) (hc : c ∈ bs)
    (he : b.payload = c.payload) : b = c := by
  induction bs with
  | nil => cases hb
  | cons d ds ih =>
    obtain ⟨hd, hds⟩ := List.pairwise_cons.mp h
    rcases List.mem_cons.mp hb with rfl | hb'
    · rcases List.mem_cons.mp hc with rfl | hc'
      · rfl
      · have := hd c hc'
        rw [he] at this
        omega
    · rcases List.mem_cons.mp hc with rfl | hc'
      · have := hd b hb'
        rw [he] at this
        omega
      · exact ih hds hb' hc'

theorem mem_register_self (t : HeapTable) (b : Block) : b ∈ (t.register b).blocks := by
  simp only [register]
  induction t.blocks with
  | nil => simp [insert]
  | cons d ds ih =>
    unfold insert
    split
    · exact List.mem_cons_self
    · split
      · exact List.mem_cons_self
      · exact List.mem_cons_of_mem _ ih

/-- The blocks of an inserted list are the one that was put in and those that were there, if none
of them starts where it does. -/
theorem mem_insert {bs : List Block} (hnew : ∀ d ∈ bs, d.payload ≠ b.payload) :
    c ∈ insert b bs ↔ c = b ∨ c ∈ bs := by
  induction bs with
  | nil => simp [insert]
  | cons d ds ih =>
    have hd : b.payload ≠ d.payload := fun he => hnew d (by simp) he.symm
    have ih := ih fun e he => hnew e (by simp [he])
    unfold insert
    by_cases hlt : b.payload < d.payload
    · rw [if_pos hlt]
      simp
    · rw [if_neg hlt, if_neg hd, List.mem_cons, ih, List.mem_cons]
      constructor
      · rintro (h | h | h)
        · exact .inr (.inl h)
        · exact .inl h
        · exact .inr (.inr h)
      · rintro (h | h | h)
        · exact .inr (.inl h)
        · exact .inl h
        · exact .inr (.inr h)

theorem ascending_insert {bs : List Block} (h : Ascending bs)
    (hnew : ∀ d ∈ bs, d.payload ≠ b.payload) : Ascending (insert b bs) := by
  induction bs with
  | nil => simp [insert, Ascending]
  | cons d ds ih =>
    obtain ⟨hd, hds⟩ := List.pairwise_cons.mp h
    have hne : b.payload ≠ d.payload := fun he => hnew d (by simp) he.symm
    have hnew' : ∀ e ∈ ds, e.payload ≠ b.payload := fun e he => hnew e (by simp [he])
    unfold insert
    by_cases hlt : b.payload < d.payload
    · rw [if_pos hlt]
      have hbd : b.payload.toNat < d.payload.toNat := UInt64.lt_iff_toNat_lt.mp hlt
      refine List.pairwise_cons.mpr ⟨?_, h⟩
      intro e he
      rcases List.mem_cons.mp he with rfl | he'
      · exact hbd
      · exact Nat.lt_trans hbd (hd e he')
    · rw [if_neg hlt, if_neg hne]
      have hdb : d.payload.toNat < b.payload.toNat := by
        have h1 : ¬ b.payload.toNat < d.payload.toNat := fun h0 =>
          hlt (UInt64.lt_iff_toNat_lt.mpr h0)
        have h2 : b.payload.toNat ≠ d.payload.toNat := fun h0 => hne (UInt64.toNat_inj.mp h0)
        omega
      refine List.pairwise_cons.mpr ⟨?_, ih hds hnew'⟩
      intro e he
      rcases (mem_insert hnew').mp he with rfl | he'
      · exact hdb
      · exact hd e he'

/-- A quantity of blocks that is added up gains the share of a block that is put in. -/
theorem sum_insert (f : Block → Nat) {bs : List Block} (hnew : ∀ d ∈ bs, d.payload ≠ b.payload) :
    ((insert b bs).map f).sum = f b + (bs.map f).sum := by
  induction bs with
  | nil => simp [insert]
  | cons d ds ih =>
    have hne : b.payload ≠ d.payload := fun he => hnew d (by simp) he.symm
    have ih := ih fun e he => hnew e (by simp [he])
    unfold insert
    by_cases hlt : b.payload < d.payload
    · rw [if_pos hlt]
      simp
    · rw [if_neg hlt, if_neg hne]
      simp only [List.map_cons, List.sum_cons, ih]
      omega

/-- And it loses the share of a block that is taken out. -/
theorem sum_filter (f : Block → Nat) {bs : List Block} (h : Ascending bs) (hb : b ∈ bs) :
    ((bs.filter (·.payload != b.payload)).map f).sum + f b = (bs.map f).sum := by
  induction bs with
  | nil => cases hb
  | cons d ds ih =>
    obtain ⟨hd, hds⟩ := List.pairwise_cons.mp h
    by_cases he : d.payload = b.payload
    · have hbd : b = d := h.eq_of_payload hb (by simp) he.symm
      have hrest : ds.filter (·.payload != b.payload) = ds := by
        rw [List.filter_eq_self]
        intro e hmem
        have hlt := hd e hmem
        rw [he] at hlt
        have : e.payload ≠ b.payload := fun h0 => by rw [h0] at hlt; omega
        simpa using this
      rw [List.filter_cons_of_neg (by simp [he]), hrest, hbd]
      simp only [List.map_cons, List.sum_cons]
      omega
    · have hmem : b ∈ ds := by
        rcases List.mem_cons.mp hb with rfl | hmem
        · exact absurd rfl he
        · exact hmem
      rw [List.filter_cons_of_pos (by simp [he])]
      simp only [List.map_cons, List.sum_cons]
      have := ih hds hmem
      omega

/-! ## 3. Totals in step with the blocks -/

/-- The blocks are in strict order, every allocation is either live or counted as freed, and the
live bytes are those of the live blocks. -/
structure Balanced (t : HeapTable) : Prop where
  ascending : Ascending t.blocks
  counted : t.blocks.length + t.frees = t.allocations
  summed : t.liveBytes = (t.blocks.map Block.bytes).sum

theorem balanced_empty : Balanced empty := ⟨List.Pairwise.nil, rfl, rfl⟩

theorem length_eq_sum (bs : List Block) : bs.length = (bs.map fun _ => 1).sum := by
  induction bs with
  | nil => rfl
  | cons d ds ih =>
    simp only [List.length_cons, List.map_cons, List.sum_cons, ih]
    omega

namespace Balanced

/-- In order, the block at a payload is the one that has it. -/
theorem blockAt?_iff (h : t.Balanced) : t.blockAt? p = some b ↔ b ∈ t.blocks ∧ b.payload = p := by
  constructor
  · exact blockAt?_eq_some
  · rintro ⟨hb, rfl⟩
    cases hf : t.blockAt? b.payload with
    | none =>
      unfold blockAt? at hf
      have hne := List.find?_eq_none.mp hf b hb
      simp at hne
    | some c =>
      obtain ⟨hc, hp⟩ := blockAt?_eq_some hf
      rw [h.ascending.eq_of_payload hc hb hp]

/-- **A new block keeps the table in step.** -/
theorem register (h : t.Balanced) (hnew : ∀ d ∈ t.blocks, d.payload ≠ b.payload) :
    (t.register b).Balanced := by
  refine ⟨ascending_insert h.ascending hnew, ?_, ?_⟩
  · have hlen := sum_insert (fun _ => 1) hnew
    rw [← length_eq_sum, ← length_eq_sum] at hlen
    have := h.counted
    simp only [HeapTable.register]
    omega
  · have := sum_insert Block.bytes hnew
    have := h.summed
    simp only [HeapTable.register]
    omega

/-- **Taking a block out keeps the table in step**, and its bytes were among those counted, so the
subtraction is exact. -/
theorem take (h : t.Balanced) (ht : t.take? p = some (b, t')) :
    t'.Balanced ∧ t'.liveBytes + b.bytes = t.liveBytes := by
  obtain ⟨hb, rfl⟩ := take?_eq_some ht
  obtain ⟨hmem, rfl⟩ := blockAt?_eq_some hb
  have hsum := sum_filter Block.bytes h.ascending hmem
  have hlen := sum_filter (fun _ => 1) h.ascending hmem
  rw [← length_eq_sum, ← length_eq_sum] at hlen
  have hcounted := h.counted
  have hsummed := h.summed
  refine ⟨⟨h.ascending.filter _, ?_, ?_⟩, ?_⟩
  · simp only
    omega
  · simp only
    omega
  · simp only
    omega

theorem mem_take (h : t.Balanced) (ht : t.take? p = some (b, t')) :
    c ∈ t'.blocks ↔ c ∈ t.blocks ∧ c ≠ b := by
  obtain ⟨hb, rfl⟩ := take?_eq_some ht
  obtain ⟨hmem, rfl⟩ := blockAt?_eq_some hb
  simp only [List.mem_filter, bne_iff_ne, ne_eq]
  constructor
  · rintro ⟨hc, hp⟩
    exact ⟨hc, fun he => hp (by rw [he])⟩
  · rintro ⟨hc, hne⟩
    exact ⟨hc, fun hp => hne (h.ascending.eq_of_payload hc hmem hp)⟩

end Balanced

end HeapTable

/-! ## 4. Blocks that do not reach each other -/

namespace Block

variable {b c : Block} {a : Address}

theorem contains_iff : b.contains a = true ↔
    b.payload.toNat ≤ a.toNat ∧ (a.toNat < b.payload.toNat + b.bytes ∨ a = b.payload) := by
  simp only [contains, Bool.and_eq_true, Bool.or_eq_true, decide_eq_true_eq, beq_iff_eq,
    UInt64.le_iff_toNat_le]

/-- The block starts before the other, and ends where that one starts, or before. -/
def Before (b c : Block) : Prop :=
  b.payload.toNat < c.payload.toNat ∧ b.payload.toNat + b.bytes ≤ c.payload.toNat

/-- A block contains nothing from the start of a later one on. -/
theorem Before.not_contains (h : b.Before c) (hle : c.payload.toNat ≤ a.toNat) :
    ¬b.contains a = true := by
  obtain ⟨hlt, hend⟩ := h
  intro hin
  rcases (contains_iff.mp hin).2 with hinside | rfl
  · omega
  · omega

end Block

namespace HeapTable

variable {t : HeapTable} {b : Block} {a : Address}

/-- In the order of the table, each block ends where the next one starts, or before. -/
abbrev Spaced (bs : List Block) : Prop := bs.Pairwise Block.Before

/-- Of two blocks one comes before the other. -/
theorem Spaced.before_or_before {bs : List Block} {c : Block} (h : Spaced bs) (hb : b ∈ bs)
    (hc : c ∈ bs) (hne : b ≠ c) : b.Before c ∨ c.Before b := by
  have hsymm : Std.Symm fun b c : Block => b.Before c ∨ c.Before b := ⟨fun _ _ => Or.symm⟩
  have heither : bs.Pairwise fun b c => b.Before c ∨ c.Before b := List.Pairwise.imp Or.inl h
  exact heither.forall hb hc hne

/-- **The last block that starts at or before an address is the only one that can contain it.** -/
theorem Spaced.containing?_iff (h : Spaced t.blocks) :
    t.containing? a = some b ↔ b ∈ t.blocks ∧ b.contains a = true := by
  constructor
  · intro hb
    obtain ⟨hmem, hle, hin⟩ := containing?_eq_some hb
    exact ⟨hmem, Block.contains_iff.mpr ⟨hle, hin⟩⟩
  · rintro ⟨hb, hin⟩
    have hbefore : b ∈ t.blocks.filter (·.payload ≤ a) :=
      List.mem_filter.mpr
        ⟨hb, by simpa [UInt64.le_iff_toNat_le] using (Block.contains_iff.mp hin).1⟩
    have hne := List.ne_nil_of_mem hbefore
    have hlast : (t.blocks.filter (·.payload ≤ a)).getLast hne = b := by
      obtain ⟨-, hle⟩ := List.mem_filter.mp (List.getLast_mem hne)
      rw [decide_eq_true_eq, UInt64.le_iff_toNat_le] at hle
      have hspaced : (t.blocks.filter (·.payload ≤ a)).Pairwise fun b c => b = c ∨ b.Before c :=
        (h.filter _).imp Or.inr
      rcases hspaced.rel_getLast_of_rel_getLast_getLast hbefore (.inl rfl) with heq | hlt
      · exact heq.symm
      · exact absurd hin (hlt.not_contains hle)
    simp only [containing?, List.getLast?_eq_some_getLast hne, hlast]
    simp [Option.filter, hin]

end HeapTable

end CheckedMemory
