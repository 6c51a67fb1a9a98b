import CheckedMemory.Proofs.Downcast
import CheckedMemory.Proofs.Marking

/-!
# Objects that are downcast

A downcast of one object asks the heap table for the block that contains the address, and takes it
if it was recorded with the type asked for and the address is a whole number of values from its
start.  Where a block holds as many values as fit in its bytes this finds the addresses of its
values and no others.

Two kinds of block hold fewer.  An empty array has no value, but its start is contained in it all
the same.  And a record with a tail is one value, whose bytes go on for as long as its tail does, so
that a whole number of records from its start may be inside it.  There the table takes an address
for that of a value which is none (`Block.Mistaken`), and nowhere else.

Main statement: `Program.downcast_object_iff`.
-/

namespace CheckedMemory

variable {past : List Block} {w : World} {b : Block} {a : Address} {type : Stored}

/-! ## 1. The values of a block -/

namespace Block

/-- How many values a block holds, of the type that it is recorded with. -/
def values (b : Block) : Nat :=
  match b.stored with
  | .elements _ => b.count.toNat
  | .fixed .. => 1
  | .tailed .. => 1

/-- The address is `k` values away from the start of the block. -/
def StridesTo (b : Block) (k : Nat) (a : Address) : Prop :=
  a.toNat = b.payload.toNat + k * b.stored.width

/-- The address is that of one of the values that the block holds. -/
def HasValueAt (b : Block) (a : Address) : Prop := ∃ k < b.values, b.StridesTo k a

/-- The table takes the address for that of a value of the block, and it is none. -/
inductive Mistaken (b : Block) (a : Address) : Prop where
  /-- There are no values, and it is where they would start. -/
  | empty (hnone : b.values = 0) (ha : a = b.payload)
  /-- It is inside the one record, as many records from its start. -/
  | tail (k : Nat) (hrecord : b.stored.IsRecord) (hk : 0 < k) (ha : b.StridesTo k a)
      (hin : a.toNat < b.payload.toNat + b.bytes)

theorem values_eq_one (hrecord : b.stored.IsRecord) : b.values = 1 := by
  unfold values
  cases hs : b.stored with
  | elements τ => rw [hs] at hrecord; exact hrecord.elim
  | fixed τ n => rfl
  | tailed h t => rfl

/-- What is no record is as long as its values. -/
theorem bytes_eq_values_mul (hb : b.Shaped) (hrecord : ¬b.stored.IsRecord) :
    b.bytes = b.values * b.stored.width := by
  unfold Shaped at hb
  unfold values
  cases hs : b.stored with
  | elements τ =>
    rw [hs] at hb
    exact hb.2
  | fixed τ n =>
    rw [hs] at hb
    exact hb.2.2.trans (Nat.one_mul _).symm
  | tailed h t =>
    rw [hs] at hrecord
    exact absurd trivial hrecord

/-- A record has its length among its bytes. -/
theorem width_pos (hrecord : b.stored.IsRecord) : 0 < b.stored.width := by
  cases hs : b.stored with
  | elements τ => rw [hs] at hrecord; exact hrecord.elim
  | fixed τ n => rw [hs] at hrecord; exact hrecord.elim
  | tailed h t =>
    have hlength := Layout.Tailed.lengthOffset_le_tailOffset h.layout t.layout
    have hleast : Layout.Tailed.tailOffset h.layout t.layout ≤
      Layout.Tailed.leastSize h.layout t.layout := Word.le_roundUp _
    change 0 < Layout.Tailed.leastSize h.layout t.layout
    omega

/-- An address is not both. -/
theorem Mistaken.not_hasValueAt (h : b.Mistaken a) : ¬b.HasValueAt a := by
  rintro ⟨k, hk, ha⟩
  cases h with
  | empty hnone => omega
  | tail m hrecord hm ha' =>
    have hzero : k = 0 := by
      have := values_eq_one hrecord
      omega
    have hpos : 0 < m * b.stored.width := Nat.mul_pos hm (width_pos hrecord)
    unfold StridesTo at ha ha'
    rw [hzero, Nat.zero_mul] at ha
    omega

/-- An address in a block is a whole number of values from its start in the exact sense if it is in
that of the table, which counts values without bytes as one byte. -/
theorem mod_width_iff (hb : b.Shaped) (hle : b.payload.toNat ≤ a.toNat)
    (hin : a.toNat < b.payload.toNat + b.bytes ∨ a = b.payload) :
    (a.toNat - b.payload.toNat) % max b.stored.width 1 = 0 ↔ ∃ k, b.StridesTo k a := by
  unfold StridesTo
  rcases Nat.eq_zero_or_pos b.stored.width with hzero | hpos
  · -- there are no bytes, and so no address but the start
    have hrecord : ¬b.stored.IsRecord := fun h => by
      have := width_pos h
      omega
    have hbytes := bytes_eq_values_mul hb hrecord
    rw [hzero, Nat.mul_zero] at hbytes
    have hstart : a.toNat = b.payload.toNat := by
      rcases hin with hlt | rfl
      · omega
      · rfl
    rw [hzero, hstart, Nat.sub_self, Nat.zero_mod]
    exact ⟨fun _ => ⟨0, rfl⟩, fun _ => rfl⟩
  · rw [Nat.max_eq_left hpos, ← Nat.dvd_iff_mod_eq_zero]
    constructor
    · rintro ⟨k, hk⟩
      exact ⟨k, by rw [Nat.mul_comm k]; omega⟩
    · rintro ⟨k, hk⟩
      exact ⟨k, by rw [Nat.mul_comm _ k]; omega⟩

/-- So many values from the start of a block is the address of a value or taken for one, if it is in
the block. -/
theorem hasValueAt_or_mistaken (hb : b.Shaped) {k : Nat} (ha : b.StridesTo k a)
    (hin : a.toNat < b.payload.toNat + b.bytes ∨ a = b.payload) :
    b.HasValueAt a ∨ b.Mistaken a := by
  have hstart : a = b.payload → b.HasValueAt a ∨ b.Mistaken a := by
    rintro rfl
    rcases Nat.eq_zero_or_pos b.values with hnone | hsome
    · exact .inr (.empty hnone rfl)
    · exact .inl ⟨0, hsome, by unfold StridesTo; omega⟩
  rcases hin with hlt | heq
  · by_cases hrecord : b.stored.IsRecord
    · rcases Nat.eq_zero_or_pos k with rfl | hk
      · exact hstart (UInt64.toNat_inj.mp (by rw [ha, Nat.zero_mul, Nat.add_zero]))
      · exact .inr (.tail k hrecord hk ha hlt)
    · have hbytes := bytes_eq_values_mul hb hrecord
      rw [ha, hbytes] at hlt
      exact .inl ⟨k, Nat.lt_of_mul_lt_mul_right (Nat.lt_of_add_lt_add_left hlt), ha⟩
  · exact hstart heq

/-- Both are in the block. -/
theorem contains_of_hasValueAt (hb : b.Shaped) (h : b.HasValueAt a) : b.contains a = true := by
  obtain ⟨k, hk, ha⟩ := h
  unfold StridesTo at ha
  rw [contains_iff]
  refine ⟨by omega, ?_⟩
  rcases Nat.eq_zero_or_pos (k * b.stored.width) with hzero | hpos
  · exact .inr (UInt64.toNat_inj.mp (by omega))
  · refine .inl ?_
    have hrecord : ¬b.stored.IsRecord := by
      intro hyes
      rw [values_eq_one hyes] at hk
      rw [Nat.lt_one_iff.mp hk, Nat.zero_mul] at hpos
      omega
    rw [ha, bytes_eq_values_mul hb hrecord]
    have := Nat.mul_lt_mul_of_pos_right hk (Nat.pos_of_mul_pos_left hpos)
    omega

theorem Mistaken.contains (h : b.Mistaken a) : b.contains a = true := by
  rw [contains_iff]
  cases h with
  | empty hnone ha => exact ⟨by rw [ha], .inr ha⟩
  | tail k _ _ ha hin =>
    unfold StridesTo at ha
    exact ⟨by omega, .inl hin⟩

theorem Mistaken.exists_stridesTo (h : b.Mistaken a) : ∃ k, b.StridesTo k a := by
  cases h with
  | empty hnone ha => exact ⟨0, by rw [ha]; unfold StridesTo; omega⟩
  | tail k _ _ ha hin => exact ⟨k, ha⟩

/-- **The addresses that are in a block and whole numbers of values from its start** are those of
its values and those that are taken for one. -/
theorem contains_and_mod_iff (hb : b.Shaped) :
    (b.contains a = true ∧ (a.toNat - b.payload.toNat) % max b.stored.width 1 = 0) ↔
      b.HasValueAt a ∨ b.Mistaken a := by
  constructor
  · rintro ⟨hcontains, hmod⟩
    obtain ⟨hle, hin⟩ := contains_iff.mp hcontains
    obtain ⟨k, hk⟩ := (mod_width_iff hb hle hin).mp hmod
    exact hasValueAt_or_mistaken hb hk hin
  · intro h
    have hcontains : b.contains a = true := h.elim (contains_of_hasValueAt hb) (·.contains)
    have hstrides : ∃ k, b.StridesTo k a :=
      h.elim (fun ⟨k, _, hk⟩ => ⟨k, hk⟩) (·.exists_stridesTo)
    obtain ⟨hle, hin⟩ := contains_iff.mp hcontains
    exact ⟨hcontains, (mod_width_iff hb hle hin).mpr hstrides⟩

end Block

/-! ## 2. The table -/

namespace HeapTable

/-- A live block of the type has a value at the address. -/
def HasValueAt (t : HeapTable) (type : Stored) (a : Address) : Prop :=
  ∃ b ∈ t.blocks, b.stored = type ∧ b.HasValueAt a

/-- The address is taken for that of a value of a live block of the type, and it is none. -/
def Mistakes (t : HeapTable) (type : Stored) (a : Address) : Prop :=
  ∃ b ∈ t.blocks, b.stored = type ∧ b.Mistaken a

end HeapTable

namespace World.Sound

/-- **What the table takes for a value** is one of some live block of the type, or mistaken for
one. -/
theorem holdsAt_iff (h : w.Sound past) : w.heap.holdsAt type a = true ↔
    w.heap.HasValueAt type a ∨ w.heap.Mistakes type a := by
  -- the test on words is the one on numbers
  have hmod : ∀ b ∈ w.heap.blocks, b.contains a = true →
      ((a - b.payload) % max b.stored.size 1 = 0 ↔
        (a.toNat - b.payload.toNat) % max b.stored.width 1 = 0) := by
    intro b hb hcontains
    have hlt := h.payload_add_lt (h.live b hb)
    have hle := (Block.contains_iff.mp hcontains).1
    obtain ⟨hsize, -⟩ := Block.toNat_size (h.shaped b (h.live b hb)) (by omega)
    rw [← UInt64.toNat_inj, UInt64.toNat_mod, Word.toNat_max_one, hsize,
      UInt64.toNat_sub_of_le _ _ (UInt64.le_iff_toNat_le.mpr hle)]
    rfl
  unfold HeapTable.holdsAt
  constructor
  · intro hat
    split at hat
    · rename_i b hfind
      obtain ⟨hb, hcontains⟩ := h.containing?_iff.mp hfind
      rw [Bool.and_eq_true, beq_iff_eq, beq_iff_eq] at hat
      obtain ⟨rfl, hstride⟩ := hat
      exact ((Block.contains_and_mod_iff (h.shaped b (h.live b hb))).mp
        ⟨hcontains, (hmod b hb hcontains).mp hstride⟩).imp (⟨b, hb, rfl, ·⟩) (⟨b, hb, rfl, ·⟩)
    · cases hat
  · intro hfound
    obtain ⟨b, hb, rfl, hvalue⟩ : ∃ b ∈ w.heap.blocks, b.stored = type ∧
        (b.HasValueAt a ∨ b.Mistaken a) :=
      hfound.elim (fun ⟨b, hb, hs, hv⟩ => ⟨b, hb, hs, .inl hv⟩)
        (fun ⟨b, hb, hs, hm⟩ => ⟨b, hb, hs, .inr hm⟩)
    obtain ⟨hcontains, hstride⟩ :=
      (Block.contains_and_mod_iff (h.shaped b (h.live b hb))).mpr hvalue
    rw [h.containing?_iff.mpr ⟨hb, hcontains⟩]
    dsimp only
    rw [Bool.and_eq_true, beq_iff_eq, beq_iff_eq]
    exact ⟨rfl, (hmod b hb hcontains).mpr hstride⟩

/-- No live block, and so no value, is at null. -/
theorem holdsAt_zero (h : w.Sound past) (type : Stored) : w.heap.holdsAt type 0 = false := by
  unfold HeapTable.holdsAt
  split
  · rename_i b hfind
    obtain ⟨hb, hcontains⟩ := h.containing?_iff.mp hfind
    exact absurd rfl (h.ne_zero_of_contains hb hcontains)
  · rfl

/-- So a downcast is null exactly if the table says that there is no value. -/
theorem downcastObject_ne_zero_iff (h : w.Sound past) :
    w.heap.downcastObject type a ≠ 0 ↔ w.heap.holdsAt type a = true := by
  unfold HeapTable.downcastObject
  split
  · rename_i hat
    refine iff_of_true ?_ hat
    rintro rfl
    rw [h.holdsAt_zero type] at hat
    cases hat
  · rename_i hno
    exact iff_of_false (fun h0 => h0 rfl) hno

/-- A mistaken address is that of no value of any live block. -/
theorem not_hasValueAt_of_mistakes (h : w.Sound past) (hm : w.heap.Mistakes type a) :
    ¬w.heap.HasValueAt type a := by
  obtain ⟨b, hb, -, hm⟩ := hm
  rintro ⟨c, hc, -, hvalue⟩
  have hfind := h.containing?_iff.mpr ⟨hb, hm.contains⟩
  rw [h.containing?_iff.mpr ⟨hc, Block.contains_of_hasValueAt (h.shaped c (h.live c hc)) hvalue⟩]
    at hfind
  obtain rfl := Option.some.inj hfind
  exact hm.not_hasValueAt hvalue

end World.Sound

/-! ## 3. Downcasts -/

namespace Program

variable {δ : Discipline} {s : Program}

/-- **A downcast of one object finds the values of the live blocks of a type, and what is mistaken
for one**: it is exact at an address unless that is mistaken.  Pointers of all kinds ask the table
alike, whatever they were made of. -/
theorem downcast_object_iff (hs : Reachable δ s) (type : Stored) (a : Address) :
    (s.world.heap.downcastObject type a ≠ 0 ↔
      s.world.heap.HasValueAt type a ∨ s.world.heap.Mistakes type a) ∧
    (s.world.heap.downcastObject type a ≠ 0 → s.world.heap.downcastObject type a = a) ∧
    ((s.world.heap.downcastObject type a ≠ 0 ↔ s.world.heap.HasValueAt type a) ↔
      ¬s.world.heap.Mistakes type a) ∧
    ∀ σ, type = .elements σ →
      (∀ (τ : ElemType) (p : Ptr τ), p.address = a →
        (p.downcast s.world.heap σ).address = s.world.heap.downcastObject type a) ∧
      ∀ p : VoidPtr, p.address = a →
        (p.downcast s.world.heap σ).address = s.world.heap.downcastObject type a := by
  have h := hs.sound.world
  have hfound : s.world.heap.downcastObject type a ≠ 0 ↔
      s.world.heap.HasValueAt type a ∨ s.world.heap.Mistakes type a :=
    h.downcastObject_ne_zero_iff.trans h.holdsAt_iff
  refine ⟨hfound, fun hne => ?_, ?_, ?_⟩
  · exact if_pos (h.downcastObject_ne_zero_iff.mp hne)
  · rw [hfound]
    constructor
    · intro hexact hm
      exact h.not_hasValueAt_of_mistakes hm (hexact.mp (.inr hm))
    · exact fun hno => or_iff_left hno
  · rintro σ rfl
    exact ⟨fun τ p hp => hp ▸ rfl, fun p hp => hp ▸ rfl⟩

/-- At the second of three words a word is found, and there is one. -/
theorem downcast_object_second_word :
    Reachable .scoped (initial.run threeWords) ∧
      (initial.run threeWords).world.heap.downcastObject (.elements .uint32) 0x400000000004 =
        0x400000000004 ∧
      (initial.run threeWords).world.heap.HasValueAt (.elements .uint32) 0x400000000004 := by
  have hs := reachable_threeWords .scoped
  obtain ⟨-, hsame, hexact, -⟩ := downcast_object_iff hs (.elements .uint32) 0x400000000004
  have hne : (initial.run threeWords).world.heap.downcastObject (.elements .uint32)
      0x400000000004 ≠ 0 := by decide
  refine ⟨hs, hsame hne, (hexact.mpr ?_).mp hne⟩
  rintro ⟨b, hb, hstored, hm⟩
  have hblocks : b ∈ [_] := hb
  cases List.mem_singleton.mp hblocks
  cases hm with
  | empty hnone => cases hnone
  | tail _ hrecord => exact hrecord

/-- An array of no words. -/
def noWords : Program :=
  initial.run (giving (.array .uint32 ∘ .plain) (ArrayPtr.new .uint32 0 false))

theorem reachable_noWords (δ : Discipline) : Reachable δ noWords :=
  .tail .refl (.act (.make (.block (.array .uint32 0 false))))

/-- The record with a tail of three words, with a pointer to the first of them. -/
def shortTailFirst : Program :=
  (shortTail.run (giving (.array .uint16 ∘ .plain)
    (TailedPtr.tail (⟨0x400000000000⟩ : TailedPtr .uint32 .uint16)))).keep
      (.object .uint16 ⟨0x400000000010⟩)

theorem reachable_shortTailFirst (δ : Discipline) : Reachable δ shortTailFirst :=
  ((reachable_shortTail δ).tail (.act (.tail List.mem_cons_self (.inr rfl)))).tail
    (.derive (.convert (.toObject (p := ⟨⟨0x400000000010, 0, 3⟩⟩) List.mem_cons_self rfl)))

/-- **Not every object that is found is there**: a word is found at the start of an array of none,
and a record where the tail of one starts. -/
theorem exists_object_mistaken :
    (Reachable .scoped noWords ∧
      noWords.world.heap.downcastObject (.elements .uint32) 0x400000000000 = 0x400000000000 ∧
      ¬noWords.world.heap.HasValueAt (.elements .uint32) 0x400000000000) ∧
    (Reachable .scoped shortTailFirst ∧
      .object .uint16 ⟨0x400000000010⟩ ∈ shortTailFirst.handles ∧
      shortTailFirst.world.heap.downcastObject (.tailed .uint32 .uint16) 0x400000000010 =
        0x400000000010 ∧
      ¬shortTailFirst.world.heap.HasValueAt (.tailed .uint32 .uint16) 0x400000000010) := by
  refine ⟨⟨reachable_noWords .scoped, by decide, ?_⟩, reachable_shortTailFirst .scoped,
    List.mem_cons_self, by decide, ?_⟩
  · exact (reachable_noWords .scoped).sound.world.not_hasValueAt_of_mistakes
      ⟨_, List.mem_cons_self, rfl, .empty rfl rfl⟩
  · exact (reachable_shortTailFirst .scoped).sound.world.not_hasValueAt_of_mistakes
      ⟨_, List.mem_cons_self, rfl, .tail 1 trivial Nat.one_pos rfl (by decide)⟩

end Program

end CheckedMemory
