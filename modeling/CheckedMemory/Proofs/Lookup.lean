import CheckedMemory.Proofs.Carving
import CheckedMemory.Proofs.Marking

/-!
# Looking an address up among the blocks

The heap table decides with one comparison which block contains an address: the last one that starts
at or before it, or none.  Asking every block comes to the same (`HeapTable.FindsExactly`) if no
block reaches past the start of the next one, and a block without values is still no hindrance then,
since nothing else starts where it does.

That blocks lie so is due to their rooms.  Each is in room that the system allocator gave, with at
least one byte there that is its own, and no two live rooms overlap; but rooms may touch, and the
room of a released block may be given again.  `HeapTable.Made` is every table that comes about so,
whatever the system allocator answers.  The one delicate case is an array without elements at a
strict alignment: its start is moved to the end of its room, and would be moved out of it if the
room started at an odd address.

Main statement: `HeapTable.finds_exactly`.
-/

namespace CheckedMemory

open Operation

variable {t t' : HeapTable} {a p base : Address} {b c : Block} {bs : List Block} {l r : Layout}
  {count align : UInt64} {stored : Stored} {traced : Bool}

/-! ## 1. At most one block -/

theorem Block.contains_iff_or : b.contains a = true ↔
    b.payload.toNat ≤ a.toNat ∧ a.toNat < b.payload.toNat + b.bytes ∨ a = b.payload := by
  rw [contains_iff]
  constructor
  · rintro ⟨hle, hlt | heq⟩
    · exact .inl ⟨hle, hlt⟩
    · exact .inr heq
  · rintro (⟨hle, hlt⟩ | rfl)
    · exact ⟨hle, .inl hlt⟩
    · exact ⟨Nat.le_refl _, .inr rfl⟩

namespace HeapTable

namespace Spaced

/-- No two blocks contain one address. -/
theorem eq_of_contains (h : Spaced bs) (hb : b ∈ bs) (hc : c ∈ bs) (hin : b.contains a = true)
    (hin' : c.contains a = true) : b = c := by
  refine Classical.byContradiction fun hne => ?_
  rcases h.before_or_before hb hc hne with hlt | hlt
  · exact hlt.not_contains (Block.contains_iff.mp hin').1 hin
  · exact hlt.not_contains (Block.contains_iff.mp hin).1 hin'

theorem nodup (h : Spaced bs) : bs.Nodup := by
  refine List.Pairwise.imp (fun hlt heq => ?_) h
  subst heq
  exact Nat.lt_irrefl _ hlt.1

end Spaced

/-! ## 2. What a look-up gives -/

/-- The look-up computed with words. -/
def containingChecked? (t : HeapTable) (a : Address) : Option Block :=
  (t.blocks.filter (·.payload ≤ a)).getLast?.filter fun b =>
    a < b.payload + UInt64.ofNat b.bytes || a == b.payload

/-- **What a look-up finds is what a search through all blocks finds.** -/
structure FindsExactly (t : HeapTable) (a : Address) : Prop where
  found_iff : ∀ b, t.containing? a = some b ↔ b ∈ t.blocks ∧
    (b.payload.toNat ≤ a.toNat ∧ a.toNat < b.payload.toNat + b.bytes ∨ a = b.payload)
  /-- It is all that the search finds. -/
  searched : t.blocks.filter (·.contains a) = (t.containing? a).toList
  unique : ∀ b ∈ t.blocks, ∀ c ∈ t.blocks, b.contains a = true → c.contains a = true → b = c
  /-- Computed with words it is the same: the end of a block is a word. -/
  checked : t.containingChecked? a = t.containing? a
  /-- No block starts between the address and the start of the block that contains it. -/
  nearest : ∀ b ∈ t.blocks, b.contains a = true →
    ∀ c ∈ t.blocks, c.payload.toNat ≤ a.toNat → c.payload.toNat ≤ b.payload.toNat
  none_iff : t.containing? a = none ↔ ∀ b ∈ t.blocks,
    a.toNat < b.payload.toNat ∨ b.payload.toNat + b.bytes ≤ a.toNat ∧ a ≠ b.payload
  /-- One past the end of a block there is none, unless one starts there. -/
  past_end : ∀ b ∈ t.blocks, a.toNat = b.payload.toNat + b.bytes →
    (∀ c ∈ t.blocks, c.payload ≠ a) → t.containing? a = none

/-- Where no block leaves the address space, the sum of a start and a size does not wrap. -/
theorem containingChecked?_eq (hend : ∀ b ∈ t.blocks, b.payload.toNat + b.bytes < 2 ^ 64) :
    t.containingChecked? a = t.containing? a := by
  unfold containingChecked? containing?
  cases hlast : (t.blocks.filter (·.payload ≤ a)).getLast? with
  | none => rfl
  | some b =>
    obtain ⟨hb, hle⟩ := List.mem_filter.mp (List.mem_of_getLast? hlast)
    have hsum := Word.toNat_add_ofNat (hend b hb)
    have hsame : (a < b.payload + UInt64.ofNat b.bytes || a == b.payload) = b.contains a := by
      simp only [Block.contains, hle, Bool.true_and, UInt64.lt_iff_toNat_lt, hsum]
    simp only [Option.filter, hsame]

section Exactly

variable (h : Spaced t.blocks)

include h

theorem Spaced.containing?_eq_none_iff :
    t.containing? a = none ↔ ∀ b ∈ t.blocks, ¬b.contains a = true := by
  rw [Option.eq_none_iff_forall_ne_some]
  exact forall_congr' fun b => by rw [Ne, h.containing?_iff, not_and]

/-- Searching all blocks gives the one that is looked up, once. -/
theorem Spaced.filter_contains (a : Address) :
    t.blocks.filter (·.contains a) = (t.containing? a).toList := by
  cases hfind : t.containing? a with
  | none => exact List.filter_eq_nil_iff.mpr (h.containing?_eq_none_iff.mp hfind)
  | some b =>
    refine List.perm_singleton.mp ((List.perm_ext_iff_of_nodup (h.nodup.filter _)
      (List.nodup_singleton b)).mpr fun c => ?_)
    rw [List.mem_filter, ← h.containing?_iff, hfind, List.mem_singleton, Option.some.injEq]
    exact eq_comm

theorem Spaced.findsExactly (hend : ∀ b ∈ t.blocks, b.payload.toNat + b.bytes < 2 ^ 64)
    (a : Address) : t.FindsExactly a where
  found_iff b := by
    rw [h.containing?_iff, Block.contains_iff_or]
  searched := h.filter_contains a
  unique b hb c hc hin hin' := h.eq_of_contains hb hc hin hin'
  checked := containingChecked?_eq hend
  nearest b hb hin c hc hle := by
    refine Nat.le_of_not_lt fun hlt => ?_
    have hne : b ≠ c := by
      rintro rfl
      exact Nat.lt_irrefl _ hlt
    rcases h.before_or_before hb hc hne with hbefore | hbefore
    · exact hbefore.not_contains hle hin
    · exact Nat.lt_asymm hlt hbefore.1
  none_iff := by
    rw [h.containing?_eq_none_iff]
    refine forall₂_congr fun b _ => ?_
    rw [Block.contains_iff_or, not_or, not_and_or]
    constructor
    · rintro ⟨houtside, hne⟩
      rcases houtside with hbelow | habove
      · exact .inl (Nat.lt_of_not_le hbelow)
      · exact .inr ⟨Nat.le_of_not_lt habove, hne⟩
    · rintro (hbelow | ⟨habove, hne⟩)
      · refine ⟨.inl (Nat.not_le.mpr hbelow), ?_⟩
        rintro rfl
        exact Nat.lt_irrefl _ hbelow
      · exact ⟨.inr (Nat.not_lt.mpr habove), hne⟩
  past_end b hb ha hnone := by
    refine h.containing?_eq_none_iff.mpr fun c hc hin => ?_
    obtain ⟨hle, hlt | heq⟩ := Block.contains_iff.mp hin
    · have hne : b ≠ c := by
        rintro rfl
        omega
      rcases h.before_or_before hb hc hne with hbefore | hbefore
      · have hstart : c.payload = a := UInt64.toNat_inj.mp (Nat.le_antisymm hle (ha ▸ hbefore.2))
        exact hnone c hc hstart
      · exact absurd hbefore.2 (by omega)
    · exact hnone c hc heq.symm

end Exactly

end HeapTable

/-! ## 3. Blocks in their rooms -/

namespace Block

/-- The payload lies in what the system allocator gave for the block, with a byte there that is its
own. -/
structure Lodged (b : Block) : Prop where
  base_le : b.base.toNat ≤ b.payload.toNat
  end_le : b.payload.toNat + max b.bytes 1 ≤ b.base.toNat + b.reserved.size
  inside : b.base.toNat + b.reserved.size ≤ 2 ^ 63

/-- The room of the block shares no byte with room of a layout at an address.  They may touch. -/
def RoomApart (b : Block) (base : Address) (r : Layout) : Prop :=
  base.toNat + r.size ≤ b.base.toNat ∨ b.base.toNat + b.reserved.size ≤ base.toNat

instance (b : Block) (base : Address) (r : Layout) : Decidable (b.RoomApart base r) :=
  inferInstanceAs (Decidable (_ ∨ _))

/-- A block that starts with its room has a byte there that is its own, as every request is for a
byte at least. -/
theorem lodged_of_payload_eq (hbase : b.payload = b.base) (hr : b.reserved = r.nonempty)
    (hle : b.bytes ≤ r.size) (hinside : b.base.toNat + r.nonempty.size ≤ 2 ^ 63) : b.Lodged := by
  refine ⟨by rw [hbase], ?_, hr ▸ hinside⟩
  rw [hbase, hr]
  simp only [Layout.nonempty]
  omega

/-- **And so has an array that is carved out of it**, if the room starts at an even address: the
start of the array is a multiple of an even number, so it is at least two less than a whole such
multiple away. -/
theorem lodged_carved (hl : Word.isPowerOfTwo l.align = true) (hlt : l.align < 2 ^ 64)
    (ha : Word.isPowerOfTwo align.toNat = true) (hr : l.carved? count align = some r)
    (hmod : base.toNat % l.align = 0) (hinside : base.toNat + r.nonempty.size ≤ 2 ^ 63)
    (heven : base.toNat % 2 = 0) : (carvedBlock l r stored count align traced base).Lodged := by
  have hcarves := Layout.carves hl hlt ha hr hmod hinside
  have hbase := UInt64.le_iff_toNat_le.mp hcarves.base_le
  have hend := hcarves.end_le
  refine ⟨hbase, ?_, hinside⟩
  obtain ⟨-, rfl⟩ := (Layout.carved?_eq_some_iff hl hlt).mp hr
  simp only [carvedBlock, Layout.nonempty] at hend ⊢
  by_cases hstrict : l.align < align.toNat
  · have hpos := Word.pos_of_isPowerOfTwo hl
    have hspare : l.spare align = align.toNat - 1 := (Layout.spare_eq hlt).trans (if_pos hstrict)
    obtain ⟨k, hk⟩ : 2 ∣ align.toNat := Word.dvd_of_le (by decide) ha (by omega)
    have hpayload : (l.payloadAt base align).toNat % 2 = 0 :=
      Nat.mod_eq_zero_of_dvd (Nat.dvd_trans ⟨k, hk⟩ (Nat.dvd_of_mod_eq_zero hcarves.align_mod))
    -- without elements the room is of an odd size, so its end is not an even address
    omega
  · have hplain := (hcarves.plain (Nat.le_of_not_lt hstrict)).2
    rw [hplain] at hend ⊢
    omega

end Block

/-- At an odd address the start of an array without elements may be the end of its room. -/
example : Layout.carved? ⟨1, 1⟩ 0 16 = some ⟨15, 1⟩ ∧
    Layout.payloadAt ⟨1, 1⟩ 0x1001 16 = 0x1001 + 15 := by decide

namespace HeapTable

/-- What the system allocator may give for a layout while some blocks are live: room at an even
address that suits the layout, in the lower half of the address space, and away from the rooms of
those blocks. -/
structure MayGive (t : HeapTable) (r : Layout) (base : Address) : Prop where
  even : base.toNat % 2 = 0
  aligned : base.toNat % r.align = 0
  inside : base.toNat + r.nonempty.size ≤ 2 ^ 63
  apart : ∀ c ∈ t.blocks, c.RoomApart base r.nonempty

/-- The tables that come about with any system allocator.  What it has given may be given again once
the block there was taken out. -/
inductive Made : HeapTable → Prop where
  | empty : Made .empty
  /-- One object or one record, from the start of its room. -/
  | object {t : HeapTable} {r : Layout} {base : Address} {bytes : Nat} (ht : Made t)
      (hg : t.MayGive r base) (hle : bytes ≤ r.size) (count stored traced) :
    Made (t.register ⟨base, r.nonempty, base, bytes, count, stored, traced⟩)
  /-- An array, at the first multiple of the alignment that is asked for. -/
  | array {t : HeapTable} {l r : Layout} {base : Address} {count align : UInt64} (ht : Made t)
      (hl : Word.isPowerOfTwo l.align = true) (hlt : l.align < 2 ^ 64)
      (ha : Word.isPowerOfTwo align.toNat = true) (hr : l.carved? count align = some r)
      (hg : t.MayGive r base) (stored traced) :
    Made (t.register (carvedBlock l r stored count align traced base))
  | take {t t' : HeapTable} {p : Address} {b : Block} (ht : Made t)
      (htake : t.take? p = some (b, t')) : Made t'

/-- The table is in order, and each block is in its room, away from the others. -/
structure Kept (t : HeapTable) : Prop where
  balanced : t.Balanced
  lodged : ∀ b ∈ t.blocks, b.Lodged
  apart : ∀ b ∈ t.blocks, ∀ c ∈ t.blocks, b ≠ c → b.RoomApart c.base c.reserved

namespace Kept

theorem empty : Kept .empty := ⟨balanced_empty, nofun, nofun⟩

/-- **A block in its room, away from the others, leaves the table so.** -/
theorem register (h : t.Kept) (hb : b.Lodged)
    (hap : ∀ c ∈ t.blocks, c.RoomApart b.base b.reserved) : (t.register b).Kept := by
  have hnew : ∀ c ∈ t.blocks, c.payload ≠ b.payload := by
    intro c hc heq
    have hfirst := hb.base_le
    have hlast := hb.end_le
    have hfirst' := (h.lodged c hc).base_le
    have hlast' := (h.lodged c hc).end_le
    rw [heq] at hfirst' hlast'
    rcases hap c hc with hbelow | habove
    · omega
    · omega
  have hmem : ∀ {c}, c ∈ (t.register b).blocks ↔ c = b ∨ c ∈ t.blocks := mem_insert hnew
  refine ⟨h.balanced.register hnew, fun c hc => ?_, fun c hc d hd hne => ?_⟩
  · rcases hmem.mp hc with rfl | hc'
    · exact hb
    · exact h.lodged c hc'
  · rcases hmem.mp hc with rfl | hc'
    · rcases hmem.mp hd with rfl | hd'
      · exact absurd rfl hne
      · exact (hap d hd').symm
    · rcases hmem.mp hd with rfl | hd'
      · exact hap c hc'
      · exact h.apart c hc' d hd' hne

/-- And so does a release. -/
theorem take (h : t.Kept) (ht : t.take? p = some (b, t')) : t'.Kept := by
  refine ⟨(h.balanced.take ht).1, fun c hc => ?_, fun c hc d hd hne => ?_⟩
  · exact h.lodged c ((h.balanced.mem_take ht).mp hc).1
  · exact h.apart c ((h.balanced.mem_take ht).mp hc).1 d ((h.balanced.mem_take ht).mp hd).1 hne

/-- Rooms apart keep payloads apart. -/
theorem spaced (h : t.Kept) : Spaced t.blocks := by
  refine h.balanced.ascending.imp_of_mem ?_
  intro b c hb hc hlt
  have hne : b ≠ c := by
    rintro rfl
    exact Nat.lt_irrefl _ hlt
  have hfirst := (h.lodged b hb).base_le
  have hlast := (h.lodged b hb).end_le
  have hfirst' := (h.lodged c hc).base_le
  have hlast' := (h.lodged c hc).end_le
  refine ⟨hlt, ?_⟩
  rcases h.apart b hb c hc hne with hbelow | habove
  · omega
  · omega

theorem end_lt (h : t.Kept) : ∀ b ∈ t.blocks, b.payload.toNat + b.bytes < 2 ^ 64 := by
  intro b hb
  have hlast := (h.lodged b hb).end_le
  have hinside := (h.lodged b hb).inside
  omega

end Kept

/-- Every table that comes about is so, by induction on how it did. -/
theorem Made.kept (h : Made t) : t.Kept := by
  induction h with
  | empty => exact .empty
  | object ht hg hle count stored traced ih =>
    exact ih.register (Block.lodged_of_payload_eq rfl rfl hle hg.inside) hg.apart
  | array ht hl hlt ha hr hg stored traced ih =>
    have halign := congrArg Layout.align ((Layout.carved?_eq_some_iff hl hlt).mp hr).2
    exact ih.register
      (Block.lodged_carved hl hlt ha hr (halign ▸ hg.aligned) hg.inside hg.even) hg.apart
  | take ht htake ih => exact ih.take htake

/-! ## 4. In every table -/

/-- **A look-up by the block before an address equals a full search**, in every table that comes
about with any system allocator, and in every state of a program. -/
theorem finds_exactly :
    (∀ t, Made t → ∀ a, t.FindsExactly a) ∧
      ∀ δ s, Program.Reachable δ s → ∀ a, s.world.heap.FindsExactly a := by
  refine ⟨fun t ht a => ht.kept.spaced.findsExactly ht.kept.end_lt a, fun δ s hs a => ?_⟩
  have hsound := hs.sound.world
  refine Spaced.findsExactly hsound.disjoint (fun b hb => ?_) a
  have hlt := hsound.payload_add_lt (hsound.live b hb)
  omega

/-- Three rooms that touch: of a short, of an array of no bytes that starts at the last byte of its
room, and of a short again. -/
def touching : HeapTable :=
  ((HeapTable.empty.register ⟨0x1000, ⟨2, 2⟩, 0x1000, 2, 1, .elements .uint16, false⟩).register
    (carvedBlock ⟨1, 1⟩ ⟨15, 1⟩ (.elements .uint8) 0 16 false 0x1002)).register
      ⟨0x1012, ⟨2, 2⟩, 0x1012, 2, 1, .elements .uint16, false⟩

theorem made_touching : Made touching := by
  have hfirst : MayGive .empty ⟨2, 2⟩ 0x1000 := ⟨rfl, rfl, by decide, nofun⟩
  have hsecond : MayGive (HeapTable.empty.register
      ⟨0x1000, ⟨2, 2⟩, 0x1000, 2, 1, .elements .uint16, false⟩) ⟨15, 1⟩ 0x1002 :=
    ⟨rfl, rfl, by decide, by decide⟩
  have hcarved : Layout.carved? ⟨1, 1⟩ 0 16 = some ⟨15, 1⟩ := rfl
  have hmade := (Made.empty.object hfirst (Nat.le_refl 2) 1 (.elements .uint16) false).array
    rfl (by decide) (by decide) hcarved hsecond (.elements .uint8) false
  exact hmade.object (r := ⟨2, 2⟩) ⟨rfl, rfl, by decide, by decide⟩ (Nat.le_refl 2) 1
    (.elements .uint16) false

/-- The end of the first short is in no block, the array is found at its start and hides nothing,
and the end of an array of a program is in no block either. -/
theorem finds_exactly_touching :
    Made touching ∧ touching.FindsExactly 0x1002 ∧ touching.containing? 0x1002 = none ∧
      touching.FindsExactly 0x1010 ∧
      (touching.containing? 0x1010).map Block.base = some 0x1002 ∧
      touching.FindsExactly 0x1013 ∧
      (touching.containing? 0x1013).map Block.base = some 0x1012 ∧
      Program.Reachable .free (Program.initial.run Program.threeWords) ∧
      (Program.initial.run Program.threeWords).world.heap.FindsExactly 0x40000000000c := by
  have hr := Program.reachable_threeWords .free
  exact ⟨made_touching, finds_exactly.1 touching made_touching _, by decide,
    finds_exactly.1 touching made_touching _, by decide,
    finds_exactly.1 touching made_touching _, by decide, hr,
    finds_exactly.2 .free _ hr _⟩

end HeapTable

end CheckedMemory
