import CheckedMemory.Proofs.Writers

/-!
# Copies beside their source

A copy and an append look for an overlap of what they write with the string that they read, but
with its bytes only: the terminator is not among them.  So one place is let through where the
source does not stay what it was, and that is the terminator itself.  A copy to there begins on the
byte that ends the source, and what was a string is followed by itself.

Main statement: `Program.sources_kept`, which says that there is no other such place.
-/

namespace CheckedMemory

open Operation

section Writers

variable {P Q : ElemType → Type} [ArrayLike P] [ArrayLike Q] {dst : P .uint8} {src : Q .uint8}
  {past past' : List Block} {w w' : World} {i : Nat} {t bs : List UInt8}

namespace CString

open ArrayLike (span address)

/-! ## 1. The place that is let through -/

/-- The destination is the terminator of a source that is not empty. -/
def OnTerminator (dst : P .uint8) (src : Q .uint8) (t : List UInt8) : Prop :=
  t ≠ [] ∧ (address dst).toNat = (address src).toNat + t.length

instance (dst : P .uint8) (src : Q .uint8) (t : List UInt8) : Decidable (OnTerminator dst src t) :=
  inferInstanceAs (Decidable (_ ∧ _))

/-- What becomes of a source: it is as it was unless it was written on its terminator, and then it
goes on with itself. -/
structure Remains (dst : P .uint8) (src : Q .uint8) (t : List UInt8) (w' : World) : Prop where
  spells_iff : Spells src w' t ↔ ¬OnTerminator dst src t
  doubled : OnTerminator dst src t →
    bytesFrom w'.memory.byte (address src) (t.length + (t.length + 1)) = t ++ (t ++ [0])

/-- A string that nothing was written on is there still. -/
theorem Spells.of_misses (h : Spells src w t) (hw : Wrote dst i bs w w')
    (hmiss : (Patch.mk (address dst + UInt64.ofNat i) bs).Misses (address src) (t.length + 1))
    (hlt : (address src).toNat + (span src).left < 2 ^ 47) : Spells src w' t := by
  have hfits := h.fits
  refine ⟨h.inside, hfits, h.nonzero, ?_⟩
  rw [Patch.bytesFrom_of_misses hw.byte hmiss (by omega), h.bytes]

/-- A string that goes on with itself is not the one that it was. -/
theorem not_spells_of_doubled (hne : t ≠ [])
    (hbytes : bytesFrom w.memory.byte (address src) (t.length + (t.length + 1)) = t ++ (t ++ [0])) :
    ¬Spells src w t := by
  intro h
  have htake := take_bytesFrom w.memory.byte (address src)
    (k := t.length + 1) (n := t.length + (t.length + 1)) (by omega)
  obtain ⟨b, u, rfl⟩ := List.exists_cons_of_ne_nil hne
  rw [hbytes, h.bytes, List.take_length_add_append] at htake
  have hb : b = 0 := by simpa using List.append_cancel_left htake
  exact h.nonzero b List.mem_cons_self hb

theorem Remains.of_spells (h : Spells src w' t) (hno : ¬OnTerminator dst src t) :
    Remains dst src t w' :=
  ⟨⟨fun _ => hno, fun _ => h⟩, fun hon => absurd hon hno⟩

theorem Remains.of_doubled (hon : OnTerminator dst src t)
    (hbytes : bytesFrom w'.memory.byte (address src) (t.length + (t.length + 1)) =
      t ++ (t ++ [0])) : Remains dst src t w' :=
  ⟨⟨fun h => absurd h (not_spells_of_doubled hon.1 hbytes), fun hno => absurd hon hno⟩,
    fun _ => hbytes⟩

/-- **What a writer leaves of its source**, if there are `i` bytes in front of the copy and the
first of them does not end a string. -/
theorem remains_of_wrote (h : w.Sound past) (hd : w.Backs past .uint8 (span dst))
    (hs : w.Backs past .uint8 (span src)) (ht : Spells src w t)
    (hw : Wrote dst i (t ++ [0]) w w') (hfirst : i ≠ 0 → w.memory.byte (address dst) ≠ 0)
    (hover : overlapping (address dst) (i + (t ++ [0]).length) (address src) t.length = false) :
    Remains dst src t w' := by
  have hroom := ArrayLike.address_add_left_lt h hd hw.inside
  have hroom' := ArrayLike.address_add_left_lt h hs ht.inside
  have hfits := hw.fits
  have hfits' := ht.fits
  rw [List.length_append, List.length_singleton] at hfits hover
  have hstart : (address dst + UInt64.ofNat i).toNat = (address dst).toNat + i :=
    Word.toNat_add_ofNat (by omega)
  have hend : (address src + UInt64.ofNat t.length).toNat = (address src).toNat + t.length :=
    Word.toNat_add_ofNat (by omega)
  -- on the terminator there is nothing in front of the copy
  have hon : (address dst).toNat = (address src).toNat + t.length →
      address src + UInt64.ofNat t.length = address dst ∧ i = 0 := by
    intro heq
    have haddr : address src + UInt64.ofNat t.length = address dst :=
      UInt64.toNat_inj.mp (hend.trans heq.symm)
    refine ⟨haddr, Classical.byContradiction fun hi => hfirst hi ?_⟩
    rw [← haddr]
    exact ht.byte_end
  by_cases hmiss : (Patch.mk (address dst + UInt64.ofNat i) (t ++ [0])).Misses (address src)
      (t.length + 1)
  · refine .of_spells (ht.of_misses hw hmiss hroom') fun ⟨hne, heq⟩ => ?_
    have hi := (hon heq).2
    simp only [Patch.Misses, List.length_append, List.length_singleton, hstart] at hmiss
    omega
  · have heq : (address dst).toNat = (address src).toNat + t.length := by
      simp only [overlapping, Bool.and_eq_false_iff, decide_eq_false_iff_not] at hover
      simp only [Patch.Misses, List.length_append, List.length_singleton, hstart] at hmiss
      omega
    obtain ⟨haddr, rfl⟩ := hon heq
    have hzero : address dst + UInt64.ofNat 0 = address dst := UInt64.add_zero _
    have hself := Patch.bytesFrom_self (p := ⟨address dst + UInt64.ofNat 0, t ++ [0]⟩) hw.byte
      (by simp only [hzero, List.length_append, List.length_singleton]; omega)
    have hfront := Patch.bytesFrom_of_misses (a := address src) (n := t.length) hw.byte
      (.inl (by simp only [hzero]; omega)) (by omega)
    have hdouble : bytesFrom w'.memory.byte (address src) (t.length + (t.length + 1)) =
        t ++ (t ++ [0]) := by
      simp only [hzero, List.length_append, List.length_singleton] at hself
      rw [bytesFrom_add, hfront, ht.front, haddr, hself]
    by_cases hne : t = []
    · subst hne
      exact .of_spells ⟨ht.inside, hfits', ht.nonzero, hdouble⟩ fun hon => hon.1 rfl
    · exact .of_doubled ⟨hne, heq⟩ hdouble

/-! ## 2. The comparison afterwards -/

/-- Strings compare equal exactly if they are the same. -/
theorem compare_eq_iff (h : w.Sound past) (hd : w.Backs past .uint8 (span dst))
    (hs : w.Backs past .uint8 (span src)) (ht : Spells dst w t) :
    outcome (compare dst src) w = (.ok .eq, w) ↔ Spells src w t := by
  obtain ⟨r, ho, rfl⟩ := outcome_contents h hd ht
  unfold compare
  rw [outcome_bind_ok _ ho]
  constructor
  · intro hcompare
    obtain ⟨r', w₁, ho', heq⟩ := exists_of_outcome_bind hcompare
    obtain ⟨rfl, hspells⟩ := spells_of_contents h hs ho'
    have horder : r.compare r' = .eq := Except.ok.inj (Prod.mk.inj heq).1
    rw [Runs.compare_eq] at horder
    rwa [eq_of_compareBytes horder]
  · intro hspells
    obtain ⟨r', ho', hsame⟩ := outcome_contents h hs hspells
    rw [outcome_bind_ok _ ho', outcome_pure, Runs.compare_eq, hsame, compareBytes_self]

end CString

end Writers

/-! ## 3. The law on runs -/

namespace Program

open CString

variable {δ : Discipline} {s : Program} {dst src : AnyArrayPtr .uint8}

/-- What becomes of the source of a copy and of an append that are let through. -/
structure SourcesKept (dst src : AnyArrayPtr .uint8) (s : Program) : Prop where
  copy : ∀ w', outcome (CString.copy dst src) s.world = (.ok (), w') →
    ∃ t, Spells src s.world t ∧ Remains dst src t w' ∧
      (outcome (compare dst src) w' = (.ok .eq, w') ↔ ¬OnTerminator dst src t)
  append : ∀ w', outcome (appendAll dst src) s.world = (.ok (), w') →
    ∃ t, Spells src s.world t ∧ Remains dst src t w'

/-- **A copy that is let through leaves its source as it was, unless it is to its terminator.** -/
theorem sources_kept (hs : Reachable δ s) (hd : s.HasArray .uint8 dst)
    (hq : s.HasArray .uint8 src) : SourcesKept dst src s where
  copy w' ho := by
    have h := hs.sound.world
    have hbd := hd.backs hs.sound.backed
    have hbs := hq.backs hs.sound.backed
    obtain ⟨t, ht, hdec⟩ := exists_of_copy h hbd hbs ho
    obtain ⟨hw, hf, hover⟩ := hdec.wrote ho
    have hremains := remains_of_wrote h hbd hbs ht hw (fun hi => absurd rfl hi) hover
    have hspells : Spells dst w' t := hw.spells (ArrayLike.address_add_left_lt h hbd hw.inside) rfl
      (fun _ hb => nomatch hb) ht.nonzero
    exact ⟨t, ht, hremains, (compare_eq_iff hf.sound (hbd.mono (hf.extends h))
      (hbs.mono (hf.extends h)) hspells).trans hremains.spells_iff⟩
  append w' ho := by
    have h := hs.sound.world
    have hbd := hd.backs hs.sound.backed
    have hbs := hq.backs hs.sound.backed
    obtain ⟨t, u, ht, hu, hdec⟩ := exists_of_append h hbd hbs ho
    obtain ⟨hw, -, hover⟩ := hdec.wrote ho
    rw [ht.take_all h hbs] at hw hover
    exact ⟨t, ht, remains_of_wrote h hbd hbs ht hw hu.byte_ne_zero hover⟩

/-- A copy to behind the terminator of the letters leaves them as they were. -/
theorem sources_kept_letters :
    SourcesKept (letters 3) (letters 0) (lettersAnd 3) ∧
      ∃ w', outcome (copy (letters 3) (letters 0)) (lettersAnd 3).world = (.ok (), w') ∧
        Spells (letters 0) w' [97, 98] := by
  obtain ⟨hsrc, hdst⟩ := hasArray_letters 3
  have hlaw := sources_kept (reachable_lettersAnd .scoped 3) hdst hsrc
  obtain ⟨w', ho⟩ : ∃ w', outcome (copy (letters 3) (letters 0)) (lettersAnd 3).world =
    (.ok (), w') := ⟨_, rfl⟩
  obtain ⟨t, ht, hremains, -⟩ := hlaw.copy w' ho
  rw [ht.unique (spells_letters 3)] at hremains
  exact ⟨hlaw, w', ho, hremains.spells_iff.mpr (by decide)⟩

set_option maxRecDepth 2000 in
/-- **Not every copy that is let through leaves its source as it was**: what is copied or appended
to where the letters end makes them be followed by themselves. -/
theorem exists_source_not_kept :
    Reachable .scoped (lettersAnd 2) ∧ (lettersAnd 2).HasArray .uint8 (letters 2) ∧
      (lettersAnd 2).HasArray .uint8 (letters 0) ∧
        Spells (letters 0) (lettersAnd 2).world [97, 98] ∧
        (∃ w', outcome (copy (letters 2) (letters 0)) (lettersAnd 2).world = (.ok (), w') ∧
          Spells (letters 0) w' [97, 98, 97, 98] ∧ ¬Spells (letters 0) w' [97, 98] ∧
          outcome (compare (letters 2) (letters 0)) w' = (.ok .lt, w')) ∧
        ∃ w', outcome (appendAll (letters 2) (letters 0)) (lettersAnd 2).world = (.ok (), w') ∧
          Spells (letters 0) w' [97, 98, 97, 98] := by
  obtain ⟨hsrc, hdst⟩ := hasArray_letters 2
  have happend : ∃ w', outcome (appendAll (letters 2) (letters 0)) (lettersAnd 2).world =
      (.ok (), w') ∧ Spells (letters 0) w' [97, 98, 97, 98] :=
    ⟨_, rfl, ⟨⟨by decide, by decide, by decide⟩, by decide, by decide, rfl⟩⟩
  obtain ⟨w', r, r', ho, hdouble, hread, hread', hr, hr'⟩ : ∃ w' r r',
      outcome (copy (letters 2) (letters 0)) (lettersAnd 2).world = (.ok (), w') ∧
        Spells (letters 0) w' [97, 98, 97, 98] ∧
        outcome (contents (letters 2)) w' = (.ok r, w') ∧
        outcome (contents (letters 0)) w' = (.ok r', w') ∧
        r.toList = [97, 98] ∧ r'.toList = [97, 98, 97, 98] :=
    ⟨_, _, _, rfl, ⟨⟨by decide, by decide, by decide⟩, by decide, by decide, rfl⟩, rfl, rfl, rfl,
      rfl⟩
  refine ⟨reachable_lettersAnd .scoped 2, hdst, hsrc, spells_letters 2,
    ⟨w', ho, hdouble, fun hsame => ?_, ?_⟩, happend⟩
  · have := hdouble.unique hsame
    contradiction
  · unfold CString.compare
    rw [outcome_bind_ok _ hread, outcome_bind_ok _ hread', outcome_pure, Runs.compare_eq, hr, hr']
    rfl

end Program

end CheckedMemory
