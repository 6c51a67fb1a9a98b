import CheckedMemory.Proofs.OpenStreams
import Mathlib.Data.List.GetD

/-!
# The bytes that a stream has yet to give

A stream hands out its bytes one at a time, from the block ahead or from its file, and may take the
last one back.  All of them together, as long as the directory stays as it is, are a list
(`Stream.upcoming`): what is ahead and then the rest of the file, or of a file seen as memory what
is up to the place where reading stops and then what the file has beyond.

`Stream.Has` says that these are the bytes to come.  The next byte is then the first of them
(`Stream.Has.nextByte_cons`), and none comes after the last, now or later; a byte given back is the
next one again.
-/

namespace CheckedMemory

/-- The bytes of what a path says; the directory has none. -/
def Directory.bytes (d : Directory) : Target → List UInt8
  | .file name => (d.contents name).toList
  | .directory => []

namespace Stream

/-! ## 1. Stretches -/

section Stretches

variable {bytes : List UInt8} {i j k : Nat}

/-- The bytes between two places, zeros where there are none. -/
def stretch (bytes : List UInt8) (i j : Nat) : List UInt8 :=
  (List.range' i (j - i)).map fun k => bytes.getD k 0

@[simp] theorem length_stretch (bytes : List UInt8) (i j : Nat) :
    (stretch bytes i j).length = j - i := by
  simp [stretch]

theorem stretch_of_le (h : j ≤ i) : stretch bytes i j = [] := by
  rw [stretch, Nat.sub_eq_zero_of_le h]
  rfl

theorem stretch_cons (h : i < j) :
    stretch bytes i j = bytes.getD i 0 :: stretch bytes (i + 1) j := by
  obtain ⟨n, rfl⟩ := Nat.exists_eq_add_of_lt h
  rw [stretch, show i + n + 1 - i = n + 1 by omega, List.range'_succ, List.map_cons, stretch,
    show i + n + 1 - (i + 1) = n by omega]

/-- Up to the end they are what is left of the bytes. -/
theorem stretch_length (bytes : List UInt8) (i : Nat) :
    stretch bytes i bytes.length = bytes.drop i := by
  refine List.ext_getElem (by simp) fun k h _ => ?_
  rw [length_stretch] at h
  simp only [stretch, List.getElem_map, List.getElem_range', List.getElem_drop, Nat.one_mul]
  exact (List.getElem_eq_getD 0).symm

/-- Bytes taken from a place and filled up with zeros are a stretch. -/
theorem take_drop_append_replicate (bytes : List UInt8) (i n : Nat) :
    (bytes.drop i).take n ++ List.replicate (n - ((bytes.drop i).take n).length) 0 =
      stretch bytes i (i + n) := by
  refine List.ext_getElem ?_ fun k h₁ h₂ => ?_
  · rw [List.length_append, List.length_replicate, length_stretch, List.length_take]
    omega
  · rw [length_stretch] at h₂
    simp only [stretch, List.getElem_map, List.getElem_range', Nat.one_mul]
    by_cases hk : k < ((bytes.drop i).take n).length
    · rw [List.getElem_append_left hk, List.getElem_take, List.getElem_drop]
      exact List.getElem_eq_getD 0
    · rw [List.getElem_append_right (Nat.le_of_not_lt hk), List.getElem_replicate]
      rw [List.length_take, List.length_drop] at hk
      exact (List.getD_eq_default _ _ (by omega)).symm

end Stretches

/-! ## 2. What is to come -/

variable {s s' : Stream} {d : Directory} {bs bytes : List UInt8} {b : UInt8} {m : Mapping}

/-- What follows the bytes ahead of a stream that reads in blocks. -/
def inBlocks (s : Stream) (d : Directory) : List UInt8 :=
  if s.atEnd || !s.mode.readable then [] else (d.bytes s.target).drop s.position

/-- The bytes to come if it is known how the file is read. -/
def decidedBytes (s : Stream) (d : Directory) : List UInt8 :=
  match s.source with
  | .mapped m =>
    stretch (d.bytes s.target) m.cursor m.stop ++ (d.bytes s.target).drop (s.known.getD 0)
  | _ => s.ahead ++ s.inBlocks d

/-- The bytes that a stream has yet to give.  One of characters gives no more than are ahead. -/
def upcoming (s : Stream) (d : Directory) : List UInt8 :=
  if s.isWide then s.ahead else (s.decideSource d).decidedBytes d

/-- The stream is about to be read, and these are the bytes to come. -/
structure Has (s : Stream) (d : Directory) (bytes : List UInt8) : Prop where
  sound : s.Sound
  reading : s.writing = false
  /-- What is ahead of a stream that sees its file as memory is what the file has there. -/
  shown : ∀ m, s.source = .mapped m →
    s.ahead = stretch (d.bytes s.target) m.cursor (m.cursor + s.ahead.length) ∧
      (s.ahead = [] ∨ m.cursor + s.ahead.length ≤ m.stop)
  upcoming : s.upcoming d = bytes

theorem upcoming_of_wide (h : s.isWide = true) : s.upcoming d = s.ahead := by
  rw [Stream.upcoming, if_pos h]

theorem upcoming_of_blocks (hs : s.source = .blocks) (hw : s.isWide = false) :
    s.upcoming d = s.ahead ++ s.inBlocks d := by
  rw [Stream.upcoming, if_neg (by simp [hw]), decideSource_of_ne (by simp [hs]), decidedBytes, hs]

theorem upcoming_of_mapped (hs : s.source = .mapped m) (hw : s.isWide = false) :
    s.upcoming d = stretch (d.bytes s.target) m.cursor m.stop ++
      (d.bytes s.target).drop (s.known.getD 0) := by
  rw [Stream.upcoming, if_neg (by simp [hw]), decideSource_of_ne (by simp [hs]), decidedBytes, hs]

/-! ## 3. The next byte -/

/-- A byte ahead means that the end is not met, or does not matter. -/
theorem Has.forgetEnd (h : s.Has d bytes) (ha : s.ahead ≠ []) :
    { s with atEnd := false }.Has d bytes := by
  have hsound : { s with atEnd := false }.Sound :=
    ⟨h.sound.narrow, h.sound.file, h.sound.undecided, fun he _ _ => absurd he Bool.false_ne_true⟩
  refine ⟨hsound, h.reading, h.shown, Eq.trans ?_ h.upcoming⟩
  by_cases hw : s.isWide = true
  · rw [upcoming_of_wide hw]
    exact upcoming_of_wide hw
  · have hw : s.isWide = false := Bool.eq_false_iff.mpr hw
    rcases s.source_cases with hs | hs | ⟨m, hs⟩
    · have hend : s.atEnd = false :=
        Bool.eq_false_iff.mpr fun hend => ha (h.sound.ended hend hs hw)
      rw [← hend]
    · exact absurd (h.sound.undecided hs).2 ha
    · rw [upcoming_of_mapped hs hw]
      exact upcoming_of_mapped hs hw

/-- **What is ahead is the first of the bytes to come.** -/
theorem Has.past (h : s.Has d bytes) (ha : s.ahead = b :: bs) :
    ∃ rest, bytes = b :: rest ∧ (s.past b bs).Has d rest := by
  have hne : s.ahead ≠ [] := by simp [ha]
  have hsound := h.sound.past ha
  have hup := h.upcoming
  by_cases hw : s.isWide = true
  · rw [upcoming_of_wide hw, ha] at hup
    have ht : (s.past b bs).source = .blocks := hsound.source_of_wide hw
    exact ⟨bs, hup.symm, hsound, h.reading, fun m hm => by simp [ht] at hm, upcoming_of_wide hw⟩
  · have hw : s.isWide = false := Bool.eq_false_iff.mpr hw
    have hwt : (s.past b bs).isWide = false := hw
    rcases s.source_cases with hs | hs | ⟨m, hs⟩
    · have ht : (s.past b bs).source = .blocks := by simp [Stream.past, hs, moveCursor]
      rw [upcoming_of_blocks hs hw, ha, List.cons_append] at hup
      exact ⟨_, hup.symm, hsound, h.reading, fun m hm => by simp [ht] at hm,
        upcoming_of_blocks ht hwt⟩
    · exact absurd (h.sound.undecided hs).2 hne
    · obtain ⟨hahead, hstop⟩ := h.shown m hs
      have ht : (s.past b bs).source = .mapped { m with cursor := m.cursor + 1 } := by
        simp only [Stream.past, hs, moveCursor]
        rfl
      have hlt : m.cursor + bs.length < m.stop := by
        have := hstop.resolve_left hne
        rw [ha, List.length_cons] at this
        omega
      rw [ha, List.length_cons, stretch_cons (by omega), List.cons.injEq] at hahead
      rw [upcoming_of_mapped hs hw, stretch_cons (by omega), ← hahead.1, List.cons_append] at hup
      refine ⟨_, hup.symm, hsound, h.reading, ?_, upcoming_of_mapped ht hwt⟩
      intro m' hm'
      rw [ht, Source.mapped.injEq] at hm'
      subst hm'
      refine ⟨?_, .inr (by simp only [Stream.past]; omega)⟩
      simp only [Stream.past]
      rw [show m.cursor + 1 + bs.length = m.cursor + (bs.length + 1) by omega]
      exact hahead.2

/-! ## 4. More bytes ahead -/

theorem has_of_blocks (hs : s.source = .blocks) (hw : s.isWide = false) (hr : s.writing = false)
    (hend : s.atEnd = true → s.ahead = []) : s.Has d (s.ahead ++ s.inBlocks d) where
  sound := sound_of_blocks hs fun he _ => hend he
  reading := hr
  shown m hm := by simp [hs] at hm
  upcoming := upcoming_of_blocks hs hw

theorem has_of_mapped {name : FileName} (hs : s.source = .mapped m) (hw : s.isWide = false)
    (hr : s.writing = false) (htarget : s.target = .file name) (ha : s.ahead = []) :
    s.Has d (stretch (d.bytes s.target) m.cursor m.stop ++
      (d.bytes s.target).drop (s.known.getD 0)) where
  sound := sound_of_mapped hs hw htarget
  reading := hr
  shown m' _ := by
    rw [ha]
    exact ⟨(stretch_of_le (Nat.le_refl _)).symm, .inl rfl⟩
  upcoming := upcoming_of_mapped hs hw

theorem bytes_of_read?_none {t : Target} {i n : Nat} (h : d.read? t i n = none) :
    d.bytes t = [] := by
  cases t with
  | file name => cases h
  | directory => rfl

theorem toList_of_read? {t : Target} {i n : Nat} {r : Runs UInt8} (h : d.read? t i n = some r) :
    r.toList = ((d.bytes t).drop i).take n := by
  cases t with
  | file name =>
    cases h
    rw [Runs.toList_take, Runs.toList_drop]
    rfl
  | directory => cases h

/-- A block read from the file is the first of what follows, and there is none only at the end. -/
structure BlockRead (s : Stream) (d : Directory) (t : Stream) : Prop where
  source : t.source = s.source
  mode : t.mode = s.mode
  writing : t.writing = s.writing
  ended : t.atEnd = true → t.ahead = []
  bytes : t.ahead ++ t.inBlocks d = s.inBlocks d
  last : t.ahead = [] → s.inBlocks d = []

theorem blockRead (d : Directory) (ha : s.ahead = []) : BlockRead s d (s.readBlock d) := by
  unfold readBlock
  by_cases hend : s.atEnd = true
  · rw [if_pos hend]
    have hnil : s.inBlocks d = [] := by simp [inBlocks, hend]
    exact ⟨rfl, rfl, rfl, fun _ => ha, by rw [ha, List.nil_append], fun _ => hnil⟩
  rw [if_neg hend]
  by_cases hread : s.mode.readable = true
  · have hbytes : s.inBlocks d = (d.bytes s.target).drop s.position := by
      rw [inBlocks, if_neg (by simp [hend, hread])]
    rw [if_neg (by simp [hread])]
    cases hr : d.read? s.target s.position blockSize with
    | none =>
      have hnil : s.inBlocks d = [] := by rw [hbytes, bytes_of_read?_none hr, List.drop_nil]
      refine ⟨rfl, rfl, rfl, fun _ => rfl, ?_, fun _ => hnil⟩
      rw [hnil]
      exact hnil
    | some r =>
      have hlist := toList_of_read? hr
      by_cases hempty : r.isEmpty = true
      · have hnil : s.inBlocks d = [] := by
          rw [(Runs.isEmpty_iff r).mp hempty, eq_comm, List.take_eq_nil_iff] at hlist
          rw [hbytes]
          exact hlist.resolve_left (by decide)
        simp only [hempty, if_true]
        refine ⟨rfl, rfl, rfl, fun _ => rfl, ?_, fun _ => hnil⟩
        rw [hnil]
        simp [inBlocks]
      · have hne : r.toList ≠ [] := fun h => hempty ((Runs.isEmpty_iff r).mpr h)
        simp only [hempty, Bool.false_eq_true, if_false]
        refine ⟨rfl, rfl, rfl, fun he => absurd he hend, ?_, fun he => absurd he hne⟩
        have hsplit : s.inBlocks d = r.toList ++ (s.inBlocks d).drop blockSize := by
          rw [hlist, ← hbytes, List.take_append_drop]
        have hdrop : (d.bytes s.target).drop (s.position + r.length) =
            (s.inBlocks d).drop blockSize := by
          rw [← List.drop_drop, ← hbytes, ← Runs.length_toList]
          exact (congrArg _ hsplit).trans List.drop_left
        rw [inBlocks, if_neg (by simp [hend, hread]), hdrop]
        exact hsplit.symm
  · rw [if_pos (by simp [hread])]
    have hnil : s.inBlocks d = [] := by simp [inBlocks, hread]
    refine ⟨rfl, rfl, rfl, fun _ => ha, ?_, fun _ => hnil⟩
    rw [hnil]
    simp [inBlocks, hread, ha]

theorem Has.readBlock (h : s.Has d bytes) (hs : s.source = .blocks) (hw : s.isWide = false)
    (ha : s.ahead = []) :
    (s.readBlock d).Has d bytes ∧ ((s.readBlock d).ahead = [] → bytes = []) := by
  have hr := blockRead d ha
  have hbytes : s.inBlocks d = bytes := by rw [← h.upcoming, upcoming_of_blocks hs hw, ha]; rfl
  have hwide : (s.readBlock d).isWide = false := by rw [isWide, hr.mode]; exact hw
  have hhas := has_of_blocks (d := d) (hr.source.trans hs) hwide (hr.writing.trans h.reading) hr.ended
  rw [hr.bytes, hbytes] at hhas
  exact ⟨hhas, fun hnil => hbytes ▸ hr.last hnil⟩

/-- What is seen of a file as memory is a stretch of its bytes. -/
theorem toList_mappedBytes (s : Stream) (d : Directory) (m : Mapping) (n : Nat) :
    (s.mappedBytes d m n).toList =
      stretch (d.bytes s.target) m.cursor (m.cursor + min n (m.stop - m.cursor)) := by
  have hread : ((d.read? s.target m.cursor (min n (m.stop - m.cursor))).getD .empty).toList =
      ((d.bytes s.target).drop m.cursor).take (min n (m.stop - m.cursor)) := by
    cases hr : d.read? s.target m.cursor (min n (m.stop - m.cursor)) with
    | none => simp [bytes_of_read?_none hr]
    | some r => exact toList_of_read? hr
  simp only [mappedBytes, Runs.toList_append, Runs.toList_replicate]
  rw [← Runs.length_toList, hread]
  exact take_drop_append_replicate _ _ _

theorem Has.showBlock (h : s.Has d bytes) (hs : s.source = .mapped m) (hw : s.isWide = false)
    (hlt : m.cursor < m.stop) : (s.showBlock d m).Has d bytes ∧ (s.showBlock d m).ahead ≠ [] := by
  have hlist := s.toList_mappedBytes d m blockSize
  have hlen : (s.mappedBytes d m blockSize).toList.length = min blockSize (m.stop - m.cursor) := by
    rw [hlist, length_stretch, Nat.add_sub_cancel_left]
  have hpos : 0 < blockSize := by decide
  have hne : (s.showBlock d m).ahead ≠ [] := by
    refine List.ne_nil_of_length_pos ?_
    rw [Stream.showBlock, hlen]
    omega
  have hup := h.upcoming
  rw [upcoming_of_mapped hs hw] at hup
  refine ⟨⟨h.sound.remapped hs hs rfl rfl, h.reading, ?_, ?_⟩, hne⟩
  · intro m' hm'
    have hm : m' = m := Source.mapped.inj (hm'.symm.trans hs)
    subst hm
    simp only [Stream.showBlock]
    rw [hlen]
    exact ⟨hlist, .inr (by omega)⟩
  · exact (upcoming_of_mapped (s := s.showBlock d m) hs hw).trans hup

/-- How the file is read is decided without a change in what is to come. -/
theorem Has.decideSource (h : s.Has d bytes) (hw : s.isWide = false) (ha : s.ahead = []) :
    (s.decideSource d).Has d bytes ∧ (s.decideSource d).isWide = false ∧
      (s.decideSource d).ahead = [] ∧ (s.decideSource d).source ≠ .undecided := by
  by_cases hs : s.source = .undecided
  · have hup := h.upcoming
    rw [Stream.upcoming, if_neg (by simp [hw])] at hup
    rcases decideSource_cases (d := d) hs with hd | ⟨name, ht, hd⟩
    · rw [hd] at hup ⊢
      have hhas := has_of_blocks (s := { s with source := .blocks }) (d := d) rfl hw h.reading
        fun _ => ha
      exact ⟨hup ▸ hhas, hw, ha, by simp⟩
    · rw [hd] at hup ⊢
      have hhas := has_of_mapped (d := d) (s := { s with
        source := .mapped ⟨d.size s.target, s.known.getD 0, d.size s.target⟩
        position := d.size s.target
        known := some (d.size s.target) }) rfl hw h.reading ht ha
      exact ⟨hup ▸ hhas, hw, ha, by simp⟩
  · rw [decideSource_of_ne hs]
    exact ⟨h, hw, ha, hs⟩

/-- Where the stretch seen of a file is used up, the file is looked at again: it is read in blocks
from then on, or there is more of it to see, or nothing is to come. -/
theorem Has.lookAgain (h : s.Has d bytes) (hs : s.source = .mapped m) (hw : s.isWide = false)
    (ha : s.ahead = []) (hle : m.stop ≤ m.cursor) :
    (s.lookAgain d).Has d bytes ∧ (s.lookAgain d).isWide = false ∧ (s.lookAgain d).ahead = [] ∧
      ((s.lookAgain d).source = .blocks ∨ ∃ m', (s.lookAgain d).source = .mapped m' ∧
        (m'.stop ≤ m'.cursor → bytes = [])) := by
  obtain ⟨name, htarget⟩ := h.sound.file m hs
  have hsize : d.size s.target = (d.bytes s.target).length := by
    rw [htarget]
    exact (Runs.length_toList _).symm
  have hplace : s.known.getD 0 - (m.stop - m.cursor) = s.known.getD 0 := by omega
  have hbytes : bytes = (d.bytes s.target).drop (s.known.getD 0) := by
    rw [← h.upcoming, upcoming_of_mapped hs hw, stretch_of_le hle, List.nil_append]
  simp only [Stream.lookAgain, hs, hplace]
  by_cases hzero : d.size s.target = 0
  · rw [if_pos hzero]
    have hnil : d.bytes s.target = [] := List.eq_nil_of_length_eq_zero (hsize ▸ hzero)
    have hhas := has_of_blocks (s := { s with source := .blocks, behind := [], ahead := [] }) (d := d)
      rfl hw h.reading fun _ => rfl
    have hnone :
        ({ s with source := .blocks, behind := [], ahead := [] } : Stream).inBlocks d = [] := by
      rw [inBlocks, hnil, List.drop_nil, ite_self]
    rw [hnone] at hhas
    rw [hbytes, hnil, List.drop_nil]
    exact ⟨hhas, hw, rfl, .inl rfl⟩
  · rw [if_neg hzero]
    by_cases hlt : s.known.getD 0 < d.size s.target
    · rw [if_pos hlt]
      have hhas := has_of_mapped (d := d) (s := { s with
        source := .mapped ⟨d.size s.target, s.known.getD 0, d.size s.target⟩
        position := d.size s.target
        known := some (d.size s.target) }) rfl hw h.reading htarget ha
      simp only [Option.getD_some] at hhas
      rw [hsize, List.drop_length, List.append_nil, stretch_length, ← hbytes, ← hsize] at hhas
      exact ⟨hhas, hw, ha, .inr ⟨_, rfl, fun hge => absurd hlt (Nat.not_lt.mpr hge)⟩⟩
    · rw [if_neg hlt]
      have hhas := has_of_mapped (d := d) (s := { s with
        source := .mapped ⟨d.size s.target, d.size s.target, d.size s.target⟩
        known := some (s.known.getD 0) }) rfl hw h.reading htarget ha
      simp only [Option.getD_some] at hhas
      rw [stretch_of_le (Nat.le_refl _), List.nil_append, ← hbytes] at hhas
      refine ⟨hhas, hw, ha, .inr ⟨_, rfl, fun _ => ?_⟩⟩
      rw [hbytes]
      exact List.drop_of_length_le (hsize ▸ Nat.le_of_not_lt hlt)

/-- The end of a file seen as memory is not final. -/
theorem Has.meetEnd (h : s.Has d bytes) (hs : s.source = .mapped m) (hw : s.isWide = false) :
    { s with atEnd := true }.Has d bytes := by
  have hsound : { s with atEnd := true }.Sound := h.sound.remapped hs hs rfl rfl
  refine ⟨hsound, h.reading, h.shown, Eq.trans ?_ h.upcoming⟩
  rw [upcoming_of_mapped hs hw]
  exact upcoming_of_mapped hs hw

/-- **More bytes are put ahead unless none are to come.** -/
theorem Has.refill (h : s.Has d bytes) (ha : s.ahead = []) :
    (s.refill d).Has d bytes ∧ ((s.refill d).ahead = [] → bytes = []) := by
  unfold Stream.refill
  by_cases hw : s.isWide = true
  · rw [if_pos hw]
    refine ⟨h, fun _ => ?_⟩
    rw [← h.upcoming, upcoming_of_wide hw, ha]
  have hw : s.isWide = false := Bool.eq_false_iff.mpr hw
  rw [if_neg (by simp [hw])]
  obtain ⟨h₁, hw₁, ha₁, hne⟩ := h.decideSource hw ha
  rcases (s.decideSource d).source_cases with hs | hs | ⟨m, hs⟩
  · simp only [hs]
    exact h₁.readBlock hs hw₁ ha₁
  · exact absurd hs hne
  · simp only [hs]
    by_cases hlt : m.cursor < m.stop
    · rw [if_pos hlt]
      obtain ⟨hshow, hsome⟩ := h₁.showBlock hs hw₁ hlt
      exact ⟨hshow, fun hnil => absurd hnil hsome⟩
    · rw [if_neg hlt]
      obtain ⟨h₂, hw₂, ha₂, hcases⟩ := h₁.lookAgain hs hw₁ ha₁ (Nat.le_of_not_lt hlt)
      rcases hcases with hs₂ | ⟨m', hs₂, hlast⟩
      · simp only [hs₂]
        exact h₂.readBlock hs₂ hw₂ ha₂
      · simp only [hs₂]
        by_cases hlt' : m'.cursor < m'.stop
        · rw [if_pos hlt']
          obtain ⟨hshow, hsome⟩ := h₂.showBlock hs₂ hw₂ hlt'
          exact ⟨hshow, fun hnil => absurd hnil hsome⟩
        · rw [if_neg hlt']
          have h₃ := h₂.meetEnd hs₂ hw₂
          rw [hs₂] at h₃
          exact ⟨h₃, fun _ => hlast (Nat.le_of_not_lt hlt')⟩

theorem Has.supplied (h : s.Has d bytes) :
    (s.supplied d).Has d bytes ∧ ((s.supplied d).ahead = [] → bytes = []) := by
  unfold Stream.supplied
  by_cases ha : s.ahead = []
  · rw [if_pos (by simp [ha])]
    exact h.refill ha
  · rw [if_neg (by simp [ha])]
    exact ⟨h, fun hnil => absurd hnil ha⟩

/-- **After the last byte there is none, now or later.** -/
theorem Has.nextByte_nil (h : s.Has d []) : ∃ s', s.nextByte d = (none, s') ∧ s'.Has d [] := by
  obtain ⟨h₁, -⟩ := h.supplied
  cases ha : (s.supplied d).ahead with
  | nil =>
    exact ⟨s.supplied d, nextByte_of_nil ha, h₁⟩
  | cons b bs =>
    obtain ⟨rest, hcons, -⟩ := h₁.past ha
    cases hcons

/-- **The next byte is the first of those to come**, and given back it is the next one again. -/
theorem Has.nextByte_cons (h : s.Has d (b :: bytes)) : ∃ s', s.nextByte d = (some b, s') ∧
    s'.Has d bytes ∧ s'.unreadByte.Has d (b :: bytes) := by
  obtain ⟨h₁, hlast⟩ := h.supplied
  cases ha : (s.supplied d).ahead with
  | nil => cases hlast ha
  | cons c bs =>
    obtain ⟨rest, hcons, h₂⟩ := h₁.past ha
    cases hcons
    refine ⟨(s.supplied d).past b bs, nextByte_of_cons ha, h₂, ?_⟩
    rw [unreadByte_past ha]
    exact h₁.forgetEnd (by simp [ha])

/-! ## 5. How many there are -/

theorem length_bytes_le (d : Directory) (t : Target) : (d.bytes t).length ≤ d.size t := by
  cases t with
  | file name => exact Nat.le_of_eq (Runs.length_toList _)
  | directory => exact Nat.zero_le _

theorem length_inBlocks_le (s : Stream) (d : Directory) :
    (s.inBlocks d).length ≤ d.size s.target := by
  have hle := length_bytes_le d s.target
  unfold inBlocks
  split
  · exact Nat.zero_le _
  · rw [List.length_drop]
    omega

/-- **The bound on the bytes left is one.** -/
theorem Has.length_le (h : s.Has d bytes) : bytes.length ≤ s.left d := by
  have hsize := length_bytes_le d s.target
  have hblocks := s.length_inBlocks_le d
  rw [← h.upcoming]
  by_cases hw : s.isWide = true
  · rw [upcoming_of_wide hw]
    unfold left
    dsimp only
    omega
  have hw : s.isWide = false := Bool.eq_false_iff.mpr hw
  rcases s.source_cases with hs | hs | ⟨m, hs⟩
  · rw [upcoming_of_blocks hs hw, List.length_append, left, hs]
    dsimp only
    omega
  · rw [Stream.upcoming, if_neg (by simp [hw])]
    rcases decideSource_cases (d := d) hs with hd | ⟨name, ht, hd⟩
    · rw [hd, decidedBytes, List.length_append, left, hs]
      have : ({ s with source := .blocks } : Stream).inBlocks d = s.inBlocks d := rfl
      rw [this]
      dsimp only
      omega
    · rw [hd, decidedBytes, List.length_append, length_stretch, List.length_drop, left, hs]
      simp only [Option.getD_some]
      omega
  · rw [upcoming_of_mapped hs hw, List.length_append, length_stretch, List.length_drop, left, hs]
    dsimp only
    omega

/-! ## 6. Between operations -/

/-- A stream that is not writing has bytes to come, if only none, unless its block is one that the
file may have lost. -/
theorem Sound.has (h : s.Sound) (hr : s.writing = false)
    (hhidden : ∀ m, s.source = .mapped m → s.ahead = []) (d : Directory) :
    s.Has d (s.upcoming d) := by
  refine ⟨h, hr, fun m hm => ?_, rfl⟩
  rw [hhidden m hm]
  exact ⟨(stretch_of_le (Nat.le_refl _)).symm, .inl rfl⟩

theorem ahead_hideBlock (hs : s.hideBlock.source = .mapped m) : s.hideBlock.ahead = [] := by
  by_cases hmapped : ∃ m, s.source = .mapped m
  · obtain ⟨m, hm⟩ := hmapped
    rw [hideBlock_of_mapped hm]
  · rw [hideBlock_of_ne (not_exists.mp hmapped)] at hs
    exact absurd ⟨m, hs⟩ hmapped

/-- The block of a file seen as memory may be hidden: it is shown anew as it was. -/
theorem Has.hideBlock (h : s.Has d bytes) : s.hideBlock.Has d bytes := by
  by_cases hs : ∃ m, s.source = .mapped m
  · obtain ⟨m, hs⟩ := hs
    obtain ⟨name, ht⟩ := h.sound.file m hs
    have hw := h.sound.narrow (by simp [hs])
    have hup := h.upcoming
    rw [upcoming_of_mapped hs hw] at hup
    rw [hideBlock_of_mapped hs, ← hup]
    exact has_of_mapped (s := { s with behind := [], ahead := [] }) hs hw h.reading ht rfl
  · rw [hideBlock_of_ne (not_exists.mp hs)]
    exact h

/-- **A sound stream has bytes to come as soon as it can turn to reading**, which it can unless the
file does not take what is pending. -/
theorem Sound.has_of_ready (h : s.Sound) (hready : (s.hideBlock.stopWriting d).1 = true) :
    (s.hideBlock.stopWriting d).2.1.Has (s.hideBlock.stopWriting d).2.2
      ((s.hideBlock.stopWriting d).2.1.upcoming (s.hideBlock.stopWriting d).2.2) := by
  refine (h.hideBlock.stopWriting d).has (writing_stopWriting hready) (fun m hm => ?_) _
  rw [source_stopWriting] at hm
  exact ahead_stopWriting (ahead_hideBlock hm) d

/-- **The bytes to come of a stream opened for reading are those of the file.** -/
theorem upcoming_fresh (d : Directory) (name : FileName) {mode : OpenMode}
    (hread : mode.readable = true) (henc : mode.encoding = .unnamed) :
    (fresh d (.file name) mode).upcoming d = d.bytes (.file name) := by
  have hw : (fresh d (.file name) mode).isWide = false := by simp [isWide, fresh, henc]
  have hblocks : (fresh d (.file name) mode).inBlocks d = d.bytes (.file name) := by
    simp [inBlocks, fresh, hread]
  rcases (fresh d (.file name) mode).source_cases with hs | hs | ⟨m, hs⟩
  · rw [upcoming_of_blocks hs hw]
    exact hblocks
  · rw [Stream.upcoming, if_neg (by simp [hw])]
    rcases decideSource_cases (d := d) hs with hd | ⟨-, -, hd⟩
    · rw [hd]
      exact hblocks
    · have hsize : d.size (.file name) = (d.bytes (.file name)).length :=
        (Runs.length_toList _).symm
      rw [hd, decidedBytes]
      change stretch (d.bytes (.file name)) 0 (d.size (.file name)) ++
        (d.bytes (.file name)).drop (d.size (.file name)) = _
      rw [hsize, stretch_length, List.drop_length, List.append_nil, List.drop_zero]
  · exact absurd hs (source_fresh_ne _ _ _ m)

end Stream

end CheckedMemory
