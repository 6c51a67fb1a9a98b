import CheckedMemory.Proofs.Guarded

/-!
# What is so of every open stream

A stream may be reading, writing or neither, in blocks or from a file seen as memory, and most of
what its record could say it never says.  `Stream.Sound` is the part of that which matters to
reading.  A stream is opened sound, each operation on streams keeps it sound, and so it is sound
whenever it is read (`Streams.keepsStreams`).

There is one lemma for each function on streams, in the order in which they are built on each other.
Most of them only need to know that a block was dropped (`Stream.Sound.emptied`) or that a file is
still seen as memory (`Stream.Sound.remapped`).
-/

namespace CheckedMemory

open Operation

/-! ## 1. What a scan keeps -/

/-- What is so of a source stays so when it gives a byte or takes one back. -/
structure ByteSource.Preserves {σ : Type} (source : ByteSource σ) (P : σ → Prop) : Prop where
  next : ∀ {s}, P s → P (source.next s).2
  giveBack : ∀ {b s}, P s → P (source.giveBack b s)

namespace ByteSource.Preserves

variable {σ : Type} {source : ByteSource σ} {P : σ → Prop} {s : σ}

theorem skipBlanks (h : source.Preserves P) (hs : P s) (n : Nat) :
    P (source.skipBlanks n s).2 := by
  induction n generalizing s with
  | zero => exact hs
  | succ n ih =>
    have hnext := h.next hs
    unfold ByteSource.skipBlanks
    generalize source.next s = r at hnext ⊢
    obtain ⟨b?, t⟩ := r
    cases b? with
    | none => exact hnext
    | some b =>
      dsimp only
      split
      · exact ih hnext
      · exact hnext

theorem takeWord (h : source.Preserves P) (hs : P s) (limit : Nat) (got : List UInt8)
    (b? : Option UInt8) : P (source.takeWord limit got b? s).2 := by
  induction limit generalizing s got b? with
  | zero =>
    cases b? with
    | none => exact hs
    | some b => exact h.giveBack hs
  | succ limit ih =>
    cases b? with
    | none => exact hs
    | some b =>
      unfold ByteSource.takeWord
      split
      · exact h.giveBack hs
      · exact ih (h.next hs) _ _

theorem scanWord (h : source.Preserves P) (hs : P s) (most limit : Nat) :
    P (source.scanWord most limit s).2 := by
  have hskip := h.skipBlanks hs (most + 1)
  unfold ByteSource.scanWord
  generalize source.skipBlanks (most + 1) s = r at hskip ⊢
  obtain ⟨b?, t⟩ := r
  cases b? with
  | none => exact hskip
  | some b => exact h.takeWord hskip limit [] (some b)

end ByteSource.Preserves

namespace Stream

variable {s t : Stream} {d : Directory} {m : Mapping} {b : UInt8} {bs : List UInt8} {n : Nat}

/-! ## 2. What keeps a stream sound -/

theorem source_cases (s : Stream) :
    s.source = .blocks ∨ s.source = .undecided ∨ ∃ m, s.source = .mapped m := by
  cases s.source with
  | blocks => exact .inl rfl
  | undecided => exact .inr (.inl rfl)
  | mapped m => exact .inr (.inr ⟨m, rfl⟩)

theorem decideSource_of_ne (h : s.source ≠ .undecided) : s.decideSource d = s := by
  unfold decideSource
  split
  · contradiction
  · contradiction
  · rfl

theorem decideSource_cases (hs : s.source = .undecided) :
    s.decideSource d = { s with source := .blocks } ∨ ∃ name, s.target = .file name ∧
      s.decideSource d = { s with
        source := .mapped ⟨d.size s.target, s.known.getD 0, d.size s.target⟩
        position := d.size s.target
        known := some (d.size s.target) } := by
  cases ht : s.target with
  | directory => exact .inl (by simp only [Stream.decideSource, hs, ht])
  | file name =>
    simp only [Stream.decideSource, hs, ht]
    split
    · exact .inl rfl
    · exact .inr ⟨name, rfl, rfl⟩

theorem hideBlock_of_mapped (hs : s.source = .mapped m) :
    s.hideBlock = { s with behind := [], ahead := [] } := by
  unfold hideBlock
  split
  · rfl
  · rename_i hne
    exact absurd hs (hne m)

theorem hideBlock_of_ne (h : ∀ m, s.source ≠ .mapped m) : s.hideBlock = s := by
  unfold hideBlock
  split
  · rename_i hs
    exact absurd hs (h _)
  · rfl

/-- What is so of every stream: only bytes are read as memory, and only from files; nothing is read
before it is decided how; and once the end is met there is nothing ahead, except of memory, where
the end is looked for again. -/
structure Sound (s : Stream) : Prop where
  narrow : s.source ≠ .blocks → s.isWide = false
  file : ∀ m, s.source = .mapped m → ∃ name, s.target = .file name
  undecided : s.source = .undecided → s.behind = [] ∧ s.ahead = []
  ended : s.atEnd = true → s.source = .blocks → s.isWide = false → s.ahead = []

theorem sound_of_blocks (hs : s.source = .blocks)
    (hend : s.atEnd = true → s.isWide = false → s.ahead = []) : s.Sound where
  narrow h := absurd hs h
  file m hm := by simp [hs] at hm
  undecided hm := by simp [hs] at hm
  ended he _ hw := hend he hw

theorem sound_of_mapped {name : FileName} (hs : s.source = .mapped m) (hw : s.isWide = false)
    (ht : s.target = .file name) : s.Sound where
  narrow _ := hw
  file _ _ := ⟨name, ht⟩
  undecided hm := by simp [hs] at hm
  ended _ hm := by simp [hs] at hm

/-- How much of its file a stream sees as memory, and where it is, does not matter. -/
theorem Sound.remapped {m' : Mapping} (h : s.Sound) (hs : s.source = .mapped m)
    (ht : t.source = .mapped m') (hmode : t.mode = s.mode) (htarget : t.target = s.target) :
    t.Sound := by
  obtain ⟨name, hfile⟩ := h.file m hs
  refine sound_of_mapped ht ?_ (htarget.trans hfile)
  rw [isWide, hmode]
  exact h.narrow (by simp [hs])

theorem Sound.moved {k : Int} (h : s.Sound) (hs : s.source = .mapped m)
    (ht : t.source = moveCursor s.source k) (hmode : t.mode = s.mode)
    (htarget : t.target = s.target) : t.Sound := by
  rw [hs] at ht
  exact h.remapped hs ht hmode htarget

/-- A stream of characters is one in blocks. -/
theorem Sound.source_of_wide (h : s.Sound) (hw : s.isWide = true) : s.source = .blocks := by
  refine Classical.byContradiction fun hs => ?_
  rw [h.narrow hs] at hw
  cases hw

/-- Without a block there is little to say. -/
theorem Sound.emptied (h : s.Sound) (hsource : t.source = s.source) (hmode : t.mode = s.mode)
    (htarget : t.target = s.target) (hbehind : s.source = .undecided → t.behind = [])
    (hahead : t.ahead = []) : t.Sound where
  narrow hne := by
    rw [isWide, hmode]
    exact h.narrow (hsource ▸ hne)
  file m hm := htarget ▸ h.file m (hsource ▸ hm)
  undecided hu := ⟨hbehind (hsource ▸ hu), hahead⟩
  ended _ _ _ := hahead

theorem Sound.hideBlock (h : s.Sound) : s.hideBlock.Sound := by
  by_cases hs : ∃ m, s.source = .mapped m
  · obtain ⟨m, hs⟩ := hs
    rw [hideBlock_of_mapped hs]
    exact h.emptied rfl rfl rfl (fun _ => rfl) rfl
  · rw [hideBlock_of_ne (not_exists.mp hs)]
    exact h

/-! ## 3. Writing -/

theorem Sound.writeOut (h : s.Sound) (d : Directory) (bytes : Runs UInt8) :
    (s.writeOut d bytes).2.1.Sound :=
  h.emptied rfl rfl rfl (fun _ => rfl) rfl

theorem Sound.writePending (h : s.Sound) (d : Directory) : (s.writePending d).2.1.Sound := by
  unfold Stream.writePending
  split
  · exact h
  · exact h.writeOut d _

theorem Sound.startWriting (h : s.Sound) : s.startWriting.Sound := by
  unfold Stream.startWriting
  split
  · exact h
  · exact ⟨h.narrow, h.file, fun hu => ⟨by simp [h.undecided hu], (h.undecided hu).2⟩, h.ended⟩

theorem Sound.stopWriting (h : s.Sound) (d : Directory) : (s.stopWriting d).2.1.Sound := by
  have hdone := h.writePending d
  unfold Stream.stopWriting
  split
  · dsimp only
    split
    · exact ⟨hdone.narrow, hdone.file, hdone.undecided, hdone.ended⟩
    · exact hdone
  · exact h

theorem source_stopWriting (s : Stream) (d : Directory) :
    (s.stopWriting d).2.1.source = s.source := by
  have hdone : (s.writePending d).2.1.source = s.source := by
    unfold Stream.writePending
    split
    · rfl
    · rfl
  unfold Stream.stopWriting
  split
  · dsimp only
    split
    · exact hdone
    · exact hdone
  · rfl

theorem ahead_stopWriting (ha : s.ahead = []) (d : Directory) :
    (s.stopWriting d).2.1.ahead = [] := by
  have hdone : (s.writePending d).2.1.ahead = [] := by
    unfold Stream.writePending
    split
    · exact ha
    · rfl
  unfold Stream.stopWriting
  split
  · dsimp only
    split
    · exact hdone
    · exact hdone
  · exact ha

theorem writing_stopWriting (hready : (s.stopWriting d).1 = true) :
    (s.stopWriting d).2.1.writing = false := by
  unfold Stream.stopWriting at hready ⊢
  by_cases hw : s.writing = true
  · rw [if_pos hw] at hready ⊢
    dsimp only at hready ⊢
    rw [if_pos hready]
  · rw [if_neg hw]
    exact Bool.eq_false_iff.mpr hw

theorem Sound.hold (h : s.Sound) (d : Directory) (bytes : List UInt8) :
    (s.hold d bytes).2.1.Sound := by
  unfold Stream.hold
  split
  · have hout := h.writeOut d (.ofList (bytes.take s.room))
    dsimp only
    split
    · exact hout
    · exact ⟨hout.narrow, hout.file, hout.undecided, hout.ended⟩
  · exact ⟨h.narrow, h.file, h.undecided, h.ended⟩

theorem Sound.gather (h : s.Sound) (d : Directory) (bytes : Runs UInt8) :
    (s.gather d bytes).2.1.Sound := by
  have h₁ : { s with pending := s.pending ++ (bytes.take s.room).toList }.Sound :=
    ⟨h.narrow, h.file, h.undecided, h.ended⟩
  have h₂ := h₁.startWriting.writePending d
  unfold Stream.gather
  dsimp only
  split
  · exact h₁
  · split
    · exact h₂
    · split
      · split
        · exact h₂
        · exact h₂.hold _ _
      · split
        · exact h₂.writeOut _ _
        · exact (h₂.writeOut _ _).hold _ _

theorem Sound.write (h : s.Sound) (d : Directory) (bytes : Runs UInt8) :
    (s.write d bytes).2.1.Sound := by
  unfold Stream.write
  split
  · exact h
  · split
    · exact ⟨h.narrow, h.file, h.undecided, h.ended⟩
    · exact h.gather d bytes

/-! ## 4. Reading -/

theorem Sound.decideSource (h : s.Sound) (d : Directory) : (s.decideSource d).Sound := by
  by_cases hs : s.source = .undecided
  · rcases decideSource_cases (d := d) hs with hd | ⟨name, ht, hd⟩
    · rw [hd]
      exact sound_of_blocks rfl fun _ _ => (h.undecided hs).2
    · rw [hd]
      exact sound_of_mapped rfl (h.narrow (by simp [hs])) ht
  · rw [decideSource_of_ne hs]
    exact h

theorem Sound.lookAgain (h : s.Sound) (d : Directory) : (s.lookAgain d).Sound := by
  unfold Stream.lookAgain
  split
  · rename_i m hs
    dsimp only
    split
    · exact sound_of_blocks rfl fun _ _ => rfl
    · split
      · exact h.remapped hs rfl rfl rfl
      · exact h.remapped hs rfl rfl rfl
  · exact h

theorem sound_readBlock (hs : s.source = .blocks) (ha : s.ahead = []) (d : Directory) :
    (s.readBlock d).Sound := by
  unfold Stream.readBlock
  split
  · exact sound_of_blocks hs fun _ _ => ha
  · rename_i hend
    split
    · exact sound_of_blocks hs fun _ _ => ha
    · split
      · exact sound_of_blocks hs fun _ _ => rfl
      · split
        · exact sound_of_blocks hs fun _ _ => rfl
        · exact sound_of_blocks hs fun he => absurd he hend

theorem ahead_decideSource (s : Stream) (d : Directory) : (s.decideSource d).ahead = s.ahead := by
  by_cases hs : s.source = .undecided
  · rcases decideSource_cases (d := d) hs with hd | ⟨name, -, hd⟩
    · rw [hd]
    · rw [hd]
  · rw [decideSource_of_ne hs]

theorem source_decideSource_ne (s : Stream) (d : Directory) :
    (s.decideSource d).source ≠ .undecided := by
  by_cases hs : s.source = .undecided
  · rcases decideSource_cases (d := d) hs with hd | ⟨name, -, hd⟩
    · simp [hd]
    · simp [hd]
  · rw [decideSource_of_ne hs]
    exact hs

/-- A look at the end shows nothing, and decides anew only to read in blocks. -/
theorem lookAgain_cases (hs : s.source = .mapped m) (ha : s.ahead = []) (d : Directory) :
    (s.lookAgain d).ahead = [] ∧
      ((s.lookAgain d).source = .blocks ∨ ∃ m', (s.lookAgain d).source = .mapped m') := by
  simp only [Stream.lookAgain, hs]
  split
  · exact ⟨rfl, .inl rfl⟩
  · split
    · exact ⟨ha, .inr ⟨_, rfl⟩⟩
    · exact ⟨ha, .inr ⟨_, rfl⟩⟩

theorem Sound.refill (h : s.Sound) (ha : s.ahead = []) (d : Directory) : (s.refill d).Sound := by
  unfold Stream.refill
  split
  · exact h
  have h₁ := h.decideSource d
  have ha₁ := (s.ahead_decideSource d).trans ha
  rcases (s.decideSource d).source_cases with hs | hs | ⟨m, hs⟩
  · simp only [hs]
    exact sound_readBlock hs ha₁ d
  · exact absurd hs (s.source_decideSource_ne d)
  · simp only [hs]
    split
    · exact h₁.remapped hs hs rfl rfl
    · have h₂ := h₁.lookAgain d
      obtain ⟨ha₂, hs₂ | ⟨m', hs₂⟩⟩ := lookAgain_cases hs ha₁ d
      · simp only [hs₂]
        exact sound_readBlock hs₂ ha₂ d
      · simp only [hs₂]
        split
        · exact h₂.remapped hs₂ hs₂ rfl rfl
        · exact h₂.remapped hs₂ rfl rfl rfl

theorem moveCursor_back (source : Source) : moveCursor (moveCursor source 1) (-1) = source := by
  cases source with
  | blocks | undecided => rfl
  | mapped m =>
    have hback : (((m.cursor + 1 : Int).toNat : Int) + (-1)).toNat = m.cursor := by omega
    simp only [moveCursor, hback]

/-- The stream after it gave out the first of the bytes ahead. -/
def past (s : Stream) (b : UInt8) (bs : List UInt8) : Stream :=
  { s with behind := b :: s.behind, ahead := bs, source := moveCursor s.source 1 }

/-- Taken back, all is as before, but that the end is not met. -/
theorem unreadByte_past (ha : s.ahead = b :: bs) :
    (s.past b bs).unreadByte = { s with atEnd := false } := by
  simp only [past, unreadByte, moveCursor_back, ← ha]

/-- Where the next byte is taken from: what is ahead, or more of the file if nothing is. -/
def supplied (s : Stream) (d : Directory) : Stream := if s.ahead.isEmpty then s.refill d else s

theorem nextByte_of_nil (ha : (s.supplied d).ahead = []) : s.nextByte d = (none, s.supplied d) := by
  unfold Stream.supplied at ha ⊢
  simp only [nextByte, ha]

theorem nextByte_of_cons (ha : (s.supplied d).ahead = b :: bs) :
    s.nextByte d = (some b, (s.supplied d).past b bs) := by
  unfold Stream.supplied at ha ⊢
  simp only [nextByte, ha, Stream.past]

theorem Sound.supplied (h : s.Sound) (d : Directory) : (s.supplied d).Sound := by
  unfold Stream.supplied
  split
  · rename_i ha
    exact h.refill (List.isEmpty_iff.mp ha) d
  · exact h

theorem Sound.past (h : s.Sound) (ha : s.ahead = b :: bs) : (s.past b bs).Sound := by
  rcases s.source_cases with hs | hs | ⟨m, hs⟩
  · refine sound_of_blocks (by simp [Stream.past, hs, moveCursor]) fun hend hw => ?_
    exact absurd (ha.symm.trans (h.ended hend hs hw)) (by simp)
  · exact absurd (ha.symm.trans (h.undecided hs).2) (by simp)
  · exact h.moved hs rfl rfl rfl

theorem Sound.nextByte (h : s.Sound) (d : Directory) : (s.nextByte d).2.Sound := by
  cases ha : (s.supplied d).ahead with
  | nil =>
    rw [nextByte_of_nil ha]
    exact h.supplied d
  | cons b bs =>
    rw [nextByte_of_cons ha]
    exact (h.supplied d).past ha

theorem Sound.unreadByte (h : s.Sound) : s.unreadByte.Sound := by
  unfold Stream.unreadByte
  split
  · exact h
  · rename_i b bs hb
    rcases s.source_cases with hs | hs | ⟨m, hs⟩
    · exact sound_of_blocks (by simp [hs, moveCursor]) fun hend => by cases hend
    · rw [(h.undecided hs).1] at hb
      cases hb
    · exact h.moved hs rfl rfl rfl

theorem Sound.readUntil (h : s.Sound) (p : UInt8 → Bool) (d : Directory) (n : Nat) :
    (s.readUntil p d n).2.Sound := by
  have hgo : ∀ n got s, Sound s → (readUntil.go p d n got s).2.Sound := by
    intro n
    induction n with
    | zero => exact fun _ _ h => h
    | succ n ih =>
      intro got s h
      have hnext := h.nextByte d
      unfold readUntil.go
      generalize s.nextByte d = r at hnext ⊢
      obtain ⟨b?, t⟩ := r
      cases b? with
      | none => exact hnext
      | some b =>
        dsimp only
        split
        · exact hnext
        · exact ih _ _ hnext
  exact hgo n [] s h

theorem Sound.readByte (h : s.Sound) (d : Directory) : (s.readByte d).2.1.Sound := by
  have hstop := h.stopWriting d
  unfold Stream.readByte
  dsimp only
  split
  · exact hstop
  · exact hstop.nextByte _

theorem Sound.readLine (h : s.Sound) (d : Directory) (n : Nat) : (s.readLine d n).2.1.Sound := by
  have hstop := h.stopWriting d
  unfold Stream.readLine
  dsimp only
  split
  · exact h
  · split
    · exact hstop
    · exact hstop.readUntil _ _ _

theorem Sound.readBlocks (h : s.Sound) (d : Directory) (n : Nat) :
    (s.readBlocks d n).2.1.Sound := by
  fun_induction Stream.readBlocks s d n with
  | case1 s => exact h
  | case2 s n _ _ done t e hstop =>
    have ht := h.stopWriting d
    rw [hstop] at ht
    exact ht
  | case3 s n _ _ done t e hstop _ line u hread =>
    have ht := h.stopWriting d
    rw [hstop] at ht
    have hu := ht.readUntil (fun _ => false) e n
    rw [hread] at hu
    exact hu
  | case4 s => exact h.emptied rfl rfl rfl (fun _ => rfl) rfl
  | case5 s => exact h.emptied rfl rfl rfl (fun _ => rfl) rfl
  | case6 s n _ _ found t bytes _ _ u more v e hmore ih =>
    have hv := ih (h.emptied rfl rfl rfl (fun _ => rfl) rfl)
    rw [hmore] at hv
    exact hv

theorem Sound.advance (h : s.Sound) (n : Nat) : (s.advance n).Sound where
  narrow := h.narrow
  file := h.file
  undecided hu := by
    obtain ⟨hb, ha⟩ := h.undecided hu
    simp [Stream.advance, hb, ha]
  ended hend hs hw := by simp [Stream.advance, h.ended hend hs hw]

theorem Sound.readThrough (h : s.Sound) (d : Directory) (n : Nat) :
    (s.readThrough d n).2.1.Sound :=
  (h.advance _).readBlocks d _

theorem Sound.readMapped? (h : s.Sound) (d : Directory) (n : Nat) :
    (s.readMapped? d n).2.Sound := by
  have h₁ := h.decideSource d
  unfold Stream.readMapped?
  generalize s.decideSource d = t at h₁ ⊢
  have h₂ : (if t.isShortOf n then t.lookAgain d else t).Sound := by
    split
    · exact h₁.lookAgain d
    · exact h₁
  dsimp only
  generalize (if t.isShortOf n then t.lookAgain d else t) = u at h₂ ⊢
  split
  · rename_i m hs
    exact h₂.moved hs rfl rfl rfl
  · exact h₂

theorem Sound.read (h : s.Sound) (d : Directory) (n : Nat) : (s.read d n).2.1.Sound := by
  have hmapped := h.readMapped? d n
  unfold Stream.read
  split
  · exact h
  · generalize s.readMapped? d n = r at hmapped ⊢
    obtain ⟨bytes?, t⟩ := r
    cases bytes? with
    | some bytes => exact hmapped
    | none => exact Sound.readThrough hmapped d n

theorem sound_byteSource (d : Directory) : (byteSource d).Preserves Sound where
  next h := h.nextByte d
  giveBack h := h.unreadByte

theorem Sound.readWord (h : s.Sound) (d : Directory) (limit : Nat) :
    (s.readWord d limit).2.1.Sound := by
  have hstop := h.stopWriting d
  unfold Stream.readWord
  generalize s.stopWriting d = r at hstop ⊢
  obtain ⟨ready, t, e⟩ := r
  cases ready with
  | true => exact (sound_byteSource e).scanWord hstop _ limit
  | false => exact hstop

/-! ## 5. Positions -/

theorem Sound.flush (h : s.Sound) (d : Directory) : (s.flush d).2.1.Sound := by
  have hdone := h.writePending d
  unfold Stream.flush
  split
  · rename_i m hs
    exact h.remapped hs rfl rfl rfl
  · dsimp only
    split
    · exact hdone
    · split
      · exact ⟨hdone.narrow, hdone.file, hdone.undecided, hdone.ended⟩
      · exact hdone.emptied rfl rfl rfl (fun hu => (hdone.undecided hu).1) rfl

theorem Sound.tell (h : s.Sound) (d : Directory) : (s.tell d).2.Sound := by
  have hsame : ∀ (i : Nat) (k : Option Nat), { s with position := i, known := k }.Sound :=
    fun _ _ => ⟨h.narrow, h.file, h.undecided, h.ended⟩
  unfold Stream.tell
  dsimp only
  split
  · exact hsame _ _
  · exact h
  · split
    · exact h
    · split
      · exact hsame _ _
      · exact h

theorem Sound.jump (h : s.Sound) (target : Int) : (s.jump target).2.Sound := by
  unfold Stream.jump
  split
  · exact h.emptied rfl rfl rfl (fun _ => rfl) rfl
  · exact h

theorem Sound.takeCharacters (h : s.Sound) (target : Nat) : (s.takeCharacters target).2.Sound := by
  have hsame : { s with failed := true }.Sound := ⟨h.narrow, h.file, h.undecided, h.ended⟩
  unfold Stream.takeCharacters
  split
  · split
    · exact ⟨h.narrow, h.file, h.undecided, h.ended⟩
    · exact hsame.jump _
  · exact h

theorem Sound.turnToCharacters (h : s.Sound) : s.turnToCharacters.Sound := by
  unfold Stream.turnToCharacters
  split
  · rename_i henc
    have hw : s.isWide = true := by simp [isWide, henc]
    exact sound_of_blocks (h.source_of_wide hw) fun _ hn => absurd (hw.symm.trans hn) (by simp)
  · exact h

theorem source_turnToCharacters (s : Stream) : s.turnToCharacters.source = s.source := by
  unfold Stream.turnToCharacters
  split
  · rfl
  · rfl

/-- Where the end is not met, a stream that reads in blocks may have any block. -/
theorem sound_of_not_atEnd (hs : s.source = .blocks) (hend : s.atEnd = false) : s.Sound :=
  sound_of_blocks hs fun he => absurd (hend.symm.trans he) Bool.false_ne_true

theorem sound_moveInBlock (hs : s.source = .blocks) (first target : Nat) :
    (s.moveInBlock first target).2.Sound := by
  unfold Stream.moveInBlock
  dsimp only
  split
  · refine Sound.takeCharacters (sound_of_not_atEnd ?_ rfl) _
    exact hs
  · exact sound_of_not_atEnd hs rfl

theorem sound_takeBlock (hs : s.source = .blocks) (h : s.Sound) (d : Directory) (narrow : Bool)
    (target : Nat) : (s.takeBlock d narrow target).2.Sound := by
  have hsame : ∀ i : Nat, { s with position := i }.Sound :=
    fun _ => ⟨h.narrow, h.file, h.undecided, h.ended⟩
  unfold Stream.takeBlock
  extract_lets inside first count block
  split
  · exact h
  · split
    · exact (hsame first).jump _
    · refine Sound.takeCharacters (sound_of_not_atEnd ?_ rfl) _
      exact hs

theorem sound_moveTo (hs : s.source = .blocks) (h : s.Sound) (d : Directory) (narrow : Bool)
    (target : Int64) : (s.moveTo d narrow target).2.Sound := by
  unfold Stream.moveTo
  dsimp only
  split
  · exact h
  · split
    · exact sound_moveInBlock hs _ _
    · split
      · exact sound_takeBlock hs h d narrow _
      · exact h.jump _

theorem sound_seekBlocks (hs : s.source = .blocks) (h : s.Sound) (d : Directory) (offset : Int64)
    (origin : Origin) : (s.seekBlocks d offset origin).2.1.Sound := by
  have hstop := h.stopWriting d
  have hsource := (s.source_stopWriting d).trans hs
  unfold Stream.seekBlocks
  dsimp only
  split
  · exact hstop
  · cases origin with
    | start => exact sound_moveTo hsource hstop _ _ _
    | current =>
      have hturn := hstop.turnToCharacters
      have hsource' := (source_turnToCharacters _).trans hsource
      dsimp only
      split
      · exact sound_moveTo hsource' hturn _ _ _
      · exact hturn.jump _
    | finish => exact sound_moveTo hsource hstop _ _ _

theorem Sound.seekUndecided (h : s.Sound) (d : Directory) (offset : Int64) (origin : Origin) :
    (s.seekUndecided d offset origin).2.Sound := by
  unfold Stream.seekUndecided
  extract_lets base target
  split
  · exact ⟨h.narrow, h.file, h.undecided, h.ended⟩
  · exact h

theorem Sound.seekMapped (h : s.Sound) (hs : s.source = .mapped m) (offset : Int64)
    (origin : Origin) : (s.seekMapped m offset origin).2.Sound := by
  unfold Stream.seekMapped
  extract_lets base target place
  split
  · exact h.remapped hs rfl rfl rfl
  · exact h

theorem Sound.seek (h : s.Sound) (d : Directory) (offset : Int64) (origin : Origin) :
    (s.seek d offset origin).2.1.Sound := by
  unfold Stream.seek
  dsimp only
  split
  · rename_i hs
    exact sound_seekBlocks hs h d offset origin
  · exact h.seekUndecided d offset origin
  · rename_i m hs
    exact h.seekMapped hs offset origin

/-! ## 6. All open streams -/

/-- No stream is opened in the midst of a file. -/
theorem source_fresh_ne (d : Directory) (t : Target) (mode : OpenMode) (m : Mapping) :
    (fresh d t mode).source ≠ .mapped m := by
  simp only [fresh]
  split <;> simp

/-- A stream is opened sound. -/
theorem sound_fresh (d : Directory) (t : Target) (mode : OpenMode) : (fresh d t mode).Sound where
  narrow h := by
    simp only [fresh] at h
    split at h
    · rename_i hmaps
      simp only [Bool.and_eq_true, decide_eq_true_eq] at hmaps
      simp [isWide, fresh, hmaps.2]
    · exact absurd rfl h
  file m hm := absurd hm (source_fresh_ne d t mode m)
  undecided _ := ⟨rfl, rfl⟩
  ended he _ _ := absurd he Bool.false_ne_true

end Stream

/-- What is opened is sound. -/
theorem Stream.sound_openPath (d : Directory) (path : List UInt8) (mode : OpenMode) {s : Stream} :
    (openPath d path mode).1 = some s → s.Sound := by
  have hfresh : ∀ (d : Directory) (target : Target),
      (if mode.encoding = .unknown then none else some (fresh d target mode)) = some s →
        s.Sound := by
    intro d target h
    split at h
    · cases h
    · cases h
      exact sound_fresh d target mode
  have hnone : none = some s → s.Sound := fun h => by cases h
  unfold openPath
  dsimp only
  split
  · exact hnone
  · split
    · exact hnone
    · exact hfresh _ _
  · split
    · split
      · exact hfresh _ _
      · exact hnone
    · split
      · exact hnone
      · exact hfresh _ _

/-- Every open stream is sound. -/
def World.StreamsSound (w : World) : Prop := ∀ s, some s ∈ w.streams → s.Sound

theorem World.streamsSound_initial : World.initial.StreamsSound :=
  fun _ h => absurd h List.not_mem_nil

namespace Operation

variable {α β : Type} {a : Operation α} {w : World}

/-- However it ends, all streams are sound if they were. -/
def KeepsStreams (a : Operation α) : Prop :=
  ∀ w, w.StreamsSound → Ensures a w (fun _ w' => w'.StreamsSound) fun _ w' => w'.StreamsSound

theorem Looks.keepsStreams (ha : Looks a) : KeepsStreams a := fun w h =>
  (ha w).mono (fun _ _ hw => hw ▸ h) fun _ _ hw => hw ▸ h

theorem KeepsStreams.bind {f : α → Operation β} (ha : KeepsStreams a)
    (hf : ∀ x, KeepsStreams (f x)) : KeepsStreams (a >>= f) := fun w h =>
  ensures_bind ((ha w h).mono (fun x w' hw => hf x w' hw) fun _ _ hw => hw)

theorem keepsStreams_pure (x : α) : KeepsStreams (pure x) := (looks_pure x).keepsStreams

theorem keepsStreams_storeBytes (b : Address) (bytes : Runs UInt8) :
    KeepsStreams (storeBytes b bytes) := fun _ h =>
  ensures_store (fun _ _ => h) h

end Operation

namespace StreamPtr

variable {α : Type}

theorem keepsStreams_use (f : StreamPtr) {transfer : Stream → Directory → α × Stream × Directory}
    (ht : ∀ s d, s.Sound → (transfer s d).2.1.Sound) : KeepsStreams (f.use transfer) := by
  intro w h
  refine ensures_bind (ensures_get ?_)
  cases hfound : f.number?.bind fun n => (w.streams[n]?.join).map (n, ·) with
  | none => exact ensures_stop h
  | some x =>
    obtain ⟨n, s⟩ := x
    obtain ⟨k, -, hk⟩ := Option.bind_eq_some_iff.mp hfound
    obtain ⟨t, hmem, heq⟩ := Option.map_eq_some_iff.mp hk
    cases heq
    have hs : s.Sound := h s (List.mem_of_getElem? (Option.join_eq_some_iff.mp hmem))
    refine ensures_bind (ensures_set (ensures_pure fun u hu => ?_))
    rcases List.mem_or_eq_of_mem_set hu with hold | hnew
    · exact h u hold
    · cases hnew
      exact ht _ _ hs.hideBlock

end StreamPtr

/-- **An operation on streams leaves every open stream sound**, also where it is refused. -/
theorem Streams.keepsStreams {α : Type} {a : Operation α} (ha : Streams a) : KeepsStreams a := by
  cases ha with
  | openFile name mode =>
    refine (CString.looks_contents name).keepsStreams.bind fun path =>
      (CString.looks_contents mode).keepsStreams.bind fun letters w h =>
        ensures_bind (ensures_get ?_)
    cases OpenMode.parse? letters.toList with
    | none => exact ensures_pure h
    | some mode =>
      refine ensures_bind (ensures_set (ensures_pure fun s hs => ?_))
      rcases List.mem_append.mp hs with hold | hnew
      · exact h s hold
      · rw [Option.mem_toList, Option.map_eq_some_iff] at hnew
        obtain ⟨t, ht, heq⟩ := hnew
        cases heq
        exact Stream.sound_openPath _ _ _ ht
  | flush f => exact f.keepsStreams_use fun _ d h => h.flush d
  | close f =>
    refine (f.keepsStreams_use fun _ d h => h.writePending d).bind fun done w h =>
      ensures_bind (ensures_modify (ensures_pure fun s hs => ?_))
    cases hn : f.number? with
    | none =>
      rw [hn] at hs
      exact h s hs
    | some n =>
      rw [hn] at hs
      rcases List.mem_or_eq_of_mem_set hs with hold | hnew
      · exact h s hold
      · cases hnew
  | getByte f => exact f.keepsStreams_use fun _ d h => h.readByte d
  | readInto f buffer count =>
    exact (looks_check _).keepsStreams.bind fun _ =>
      (f.keepsStreams_use fun _ d h => h.read d _).bind fun _ =>
        (keepsStreams_storeBytes _ _).bind fun _ => keepsStreams_pure _
  | writeFrom f buffer count =>
    exact (looks_check _).keepsStreams.bind fun _ => (looks_loadBytes _ _).keepsStreams.bind fun _ =>
      (f.keepsStreams_use fun _ d h => h.write d _).bind fun _ => keepsStreams_pure _
  | readLine f buffer room =>
    refine (looks_check _).keepsStreams.bind fun a => ?_
    split
    · exact f.keepsStreams_use fun _ _ h => h
    · refine (f.keepsStreams_use fun _ d h => h.readLine d _).bind fun line => ?_
      split
      · exact keepsStreams_pure _
      · exact (keepsStreams_storeBytes _ _).bind fun _ => keepsStreams_pure _
  | writeString f text =>
    exact (CString.looks_contents text).keepsStreams.bind fun bytes =>
      f.keepsStreams_use fun _ d h => h.write d bytes
  | seek f offset origin => exact f.keepsStreams_use fun _ d h => h.seek d offset origin
  | tell f => exact f.keepsStreams_use fun _ d h => h.tell d
  | atEnd f => exact f.keepsStreams_use fun _ _ h => h
  | failed f => exact f.keepsStreams_use fun _ _ h => h
  | readWordInto f buffer =>
    exact (looks_check _).keepsStreams.bind fun _ => (looks_check _).keepsStreams.bind fun _ =>
      (f.keepsStreams_use fun _ d h => h.readWord d _).bind fun _ =>
        (keepsStreams_storeBytes _ _).bind fun _ => keepsStreams_pure _
  | readWord f form =>
    exact (f.keepsStreams_use fun _ d h => h.readWord d _).bind fun _ => keepsStreams_pure _
  | print f text =>
    exact (f.keepsStreams_use fun _ d h => h.write d _).bind fun _ => keepsStreams_pure _

end CheckedMemory
