import CheckedMemory.Proofs.Words
import CheckedMemory.Proofs.Writers
import CheckedMemory.Session.Handle
import CheckedMemory.Stream.Handle

/-!
# Scanning words into buffers

A call that scans a word through a stream pointer takes a word off the stream, or as much of it as
its buffer has room for, and leaves the rest of the word to the next call.  What a run of calls
takes is then told by the bytes that the stream had to give and by the room of each buffer, and by
nothing else (`StreamPtr.Reads.exists_scans`).  Each call with room for a byte makes the bytes
fewer, so that calls until one finds no word come to an end.

Main statement: `StreamPtr.words_scanned`.
-/

namespace CheckedMemory

open Operation Numeral
open ArrayLike (span address)

variable {P : ElemType → Type} [ArrayLike P] {buffer : P .uint8} {f : StreamPtr}
  {past : List Block} {w w₁ w' : World} {bytes : List UInt8} {n : Nat} {s : Stream}

/-- Where there is room, it is what is asked for. -/
theorem Word.max_one {count : UInt64} (h : 1 ≤ count.toNat) : max count 1 = count := by
  change (if count ≤ 1 then 1 else count) = count
  split
  · rename_i hle
    exact UInt64.le_antisymm (UInt64.le_iff_toNat_le.mpr h) hle
  · rfl

/-! ## 1. A stream with bytes to come -/

/-- Streams and files are no concern of storage. -/
theorem World.Sound.stream (h : w.Sound past) (d : Directory) (ss : List (Option Stream)) :
    Sound past { w with directory := d, streams := ss } :=
  { h with }

theorem World.extends_streams (past : List Block) (w : World) (d : Directory)
    (ss : List (Option Stream)) :
    w.Extends past past { w with directory := d, streams := ss } where
  blocks _ hb := hb
  rooms r hr := by
    cases hr with
    | block hb hr => exact .block hb hr
    | plain hq hno => exact .plain hq hno

namespace StreamPtr

/-- The pointer is to an open stream that can be read, and these are the bytes it has yet to give.
-/
def Reads (f : StreamPtr) (w : World) (bytes : List UInt8) : Prop :=
  ∃ n s t d, f.number? = some n ∧ w.streams[n]? = some (some s) ∧
    s.hideBlock.stopWriting w.directory = (true, t, d) ∧ t.Has d bytes

/-- All that reading changes: the stream, and the file to which bytes that were pending go. -/
def Touched (f : StreamPtr) (w w' : World) : Prop :=
  ∃ n s t, f.number? = some n ∧ w.streams[n]? = some (some s) ∧
    w' = { w with
      directory := (s.hideBlock.stopWriting w.directory).2.2
      streams := w.streams.set n (some t) }

/-- **Every open stream has bytes to come**, if only none, unless it has bytes pending that its file
does not take. -/
theorem exists_reads (hw : w.StreamsSound) (hn : f.number? = some n)
    (hs : w.streams[n]? = some (some s)) (hready : (s.hideBlock.stopWriting w.directory).1 = true) :
    ∃ bytes, f.Reads w bytes := by
  have hhas := (hw s (List.mem_of_getElem? hs)).has_of_ready hready
  exact ⟨_, n, s, _, _, hn, hs, Prod.ext hready rfl, hhas⟩

/-- One that was opened for reading has all bytes of its file. -/
theorem reads_of_fresh {name : FileName} {mode : OpenMode} (hn : f.number? = some n)
    (hs : w.streams[n]? = some (some (Stream.fresh w.directory (.file name) mode)))
    (hread : mode.readable = true) (henc : mode.encoding = .unnamed) :
    f.Reads w (w.directory.bytes (.file name)) := by
  have hno := Stream.source_fresh_ne w.directory (.file name) mode
  have hhas := (Stream.sound_fresh w.directory (.file name) mode).has rfl
    (fun m hm => absurd hm (hno m)) w.directory
  rw [Stream.upcoming_fresh _ _ hread henc] at hhas
  refine ⟨n, _, _, _, hn, hs, ?_, hhas⟩
  rw [Stream.hideBlock_of_ne hno, hhas.stopWriting]

theorem Reads.of_memory (h : f.Reads w₁ bytes) (hw : w' = { w₁ with memory := w'.memory }) :
    f.Reads w' bytes := by
  rw [hw]
  exact h

/-- Storage is not touched. -/
theorem Touched.sound (ht : f.Touched w w') (h : w.Sound past) : w'.Sound past := by
  obtain ⟨n, s, t, -, -, rfl⟩ := ht
  exact h.stream _ _

theorem Touched.follows (ht : f.Touched w w') (h : w.Sound past) : w.Follows past w' := by
  have hsound := (ht.sound h).keep
  obtain ⟨n, s, t, -, -, rfl⟩ := ht
  exact { World.Follows.refl h with sound := hsound }

theorem Touched.extends (ht : f.Touched w w') (past : List Block) : w.Extends past past w' := by
  obtain ⟨n, s, t, -, -, rfl⟩ := ht
  exact World.extends_streams past w _ _

theorem outcome_use {α : Type} {transfer : Stream → Directory → α × Stream × Directory} {x : α}
    {t : Stream} {d : Directory} (hn : f.number? = some n) (hs : w.streams[n]? = some (some s))
    (ht : transfer s.hideBlock w.directory = (x, t, d)) : outcome (f.use transfer) w =
      (.ok x, { w with directory := d, streams := w.streams.set n (some t) }) := by
  have hfound : (f.number?.bind fun n => (w.streams[n]?.join).map (n, ·)) = some (n, s) := by
    rw [hn, Option.bind_some, hs]
    rfl
  unfold use
  rw [outcome_bind_ok _ (outcome_get w), hfound]
  dsimp only
  rw [ht]
  rfl

/-- **A word is taken off the stream**, whatever is done with it. -/
theorem Reads.outcome_use (h : f.Reads w bytes) (limit : Nat) :
    ∃ w', outcome (f.use fun s d => s.readWord d limit) w = (.ok (takenWord? limit bytes), w') ∧
      f.Touched w w' ∧ f.Reads w' (afterWord limit bytes) := by
  obtain ⟨n, s, t, d, hn, hs, hstop, hhas⟩ := h
  obtain ⟨t', hword, hhas'⟩ := hhas.readWord limit
  have hread : s.hideBlock.readWord w.directory limit = (takenWord? limit bytes, t', d) := by
    rw [← hword]
    unfold Stream.readWord
    rw [hstop, hhas.stopWriting]
  have hlt : n < w.streams.length := (List.getElem?_eq_some_iff.mp hs).1
  refine ⟨_, StreamPtr.outcome_use hn hs hread, ⟨n, s, t', hn, hs, by rw [hstop]⟩, ?_⟩
  refine ⟨n, t', t'.hideBlock, d, hn, ?_, hhas'.hideBlock.stopWriting, hhas'.hideBlock⟩
  exact List.getElem?_set_self hlt

/-! ## 2. One call -/

/-- A word is read in a form. -/
theorem Reads.outcome_readWord (h : f.Reads w bytes) (form : WordForm) :
    ∃ w', outcome (f.readWord form) w =
        (.ok ((takenWord? Stream.noLimit bytes).bind form.value?), w') ∧
      f.Touched w w' ∧ f.Reads w' (afterWord Stream.noLimit bytes) := by
  obtain ⟨w', ho, ht, hr⟩ := h.outcome_use Stream.noLimit
  exact ⟨w', outcome_bind_ok _ ho, ht, hr⟩

/-- A word is read into the room that is left of a buffer. -/
theorem Reads.outcome_readWordInto (hr : f.Reads w bytes) (h : w.Sound past)
    (hb : w.Backs past .uint8 (span buffer)) (hin : (span buffer).Inside)
    (hroom : 1 ≤ (span buffer).left) :
    ∃ w₁ w', outcome (f.readWordInto buffer) w =
        (.ok ((takenWord? ((span buffer).left - 1) bytes).map List.length), w') ∧
      f.Touched w w₁ ∧
      CString.Wrote buffer 0 ((firstWord bytes).take ((span buffer).left - 1) ++ [0]) w₁ w' ∧
      f.Reads w' (afterWord ((span buffer).left - 1) bytes) ∧ w.Follows past w' := by
  obtain ⟨count, hcount, hleft⟩ := hin.exists_remaining
  have hmax : max count 1 = count := Word.max_one (hleft.symm ▸ hroom)
  obtain ⟨w₁, ho₁, ht, hr₁⟩ := hr.outcome_use ((span buffer).left - 1)
  have hbytes : (Runs.ofList ((takenWord? ((span buffer).left - 1) bytes).getD []) ++
      CString.terminator).toList = (firstWord bytes).take ((span buffer).left - 1) ++ [0] := by
    rw [getD_takenWord?]
    simp [CString.terminator]
  have hfits : 0 + ((firstWord bytes).take ((span buffer).left - 1) ++ [0]).length ≤
      (span buffer).left := by
    rw [List.length_append, List.length_take, List.length_singleton]
    omega
  obtain ⟨w', ho', hwrote, hf⟩ := CString.outcome_storeBytes (ht.sound h)
    (hb.mono (ht.extends past)) hin (hbytes ▸ hfits)
  rw [hbytes] at hwrote
  refine ⟨w₁, w', ?_, ht, hwrote, hr₁.of_memory hwrote.memory, (ht.follows h).trans hf⟩
  have hremaining : ArrayLike.remaining buffer = .ok count := hcount
  have hspan := ArrayLike.requireSpan_of_remaining hremaining
  rw [show address buffer + UInt64.ofNat 0 = address buffer from UInt64.add_zero _] at ho'
  unfold readWordInto
  rw [hremaining, check, pure_bind, hmax, hspan, check, pure_bind, hleft, outcome_bind_ok _ ho₁,
    outcome_bind_ok _ ho']
  rfl

/-! ## 3. Calls one after another -/

/-- A call that takes a word off a stream. -/
inductive WordCall where
  | into (buffer : AnyArrayPtr .uint8)
  | as (form : WordForm)

namespace WordCall

/-- The most bytes of a word that the call takes. -/
def limit : WordCall → Nat
  | into buffer => (span buffer).left - 1
  | as _ => Stream.noLimit

/-- A buffer has storage behind it, and at least so much room. -/
def HasRoom (past : List Block) (w : World) (room : Nat) : WordCall → Prop
  | into buffer => w.Backs past .uint8 (span buffer) ∧ (span buffer).Inside ∧
      room ≤ (span buffer).left
  | as _ => True

/-- The call ends well, with what is to be seen of it if the word was this one. -/
def Gives (f : StreamPtr) (w : World) (word? : Option (List UInt8)) (w' : World) :
    WordCall → Prop
  | into buffer => outcome (f.readWordInto buffer) w = (.ok (word?.map List.length), w') ∧
      bytesFrom w'.memory.byte (address buffer) ((word?.getD []).length + 1) = word?.getD [] ++ [0]
  | as form => outcome (f.readWord form) w = (.ok (word?.bind form.value?), w')

theorem HasRoom.mono {past' : List Block} {room : Nat} {call : WordCall}
    (hx : w.Extends past past' w') (h : call.HasRoom past w room) : call.HasRoom past' w' room := by
  cases call with
  | into buffer => exact ⟨h.1.mono hx, h.2⟩
  | as form => trivial

/-- **One call takes one word, or as much of it as it may.** -/
theorem exists_gives {call : WordCall} (hr : f.Reads w bytes) (h : w.Sound past)
    (hcall : call.HasRoom past w 1) : ∃ w', call.Gives f w (takenWord? call.limit bytes) w' ∧
      f.Reads w' (afterWord call.limit bytes) ∧ w.Follows past w' := by
  cases call with
  | into buffer =>
    obtain ⟨hb, hin, hroom⟩ := hcall
    obtain ⟨w₁, w', ho, ht, hwrote, hr', hf⟩ := hr.outcome_readWordInto h hb hin hroom
    have hlt := ArrayLike.address_add_left_lt (ht.sound h) (hb.mono (ht.extends past)) hin
    have hbytes := hwrote.bytesFrom_eq hlt
    rw [Nat.zero_add, List.length_append] at hbytes
    refine ⟨w', ⟨ho, ?_⟩, hr', hf⟩
    rw [getD_takenWord?]
    exact hbytes
  | as form =>
    obtain ⟨w', ho, ht, hr'⟩ := hr.outcome_readWord form
    exact ⟨w', ho, hr', ht.follows h⟩

end WordCall

/-- Calls one after another, and the words they took. -/
inductive Scans (f : StreamPtr) : World → List WordCall → List (Option (List UInt8)) → World → Prop
  | done {w : World} : Scans f w [] [] w
  | call {call : WordCall} {word? : Option (List UInt8)} {calls : List WordCall}
      {words : List (Option (List UInt8))} {w w₁ w' : World} (h : call.Gives f w word? w₁)
      (hrest : Scans f w₁ calls words w') : Scans f w (call :: calls) (word? :: words) w'

/-- What calls with these limits take off some bytes, and what they leave. -/
def takenWords : List Nat → List UInt8 → List (Option (List UInt8)) × List UInt8
  | [], bytes => ([], bytes)
  | limit :: limits, bytes =>
    let (words, rest) := takenWords limits (afterWord limit bytes)
    (takenWord? limit bytes :: words, rest)

/-- What they take are pieces of words. -/
theorem takenApart_takenWords (limits : List Nat) (bytes : List UInt8) :
    TakenApart bytes ((takenWords limits bytes).1.map (·.getD [])) (takenWords limits bytes).2 := by
  induction limits generalizing bytes with
  | nil => exact .done
  | cons limit limits ih =>
    have hfirst := (ih (afterWord limit bytes)).firstWord limit
    rw [← getD_takenWord?] at hfirst
    exact hfirst

/-- **A run of calls takes the bytes apart as its limits say**, whatever the words are read as. -/
theorem Reads.exists_scans {calls : List WordCall} (hr : f.Reads w bytes) (h : w.Sound past)
    (hcalls : ∀ call ∈ calls, call.HasRoom past w 1) :
    ∃ w', Scans f w calls (takenWords (calls.map WordCall.limit) bytes).1 w' ∧
      f.Reads w' (takenWords (calls.map WordCall.limit) bytes).2 := by
  induction calls generalizing w past bytes with
  | nil => exact ⟨w, .done, hr⟩
  | cons call calls ih =>
    obtain ⟨w₁, hgives, hr₁, hf⟩ := WordCall.exists_gives hr h (hcalls call List.mem_cons_self)
    obtain ⟨w', hscans, hr'⟩ := ih hr₁ hf.sound fun c hc =>
      (hcalls c (List.mem_cons_of_mem _ hc)).mono (hf.extends h)
    exact ⟨w', .call hgives hscans, hr'⟩

/-! ## 4. Until there is no word -/

/-- Calls with buffers of enough room for a byte come to an end: only blanks are left then. -/
theorem Reads.exists_scans_none {buffers : Nat → AnyArrayPtr .uint8} (hr : f.Reads w bytes)
    (h : w.Sound past) (hroom : ∀ i, (WordCall.into (buffers i)).HasRoom past w 2) :
    ∃ pieces rest w', Scans f w ((List.range (pieces.length + 1)).map (.into ∘ buffers))
        (pieces.map some ++ [none]) w' ∧
      TakenApart bytes pieces rest ∧ (∀ piece ∈ pieces, piece ≠ []) ∧
      (∀ b ∈ rest, isBlank b = true) ∧ f.Reads w' [] := by
  -- a call that finds a word leaves fewer bytes to the others, and the buffers from the next one on
  induction hlen : bytes.length using Nat.strong_induction_on generalizing w past bytes buffers with
  | _ n ih =>
  subst hlen
  have hfirst : (WordCall.into (buffers 0)).HasRoom past w 1 :=
    ⟨(hroom 0).1, (hroom 0).2.1, Nat.le_of_succ_le (hroom 0).2.2⟩
  obtain ⟨w₁, hgives, hr₁, hf⟩ := WordCall.exists_gives hr h hfirst
  by_cases hword : firstWord bytes = []
  · rw [afterWord_eq_nil _ hword] at hr₁
    rw [takenWord?, if_pos hword] at hgives
    exact ⟨[], bytes, w₁, .call hgives .done, .done, fun _ hp => absurd hp List.not_mem_nil,
      firstWord_eq_nil_iff.mp hword, hr₁⟩
  · have hlimit : 0 < (WordCall.into (buffers 0)).limit := Nat.sub_pos_of_lt (hroom 0).2.2
    obtain ⟨pieces, rest, w', hscans, happart, hne, hblank, hr'⟩ :=
      ih _ (length_afterWord_lt hword hlimit) hr₁ hf.sound
        (fun i => (hroom (i + 1)).mono (hf.extends h)) rfl
    rw [takenWord?, if_neg hword] at hgives
    refine ⟨_ :: pieces, rest, w', ?_, happart.firstWord _, ?_, hblank, hr'⟩
    · rw [List.length_cons, List.range_succ_eq_map, List.map_cons, List.map_map]
      exact .call hgives hscans
    · intro piece hp
      rcases List.mem_cons.mp hp with rfl | hp
      · refine List.ne_nil_of_length_pos ?_
        rw [List.length_take]
        exact Nat.lt_min.mpr ⟨hlimit, List.length_pos_iff.mpr hword⟩
      · exact hne piece hp

/-! ## 5. The law -/

/-- What calls that scan words do to a stream that has these bytes to give. -/
structure WordsScanned (past : List Block) (f : StreamPtr) (w : World) (bytes : List UInt8) :
    Prop where
  /-- A word, or as much of it as there is room for, is written with a terminator, and nothing but
  it and the blanks in front is taken off the stream. -/
  found : ∀ {P : ElemType → Type} [ArrayLike P] (buffer : P .uint8),
    w.Backs past .uint8 (span buffer) → (span buffer).Inside → 1 ≤ (span buffer).left →
    firstWord bytes ≠ [] → ∃ k w₁ w', k = min (firstWord bytes).length ((span buffer).left - 1) ∧
      outcome (f.readWordInto buffer) w = (.ok (some k), w') ∧ f.Touched w w₁ ∧
      CString.Wrote buffer 0 ((firstWord bytes).take k ++ [0]) w₁ w' ∧
      f.Reads w' (bytes.drop ((bytes.takeWhile isBlank).length + k))
  /-- Where there are only blanks, these are taken, and a terminator is all that is written. -/
  missing : ∀ {P : ElemType → Type} [ArrayLike P] (buffer : P .uint8),
    w.Backs past .uint8 (span buffer) → (span buffer).Inside → 1 ≤ (span buffer).left →
    (∀ b ∈ bytes, isBlank b = true) → ∃ w₁ w',
      outcome (f.readWordInto buffer) w = (.ok none, w') ∧ f.Touched w w₁ ∧
      CString.Wrote buffer 0 [0] w₁ w' ∧ f.Reads w' []
  /-- A word that is read in a form is taken whole, whether or not it has the form.  The limit is
  longer than any word of a file. -/
  read : ∀ form, ∃ k w', k = min (firstWord bytes).length (2 ^ 64 - 1) ∧
    outcome (f.readWord form) w =
      (.ok (if firstWord bytes = [] then none else form.value? ((firstWord bytes).take k)), w') ∧
    f.Touched w w' ∧ f.Reads w' (bytes.drop ((bytes.takeWhile isBlank).length + k))
  /-- Calls of either kind take the bytes apart in order, and what they took is what is seen of
  them. -/
  runs : ∀ calls : List WordCall, (∀ call ∈ calls, call.HasRoom past w 1) → ∃ words rest w',
    takenWords (calls.map WordCall.limit) bytes = (words, rest) ∧ Scans f w calls words w' ∧
    f.Reads w' rest ∧ TakenApart bytes (words.map (·.getD [])) rest
  /-- As long as there is room for a byte, calls find all words: what they found together are the
  bytes without the blanks. -/
  all : ∀ buffers : Nat → AnyArrayPtr .uint8,
    (∀ i, (WordCall.into (buffers i)).HasRoom past w 2) →
    ∃ (pieces : List (List UInt8)) (w' : World),
      Scans f w ((List.range (pieces.length + 1)).map (.into ∘ buffers))
        (pieces.map some ++ [none]) w' ∧
      pieces.flatten = bytes.filter (!isBlank ·) ∧
      (∀ piece ∈ pieces, piece ≠ [] ∧ ∃ word ∈ words bytes, piece <:+: word) ∧ f.Reads w' []

/-- **Scanning words loses no byte.** -/
theorem words_scanned (h : w.Sound past) (hr : f.Reads w bytes) : WordsScanned past f w bytes where
  found buffer hb hin hroom hword := by
    obtain ⟨w₁, w', ho, ht, hwrote, hr', -⟩ := hr.outcome_readWordInto h hb hin hroom
    rw [takenWord?, if_neg hword, Option.map_some, List.length_take, Nat.min_comm] at ho
    rw [afterWord_eq_drop] at hr'
    rw [List.take_eq_take_min, Nat.min_comm] at hwrote
    exact ⟨_, w₁, w', rfl, ho, ht, hwrote, hr'⟩
  missing buffer hb hin hroom hblank := by
    obtain ⟨w₁, w', ho, ht, hwrote, hr', -⟩ := hr.outcome_readWordInto h hb hin hroom
    have hword := firstWord_eq_nil_iff.mpr hblank
    rw [takenWord?, if_pos hword] at ho
    rw [hword, List.take_nil] at hwrote
    rw [afterWord_eq_nil _ hword] at hr'
    exact ⟨w₁, w', ho, ht, hwrote, hr'⟩
  read form := by
    obtain ⟨w', ho, ht, hr'⟩ := hr.outcome_readWord form
    rw [afterWord_eq_drop] at hr'
    refine ⟨_, w', rfl, ho.trans ?_, ht, hr'⟩
    rw [takenWord?, List.take_eq_take_min, Nat.min_comm]
    split
    · rfl
    · rfl
  runs calls hcalls := by
    obtain ⟨w', hscans, hr'⟩ := hr.exists_scans h hcalls
    exact ⟨_, _, w', rfl, hscans, hr', takenApart_takenWords _ _⟩
  all buffers hroom := by
    obtain ⟨pieces, rest, w', hscans, happart, hne, hblank, hr'⟩ := hr.exists_scans_none h hroom
    refine ⟨pieces, w', hscans, ?_, fun piece hp => ⟨hne piece hp, ?_⟩, hr'⟩
    · have hnone : rest.filter (!isBlank ·) = [] :=
        List.filter_eq_nil_iff.mpr fun b hb => by simp [hblank b hb]
      rw [happart.filter_eq, hnone, List.append_nil]
    · exact happart.exists_word hp (hne piece hp)

/-- One file, of a blank, three letters and a line feed. -/
def letterFile : Directory := ⟨[([102], .ofList [32, 97, 98, 99, 10])]⟩

/-- The file is open for reading, and there are six bytes of heap. -/
def letterFileOpen : World :=
  { (Program.lettersAnd 3).world with
    directory := letterFile
    streams := [some (Stream.fresh letterFile (.file [102])
      ⟨true, false, false, false, false, false, false, .unnamed⟩)] }

set_option maxRecDepth 2000 in
/-- Three bytes of room are enough for two letters of the word, and the third is read next. -/
theorem words_scanned_two_of_three :
    WordsScanned (Program.lettersAnd 3).past ⟨some 0⟩ letterFileOpen [32, 97, 98, 99, 10] ∧
      ∃ w',
        outcome (readWordInto ⟨some 0⟩ (Program.letters 3)) letterFileOpen = (.ok (some 2), w') ∧
        Reads ⟨some 0⟩ w' [99, 10] := by
  have hprogram := (Program.reachable_lettersAnd .scoped 3).sound
  have hsound := hprogram.world.stream letterFileOpen.directory letterFileOpen.streams
  have hb := (((Program.hasArray_letters 3).2).backs hprogram.backed).mono
    (World.extends_streams _ _ letterFileOpen.directory letterFileOpen.streams)
  have hbytes : letterFile.bytes (.file [102]) = [32, 97, 98, 99, 10] := by decide
  have hr : Reads ⟨some 0⟩ letterFileOpen (letterFile.bytes (.file [102])) :=
    reads_of_fresh (n := 0) (w := letterFileOpen) rfl rfl rfl rfl
  rw [hbytes] at hr
  have hlaw := words_scanned hsound hr
  obtain ⟨k, w₁, w', hk, ho, -, -, hrest⟩ :=
    hlaw.found (Program.letters 3) hb ⟨by decide, by decide, by decide⟩ (by decide) (by decide)
  obtain rfl : k = 2 := hk.trans (by decide)
  exact ⟨hlaw, w', ho, hrest⟩

end StreamPtr

end CheckedMemory
