import CheckedMemory.Proofs.Dropped
import CheckedMemory.Proofs.Pieces
import CheckedMemory.Proofs.Writers

/-!
# Tokens in place

A tokenizer changes the buffer that it reads.  What it does is told on the bytes of the whole array,
as a list: a call puts a terminator over one byte of it, and what a pointer spells is the stretch of
the list from where it is to the next zero.  One call then takes a piece off the text
(`Tokenizer.outcome_next`), a run of calls with other steps between them cuts the text into pieces,
and the buffer is the pieces with their delimiters struck out (`Program.Tokenizes.traces`).

Main statement: `Program.tokens_decompose`.
-/

namespace CheckedMemory

open Operation

/-! ## 1. A buffer and what is spelled in it -/

section Buffers

variable {P Q : ElemType → Type} [ArrayLike P] [ArrayLike Q] {p q : P .uint8} {delims : Q .uint8}
  {past : List Block} {w w' : World} {t u pre post D y : List UInt8} {i m : Nat}

/-- One byte put over a row of bytes. -/
theorem bytesFrom_set {f g : Address → UInt8} {a : Address} {n j : Nat} {b : UInt8}
    (hg : ∀ c, g c = ((Patch.mk (a + UInt64.ofNat j) [b]).byte? c).getD (f c)) (hj : j < n)
    (hlt : a.toNat + n ≤ 2 ^ 64) : bytesFrom g a n = (bytesFrom f a n).set j b := by
  refine List.ext_getElem (by simp) fun i h _ => ?_
  rw [length_bytesFrom] at h
  have hstart : (a + UInt64.ofNat j).toNat = a.toNat + j := Word.toNat_add_ofNat (by omega)
  have haddr : (a + UInt64.ofNat i).toNat = a.toNat + i := Word.toNat_add_ofNat (by omega)
  rw [List.getElem_set]
  simp only [bytesFrom, List.getElem_map, List.getElem_range, hg]
  split
  · rename_i hi
    subst hi
    simp [Patch.byte?]
  · have hmiss : (Patch.mk (a + UInt64.ofNat j) [b]).byte? (a + UInt64.ofNat i) = none := by
      rw [Patch.byte?_eq_none_iff]
      simp only [Patch.Misses, hstart, haddr, List.length_singleton]
      omega
    rw [hmiss]
    rfl

namespace CString

open ArrayLike (span address)

/-- All bytes of the array. -/
def buffer (p : P .uint8) (w : World) : List UInt8 :=
  bytesFrom w.memory.byte (span p).base (span p).extent.toNat

/-- How many bytes of the array are in front of the current one. -/
def position (p : P .uint8) : Nat := (span p).index.toInt.toNat

theorem position_add_left (hin : (span p).Inside) :
    position p + (span p).left = (span p).extent.toNat := by
  obtain ⟨-, h0, hle⟩ := hin
  unfold position Span.left
  omega

theorem address_eq (hin : (span p).Inside) :
    address p = (span p).base + UInt64.ofNat (position p) := by
  rw [position, Word.ofNat_toInt hin.2.1, address, Span.address, Span.elementAddress]
  exact congrArg _ (UInt64.mul_one _)

theorem length_buffer (p : P .uint8) (w : World) :
    (buffer p w).length = (span p).extent.toNat := length_bytesFrom _ _ _

/-- The bytes from an offset on are a stretch of the buffer. -/
theorem bytesFrom_offset (hin : (span p).Inside) {k : Nat}
    (hk : position p + m + k ≤ (span p).extent.toNat) :
    bytesFrom w.memory.byte (address (ArrayLike.offset p (Int64.ofNat m))) k =
      ((buffer p w).drop (position p + m)).take k := by
  rw [ArrayLike.address_offset, address_eq hin, UInt64.add_assoc, ← UInt64.ofNat_add, buffer,
    drop_bytesFrom _ _ (by omega), take_bytesFrom _ _ (by omega)]

/-- **Where the buffer has some bytes and a zero after them, they are spelled.** -/
theorem spells_of_buffer (hin : (span p).Inside) (hext : (span p).extent.toNat < 2 ^ 63)
    (hbuffer : buffer p w = pre ++ (t ++ 0 :: post)) (hpre : pre.length = position p + m)
    (ht : ∀ b ∈ t, b ≠ 0) : Spells (ArrayLike.offset p (Int64.ofNat m)) w t := by
  have hlen := congrArg List.length hbuffer
  have hleft := position_add_left hin
  rw [length_buffer, List.length_append, List.length_append, List.length_cons] at hlen
  obtain ⟨hinside, hroom⟩ := hin.shift hext (n := m) (by omega)
  have hspan : span (ArrayLike.offset p (Int64.ofNat m)) = (span p).shift (Int64.ofNat m) :=
    ArrayLike.span_withSpan p _
  refine ⟨hspan ▸ hinside, ?_, ht, ?_⟩
  · rw [hspan, hroom]
    omega
  · rw [bytesFrom_offset hin (by omega), hbuffer, ← hpre, List.drop_left,
      List.take_append, List.take_of_length_le (by omega), Nat.add_sub_cancel_left]
    rfl

/-- The buffer around a string. -/
theorem Spells.buffer_eq (h : Spells p w t) : buffer p w =
    (buffer p w).take (position p) ++
      (t ++ 0 :: (buffer p w).drop (position p + t.length + 1)) := by
  have hleft := position_add_left h.inside
  have hfits := h.fits
  have hstretch := bytesFrom_offset (w := w) (m := 0) (k := t.length + 1) h.inside (by omega)
  have hzero : address (ArrayLike.offset p (Int64.ofNat 0)) = address p := by
    rw [ArrayLike.address_offset]
    exact UInt64.add_zero _
  rw [hzero, h.bytes, show position p + 0 = position p from rfl] at hstretch
  have hsplit := (List.take_append_drop (t.length + 1) ((buffer p w).drop (position p))).symm
  rw [← hstretch, List.drop_drop, ← Nat.add_assoc, List.append_assoc] at hsplit
  calc buffer p w = (buffer p w).take (position p) ++ (buffer p w).drop (position p) :=
        (List.take_append_drop _ _).symm
    _ = _ := by
        rw [hsplit]
        rfl

/-- A byte that is written is set in the buffer. -/
theorem Wrote.buffer_eq {b : UInt8} (h : w.Sound past) (hb : w.Backs past .uint8 (span p))
    (hin : (span p).Inside) (hw : Wrote (ArrayLike.offset p (Int64.ofNat m)) i [b] w w')
    (hi : position p + m + i < (span p).extent.toNat) :
    buffer p w' = (buffer p w).set (position p + m + i) b := by
  have hend := ArrayLike.address_add_left_lt h hb hin
  have hleft := position_add_left hin
  have hbase := (hb.holds hin.1).end_lt h
  rw [show (ElemType.layout .uint8).size = 1 from rfl, Nat.mul_one] at hbase
  refine bytesFrom_set (fun c => ?_) hi (by omega)
  have hbyte := hw.byte c
  rwa [ArrayLike.address_offset, address_eq hin, UInt64.add_assoc, UInt64.add_assoc,
    ← UInt64.ofNat_add, ← UInt64.ofNat_add, ← Nat.add_assoc] at hbyte

end CString

/-! ## 2. One call -/

namespace Tokenizer

open CString
open ArrayLike (span address offset)

variable {k : Tokenizer P} {c : Piece}

/-- What the end of a token does to memory: if a delimiter ended it, that one is struck out. -/
inductive Marks (p : P .uint8) (c : Piece) (w : World) : World → Prop
  | last (hstop : c.stop = none) : Marks p c w w
  | stop {d : UInt8} {w' : World} (hstop : c.stop = some d)
      (hw : Wrote p (c.blank.length + c.token.length) [0] w w') : Marks p c w w'

theorem drop_length_takeWhile (f : UInt8 → Bool) (l : List UInt8) :
    l.drop (l.takeWhile f).length = l.dropWhile f := by
  calc l.drop (l.takeWhile f).length
      = (l.takeWhile f ++ l.dropWhile f).drop (l.takeWhile f).length := by
        rw [List.takeWhile_append_dropWhile]
    _ = l.dropWhile f := List.drop_left

/-- What a tokenizer parts a text into is its first piece, with the stop in front of the rest. -/
theorem split_first {E : List UInt8} (hE : ∀ b, b ∈ E ↔ b ∈ D) (r : Runs UInt8) :
    (split E r).1.toList = (Piece.first D r.toList).blank ∧
      (split E r).2.1.toList = (Piece.first D r.toList).token ∧
      (split E r).2.2.toList = (Piece.first D r.toList).stop.toList ++ Piece.rest D r.toList := by
  have hsame : E.contains = D.contains := funext fun b => by simp [hE]
  have hnot : (fun b => !E.contains b) = fun b => !D.contains b := by rw [hsame]
  have hlast : ∀ l : List UInt8, l = l.head?.toList ++ l.tail := fun l => by cases l <;> rfl
  simp only [split, Piece.first, Piece.rest, hsame, hnot, Runs.toList_takeWhile, Runs.toList_drop,
    ← Runs.length_toList, drop_length_takeWhile, true_and, ← hlast]

theorem outcome_new (h : w.Sound past) (hb : w.Backs past .uint8 (span p)) (ht : Spells p w t) :
    outcome (Tokenizer.new p) w = (.ok ⟨p, some p⟩, w) := by
  obtain ⟨r, ho, -⟩ := outcome_contents h hb ht
  have hdiscard : outcome (discard (contents p)) w = (.ok (), w) := by
    change outcome ((fun _ => ()) <$> contents p) w = _
    rw [map_eq_pure_bind, outcome_bind_ok _ ho, outcome_pure]
  exact outcome_bind_ok _ hdiscard

/-- Once nothing is left, nothing is found. -/
theorem outcome_next_none (h : w.Sound past) (hbd : w.Backs past .uint8 (span delims))
    (hd : Spells delims w D) (hcursor : k.cursor = none) :
    outcome (k.next delims) w = (.ok (none, k), w) := by
  obtain ⟨ds, ho, -⟩ := outcome_contents h hbd hd
  unfold next
  rw [outcome_bind_ok _ ho, hcursor]
  rfl

/-- A call after its reads: the parts of what is left, and what becomes of them. -/
theorem exists_outcome_next (h : w.Sound past) (hb : w.Backs past .uint8 (span p))
    (hbd : w.Backs past .uint8 (span delims)) (hcursor : k.cursor = some p) (hy : Spells p w y)
    (hd : Spells delims w D) : ∃ blank token more : Runs UInt8,
      blank.toList = (Piece.first D y).blank ∧ token.toList = (Piece.first D y).token ∧
      more.toList = (Piece.first D y).stop.toList ++ Piece.rest D y ∧
      outcome (k.next delims) w = outcome (
        if token.isEmpty then return (none, ⟨k.text, none⟩)
        else if more.isEmpty then
          return (some (offset p (Int64.ofNat blank.length)), ⟨k.text, none⟩)
        else do
          storeBytes (address p + UInt64.ofNat (blank.length + token.length)) terminator
          return (some (offset p (Int64.ofNat blank.length)),
            ⟨k.text, some (offset p (Int64.ofNat (blank.length + token.length + 1)))⟩)) w := by
  obtain ⟨ds, hds, rfl⟩ := outcome_contents h hbd hd
  obtain ⟨bytes, hwindow, hbytes⟩ := outcome_window h hb hy.inside
  have htext : (beforeTerminator bytes).toList = y := by
    rw [beforeTerminator, Runs.toList_takeWhile, hbytes]
    exact (spells_iff.mp hy).2.2.symm
  obtain ⟨hblank, htoken, hmore⟩ := split_first (D := ds.toList) (fun b => Runs.mem_elements)
    (beforeTerminator bytes)
  rw [htext] at hblank htoken hmore
  refine ⟨_, _, _, hblank, htoken, hmore, ?_⟩
  unfold next
  rw [outcome_bind_ok _ hds, hcursor]
  exact outcome_bind_ok _ hwindow

/-- **One call**: delimiters are all that is left, or the first piece of what is left is cut off and
the delimiter at its end struck out. -/
theorem outcome_next (h : w.Sound past) (hb : w.Backs past .uint8 (span p))
    (hbd : w.Backs past .uint8 (span delims)) (hcursor : k.cursor = some p) (hy : Spells p w y)
    (hd : Spells delims w D) :
    (∀ b ∈ y, b ∈ D) ∧ outcome (k.next delims) w = (.ok (none, ⟨k.text, none⟩), w) ∨
    ∃ c rest w', c.CutBy D ∧ (c.stop = none → rest = []) ∧ y = c.bytes ++ rest ∧ Marks p c w w' ∧
      outcome (k.next delims) w = (.ok (some (offset p (Int64.ofNat c.blank.length)),
        ⟨k.text, if c.stop.isSome then some (offset p (Int64.ofNat c.bytes.length)) else none⟩),
        w') := by
  obtain ⟨blank, token, more, hblank, htoken, hmore, hrun⟩ :=
    exists_outcome_next h hb hbd hcursor hy hd
  have hsplit := Piece.bytes_first_append_rest D y
  by_cases hnone : (Piece.first D y).token = []
  · refine .inl ⟨Piece.token_first_eq_nil_iff.mp hnone, ?_⟩
    rw [hrun, if_pos ((Runs.isEmpty_iff token).mpr (htoken.trans hnone))]
    rfl
  · have hempty : ¬token.isEmpty = true := by rwa [Runs.isEmpty_iff, htoken]
    refine .inr ?_
    rw [hrun, if_neg hempty]
    cases hstop : (Piece.first D y).stop with
    | none =>
      have hrest := Piece.rest_eq_nil hstop
      have hlast : more.isEmpty = true := by rw [Runs.isEmpty_iff, hmore, hstop, hrest]; rfl
      refine ⟨_, _, w, Piece.first_cutBy hnone, Piece.rest_eq_nil, hsplit.symm, .last hstop, ?_⟩
      rw [if_pos hlast, hstop, ← hblank, Runs.length_toList]
      rfl
    | some d =>
      have hgoes : ¬more.isEmpty = true := by rw [Runs.isEmpty_iff, hmore, hstop]; simp
      have hlen : (Piece.first D y).bytes.length = blank.length + token.length + 1 := by
        simp [Piece.bytes, hstop, ← hblank, ← htoken, Nat.add_assoc]
      have hfits : blank.length + token.length + terminator.toList.length ≤ (span p).left := by
        have hlong := congrArg List.length hsplit
        have := hy.fits
        rw [List.length_append, hlen] at hlong
        simp only [terminator, Runs.toList_replicate, List.length_replicate]
        omega
      obtain ⟨w', hstore, hw, -⟩ := outcome_storeBytes h hb hy.inside hfits
      have hw' : Wrote p ((Piece.first D y).blank.length + (Piece.first D y).token.length) [0]
          w w' := by
        rw [← hblank, ← htoken, Runs.length_toList, Runs.length_toList]
        simpa [terminator] using hw
      refine ⟨_, _, w', Piece.first_cutBy hnone, Piece.rest_eq_nil, hsplit.symm, .stop hstop hw',
        ?_⟩
      rw [if_neg hgoes, outcome_bind_ok _ hstore, hstop, ← hblank, Runs.length_toList, hlen]
      rfl

/-- The buffer after a call: where the piece was, it is with its delimiter struck out. -/
theorem Marks.buffer_eq (h : w.Sound past) (hb : w.Backs past .uint8 (span p))
    (hin : (span p).Inside) (hm : Marks (offset p (Int64.ofNat m)) c w w')
    (hbuffer : buffer p w = pre ++ (c.bytes ++ post)) (hpre : pre.length = position p + m) :
    buffer p w' = pre ++ (c.marked ++ post) := by
  cases hm with
  | last hstop => rw [hbuffer, Piece.bytes, Piece.marked, hstop]; rfl
  | @stop d _ hstop hw =>
    have hlen := congrArg List.length hbuffer
    simp only [length_buffer, Piece.bytes, hstop, List.length_append, Option.toList_some,
      List.length_singleton] at hlen
    have hcut : pre ++ (c.bytes ++ post) =
        (pre ++ (c.blank ++ c.token)) ++ d :: post := by simp [Piece.bytes, hstop]
    have hat : position p + m + (c.blank.length + c.token.length) =
        (pre ++ (c.blank ++ c.token)).length := by
      rw [List.length_append, List.length_append, hpre]
    rw [hw.buffer_eq h hb hin (by omega), hbuffer, hcut, hat,
      List.set_append_right _ _ (Nat.le_refl _), Nat.sub_self, List.set_cons_zero]
    simp [Piece.marked, hstop]

end Tokenizer

end Buffers

/-! ## 3. A run of calls -/

namespace Program

open CString
open ArrayLike (span address offset)

variable {δ : Discipline} {s s₀ : Program} {text : AnyArrayPtr .uint8} {x rest : List UInt8}
  {calls : List (Call (AnyArrayPtr .uint8))} {t : Tokenizer AnyArrayPtr} {pieces : List Piece}
  {more : Bool}

/-- A run of a program in which a tokenizer is made of a text and asked for tokens, any number of
times and each time with delimiters of its own, and in which nothing but it writes on the array of
the text.  The calls that were made are listed, the last one last, with what their delimiters
spelled. -/
inductive Tokenizes (δ : Discipline) (text : AnyArrayPtr .uint8) (s₀ : Program) :
    List (Call (AnyArrayPtr .uint8)) → Tokenizer AnyArrayPtr → Program → Prop
  | start {k : Tokenizer AnyArrayPtr} {w : World} (hp : .array .uint8 text ∈ s₀.handles)
      (ho : outcome (Tokenizer.new text) s₀.world = (.ok k, w)) :
      Tokenizes δ text s₀ [] k (s₀.run (giving .tokenizer (Tokenizer.new text)))
  | call {cs : List (Call (AnyArrayPtr .uint8))} {k k' : Tokenizer AnyArrayPtr} {s : Program}
      {delims : AnyArrayPtr .uint8} {D : List UInt8} {r : Option (AnyArrayPtr .uint8)} {w : World}
      (h : Tokenizes δ text s₀ cs k s) (hk : .tokenizer k ∈ s.handles)
      (hdelims : .array .uint8 delims ∈ s.handles) (hD : Spells delims s.world D)
      (ho : outcome (k.next delims) s.world = (.ok (r, k'), w)) :
      Tokenizes δ text s₀ (cs ++ [⟨D, r⟩]) k'
        (s.run ((fun r => .tokenizer r.2 :: (r.1.map (.array .uint8)).toList) <$> k.next delims))
  | other {cs : List (Call (AnyArrayPtr .uint8))} {k : Tokenizer AnyArrayPtr} {s s' : Program}
      (h : Tokenizes δ text s₀ cs k s) (hsteps : Leads δ s s')
      (hsame : buffer text s'.world = buffer text s.world) : Tokenizes δ text s₀ cs k s'

theorem Tokenizes.reachable (hs : Reachable δ s₀) (h : Tokenizes δ text s₀ calls t s) :
    Reachable δ s := by
  induction h with
  | start hp ho => exact hs.tail (.act (.use (.tokenize hp)))
  | call h hk hdelims hD ho ih => exact ih.tail (.act (.use (.nextToken hk hdelims)))
  | other h hsteps hsame ih => exact ih.trans hsteps

theorem Tokenizes.extent_lt (hs : Reachable δ s₀) (hx : Spells text s₀.world x)
    (h : Tokenizes δ text s₀ calls t s) : (span text).extent.toNat < 2 ^ 63 := by
  induction h with
  | start hp ho => exact ArrayLike.extent_lt hs.sound.world (hs.sound.backed _ hp) hx.inside
  | call h hk hdelims hD ho ih | other h hsteps hsame ih => exact ih

/-- The token at an offset of the text is a pointer to there. -/
def tokenAt (text : AnyArrayPtr .uint8) (n : Nat) : AnyArrayPtr .uint8 :=
  offset text (Int64.ofNat n)

theorem tokenAt_zero (text : AnyArrayPtr .uint8) : tokenAt text 0 = text := by
  cases text <;>
    simp [tokenAt, offset, ArrayLike.withSpan, AnyArrayPtr.withSpan, span, AnyArrayPtr.span,
      Span.shift]

theorem offset_tokenAt (text : AnyArrayPtr .uint8) (m n : Nat) :
    offset (tokenAt text m) (Int64.ofNat n) = tokenAt text (m + n) := by
  cases text <;>
    simp [tokenAt, offset, ArrayLike.withSpan, AnyArrayPtr.withSpan, span, AnyArrayPtr.span,
      Span.shift, Int64.ofNat_add, Int64.add_assoc]

/-- Where the tokenizer is after it took off some pieces, and what it has made of the buffer. -/
structure Traces (text : AnyArrayPtr .uint8) (w₀ : World) (x : List UInt8)
    (t : Tokenizer AnyArrayPtr) (w : World) (pieces : List Piece) (rest : List UInt8)
    (more : Bool) : Prop where
  source : t.text = text
  cursor : t.cursor = if more then some (tokenAt text (Piece.total pieces)) else none
  bytes : buffer text w = (buffer text w₀).take (position text) ++ (pieces.flatMap Piece.marked ++
    (rest ++ 0 :: (buffer text w₀).drop (position text + x.length + 1)))

section

variable {w₀ w : World}

theorem length_front (hin : (span text).Inside) (w : World) (ps : List Piece) :
    ((buffer text w).take (position text) ++ ps.flatMap Piece.marked).length =
      position text + Piece.total ps := by
  have hleft := position_add_left hin
  rw [List.length_append, List.length_take, length_buffer, Piece.length_flatMap_marked,
    Nat.min_eq_left (by omega)]

/-- What is left of the text is what the cursor spells. -/
theorem Traces.spells_rest (hx : Spells text w₀ x) (hext : (span text).extent.toNat < 2 ^ 63)
    (ht : Traces text w₀ x t w pieces rest more) (htext : x = pieces.flatMap Piece.bytes ++ rest) :
    Spells (tokenAt text (Piece.total pieces)) w rest := by
  have hbytes := ht.bytes
  rw [← List.append_assoc] at hbytes
  refine spells_of_buffer hx.inside hext hbytes (length_front hx.inside w₀ pieces)
    fun b hb => hx.nonzero b ?_
  rw [htext]
  exact List.mem_append_right _ hb

/-- A token is spelled where it is: a delimiter that was struck out ends it, or the end of the text
does. -/
theorem Traces.spells_token (hx : Spells text w₀ x) (hext : (span text).extent.toNat < 2 ^ 63)
    (ht : Traces text w₀ x t w pieces rest more)
    (hd : Decomposes (tokenAt text) x calls pieces rest) {i : Nat} {c : Piece}
    (hc : pieces[i]? = some c) :
    Spells (tokenAt text (Piece.total (pieces.take i) + c.blank.length)) w c.token := by
  obtain ⟨hi, rfl⟩ := List.getElem?_eq_some_iff.mp hc
  have hsplit : pieces = pieces.take i ++ pieces[i] :: pieces.drop (i + 1) := by
    rw [← List.drop_eq_getElem_cons hi, List.take_append_drop]
  obtain ⟨post, hpost⟩ : ∃ post, (pieces.drop (i + 1)).flatMap Piece.marked ++ (rest ++
      0 :: (buffer text w₀).drop (position text + x.length + 1)) = post := ⟨_, rfl⟩
  have hfront : buffer text w = ((buffer text w₀).take (position text) ++
      (pieces.take i).flatMap Piece.marked) ++ (pieces[i].marked ++ post) := by
    have hflat := congrArg (List.flatMap Piece.marked) hsplit
    rw [List.flatMap_append, List.flatMap_cons] at hflat
    rw [ht.bytes, hflat, ← hpost]
    simp only [List.append_assoc]
  -- after the token there is a zero, whatever ended it
  obtain ⟨post', hzero⟩ : ∃ post', pieces[i].marked ++ post =
      pieces[i].blank ++ (pieces[i].token ++ 0 :: post') := by
    cases hstop : pieces[i].stop with
    | some d => exact ⟨post, by simp [Piece.marked, hstop]⟩
    | none =>
      obtain ⟨hlen, hrest⟩ := hd.last i _ hc hstop
      rw [List.drop_of_length_le (by omega), hrest] at hpost
      exact ⟨_, by rw [← hpost]; simp [Piece.marked, hstop]; rfl⟩
  rw [hzero, ← List.append_assoc] at hfront
  refine spells_of_buffer hx.inside hext hfront ?_ fun b hb => hx.nonzero b ?_
  · rw [List.length_append, length_front hx.inside, Nat.add_assoc]
  · have hmem : pieces[i] ∈ pieces := List.getElem_mem hi
    rw [hd.whole, List.mem_append, List.mem_flatMap]
    exact .inl ⟨_, hmem, by simp [Piece.bytes, hb]⟩

end

/-- **A run of calls cuts the text into pieces**, and strikes out in the buffer the delimiters that
ended the tokens. -/
theorem Tokenizes.traces (hs : Reachable δ s₀) (hx : Spells text s₀.world x)
    (h : Tokenizes δ text s₀ calls t s) : ∃ pieces rest more,
      Cuts (tokenAt text) x calls pieces rest more ∧
        Traces text s₀.world x t s.world pieces rest more := by
  induction h with
  | start hp ho =>
    have hb : s₀.world.Backs s₀.past .uint8 (span text) := hs.sound.backed _ hp
    rw [Tokenizer.outcome_new hs.sound.world hb hx] at ho
    cases ho
    refine ⟨[], x, true, .start, rfl, ?_, ?_⟩
    · simp [Piece.total, tokenAt_zero]
    · rw [world_run_giving, Tokenizer.outcome_new hs.sound.world hb hx]
      exact hx.buffer_eq
  | @call cs k k' s delims D r w h hk hdelims hD ho ih =>
    obtain ⟨pieces, rest, more, hcuts, ht⟩ := ih
    have hsound := (h.reachable hs).sound
    have hb : s.world.Backs s.past .uint8 (span text) := ht.source ▸ (hsound.backed _ hk).1
    have hbd : s.world.Backs s.past .uint8 (span delims) := hsound.backed _ hdelims
    have hworld : (s.run ((fun r => Handle.tokenizer r.2 :: (r.1.map (.array .uint8)).toList) <$>
        k.next delims)).world = w := by
      rw [world_run, map_eq_pure_bind, outcome_bind_ok _ ho]
      rfl
    rw [hworld]
    cases more with
    | false =>
      rw [Tokenizer.outcome_next_none hsound.world hbd hD ht.cursor] at ho
      cases ho
      exact ⟨pieces, rest, false, hcuts.ended, ht⟩
    | true =>
      have hrest := ht.spells_rest hx (ArrayLike.extent_lt hsound.world hb hx.inside) hcuts.text
      have hcursor : k.cursor = some (tokenAt text (Piece.total pieces)) := ht.cursor
      have hbc := (HasArray.cursor hk hcursor).backs hsound.backed
      rcases Tokenizer.outcome_next hsound.world hbc hbd hcursor hrest hD with
        ⟨hall, ho'⟩ | ⟨c, rest', w', hc, hlast, rfl, hm, ho'⟩
      · rw [ho'] at ho
        cases ho
        exact ⟨pieces, rest, false, hcuts.missing hall, ht.source, rfl, ht.bytes⟩
      · rw [ho', offset_tokenAt] at ho
        cases ho
        refine ⟨pieces ++ [c], rest', c.stop.isSome, hcuts.token hc hlast, ht.source, ?_, ?_⟩
        · rw [offset_tokenAt, Piece.total_append_singleton]
        · have hbytes := ht.bytes
          rw [← List.append_assoc, List.append_assoc c.bytes] at hbytes
          rw [hm.buffer_eq hsound.world hb hx.inside hbytes (length_front hx.inside _ pieces)]
          simp
  | other h hsteps hsame ih =>
    obtain ⟨pieces, rest, more, hcuts, ht⟩ := ih
    exact ⟨pieces, rest, more, hcuts, ht.source, ht.cursor, hsame.trans ht.bytes⟩

/-! ## 4. The law on runs -/

/-- What a tokenizer does to a text. -/
structure Tokenized (text : AnyArrayPtr .uint8) (x : List UInt8) (s₀ : Program)
    (calls : List (Call (AnyArrayPtr .uint8))) (t : Tokenizer AnyArrayPtr) (s : Program)
    (pieces : List Piece) (rest : List UInt8) : Prop
    extends Decomposes (tokenAt text) x calls pieces rest where
  /-- Each token is what the pointer to it spells, from the call that found it on. -/
  spelled : ∀ (i : Nat) (c : Piece), pieces[i]? = some c →
    Spells (tokenAt text (Piece.total (pieces.take i) + c.blank.length)) s.world c.token
  /-- The buffer is what it was but for the delimiters that ended the tokens. -/
  bytes : buffer text s.world = (buffer text s₀.world).take (position text) ++
    (pieces.flatMap Piece.marked ++
      (rest ++ 0 :: (buffer text s₀.world).drop (position text + x.length + 1)))
  /-- With the same delimiters at every call, the tokens are the first of the fields. -/
  fields : ∀ D, (∀ c ∈ calls, ∀ b, b ∈ c.delims ↔ b ∈ D) →
    CheckedMemory.fields D x = pieces.map Piece.token ++ CheckedMemory.fields D rest
  /-- And all of the fields, once a call was in vain. -/
  allFields : ∀ D, (∀ c ∈ calls, ∀ b, b ∈ c.delims ↔ b ∈ D) → (∃ c ∈ calls, c.result = none) →
    CheckedMemory.fields D x = pieces.map Piece.token
  /-- The next call is refused for no delimiters that end. -/
  next : ∀ delims D, .tokenizer t ∈ s.handles → .array .uint8 delims ∈ s.handles →
    Spells delims s.world D → ∃ r t' w', outcome (t.next delims) s.world = (.ok (r, t'), w')

/-- **Tokenizing loses and invents nothing.** -/
theorem tokens_decompose (hs : Reachable δ s₀) (hx : Spells text s₀.world x)
    (h : Tokenizes δ text s₀ calls t s) :
    ∃ pieces rest, Tokenized text x s₀ calls t s pieces rest := by
  obtain ⟨pieces, rest, more, hcuts, ht⟩ := h.traces hs hx
  have hext : (span text).extent.toNat < 2 ^ 63 := h.extent_lt hs hx
  refine ⟨pieces, rest, hcuts.decomposes, fun i c hc => ?_, ht.bytes, fun D hD => hcuts.fields hD,
    fun D hD hvain => hcuts.fields_of_vain hD hvain, fun delims D hk hdelims hD => ?_⟩
  · exact ht.spells_token hx hext hcuts.decomposes hc
  · have hsound := (h.reachable hs).sound
    have hbd : s.world.Backs s.past .uint8 (span delims) := hsound.backed _ hdelims
    cases more with
    | false => exact ⟨_, _, _, Tokenizer.outcome_next_none hsound.world hbd hD ht.cursor⟩
    | true =>
      have hcursor : t.cursor = some (tokenAt text (Piece.total pieces)) := ht.cursor
      have hrest := ht.spells_rest hx hext hcuts.text
      have hbc := (HasArray.cursor hk hcursor).backs hsound.backed
      rcases Tokenizer.outcome_next hsound.world hbc hbd hcursor hrest hD with
        ⟨-, ho⟩ | ⟨_, _, _, -, -, -, -, ho⟩
      · exact ⟨_, _, _, ho⟩
      · exact ⟨_, _, _, ho⟩

/-- Two letters with a comma between them. -/
def twoFields : AnyArrayPtr .uint8 := .plain ⟨⟨0x400000000000, 0, 4⟩⟩

def comma : AnyArrayPtr .uint8 := .plain ⟨⟨0x400000000020, 0, 2⟩⟩

/-- The program that has made both strings. -/
def withComma : Program :=
  (initial.run (giving (.array .uint8 ∘ .plain)
    (ArrayPtr.ofList .uint8 [97, 44, 98, 0]))).run (giving (.array .uint8 ∘ .plain)
      (ArrayPtr.ofList .uint8 [44, 0]))

theorem reachable_withComma (δ : Discipline) : Reachable δ withComma :=
  .tail (.tail .refl (.act (.make (.block (.list .uint8 [97, 44, 98, 0] (by decide))))))
    (.act (.make (.block (.list .uint8 [44, 0] (by decide)))))

set_option maxRecDepth 2000 in
/-- A comma parts the text after its first letter, which the next call is given. -/
theorem tokens_decompose_two_fields :
    ∃ t s pieces rest, Tokenizes .scoped twoFields withComma [⟨[44], some twoFields⟩] t s ∧
      Tokenized twoFields [97, 44, 98] withComma [⟨[44], some twoFields⟩] t s pieces rest := by
  have hx : Spells twoFields withComma.world [97, 44, 98] :=
    ⟨⟨by decide, by decide, by decide⟩, by decide, by decide, rfl⟩
  have hstart : Tokenizes .scoped twoFields withComma [] ⟨twoFields, some twoFields⟩ _ :=
    .start (List.mem_cons_of_mem _ List.mem_cons_self) rfl
  have hD : Spells comma (withComma.run (giving .tokenizer (Tokenizer.new twoFields))).world [44] :=
    ⟨⟨by decide, by decide, by decide⟩, by decide, by decide, rfl⟩
  have hcomma : Handle.array .uint8 comma ∈
      (withComma.run (giving .tokenizer (Tokenizer.new twoFields))).handles :=
    List.mem_cons_of_mem _ List.mem_cons_self
  obtain ⟨t, s, hcall⟩ : ∃ t s,
      Tokenizes .scoped twoFields withComma [⟨[44], some twoFields⟩] t s :=
    ⟨_, _, .call hstart List.mem_cons_self hcomma hD rfl⟩
  obtain ⟨pieces, rest, hlaw⟩ := tokens_decompose (reachable_withComma .scoped) hx hcall
  exact ⟨t, s, pieces, rest, hcall, hlaw⟩

end Program

end CheckedMemory
