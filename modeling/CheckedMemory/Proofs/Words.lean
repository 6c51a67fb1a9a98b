import CheckedMemory.Proofs.Pieces
import CheckedMemory.Proofs.Upcoming
import CheckedMemory.Stream.Word

/-!
# Words of a stream

What a scan takes off the bytes of a stream is told on lists: blanks, then bytes of the first word,
as many as it may take (`afterWord`).  Scans one after another take the bytes apart, and what they
took are all bytes without the blanks, each piece from one word (`TakenApart.filter_eq`,
`TakenApart.exists_word`).

That is what a scan does to any source that gives its bytes in order, takes the last one back and
knows the blanks (`ByteSource.Yields.scanWord`).  It reads one byte too many to know that a word has
ended, or that it has as much of it as it may take, and gives that byte back; at the end of the
bytes there is none to give back.  A stream is such a source (`Stream.yields`).
-/

namespace CheckedMemory

open Numeral

/-! ## 1. Words of a list -/

section Lists

variable {bytes u v : List UInt8} {b : UInt8} {limit : Nat}

/-- The first word of some bytes: those without blanks after the blanks in front. -/
def firstWord (bytes : List UInt8) : List UInt8 :=
  (bytes.dropWhile isBlank).takeWhile (!isBlank ·)

/-- What is left of them when the blanks in front and at most so many bytes of the word are gone. -/
def afterWord (limit : Nat) (bytes : List UInt8) : List UInt8 :=
  (bytes.dropWhile isBlank).drop ((firstWord bytes).take limit).length

/-- **Nothing is lost**: blanks, the bytes of the word and what is left make up all. -/
theorem blanks_append_firstWord (limit : Nat) (bytes : List UInt8) :
    bytes.takeWhile isBlank ++ ((firstWord bytes).take limit ++ afterWord limit bytes) = bytes := by
  have hprefix : (firstWord bytes).take limit <+: bytes.dropWhile isBlank :=
    (List.take_prefix _ _).trans (List.takeWhile_prefix _)
  obtain ⟨rest, hrest⟩ := hprefix
  have hafter : afterWord limit bytes = rest := by
    rw [afterWord, ← hrest, List.drop_left]
  rw [hafter, hrest, List.takeWhile_append_dropWhile]

theorem afterWord_eq_drop (limit : Nat) (bytes : List UInt8) : afterWord limit bytes =
    bytes.drop ((bytes.takeWhile isBlank).length + min (firstWord bytes).length limit) := by
  have hall := blanks_append_firstWord limit bytes
  rw [← List.append_assoc] at hall
  have hlen : (bytes.takeWhile isBlank ++ (firstWord bytes).take limit).length =
      (bytes.takeWhile isBlank).length + min (firstWord bytes).length limit := by
    rw [List.length_append, List.length_take, Nat.min_comm]
  have hdrop : bytes.drop (bytes.takeWhile isBlank ++ (firstWord bytes).take limit).length =
      afterWord limit bytes :=
    (congrArg _ hall.symm).trans List.drop_left
  rw [← hdrop, hlen]

theorem isBlank_of_mem_firstWord (h : b ∈ firstWord bytes) : isBlank b = false := by
  simpa using List.mem_takeWhile_imp h

/-- **There is no word exactly if there are only blanks.** -/
theorem firstWord_eq_nil_iff : firstWord bytes = [] ↔ ∀ b ∈ bytes, isBlank b = true :=
  takeWhile_dropWhile_eq_nil_iff

/-- At most so many bytes of the first word, if there is a word. -/
def takenWord? (limit : Nat) (bytes : List UInt8) : Option (List UInt8) :=
  if firstWord bytes = [] then none else some ((firstWord bytes).take limit)

theorem getD_takenWord? (limit : Nat) (bytes : List UInt8) :
    (takenWord? limit bytes).getD [] = (firstWord bytes).take limit := by
  unfold takenWord?
  split
  · rename_i h
    rw [h, List.take_nil]
    rfl
  · rfl

/-- Where there is no word, nothing is left. -/
theorem afterWord_eq_nil (limit : Nat) (h : firstWord bytes = []) : afterWord limit bytes = [] := by
  have hall : bytes.dropWhile isBlank = [] :=
    List.dropWhile_eq_nil_iff.mpr (firstWord_eq_nil_iff.mp h)
  rw [afterWord, hall, List.drop_nil]

/-- Where there is one, something of it is gone. -/
theorem length_afterWord_lt (hword : firstWord bytes ≠ []) (hlimit : 0 < limit) :
    (afterWord limit bytes).length < bytes.length := by
  have hall := congrArg List.length (blanks_append_firstWord limit bytes)
  have hpos := List.length_pos_iff.mpr hword
  rw [List.length_append, List.length_append, List.length_take] at hall
  omega

end Lists

/-! ## 2. Pieces of words -/

section Pieces

variable {bytes piece more rest : List UInt8} {pieces : List (List UInt8)} {limit : Nat}

/-- The words of some bytes: what is between the blanks. -/
def words (bytes : List UInt8) : List (List UInt8) := (bytes.splitOnP isBlank).filter (· ≠ [])

/-- What is taken off some bytes piece by piece, and what is left.  Before each piece only blanks
are skipped, and no piece has a blank in it. -/
inductive TakenApart : List UInt8 → List (List UInt8) → List UInt8 → Prop
  | done {rest : List UInt8} : TakenApart rest [] rest
  | piece {gap piece more rest : List UInt8} {pieces : List (List UInt8)}
      (hgap : ∀ b ∈ gap, isBlank b = true) (hpiece : ∀ b ∈ piece, isBlank b = false)
      (h : TakenApart more pieces rest) :
      TakenApart (gap ++ (piece ++ more)) (piece :: pieces) rest

/-- Some of a word is a piece. -/
theorem TakenApart.firstWord (limit : Nat) (h : TakenApart (afterWord limit bytes) pieces rest) :
    TakenApart bytes ((firstWord bytes).take limit :: pieces) rest := by
  have hgap : ∀ b ∈ bytes.takeWhile isBlank, isBlank b = true := fun _ hb =>
    List.mem_takeWhile_imp hb
  have hpiece : ∀ b ∈ (CheckedMemory.firstWord bytes).take limit, isBlank b = false := fun _ hb =>
    isBlank_of_mem_firstWord (List.mem_of_mem_take hb)
  have hall := TakenApart.piece hgap hpiece h
  rwa [blanks_append_firstWord] at hall

/-- **The pieces are all bytes without the blanks.** -/
theorem TakenApart.filter_eq (h : TakenApart bytes pieces rest) :
    bytes.filter (!isBlank ·) = pieces.flatten ++ rest.filter (!isBlank ·) := by
  induction h with
  | done => rfl
  | @piece gap piece more rest pieces hgap hpiece _ ih =>
    have hnone : gap.filter (!isBlank ·) = [] :=
      List.filter_eq_nil_iff.mpr fun b hb => by simp [hgap b hb]
    have hself : piece.filter (!isBlank ·) = piece :=
      List.filter_eq_self.mpr fun b hb => by simp [hpiece b hb]
    rw [List.filter_append, List.filter_append, hnone, hself, ih, List.flatten_cons,
      List.nil_append, List.append_assoc]

/-- The bytes in front of a blank, or before the end, are in the first word or before it. -/
theorem exists_prefix_of_splitOnP (hpiece : ∀ b ∈ piece, isBlank b = false) (more : List UInt8) :
    ∃ word ∈ (piece ++ more).splitOnP isBlank, piece <+: word := by
  have hsplit := List.takeWhile_append_dropWhile (p := (!isBlank ·)) (l := more)
  have hnot := List.head?_dropWhile_not (!isBlank ·) more
  have hall : ∀ b ∈ piece ++ more.takeWhile (!isBlank ·), isBlank b = false := fun b hb =>
    (List.mem_append.mp hb).elim (hpiece b) fun hb => by simpa using List.mem_takeWhile_imp hb
  generalize more.takeWhile (!isBlank ·) = front at hsplit hall
  generalize more.dropWhile (!isBlank ·) = back at hsplit hnot
  subst hsplit
  refine ⟨piece ++ front, ?_, List.prefix_append piece front⟩
  rw [← List.append_assoc]
  cases back with
  | nil =>
    rw [List.append_nil, List.splitOnP_eq_singleton hall]
    exact List.mem_singleton_self _
  | cons c back =>
    have hc : isBlank c = true := by simpa using hnot
    rw [List.splitOnP_append_cons _ _ hc, List.splitOnP_eq_singleton hall]
    exact List.mem_append_left _ (List.mem_singleton_self _)

/-- A stretch without blanks lies in one word. -/
theorem exists_word_of_infix (hpiece : ∀ b ∈ piece, isBlank b = false)
    (hinside : piece <:+: bytes) : ∃ word ∈ bytes.splitOnP isBlank, piece <:+: word := by
  obtain ⟨front, more, rfl⟩ := hinside
  rw [List.append_assoc]
  induction front with
  | nil =>
    obtain ⟨word, hword, hprefix⟩ := exists_prefix_of_splitOnP hpiece more
    exact ⟨word, hword, hprefix.isInfix⟩
  | cons c front ih =>
    obtain ⟨word, hword, hin⟩ := ih
    rw [List.cons_append, List.splitOnP_cons_eq_if_modifyHead]
    split
    · exact ⟨word, List.mem_cons_of_mem _ hword, hin⟩
    · cases hsplit : (front ++ (piece ++ more)).splitOnP isBlank with
      | nil => simp [hsplit] at hword
      | cons first others =>
        rw [hsplit] at hword
        rcases List.mem_cons.mp hword with rfl | hother
        · exact ⟨c :: word, List.mem_cons_self, hin.trans (List.suffix_cons c word).isInfix⟩
        · exact ⟨word, List.mem_cons_of_mem _ hother, hin⟩

/-- **No piece reaches from one word into another.** -/
theorem TakenApart.exists_word (h : TakenApart bytes pieces rest) (hp : piece ∈ pieces)
    (hne : piece ≠ []) : ∃ word ∈ words bytes, piece <:+: word := by
  have hfact : (∀ b ∈ piece, isBlank b = false) ∧ piece <:+: bytes := by
    induction h with
    | done => cases hp
    | @piece gap first more rest pieces hgap hpiece h ih =>
      rcases List.mem_cons.mp hp with rfl | hp
      · exact ⟨hpiece, List.append_assoc gap piece more ▸ List.infix_append gap piece more⟩
      · obtain ⟨hnone, hin⟩ := ih hp
        refine ⟨hnone, hin.trans ?_⟩
        exact ((List.suffix_append first more).trans (List.suffix_append gap _)).isInfix
  obtain ⟨word, hword, hin⟩ := exists_word_of_infix hfact.1 hfact.2
  refine ⟨word, List.mem_filter.mpr ⟨hword, ?_⟩, hin⟩
  have hlong := hin.length_le
  have hpos := List.length_pos_iff.mpr hne
  exact decide_eq_true (List.ne_nil_of_length_pos (by omega))

end Pieces

/-! ## 3. Scanning -/

namespace ByteSource

variable {σ : Type} {source : ByteSource σ} {Has : σ → List UInt8 → Prop} {s s' : σ}
  {bytes : List UInt8} {b? : Option UInt8} {most limit n : Nat}

/-- What is assumed of a source, where `Has` says which bytes it has to give: they come in order and
none after the last, the one that came last can be given back, and the blanks are those of text. -/
structure Yields (source : ByteSource σ) (Has : σ → List UInt8 → Prop) : Prop where
  last : ∀ {s}, Has s [] → ∃ s', source.next s = (none, s') ∧ Has s' []
  next : ∀ {s b bytes}, Has s (b :: bytes) → ∃ s', source.next s = (some b, s') ∧ Has s' bytes ∧
    Has (source.giveBack b s') (b :: bytes)
  blank_eq : ∀ b, source.blank b = Numeral.isBlank b

/-- These bytes are to come, the one that was given last among them if there was one. -/
def Ahead (source : ByteSource σ) (Has : σ → List UInt8 → Prop) :
    Option UInt8 → σ → List UInt8 → Prop
  | none, s, bytes => bytes = [] ∧ Has s []
  | some b, s, bytes => ∃ more, bytes = b :: more ∧ Has s more ∧ Has (source.giveBack b s) bytes

namespace Yields

theorem exists_next (h : source.Yields Has) (hs : Has s bytes) :
    ∃ b? s', source.next s = (b?, s') ∧ source.Ahead Has b? s' bytes := by
  cases bytes with
  | nil =>
    obtain ⟨s', hnext, hs'⟩ := h.last hs
    exact ⟨none, s', hnext, rfl, hs'⟩
  | cons b bytes =>
    obtain ⟨s', hnext, hs', hback⟩ := h.next hs
    exact ⟨some b, s', hnext, bytes, rfl, hs', hback⟩

/-- Blanks are skipped up to the first byte of a word, or to the end. -/
theorem skipBlanks (h : source.Yields Has) (hs : Has s bytes) (hn : bytes.length < n) :
    ∃ b? s', source.skipBlanks n s = (b?, s') ∧
      source.Ahead Has b? s' (bytes.dropWhile isBlank) := by
  induction n generalizing s bytes with
  | zero => exact absurd hn (Nat.not_lt_zero _)
  | succ n ih =>
    obtain ⟨b?, s', hnext, hahead⟩ := h.exists_next hs
    cases b? with
    | none =>
      obtain ⟨rfl, hs'⟩ := hahead
      refine ⟨none, s', ?_, rfl, hs'⟩
      simp only [ByteSource.skipBlanks, hnext]
    | some b =>
      obtain ⟨more, rfl, hs', hback⟩ := hahead
      cases hb : isBlank b with
      | true =>
        obtain ⟨b?, t, hskip, hrest⟩ := ih hs' (Nat.lt_of_succ_lt_succ hn)
        refine ⟨b?, t, ?_, by rwa [List.dropWhile_cons_of_pos hb]⟩
        simp only [ByteSource.skipBlanks, hnext, h.blank_eq, hb, if_true, hskip]
      | false =>
        refine ⟨some b, s', ?_, ?_⟩
        · simp [ByteSource.skipBlanks, hnext, h.blank_eq, hb]
        · rw [List.dropWhile_cons_of_neg (by simp [hb])]
          exact ⟨more, rfl, hs', hback⟩

/-- **At most so many bytes of a word are taken**, and the byte that ended it or was too many is
given back. -/
theorem takeWord (h : source.Yields Has) (hs : source.Ahead Has b? s bytes) (limit : Nat)
    (got : List UInt8) :
    ∃ s', source.takeWord limit got b? s =
        (got.reverse ++ (bytes.takeWhile (!isBlank ·)).take limit, s') ∧
      Has s' (bytes.drop ((bytes.takeWhile (!isBlank ·)).take limit).length) := by
  induction limit generalizing s b? bytes got with
  | zero =>
    cases b? with
    | none =>
      obtain ⟨rfl, hs⟩ := hs
      exact ⟨s, by simp [ByteSource.takeWord], hs⟩
    | some b =>
      obtain ⟨more, rfl, -, hback⟩ := hs
      exact ⟨source.giveBack b s, by simp [ByteSource.takeWord], by simpa using hback⟩
  | succ limit ih =>
    cases b? with
    | none =>
      obtain ⟨rfl, hs⟩ := hs
      exact ⟨s, by simp [ByteSource.takeWord], hs⟩
    | some b =>
      obtain ⟨more, rfl, hs, hback⟩ := hs
      cases hb : isBlank b with
      | true =>
        refine ⟨source.giveBack b s, ?_, by simpa [hb] using hback⟩
        simp [ByteSource.takeWord, h.blank_eq, hb]
      | false =>
        obtain ⟨c?, s₁, hnext, hahead⟩ := h.exists_next hs
        obtain ⟨s', htake, hs'⟩ := ih hahead (b :: got)
        refine ⟨s', ?_, by simpa [hb] using hs'⟩
        simp [ByteSource.takeWord, h.blank_eq, hb, hnext, htake]

/-- **A scan takes the first word, or as much of it as it may**, and leaves what is behind. -/
theorem scanWord (h : source.Yields Has) (hs : Has s bytes) (hmost : bytes.length ≤ most)
    (limit : Nat) : ∃ s', source.scanWord most limit s = (takenWord? limit bytes, s') ∧
      Has s' (afterWord limit bytes) := by
  obtain ⟨b?, t, hskip, hahead⟩ := h.skipBlanks hs (Nat.lt_succ_of_le hmost)
  have hnot := List.head?_dropWhile_not isBlank bytes
  unfold ByteSource.scanWord takenWord?
  cases b? with
  | none =>
    obtain ⟨hall, ht⟩ := hahead
    have hword : firstWord bytes = [] := by rw [firstWord, hall, List.takeWhile_nil]
    rw [if_pos hword, afterWord_eq_nil limit hword]
    exact ⟨t, by rw [hskip], ht⟩
  | some b =>
    obtain ⟨s', htake, hs'⟩ := h.takeWord hahead limit []
    obtain ⟨more, hmore, -⟩ := hahead
    have hb : isBlank b = false := by
      rw [hmore] at hnot
      simpa using hnot
    have hword : firstWord bytes ≠ [] := by
      rw [firstWord, hmore, List.takeWhile_cons_of_pos (by simp [hb])]
      exact List.cons_ne_nil _ _
    rw [if_neg hword]
    exact ⟨s', by rw [hskip]; simp only [htake]; rfl, hs'⟩

end Yields

end ByteSource

namespace Stream

variable {s : Stream} {d : Directory} {bytes : List UInt8}

/-- **A stream gives its bytes in order and takes the last one back.** -/
theorem yields (d : Directory) : (byteSource d).Yields (Has · d) where
  last h := h.nextByte_nil
  next h := h.nextByte_cons
  blank_eq _ := rfl

theorem Has.stopWriting (h : s.Has d bytes) : s.stopWriting d = (true, s, d) := by
  unfold Stream.stopWriting
  rw [h.reading]
  rfl

/-- **A word is read** if there is one, and what is left is behind it. -/
theorem Has.readWord (h : s.Has d bytes) (limit : Nat) :
    ∃ s', s.readWord d limit = (takenWord? limit bytes, s', d) ∧
      s'.Has d (afterWord limit bytes) := by
  obtain ⟨s', hscan, h'⟩ := (yields d).scanWord h h.length_le limit
  refine ⟨s', ?_, h'⟩
  unfold Stream.readWord
  rw [h.stopWriting]
  simp only [if_true, hscan]

end Stream

end CheckedMemory
