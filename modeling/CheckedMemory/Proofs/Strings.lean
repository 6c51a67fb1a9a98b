import CheckedMemory.Proofs.Routes
import Mathlib.Data.List.TakeWhile

/-!
# Strings in memory

A string is told by the bytes of its array: those from the current one to the first that is zero,
if there is one before the array ends.  `CString.Spells` says so of memory, with no word of how a
string is looked for, and `CString.Begins` says the same of the first bytes only.  What the readers
give is then exactly what is spelled (`CString.outcome_contents`, `CString.spells_of_contents`).
-/

namespace CheckedMemory

open Operation

/-! ## 1. Bytes in a row -/

section Rows

variable (f : Address → UInt8) (a : Address)

theorem bytesFrom_add (m n : Nat) :
    bytesFrom f a (m + n) = bytesFrom f a m ++ bytesFrom f (a + UInt64.ofNat m) n := by
  simp only [bytesFrom, List.range_add, List.map_append, List.map_map, Function.comp_def,
    UInt64.ofNat_add, UInt64.add_assoc]

theorem take_bytesFrom {k n : Nat} (h : k ≤ n) : (bytesFrom f a n).take k = bytesFrom f a k := by
  obtain ⟨m, rfl⟩ := Nat.exists_eq_add_of_le h
  rw [bytesFrom_add, List.take_left' (length_bytesFrom f a k)]

theorem drop_bytesFrom {k n : Nat} (h : k ≤ n) :
    (bytesFrom f a n).drop k = bytesFrom f (a + UInt64.ofNat k) (n - k) := by
  obtain ⟨m, rfl⟩ := Nat.exists_eq_add_of_le h
  rw [bytesFrom_add, List.drop_left' (length_bytesFrom f a k), Nat.add_sub_cancel_left]

end Rows

namespace Patch

variable {p : Patch} {f g : Address → UInt8} {a : Address} {n : Nat}

/-- A row of bytes that a patch misses is as it was. -/
theorem bytesFrom_of_misses (hg : ∀ b, g b = (p.byte? b).getD (f b)) (h : p.Misses a n)
    (hlt : a.toNat + n ≤ 2 ^ 64) : bytesFrom g a n = bytesFrom f a n := by
  rw [funext hg]
  exact bytesFrom_eq_iff_not_alters.mpr (h.not_alters hlt)

/-- Where a patch is, the row of bytes is its own. -/
theorem bytesFrom_self (hg : ∀ b, g b = (p.byte? b).getD (f b))
    (hlt : p.start.toNat + p.bytes.length ≤ 2 ^ 64) :
    bytesFrom g p.start p.bytes.length = p.bytes := by
  refine List.ext_getElem (length_bytesFrom _ _ _) fun i h _ => ?_
  rw [length_bytesFrom] at h
  have haddr : (p.start + UInt64.ofNat i).toNat = p.start.toNat + i :=
    Word.toNat_add_ofNat (by omega)
  have hbyte : p.byte? (p.start + UInt64.ofNat i) = some p.bytes[i] := by
    rw [byte?, if_pos (UInt64.le_iff_toNat_le.mpr (by omega)), haddr, Nat.add_sub_cancel_left]
    exact List.getElem?_eq_getElem h
  simp only [bytesFrom, List.getElem_map, List.getElem_range, hg, hbyte, Option.getD_some]

end Patch

/-! ## 2. The rest of an array -/

namespace Span

variable {s : Span} {count : UInt64}

/-- How many elements there are from the current one to the end. -/
def left (s : Span) : Nat := (s.extent.toNat - s.index.toInt).toNat

theorem toNat_of_remaining (h : s.remaining = .ok count) : count.toNat = s.left := by
  obtain ⟨-, h0, hsum⟩ := remaining_eq_ok_iff.mp h
  unfold left
  omega

theorem Inside.exists_remaining (h : s.Inside) : ∃ count, s.remaining = .ok count ∧
    count.toNat = s.left := by
  obtain ⟨count, hcount⟩ := exists_remaining_iff.mpr h
  exact ⟨count, hcount, toNat_of_remaining hcount⟩

/-- A move by no more than what is left stays in the array. -/
theorem Inside.shift (h : s.Inside) (hext : s.extent.toNat < 2 ^ 63) {n : Nat} (hn : n ≤ s.left) :
    (s.shift (Int64.ofNat n)).Inside ∧ (s.shift (Int64.ofNat n)).left = s.left - n := by
  obtain ⟨hne, h0, hle⟩ := h
  unfold left at hn ⊢
  have hmove : (Int64.ofNat n).toInt = n := Int64.toInt_ofNat_of_lt (by omega)
  have hindex : (s.index + Int64.ofNat n).toInt = s.index.toInt + n := by
    rw [Int64.toInt_add, hmove, Int.bmod_eq_of_le (by omega) (by omega)]
  refine ⟨⟨hne, ?_, ?_⟩, ?_⟩
  · rw [index_shift, hindex]
    omega
  · rw [index_shift, extent_shift, hindex]
    omega
  · rw [index_shift, extent_shift, hindex]
    omega

end Span

section Arrays

variable {P Q : ElemType → Type} [ArrayLike P] [ArrayLike Q] {p dst : P .uint8} {src : Q .uint8}
  {past : List Block} {w w' : World} {n : UInt64} {i k : Nat} {t u bs : List UInt8}
  {r : Runs UInt8}

namespace ArrayLike

/-- A byte is as far from the current one as its offset says. -/
theorem address_offset (p : P .uint8) (n : Nat) :
    address (offset p (Int64.ofNat n)) = address p + UInt64.ofNat n := by
  have hword : (Int64.ofNat n).toUInt64 * ElemType.size .uint8 = UInt64.ofNat n :=
    UInt64.mul_one _
  rw [address, offset, span_withSpan, Span.address, Span.base_shift, Span.index_shift,
    Span.elementAddress_add, hword]
  rfl

/-- The bytes that are left of a byte array are held where it is. -/
theorem holds_left (h : w.Sound past) (hb : w.Backs past .uint8 (span p)) (hin : (span p).Inside) :
    ∃ count, rest p = .ok (address p, count) ∧ count.toNat = (span p).left ∧
      w.Holds past .uint8 (address p) (span p).left := by
  obtain ⟨count, hcount, hleft⟩ := hin.exists_remaining
  have hrest := rest_of_remaining hcount
  exact ⟨count, hrest, hleft, hleft ▸ (hb.holds_rest h hrest).2⟩

/-- There is a rest of an array only inside it. -/
theorem inside_of_rest {a : Address} {count : UInt64} (h : rest p = .ok (a, count)) :
    (span p).Inside :=
  Span.exists_remaining_iff.mp ⟨count, remaining_of_rest h⟩

theorem address_add_left_lt (h : w.Sound past) (hb : w.Backs past .uint8 (span p))
    (hin : (span p).Inside) : (address p).toNat + (span p).left < 2 ^ 47 := by
  obtain ⟨-, -, -, hheld⟩ := holds_left h hb hin
  have hend := hheld.end_lt h
  rwa [show (ElemType.layout .uint8).size = 1 from rfl, Nat.mul_one] at hend

theorem extent_lt (h : w.Sound past) (hb : w.Backs past .uint8 (span p))
    (hin : (span p).Inside) : (span p).extent.toNat < 2 ^ 63 := by
  have hend := (hb.holds hin.1).end_lt h
  rw [show (ElemType.layout .uint8).size = 1 from rfl] at hend
  omega

end ArrayLike

/-! ## 3. What is spelled -/

namespace CString

open ArrayLike (span address)

/-- The bytes of the array from the current one on. -/
def bytesLeft (p : P .uint8) (w : World) : List UInt8 :=
  bytesFrom w.memory.byte (address p) (span p).left

/-- The pointer is to the string `t`: its bytes and a terminator are the next ones of the array. -/
structure Spells (p : P .uint8) (w : World) (t : List UInt8) : Prop where
  inside : (span p).Inside
  fits : t.length < (span p).left
  nonzero : ∀ b ∈ t, b ≠ 0
  bytes : bytesFrom w.memory.byte (address p) (t.length + 1) = t ++ [0]

/-- The first `n` bytes say `t`: they are a string with its terminator and maybe more, or `t` is all
of them and there is no terminator among them. -/
inductive Begins (p : P .uint8) (w : World) (n : Nat) (t : List UInt8) : Prop where
  | ended (string : Spells p w t) (lt : t.length < n)
  | full (inside : (span p).Inside) (fits : n ≤ (span p).left) (length : t.length = n)
      (nonzero : ∀ b ∈ t, b ≠ 0) (bytes : bytesFrom w.memory.byte (address p) n = t)

/-- A list is cut at its first zero in one way only. -/
theorem takeWhile_append_zero (h : ∀ b ∈ t, b ≠ 0) (bs : List UInt8) :
    (t ++ 0 :: bs).takeWhile (· != 0) = t := by
  rw [List.takeWhile_append_of_pos fun b hb => by simpa using h b hb]
  simp

theorem exists_of_zero_mem (h : 0 ∈ bs) : ∃ rest, bs = bs.takeWhile (· != 0) ++ 0 :: rest := by
  have hsplit := List.takeWhile_append_dropWhile (p := (· != 0)) (l := bs)
  cases hd : bs.dropWhile (· != 0) with
  | nil =>
    have hall := List.dropWhile_eq_nil_iff.mp hd 0 h
    simp at hall
  | cons b rest =>
    have hb : b = 0 := by
      have := List.head_dropWhile_not (· != 0) (l := bs) (by simp [hd])
      simpa [hd] using this
    rw [hd, hb] at hsplit
    exact ⟨rest, hsplit.symm⟩

theorem nonzero_of_mem_takeWhile {b : UInt8} (h : b ∈ bs.takeWhile (· != 0)) : b ≠ 0 := by
  simpa using List.mem_takeWhile_imp h

theorem Spells.exists_bytesLeft (h : Spells p w t) : ∃ rest, bytesLeft p w = t ++ 0 :: rest := by
  obtain ⟨m, hm⟩ := Nat.exists_eq_add_of_le (Nat.succ_le_of_lt h.fits)
  refine ⟨bytesFrom w.memory.byte (address p + UInt64.ofNat (t.length + 1)) m, ?_⟩
  rw [bytesLeft, hm, bytesFrom_add, h.bytes, List.append_assoc]
  rfl

theorem Spells.front (h : Spells p w t) :
    bytesFrom w.memory.byte (address p) t.length = t := by
  rw [← take_bytesFrom _ _ (Nat.le_succ _), h.bytes, List.take_left' rfl]

/-- **What is spelled are the bytes before the first zero**, and there must be one. -/
theorem spells_iff : Spells p w t ↔
    (span p).Inside ∧ 0 ∈ bytesLeft p w ∧ t = (bytesLeft p w).takeWhile (· != 0) := by
  constructor
  · intro h
    obtain ⟨rest, hrest⟩ := h.exists_bytesLeft
    rw [hrest, takeWhile_append_zero h.nonzero]
    exact ⟨h.inside, by simp, rfl⟩
  · rintro ⟨hin, hzero, ht⟩
    obtain ⟨rest, hrest⟩ := exists_of_zero_mem hzero
    rw [← ht] at hrest
    have hlen := congrArg List.length hrest
    rw [bytesLeft, length_bytesFrom, List.length_append, List.length_cons] at hlen
    refine ⟨hin, by omega, fun b hb => nonzero_of_mem_takeWhile (ht ▸ hb), ?_⟩
    rw [← take_bytesFrom _ _ (n := (span p).left) (by omega)]
    change (bytesLeft p w).take _ = _
    rw [hrest, List.take_append, List.take_of_length_le (by omega), Nat.add_sub_cancel_left]
    simp

/-- The byte behind the string is its terminator. -/
theorem Spells.byte_end (h : Spells p w t) :
    w.memory.byte (address p + UInt64.ofNat t.length) = 0 := by
  have hbytes := h.bytes
  rw [bytesFrom_add, h.front] at hbytes
  simpa [bytesFrom] using List.append_cancel_left hbytes

/-- A string that is not empty does not begin with a terminator. -/
theorem Spells.byte_ne_zero (h : Spells p w t) (ht : t.length ≠ 0) :
    w.memory.byte (address p) ≠ 0 := by
  obtain ⟨b, u, rfl⟩ := List.exists_cons_of_length_pos (Nat.pos_of_ne_zero ht)
  have hhead := congrArg List.head? h.front
  simp only [bytesFrom, List.length_cons, List.range_succ_eq_map, List.map_cons,
    List.head?_cons, Option.some.injEq] at hhead
  have hzero : address p + UInt64.ofNat 0 = address p := UInt64.add_zero _
  rw [hzero] at hhead
  exact hhead ▸ h.nonzero b List.mem_cons_self

/-- A bound that no string reaches cuts nothing off. -/
theorem Spells.take_all (h : w.Sound past) (hb : w.Backs past .uint8 (span p))
    (ht : Spells p w t) : t.take (-1 : UInt64).toNat = t := by
  have hend := ArrayLike.address_add_left_lt h hb ht.inside
  have hfits := ht.fits
  exact List.take_of_length_le (by change _ ≤ 2 ^ 64 - 1; omega)

theorem Spells.unique (h : Spells p w t) (h' : Spells p w u) : t = u := by
  rw [(spells_iff.mp h).2.2, (spells_iff.mp h').2.2]

theorem length_bytesLeft (p : P .uint8) (w : World) : (bytesLeft p w).length = (span p).left :=
  length_bytesFrom _ _ _

/-- **What the first bytes say** are those of them that come before the first zero, and there must
be one among them if they are fewer than asked for. -/
theorem begins_iff : Begins p w k t ↔ (span p).Inside ∧
    (0 ∈ (bytesLeft p w).take k ∨ k ≤ (span p).left) ∧
      t = ((bytesLeft p w).take k).takeWhile (· != 0) := by
  constructor
  · rintro (⟨h, hlt⟩ | ⟨hin, hfits, hlen, hnonzero, hbytes⟩)
    · obtain ⟨rest, hrest⟩ := h.exists_bytesLeft
      have hfront : (bytesLeft p w).take k = t ++ 0 :: rest.take (k - t.length - 1) := by
        rw [hrest, List.take_append, List.take_of_length_le (by omega),
          List.take_cons (by omega)]
      rw [hfront, takeWhile_append_zero h.nonzero]
      exact ⟨h.inside, .inl (by simp), rfl⟩
    · have hfront : (bytesLeft p w).take k = t := by
        rw [bytesLeft, take_bytesFrom _ _ hfits, hbytes]
      refine ⟨hin, .inr hfits, ?_⟩
      rw [hfront, List.takeWhile_eq_self_iff.mpr fun b hb => by simpa using hnonzero b hb]
  · rintro ⟨hin, hends, ht⟩
    by_cases hzero : 0 ∈ (bytesLeft p w).take k
    · obtain ⟨rest, hrest⟩ := exists_of_zero_mem hzero
      rw [← ht] at hrest
      have hall : bytesLeft p w = t ++ 0 :: (rest ++ (bytesLeft p w).drop k) := by
        rw [← List.cons_append, ← List.append_assoc, ← hrest, List.take_append_drop]
      have hnonzero : ∀ b ∈ t, b ≠ 0 := fun b hb => nonzero_of_mem_takeWhile (ht ▸ hb)
      refine .ended (spells_iff.mpr ⟨hin, List.mem_of_mem_take hzero, ?_⟩) ?_
      · rw [hall, takeWhile_append_zero hnonzero]
      · have hlen := congrArg List.length hrest
        rw [List.length_take, List.length_append, List.length_cons] at hlen
        omega
    · have hfits := hends.resolve_left hzero
      have hfront : t = (bytesLeft p w).take k := by
        rw [ht, List.takeWhile_eq_self_iff.mpr fun b hb => ?_]
        have hne : b ≠ 0 := fun h0 => hzero (h0 ▸ hb)
        simpa using hne
      refine .full hin hfits ?_ (fun b hb => nonzero_of_mem_takeWhile (ht ▸ hb)) ?_
      · rw [hfront, List.length_take, length_bytesLeft, Nat.min_eq_left hfits]
      · rw [hfront, bytesLeft, take_bytesFrom _ _ hfits]

theorem Begins.unique (h : Begins p w k t) (h' : Begins p w k u) : t = u := by
  rw [(begins_iff.mp h).2.2, (begins_iff.mp h').2.2]

theorem Begins.length_le (h : Begins p w k t) : t.length ≤ k := by
  rcases h with ⟨-, hlt⟩ | ⟨-, -, hlen, -, -⟩
  · exact Nat.le_of_lt hlt
  · exact Nat.le_of_eq hlen

/-- The first bytes of a string say as much of it as they have room for. -/
theorem Spells.begins (h : Spells p w t) (k : Nat) : Begins p w k (t.take k) := by
  by_cases hlt : t.length < k
  · rw [List.take_of_length_le (by omega)]
    exact .ended h hlt
  · have hfits := h.fits
    refine .full h.inside (by omega) (by rw [List.length_take]; omega)
      (fun b hb => h.nonzero b (List.mem_of_mem_take hb)) ?_
    rw [← take_bytesFrom _ _ (n := t.length + 1) (by omega), h.bytes,
      List.take_append_of_le_length (by omega)]

/-! ## 4. Readers -/

theorem isTerminated_iff : isTerminated r = true ↔ 0 ∈ r.toList := by
  rw [isTerminated, Runs.any_eq]
  simp

/-- A look at the rest of an array gives its bytes and changes nothing. -/
theorem outcome_window (h : w.Sound past) (hb : w.Backs past .uint8 (span p))
    (hin : (span p).Inside) :
    ∃ r, outcome (window p) w = (.ok r, w) ∧ r.toList = bytesLeft p w := by
  obtain ⟨count, hrest, hleft, hheld⟩ := ArrayLike.holds_left h hb hin
  have hlt := ArrayLike.address_add_left_lt h hb hin
  obtain ⟨q, hq, hcov⟩ := hheld.exists_covers h
  obtain ⟨cs, hcs⟩ := hheld.exists_read? h
  rw [show (ElemType.layout .uint8).size = 1 from rfl, Nat.mul_one] at hcov hcs
  have hbytes := Memory.toBytes_cells h.apart hq hcov (by omega)
  refine ⟨cs.map Cell.toByte, ?_, ?_⟩
  · rw [← hleft] at hcs
    unfold window loadBytes
    rw [hrest, check, pure_bind]
    exact outcome_bind_ok _ (outcome_load hcs)
  · rw [Runs.toList_map, bytesLeft, ← hbytes, Memory.cells_eq hcs]
    rfl

/-- The rest of an array can be looked at only from inside it. -/
theorem inside_of_window (ho : outcome (window p) w = (.ok r, w')) : (span p).Inside := by
  cases hrest : ArrayLike.rest p with
  | error v =>
    rw [window, hrest] at ho
    cases ho
  | ok x => exact ArrayLike.inside_of_rest hrest

/-- **A reader gives the string that is spelled.** -/
theorem outcome_contents (h : w.Sound past) (hb : w.Backs past .uint8 (span p))
    (ht : Spells p w t) : ∃ r, outcome (contents p) w = (.ok r, w) ∧ r.toList = t := by
  obtain ⟨hin, hzero, rfl⟩ := spells_iff.mp ht
  obtain ⟨r, ho, hr⟩ := outcome_window h hb hin
  have hterm : isTerminated r = true := isTerminated_iff.mpr (hr ▸ hzero)
  refine ⟨beforeTerminator r, ?_, ?_⟩
  · unfold contents
    rw [outcome_bind_ok _ ho, if_pos hterm]
    rfl
  · rw [beforeTerminator, Runs.toList_takeWhile, hr]

/-- **And what it gives is spelled.** -/
theorem spells_of_contents (h : w.Sound past) (hb : w.Backs past .uint8 (span p))
    (ho : outcome (contents p) w = (.ok r, w')) : w' = w ∧ Spells p w r.toList := by
  obtain ⟨bytes, w₁, hwindow, hrest⟩ := exists_of_outcome_bind ho
  have hin := inside_of_window hwindow
  obtain ⟨bytes', hwindow', hbytes⟩ := outcome_window h hb hin
  rw [hwindow'] at hwindow
  cases hwindow
  split at hrest
  · rename_i hterm
    cases hrest
    refine ⟨rfl, spells_iff.mpr ⟨hin, ?_, ?_⟩⟩
    · exact hbytes ▸ isTerminated_iff.mp hterm
    · rw [beforeTerminator, Runs.toList_takeWhile, hbytes]
  · cases hrest

theorem outcome_length (h : w.Sound past) (hb : w.Backs past .uint8 (span p))
    (ht : Spells p w t) : outcome (length p) w = (.ok t.length, w) := by
  obtain ⟨r, ho, rfl⟩ := outcome_contents h hb ht
  unfold length
  rw [outcome_bind_ok _ ho, Runs.length_toList]
  rfl

/-- A reader of the first bytes gives what they say. -/
theorem outcome_leading (h : w.Sound past) (hb : w.Backs past .uint8 (span p))
    (ht : Begins p w n.toNat t) : ∃ r, outcome (leading p n) w = (.ok r, w) ∧ r.toList = t := by
  obtain ⟨hin, hends, rfl⟩ := begins_iff.mp ht
  obtain ⟨bytes, ho, hbytes⟩ := outcome_window h hb hin
  have hterm : isTerminated (bytes.take n.toNat) = true ↔ 0 ∈ (bytesLeft p w).take n.toNat := by
    rw [isTerminated_iff, Runs.toList_take, hbytes]
  unfold leading
  rw [outcome_bind_ok _ ho]
  by_cases hzero : 0 ∈ (bytesLeft p w).take n.toNat
  · refine ⟨beforeTerminator (bytes.take n.toNat), by simp only [hterm.mpr hzero, if_true]; rfl, ?_⟩
    rw [beforeTerminator, Runs.toList_takeWhile, Runs.toList_take, hbytes]
  · have hfits : n.toNat ≤ bytes.length := by
      rw [← Runs.length_toList, hbytes, length_bytesLeft]
      exact hends.resolve_left hzero
    refine ⟨bytes.take n.toNat, by simp only [mt hterm.mp hzero, hfits, if_true]; rfl, ?_⟩
    rw [Runs.toList_take, hbytes, List.takeWhile_eq_self_iff.mpr fun b hb => ?_]
    have hne : b ≠ 0 := fun h0 => hzero (h0 ▸ hb)
    simpa using hne

theorem begins_of_leading (h : w.Sound past) (hb : w.Backs past .uint8 (span p))
    (ho : outcome (leading p n) w = (.ok r, w')) : w' = w ∧ Begins p w n.toNat r.toList := by
  obtain ⟨bytes, w₁, hwindow, hrest⟩ := exists_of_outcome_bind ho
  have hin := inside_of_window hwindow
  obtain ⟨bytes', hwindow', hbytes⟩ := outcome_window h hb hin
  rw [hwindow'] at hwindow
  cases hwindow
  have hterm : isTerminated (bytes.take n.toNat) = true ↔ 0 ∈ (bytesLeft p w).take n.toNat := by
    rw [isTerminated_iff, Runs.toList_take, hbytes]
  dsimp only at hrest
  split at hrest
  · rename_i hzero
    cases hrest
    refine ⟨rfl, begins_iff.mpr ⟨hin, .inl (hterm.mp hzero), ?_⟩⟩
    rw [beforeTerminator, Runs.toList_takeWhile, Runs.toList_take, hbytes]
  · rename_i hzero
    split at hrest
    · rename_i hfits
      cases hrest
      rw [← Runs.length_toList, hbytes, length_bytesLeft] at hfits
      refine ⟨rfl, begins_iff.mpr ⟨hin, .inr hfits, ?_⟩⟩
      rw [Runs.toList_take, hbytes, List.takeWhile_eq_self_iff.mpr fun b hb => ?_]
      have hne : b ≠ 0 := fun h0 => hzero (hterm.mpr (h0 ▸ hb))
      simpa using hne
    · cases hrest

end CString

end Arrays

end CheckedMemory
