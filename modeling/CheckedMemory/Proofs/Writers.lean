import CheckedMemory.Proofs.Guarded
import CheckedMemory.Proofs.Strings

/-!
# Writing strings

The writers copy a string, append one, or copy so many bytes and no more.  Each reads what it needs,
asks for room in the destination, then for an overlap, and stores all of its bytes last.  So it has
one of three ends (`CString.Decides`), which one depends on the lengths of the strings and on where
they are, and never on a byte that is behind the terminator of the source.

Main statement: `Program.writes_strings`.
-/

namespace CheckedMemory

open Operation

section Writers

variable {P Q : ElemType → Type} [ArrayLike P] [ArrayLike Q] {p dst : P .uint8} {src : Q .uint8}
  {past : List Block} {w w' : World} {n : UInt64} {i m needed : Nat} {t u bs : List UInt8}
  {r : Runs UInt8} {a source : Address} {act : Operation Unit}

namespace CString

open ArrayLike (span address)

/-! ## 1. What a write leaves -/

/-- The bytes `bs` have been put over those of the array from the one at offset `i` on, all of them
between the current byte and the end, and nothing else is other than it was. -/
structure Wrote (p : P .uint8) (i : Nat) (bs : List UInt8) (w w' : World) : Prop where
  memory : w' = { w with memory := w'.memory }
  inside : (span p).Inside
  fits : i + bs.length ≤ (span p).left
  byte : ∀ b, w'.memory.byte b =
    ((Patch.mk (address p + UInt64.ofNat i) bs).byte? b).getD (w.memory.byte b)
  outside : ∀ b k, (Patch.mk (address p + UInt64.ofNat i) bs).Misses b k →
    w'.memory.cells b k = w.memory.cells b k

/-- Bytes are stored where there is room for them. -/
theorem outcome_storeBytes (h : w.Sound past) (hb : w.Backs past .uint8 (span p))
    (hin : (span p).Inside) (hfits : i + r.toList.length ≤ (span p).left) :
    ∃ w', outcome (storeBytes (address p + UInt64.ofNat i) r) w = (.ok (), w') ∧
      Wrote p i r.toList w w' ∧ w.Follows past w' := by
  obtain ⟨count, -, hcount, hheld⟩ := ArrayLike.holds_left h hb hin
  have hlt := count.toNat_lt
  have hword : (UInt64.ofNat i).toNat = i := Word.toNat_ofNat (by omega)
  have hplace := hheld.drop h (i := UInt64.ofNat i) (m := r.toList.length) (by omega)
  have hone : UInt64.ofNat i * ElemType.size .uint8 = UInt64.ofNat i := UInt64.mul_one _
  rw [hone] at hplace
  have hlen : (r.map Cell.byte).length ≤ r.toList.length * (ElemType.layout .uint8).size := by
    rw [Runs.length_map, Runs.length_toList]
    exact Nat.le_of_eq (Nat.mul_one _).symm
  obtain ⟨m, hm, hf⟩ := hplace.exists_write? h hlen
  have hbytes : Cell.toBytes (r.map Cell.byte).toList = r.toList := by
    rw [Runs.toList_map]
    exact Cell.toBytes_ofBytes _
  have hstop : ∀ q ∈ w.memory.plots, q.stop ≤ 2 ^ 64 := fun q hq => by
    have := h.stop_lt hq
    omega
  refine ⟨_, outcome_store hm, ⟨rfl, hin, hfits, fun b => ?_, fun b k hmiss => ?_⟩, hf⟩
  · rw [Memory.byte_write? h.apart hstop hm b, hbytes]
  · refine Memory.cells_write?_of_disjoint hm ?_
    rwa [Runs.length_map, ← Runs.length_toList]

namespace Wrote

/-- The bytes from the current one to the last that was written: those in front are as before. -/
theorem bytesFrom_eq (hw : Wrote p i bs w w') (hlt : (address p).toNat + (span p).left < 2 ^ 47) :
    bytesFrom w'.memory.byte (address p) (i + bs.length) =
      bytesFrom w.memory.byte (address p) i ++ bs := by
  have hfits := hw.fits
  have haddr : (address p + UInt64.ofNat i).toNat = (address p).toNat + i :=
    Word.toNat_add_ofNat (by omega)
  have hfront : (Patch.mk (address p + UInt64.ofNat i) bs).Misses (address p) i :=
    .inl (Nat.le_of_eq haddr.symm)
  have hself := Patch.bytesFrom_self (p := ⟨address p + UInt64.ofNat i, bs⟩) hw.byte
    (by dsimp only; omega)
  rw [bytesFrom_add, Patch.bytesFrom_of_misses hw.byte hfront (by omega)]
  exact congrArg _ hself

/-- A string that is written behind bytes that are not zero is spelled together with them. -/
theorem spells (hw : Wrote p i (t ++ [0]) w w') (hlt : (address p).toNat + (span p).left < 2 ^ 47)
    (hfront : bytesFrom w.memory.byte (address p) i = u) (hu : ∀ b ∈ u, b ≠ 0)
    (ht : ∀ b ∈ t, b ≠ 0) : Spells p w' (u ++ t) := by
  have hlen := congrArg List.length hfront
  rw [length_bytesFrom] at hlen
  have hfits := hw.fits
  have hbytes := hw.bytesFrom_eq hlt
  rw [List.length_append, List.length_singleton] at hfits hbytes
  refine ⟨hw.inside, by rw [List.length_append]; omega, fun b hb => ?_, ?_⟩
  · exact (List.mem_append.mp hb).elim (hu b) (ht b)
  · rw [List.length_append, ← hlen, Nat.add_assoc, hbytes, hfront, List.append_assoc]

end Wrote

/-! ## 2. How a writer ends -/

/-- The three ends of a writer that puts the bytes `bs` at offset `i`, when `m` bytes at `source`
are what it must not overlap: no room for all that is to be spelled, an overlap, or the write. -/
structure Decides (past : List Block) (act : Operation Unit) (dst : P .uint8) (i : Nat)
    (bs : List UInt8) (source : Address) (m : Nat) (w : World) : Prop where
  noRoom : (span dst).left < i + bs.length → outcome act w =
    (.error (.violation (.spanOutOfBounds (span dst).index (UInt64.ofNat (i + bs.length))
      (span dst).extent)), w)
  overlap : i + bs.length ≤ (span dst).left →
    overlapping (address dst) (i + bs.length) source m = true →
      outcome act w = (.error (.violation .overlappingCopy), w)
  written : i + bs.length ≤ (span dst).left →
    overlapping (address dst) (i + bs.length) source m = false →
      ∃ w', outcome act w = (.ok (), w') ∧ Wrote dst i bs w w' ∧ w.Follows past w'

theorem outcome_requireRoom (hin : (span dst).Inside) (needed : Nat) (w : World) :
    outcome (requireRoom dst needed) w = if needed ≤ (span dst).left then (.ok (), w) else
      (.error (.violation (.spanOutOfBounds (span dst).index (UInt64.ofNat needed)
        (span dst).extent)), w) := by
  obtain ⟨count, hcount, hleft⟩ := hin.exists_remaining
  unfold requireRoom ArrayLike.remaining
  rw [hcount, check, pure_bind, hleft]
  dsimp only [require]
  by_cases hle : needed ≤ (span dst).left
  · simp [hle]
  · simp [hle]

/-- Room, overlap, store: that is how every writer ends. -/
theorem decides_store (source : Address) (m : Nat) (h : w.Sound past)
    (hb : w.Backs past .uint8 (span dst)) (hin : (span dst).Inside) (hr : r.toList = bs)
    (hneeded : needed = i + bs.length) (ha : a = address dst + UInt64.ofNat i) :
    Decides past (do
      requireRoom dst needed
      require (!overlapping (address dst) needed source m) .overlappingCopy
      storeBytes a r) dst i bs source m w := by
  subst hr hneeded ha
  have hroom := outcome_requireRoom hin (i + r.toList.length) w
  refine ⟨fun hlt => ?_, fun hle hover => ?_, fun hle hover => ?_⟩
  · rw [if_neg (by omega)] at hroom
    exact outcome_bind_error _ hroom
  · rw [if_pos hle] at hroom
    rw [outcome_bind_ok _ hroom, hover]
    rfl
  · rw [if_pos hle] at hroom
    obtain ⟨w', ho, hw⟩ := outcome_storeBytes h hb hin hle
    refine ⟨w', ?_, hw⟩
    rw [outcome_bind_ok _ hroom, hover]
    exact ho

/-- What cannot be written because the destination is not in its array is refused at once. -/
theorem inside_of_requireRoom {x : Unit}
    (ho : outcome (do requireRoom dst needed; act) w = (.ok x, w')) : (span dst).Inside := by
  obtain ⟨_, _, hroom, -⟩ := exists_of_outcome_bind ho
  obtain ⟨_, _, hcheck, -⟩ := exists_of_outcome_bind hroom
  cases hrem : ArrayLike.remaining dst with
  | error v =>
    rw [hrem] at hcheck
    cases hcheck
  | ok count => exact Span.exists_remaining_iff.mp ⟨count, hrem⟩

namespace Decides

/-- What is read first does not matter to how a writer ends. -/
theorem of_outcome {act' : Operation Unit} (hd : Decides past act dst i bs source m w)
    (h : outcome act' w = outcome act w) : Decides past act' dst i bs source m w where
  noRoom hlt := h.trans (hd.noRoom hlt)
  overlap hle hover := h.trans (hd.overlap hle hover)
  written hle hover := h ▸ hd.written hle hover

/-- A writer that ends well has written. -/
theorem wrote (hd : Decides past act dst i bs source m w) {x : Unit}
    (ho : outcome act w = (.ok x, w')) : Wrote dst i bs w w' ∧ w.Follows past w' ∧
      overlapping (address dst) (i + bs.length) source m = false := by
  by_cases hle : i + bs.length ≤ (span dst).left
  · cases hover : overlapping (address dst) (i + bs.length) source m with
    | true =>
      rw [hd.overlap hle hover] at ho
      cases ho
    | false =>
      obtain ⟨w₁, ho₁, hw⟩ := hd.written hle hover
      rw [ho₁] at ho
      cases ho
      exact ⟨hw.1, hw.2, rfl⟩
  · rw [hd.noRoom (by omega)] at ho
    cases ho

end Decides

/-! ## 3. The writers -/

theorem decides_copy (h : w.Sound past) (hd : w.Backs past .uint8 (span dst))
    (hs : w.Backs past .uint8 (span src)) (hin : (span dst).Inside) (ht : Spells src w t) :
    Decides past (copy dst src) dst 0 (t ++ [0]) (address src) t.length w := by
  obtain ⟨r, ho, rfl⟩ := outcome_contents h hs ht
  rw [Runs.length_toList]
  exact (decides_store _ _ h hd hin (r := r ++ terminator) (by simp [terminator]) (by simp)
    (UInt64.add_zero _).symm).of_outcome (outcome_bind_ok _ ho)

theorem decides_append (h : w.Sound past) (hd : w.Backs past .uint8 (span dst))
    (hs : w.Backs past .uint8 (span src)) (ht : Spells src w t) (hu : Spells dst w u)
    (n : UInt64) : Decides past (append dst src n) dst u.length (t.take n.toNat ++ [0])
      (address src) (t.take n.toNat).length w := by
  obtain ⟨r, ho, rfl⟩ := outcome_contents h hs ht
  have hlen := outcome_length h hd hu
  rw [← Runs.toList_take, Runs.length_toList]
  exact (decides_store _ _ h hd hu.inside (r := r.take n.toNat ++ terminator) (by simp [terminator])
    (by simp [Nat.add_assoc]) rfl).of_outcome
      ((outcome_bind_ok _ ho).trans (outcome_bind_ok _ hlen))

theorem decides_copyPadded (h : w.Sound past) (hd : w.Backs past .uint8 (span dst))
    (hs : w.Backs past .uint8 (span src)) (hin : (span dst).Inside)
    (ht : Begins src w n.toNat t) : Decides past (copyPadded dst src n) dst 0
      (t ++ List.replicate (n.toNat - t.length) 0) (address src) t.length w := by
  have hle := ht.length_le
  obtain ⟨r, ho, rfl⟩ := outcome_leading h hs ht
  have hbytes : (r ++ .replicate (n.toNat - r.length) 0).toList =
      r.toList ++ List.replicate (n.toNat - r.length) 0 := by simp
  have hneeded : n.toNat = 0 + (r.toList ++ List.replicate (n.toNat - r.length) 0).length := by
    rw [List.length_append, List.length_replicate, Runs.length_toList] at *
    omega
  have hstore := decides_store (address src) r.length h hd hin hbytes hneeded
    (UInt64.add_zero _).symm
  rw [Runs.length_toList]
  exact hstore.of_outcome (outcome_bind_ok _ ho)

/-! ### What they found if they return -/

theorem exists_of_copy (h : w.Sound past) (hd : w.Backs past .uint8 (span dst))
    (hs : w.Backs past .uint8 (span src)) {x : Unit}
    (ho : outcome (copy dst src) w = (.ok x, w')) :
    ∃ t, Spells src w t ∧
      Decides past (copy dst src) dst 0 (t ++ [0]) (address src) t.length w := by
  obtain ⟨r, w₁, hread, hrest⟩ := exists_of_outcome_bind ho
  obtain ⟨rfl, ht⟩ := spells_of_contents h hs hread
  exact ⟨_, ht, decides_copy h hd hs (inside_of_requireRoom hrest) ht⟩

theorem exists_of_append (h : w.Sound past) (hd : w.Backs past .uint8 (span dst))
    (hs : w.Backs past .uint8 (span src)) {x : Unit}
    (ho : outcome (append dst src n) w = (.ok x, w')) :
    ∃ t u, Spells src w t ∧ Spells dst w u ∧
      Decides past (append dst src n) dst u.length (t.take n.toNat ++ [0]) (address src)
        (t.take n.toNat).length w := by
  obtain ⟨r, w₁, hread, hrest⟩ := exists_of_outcome_bind ho
  obtain ⟨rfl, ht⟩ := spells_of_contents h hs hread
  obtain ⟨k, w₂, hlen, -⟩ := exists_of_outcome_bind hrest
  obtain ⟨r', w₃, hread', -⟩ := exists_of_outcome_bind hlen
  obtain ⟨rfl, hu⟩ := spells_of_contents h hd hread'
  exact ⟨_, _, ht, hu, decides_append h hd hs ht hu n⟩

theorem exists_of_copyPadded (h : w.Sound past) (hd : w.Backs past .uint8 (span dst))
    (hs : w.Backs past .uint8 (span src)) {x : Unit}
    (ho : outcome (copyPadded dst src n) w = (.ok x, w')) :
    ∃ t, Begins src w n.toNat t ∧ Decides past (copyPadded dst src n) dst 0
      (t ++ List.replicate (n.toNat - t.length) 0) (address src) t.length w := by
  obtain ⟨r, w₁, hread, hrest⟩ := exists_of_outcome_bind ho
  obtain ⟨rfl, ht⟩ := begins_of_leading h hs hread
  exact ⟨_, ht, decides_copyPadded h hd hs (inside_of_requireRoom hrest) ht⟩

/-! ## 4. Refusals -/

/-- A check said no, and nothing is other than it was. -/
def RefusedIn (w : World) (f : Fault) (w' : World) : Prop := f.IsRefusal ∧ w' = w

theorem ensures_window_or_refuses (h : w.Sound past) (hb : w.Backs past .uint8 (span p)) :
    Ensures (window p) w (fun _ w' => w' = w) (RefusedIn w) := by
  cases hrest : ArrayLike.rest p with
  | error v =>
    have ho : outcome (window p) w = (.error (.violation v), w) := by
      rw [window, hrest]
      rfl
    exact ensures_of_error ho ⟨trivial, rfl⟩
  | ok x =>
    obtain ⟨r, ho, -⟩ := outcome_window h hb (ArrayLike.inside_of_rest hrest)
    exact ensures_of_ok ho rfl

theorem ensures_contents_or_refuses (h : w.Sound past) (hb : w.Backs past .uint8 (span p)) :
    Ensures (contents p) w (fun _ w' => w' = w) (RefusedIn w) := by
  refine ensures_bind ((ensures_window_or_refuses h hb).mono ?_ fun _ _ hf => hf)
  rintro r w' rfl
  split
  · exact ensures_pure rfl
  · exact ensures_stop ⟨trivial, rfl⟩

theorem ensures_leading_or_refuses (h : w.Sound past) (hb : w.Backs past .uint8 (span p))
    (n : UInt64) :
    Ensures (leading p n) w (fun r w' => w' = w ∧ r.length ≤ n.toNat) (RefusedIn w) := by
  refine ensures_bind ((ensures_window_or_refuses h hb).mono ?_ fun _ _ hf => hf)
  rintro r w' rfl
  have hfront : (r.take n.toNat).length ≤ n.toNat := by
    rw [Runs.length_take]
    omega
  dsimp only
  split
  · exact ensures_pure ⟨rfl, Nat.le_trans (length_beforeTerminator_le _) hfront⟩
  · split
    · exact ensures_pure ⟨rfl, hfront⟩
    · exact ensures_stop ⟨trivial, rfl⟩

/-- The end of a writer, if what it stores is as long as what it asked for. -/
theorem ensures_store_or_refuses (h : w.Sound past) (hb : w.Backs past .uint8 (span dst))
    (hneeded : needed = i + r.toList.length) (ha : a = address dst + UInt64.ofNat i) :
    Ensures (do
      requireRoom dst needed
      require (!overlapping (address dst) needed source m) .overlappingCopy
      storeBytes a r) w (fun _ _ => True) (RefusedIn w) := by
  by_cases hin : (span dst).Inside
  · have hd := decides_store source m h hb hin rfl hneeded ha
    by_cases hle : i + r.toList.length ≤ (span dst).left
    · cases hover : overlapping (address dst) (i + r.toList.length) source m with
      | true => exact ensures_of_error (hd.overlap hle hover) ⟨trivial, rfl⟩
      | false =>
        obtain ⟨w', ho, -⟩ := hd.written hle hover
        exact ensures_of_ok ho trivial
    · exact ensures_of_error (hd.noRoom (by omega)) ⟨trivial, rfl⟩
  · refine ensures_bind (ensures_bind (ensures_check ?_ fun _ _ => ⟨trivial, rfl⟩))
    intro count hcount
    exact absurd (Span.exists_remaining_iff.mp ⟨count, hcount⟩) hin

/-- The operations that write a string, or some of one, to `dst`. -/
inductive Writes (dst : P .uint8) (src : Q .uint8) : Operation Unit → Prop where
  | copy : Writes dst src (copy dst src)
  | append (n : UInt64) : Writes dst src (append dst src n)
  | appendAll : Writes dst src (appendAll dst src)
  | copyPadded (n : UInt64) : Writes dst src (copyPadded dst src n)

/-- **A writer that does not end well has refused, and has written nothing.** -/
theorem Writes.refusedIn (h : w.Sound past) (hd : w.Backs past .uint8 (span dst))
    (hs : w.Backs past .uint8 (span src)) (hact : Writes dst src act) :
    Ensures act w (fun _ _ => True) (RefusedIn w) := by
  have happend : ∀ n, Ensures (CString.append dst src n) w (fun _ _ => True) (RefusedIn w) := by
    intro n
    refine ensures_bind ((ensures_contents_or_refuses h hs).mono ?_ fun _ _ hf => hf)
    rintro r w' rfl
    refine ensures_bind (ensures_bind ((ensures_contents_or_refuses h hd).mono ?_ fun _ _ hf => hf))
    rintro u w' rfl
    exact ensures_pure (ensures_store_or_refuses h hd (by simp [terminator, Nat.add_assoc]) rfl)
  cases hact with
  | copy =>
    refine ensures_bind ((ensures_contents_or_refuses h hs).mono ?_ fun _ _ hf => hf)
    rintro r w' rfl
    exact ensures_store_or_refuses h hd (i := 0) (by simp [terminator]) (UInt64.add_zero _).symm
  | append n => exact happend n
  | appendAll => exact happend (-1)
  | copyPadded n =>
    refine ensures_bind ((ensures_leading_or_refuses h hs n).mono ?_ fun _ _ hf => hf)
    rintro r w' ⟨rfl, hle⟩
    refine ensures_store_or_refuses h hd (i := 0) ?_ (UInt64.add_zero _).symm
    rw [Runs.toList_append, List.length_append, Runs.length_toList, Runs.toList_replicate,
      List.length_replicate]
    omega

/-! ## 5. How they end depends on the strings alone -/

/-- The ends of a writer that needs so much room: it is refused for want of room exactly if there is
too little, and else for an overlap only. -/
structure Ends (act : Operation Unit) (dst : P .uint8) (needed : Nat) (w : World) : Prop where
  noRoom : outcome act w = (.error (.violation (.spanOutOfBounds (span dst).index
    (UInt64.ofNat needed) (span dst).extent)), w) ↔ (span dst).left < needed
  room : needed ≤ (span dst).left → outcome act w = (.error (.violation .overlappingCopy), w) ∨
    ∃ w', outcome act w = (.ok (), w')

namespace Decides

theorem ends (hd : Decides past act dst i bs source m w) (hneeded : i + bs.length = needed) :
    Ends act dst needed w := by
  subst hneeded
  have hroom : i + bs.length ≤ (span dst).left →
      outcome act w = (.error (.violation .overlappingCopy), w) ∨
        ∃ w', outcome act w = (.ok (), w') := by
    intro hle
    cases hover : overlapping (address dst) (i + bs.length) source m with
    | true => exact .inl (hd.overlap hle hover)
    | false =>
      obtain ⟨w', ho, -⟩ := hd.written hle hover
      exact .inr ⟨w', ho⟩
  refine ⟨⟨fun ho => Classical.byContradiction fun hno => ?_, hd.noRoom⟩, hroom⟩
  rcases hroom (by omega) with ho' | ⟨w', ho'⟩
  · rw [ho'] at ho
    cases ho
  · rw [ho'] at ho
    cases ho

theorem result_eq {past' : List Block} (hd : Decides past act dst i bs source m w)
    (hd' : Decides past' act dst i bs source m w') : (outcome act w).1 = (outcome act w').1 := by
  by_cases hle : i + bs.length ≤ (span dst).left
  · cases hover : overlapping (address dst) (i + bs.length) source m with
    | true => rw [hd.overlap hle hover, hd'.overlap hle hover]
    | false =>
      obtain ⟨w₁, ho, -⟩ := hd.written hle hover
      obtain ⟨w₂, ho', -⟩ := hd'.written hle hover
      rw [ho, ho']
  · rw [hd.noRoom (by omega), hd'.noRoom (by omega)]

end Decides

/-- Out of its array, the destination is refused without a look at anything else. -/
theorem outcome_of_not_inside (hin : ¬(span dst).Inside) : ∃ v, ∀ needed (act : Operation Unit) w,
    outcome (do requireRoom dst needed; act) w = (.error (.violation v), w) := by
  cases hrem : ArrayLike.remaining dst with
  | ok count => exact absurd (Span.exists_remaining_iff.mp ⟨count, hrem⟩) hin
  | error v =>
    refine ⟨v, fun needed act w => ?_⟩
    unfold requireRoom
    rw [hrem]
    rfl

/-- In both states the writers give the same result, if the strings are the same there. -/
structure EndsAlike (dst : P .uint8) (src : Q .uint8) (w w' : World) : Prop where
  copy : ∀ t, Spells src w t → Spells src w' t →
    (outcome (copy dst src) w).1 = (outcome (copy dst src) w').1
  append : ∀ n t u, Spells src w t → Spells src w' t → Spells dst w u → Spells dst w' u →
    (outcome (append dst src n) w).1 = (outcome (append dst src n) w').1
  copyPadded : ∀ n t, Begins src w n.toNat t → Begins src w' n.toNat t →
    (outcome (copyPadded dst src n) w).1 = (outcome (copyPadded dst src n) w').1

/-- **How a writer ends depends on no byte but those of the strings.** -/
theorem endsAlike {past' : List Block} (h : w.Sound past) (hd : w.Backs past .uint8 (span dst))
    (hs : w.Backs past .uint8 (span src)) (h' : w'.Sound past')
    (hd' : w'.Backs past' .uint8 (span dst)) (hs' : w'.Backs past' .uint8 (span src)) :
    EndsAlike dst src w w' where
  copy t ht ht' := by
    by_cases hin : (span dst).Inside
    · exact (decides_copy h hd hs hin ht).result_eq (decides_copy h' hd' hs' hin ht')
    · obtain ⟨v, hv⟩ := outcome_of_not_inside hin
      obtain ⟨r, ho, -⟩ := outcome_contents h hs ht
      obtain ⟨r', ho', -⟩ := outcome_contents h' hs' ht'
      rw [CString.copy, outcome_bind_ok _ ho, outcome_bind_ok _ ho', hv, hv]
  append n t u ht ht' hu hu' :=
    (decides_append h hd hs ht hu n).result_eq (decides_append h' hd' hs' ht' hu' n)
  copyPadded n t ht ht' := by
    by_cases hin : (span dst).Inside
    · exact (decides_copyPadded h hd hs hin ht).result_eq (decides_copyPadded h' hd' hs' hin ht')
    · obtain ⟨v, hv⟩ := outcome_of_not_inside hin
      obtain ⟨r, ho, -⟩ := outcome_leading h hs ht
      obtain ⟨r', ho', -⟩ := outcome_leading h' hs' ht'
      rw [CString.copyPadded, outcome_bind_ok _ ho, outcome_bind_ok _ ho', hv, hv]

end CString

end Writers

/-! ## 6. The law on runs -/

namespace Program

open CString
open ArrayLike (span address)

variable {δ : Discipline} {s : Program} {dst src : AnyArrayPtr .uint8}

/-- What the writers leave, where they are refused, and what they never look at. -/
structure StringsWritten (dst src : AnyArrayPtr .uint8) (s : Program) : Prop where
  /-- A copy is the string of the source, with its terminator and nothing else. -/
  copied : ∀ w', outcome (copy dst src) s.world = (.ok (), w') → ∃ t, Spells src s.world t ∧
    Spells dst w' t ∧ Wrote dst 0 (t ++ [0]) s.world w'
  /-- What is appended is written over the terminator of the destination. -/
  appended : ∀ n w', outcome (append dst src n) s.world = (.ok (), w') → ∃ t u,
    Spells src s.world t ∧ Spells dst s.world u ∧ Spells dst w' (u ++ t.take n.toNat) ∧
      Wrote dst u.length (t.take n.toNat ++ [0]) s.world w'
  appendedAll : ∀ w', outcome (appendAll dst src) s.world = (.ok (), w') → ∃ t u,
    Spells src s.world t ∧ Spells dst s.world u ∧ Spells dst w' (u ++ t) ∧
      Wrote dst u.length (t ++ [0]) s.world w'
  /-- As many bytes as are asked for, a terminator among them only if the string leaves room. -/
  padded : ∀ n w', outcome (copyPadded dst src n) s.world = (.ok (), w') → ∃ t,
    Begins src s.world n.toNat t ∧ (∀ x, Spells src s.world x → t = x.take n.toNat) ∧
      bytesFrom w'.memory.byte (address dst) n.toNat =
        t ++ List.replicate (n.toNat - t.length) 0 ∧
      Wrote dst 0 (t ++ List.replicate (n.toNat - t.length) 0) s.world w'
  /-- Whatever the handles are. -/
  refused : ∀ act, Writes dst src act → ∀ f w', outcome act s.world = (.error f, w') →
    f.IsRefusal ∧ w' = s.world
  copyEnds : (span dst).Inside → ∀ t, Spells src s.world t →
    Ends (copy dst src) dst (t.length + 1) s.world
  appendEnds : ∀ n t u, Spells src s.world t → Spells dst s.world u →
    Ends (append dst src n) dst (u.length + min n.toNat t.length + 1) s.world
  appendAllEnds : ∀ t u, Spells src s.world t → Spells dst s.world u →
    Ends (appendAll dst src) dst (u.length + t.length + 1) s.world
  paddedEnds : (span dst).Inside → ∀ n t, Begins src s.world n.toNat t →
    Ends (copyPadded dst src n) dst n.toNat s.world
  /-- What is behind the strings may be anything. -/
  unread : ∀ δ' s', Reachable δ' s' → s'.HasArray .uint8 dst → s'.HasArray .uint8 src →
    EndsAlike dst src s.world s'.world

/-- **The writers of strings write what is asked for, and no more.** -/
theorem writes_strings (hs : Reachable δ s) (hd : s.HasArray .uint8 dst)
    (hq : s.HasArray .uint8 src) : StringsWritten dst src s := by
  have h := hs.sound.world
  have hbd := hd.backs hs.sound.backed
  have hbs := hq.backs hs.sound.backed
  have hroom : (span dst).Inside → (address dst).toNat + (span dst).left < 2 ^ 47 :=
    ArrayLike.address_add_left_lt h hbd
  have happended : ∀ n w', outcome (append dst src n) s.world = (.ok (), w') → ∃ t u,
      Spells src s.world t ∧ Spells dst s.world u ∧ Spells dst w' (u ++ t.take n.toNat) ∧
        Wrote dst u.length (t.take n.toNat ++ [0]) s.world w' := by
    intro n w' ho
    obtain ⟨t, u, ht, hu, hdec⟩ := exists_of_append h hbd hbs ho
    obtain ⟨hw, -⟩ := hdec.wrote ho
    refine ⟨t, u, ht, hu, hw.spells (hroom hw.inside) hu.front hu.nonzero fun b hb => ?_, hw⟩
    exact ht.nonzero b (List.mem_of_mem_take hb)
  have hends : ∀ n t u, Spells src s.world t → Spells dst s.world u →
      Ends (append dst src n) dst (u.length + min n.toNat t.length + 1) s.world := by
    intro n t u ht hu
    exact (decides_append h hbd hbs ht hu n).ends (by simp [Nat.add_assoc])
  refine
    { copied := fun w' ho => ?_
      appended := happended
      appendedAll := fun w' ho => ?_
      padded := fun n w' ho => ?_
      refused := fun act hact f w' ho => (hact.refusedIn h hbd hbs).of_error ho
      copyEnds := fun hin t ht => (decides_copy h hbd hbs hin ht).ends (by simp)
      appendEnds := hends
      appendAllEnds := fun t u ht hu => ?_
      paddedEnds := fun hin n t ht => (decides_copyPadded h hbd hbs hin ht).ends ?_
      unread := fun δ' s' hs' hd' hq' => ?_ }
  · obtain ⟨t, ht, hdec⟩ := exists_of_copy h hbd hbs ho
    obtain ⟨hw, -⟩ := hdec.wrote ho
    exact ⟨t, ht, hw.spells (hroom hw.inside) rfl (fun _ hb => nomatch hb) ht.nonzero, hw⟩
  · obtain ⟨t, u, ht, hu, hspells, hw⟩ := happended (-1) w' ho
    rw [ht.take_all h hbs] at hspells hw
    exact ⟨t, u, ht, hu, hspells, hw⟩
  · obtain ⟨t, ht, hdec⟩ := exists_of_copyPadded h hbd hbs ho
    obtain ⟨hw, -⟩ := hdec.wrote ho
    have hbytes := hw.bytesFrom_eq (hroom hw.inside)
    have hle := ht.length_le
    rw [Nat.zero_add, List.length_append, List.length_replicate, Nat.add_sub_cancel' hle] at hbytes
    exact ⟨t, ht, fun x hx => ht.unique (hx.begins _), hbytes, hw⟩
  · have hall := hends (-1) t u ht hu
    rwa [← List.length_take, ht.take_all h hbs] at hall
  · have hle := ht.length_le
    rw [List.length_append, List.length_replicate]
    omega
  · exact endsAlike h hbd hbs hs'.sound.world (hd'.backs hs'.sound.backed)
      (hq'.backs hs'.sound.backed)

/-- A pointer to one of six bytes of the heap. -/
def letters (i : Int64) : AnyArrayPtr .uint8 :=
  ArrayLike.offset (.plain ⟨⟨0x400000000000, 0, 6⟩⟩) i

/-- The six bytes are a string of two letters and room for more, and there are a pointer to their
first one and a pointer to one of them. -/
def lettersAnd (i : Int64) : Program :=
  (initial.run (giving (.array .uint8 ∘ .plain)
    (ArrayPtr.ofList .uint8 [97, 98, 0, 0, 0, 0]))).keep (.array .uint8 (letters i))

theorem reachable_lettersAnd (δ : Discipline) (i : Int64) : Reachable δ (lettersAnd i) :=
  .tail (.tail .refl (.act (.make (.block (.list .uint8 [97, 98, 0, 0, 0, 0] (by decide))))))
    (.derive (.convert (.offset (p := letters 0) List.mem_cons_self i)))

theorem hasArray_letters (i : Int64) : (lettersAnd i).HasArray .uint8 (letters 0) ∧
    (lettersAnd i).HasArray .uint8 (letters i) :=
  ⟨.handle (List.mem_cons_of_mem _ List.mem_cons_self), .handle List.mem_cons_self⟩

set_option maxRecDepth 2000 in
theorem spells_letters (i : Int64) : Spells (letters 0) (lettersAnd i).world [97, 98] where
  inside := ⟨by decide, by decide, by decide⟩
  fits := by decide
  nonzero := by decide
  bytes := rfl

/-- Where there is room for it behind its terminator, the string is copied. -/
theorem writes_strings_letters :
    ∃ w', outcome (copy (letters 3) (letters 0)) (lettersAnd 3).world = (.ok (), w') ∧
      Spells (letters 3) w' [97, 98] := by
  obtain ⟨hsrc, hdst⟩ := hasArray_letters 3
  have hlaw := writes_strings (reachable_lettersAnd .scoped 3) hdst hsrc
  obtain ⟨w', ho⟩ : ∃ w', outcome (copy (letters 3) (letters 0)) (lettersAnd 3).world =
    (.ok (), w') := ⟨_, rfl⟩
  obtain ⟨t, ht, hcopied, -⟩ := hlaw.copied w' ho
  rw [ht.unique (spells_letters 3)] at hcopied
  exact ⟨w', ho, hcopied⟩

end Program

end CheckedMemory
