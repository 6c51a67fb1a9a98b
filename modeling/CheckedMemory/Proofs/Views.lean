import CheckedMemory.Proofs.Indexing
import CheckedMemory.Proofs.Patches

/-!
# Two views of the same bytes

An array of plain values can be viewed as an array of other plain values.  The view starts where the
array does and has as many of the new elements as fit, and from then on the two are handles to the
same bytes: elements of different sizes need not line up, and there need not be a whole number of
new ones.

`Program.views_coherent` says that this is all there is to it.  However writes through the two are
interleaved, each element read through either is the value of the bytes that were last written at
its addresses, by whichever handle; and one write changes those elements that it puts a new byte
into, and no byte outside its own.
-/

namespace CheckedMemory

open Operation

/-! ## 1. The view -/

namespace AnyArrayPtr

variable {σ τ : ElemType} {a : AnyArrayPtr τ} {past : List Block} {w : World}

/-- The array's bytes as values of type `σ`, through a pointer of the same kind. -/
def reinterpret (σ : ElemType) : AnyArrayPtr τ → Except Violation (AnyArrayPtr σ)
  | plain p => (p.reinterpret σ).map plain
  | bounded p => (p.reinterpret σ).map bounded

theorem reinterpret_of_aligned (hne : a.span.base ≠ 0) (hal : a.span.base % σ.align = 0) :
    ∃ v, a.reinterpret σ = .ok v ∧ v.span = a.span.rescale τ.size σ.size ∧
      v.bound? = a.bound? := by
  have hnull : a.span.isNull = false := by simpa [Span.isNull] using hne
  have hreq : requireAligned σ a.span.base = .ok () := if_pos hal
  cases a with
  | plain p =>
    have h : p.reinterpret σ = .ok ⟨p.span.rescale τ.size σ.size⟩ := by
      simp only [span] at hnull hreq
      simp only [ArrayPtr.reinterpret, hnull, hreq]
      rfl
    exact ⟨.plain _, by rw [reinterpret, h]; rfl, rfl, rfl⟩
  | bounded p =>
    have h : p.reinterpret σ = .ok ⟨p.span.rescale τ.size σ.size, p.bound⟩ := by
      simp only [span] at hnull hreq
      simp only [StackArrayPtr.reinterpret, hnull, hreq]
      rfl
    exact ⟨.bounded _, by rw [reinterpret, h]; rfl, rfl, rfl⟩

/-- `v` is `a` viewed as an array of `σ`: at the same place, with the largest extent that fits in
the bytes.  Viewed back, it has the elements of `a` that are all in it, which are all of them if no
byte is left over. -/
structure IsView (a : AnyArrayPtr τ) (v : AnyArrayPtr σ) : Prop where
  reinterpret : a.reinterpret σ = .ok v
  base : v.span.base = a.span.base
  index : v.span.index = a.span.index
  bound? : v.bound? = a.bound?
  le_extent_iff : ∀ m : Nat, m ≤ v.span.extent.toNat ↔
    m * σ.layout.size ≤ a.span.extent.toNat * τ.layout.size
  back : ∃ u, v.reinterpret τ = .ok u ∧ u.span.base = a.span.base ∧
    u.span.index = a.span.index ∧ u.span.extent.toNat ≤ a.span.extent.toNat ∧
      (u.span.extent = a.span.extent ↔
        σ.layout.size ∣ a.span.extent.toNat * τ.layout.size)

end AnyArrayPtr

/-- Whole elements of `s` bytes in so many bytes, and whole elements of `t` bytes in those, are the
`n` that there were exactly if the first leave no byte over. -/
theorem div_mul_div_eq_iff {n s t : Nat} (ht : 0 < t) :
    n * t / s * s / t ≤ n ∧ (n * t / s * s / t = n ↔ s ∣ n * t) := by
  have hle : n * t / s * s ≤ n * t := Nat.div_mul_le_self _ _
  refine ⟨Nat.div_le_of_le_mul (by rw [Nat.mul_comm t]; exact hle), fun h => ?_, fun h => ?_⟩
  · have hback := Nat.div_mul_le_self (n * t / s * s) t
    rw [h] at hback
    exact ⟨n * t / s, (Nat.le_antisymm hback hle).trans (Nat.mul_comm _ _)⟩
  · rw [Nat.div_mul_cancel h, Nat.mul_div_cancel _ ht]

namespace World.Backs

variable {σ τ : ElemType} {s : Span} {past : List Block} {w : World}

/-- As many of the new elements are there as fit. -/
theorem le_extent_rescale_iff (h : w.Sound past) (hb : w.Backs past τ s) (hne : s.base ≠ 0)
    (hσ : σ.layout.size ≠ 0) (m : Nat) :
    m ≤ (s.rescale τ.size σ.size).extent.toNat ↔
      m * σ.layout.size ≤ s.extent.toNat * τ.layout.size := by
  have hmax : max σ.layout.size 1 = σ.layout.size := by omega
  rw [hb.toNat_extent_rescale σ h hne, hmax, Nat.le_div_iff_mul_le (Nat.pos_of_ne_zero hσ)]

/-- Counted in new elements and then in old ones again, the extent is the old one if no byte was
left over, and less if one was. -/
theorem extent_rescale_back (h : w.Sound past) (hb : w.Backs past τ s) (hne : s.base ≠ 0)
    (hal : s.base % σ.align = 0) (hτ : τ.layout.size ≠ 0) (hσ : σ.layout.size ≠ 0) :
    ((s.rescale τ.size σ.size).rescale σ.size τ.size).extent.toNat ≤ s.extent.toNat ∧
      (((s.rescale τ.size σ.size).rescale σ.size τ.size).extent = s.extent ↔
        σ.layout.size ∣ s.extent.toNat * τ.layout.size) := by
  have hmaxσ : max σ.layout.size 1 = σ.layout.size := by omega
  have hmaxτ : max τ.layout.size 1 = τ.layout.size := by omega
  have hback := (hb.rescale h hal).toNat_extent_rescale τ h hne
  rw [hb.toNat_extent_rescale σ h hne, hmaxσ, hmaxτ] at hback
  rw [← UInt64.toNat_inj, hback]
  exact div_mul_div_eq_iff (Nat.pos_of_ne_zero hτ)

end World.Backs

namespace AnyArrayPtr

variable {σ τ : ElemType} {a : AnyArrayPtr τ} {past : List Block} {w : World}

theorem exists_isView (h : w.Sound past) (hb : w.Backs past τ a.span) (hne : a.span.base ≠ 0)
    (hal : a.span.base % σ.align = 0) (hτ : τ.layout.size ≠ 0) (hσ : σ.layout.size ≠ 0) :
    ∃ v : AnyArrayPtr σ, a.IsView v ∧ w.Backs past σ v.span := by
  obtain ⟨v, hv, hspan, hbound⟩ := reinterpret_of_aligned hne hal
  have hvb : w.Backs past σ v.span := by
    rw [hspan]
    exact hb.rescale h hal
  have hvne : v.span.base ≠ 0 := by
    rw [hspan]
    exact hne
  have hback : v.span.base % τ.align = 0 := by
    rw [hspan]
    apply UInt64.toNat_inj.mp
    rw [UInt64.toNat_mod, ElemType.toNat_align]
    exact (hb.holds hne).1
  obtain ⟨u, hu, huspan, -⟩ := reinterpret_of_aligned hvne hback
  obtain ⟨hle, heq⟩ := hb.extent_rescale_back h hne hal hτ hσ
  rw [← hspan, ← huspan] at hle heq
  have hbase : v.span.base = a.span.base := by
    rw [hspan]
    rfl
  have hindex : v.span.index = a.span.index := by
    rw [hspan]
    rfl
  have hfits : ∀ m : Nat, m ≤ v.span.extent.toNat ↔
      m * σ.layout.size ≤ a.span.extent.toNat * τ.layout.size := fun m => by
    rw [hspan]
    exact hb.le_extent_rescale_iff h hne hσ m
  refine ⟨v, ⟨hv, hbase, hindex, hbound, hfits, u, hu, ?_, ?_, hle, heq⟩, hvb⟩
  · rw [huspan, ← hbase]
    rfl
  · rw [huspan, ← hindex]
    rfl

end AnyArrayPtr

/-! ## 2. Writes and reads -/

variable {σ τ : ElemType} {past : List Block} {w w' : World} {b : Patch}

/-- A read of a held plain value gives the value of the bytes there. -/
theorem World.Holds.outcome_loadValue_bytes {a : Address} (h : w.Sound past)
    (ha : w.Holds past τ a 1) (hτ : τ.isPlain = true) :
    outcome (loadValue τ a) w =
      (.ok (τ.ofBytes (bytesFrom w.memory.byte a τ.layout.size)), w) := by
  obtain ⟨cs, hcs, ho⟩ := ha.outcome_loadValue h
  obtain ⟨q, hq, hc⟩ := ha.exists_covers h
  rw [Nat.one_mul] at hc
  have hend := ha.end_lt h
  have hbytes := Memory.toBytes_cells h.apart hq hc (by omega)
  rw [ho, ← hbytes, Memory.cells_eq hcs, ElemType.ofBytes_toBytes_cells hτ]

namespace ArrayLike

variable {P Q : ElemType → Type} [ArrayLike P] [ArrayLike Q] {p : P τ} {a : P τ} {v : Q σ}
  {i : Int64} {f : Address → UInt8}

/-- Where the element `i` from the current one is, if there is one. -/
def placeOf (p : P τ) (i : Int64) : Address :=
  Span.elementAddress (span p).base τ.size ((span p).index + i)

/-- There is an element `i` from the current one. -/
def Has (p : P τ) (i : Int64) : Prop :=
  Span.inExtent ((span p).index + i) (span p).extent = true

/-- The value that element has if `f` says what the bytes are. -/
def valueOf (p : P τ) (i : Int64) (f : Address → UInt8) : τ.Carrier :=
  τ.ofBytes (bytesFrom f (placeOf p i) τ.layout.size)

/-- A successful write of one element through the pointer puts its bytes where the element is. -/
def Writes (p : P τ) (w : World) (b : Patch) (w' : World) : Prop :=
  ∃ i x, b = ⟨placeOf p i, τ.toBytes x⟩ ∧
    (outcome (set p i x) w = (.ok (), w') ∨ outcome (trySet p i x) w = (.ok true, w'))

/-- Element accesses through the pointer are what they should be if `f` says what the bytes are:
each element that there is reads as the value of its bytes and can be written, and for the rest
every access is refused. -/
structure Shows (p : P τ) (w : World) (f : Address → UInt8) : Prop where
  reads : ∀ i, Has p i → outcome (index p i) w = (.ok (valueOf p i f), w) ∧
    outcome (get? p i) w = (.ok (some (valueOf p i f)), w)
  writes : ∀ i, Has p i → ∀ x, ∃ w', outcome (set p i x) w = (.ok (), w') ∧
    outcome (trySet p i x) w = (.ok true, w')
  refuses : ∀ i, ¬Has p i → Refuses p i w

/-- What a write of the bytes `b` between two states does to what is read through the pointer: the
elements that it puts a new byte into change, and no others; in particular none that it misses. -/
structure Reacts (p : P τ) (w : World) (b : Patch) (w' : World) : Prop where
  changed_iff : ∀ i x x', outcome (index p i) w = (.ok x, w) →
    outcome (index p i) w' = (.ok x', w') →
      (x' ≠ x ↔ b.Alters w.memory.byte (placeOf p i) τ.layout.size)
  missed : ∀ i x, b.Misses (placeOf p i) τ.layout.size →
    outcome (index p i) w = (.ok x, w) → outcome (index p i) w' = (.ok x, w')

/-- Writes through one handle or the other, one after the other, and what each of them wrote, the
newest first. -/
inductive Interleaves (a : P τ) (v : Q σ) (w : World) : List Patch → World → Prop where
  | nil : Interleaves a v w [] w
  | first {ps b w₁ w₂} (h : Interleaves a v w ps w₁) (hw : Writes a w₁ b w₂) :
    Interleaves a v w (b :: ps) w₂
  | second {ps b w₁ w₂} (h : Interleaves a v w ps w₁) (hw : Writes v w₁ b w₂) :
    Interleaves a v w (b :: ps) w₂

theorem locate_of_has (hne : (span p).base ≠ 0) (hi : Has p i) : locate p i = .ok (placeOf p i) :=
  Span.locate_of_inExtent hne hi

theorem refuses_of_not_has (hne : (span p).base ≠ 0) (hi : ¬Has p i) : Refuses p i w :=
  refuses_of_not_inExtent hne (Bool.not_eq_true _ ▸ hi)

theorem holds_placeOf (h : w.Sound past) (hb : w.Backs past τ (span p))
    (hne : (span p).base ≠ 0) (hi : Has p i) : w.Holds past τ (placeOf p i) 1 :=
  hb.holds_locate h (locate_of_has hne hi)

theorem outcome_index (h : w.Sound past) (hb : w.Backs past τ (span p)) (hne : (span p).base ≠ 0)
    (hτ : τ.isPlain = true) (hi : Has p i) :
    outcome (index p i) w = (.ok (valueOf p i w.memory.byte), w) := by
  rw [index_of_locate (locate_of_has hne hi)]
  exact (holds_placeOf h hb hne hi).outcome_loadValue_bytes h hτ

/-- Handles show memory as it is. -/
theorem shows_byte (h : w.Sound past) (hb : w.Backs past τ (span p)) (hne : (span p).base ≠ 0)
    (hτ : τ.isPlain = true) : Shows p w w.memory.byte where
  reads i hi := by
    have hl := locate_of_has hne hi
    have hload := (holds_placeOf h hb hne hi).outcome_loadValue_bytes h hτ
    refine ⟨outcome_index h hb hne hτ hi, ?_⟩
    rw [get?_of_locate hl, outcome_bind_ok _ hload]
    rfl
  writes i hi x := by
    have hl := locate_of_has hne hi
    obtain ⟨cs, m, -, -, ho, -⟩ := (holds_placeOf h hb hne hi).outcome_assign h x
    rw [set_of_locate hl, trySet_of_locate hl, outcome_bind_ok _ ho]
    exact ⟨_, ho, rfl⟩
  refuses i hi := refuses_of_not_has hne hi

/-- **One write**: memory afterwards is memory before under the patch, with the cells that the patch
misses untouched, and everything that was backed still is. -/
theorem Writes.effect (h : w.Sound past) (hb : w.Backs past τ (span p)) (hne : (span p).base ≠ 0)
    (hw : Writes p w b w') :
    (w'.Sound (w'.heap.blocks ++ past) ∧ w.Extends past (w'.heap.blocks ++ past) w') ∧
      (∀ c, w'.memory.byte c = (b.byte? c).getD (w.memory.byte c)) ∧
        ∀ c n, b.Misses c n → w'.memory.cells c n = w.memory.cells c n := by
  obtain ⟨i, x, rfl, hset⟩ := hw
  have hi : Has p i := by
    refine Classical.byContradiction fun hi => ?_
    have hr := refuses_of_not_has (w := w) hne hi
    rw [hr.set, hr.trySet] at hset
    rcases hset with hset | hset <;> cases hset
  have hl := locate_of_has hne hi
  have hheld := holds_placeOf h hb hne hi
  obtain ⟨cs, m, -, hm, ho, -⟩ := hheld.outcome_assign h x
  have hf := ((keeps_assign h hheld x).of_ok ho).1
  rw [set_of_locate hl, trySet_of_locate hl, outcome_bind_ok _ ho, ho] at hset
  obtain rfl : { w with
      memory := m
      dropLog := w.dropLog ++ .ofList (τ.dropMarks (τ.decode cs.toList)) } = w' := by
    rcases hset with hset | hset
    · exact congrArg Prod.snd hset
    · exact congrArg Prod.snd hset
  have hstop : ∀ q ∈ w.memory.plots, q.stop ≤ 2 ^ 64 := fun q hq => by
    have := h.stop_lt hq
    omega
  refine ⟨⟨hf.sound, hf.extends h⟩, fun c => ?_, fun c n hmiss => ?_⟩
  · have hbyte := Memory.byte_write? h.apart hstop hm c
    rwa [Runs.toList_ofList] at hbyte
  · refine Memory.cells_write?_of_disjoint hm ?_
    simp only [Patch.Misses, ElemType.length_toBytes] at hmiss
    rw [Runs.length_ofList, ElemType.length_encode]
    exact hmiss

/-- What a write does to the bytes it does to the elements of any handle to them. -/
theorem reacts_of_byte {past' : List Block} (h : w.Sound past) (hb : w.Backs past τ (span p))
    (h' : w'.Sound past') (hb' : w'.Backs past' τ (span p)) (hne : (span p).base ≠ 0)
    (hτ : τ.isPlain = true) (hbyte : ∀ c, w'.memory.byte c = (b.byte? c).getD (w.memory.byte c)) :
    Reacts p w b w' := by
  have hhas : ∀ {i x}, outcome (index p i) w = (.ok x, w) → Has p i := by
    intro i x hx
    refine Classical.byContradiction fun hi => ?_
    rw [(refuses_of_not_has hne hi).index] at hx
    cases hx
  have hbyte' : w'.memory.byte = fun c => (b.byte? c).getD (w.memory.byte c) := funext hbyte
  have hiff : ∀ i, valueOf p i w'.memory.byte = valueOf p i w.memory.byte ↔
      ¬b.Alters w.memory.byte (placeOf p i) τ.layout.size := fun i => by
    rw [valueOf, valueOf, ElemType.ofBytes_inj hτ (length_bytesFrom _ _ _) (length_bytesFrom _ _ _),
      hbyte', Patch.bytesFrom_eq_iff_not_alters]
  constructor
  · intro i x x' hx hx'
    have hi := hhas hx
    rw [outcome_index h hb hne hτ hi] at hx
    rw [outcome_index h' hb' hne hτ hi] at hx'
    cases hx
    cases hx'
    rw [ne_eq, hiff, Classical.not_not]
  · intro i x hmiss hx
    have hi := hhas hx
    have hend := (holds_placeOf h hb hne hi).end_lt h
    have hsame := (hiff i).mpr (hmiss.not_alters (by omega))
    rw [outcome_index h hb hne hτ hi] at hx
    cases hx
    rw [outcome_index h' hb' hne hτ hi, hsame]

/-! ## 3. Interleaved writes -/

/-- Storage is as it should be for both handles, and holds what was written. -/
structure Carries (a : P τ) (v : Q σ) (w₀ : World) (ps : List Patch) (w : World) : Prop where
  storage : ∃ past, w.Sound past ∧ w.Backs past τ (span a) ∧ w.Backs past σ (span v)
  byte : w.memory.byte = lastWritten w₀.memory.byte ps

theorem Carries.write {w₀ : World} {ps : List Patch} (hc : Carries a v w₀ ps w)
    (ha : (span a).base ≠ 0) (hv : (span v).base ≠ 0) (hw : Writes a w b w' ∨ Writes v w b w') :
    Carries a v w₀ (b :: ps) w' := by
  obtain ⟨past, h, hab, hvb⟩ := hc.storage
  obtain ⟨⟨h', hx⟩, hbyte, -⟩ := hw.elim (Writes.effect h hab ha) (Writes.effect h hvb hv)
  refine ⟨⟨_, h', hab.mono hx, hvb.mono hx⟩, funext fun c => ?_⟩
  rw [hbyte, hc.byte]
  rfl

/-- **Any interleaving of writes** leaves what each of them wrote last. -/
theorem Interleaves.carries {w₀ : World} {ps : List Patch} (hr : Interleaves a v w₀ ps w)
    (h : w₀.Sound past) (hab : w₀.Backs past τ (span a)) (hvb : w₀.Backs past σ (span v))
    (ha : (span a).base ≠ 0) (hv : (span v).base ≠ 0) : Carries a v w₀ ps w := by
  induction hr with
  | nil => exact ⟨⟨past, h, hab, hvb⟩, rfl⟩
  | first _ hw ih => exact ih.write ha hv (.inl hw)
  | second _ hw ih => exact ih.write ha hv (.inr hw)

/-- The two handles are views of the same bytes after writes to them: both show what was last
written, and what is written through either next changes the bytes of its element alone, and through
either handle the elements that have one of those. -/
structure Coherent (a : P τ) (v : Q σ) (w₀ : World) (ps : List Patch) (w : World) : Prop where
  first : Shows a w (lastWritten w₀.memory.byte ps)
  second : Shows v w (lastWritten w₀.memory.byte ps)
  confined : ∀ b w', Writes a w b w' ∨ Writes v w b w' →
    ∀ c n, b.Misses c n → w'.memory.cells c n = w.memory.cells c n
  reacts : ∀ b w', Writes a w b w' ∨ Writes v w b w' → Reacts a w b w' ∧ Reacts v w b w'

theorem Carries.coherent {w₀ : World} {ps : List Patch} (hc : Carries a v w₀ ps w)
    (ha : (span a).base ≠ 0) (hv : (span v).base ≠ 0) (hτ : τ.isPlain = true)
    (hσ : σ.isPlain = true) : Coherent a v w₀ ps w := by
  obtain ⟨past, h, hab, hvb⟩ := hc.storage
  have heffect : ∀ {b w'}, Writes a w b w' ∨ Writes v w b w' → _ := fun hw =>
    hw.elim (Writes.effect h hab ha) (Writes.effect h hvb hv)
  refine ⟨?_, ?_, fun b w' hw => (heffect hw).2.2, fun b w' hw => ?_⟩
  · rw [← hc.byte]
    exact shows_byte h hab ha hτ
  · rw [← hc.byte]
    exact shows_byte h hvb hv hσ
  · obtain ⟨⟨h', hx⟩, hbyte, -⟩ := heffect hw
    exact ⟨reacts_of_byte h hab h' (hab.mono hx) ha hτ hbyte,
      reacts_of_byte h hvb h' (hvb.mono hx) hv hσ hbyte⟩

end ArrayLike

/-! ## 4. Views of a program's arrays -/

namespace Program

variable {δ : Discipline} {s : Program} {a : AnyArrayPtr τ}

/-- **The typed views of an array are coherent**, whatever the two plain types are. -/
theorem views_coherent (hs : Reachable δ s) (ha : s.HasArray τ a) (hne : a.span.base ≠ 0)
    (hal : a.span.base % σ.align = 0) (hτ : τ.isPlain = true) (hσ : σ.isPlain = true)
    (hτsize : τ.layout.size ≠ 0) (hσsize : σ.layout.size ≠ 0) :
    ∃ v : AnyArrayPtr σ, a.IsView v ∧ ∀ ps w, ArrayLike.Interleaves a v s.world ps w →
      ArrayLike.Coherent a v s.world ps w := by
  have hab : s.world.Backs s.past τ a.span := ha.backs hs.sound.backed
  obtain ⟨v, hv, hvb⟩ := AnyArrayPtr.exists_isView hs.sound.world hab hne hal hτsize hσsize
  have hvne : v.span.base ≠ 0 := by
    rw [hv.base]
    exact hne
  refine ⟨v, hv, fun ps w hr => ?_⟩
  exact (hr.carries hs.sound.world hab hvb hne hvne).coherent hne hvne hτ hσ

/-- Three words as four values of three bytes. -/
def wordsAsRgb : AnyArrayPtr .rgb := .plain ⟨⟨0x400000000000, 0, 4⟩⟩

/-- Words and three-byte values do not line up: the second of these is in the first two words. -/
theorem views_coherent_words_as_rgb :
    Reachable .scoped (initial.run threeWords) ∧
      (initial.run threeWords).HasArray .uint32 (.plain (wordsAt 0)) ∧
        (AnyArrayPtr.plain (wordsAt 0)).IsView wordsAsRgb ∧
          (∃ w, ArrayLike.Interleaves (AnyArrayPtr.plain (wordsAt 0)) wordsAsRgb
            (initial.run threeWords).world
            [⟨0x400000000003, [1, 2, 3]⟩, ⟨0x400000000000, [4, 5, 6, 7]⟩] w) ∧
          ∀ ps w, ArrayLike.Interleaves (AnyArrayPtr.plain (wordsAt 0)) wordsAsRgb
              (initial.run threeWords).world ps w →
            ArrayLike.Coherent (AnyArrayPtr.plain (wordsAt 0)) wordsAsRgb
              (initial.run threeWords).world ps w := by
  have hs := reachable_threeWords .scoped
  have ha : (initial.run threeWords).HasArray .uint32 (.plain (wordsAt 0)) :=
    .handle List.mem_cons_self
  have haligned : (wordsAt 0).span.base % ElemType.rgb.align = 0 := by decide
  obtain ⟨v, hv, hcoherent⟩ := views_coherent hs ha (by decide) haligned rfl rfl (by decide)
    (by decide)
  obtain rfl : wordsAsRgb = v := Except.ok.inj (Eq.trans rfl hv.reinterpret)
  let first := ArrayLike.set (AnyArrayPtr.plain (wordsAt 0)) 0 (0x07060504 : UInt32)
  let second := ArrayLike.set wordsAsRgb 1 (⟨1, 2, 3⟩ : Rgb)
  let w := (outcome first (initial.run threeWords).world).2
  have hfirst : ArrayLike.Interleaves (AnyArrayPtr.plain (wordsAt 0)) wordsAsRgb
      (initial.run threeWords).world [⟨0x400000000000, [4, 5, 6, 7]⟩] w :=
    .first .nil ⟨0, (0x07060504 : UInt32), rfl, .inl rfl⟩
  have hsecond : ArrayLike.Writes wordsAsRgb w ⟨0x400000000003, [1, 2, 3]⟩
      (outcome second w).2 := ⟨1, (⟨1, 2, 3⟩ : Rgb), rfl, .inl rfl⟩
  exact ⟨hs, ha, hv, ⟨_, hfirst.second hsecond⟩, hcoherent⟩

end Program

end CheckedMemory
