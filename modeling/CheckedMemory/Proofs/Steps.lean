import CheckedMemory.Proofs.Backing
import CheckedMemory.Proofs.Conversion

/-!
# Every step keeps what handles keep

One lemma for each family of steps: the making of storage, assignments, the other operations, the
handles made of others, the handles bound to the current frame.  `Step.sound` puts them together,
and by induction on the run every reachable state is sound and every handle in it backed, and homed
too if the run is scoped (`Reachable.sound`).

A handle that is made of another is placed right because the other is, so that half of each lemma is
under the condition that all handles of the program are.  It is said for any law of bounds.
-/

namespace CheckedMemory

open Operation

variable {past : List Block} {w w' : World} {σ τ : ElemType}
  {K : TemporalBound → Address → Prop} {A : Frames → Address → Prop}

theorem ArrayPtr.Held.kept {p : ArrayPtr τ} (hp : p.Held past w) :
    (Handle.array τ (.plain p)).Backed past w ∧ (Handle.array τ (.plain p)).Placed K :=
  ⟨.inr hp.1, hp.2⟩

theorem Ptr.Held.kept {p : Ptr τ} (hp : p.Held past w) :
    (Handle.object τ p).Backed past w ∧ (Handle.object τ p).Placed K :=
  ⟨.inr hp.1, hp.2⟩

/-- Null of a kind that can release. -/
inductive Handle.IsNull : Handle → Prop where
  | object (τ : ElemType) : IsNull (.object τ .null)
  | array (τ : ElemType) : IsNull (.array τ (.plain .null))
  | matrix (τ : ElemType) : IsNull (.matrix τ .null)
  | record (σ τ : ElemType) : IsNull (.tailed σ τ .null)

theorem Handle.IsNull.lies {Q : Storage} {h : Handle} (hn : h.IsNull) : h.LiesIn Q past := by
  cases hn <;> exact .inl rfl

theorem Handle.IsNull.placed {h : Handle} (hn : h.IsNull) : h.Placed K := by
  cases hn with
  | record => exact trivial
  | _ => exact Frames.not_contains_zero

namespace Program

variable {s s' : Program} {α : Type} {P : Prop}

/-! ## 1. Operations that give handles -/

/-- The handles are backed, and placed right under a condition. -/
def Kept (P : Prop) (K : TemporalBound → Address → Prop) (hs : List Handle) (past : List Block)
    (w : World) : Prop :=
  ∀ h ∈ hs, h.Backed past w ∧ (P → h.Placed K)

theorem kept_singleton {h : Handle} (hb : h.Backed past w) (hh : P → h.Placed K) :
    Kept P K [h] past w := by
  intro g hg
  rw [List.mem_singleton.mp hg]
  exact ⟨hb, hh⟩

theorem kept_nil : Kept P K [] past w := fun _ hg => by cases hg

theorem preserves_giving {a : Operation α} {f : α → Handle} {good : α → List Block → World → Prop}
    (ha : Preserves past a w good)
    (hf : ∀ x past w, good x past w → (f x).Backed past w ∧ (f x).Placed K) :
    Preserves past (giving f a) w (Kept P K) :=
  ha.map fun x past w hx => kept_singleton (hf x past w hx).1 fun _ => (hf x past w hx).2

theorem keeps_discard {a : Operation α} (ha : Keeps past a w) : Keeps past (discard a) w :=
  Preserves.map ha fun _ _ _ _ => trivial

/-! ### Storage that is made -/

/-- **A block that is made is backed and placed right**, whatever it is made for. -/
theorem MakesBlock.preserves (h : w.Sound past) {a : Operation (List Handle)}
    (ha : MakesBlock requestMemory a) : Preserves past a w (Kept P K) := by
  cases ha with
  | array τ count traced =>
    exact preserves_giving (ArrayPtr.preserves_new h count traced)
      fun p past w hp => hp.2.2.kept
  | list τ xs hxs =>
    exact preserves_giving (ArrayPtr.preserves_ofList h hxs) fun p past w hp => hp.2.2.kept
  | filled τ count x =>
    exact preserves_giving (ArrayPtr.preserves_filled h count x)
      fun p past w hp => hp.2.2.kept
  | zeroed τ count =>
    exact preserves_giving (ArrayPtr.preserves_zeroed h count)
      fun p past w hp => hp.2.2.kept
  | aligned τ count align =>
    exact preserves_giving (ArrayPtr.preserves_aligned h count align)
      fun p past w hp => hp.2.2.kept
  | object τ x traced =>
    exact preserves_giving (Ptr.preserves_new h x traced) fun p past w hp => hp.kept
  | zeroedObject τ =>
    exact preserves_giving (Ptr.preserves_zeroed h) fun p past w hp => hp.kept
  | matrix τ x y =>
    exact preserves_giving (Matrix.preserves_new h x y) fun m past w hm => ⟨.inr hm.1, hm.2⟩
  | record σ τ count x =>
    exact preserves_giving (TailedPtr.preserves_new h count x)
      fun p past w hp => ⟨.inr hp, trivial⟩
  | fixed τ xs =>
    exact preserves_giving (FixedArray.preserves_newHeap h xs) fun x past w hx => ⟨hx, trivial⟩

/-- **And so is storage that is no block.** -/
theorem Places.preserves (hK : TemporalBound.Law K A) (h : w.Sound past)
    {a : Operation (List Handle)} (ha : Places a) : Preserves past a w (Kept P K) := by
  cases ha with
  | staticArray τ xs =>
    exact preserves_giving (ArrayPtr.preserves_newStatic h xs) fun p past w hp => hp.kept
  | staticObject τ x =>
    exact preserves_giving (Ptr.preserves_newStatic h x) fun p past w hp => hp.kept
  | global τ xs =>
    exact preserves_giving (GlobalArray.preserves_new h xs) fun x past w hx => hx
  | localArray τ xs =>
    refine preserves_giving (StackArrayPtr.preserves_newLocal h xs) ?_
    rintro p past w ⟨hheld, hbound, hptr⟩
    refine ⟨.inr hheld, ?_⟩
    change K p.bound p.span.base
    rw [hbound]
    exact hK.captureFor (hK.own fun _ => UInt64.le_iff_toNat_le.mpr hptr)
  | localFixed τ xs =>
    exact preserves_giving (FixedArray.preserves_newLocal h xs) fun x past w hx => ⟨hx, trivial⟩

/-! ### Releases -/

/-- Through whatever handle, a release is that of its start, and gives a null handle. -/
theorem Frees.eq_release {base : Address} {a : Operation Handle} (ha : Frees base a) :
    ∃ n : Handle, n.IsNull ∧ a = (do
      releaseUnlessNull base
      return n) := by
  cases ha with
  | @object τ p =>
    refine ⟨_, .object τ, ?_⟩
    simp only [Ptr.free, map_eq_pure_bind, bind_assoc, pure_bind]
  | @array τ p =>
    refine ⟨_, .array τ, ?_⟩
    simp only [ArrayPtr.free, map_eq_pure_bind, bind_assoc, pure_bind, Function.comp]
  | @matrix τ m =>
    refine ⟨_, .matrix τ, ?_⟩
    simp only [Matrix.free, map_eq_pure_bind, bind_assoc, pure_bind]
  | @record σ τ p =>
    refine ⟨_, .record σ τ, ?_⟩
    simp only [TailedPtr.free, map_eq_pure_bind, bind_assoc, pure_bind]

theorem Frees.keeps (h : w.Sound past) {base : Address} {a : Operation Handle}
    (ha : Frees base a) : Keeps past (giving id a) w := by
  obtain ⟨n, -, rfl⟩ := ha.eq_release
  refine ensures_map (ensures_bind ((preserves_releaseUnlessNull h base).mono ?_ fun _ _ hf => hf))
  exact fun _ _ hf => ensures_pure hf

/-! ### Assignments -/

/-- **An assignment through a handle that is backed keeps the state sound.** -/
theorem Assigns.keeps (h : s.world.Sound s.past)
    (hs : ∀ h ∈ s.handles, h.Backed s.past s.world) {a : Operation Unit} (ha : Assigns s a) :
    Keeps s.past a s.world := by
  have harray : ∀ {τ : ElemType} {p : AnyArrayPtr τ}, .array τ p ∈ s.handles →
      s.world.Backs s.past τ (ArrayLike.span p) := fun hp => hs _ hp
  cases ha with
  | element hp i x => exact ArrayLike.keeps_set h (harray hp) i x
  | tryElement hp i x => exact keeps_discard (ArrayLike.keeps_trySet h (harray hp) i x)
  | elements hp xs => exact keeps_discard (ArrayLike.keeps_overwrite h (harray hp) xs)
  | object hp x => exact keeps_writeObject h (hs _ hp) x
  | tryObject hp x => exact keeps_discard (keeps_tryWriteObject h (hs _ hp) x)
  | stackObject hp x => exact keeps_writeObject h (hs _ hp) x
  | tryStackObject hp x => exact keeps_discard (keeps_tryWriteObject h (hs _ hp) x)
  | cell hm x y v => exact Matrix.keeps_set h (hs _ hm) x y v
  | tryCell hm x y v => exact keeps_discard (Matrix.keeps_trySet h (hs _ hm) x y v)
  | head hp x => exact TailedPtr.keeps_setHead h (hs _ hp) x
  | fixedElement hx i v => exact FixedArray.keeps_set h (hs _ hx) i v
  | fixedElements hx xs => exact keeps_discard (FixedArray.keeps_overwrite h (hs _ hx) xs)

/-! ### What uses give -/

/-- What an operation that makes no storage may give: null, a position of an array that the program
has, or a tokenizer over one. -/
inductive Gives (s : Program) : Handle → Prop where
  | null {n : Handle} (hn : n.IsNull) : Gives s n
  | position {τ p} (hp : s.HasArray τ p) (d) : Gives s (.array τ (ArrayLike.offset p d))
  | tokenizer {t} (ht : s.HasArray .uint8 t.text)
      (hcursor : ∀ q, t.cursor = some q → ∃ p d, s.HasArray .uint8 p ∧ q = ArrayLike.offset p d) :
    Gives s (.tokenizer t)

/-- A pointer to another position of an array says the same to be there. -/
theorem span_offset_in {Q : Storage} {p : AnyArrayPtr τ} (hp : p.span.In Q τ) (d : Int64) :
    AnyArrayPtr.span (ArrayLike.offset p d) |>.In Q τ := by
  cases p with
  | plain p => exact hp
  | bounded p => exact hp

theorem placed_offset {p : AnyArrayPtr τ} (hp : p.Placed K) (d : Int64) :
    AnyArrayPtr.Placed K (ArrayLike.offset p d) := by
  cases p with
  | plain p => exact hp
  | bounded p => exact hp

theorem Gives.lies {Q : Storage} (hs : ∀ h ∈ s.handles, h.LiesIn Q past) {g : Handle}
    (hg : Gives s g) : g.LiesIn Q past := by
  cases hg with
  | null hn => exact hn.lies
  | position hp d => exact span_offset_in (hp.lies hs) d
  | tokenizer ht hcursor =>
    refine ⟨ht.lies hs, fun q hq => ?_⟩
    obtain ⟨p, d, hp, rfl⟩ := hcursor q hq
    exact span_offset_in (hp.lies hs) d

theorem Gives.placed (hh : ∀ h ∈ s.handles, h.Placed K) {g : Handle} (hg : Gives s g) :
    g.Placed K := by
  cases hg with
  | null hn => exact hn.placed
  | position hp d => exact placed_offset (hp.placed hh) d
  | tokenizer ht hcursor =>
    refine ⟨ht.placed hh, fun q hq => ?_⟩
    obtain ⟨p, d, hp, rfl⟩ := hcursor q hq
    exact placed_offset (hp.placed hh) d

/-- The token and the new cursor are positions of the text that the cursor was in. -/
theorem gives_nextToken {t : Tokenizer AnyArrayPtr} (ht : .tokenizer t ∈ s.handles)
    (delims : AnyArrayPtr .uint8) :
    Ensures ((fun r => .tokenizer r.2 :: (r.1.map (Handle.array .uint8)).toList) <$> t.next delims)
      w (fun hs _ => ∀ h ∈ hs, Gives s h) (fun _ _ => True) := by
  refine ensures_map ((Tokenizer.ensures_reaches (K := fun _ => True) trivial delims
    fun _ _ _ => ensures_true _ _).mono ?_ fun _ _ _ => trivial)
  rintro ⟨token, t'⟩ w' ⟨-, heq, htoken, hnext⟩
  simp only at heq htoken hnext
  intro g hg
  rcases List.mem_cons.mp hg with rfl | hg
  · refine .tokenizer (heq ▸ .text ht) fun q hq => ?_
    obtain ⟨p, d, hp, rfl⟩ := hnext q hq
    exact ⟨p, d, .cursor ht hp, rfl⟩
  · cases htok : token with
    | none =>
      rw [htok] at hg
      cases hg
    | some q =>
      rw [htok] at hg
      rw [List.mem_singleton.mp hg]
      obtain ⟨p, d, hp, rfl⟩ := htoken q htok
      exact .position (.cursor ht hp) d

/-- **What uses give is null or made of arrays that the program has.** -/
theorem Uses.gives {a : Operation (List Handle)} (ha : Uses s a) (w : World) :
    Ensures a w (fun hs _ => ∀ h ∈ hs, Gives s h) (fun _ _ => True) := by
  cases ha with
  | @free base a ha =>
    obtain ⟨n, hn, rfl⟩ := ha.eq_release
    have htrue := ensures_true (releaseUnlessNull base) w
    refine ensures_map (ensures_bind (htrue.mono (fun _ _ _ => ?_) fun _ _ hf => hf))
    refine ensures_pure fun g hg => ?_
    rw [List.mem_singleton.mp hg]
    exact .null hn
  | assign ha =>
    exact ensures_map ((ensures_true _ w).mono (fun _ _ _ _ hg => nomatch hg) fun _ _ hf => hf)
  | @find p hp c =>
    refine ensures_map ((CString.ensures_find? p c).mono ?_ fun _ _ _ => trivial)
    rintro r w' ⟨-, hr⟩ g hg
    cases r with
    | none => cases hg
    | some q =>
      obtain ⟨d, rfl⟩ := hr q rfl
      rw [List.mem_singleton.mp hg]
      exact .position (.handle hp) d
  | @tokenize p hp =>
    refine ensures_map ((Tokenizer.ensures_start p).mono ?_ fun _ _ _ => trivial)
    rintro _ w' ⟨-, rfl⟩ g hg
    rw [List.mem_singleton.mp hg]
    refine .tokenizer (.handle hp) fun q hq => ⟨p, 0, .handle hp, ?_⟩
    rw [AnyArrayPtr.offset_zero]
    exact (Option.some.inj hq).symm
  | nextToken ht hd => exact gives_nextToken ht _

/-! ### All operations -/

theorem Uses.keeps (h : s.world.Sound s.past)
    (hs : ∀ h ∈ s.handles, h.Backed s.past s.world) {a : Operation (List Handle)} (ha : Uses s a) :
    Keeps s.past a s.world := by
  have hf := World.Follows.refl h
  cases ha with
  | free ha => exact ha.keeps h
  | assign ha => exact Preserves.map (ha.keeps h hs) fun _ _ _ _ => trivial
  | @find p hp c =>
    exact ensures_map ((CString.ensures_find? p c).mono (fun _ _ hw => ⟨hw.1 ▸ hf, trivial⟩)
      fun _ _ hw => hw ▸ hf)
  | @tokenize p hp =>
    exact ensures_map ((Tokenizer.ensures_start p).mono (fun _ _ hw => ⟨hw.1 ▸ hf, trivial⟩)
      fun _ _ hw => hw ▸ hf)
  | nextToken ht hd =>
    exact Preserves.map (Tokenizer.preserves_next h (hs _ ht).2 _) fun _ _ _ _ => trivial

/-- An operation that makes no storage gives handles that are backed, and placed right if all of the
program's are. -/
theorem Uses.preserves_placed (h : s.world.Sound s.past)
    (hs : ∀ h ∈ s.handles, h.Backed s.past s.world) {a : Operation (List Handle)} (ha : Uses s a) :
    Preserves s.past a s.world (Kept (∀ h ∈ s.handles, h.Placed K) K) := by
  refine ((ha.keeps h hs).and (ha.gives s.world)).mono ?_ fun _ _ hf => hf.1
  rintro gs w' ⟨⟨hf, -⟩, hgives⟩
  refine ⟨hf, fun g hg => ⟨?_, fun hh => (hgives g hg).placed hh⟩⟩
  exact Handle.Backed.mono (hf.extends h) ((hgives g hg).lies hs)

/-- **The handles that an operation gives are backed**, and placed right if all of the program's
are. -/
theorem Acts.preserves_placed (hK : TemporalBound.Law K A) (h : s.world.Sound s.past)
    (hs : ∀ h ∈ s.handles, h.Backed s.past s.world) {a : Operation (List Handle)} (ha : Acts s a) :
    Preserves s.past a s.world (Kept (∀ h ∈ s.handles, h.Placed K) K) := by
  cases ha with
  | make ha =>
    cases ha with
    | block ha => exact ha.preserves h
    | place ha => exact ha.preserves hK h
  | resize p count =>
    exact preserves_giving (ArrayPtr.preserves_resize h p count) fun p past w hp => hp.2.2.kept
  | use ha => exact ha.preserves_placed h hs
  | tail hp hlive =>
    exact preserves_giving (TailedPtr.preserves_tail h (hs _ hp) hlive) fun p past w hp => hp.kept

theorem Acts.preserves (h : s.world.Sound s.past)
    (hs : ∀ h ∈ s.handles, h.Backed s.past s.world) {a : Operation (List Handle)} (ha : Acts s a) :
    Preserves s.past a s.world (Kept (∀ h ∈ s.handles, h.Homed) TemporalBound.Fits) :=
  ha.preserves_placed TemporalBound.law_fits h hs

/-! ## 2. Handles made of others -/

/-- **A handle made of others says of nothing that it is there that they do not**, whatever counts
as storage. -/
theorem Converts.within {Q : Storage} (hQ : Q.Divides) (hs : ∀ h ∈ s.handles, h.In Q) {g : Handle}
    (hg : Converts s g) : g.In Q := by
  have hobject : ∀ {τ : ElemType} {p : Ptr τ}, .object τ p ∈ s.handles →
      p.address = 0 ∨ Q τ p.address 1 := fun hp => hs _ hp
  have harray : ∀ {τ : ElemType} {p : ArrayPtr τ}, .array τ (.plain p) ∈ s.handles →
      p.span.In Q τ := fun hp => hs _ hp
  have hoffset : ∀ {τ : ElemType} {p : AnyArrayPtr τ} (d : Int64), .array τ p ∈ s.handles →
      (Handle.array τ (ArrayLike.offset p d)).In Q := by
    intro τ p d hp
    have hspan : p.span.In Q τ := hs _ hp
    cases p with
    | plain p => exact hspan
    | bounded p => exact hspan
  cases hg with
  | nullStackObject τ => exact .inl rfl
  | nullStackArray τ => exact .inl rfl
  | offset hp d => exact hoffset d hp
  | toBegin hp hq =>
    obtain ⟨d, rfl⟩ := ArrayLike.toBegin_eq_ok hq
    exact hoffset d hp
  | toEnd hp hq =>
    obtain ⟨d, rfl⟩ := ArrayLike.toEnd_eq_ok hq
    exact hoffset d hp
  | toObject hp hq => exact (ArrayPtr.toPtr_eq_ok hq).imp_right (Span.In.locate hQ (hs _ hp))
  | toStackObject hp hq =>
    obtain ⟨-, hnull | hl⟩ := StackArrayPtr.toStackPtr_eq_ok hq
    · exact .inl hnull.1
    · exact .inr (Span.In.locate hQ (hs _ hp) hl)
  | ofObject hp => exact ArrayPtr.in_ofPtr (hobject hp)
  | objectToStack hp => exact hobject hp
  | arrayToStack hp => exact harray hp
  | @objectOffStack τ p q hp hq =>
    change q.address = 0 ∨ Q τ q.address 1
    rw [(Ptr.ofStack_eq_ok hq).1]
    exact hs _ hp
  | @arrayOffStack τ p q hp hq =>
    change q.span.In Q τ
    rw [(ArrayPtr.ofStack_eq_ok hq).1]
    exact hs _ hp
  | @assignObject τ p q r hp hq hr =>
    change r.address = 0 ∨ Q τ r.address 1
    rw [(StackPtr.assign_eq_ok hr).1]
    exact hs _ hq
  | @assignArray τ p q r hp hq hr =>
    change r.span.In Q τ
    rw [(StackArrayPtr.assign_eq_ok hr).1]
    exact hs _ hq
  | reinterpretObject hp hq => exact Ptr.in_reinterpret hQ (hobject hp) hq
  | reinterpretArray hp hq => exact ArrayPtr.in_reinterpret hQ (hs _ hp) hq
  | reinterpretStackArray hp hq => exact StackArrayPtr.in_reinterpret hQ (hs _ hp) hq

section LiesIn

variable {Q : Storage} (hs : ∀ h ∈ s.handles, h.LiesIn Q s.past)

include hs

/-- **It lies in storage**, if they do. -/
theorem Converts.lies (hQ : Q.Divides) {g : Handle} (hg : Converts s g) : g.LiesIn Q s.past := by
  have hin := hg.within hQ fun k hk => (hs k hk).within
  cases hg <;> exact hin

/-- **And so does one made of nothing, of a bare address or by a look at the heap table.** -/
theorem Derives.lies (hQ : Q.Divides) (hblocks : Q.HasBlocks s.world.heap) {g : Handle}
    (hg : Derives Q s g) : g.LiesIn Q s.past := by
  have hfixed : ∀ {τ : ElemType} {x : FixedArray τ}, .fixed τ x ∈ s.handles →
      Q τ x.base x.length.toNat := fun hx => hs _ hx
  have hglobal : ∀ {τ : ElemType} {x : GlobalArray τ}, .global τ x ∈ s.handles →
      Q τ x.base x.length.toNat := fun hx => hs _ hx
  cases hg with
  | convert hg => exact hg.lies hs hQ
  | nullObject τ => exact .inl rfl
  | nullMatrix τ => exact .inl rfl
  | nullRecord σ τ => exact .inl rfl
  | nullVoid => exact .inl rfl
  | rawObject ha hoff => exact ha
  | rawArray hp hoff => exact hp
  | @pointTo τ p a r hp ha hr =>
    change r.address = 0 ∨ Q τ r.address 1
    rw [(StackPtr.pointTo_eq_ok hr).1]
    exact .inr ha
  | @erase τ p hp =>
    exact (hs _ hp).imp_right fun hthere => hQ.view hthere (Nat.mod_one _) (Nat.zero_le _)
  | @downcastObject τ p hp σ hvalue =>
    rcases p.downcast_cases hblocks σ hvalue with hnull | ⟨haddr, hthere⟩
    · exact .inl hnull
    · exact .inr (haddr ▸ hthere)
  | @downcastVoid p hp σ hvalue =>
    rcases p.downcast_cases hblocks σ hvalue with hnull | ⟨haddr, hthere⟩
    · exact .inl hnull
    · exact .inr (haddr ▸ hthere)
  | @downcastArray τ p hp σ => exact ArrayPtr.in_downcast hblocks p σ
  | cells hm => exact Matrix.in_toArrayPtr (hs _ hm)
  | fixedArray hx hp =>
    obtain ⟨rfl, -⟩ := FixedArray.toArrayPtr_eq_ok hp
    exact .inr (hfixed hx)
  | fixedArrayAt hx hp =>
    obtain ⟨rfl, -⟩ := FixedArray.offsetArrayPtr_eq_ok hp
    exact .inr (hfixed hx)
  | globalArray hx => exact .inr (hglobal hx)
  | globalArrayAt hx hp =>
    obtain rfl := GlobalArray.offset_eq_ok hp
    exact .inr (hglobal hx)

end LiesIn

/-- The flag of an address is that it is on the stack. -/
theorem residency_eq_stack_iff {a : Address} :
    Frames.extent.residency a = .stack ↔ Frames.extent.contains a = true := by
  unfold StackExtent.residency
  split <;> simp_all

/-- **A handle made of others is placed right if they are.** -/
theorem Converts.placed (hK : TemporalBound.Law K A) (hside : ∀ h ∈ s.handles, h.OneSided)
    (hh : ∀ h ∈ s.handles, h.Placed K) {g : Handle} (hg : Converts s g) : g.Placed K := by
  have hobject : ∀ {τ : ElemType} {p : Ptr τ}, .object τ p ∈ s.handles →
      Frames.extent.contains p.address = false := fun hp => hh _ hp
  have harray : ∀ {τ : ElemType} {p : ArrayPtr τ}, .array τ (.plain p) ∈ s.handles →
      Frames.extent.contains p.span.base = false := fun hp => hh _ hp
  have hzero : ∀ {a : Address}, a = 0 → Frames.extent.contains a = false := by
    rintro a rfl
    exact Frames.not_contains_zero
  have hoffset : ∀ {τ : ElemType} {p : AnyArrayPtr τ} (d : Int64), .array τ p ∈ s.handles →
      (Handle.array τ (ArrayLike.offset p d)).Placed K := by
    intro τ p d hp
    have hplaced : p.Placed K := hh _ hp
    cases p with
    | plain p => exact hplaced
    | bounded p => exact hplaced
  cases hg with
  | nullStackObject τ => exact hK.captureHeap Frames.not_contains_zero
  | nullStackArray τ => exact hK.captureHeap Frames.not_contains_zero
  | offset hp d => exact hoffset d hp
  | toBegin hp hq =>
    obtain ⟨d, rfl⟩ := ArrayLike.toBegin_eq_ok hq
    exact hoffset d hp
  | toEnd hp hq =>
    obtain ⟨d, rfl⟩ := ArrayLike.toEnd_eq_ok hq
    exact hoffset d hp
  | toObject hp hq =>
    rcases ArrayPtr.toPtr_eq_ok hq with hnull | hl
    · exact hzero hnull
    · exact (Span.OneSided.locate (hside _ hp) hl).1.trans (harray hp)
  | @toStackObject τ p q hp hq =>
    have hright : K p.bound p.span.base := hh _ hp
    obtain ⟨hbound, hcase⟩ := StackArrayPtr.toStackPtr_eq_ok hq
    change K q.bound q.address
    rw [hbound]
    rcases hcase with ⟨hnull, hbase⟩ | hl
    · rw [hnull, ← hbase]
      exact hright
    · obtain ⟨hcontains, hle, -⟩ := Span.OneSided.locate (hside _ hp) hl
      exact hK.move hright hcontains hle
  | ofObject hp => exact hobject hp
  | objectToStack hp => exact hK.captureHeap (hobject hp)
  | arrayToStack hp => exact hK.captureHeap (harray hp)
  | @objectOffStack τ p q hp hq =>
    obtain ⟨haddr, hnull | hheap⟩ := Ptr.ofStack_eq_ok hq
    · exact hzero (haddr.trans hnull)
    · exact (congrArg Frames.extent.contains haddr).trans
        (hK.not_contains (hh _ hp) hheap)
  | @arrayOffStack τ p q hp hq =>
    have hright : K p.bound p.span.base := hh _ hp
    obtain ⟨hspan, hnull | hheap⟩ := ArrayPtr.ofStack_eq_ok hq
    · exact hzero ((congrArg Span.base hspan).trans hnull)
    · exact (congrArg (fun p => Frames.extent.contains p.base) hspan).trans
        (hK.not_contains hright hheap)
  | @assignObject τ p q r hp hq hr =>
    obtain ⟨haddr, haccept⟩ := StackPtr.assign_eq_ok hr
    have hright : K p.bound p.address := hh _ hp
    have hright' : K q.bound q.address := hh _ hq
    change K r.bound r.address
    rw [haddr]
    exact hK.accept hright haccept (hK.flag hright')
  | @assignArray τ p q r hp hq hr =>
    obtain ⟨hspan, haccept⟩ := StackArrayPtr.assign_eq_ok hr
    have hright : K p.bound p.span.base := hh _ hp
    have hright' : K q.bound q.span.base := hh _ hq
    change K r.bound r.span.base
    rw [hspan]
    exact hK.accept hright haccept (hK.flag hright')
  | @reinterpretObject τ σ p q hp hq =>
    rcases Ptr.reinterpret_eq_ok hq with hnull | ⟨haddr, -⟩
    · exact hzero hnull
    · exact (congrArg Frames.extent.contains haddr).trans (hobject hp)
  | @reinterpretArray τ σ p q hp hq =>
    rcases ArrayPtr.reinterpret_eq_ok hq with hnull | ⟨-, hspan⟩
    · exact hzero hnull
    · exact (congrArg (fun p => Frames.extent.contains p.base) hspan).trans (harray hp)
  | @reinterpretStackArray τ σ p q hp hq =>
    obtain ⟨hbound, hspan, -⟩ := StackArrayPtr.reinterpret_eq_ok hq
    change K q.bound q.span.base
    rw [hbound, hspan]
    exact hh _ hp

/-- **And so is one made of nothing, of a bare address or by a look at the heap table.** -/
theorem Derives.placed (hK : TemporalBound.Law K A) (h : s.world.Sound s.past)
    (hs : ∀ h ∈ s.handles, h.Backed s.past s.world) (hh : ∀ h ∈ s.handles, h.Placed K) {g : Handle}
    (hg : Derives (s.world.Holds s.past) s g) : g.Placed K := by
  have hblocks := World.Holds.hasBlocks h
  have hobject : ∀ {τ : ElemType} {p : Ptr τ}, .object τ p ∈ s.handles →
      Frames.extent.contains p.address = false := fun hp => hh _ hp
  have hzero : ∀ {a : Address}, a = 0 → Frames.extent.contains a = false := by
    rintro a rfl
    exact Frames.not_contains_zero
  cases hg with
  | convert hg => exact hg.placed hK (fun g hg => (hs g hg).oneSided h) hh
  | nullObject τ => exact Frames.not_contains_zero
  | nullMatrix τ => exact Frames.not_contains_zero
  | nullRecord σ τ => exact trivial
  | nullVoid => exact Frames.not_contains_zero
  | rawObject ha hoff => exact hoff
  | rawArray hp hoff => exact hoff
  | @pointTo τ p a r hp ha hr =>
    obtain ⟨haddr, haccept⟩ := StackPtr.pointTo_eq_ok hr
    have hright : K p.bound p.address := hh _ hp
    change K r.bound r.address
    rw [haddr]
    exact hK.accept hright haccept residency_eq_stack_iff
  | erase hp => exact hobject hp
  | @downcastObject τ p hp σ hvalue =>
    rcases p.downcast_cases hblocks σ hvalue with hnull | ⟨haddr, -⟩
    · exact hzero hnull
    · exact (congrArg Frames.extent.contains haddr).trans (hobject hp)
  | @downcastVoid p hp σ hvalue =>
    have hoff : Frames.extent.contains p.address = false := hh _ hp
    rcases p.downcast_cases hblocks σ hvalue with hnull | ⟨haddr, -⟩
    · exact hzero hnull
    · exact (congrArg Frames.extent.contains haddr).trans hoff
  | @downcastArray τ p hp σ =>
    rcases ArrayPtr.downcast_cases s.world.heap p σ with hnull | ⟨b, hb, -, -, hbase, -⟩
    · exact hzero hnull
    · exact (congrArg Frames.extent.contains hbase).trans (h.payload_offStack (h.live b hb))
  | @cells τ m hm =>
    have hoff : Frames.extent.contains m.base = false := hh _ hm
    exact hoff
  | fixedArray hx hp =>
    obtain ⟨rfl, hoff⟩ := FixedArray.toArrayPtr_eq_ok hp
    exact hoff
  | fixedArrayAt hx hp =>
    obtain ⟨rfl, hoff⟩ := FixedArray.offsetArrayPtr_eq_ok hp
    exact hoff
  | @globalArray τ x hx =>
    have hoff : Frames.extent.contains x.base = false := hh _ hx
    exact hoff
  | @globalArrayAt τ x i p hx hp =>
    have hoff : Frames.extent.contains x.base = false := hh _ hx
    obtain rfl := GlobalArray.offset_eq_ok hp
    exact hoff

/-! ## 3. Handles bound to the current frame -/

/-- **A clone says the same to be there as what it is made of.** -/
theorem Clones.within {Q : Storage} (hs : ∀ h ∈ s.handles, h.In Q) {a : Address} {g : Handle}
    (hg : Clones s a g) : g.In Q := by
  cases hg with
  | @object τ p hp =>
    have hthere : p.address = 0 ∨ Q τ p.address 1 := hs _ hp
    exact hthere
  | @array τ p hp =>
    have hthere : p.span.In Q τ := hs _ hp
    exact hthere

/-- **And it is placed right**, if the frame may bind its data. -/
theorem Clones.placed (hK : TemporalBound.Law K A) (hh : ∀ h ∈ s.handles, h.Placed K) {a : Address}
    {g : Handle} (hg : Clones s a g) (hA : A s.world.frames a) : g.Placed K := by
  cases hg with
  | object hp => exact hK.clone (hh _ hp) hA
  | array hp => exact hK.clone (hh _ hp) hA

/-- **A handle bound to the current frame lies in storage**, if the others do. -/
theorem Binds.lies {Q : Storage} (hs : ∀ h ∈ s.handles, h.LiesIn Q s.past) {a : Address}
    {g : Handle} (hg : Binds Q s a g) : g.LiesIn Q s.past := by
  have hfixed : ∀ {τ : ElemType} {x : FixedArray τ}, .fixed τ x ∈ s.handles →
      Q τ x.base x.length.toNat := fun hx => hs _ hx
  cases hg with
  | object ha => exact ha
  | array hp index => exact hp
  | clone hg =>
    have hin := hg.within fun k hk => (hs k hk).within
    cases hg <;> exact hin
  | fixedArray hx => exact .inr (hfixed hx)
  | fixedArrayAt hx hp =>
    obtain rfl := FixedArray.offset_eq_ok hp
    exact .inr (hfixed hx)

/-- **A handle bound to the current frame is placed right**, if the frame may bind its data. -/
theorem Binds.placed (hK : TemporalBound.Law K A)
    (hh : ∀ h ∈ s.handles, h.Placed K) {a : Address} {g : Handle}
    (hg : Binds (s.world.Holds s.past) s a g) (hA : A s.world.frames a) : g.Placed K := by
  cases hg with
  | object ha => exact hK.captureFor hA
  | array hp index => exact hK.captureFor hA
  | clone hg => exact hg.placed hK hh hA
  | fixedArray hx => exact hK.captureFor hA
  | fixedArrayAt hx hp =>
    obtain rfl := FixedArray.offset_eq_ok hp
    exact hK.captureFor hA

/-! ## 4. Runs -/

/-- What holds of every state of a run. -/
structure Sound (δ : Discipline) (s : Program) : Prop where
  world : s.world.Sound s.past
  backed : ∀ h ∈ s.handles, h.Backed s.past s.world
  homed : δ = .scoped → ∀ h ∈ s.handles, h.Homed

namespace Sound

variable {δ : Discipline}

theorem initial : Sound δ initial where
  world := World.Sound.initial
  backed _ hh := nomatch hh
  homed _ _ hh := nomatch hh

theorem keep (h : Sound δ s) {g : Handle} (hb : g.Backed s.past s.world)
    (hh : δ = .scoped → g.Homed) : Sound δ (s.keep g) where
  world := h.world
  backed k hk := by
    rcases List.mem_cons.mp hk with rfl | hk'
    · exact hb
    · exact h.backed k hk'
  homed hδ k hk := by
    rcases List.mem_cons.mp hk with rfl | hk'
    · exact hh hδ
    · exact h.homed hδ k hk'

/-- What an operation leaves, with the handles that it gives. -/
theorem after (h : Sound δ s) {hs : List Handle} (hf : s.world.Follows s.past w')
    (hk : Kept (∀ h ∈ s.handles, h.Homed) TemporalBound.Fits hs (w'.heap.blocks ++ s.past) w') :
    Sound δ ⟨w', hs ++ s.handles, w'.heap.blocks ++ s.past⟩ where
  world := hf.sound
  backed k hmem := by
    rcases List.mem_append.mp hmem with hnew | hold
    · exact (hk k hnew).1
    · exact (h.backed k hold).mono (hf.extends h.world)
  homed hδ k hmem := by
    rcases List.mem_append.mp hmem with hnew | hold
    · exact (hk k hnew).2 (h.homed hδ)
    · exact h.homed hδ k hold

/-- Calls and returns move no storage and change no handle. -/
theorem reframe (h : Sound δ s) {f : Frames} (hf : f.Windowed)
    (hused : f.used = s.world.frames.used) :
    Sound δ { s with world := { s.world with frames := f } } where
  world := h.world.reframe hf hused
  backed k hk := (h.backed k hk).mono (World.extends_frames _ _ _)
  homed := h.homed

end Sound

/-- The state after an operation, whether it succeeded or not. -/
theorem exists_run {a : Operation (List Handle)} (ha : Preserves s.past a s.world (Kept P K)) :
    ∃ hs w', s.run a = ⟨w', hs ++ s.handles, w'.heap.blocks ++ s.past⟩ ∧
      s.world.Follows s.past w' ∧ Kept P K hs (w'.heap.blocks ++ s.past) w' := by
  unfold Preserves Ensures at ha
  unfold run
  rcases ho : a.outcome s.world with ⟨f | hs, w'⟩
  · rw [ho] at ha
    exact ⟨[], w', rfl, ha, kept_nil⟩
  · rw [ho] at ha
    exact ⟨hs, w', rfl, ha.1, ha.2⟩

/-- A call opens a frame if there is one left, and does nothing else. -/
theorem move_enterFrame (s : Program) :
    s.move enterFrame = s ∨ s.world.frames.depth + 1 < Frames.windowCount ∧
      s.move enterFrame = { s with world := { s.world with
        frames := s.world.frames.enterAt (Frames.pointerAt (s.world.frames.depth + 1)) } } := by
  by_cases hroom : s.world.frames.depth + 1 < Frames.windowCount
  · refine .inr ⟨hroom, ?_⟩
    simp only [move, enterFrame, outcome_bind, outcome_get, Frames.enter?, if_pos hroom,
      outcome_modify]
  · refine .inl ?_
    simp only [move, enterFrame, outcome_bind, outcome_get, Frames.enter?, if_neg hroom,
      outcome_throw]

/-- **One step keeps the state sound and every handle backed**, and homed on a scoped run. -/
theorem Step.sound {δ : Discipline} (h : Sound δ s) (hstep : Step δ s s') : Sound δ s' := by
  cases hstep with
  | act ha =>
    obtain ⟨hs, w', he, hf, hk⟩ := exists_run (ha.preserves h.world h.backed)
    rw [he]
    exact h.after hf hk
  | derive hg =>
    have hlies := hg.lies h.backed (World.Holds.divides h.world)
      (World.Holds.hasBlocks h.world)
    exact h.keep hlies fun hδ => hg.placed TemporalBound.law_fits h.world h.backed (h.homed hδ)
  | bind hg hframe =>
    exact h.keep (hg.lies h.backed) fun hδ =>
      hg.placed TemporalBound.law_fits (h.homed hδ) (hframe hδ)
  | @vouch τ p hδ hp =>
    refine h.keep ?_ fun hscoped => ?_
    · have hb : s.world.Backs s.past τ p.span := h.backed _ hp
      exact hb
    · rw [hδ] at hscoped
      cases hscoped
  | @forget hs hsub =>
    exact ⟨h.world, fun k hk => h.backed k (hsub hk), fun hδ k hk => h.homed hδ k (hsub hk)⟩
  | enter =>
    rcases move_enterFrame s with hmove | ⟨hroom, hmove⟩
    · rw [hmove]
      exact h
    · rw [hmove]
      exact h.reframe (h.world.windowed.enterAt hroom) rfl
  | leave => exact h.reframe h.world.windowed.leave (Frames.used_leave _)

/-- What is sound stays so however long the program goes on. -/
theorem Leads.sound {δ : Discipline} (h : Sound δ s) (hl : Leads δ s s') : Sound δ s' := by
  induction hl with
  | refl => exact h
  | tail _ hstep ih => exact hstep.sound ih

/-- **Every reachable state is sound.** -/
theorem Reachable.sound {δ : Discipline} (h : Reachable δ s) : Sound δ s :=
  Leads.sound Sound.initial h

end Program

end CheckedMemory
