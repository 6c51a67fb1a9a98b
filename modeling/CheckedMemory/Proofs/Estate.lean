import CheckedMemory.Proofs.Rewrites

/-!
# Runs in which storage is used again

An estate is a program with all storage that it was ever given: the blocks that its heap table ever
held and the areas that were placed for static arrays, arrays of frames and the like.  How the
system allocator answers is open, and how far down a call takes the stack pointer too, so a piece of
storage may come to lie where another one was, wholly or in part.  A handle to the old one stays as
it is.

So nothing can be said of what its values are; but what a handle says is there still lies in the
piece that it was made for, and that piece stays in memory.  `Estate.Charted` is what every step
keeps: the live blocks are in rooms of their own, every piece is mapped, and every handle lies in
one piece or is null (`Estate.Step.charted`, `Estate.Reachable.charted`).

The premises of a step are those of a program's, with one change.  A handle to a released record may
find another record there, and one to a released array may write over the length of a record, so the
tail of a record is taken while it is live and its length as it was made.
-/

namespace CheckedMemory

open Operation

variable {past : List Block} {w w' : World} {b : Block} {q : Plot} {τ : ElemType}

/-! ## 1. Pieces of storage -/

/-- A piece of storage is the payload of a block of the past, or an area that was placed. -/
inductive IsPiece (past : List Block) (areas : List Plot) : Room → Prop where
  | block {b : Block} (hb : b ∈ past) : IsPiece past areas b.whole
  | area {q : Plot} (hq : q ∈ areas) : IsPiece past areas q.whole

/-- A program under way with the areas that were placed for it. -/
structure Estate where
  program : Program
  areas : List Plot

namespace Estate

def initial : Estate := ⟨.initial, []⟩

/-- Values that lie in one piece, where their type may start. -/
def storage (e : Estate) : Storage := Storage.within (IsPiece e.program.past e.areas)

/-- The estate after an operation, with the areas that it placed. -/
def run (e : Estate) (a : Operation (List Handle)) (areas : List Plot) : Estate :=
  ⟨e.program.run a, areas ++ e.areas⟩

/-- The estate with one more handle. -/
def keep (e : Estate) (h : Handle) : Estate := { e with program := e.program.keep h }

/-! ## 2. Steps -/

/-- The pointer is null, or its record is live and as long as it was made. -/
def TailKept {σ τ : ElemType} (e : Estate) (p : TailedPtr σ τ) : Prop :=
  p.address = 0 ∨ ∃ b ∈ e.program.world.heap.blocks, b.payload = p.address ∧
    b.stored = .tailed σ τ ∧ b.LengthKept e.program.world.memory

/-- One step of a program whose storage may be used again. -/
inductive Step : Estate → Estate → Prop where
  | make {e request a} (hs : Serves request e.program.world) (ha : Program.MakesBlock request a) :
    Step e (e.run a [])
  | resize {e request τ} (hs : Serves request e.program.world) (p : ArrayPtr τ) (count) :
    Step e (e.run (Program.giving (.array τ ∘ .plain) (p.resize count request)) [])
  | place {e a qs} (ha : Program.Places a)
      (hqs : (e.program.run a).world.memory.plots = qs ++ e.program.world.memory.plots) :
    Step e (e.run a qs)
  | use {e a} (ha : Program.Uses e.program a) : Step e (e.run a [])
  | tail {e σ τ p} (hp : .tailed σ τ p ∈ e.program.handles) (hkept : e.TailKept p) :
    Step e (e.run (Program.giving (.array τ ∘ .plain) p.tail) [])
  | derive {e h} (hh : Program.Derives e.storage e.program h) : Step e (e.keep h)
  | bind {e a h} (hh : Program.Binds e.storage e.program a h) : Step e (e.keep h)
  | vouch {e τ p} (hp : .array τ (.bounded p) ∈ e.program.handles) :
    Step e (e.keep (.array τ (.bounded p.setAsGlobal)))
  | forget {e hs} (hhs : hs ⊆ e.program.handles) :
    Step e { e with program := { e.program with handles := hs } }
  /-- A call takes the stack pointer anywhere on the stack with a window above it. -/
  | enter {e p} (hmod : p.toNat % 16 = 0) (htop : p.toNat + Frames.windowSize ≤ Frames.top) :
    Step e { e with program := e.program.reframe (e.program.world.frames.enterAt p) }
  | leave {e} : Step e { e with program := e.program.move leaveFrame }

/-- One estate comes of another in some number of steps. -/
abbrev Leads : Estate → Estate → Prop := Relation.ReflTransGen Step

/-- The estates that runs lead to. -/
def Reachable (e : Estate) : Prop := Leads initial e

end Estate

/-! ## 3. Areas that are placed -/

/-- Every open frame has a window of the stack, and what is handed out there starts at a multiple
of 16. -/
structure Frames.Roomy (f : Frames) : Prop where
  pointers : ∀ p ∈ f.pointers, p.toNat % 16 = 0 ∧ p.toNat + windowSize ≤ top
  used : f.used % 16 = 0

namespace Frames.Roomy

variable {f : Frames} {p : Address}

theorem initial : Frames.initial.Roomy := by
  refine ⟨fun p hp => ?_, rfl⟩
  obtain rfl : p = pointerAt 0 := List.mem_singleton.mp hp
  rw [toNat_pointerAt]
  simp only [windowSize, top]
  omega

theorem enterAt (h : f.Roomy) (hmod : p.toNat % 16 = 0) (htop : p.toNat + windowSize ≤ top) :
    (f.enterAt p).Roomy := by
  refine ⟨fun r hr => ?_, h.used⟩
  rcases List.mem_cons.mp hr with rfl | hr
  · exact ⟨hmod, htop⟩
  · exact h.pointers r hr

theorem leave (h : f.Roomy) : f.leave.Roomy := by
  obtain ⟨callers, pointer, used⟩ := f
  cases callers with
  | nil => exact h
  | cons caller callers => exact ⟨fun r hr => h.pointers r (List.mem_cons_of_mem _ hr), h.used⟩

end Frames.Roomy

/-- `w'` is `w` with one more area, which is no block's. -/
structure World.Sites (w : World) (q : Plot) (w' : World) : Prop where
  heap : w'.heap = w.heap
  plots : w'.memory.plots = q :: w.memory.plots
  aligned : q.base.toNat % 16 = 0
  stop_lt : q.stop < 2 ^ 64
  roomy : w'.frames.Roomy

/-- Values from the start of an area on lie in it. -/
theorem World.Sites.within {P : Room → Prop} {n : Nat} (hq : w.Sites q w') (hP : P q.whole)
    (hle : n * τ.layout.size ≤ q.length) : Storage.within P τ q.base n :=
  ⟨τ.mod_align_of_mod hq.aligned, q.whole, hP, Nat.le_refl _, Nat.add_le_add_left hle _⟩

namespace Operation

theorem sites_placeStatic (hr : w.frames.Roomy) (l : Layout) {cells : Runs Cell}
    (hl : l.align ∣ 16) (hc : cells.length ≤ l.size) :
    Ensures (placeStatic l cells) w (fun a w' => w.Sites ⟨a, cells.length⟩ w')
      (fun _ w' => w' = w) := by
  refine (ensures_placeStatic l cells).mono ?_ fun _ _ hw => hw
  rintro a w' ⟨rfl, hfit, rfl⟩
  have hbase := World.toNat_grantBase hfit
  have hgrant : w.grantEnd l = w.grantBase l + max l.size 1 + 16 := rfl
  simp only [World.heapEnd] at hfit
  refine ⟨rfl, rfl, ?_, ?_, hr⟩
  · simp only [hbase]
    exact w.grantBase_mod hl
  · simp only [Plot.stop, hbase]
    omega

theorem sites_placeLocal (hr : w.frames.Roomy) (cells : Runs Cell) :
    Ensures (placeLocal cells) w (fun a w' => w.Sites ⟨a, cells.length⟩ w')
      (fun _ w' => w' = w) := by
  refine (ensures_placeLocal cells).mono ?_ fun _ _ hw => hw
  rintro a w' ⟨f, hreserve, rfl⟩
  obtain ⟨hmod, htop⟩ := hr.pointers _ List.mem_cons_self
  obtain ⟨haddr, hpointers, hused, hwin, hmod'⟩ := reserve?_eq_some hreserve htop
  have hown := hr.used
  simp only [Frames.top] at htop
  refine ⟨rfl, rfl, ?_, ?_, ⟨fun p hp => hr.pointers p (hpointers ▸ hp), hmod'⟩⟩
  · simp only [haddr]
    omega
  · simp only [Plot.stop, haddr]
    omega

end Operation

/-- A list of values fits what it is encoded as, however its length is written as a word. -/
theorem ElemType.mul_size_le_encodeAll (τ : ElemType) (xs : List τ.Carrier) :
    (UInt64.ofNat xs.length).toNat * τ.layout.size ≤ (Runs.ofList (τ.encodeAll xs)).length := by
  rw [Runs.length_ofList, ElemType.length_encodeAll, UInt64.toNat_ofNat']
  exact Nat.mul_le_mul_right _ (Nat.mod_le _ _)

theorem ArrayPtr.sites_newStatic (hr : w.frames.Roomy) (xs : List τ.Carrier) :
    Ensures (ArrayPtr.newStatic τ xs) w
      (fun p w' => ∃ q, w.Sites q w' ∧ p = .ofBase q.base (UInt64.ofNat xs.length) ∧
        (UInt64.ofNat xs.length).toNat * τ.layout.size ≤ q.length) fun _ w' => w' = w := by
  let cells : Runs Cell := .ofList (τ.encodeAll xs)
  have hplace : Ensures (placeStatic ⟨cells.length, τ.layout.align⟩ cells) w
      (fun a w' => w.Sites ⟨a, cells.length⟩ w') fun _ w' => w' = w :=
    sites_placeStatic hr _ τ.align_dvd (Nat.le_refl _)
  refine ensures_bind (hplace.mono ?_ fun _ _ hw => hw)
  intro a w' hq
  exact ensures_pure ⟨⟨a, cells.length⟩, hq, rfl, τ.mul_size_le_encodeAll xs⟩

namespace Program

/-- A handle was made to an area of its own. -/
def Settles (w : World) (hs : List Handle) (w' : World) : Prop :=
  ∃ q h, hs = [h] ∧ w.Sites q w' ∧ ∀ {P : Room → Prop}, P q.whole → h.LiesIn (Storage.within P) []

theorem settles_giving {α : Type} {a : Operation α} {f : α → Handle}
    (ha : Ensures a w (fun x w' => ∃ q, w.Sites q w' ∧ ∀ {P : Room → Prop}, P q.whole →
      (f x).LiesIn (Storage.within P) []) fun _ w' => w' = w) :
    Ensures (giving f a) w (Settles w) fun _ w' => w' = w := by
  refine ensures_map (ha.mono ?_ fun _ _ hw => hw)
  rintro x w' ⟨q, hq, hlies⟩
  exact ⟨q, f x, rfl, hq, hlies⟩

/-- **All that the placing of storage can do**: there is none, or one more area is there. -/
theorem Places.settles (hr : w.frames.Roomy) {a : Operation (List Handle)} (ha : Places a) :
    Ensures a w (Settles w) fun _ w' => w' = w := by
  cases ha with
  | staticArray τ xs =>
    refine settles_giving ((ArrayPtr.sites_newStatic hr xs).mono ?_ fun _ _ hw => hw)
    rintro p w' ⟨q, hq, rfl, hle⟩
    exact ⟨q, hq, fun hP => .inr (hq.within hP hle)⟩
  | staticObject τ x =>
    have hlen : (Runs.ofList (τ.encode x)).length = τ.layout.size := by
      rw [Runs.length_ofList, ElemType.length_encode]
    refine settles_giving (ensures_bind
      ((sites_placeStatic hr _ τ.align_dvd (Nat.le_of_eq hlen)).mono ?_ fun _ _ hw => hw))
    intro a w' hq
    refine ensures_pure ⟨_, hq, fun hP => .inr (hq.within hP ?_)⟩
    rw [Nat.one_mul, hlen]
  | global τ xs =>
    refine settles_giving (ensures_bind ((ArrayPtr.sites_newStatic hr xs).mono ?_ fun _ _ hw => hw))
    rintro p w' ⟨q, hq, rfl, hle⟩
    exact ensures_pure ⟨q, hq, fun hP => hq.within hP hle⟩
  | localArray τ xs =>
    refine settles_giving (ensures_bind ((sites_placeLocal hr _).mono ?_ fun _ _ hw => hw))
    exact fun a w' hq => ensures_bind (ensures_bind (ensures_get (ensures_pure (ensures_pure
      ⟨_, hq, fun hP => .inr (hq.within hP (τ.mul_size_le_encodeAll xs))⟩))))
  | localFixed τ xs =>
    refine settles_giving (ensures_bind ((sites_placeLocal hr _).mono ?_ fun _ _ hw => hw))
    exact fun a w' hq => ensures_pure ⟨_, hq, fun hP => hq.within hP (τ.mul_size_le_encodeAll xs)⟩

end Program

/-! ## 4. What holds of every state -/

/-- `w'` has the storage of `w`, the blocks `bs` and the areas `qs`. -/
structure World.Grows (w : World) (bs : List Block) (qs : List Plot) (w' : World) : Prop where
  lodged : w'.Lodged
  live : ∀ b ∈ w'.heap.blocks, b ∈ bs ∨ b ∈ w.heap.blocks
  made : ∀ b ∈ bs, b ∈ w'.heap.blocks
  plots : w'.memory.plots = bs.map Block.plot ++ (qs ++ w.memory.plots)
  inside : ∀ q ∈ qs, q.stop < 2 ^ 64
  roomy : w'.frames.Roomy

namespace World.Grows

variable {bs : List Block} {qs : List Plot} (hg : w.Grows bs qs w')

include hg

/-- The areas of before are there. -/
theorem old_mem (hq : q ∈ w.memory.plots) : q ∈ w'.memory.plots :=
  hg.plots ▸ List.mem_append_right _ (List.mem_append_right _ hq)

theorem area_mem (hq : q ∈ qs) : q ∈ w'.memory.plots :=
  hg.plots ▸ List.mem_append_right _ (List.mem_append_left _ hq)

theorem block_mem (hb : b ∈ bs) : b.plot ∈ w'.memory.plots :=
  hg.plots ▸ List.mem_append_left _ (List.mem_map_of_mem hb)

/-- No area ends after the address space. -/
theorem stop_lt (hold : ∀ q ∈ w.memory.plots, q.stop < 2 ^ 64) :
    ∀ q ∈ w'.memory.plots, q.stop < 2 ^ 64 := by
  intro q hq
  rw [hg.plots] at hq
  rcases List.mem_append.mp hq with hblock | hrest
  · obtain ⟨b, hb, rfl⟩ := List.mem_map.mp hblock
    have hbound := (hg.lodged.kept.lodged b (hg.made b hb)).end_le
    have hinside := (hg.lodged.kept.lodged b (hg.made b hb)).inside
    simp only [Block.plot, Plot.stop]
    omega
  · exact (List.mem_append.mp hrest).elim (hg.inside q) (hold q)

end World.Grows

theorem World.KeepsStorage.grows (hk : w.KeepsStorage w') (hr : w.frames.Roomy) :
    w.Grows [] [] w' where
  lodged := hk.lodged
  live b hb := .inr (hk.live b hb)
  made _ hb := nomatch hb
  plots := hk.plots
  inside _ hq := nomatch hq
  roomy := hk.frames ▸ hr

theorem World.Obtains.grows {h : Handle} (ho : w.Obtains h w') (hw : w.Lodged)
    (hr : w.frames.Roomy) : ∃ b, h.IsTo b ∧ w.Grows [b] [] w' := by
  obtain ⟨b, v, cells, hto, hl, hg⟩ := ho
  have hv := hl.lodged hw
  obtain ⟨log, -, rfl⟩ := hl
  have hmem : ∀ {c}, c ∈ w'.heap.blocks ↔ c = b ∨ c ∈ w.heap.blocks := by
    obtain ⟨next, rfl⟩ := hg.made
    exact HeapTable.mem_insert fun c hc => hg.ne_payload hc (hw.kept.lodged c hc)
  refine ⟨b, hto, hg.lodges hv fun c hc => hc, fun c hc => ?_, fun c hc => ?_, hg.plots_eq,
    fun _ hq => (List.not_mem_nil hq).elim, ?_⟩
  · exact (hmem.mp hc).imp_left List.mem_singleton.mpr
  · exact hmem.mpr (.inl (List.mem_singleton.mp hc))
  · obtain ⟨next, rfl⟩ := hg.made
    exact hr

theorem World.Reseats.grows {count : UInt64} {c : Block} (hr : w.Reseats τ b count c w')
    (hroomy : w.frames.Roomy) : w.Grows [c] [] w' where
  lodged := hr.lodged
  live d hd := ((hr.moved.remaining d).mp hd).imp List.mem_singleton.mpr And.left
  made d hd := (hr.moved.remaining d).mpr (.inl (List.mem_singleton.mp hd))
  plots := hr.plots
  inside _ hq := nomatch hq
  roomy := by
    have hframes := congrArg World.frames hr.moved.rest
    simp only at hframes
    exact hframes ▸ hroomy

theorem World.Sites.grows (hq : w.Sites q w') (hw : w.Lodged) : w.Grows [] [q] w' where
  lodged := by
    refine ⟨hw.settled.congr hq.heap fun a n hm => ?_, hq.heap ▸ hw.kept⟩
    by_cases hn : n = 0
    · simp [Memory.isMapped, hn]
    · obtain ⟨r, hr, hc⟩ := (Memory.isMapped_iff hn).mp hm
      exact Memory.isMapped_of_covers (hq.plots ▸ List.mem_cons_of_mem _ hr) hc
  live b hb := .inr (hq.heap ▸ hb)
  made _ hb := nomatch hb
  plots := hq.plots
  inside r hr := List.mem_singleton.mp hr ▸ hq.stop_lt
  roomy := hq.roomy

namespace Estate

variable {e e' : Estate}

/-- What every step keeps. -/
structure Charted (e : Estate) : Prop where
  lodged : e.program.world.Lodged
  live : ∀ b ∈ e.program.world.heap.blocks, b ∈ e.program.past
  shaped : ∀ b ∈ e.program.past, b.Shaped
  /-- Every piece is an area of memory. -/
  housed : ∀ b ∈ e.program.past, b.plot ∈ e.program.world.memory.plots
  placed : ∀ q ∈ e.areas, q ∈ e.program.world.memory.plots
  inside : ∀ q ∈ e.program.world.memory.plots, q.stop < 2 ^ 64
  roomy : e.program.world.frames.Roomy
  covered : ∀ h ∈ e.program.handles, h.LiesIn e.storage e.program.past

namespace Charted

theorem initial : Estate.initial.Charted where
  lodged := .initial
  live _ hb := nomatch hb
  shaped _ hb := nomatch hb
  housed _ hb := nomatch hb
  placed _ hq := nomatch hq
  inside _ hq := nomatch hq
  roomy := .initial
  covered _ hh := nomatch hh

/-- A piece lies in one area of memory. -/
theorem exists_plot (h : e.Charted) {r : Room} (hr : IsPiece e.program.past e.areas r) :
    ∃ q ∈ e.program.world.memory.plots, q.base.toNat ≤ r.start ∧ r.stop ≤ q.stop := by
  cases hr with
  | @block b hb =>
    refine ⟨b.plot, h.housed b hb, Nat.le_refl _, ?_⟩
    simp only [Block.whole, Block.plot, Plot.stop]
    omega
  | @area q hq => exact ⟨q, h.placed q hq, Nat.le_refl _, Nat.le_refl _⟩

theorem divides (h : e.Charted) : e.storage.Divides := by
  refine Storage.divides_within fun hr => ?_
  obtain ⟨q, hq, -, hstop⟩ := h.exists_plot hr
  have := h.inside q hq
  omega

/-- The storage of an estate is in memory. -/
theorem mapped (h : e.Charted) : e.storage.Mapped e.program.world.memory where
  toDivides := h.divides
  end_lt ha := by
    obtain ⟨-, r, hr, -, hhi⟩ := ha
    obtain ⟨q, hq, -, hstop⟩ := h.exists_plot hr
    have := h.inside q hq
    omega
  mapped ha := by
    obtain ⟨-, r, hr, hlo, hhi⟩ := ha
    obtain ⟨q, hq, hstart, hstop⟩ := h.exists_plot hr
    exact Memory.isMapped_of_covers hq ⟨by omega, by omega⟩

theorem hasBlocks (h : e.Charted) : e.storage.HasBlocks e.program.world.heap where
  shaped b hb := h.shaped b (h.live b hb)
  elements {_ _ _ b} hb _ hal hlo hhi := ⟨hal, b.whole, .block (h.live b hb), hlo, hhi⟩

theorem keep (h : e.Charted) {g : Handle} (hg : g.LiesIn e.storage e.program.past) :
    (e.keep g).Charted :=
  { h with
    covered := fun k hk => by
      rcases List.mem_cons.mp hk with rfl | hk
      · exact hg
      · exact h.covered k hk }

end Charted

/-! ## 5. Steps keep it -/

/-- The storage of the estate once the state is `w'` and areas were placed. -/
def storageAt (e : Estate) (w' : World) (qs : List Plot) : Storage :=
  Storage.within (IsPiece (w'.heap.blocks ++ e.program.past) (qs ++ e.areas))

/-- What lies in the storage of before lies in that of after. -/
theorem storage_mono {qs : List Plot} {a : Address} {n : Nat} (ha : e.storage τ a n) :
    e.storageAt w' qs τ a n := by
  refine Storage.within_mono (fun hr => ?_) ha
  cases hr with
  | block hb => exact .block (List.mem_append_right _ hb)
  | area hq => exact .area (List.mem_append_right _ hq)

/-- Whatever an operation leaves, storage has grown, and every handle that it gives lies in it. -/
def Advances (e : Estate) (qs : List Plot) (a : Operation (List Handle)) : Prop :=
  Ensures a e.program.world
    (fun hs w' => (∃ bs, e.program.world.Grows bs qs w') ∧
      ∀ g ∈ hs, g.LiesIn (e.storageAt w' qs) (w'.heap.blocks ++ e.program.past))
    (fun _ w' => ∃ bs, e.program.world.Grows bs qs w')

/-- A handle to a block that is live lies in storage. -/
theorem lies_of_isTo {g : Handle} {qs : List Plot} (hg : g.IsTo b) (hb : b ∈ w'.heap.blocks) :
    g.LiesIn (e.storageAt w' qs) (w'.heap.blocks ++ e.program.past) := by
  have hpast : b ∈ w'.heap.blocks ++ e.program.past := List.mem_append_left _ hb
  refine (hg.lies (.block hpast)).mono id fun c hc => ?_
  rw [List.mem_singleton.mp hc]
  exact hpast

namespace Charted

variable (h : e.Charted)

include h

/-- **More storage, and handles that lie in it.** -/
theorem grow {bs : List Block} {qs : List Plot} {hs : List Handle}
    (hg : e.program.world.Grows bs qs w')
    (hhs : ∀ g ∈ hs, g.LiesIn (e.storageAt w' qs) (w'.heap.blocks ++ e.program.past)) :
    Charted ⟨⟨w', hs ++ e.program.handles, w'.heap.blocks ++ e.program.past⟩, qs ++ e.areas⟩ := by
  refine ⟨hg.lodged, fun b hb => List.mem_append_left _ hb, ?_, ?_, ?_, hg.stop_lt h.inside,
    hg.roomy, ?_⟩
  · intro b hb
    rcases List.mem_append.mp hb with hlive | hpast
    · exact hg.lodged.settled.shaped b hlive
    · exact h.shaped b hpast
  · intro b hb
    rcases List.mem_append.mp hb with hlive | hpast
    · exact (hg.live b hlive).elim hg.block_mem fun hb => hg.old_mem (h.housed b (h.live b hb))
    · exact hg.old_mem (h.housed b hpast)
  · intro q hq
    exact (List.mem_append.mp hq).elim hg.area_mem fun hq => hg.old_mem (h.placed q hq)
  · intro g hmem
    rcases List.mem_append.mp hmem with hnew | hold
    · exact hhs g hnew
    · exact (h.covered g hold).mono storage_mono fun b hb => List.mem_append_right _ hb

/-- After an operation, whether it succeeded or not. -/
theorem run {a : Operation (List Handle)} {qs : List Plot} (ha : e.Advances qs a) :
    (e.run a qs).Charted := by
  unfold Estate.run Program.run
  rcases ho : outcome a e.program.world with ⟨f | hs, w'⟩
  · obtain ⟨bs, hg⟩ := Ensures.of_error ha ho
    exact h.grow hg fun g hmem => (List.not_mem_nil (a := g) hmem).elim
  · obtain ⟨⟨bs, hg⟩, hhs⟩ := Ensures.of_ok ha ho
    exact h.grow hg hhs

/-- Only handles to storage are made, and storage is as it was. -/
theorem advances {a : Operation (List Handle)}
    (ha : Ensures a e.program.world
      (fun hs w' => e.program.world.KeepsStorage w' ∧
        ∀ g ∈ hs, g.LiesIn (e.storageAt w' []) (w'.heap.blocks ++ e.program.past))
      (fun _ w' => e.program.world.KeepsStorage w')) : e.Advances [] a :=
  ha.mono (fun _ _ hk => ⟨⟨[], hk.1.grows h.roomy⟩, hk.2⟩) fun _ _ hk => ⟨[], hk.grows h.roomy⟩

/-- **The making of a block.** -/
theorem advances_of_obtains {a : Operation (List Handle)} (ha : Program.Obtains a e.program.world) :
    e.Advances [] a := by
  refine Ensures.mono ha ?_ ?_
  · rintro hs w' ⟨g, rfl, hobtains⟩
    obtain ⟨b, hto, hg⟩ := hobtains.grows h.lodged h.roomy
    refine ⟨⟨[b], hg⟩, fun k hk => ?_⟩
    rw [List.mem_singleton.mp hk]
    exact lies_of_isTo hto (hg.made b List.mem_cons_self)
  · exact fun _ w' hl => ⟨[], (hl.keepsStorage h.lodged).grows h.roomy⟩

/-- **A resize.** -/
theorem advances_resize {request : Request} (hs : Serves request e.program.world) (p : ArrayPtr τ)
    (count : UInt64) :
    e.Advances [] (Program.giving (.array τ ∘ .plain) (p.resize count request)) := by
  cases hnull : p.span.isNull with
  | true =>
    refine h.advances_of_obtains (Program.obtains_giving ?_)
    have hnew := Program.obtains_new (τ := τ) hs count false
    unfold Ensures at hnew ⊢
    rwa [ArrayPtr.resize_of_null hnull count request]
  | false =>
    refine ensures_map ((p.ensures_resize_from h.lodged hs hnull count).mono ?_ ?_)
    · rintro q w' ⟨b, c, -, rfl, hr⟩
      have hg := hr.grows h.roomy
      have hc := hg.made c List.mem_cons_self
      obtain ⟨hstored, hcount⟩ := hr.moved.recorded
      have hto := Handle.isTo_array (hg.lodged.settled.shaped c hc) hstored
      rw [hcount] at hto
      refine ⟨⟨[c], hg⟩, fun k hk => ?_⟩
      rw [List.mem_singleton.mp hk]
      exact lies_of_isTo hto hc
    · rintro f w' (⟨-, rfl⟩ | ⟨-, hforgets⟩)
      · exact ⟨[], h.lodged.keepsStorage.grows h.roomy⟩
      · exact ⟨[], (hforgets.keepsStorage h.lodged).grows h.roomy⟩

/-- **The placing of an area.** -/
theorem advances_place {a : Operation (List Handle)} {qs : List Plot} (ha : Program.Places a)
    (hqs : (e.program.run a).world.memory.plots = qs ++ e.program.world.memory.plots) :
    e.Advances qs a := by
  have hsettles := ha.settles (w := e.program.world) h.roomy
  unfold Program.run at hqs
  unfold Advances Ensures
  rcases ho : outcome a e.program.world with ⟨f | hs, w'⟩
  · rw [ho] at hqs
    obtain rfl := hsettles.of_error ho
    obtain rfl : qs = [] := List.self_eq_append_left.mp hqs
    exact ⟨[], h.lodged.keepsStorage.grows h.roomy⟩
  · rw [ho] at hqs
    obtain ⟨q, g, rfl, hq, hlies⟩ := hsettles.of_ok ho
    obtain rfl : qs = [q] := List.append_cancel_right (hqs.symm.trans hq.plots)
    refine ⟨⟨[], hq.grows h.lodged⟩, fun k hk => ?_⟩
    rw [List.mem_singleton.mp hk]
    exact (hlies (.area List.mem_cons_self)).mono id fun _ hb => (List.not_mem_nil hb).elim

theorem advances_use {a : Operation (List Handle)} (ha : Program.Uses e.program a) :
    e.Advances [] a := by
  refine h.advances (((ha.keepsStorage h.lodged).and (ha.gives e.program.world)).mono ?_
    fun _ _ hk => hk.1)
  rintro hs w' ⟨hk, hgives⟩
  refine ⟨hk, fun g hg => ?_⟩
  have hlies := (hgives g hg).lies h.covered
  exact hlies.mono storage_mono fun b hb => List.mem_append_right _ hb

/-- **The tail of a record** lies in the record, if that is live and its length as it was made. -/
theorem advances_tail {σ : ElemType} {p : TailedPtr σ τ} (hkept : e.TailKept p) :
    e.Advances [] (Program.giving (.array τ ∘ .plain) p.tail) := by
  refine h.advances (ensures_map ((TailedPtr.ensures_tail hkept).mono ?_ ?_))
  · rintro q w' ⟨rfl, b, hb, -, hs, rfl⟩
    refine ⟨h.lodged.keepsStorage, fun k hk => ?_⟩
    rw [List.mem_singleton.mp hk]
    have hshape := h.shaped b (h.live b hb)
    have hend := h.lodged.kept.end_lt b hb
    have hroom := hshape
    simp only [Block.Shaped, hs] at hroom
    refine .inr (hshape.within_tail hs hend (.block (List.mem_append_left _ hb))
      (Nat.le_add_right _ _) ?_)
    simp only [Block.whole]
    omega
  · rintro f w' rfl
    exact h.lodged.keepsStorage

end Charted

/-- **One step keeps the estate charted.** -/
theorem Step.charted (h : e.Charted) (hstep : Step e e') : e'.Charted := by
  cases hstep with
  | make hs ha => exact h.run (h.advances_of_obtains (ha.obtains hs))
  | resize hs p count => exact h.run (h.advances_resize hs p count)
  | place ha hqs => exact h.run (h.advances_place ha hqs)
  | use ha => exact h.run (h.advances_use ha)
  | tail hp hkept => exact h.run (h.advances_tail hkept)
  | derive hg => exact h.keep (hg.lies h.covered h.divides h.hasBlocks)
  | bind hg => exact h.keep (hg.lies h.covered)
  | @vouch τ p hp =>
    have hlies : p.span.In e.storage τ := h.covered _ hp
    exact h.keep hlies
  | forget hsub => exact { h with covered := fun k hk => h.covered k (hsub hk) }
  | enter hmod htop =>
    exact { h with
      lodged := ⟨h.lodged.settled.congr rfl fun _ _ hm => hm, h.lodged.kept⟩
      roomy := h.roomy.enterAt hmod htop }
  | leave =>
    exact { h with
      lodged := ⟨h.lodged.settled.congr rfl fun _ _ hm => hm, h.lodged.kept⟩
      roomy := h.roomy.leave }

/-- **Every reachable estate is charted.** -/
theorem Reachable.charted (hr : Reachable e) : e.Charted := by
  induction hr with
  | refl => exact .initial
  | tail _ hstep ih => exact hstep.charted ih

end Estate

end CheckedMemory
