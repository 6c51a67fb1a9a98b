import CheckedMemory.Proofs.Dropped
import CheckedMemory.Proofs.HeapOnly

/-!
# Probes

Whether a stack-scoped pointer may take data over can be asked before it is done.  The question
classifies the address anew, and so does the pointer when it is pointed there; but when it is
assigned another pointer it trusts the flag of that one.  The answers are the same where flags are
exact, and they are in every state of a run that vouches for nothing, after any moves, clones,
assignments and conversions in frames of any depth (`Program.probes_predict`).

What is taken over is null, off the stack, or not below the stack pointer that the bound holds.
While that frame is open, this is the data of the frames that are no deeper.  The bound stays the
pointer's own whatever it takes over, and where it is refused the pointer stays as it is.

After the frame has returned, its stack pointer says nothing about frames: a pointer that was made
in a large one takes over data of a later call that is deeper (`Program.canAccept_not_noDeeper`).
-/

namespace CheckedMemory

open Operation

variable {a : Address} {τ : ElemType}

/-! ## 1. What a bound takes over -/

namespace TemporalBound

variable {b : TemporalBound} {r : Residency}

/-- What is asked of an address. -/
def probe (b : TemporalBound) (a : Address) : Bool :=
  Frames.extent.residency a == .heap || b.admits a

theorem probe_iff :
    b.probe a = true ↔ a = 0 ∨ Frames.extent.contains a = false ∨ b.frame ≤ a := by
  unfold probe admits StackExtent.residency
  cases hon : Frames.extent.contains a with
  | false => simp
  | true => simp

/-- While the frame of the bound is open, the data of a frame is taken over exactly if that frame is
no deeper. -/
theorem probe_iff_noDeeper {f : Frames} (hf : f.Descends) (hopen : b.frame ∈ f.pointers)
    {p : Address} (howns : f.Owns p a) : b.probe a = true ↔ f.NoDeeper p b.frame := by
  rw [← hf.le_iff_noDeeper howns hopen, probe_iff, howns.1]
  constructor
  · rintro (rfl | hoff | hle)
    · exact absurd howns.1 (by rw [Frames.not_contains_zero]; nofun)
    · cases hoff
    · exact hle
  · exact fun hle => .inr (.inr hle)

/-- With an exact flag, data is taken over exactly if that is what is answered. -/
theorem map_accept_eq {α : Type} (f : TemporalBound → α) (hr : r = Frames.extent.residency a) :
    (b.accept a r).map f = if b.probe a = true then .ok (f ⟨b.frame, r⟩)
      else .error (.stackEscape b.frame a) := by
  have haccept : b.accept a r = if b.probe a = true then .ok ⟨b.frame, r⟩
      else .error (.stackEscape b.frame a) := by
    subst hr
    unfold accept probe
    simp only [Bool.or_eq_true, beq_iff_eq]
  rw [haccept]
  split <;> rfl

theorem Flags.residency_eq (h : b.Flags a) : b.residency = Frames.extent.residency a := by
  have hexact := Iff.trans h Program.residency_eq_stack_iff.symm
  cases hb : b.residency with
  | stack => exact (hexact.mp hb).symm
  | heap =>
    cases hon : Frames.extent.residency a with
    | heap => rfl
    | stack =>
      rw [hexact.mpr hon] at hb
      cases hb

end TemporalBound

/-! ## 2. Names that take over -/

/-- What a step that gives a name another handle gives from a session, and the session that it
leaves: a name whose new handle is refused keeps the old one. -/
def Session.gives {α : Type} (t : Session) (name : String) (f : α → Handle) :
    Except Violation α → Except Failure Datum × Session
  | .ok x => (.ok ((t.keep name (f x)).showHandle (f x)), t.keep name (f x))
  | .error v => (.error (.fault (.violation v)), t)

namespace Step

variable {α : Type} {t : Session} {name other source : String} {h g : Handle} {i : Int64}

theorem outcome_check_changed (r : Except Violation α) (f : α → Handle) (t : Session) :
    outcome (check r >>= fun x => changed name (f x)) t = t.gives name f r := by
  cases r <;> rfl

theorem outcome_handle_bind (hname : t.handle? name = some h) (f : Handle → Step α) :
    outcome (handle name >>= f) t = outcome (f h) t := by
  have hhandle : outcome (handle name) t = outcome (orMisuse (t.handle? name)) t := rfl
  rw [outcome_bind, hhandle, hname]
  rfl

/-- A name that is assigned another one has what the operation gives, or keeps what it has. -/
theorem outcome_assign_object {r q : StackPtr τ}
    (hname : t.handle? name = some (.boundedObject τ r))
    (hother : t.handle? other = some (.boundedObject τ q)) :
    outcome (assign name other) t = t.gives name (.boundedObject τ) (r.assign q) := by
  unfold assign
  rw [outcome_handle_bind hname, outcome_handle_bind hother]
  dsimp only
  rw [dif_pos rfl]
  exact outcome_check_changed (r.assign q) (.boundedObject τ) t

theorem outcome_assign_array {r q : StackArrayPtr τ}
    (hname : t.handle? name = some (.array τ (.bounded r)))
    (hother : t.handle? other = some (.array τ (.bounded q))) :
    outcome (assign name other) t = t.gives name (.array τ ∘ .bounded) (r.assign q) := by
  unfold assign
  rw [outcome_handle_bind hname, outcome_handle_bind hother]
  dsimp only
  rw [dif_pos rfl]
  exact outcome_check_changed (r.assign q) (.array τ ∘ .bounded) t

/-- Likewise a name that is pointed at an element. -/
theorem outcome_pointTo {r : StackPtr τ} (hname : t.handle? name = some (.boundedObject τ r))
    (hsource : t.handle? source = some g) (ha : outcome (elementAt τ g i) t = (.ok a, t)) :
    outcome (pointTo name source i) t = t.gives name (.boundedObject τ) (r.pointTo a) := by
  unfold pointTo
  rw [outcome_handle_bind hname]
  dsimp only
  rw [outcome_handle_bind hsource, outcome_bind, ha]
  exact outcome_check_changed (r.pointTo a) (.boundedObject τ) t

/-- A probe changes nothing, and answers what the pointer does. -/
theorem outcome_canAccept_object {r : StackPtr τ}
    (hname : t.handle? name = some (.boundedObject τ r))
    (hsource : t.handle? source = some g) (ha : outcome (elementAt τ g i) t = (.ok a, t)) :
    outcome (canAccept name (some source) i) t = (.ok (.truth (r.canAccept a)), t) := by
  unfold canAccept
  rw [outcome_handle_bind hname]
  dsimp only
  rw [bind_assoc, outcome_handle_bind hsource, outcome_bind, ha]
  rfl

theorem outcome_canAccept_array {r : StackArrayPtr τ}
    (hname : t.handle? name = some (.array τ (.bounded r)))
    (hsource : t.handle? source = some g) (ha : outcome (elementAt τ g i) t = (.ok a, t)) :
    outcome (canAccept name (some source) i) t =
      (.ok (.list [.truth (r.canAccept a), .truth (StackArrayPtr.dataOffStack a)]), t) := by
  unfold canAccept
  rw [outcome_handle_bind hname]
  dsimp only
  rw [bind_assoc, outcome_handle_bind hsource, outcome_bind, ha]
  rfl

end Step

/-! ## 3. Pointers of a program -/

namespace Program

variable {s : Program}

/-- What a stack-scoped pointer to an object answers and takes over. -/
structure ObjectPredicts (s : Program) (r : StackPtr τ) : Prop where
  canAccept_iff : ∀ a, r.canAccept a = true ↔
    a = 0 ∨ Frames.extent.contains a = false ∨ r.bound.frame ≤ a
  /-- While the frame that it is bound to is open, it answers so of frames that are no deeper. -/
  canAccept_iff_noDeeper : r.bound.frame ∈ s.world.frames.pointers →
    ∀ {p a}, s.world.frames.Owns p a →
      (r.canAccept a = true ↔ s.world.frames.NoDeeper p r.bound.frame)
  /-- It is pointed where it answers that it may be, and nowhere else. -/
  pointTo_eq : ∀ a, r.pointTo a = if r.canAccept a = true then
      .ok ⟨a, ⟨r.bound.frame, Frames.extent.residency a⟩⟩
    else .error (.stackEscape r.bound.frame a)
  /-- And it is assigned what refers to where it may be pointed. -/
  assign_eq : ∀ {q : StackPtr τ}, .boundedObject τ q ∈ s.handles →
    r.assign q = if r.canAccept q.address = true then
        .ok ⟨q.address, ⟨r.bound.frame, q.bound.residency⟩⟩
      else .error (.stackEscape r.bound.frame q.address)
  /-- A name that has it answers so, and has another pointer only if that is what is given. -/
  pointTo_named : ∀ {t : Session} {name source : String} {g : Handle} {i : Int64} {a : Address},
    t.handle? name = some (.boundedObject τ r) → t.handle? source = some g →
      (Step.elementAt τ g i).outcome t = (.ok a, t) →
        (Step.canAccept name (some source) i).outcome t = (.ok (.truth (r.canAccept a)), t) ∧
          (Step.pointTo name source i).outcome t = t.gives name (.boundedObject τ) (r.pointTo a)
  assign_named : ∀ {t : Session} {name other : String} {q : StackPtr τ},
    t.handle? name = some (.boundedObject τ r) → t.handle? other = some (.boundedObject τ q) →
      (Step.assign name other).outcome t = t.gives name (.boundedObject τ) (r.assign q)

/-- The same for one into an array, which takes over index and extent too. -/
structure ArrayPredicts (s : Program) (r : StackArrayPtr τ) : Prop where
  canAccept_iff : ∀ a, r.canAccept a = true ↔
    a = 0 ∨ Frames.extent.contains a = false ∨ r.bound.frame ≤ a
  canAccept_iff_noDeeper : r.bound.frame ∈ s.world.frames.pointers →
    ∀ {p a}, s.world.frames.Owns p a →
      (r.canAccept a = true ↔ s.world.frames.NoDeeper p r.bound.frame)
  assign_eq : ∀ {q : StackArrayPtr τ}, s.HasArray τ (.bounded q) →
    r.assign q = if r.canAccept q.span.base = true then
        .ok ⟨q.span, ⟨r.bound.frame, q.bound.residency⟩⟩
      else .error (.stackEscape r.bound.frame q.span.base)
  canAccept_named : ∀ {t : Session} {name source : String} {g : Handle} {i : Int64} {a : Address},
    t.handle? name = some (.array τ (.bounded r)) → t.handle? source = some g →
      (Step.elementAt τ g i).outcome t = (.ok a, t) →
        (Step.canAccept name (some source) i).outcome t =
          (.ok (.list [.truth (r.canAccept a), .truth (StackArrayPtr.dataOffStack a)]), t)
  assign_named : ∀ {t : Session} {name other : String} {q : StackArrayPtr τ},
    t.handle? name = some (.array τ (.bounded r)) →
      t.handle? other = some (.array τ (.bounded q)) →
        (Step.assign name other).outcome t = t.gives name (.array τ ∘ .bounded) (r.assign q)

/-- Every stack-scoped pointer of the program answers what it takes over. -/
structure ProbesPredict (s : Program) : Prop where
  object : ∀ {τ} {r : StackPtr τ}, .boundedObject τ r ∈ s.handles → s.ObjectPredicts r
  array : ∀ {τ} {r : StackArrayPtr τ}, s.HasArray τ (.bounded r) → s.ArrayPredicts r

/-- Under exact flags they do. -/
theorem probesPredict_of_flags (hf : s.world.frames.Descends)
    (hflags : ∀ h ∈ s.handles, h.Placed TemporalBound.Flags) : s.ProbesPredict where
  object {τ r} _ := {
    canAccept_iff := fun a => TemporalBound.probe_iff
    canAccept_iff_noDeeper := fun hopen _ _ howns =>
      TemporalBound.probe_iff_noDeeper hf hopen howns
    pointTo_eq := fun a => TemporalBound.map_accept_eq _ rfl
    assign_eq := fun {q} hq => by
      have hexact : q.bound.Flags q.address := hflags _ hq
      exact TemporalBound.map_accept_eq _ hexact.residency_eq
    pointTo_named := fun hname hsource ha =>
      ⟨Step.outcome_canAccept_object hname hsource ha, Step.outcome_pointTo hname hsource ha⟩
    assign_named := Step.outcome_assign_object }
  array {τ r} _ := {
    canAccept_iff := fun a => TemporalBound.probe_iff
    canAccept_iff_noDeeper := fun hopen _ _ howns =>
      TemporalBound.probe_iff_noDeeper hf hopen howns
    assign_eq := fun {q} hq => by
      have hexact : q.bound.Flags q.span.base := hq.placed hflags
      exact TemporalBound.map_accept_eq _ hexact.residency_eq
    canAccept_named := Step.outcome_canAccept_array
    assign_named := Step.outcome_assign_array }

/-- **What a stack-scoped pointer answers is what it does**, in every state of a run that vouches
for nothing, be it one of calls with any stack pointers or one of all that programs do, with
pointers made and cloned in any frame: it takes over what is not below its bound and nothing else,
keeps the bound, and is as it was where it is refused. -/
theorem probes_predict :
    (∀ {s}, CallReachable .any .any s → s.ProbesPredict) ∧
      ∀ {s}, ReachableUnvouched s → s.ProbesPredict := by
  refine ⟨fun hs => ?_, fun hs => ?_⟩
  · have hcalled := hs.called TemporalBound.law_flags
    exact probesPredict_of_flags hcalled.descends hcalled.placed
  · exact probesPredict_of_flags hs.sound.world.windowed.descends hs.flags

/-- A null pointer of the first frame. -/
def outerPtr : StackArrayPtr .uint32 := .null .initial

/-- A call that has made two words, with a null pointer of its caller. -/
def wordsInCall : Program :=
  ((initial.keep (.array .uint32 (.bounded outerPtr))).move enterFrame).run localWords

/-- The pointer of the caller may not take over the words, and does not; that of the call takes over
the null one, and its bound stays that of the call. -/
theorem probes_predict_words_in_call :
    (CallReachable .any .any deeperCall ∧ deeperCall.ProbesPredict) ∧
    ReachableUnvouched wordsInCall ∧ wordsInCall.HasArray .uint32 (.bounded outerPtr) ∧
      wordsInCall.HasArray .uint32 (.bounded calleePtr) ∧ wordsInCall.ProbesPredict ∧
      outerPtr.canAccept calleePtr.span.base = false ∧
      outerPtr.assign calleePtr =
        .error (.stackEscape (Frames.pointerAt 0) (Frames.pointerAt 1)) ∧
      calleePtr.canAccept outerPtr.span.base = true ∧
      calleePtr.assign outerPtr = .ok ⟨Span.null, ⟨Frames.pointerAt 1, .heap⟩⟩ := by
  have hmade : wordsInCall.handles =
      [.array .uint32 (.bounded calleePtr), .array .uint32 (.bounded outerPtr)] := rfl
  have hnull : ReachableUnvouched (initial.keep (.array .uint32 (.bounded outerPtr))) :=
    .single (.derive (.convert (.nullStackArray .uint32)))
  have hs : ReachableUnvouched wordsInCall :=
    (hnull.tail .enter).tail (.act (.make (.place (.localArray .uint32 [1, 2]))))
  have houter : wordsInCall.HasArray .uint32 (.bounded outerPtr) :=
    .handle (hmade ▸ List.mem_cons_of_mem _ List.mem_cons_self)
  have hcallee : wordsInCall.HasArray .uint32 (.bounded calleePtr) :=
    .handle (hmade ▸ List.mem_cons_self)
  have hpredict := probes_predict.2 hs
  refine ⟨⟨callReachable_deeperCall, probes_predict.1 callReachable_deeperCall⟩, hs, houter,
    hcallee, hpredict, by decide, ?_, by decide, ?_⟩
  · rw [(hpredict.array houter).assign_eq hcallee]
    rfl
  · rw [(hpredict.array hcallee).assign_eq houter]
    rfl

/-- **A pointer that has outlived its frame takes over data of a deeper one**, if the frame was
larger than all that is open below it now. -/
theorem canAccept_not_noDeeper :
    ¬∀ s, CallReachable .any .any s → ∀ (r : StackPtr .uint32) a,
      .boundedObject .uint32 r ∈ s.handles →
        (r.canAccept a = true ↔ a = 0 ∨ Frames.extent.contains a = false ∨
          ∃ p, s.world.frames.Owns p a ∧ s.world.frames.NoDeeper p r.bound.frame) := by
  intro hall
  have hiff := hall _ callReachable_deeperCall largeFramePtr 0x7ffffffed800 List.mem_cons_self
  obtain hnull | hoff | ⟨p, -, inner, outer, hsplit, -⟩ := hiff.mp (by decide)
  · exact absurd hnull (by decide)
  · exact absurd hoff (by decide)
  · have hopen : (0x7ffffffe7000 : Address) ∈ deeperCall.world.frames.pointers :=
      hsplit ▸ List.mem_append_right _ List.mem_cons_self
    exact absurd hopen (by decide)

end Program

end CheckedMemory
