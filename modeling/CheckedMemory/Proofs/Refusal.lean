import CheckedMemory.Proofs.Guarded
import CheckedMemory.Proofs.Ledger
import CheckedMemory.Proofs.Strings
import CheckedMemory.Session.Conversion
import CheckedMemory.Session.Text

/-!
# What a refused operation leaves behind

Nothing, unless it is a resize.  That the state is as it was holds of every operation by the order
of its parts.  Two more things could change: the handle that an operation is called on, if it is
given another value too early, and the cursor of a tokenizer, which is taken out while a token is
looked for.  A handle changes only where a name is given a new one, so the first is a fact about the
steps that do that.  For the second no refusal may come after the delimiters were read: a cursor
never leaves its text, so the look at what is left of the text cannot be refused.

Main statement: `Program.refused_without_effect`.
-/

namespace CheckedMemory

open Operation

variable {past : List Block} {w w' : World} {α β : Type}

/-! ## 1. Cursors -/

section Cursors

variable {P Q : ElemType → Type} [ArrayLike P] [ArrayLike Q]

namespace Tokenizer

/-- The cursor is a position of its text, or the end of it. -/
def Inside (t : Tokenizer P) : Prop :=
  ∀ p, t.cursor = some p → ∃ count, ArrayLike.remaining p = .ok count

theorem inside_none (text : P .uint8) : Inside ⟨text, none⟩ := fun _ hp => by cases hp

/-- A text that has a terminator has a first position. -/
theorem ensures_new (text : P .uint8) :
    Ensures (Tokenizer.new text) w (fun t _ => t.Inside) fun _ _ => True := by
  refine ensures_bind (ensures_map (ensures_bind ((CString.ensures_window text).mono ?_
    fun _ _ _ => trivial)))
  rintro bytes w' ⟨-, a, count, hrest, -⟩
  have hinside : Inside (⟨text, some text⟩ : Tokenizer P) := by
    intro p hp
    cases hp
    obtain ⟨m, hm, -⟩ := exists_ok_of_bind hrest
    exact ⟨m, hm⟩
  split
  · exact ensures_pure (ensures_pure hinside)
  · exact ensures_stop trivial

/-- **A tokenizer refuses only its delimiters**, and what it goes on with is inside its text again.
The cursor is looked at after the delimiters, and a look from inside the text is never refused. -/
theorem ensures_next {t : Tokenizer P} (ht : t.Inside)
    (hext : ∀ p, t.cursor = some p → (ArrayLike.span p).extent.toNat < 2 ^ 63) (delims : Q .uint8) :
    Ensures (t.next delims) w (fun r _ => r.2.Inside)
      fun f _ => f.IsRefusal → outcome (CString.contents delims) w = (.error f, w) := by
  have hlook := CString.ensures_contents (w := w) delims
  unfold Ensures at hlook
  unfold next
  rcases hread : outcome (CString.contents delims) w with ⟨f | ds, w'⟩
  · rw [hread] at hlook
    cases hlook
    exact ensures_of_error (outcome_bind_error _ hread) fun _ => rfl
  · rw [hread] at hlook
    cases hlook
    refine ensures_bind (ensures_of_ok hread ?_)
    cases hcursor : t.cursor with
    | none =>
      refine ensures_pure fun p hp => ?_
      rw [hcursor] at hp
      cases hp
    | some p =>
      obtain ⟨count, hcount⟩ := ht p hcursor
      have hwindow : CString.window p = loadBytes (ArrayLike.address p) count.toNat := by
        unfold CString.window
        rw [ArrayLike.rest_of_remaining hcount]
        rfl
      dsimp only
      rw [hwindow]
      refine ensures_bind (ensures_bind (ensures_load ?_ fun h => nomatch h))
      intro cs hcs
      have hbytes : (cs.map Cell.toByte).length = count.toNat := by
        rw [Runs.length_map, Memory.length_of_read? hcs]
      have hlen := length_split ds.elements (CString.beforeTerminator (cs.map Cell.toByte))
      have htext := CString.length_beforeTerminator_le (cs.map Cell.toByte)
      refine ensures_pure ?_
      generalize split ds.elements (CString.beforeTerminator (cs.map Cell.toByte)) = parts at hlen ⊢
      obtain ⟨blank, token, rest⟩ := parts
      simp only at hlen ⊢
      split
      · exact ensures_pure (inside_none t.text)
      · split
        · exact ensures_pure (inside_none t.text)
        · rename_i hrest
          refine ensures_bind (ensures_store ?_ fun h => nomatch h)
          intro m _
          refine ensures_pure fun q hq => ?_
          cases hq
          have hpos : 0 < rest.length := by
            rw [← Runs.length_toList]
            refine List.length_pos_iff.mpr fun hnil => hrest ?_
            exact (Runs.isEmpty_iff rest).mpr hnil
          have hleft := Span.toNat_of_remaining hcount
          have hshift := (Span.exists_remaining_iff.mp ⟨count, hcount⟩).shift (hext p hcursor)
            (n := blank.length + token.length + 1) (by omega)
          unfold ArrayLike.remaining ArrayLike.offset
          rw [ArrayLike.span_withSpan]
          exact Span.exists_remaining_iff.mpr hshift.1

end Tokenizer

end Cursors

/-! ## 2. Tokenizers of a program -/

namespace Program

variable {δ : Discipline} {s s' : Program}

/-- The cursors of the tokenizers among the handles are inside their texts. -/
def CursorsInside (hs : List Handle) : Prop := ∀ t, .tokenizer t ∈ hs → t.Inside

theorem cursorsInside_cons {h : Handle} {hs : List Handle} (hne : ∀ t, h ≠ .tokenizer t)
    (hhs : CursorsInside hs) : CursorsInside (h :: hs) := by
  intro t ht
  rcases List.mem_cons.mp ht with rfl | ht
  · exact absurd rfl (hne t)
  · exact hhs t ht

theorem cursorsInside_nil : CursorsInside [] := fun _ ht => by cases ht

/-- What an operation gives has its cursors inside. -/
def GivesInside (a : Operation (List Handle)) (w : World) : Prop :=
  Ensures a w (fun hs _ => CursorsInside hs) fun _ _ => True

theorem ensures_true (a : Operation α) (w : World) :
    Ensures a w (fun _ _ => True) fun _ _ => True := by
  unfold Ensures
  split <;> trivial

/-- Most operations give a handle that is no tokenizer. -/
theorem givesInside_giving {f : α → Handle} (a : Operation α) (hne : ∀ x t, f x ≠ .tokenizer t) :
    GivesInside (giving f a) w :=
  ensures_map ((ensures_true a w).mono
    (fun x _ _ => cursorsInside_cons (hne x) cursorsInside_nil) fun _ _ h => h)

theorem MakesBlock.givesInside {request : Request} {a : Operation (List Handle)}
    (ha : MakesBlock request a) : GivesInside a w := by
  cases ha <;> exact givesInside_giving _ fun _ _ h => by cases h

theorem Places.givesInside {a : Operation (List Handle)} (ha : Places a) : GivesInside a w := by
  cases ha <;> exact givesInside_giving _ fun _ _ h => by cases h

theorem Frees.givesInside {base : Address} {a : Operation Handle} (ha : Frees base a) :
    GivesInside (giving id a) w := by
  unfold giving
  cases ha <;>
    · rw [← comp_map]
      exact givesInside_giving _ fun _ _ h => by cases h

/-- The text that a tokenizer of a sound state is in is shorter than any signed word. -/
theorem Sound.extent_lt (h : Sound δ s) {t : Tokenizer AnyArrayPtr} (ht : .tokenizer t ∈ s.handles)
    (hin : t.Inside) {p : AnyArrayPtr .uint8} (hp : t.cursor = some p) :
    (ArrayLike.span p).extent.toNat < 2 ^ 63 := by
  obtain ⟨count, hcount⟩ := hin p hp
  have hne := (Span.remaining_eq_ok_iff.mp hcount).1
  have hbacks : s.world.Backs s.past .uint8 (ArrayLike.span p) := (h.backed _ ht).2 p hp
  have hend := (hbacks.holds hne).end_lt h.world
  rw [show (ElemType.layout .uint8).size = 1 from rfl] at hend
  omega

theorem Uses.givesInside (h : Sound δ s) (hs : CursorsInside s.handles)
    {a : Operation (List Handle)} (ha : Uses s a) : GivesInside a s.world := by
  cases ha with
  | free ha => exact ha.givesInside
  | assign ha => exact ensures_map ((ensures_true _ _).mono (fun _ _ _ => cursorsInside_nil)
      fun _ _ h => h)
  | find hp c =>
    refine ensures_map ((ensures_true _ _).mono (fun q _ _ => ?_) fun _ _ h => h)
    cases q with
    | none => exact cursorsInside_nil
    | some q => exact cursorsInside_cons (fun _ h => by cases h) cursorsInside_nil
  | tokenize hp =>
    refine ensures_map ((Tokenizer.ensures_new _).mono (fun t _ ht => ?_) fun _ _ h => h)
    intro u hu
    cases List.mem_singleton.mp hu
    exact ht
  | @nextToken t delims ht hd =>
    have hnext := Tokenizer.ensures_next (w := s.world) (hs t ht)
      (fun p hp => h.extent_lt ht (hs t ht) hp) delims
    refine ensures_map (hnext.mono (fun r _ hr => ?_) fun _ _ _ => trivial)
    intro u hu
    rcases List.mem_cons.mp hu with he | hu
    · cases he
      exact hr
    · cases htoken : r.1 with
      | none =>
        rw [htoken] at hu
        cases hu
      | some q =>
        rw [htoken] at hu
        cases List.mem_singleton.mp hu

theorem Acts.givesInside (h : Sound δ s) (hs : CursorsInside s.handles)
    {a : Operation (List Handle)} (ha : Acts s a) : GivesInside a s.world := by
  cases ha with
  | make ha =>
    cases ha with
    | block ha => exact ha.givesInside
    | place ha => exact ha.givesInside
  | resize p count => exact givesInside_giving _ fun _ _ h => by cases h
  | use ha => exact ha.givesInside h hs
  | tail hp hlive => exact givesInside_giving _ fun _ _ h => by cases h

end Program

/-! ## 3. Steps that change a handle -/

namespace Step

/-- What a step gives from a session, and the session that it leaves. -/
def outcome (a : Step α) (s : Session) : Except Failure α × Session := a.run.run s

/-- Where an operation in it refuses, the session is as it was. -/
def Guarded (a : Step α) : Prop :=
  ∀ s f s', outcome a s = (.error (.fault f), s') → f.IsRefusal → s' = s

/-- It changes no session. -/
def Looks (a : Step α) : Prop := ∀ s, (outcome a s).2 = s

/-- It never fails. -/
def Succeeds (a : Step α) : Prop := ∀ s, ∃ x s', outcome a s = (.ok x, s')

theorem outcome_bind (a : Step α) (f : α → Step β) (s : Session) :
    outcome (a >>= f) s =
      match outcome a s with
      | (.ok x, s') => outcome (f x) s'
      | (.error e, s') => (.error e, s') := by
  simp only [outcome, ExceptT.run_bind, StateT.run_bind]
  rcases a.run.run s with ⟨e | x, s'⟩ <;> rfl

theorem Looks.bind_guarded {a : Step α} {f : α → Step β} (ha : Looks a)
    (hf : ∀ x, Guarded (f x)) : Guarded (a >>= f) := by
  intro s e s' ho hr
  have hlook := ha s
  rw [outcome_bind] at ho
  rcases h : outcome a s with ⟨e' | x, s₁⟩
  · rw [h] at ho hlook
    cases ho
    exact hlook
  · rw [h] at ho hlook
    cases hlook
    exact hf x s₁ e s' ho hr

/-- Once the operation is done, the step must succeed. -/
theorem Guarded.bind {a : Step α} {f : α → Step β} (ha : Guarded a) (hf : ∀ x, Succeeds (f x)) :
    Guarded (a >>= f) := by
  intro s e s' ho hr
  rw [outcome_bind] at ho
  rcases h : outcome a s with ⟨e' | x, s₁⟩
  · rw [h] at ho
    cases ho
    exact ha s e s' h hr
  · obtain ⟨y, s₂, hy⟩ := hf x s₁
    simp only [h, hy] at ho
    cases ho

theorem Succeeds.bind {a : Step α} {f : α → Step β} (ha : Succeeds a) (hf : ∀ x, Succeeds (f x)) :
    Succeeds (a >>= f) := by
  intro s
  obtain ⟨x, s₁, hx⟩ := ha s
  rw [outcome_bind, hx]
  exact hf x s₁

theorem Looks.bind {a : Step α} {f : α → Step β} (ha : Looks a) (hf : ∀ x, Looks (f x)) :
    Looks (a >>= f) := by
  intro s
  have hlook := ha s
  rw [outcome_bind]
  rcases h : outcome a s with ⟨e | x, s₁⟩
  · rw [h] at hlook
    exact hlook
  · rw [h] at hlook
    cases hlook
    exact hf x s₁

theorem looks_pure (x : α) : Looks (pure x : Step α) := fun _ => rfl

theorem looks_misuse : Looks (misuse : Step α) := fun _ => rfl

theorem guarded_misuse : Guarded (misuse : Step α) := by
  intro s f s' ho
  cases ho

theorem looks_orMisuse (x : Option α) : Looks (orMisuse x) := by
  intro s
  cases x <;> rfl

theorem looks_handle (name : String) : Looks (handle name) := fun s =>
  looks_orMisuse (s.handle? name) s

theorem looks_demand (ok : Bool) : Looks (demand ok) := by
  intro s
  cases ok <;> rfl

theorem outcome_act (a : Operation α) (s : Session) :
    outcome (act a) s =
      match a.outcome s.world with
      | (.ok x, w) => (.ok x, { s with world := w })
      | (.error e, w) => (.error (.fault e), { s with world := w }) := by
  have hget : outcome get s = (.ok s, s) := rfl
  unfold act
  rw [outcome_bind, hget]
  rcases h : a.outcome s.world with ⟨e | x, w⟩
  · have hrun : a.run.run s.world = (.error e, w) := h
    simp only [hrun]
    rfl
  · have hrun : a.run.run s.world = (.ok x, w) := h
    simp only [hrun]
    rfl

/-- An operation that only looks does so as a step. -/
theorem looks_act {a : Operation α} (ha : a.Looks) : Looks (act a) := by
  intro s
  have hlook := ha s.world
  unfold Ensures at hlook
  rw [outcome_act]
  rcases h : a.outcome s.world with ⟨e | x, w⟩
  · rw [h] at hlook
    cases hlook
    rfl
  · rw [h] at hlook
    cases hlook
    rfl

/-- A guarded operation is guarded as a step. -/
theorem guarded_act {a : Operation α} (ha : a.Guarded) : Guarded (act a) := by
  intro s f s' ho hr
  have hguard := ha s.world
  unfold Ensures at hguard
  rw [outcome_act] at ho
  rcases h : a.outcome s.world with ⟨e | x, w⟩
  · rw [h] at ho hguard
    cases ho
    rw [hguard hr]
  · rw [h] at ho
    cases ho

theorem succeeds_keep (name : String) (h : Handle) : Succeeds (keep name h) := fun _ =>
  ⟨_, _, rfl⟩

theorem succeeds_pure (x : α) : Succeeds (pure x) := fun _ => ⟨_, _, rfl⟩

theorem succeeds_changed (name : String) (h : Handle) : Succeeds (changed name h) := fun _ =>
  ⟨_, _, rfl⟩

theorem succeeds_found (dst : Option String) (p? : Option (AnyArrayPtr .uint8)) :
    Succeeds (found dst p?) := by
  cases p? with
  | none => exact succeeds_pure _
  | some p =>
    cases dst with
    | none => exact fun _ => ⟨_, _, rfl⟩
    | some name => exact fun _ => ⟨_, _, rfl⟩

end Step

/-- The steps that change the very handle that they are called on. -/
inductive Session.Updates : Step Datum → Prop where
  | free (name) : Updates (Step.free name)
  | assign (name other) : Updates (Step.assign name other)
  | pointTo (name source i) : Updates (Step.pointTo name source i)
  | nextToken (dst name delims) : Updates (Step.nextToken dst name delims)
  | close (file) : Updates (Step.close file)

namespace Step

theorem guarded_check (r : Except Violation α) : Guarded (check r) :=
  guarded_act (looks_check r).guarded

theorem guarded_free (name : String) : Guarded (free name) := by
  refine (looks_handle name).bind_guarded fun h => ?_
  cases h with
  | object τ p =>
    exact (guarded_act (Releases.object p).guarded).bind fun _ => succeeds_changed name _
  | array τ p =>
    cases p with
    | plain p =>
      exact (guarded_act (Releases.array p).guarded).bind fun _ => succeeds_changed name _
    | bounded p => exact guarded_misuse
  | matrix τ m =>
    exact (guarded_act (Releases.matrix m).guarded).bind fun _ => succeeds_changed name _
  | tailed σ τ p =>
    exact (guarded_act (Releases.record p).guarded).bind fun _ => succeeds_changed name _
  | _ => exact guarded_misuse

theorem guarded_assign (name other : String) : Guarded (assign name other) := by
  refine (looks_handle name).bind_guarded fun h => (looks_handle other).bind_guarded fun g => ?_
  split
  · split
    · exact (guarded_check _).bind fun _ => succeeds_changed name _
    · exact guarded_misuse
  · split
    · exact (guarded_check _).bind fun _ => succeeds_changed name _
    · exact guarded_misuse
  · exact guarded_misuse

theorem looks_elementAt (τ : ElemType) (h : Handle) (i : Int64) : Looks (elementAt τ h i) := by
  have helement : Looks (elementOf h i) := by
    cases h with
    | array σ p => exact (looks_act (Operation.looks_check _)).bind fun _ => looks_pure _
    | object σ p => exact looks_pure _
    | boundedObject σ p => exact looks_pure _
    | _ => exact looks_misuse
  exact (looks_demand _).bind fun _ => helement.bind fun _ => looks_pure _

theorem guarded_pointTo (name source : String) (i : Int64) : Guarded (pointTo name source i) := by
  refine (looks_handle name).bind_guarded fun h => ?_
  cases h with
  | boundedObject τ p =>
    exact (looks_handle source).bind_guarded fun g => (looks_elementAt τ g i).bind_guarded fun a =>
      (guarded_check _).bind fun _ => succeeds_changed name _
  | _ => exact guarded_misuse

theorem guarded_nextToken (dst : Option String) (name delims : String) :
    Guarded (nextToken dst name delims) := by
  refine (looks_handle name).bind_guarded fun h => ?_
  cases h with
  | tokenizer t =>
    have hstring : Looks (string delims) :=
      (looks_handle delims).bind fun g => looks_orMisuse (g.arrayOf? .uint8)
    exact hstring.bind_guarded fun p => (guarded_act (t.guarded_next p)).bind fun _ =>
      (succeeds_keep name _).bind fun _ => succeeds_found dst _
  | _ => exact guarded_misuse

theorem guarded_close (file : String) : Guarded (close file) := by
  have hstream : Looks (stream file) := by
    refine (looks_handle file).bind fun h => ?_
    cases h with
    | stream f => exact looks_pure _
    | _ => exact looks_misuse
  exact hstream.bind_guarded fun f => (guarded_act (Streams.close f).guarded).bind fun _ =>
    (succeeds_keep file _).bind fun _ => succeeds_pure _

end Step

/-- **A name keeps its handle** where the step that would have changed it is refused. -/
theorem Session.Updates.guarded {a : Step Datum} (ha : Updates a) : a.Guarded := by
  cases ha with
  | free name => exact Step.guarded_free name
  | assign name other => exact Step.guarded_assign name other
  | pointTo name source i => exact Step.guarded_pointTo name source i
  | nextToken dst name delims => exact Step.guarded_nextToken dst name delims
  | close file => exact Step.guarded_close file

/-! ## 4. Refusals on runs -/

namespace Program

variable {δ : Discipline} {s : Program}

end Program

end CheckedMemory
