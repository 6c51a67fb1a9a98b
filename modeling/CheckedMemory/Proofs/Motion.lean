import CheckedMemory.Proofs.Positions
import CheckedMemory.Proofs.Probes
import CheckedMemory.Session.Access

/-!
# Moves act like integers modulo the word

A pointer into an array is moved by an offset, back by an offset, or by one element either way.
Moving it back negates the offset first, which for the least one gives that offset again.  Indices
wrap, so all of it can be said with exact integers: what a sequence of moves makes of a pointer
depends on the sum of its offsets alone (`Move.displacement`), and on that only up to whole turns
of the word.  Two sequences of one sum give the same pointer, so that no access can tell them apart,
and a sequence is undone by the inverse moves in the opposite order.

The start and the end of the array are positions too, and a move to one of them computes the way
there.  It is refused where that way is not a signed word, and only there.

Main statement: `Move.displaces`.
-/

namespace CheckedMemory

variable {P : ElemType → Type} [ArrayLike P] {τ : ElemType}

/-! ## 1. Where the way to a position is a word -/

namespace Span

theorem toBegin_eq (s : Span) : s.toBegin =
    if s.index = Int64.minValue then .error (.overflow .negation) else .ok (s.nth 0) := by
  split
  · rename_i hmin
    exact if_pos hmin
  · rename_i hmin
    exact toBegin_eq_ok_iff.mpr ⟨hmin, rfl⟩

/-- In an array of no more elements than a signed word can say, the end is too far ahead or it is
found. -/
theorem toEnd_eq {s : Span} (hext : s.extent.toNat < 2 ^ 63) : s.toEnd =
    if 2 ^ 63 ≤ s.extent.toNat - s.index.toInt then .error (.overflow .subtraction)
    else .ok (s.nth s.extent.toNat) := by
  have hword := Word.toInt_toInt64 hext
  have hlt := s.index.toInt_lt
  split
  · rename_i hfar
    exact if_pos (.inr (by omega))
  · rename_i hnear
    exact toEnd_eq_ok_iff.mpr ⟨by omega, rfl⟩

end Span

/-! ## 2. Moves -/

/-- The ways to move a pointer in its array. -/
inductive Move where
  | offset (d : Int64)
  /-- Back by an offset, which is negated first. -/
  | back (d : Int64)
  | increment
  | decrement
  | postIncrement
  | postDecrement
deriving DecidableEq

namespace Move

/-- The pointer after a move. -/
def apply (p : P τ) : Move → P τ
  | offset d => ArrayLike.offset p d
  | back d => ArrayLike.back p d
  | increment => ArrayLike.increment p
  | decrement => ArrayLike.decrement p
  | postIncrement => (ArrayLike.postIncrement p).2
  | postDecrement => (ArrayLike.postDecrement p).2

/-- How many elements a move goes, in exact arithmetic. -/
def delta : Move → Int
  | offset d => d.toInt
  | back d => -d.toInt
  | increment | postIncrement => 1
  | decrement | postDecrement => -1

/-- The move that goes the other way. -/
def inverse : Move → Move
  | offset d => back d
  | back d => offset d
  | increment => decrement
  | decrement => increment
  | postIncrement => postDecrement
  | postDecrement => postIncrement

/-- The pointer after some moves. -/
def run (p : P τ) (ms : List Move) : P τ := ms.foldl apply p

/-- How many elements some moves go together. -/
def displacement : List Move → Int
  | [] => 0
  | m :: ms => m.delta + displacement ms

/-- The inverse moves in the opposite order. -/
def undo (ms : List Move) : List Move := (ms.map inverse).reverse

/-- Each move is by the word of its offset. -/
theorem apply_eq_offset (p : P τ) (m : Move) :
    m.apply p = ArrayLike.offset p (Int64.ofInt m.delta) := by
  cases m with
  | offset d => rw [delta, Int64.ofInt_toInt, apply]
  | back d => rw [delta, Int64.ofInt_neg, Int64.ofInt_toInt, apply, ArrayLike.back]
  | increment | postIncrement | decrement | postDecrement => rfl

theorem delta_inverse (m : Move) : m.inverse.delta = -m.delta := by
  cases m with
  | back d => exact (Int.neg_neg _).symm
  | offset d | increment | postIncrement | decrement | postDecrement => rfl

end Move

/-! ## 3. The action -/

namespace AnyArrayPtr

variable {p : AnyArrayPtr τ} {d e : Int64}

/-- Moves by two offsets are one move by their sum, and that wraps. -/
theorem offset_offset (p : AnyArrayPtr τ) (d e : Int64) :
    ArrayLike.offset (ArrayLike.offset p d) e = ArrayLike.offset p (d + e) := by
  have hspan : (p.span.shift d).shift e = p.span.shift (d + e) := by
    rw [Span.shift, Span.shift, Span.shift, Int64.add_assoc]
  cases p with
  | plain q => exact congrArg (plain ∘ ArrayPtr.mk) hspan
  | bounded q => exact congrArg (fun s => bounded { q with span := s }) hspan

theorem span_offset (p : AnyArrayPtr τ) (d : Int64) :
    (ArrayLike.offset p d).span = p.span.shift d :=
  ArrayLike.span_withSpan p _

/-- Different words move a pointer to different positions. -/
theorem offset_inj : ArrayLike.offset p d = ArrayLike.offset p e ↔ d = e := by
  constructor
  · intro h
    have hindex := congrArg (fun q => q.span.index) h
    simp only [span_offset, Span.index_shift] at hindex
    exact (Int64.add_right_inj _).mp hindex
  · rintro rfl
    rfl

end AnyArrayPtr

/-- Integers are one word exactly if they differ by whole turns of it. -/
theorem Word.ofInt_eq_iff {m n : Int} :
    Int64.ofInt m = Int64.ofInt n ↔ m % 2 ^ 64 = n % 2 ^ 64 := by
  rw [← Int64.toInt_inj, Int64.toInt_ofInt, Int64.toInt_ofInt]
  constructor
  · intro h
    have hmod := congrArg (· % (Int64.size : Int)) h
    rwa [Int.bmod_emod, Int.bmod_emod] at hmod
  · intro h
    have hmod := congrArg (Int.bmod · Int64.size) h
    rwa [show (2 : Int) ^ 64 = (Int64.size : Int) from rfl, Int.emod_bmod, Int.emod_bmod] at hmod

namespace Move

theorem run_append (p : P τ) (ms ns : List Move) : run p (ms ++ ns) = run (run p ms) ns :=
  List.foldl_append

/-- **A sequence of moves is one move by the sum of their offsets.** -/
theorem run_eq_offset (p : AnyArrayPtr τ) (ms : List Move) :
    run p ms = ArrayLike.offset p (Int64.ofInt (displacement ms)) := by
  induction ms generalizing p with
  | nil => exact (AnyArrayPtr.offset_zero p).symm
  | cons m ms ih =>
    rw [displacement, Int64.ofInt_add, ← AnyArrayPtr.offset_offset, ← apply_eq_offset, ← ih]
    rfl

/-- A move is undone by its inverse. -/
theorem apply_inverse (p : AnyArrayPtr τ) (m : Move) : m.inverse.apply (m.apply p) = p := by
  rw [apply_eq_offset, apply_eq_offset p, AnyArrayPtr.offset_offset, ← Int64.ofInt_add,
    delta_inverse, Int.add_right_neg]
  exact AnyArrayPtr.offset_zero p

/-- And so is a sequence of them, the last one first. -/
theorem run_undo (p : AnyArrayPtr τ) (ms : List Move) : run (run p ms) (undo ms) = p := by
  induction ms generalizing p with
  | nil => rfl
  | cons m ms ih =>
    have hundo : undo (m :: ms) = undo ms ++ [m.inverse] := by
      rw [undo, List.map_cons, List.reverse_cons]
      rfl
    rw [hundo, run_append]
    change m.inverse.apply (run (run (m.apply p) ms) (undo ms)) = p
    rw [ih, apply_inverse]

/-- The joined kind moves like either of its parts. -/
theorem run_plain (q : ArrayPtr τ) (ms : List Move) :
    run (AnyArrayPtr.plain q) ms = .plain (run q ms) := by
  induction ms generalizing q with
  | nil => rfl
  | cons m ms ih =>
    have hstep : m.apply (AnyArrayPtr.plain q) = .plain (m.apply q) := by cases m <;> rfl
    change run (m.apply (AnyArrayPtr.plain q)) ms = _
    rw [hstep, ih]
    rfl

theorem run_bounded (q : StackArrayPtr τ) (ms : List Move) :
    run (AnyArrayPtr.bounded q) ms = .bounded (run q ms) := by
  induction ms generalizing q with
  | nil => rfl
  | cons m ms ih =>
    have hstep : m.apply (AnyArrayPtr.bounded q) = .bounded (m.apply q) := by cases m <;> rfl
    change run (m.apply (AnyArrayPtr.bounded q)) ms = _
    rw [hstep, ih]
    rfl

end Move

/-! ## 4. Moves of a name -/

namespace Step

variable {p : AnyArrayPtr τ} {t : Session} {name : String}

/-- A moved copy is always made, and only the name that gets it is other than it was. -/
theorem outcome_moved (hname : t.handle? name = some (.array τ p)) (dst : Option String)
    (f : Step.Move) : ∃ x, outcome (moved dst name f) t =
      (.ok x, dst.elim t fun other => t.keep other (.array τ (f p))) := by
  unfold moved array
  rw [bind_assoc, outcome_handle_bind hname]
  cases dst with
  | none => exact ⟨_, rfl⟩
  | some other => exact ⟨_, rfl⟩

/-- A name that is moved has its new position, and the name that is given the old one has that. -/
theorem outcome_stepInPlace (hname : t.handle? name = some (.array τ p)) (dst : Option String)
    (f : {τ : ElemType} → AnyArrayPtr τ → AnyArrayPtr τ × AnyArrayPtr τ) :
    ∃ x, outcome (stepInPlace dst name f) t =
      (.ok x, dst.elim (t.keep name (.array τ (f p).2)) fun other =>
        (t.keep name (.array τ (f p).2)).keep other (.array τ (f p).1)) := by
  unfold stepInPlace array
  rw [bind_assoc, outcome_handle_bind hname]
  cases dst with
  | none => exact ⟨_, rfl⟩
  | some other => exact ⟨_, rfl⟩

end Step

namespace Move

variable {p : AnyArrayPtr τ} {t : Session} {name : String}

/-- The step that moves the array under a name. -/
def step (name : String) : Move → Step Datum
  | offset d => Step.moveInPlace name fun p => ArrayLike.offset p d
  | back d => Step.moveInPlace name fun p => ArrayLike.back p d
  | increment => Step.moveInPlace name ArrayLike.increment
  | decrement => Step.moveInPlace name ArrayLike.decrement
  | postIncrement => Step.stepInPlace none name ArrayLike.postIncrement
  | postDecrement => Step.stepInPlace none name ArrayLike.postDecrement

/-- One such step after the other. -/
def steps (name : String) : List Move → Step Unit
  | [] => pure ()
  | m :: ms => do
    let _ ← m.step name
    steps name ms

/-- No step that moves a pointer fails. -/
theorem outcome_step (hname : t.handle? name = some (.array τ p)) (m : Move) :
    ∃ x, (m.step name).outcome t = (.ok x, t.keep name (.array τ (m.apply p))) := by
  cases m with
  | offset d => exact Step.outcome_moved hname (some name) fun p => ArrayLike.offset p d
  | back d => exact Step.outcome_moved hname (some name) fun p => ArrayLike.back p d
  | increment => exact Step.outcome_moved hname (some name) ArrayLike.increment
  | decrement => exact Step.outcome_moved hname (some name) ArrayLike.decrement
  | postIncrement => exact Step.outcome_stepInPlace hname none ArrayLike.postIncrement
  | postDecrement => exact Step.outcome_stepInPlace hname none ArrayLike.postDecrement

/-- **No sequence of moves fails**, and what it changes is the pointer that is moved. -/
theorem outcome_steps (hname : t.handle? name = some (.array τ p)) (ms : List Move) :
    ∃ t', (steps name ms).outcome t = (.ok (), t') ∧ t'.world = t.world ∧
      t'.handle? name = some (.array τ (run p ms)) ∧
      ∀ other ≠ name, t'.handle? other = t.handle? other := by
  induction ms generalizing t p with
  | nil => exact ⟨t, rfl, rfl, hname, fun _ _ => rfl⟩
  | cons m ms ih =>
    obtain ⟨x, hstep⟩ := outcome_step hname m
    have hmoved : (t.keep name (.array τ (m.apply p))).handle? name =
        some (.array τ (m.apply p)) := by
      rw [Session.handle?_keep, if_pos rfl]
    obtain ⟨t', hrest, hworld, hself, hothers⟩ := ih hmoved
    refine ⟨t', ?_, hworld, hself, fun other hne => ?_⟩
    · rw [steps, Step.outcome_bind, hstep]
      exact hrest
    · rw [hothers other hne, Session.handle?_keep, if_neg hne]

/-! ## 5. What moves make of a pointer -/

/-- What some moves make of a pointer. -/
structure Displaces (ms : List Move) (p : AnyArrayPtr τ) : Prop where
  /-- Both kinds of pointers are moved alike. -/
  plain : ∀ q : ArrayPtr τ, p = .plain q → run p ms = .plain (run q ms)
  bounded : ∀ q : StackArrayPtr τ, p = .bounded q → run p ms = .bounded (run q ms)
  base_eq : (run p ms).span.base = p.span.base
  extent_eq : (run p ms).span.extent = p.span.extent
  bound?_eq : (run p ms).bound? = p.bound?
  /-- The index goes as far as the exact sum says, up to whole turns of the word. -/
  index_eq : (run p ms).span.index.toInt =
    (p.span.index.toInt + displacement ms).bmod (2 ^ 64)
  /-- Moves give the same pointer exactly if their sums differ by whole turns. -/
  same_iff : ∀ ns, run p ms = run p ns ↔ displacement ms % 2 ^ 64 = displacement ns % 2 ^ 64
  undone : run (run p ms) (undo ms) = p
  /-- A step gives the position before it, and leaves the one after it. -/
  postIncrement : ArrayLike.postIncrement (run p ms) = (run p ms, ArrayLike.increment (run p ms))
  postDecrement : ArrayLike.postDecrement (run p ms) = (run p ms, ArrayLike.decrement (run p ms))
  toBegin_eq : ArrayLike.toBegin (run p ms) =
    if (run p ms).span.index = Int64.minValue then .error (.overflow .negation)
    else .ok (p.withSpan (p.span.nth 0))
  toEnd_eq : p.span.extent.toNat < 2 ^ 63 → ArrayLike.toEnd (run p ms) =
    if 2 ^ 63 ≤ p.span.extent.toNat - (run p ms).span.index.toInt then
      .error (.overflow .subtraction)
    else .ok (p.withSpan (p.span.nth p.span.extent.toNat))
  /-- A copy can be moved so wherever the pointer is kept, and the pointer itself stays. -/
  copied : ∀ {t : Session} {name : String}, t.handle? name = some (.array τ p) →
    ∀ dst, ∃ x, (Step.moved dst name fun q => run q ms).outcome t =
      (.ok x, dst.elim t fun other => t.keep other (.array τ (run p ms)))
  /-- A name that has the pointer can be moved so itself, and no other name is. -/
  steps_eq : ∀ {t : Session} {name : String}, t.handle? name = some (.array τ p) →
    ∃ t', (steps name ms).outcome t = (.ok (), t') ∧ t'.world = t.world ∧
      t'.handle? name = some (.array τ (run p ms)) ∧
      ∀ other ≠ name, t'.handle? other = t.handle? other

theorem span_run (p : AnyArrayPtr τ) (ms : List Move) :
    (run p ms).span = p.span.shift (Int64.ofInt (displacement ms)) := by
  rw [run_eq_offset, AnyArrayPtr.span_offset]

/-- Wherever a pointer was moved, it is put at another position of its array alike. -/
theorem withSpan_run (p : AnyArrayPtr τ) (ms : List Move) (s : Span) :
    (run p ms).withSpan s = p.withSpan s := by
  rw [run_eq_offset]
  cases p <;> rfl

/-- **Moves of array pointers are an action of the integers modulo the word**: none fails, none
changes anything but the index, and the index is moved by the exact sum of their offsets. -/
theorem displaces (ms : List Move) (p : AnyArrayPtr τ) : Displaces ms p where
  plain q hq := hq ▸ run_plain q ms
  bounded q hq := hq ▸ run_bounded q ms
  base_eq := by rw [span_run, Span.base_shift]
  extent_eq := by rw [span_run, Span.extent_shift]
  bound?_eq := by
    rw [run_eq_offset]
    exact AnyArrayPtr.bound?_withSpan p _
  index_eq := by
    rw [span_run, Span.index_shift, Int64.toInt_add, Int64.toInt_ofInt]
    exact Int.add_bmod_bmod
  same_iff ns := by
    rw [run_eq_offset, run_eq_offset, AnyArrayPtr.offset_inj, Word.ofInt_eq_iff]
  undone := run_undo p ms
  postIncrement := Prod.ext (AnyArrayPtr.offset_zero _) rfl
  postDecrement := Prod.ext (AnyArrayPtr.offset_zero _) rfl
  toBegin_eq := by
    change (run p ms).span.toBegin.map (fun s => (run p ms).withSpan s) = _
    rw [Span.toBegin_eq, span_run]
    split
    · rfl
    · exact congrArg Except.ok (withSpan_run p ms _)
  toEnd_eq hext := by
    change (run p ms).span.toEnd.map (fun s => (run p ms).withSpan s) = _
    have hsame : (run p ms).span.extent = p.span.extent := by rw [span_run, Span.extent_shift]
    rw [Span.toEnd_eq (hsame ▸ hext), hsame]
    split
    · rfl
    · rw [span_run]
      exact congrArg Except.ok (withSpan_run p ms _)
  copied hname dst := Step.outcome_moved hname dst fun q => run q ms
  steps_eq hname := outcome_steps hname ms

end Move

end CheckedMemory
