import CheckedMemory.Proofs.Access
import CheckedMemory.Session.Handle
import Mathlib.Logic.Relation

/-!
# Runs of a program

A program has storage and handles, and takes steps: it makes, resizes and releases storage, assigns
to it, makes a handle of another one, calls and returns.  `Program.Step` says which steps there are,
with any arguments; `Program.Reachable` is every state that some run of them leads to.  A step that
is refused is a step too, and leaves the state that the refused operation leaves.

What the documentation asks of the program stands here as premises.  A handle made of a bare address
is made of one where values are.  Whoever releases a record promises that no copy of the pointer is
dereferenced after that, so its tail is taken only while it is live.  Releasing and resizing have no
premise: any handle may be given, a copy, a stale one or one to the inside of a block.  One premise
is not of the documentation: an object is not looked for in a live block that has no values
(`Program.Peopled`).

A handle stays among those of the program when another is made of it, so a copy needs no step, and
a change to a variable is the new handle kept and the old one forgotten.
-/

namespace CheckedMemory

open Operation

/-- A program under way. -/
structure Program where
  world : World
  /-- The handles in its variables. -/
  handles : List Handle
  /-- Every block that the heap table ever held. -/
  past : List Block

namespace Program

def initial : Program := ⟨.initial, [], []⟩

/-- The program after an operation that gives handles.  One that fails gives none, and the state is
the one that it left. -/
def run (s : Program) (a : Operation (List Handle)) : Program :=
  match a.outcome s.world with
  | (.ok hs, w) => ⟨w, hs ++ s.handles, w.heap.blocks ++ s.past⟩
  | (.error _, w) => ⟨w, s.handles, w.heap.blocks ++ s.past⟩

theorem past_run (s : Program) (a : Operation (List Handle)) :
    (s.run a).past = (s.run a).world.heap.blocks ++ s.past := by
  unfold run
  rcases a.outcome s.world with ⟨f | hs, w⟩ <;> rfl

/-- The program with one more handle. -/
def keep (s : Program) (h : Handle) : Program := { s with handles := h :: s.handles }

/-- The program with other frames. -/
def reframe (s : Program) (f : Frames) : Program := { s with world := { s.world with frames := f } }

/-- The program after an operation on its frames. -/
def move (s : Program) (a : Operation Unit) : Program :=
  { s with world := (a.outcome s.world).2 }

/-- An operation as one that gives a handle. -/
def giving {α : Type} (f : α → Handle) (a : Operation α) : Operation (List Handle) :=
  (fun x => [f x]) <$> a

/-- An operation as one that gives no handle. -/
def givingNone {α : Type} (a : Operation α) : Operation (List Handle) := (fun _ => []) <$> a

/-! ## 1. Operations on storage -/

/-- The making of a block of the heap, in room that is asked for. -/
inductive MakesBlock (request : Request) : Operation (List Handle) → Prop where
  | array (τ count traced) :
    MakesBlock request (giving (.array τ ∘ .plain) (ArrayPtr.new τ count traced request))
  /-- The word can hold the length of any list that memory can. -/
  | list (τ) (xs : List τ.Carrier) (hxs : xs.length < 2 ^ 64) :
    MakesBlock request (giving (.array τ ∘ .plain) (ArrayPtr.ofList τ xs request))
  | filled (τ count) (x : τ.Carrier) :
    MakesBlock request (giving (.array τ ∘ .plain) (ArrayPtr.filled τ count x request))
  | zeroed (τ count) :
    MakesBlock request (giving (.array τ ∘ .plain) (ArrayPtr.zeroed τ count request))
  | aligned (τ count align) :
    MakesBlock request (giving (.array τ ∘ .plain) (ArrayPtr.aligned τ count align request))
  | object (τ) (x : τ.Carrier) (traced) :
    MakesBlock request (giving (.object τ) (Ptr.new τ x traced request))
  | zeroedObject (τ) : MakesBlock request (giving (.object τ) (Ptr.zeroed τ request))
  | matrix (τ x y) : MakesBlock request (giving (.matrix τ) (Matrix.new τ x y request))
  | record (σ τ count) (x : σ.Carrier) :
    MakesBlock request (giving (.tailed σ τ) (TailedPtr.new σ τ count x request))
  | fixed (τ) (xs : List τ.Carrier) :
    MakesBlock request (giving (.fixed τ) (FixedArray.newHeap τ xs request))

/-- The making of storage that is no block: of the whole run or of the current frame. -/
inductive Places : Operation (List Handle) → Prop where
  | staticArray (τ) (xs : List τ.Carrier) :
    Places (giving (.array τ ∘ .plain) (ArrayPtr.newStatic τ xs))
  | staticObject (τ) (x : τ.Carrier) : Places (giving (.object τ) (Ptr.newStatic τ x))
  | global (τ) (xs : List τ.Carrier) : Places (giving (.global τ) (GlobalArray.new τ xs))
  | localArray (τ) (xs : List τ.Carrier) :
    Places (giving (.array τ ∘ .bounded) (StackArrayPtr.newLocal τ xs))
  | localFixed (τ) (xs : List τ.Carrier) : Places (giving (.fixed τ) (FixedArray.newLocal τ xs))

/-- The making of storage, of the heap or not. -/
inductive Makes : Operation (List Handle) → Prop where
  | block {a} (ha : MakesBlock requestMemory a) : Makes a
  | place {a} (ha : Places a) : Makes a

/-- The release of what starts at an address, through a handle of any kind that can release. -/
inductive Frees : Address → Operation Handle → Prop where
  | object {τ} (p : Ptr τ) : Frees p.address (.object τ <$> p.free)
  | array {τ} (p : ArrayPtr τ) : Frees p.span.base ((.array τ ∘ .plain) <$> p.free)
  | matrix {τ} (m : Matrix τ) : Frees m.base (.matrix τ <$> m.free)
  | record {σ τ} (p : TailedPtr σ τ) : Frees p.address (.tailed σ τ <$> p.free)

/-- Assignments to what the program's handles refer to. -/
inductive Assigns (s : Program) : Operation Unit → Prop where
  | element {τ p} (hp : .array τ p ∈ s.handles) (i x) : Assigns s (ArrayLike.set p i x)
  | tryElement {τ p} (hp : .array τ p ∈ s.handles) (i x) :
    Assigns s (discard (ArrayLike.trySet p i x))
  | elements {τ p} (hp : .array τ p ∈ s.handles) (xs) :
    Assigns s (discard (ArrayLike.overwrite p xs))
  | object {τ p} (hp : .object τ p ∈ s.handles) (x) : Assigns s (p.write x)
  | tryObject {τ p} (hp : .object τ p ∈ s.handles) (x) : Assigns s (discard (p.tryWrite x))
  | stackObject {τ p} (hp : .boundedObject τ p ∈ s.handles) (x) : Assigns s (p.write x)
  | tryStackObject {τ p} (hp : .boundedObject τ p ∈ s.handles) (x) :
    Assigns s (discard (p.tryWrite x))
  | cell {τ m} (hm : .matrix τ m ∈ s.handles) (x y v) : Assigns s (m.set x y v)
  | tryCell {τ m} (hm : .matrix τ m ∈ s.handles) (x y v) : Assigns s (discard (m.trySet x y v))
  | head {σ τ p} (hp : .tailed σ τ p ∈ s.handles) (x) : Assigns s (p.setHead x)
  | fixedElement {τ x} (hx : .fixed τ x ∈ s.handles) (i v) : Assigns s (x.set i v)
  | fixedElements {τ x} (hx : .fixed τ x ∈ s.handles) (xs) : Assigns s (discard (x.overwrite xs))

/-- The operations that make no storage and look for nothing in a record. -/
inductive Uses (s : Program) : Operation (List Handle) → Prop where
  | free {base a} (ha : Frees base a) : Uses s (giving id a)
  | assign {a} (ha : Assigns s a) : Uses s (givingNone a)
  | find {p} (hp : .array .uint8 p ∈ s.handles) (c) :
    Uses s ((fun q => (q.map (.array .uint8)).toList) <$> CString.find? p c)
  | tokenize {p} (hp : .array .uint8 p ∈ s.handles) :
    Uses s (giving .tokenizer (Tokenizer.new p))
  | nextToken {t delims} (ht : .tokenizer t ∈ s.handles)
      (hd : .array .uint8 delims ∈ s.handles) :
    Uses s ((fun r => .tokenizer r.2 :: (r.1.map (.array .uint8)).toList) <$> t.next delims)

/-- The operations that a program may run. -/
inductive Acts (s : Program) : Operation (List Handle) → Prop where
  | make {a} (ha : Makes a) : Acts s a
  | resize {τ} (p : ArrayPtr τ) (count) : Acts s (giving (.array τ ∘ .plain) (p.resize count))
  | use {a} (ha : Uses s a) : Acts s a
  /-- The tail dereferences the pointer, which a copy of a released one must not. -/
  | tail {σ τ p} (hp : .tailed σ τ p ∈ s.handles)
      (hlive : p.address = 0 ∨ s.world.heap.isLive p.address = true) :
    Acts s (giving (.array τ ∘ .plain) p.tail)

/-! ## 2. One handle of another -/

/-- The handles that a program may make of nothing or of others, with no look at storage and without
binding anything to the current frame that may be on the stack. -/
inductive Converts (s : Program) : Handle → Prop where
  -- nothing
  | nullStackObject (τ) : Converts s (.boundedObject τ (.null s.world.frames))
  | nullStackArray (τ) : Converts s (.array τ (.bounded (.null s.world.frames)))
  -- motion
  | offset {τ p} (hp : .array τ p ∈ s.handles) (d) : Converts s (.array τ (ArrayLike.offset p d))
  | toBegin {τ p q} (hp : .array τ p ∈ s.handles) (hq : ArrayLike.toBegin p = .ok q) :
    Converts s (.array τ q)
  | toEnd {τ p q} (hp : .array τ p ∈ s.handles) (hq : ArrayLike.toEnd p = .ok q) :
    Converts s (.array τ q)
  -- one object and arrays
  | toObject {τ p q} (hp : .array τ (.plain p) ∈ s.handles) (hq : p.toPtr = .ok q) :
    Converts s (.object τ q)
  | toStackObject {τ p q} (hp : .array τ (.bounded p) ∈ s.handles) (hq : p.toStackPtr = .ok q) :
    Converts s (.boundedObject τ q)
  | ofObject {τ p} (hp : .object τ p ∈ s.handles) : Converts s (.array τ (.plain (.ofPtr p)))
  -- to stack-scoped kinds and back
  | objectToStack {τ p} (hp : .object τ p ∈ s.handles) :
    Converts s (.boundedObject τ (.ofPtr s.world.frames p))
  | arrayToStack {τ p} (hp : .array τ (.plain p) ∈ s.handles) :
    Converts s (.array τ (.bounded (.ofArrayPtr s.world.frames p)))
  | objectOffStack {τ p q} (hp : .boundedObject τ p ∈ s.handles) (hq : Ptr.ofStack p = .ok q) :
    Converts s (.object τ q)
  | arrayOffStack {τ p q} (hp : .array τ (.bounded p) ∈ s.handles)
      (hq : ArrayPtr.ofStack p = .ok q) : Converts s (.array τ (.plain q))
  -- taking over
  | assignObject {τ p q r} (hp : .boundedObject τ p ∈ s.handles)
      (hq : .boundedObject τ q ∈ s.handles) (hr : p.assign q = .ok r) :
    Converts s (.boundedObject τ r)
  | assignArray {τ p q r} (hp : .array τ (.bounded p) ∈ s.handles)
      (hq : .array τ (.bounded q) ∈ s.handles) (hr : p.assign q = .ok r) :
    Converts s (.array τ (.bounded r))
  -- other element types
  | reinterpretObject {τ σ p q} (hp : .object τ p ∈ s.handles) (hq : p.reinterpret σ = .ok q) :
    Converts s (.object σ q)
  | reinterpretArray {τ σ p q} (hp : .array τ (.plain p) ∈ s.handles)
      (hq : p.reinterpret σ = .ok q) : Converts s (.array σ (.plain q))
  | reinterpretStackArray {τ σ p q} (hp : .array τ (.bounded p) ∈ s.handles)
      (hq : p.reinterpret σ = .ok q) : Converts s (.array σ (.bounded q))

/-- There is no live block without values at an address.  A downcast goes by the type that is
recorded and would take the start of such a block for a value of it. -/
def Peopled (s : Program) (a : Address) : Prop :=
  ∀ b, s.world.heap.containing? a = some b → b.count ≠ 0

/-- The handles that a program may make without an operation on its storage, which is `Q`, and
without binding anything to the current frame that may be on the stack. -/
inductive Derives (Q : Storage) (s : Program) : Handle → Prop where
  | convert {h} (hh : Converts s h) : Derives Q s h
  -- nothing
  | nullObject (τ) : Derives Q s (.object τ .null)
  | nullMatrix (τ) : Derives Q s (.matrix τ .null)
  | nullRecord (σ τ) : Derives Q s (.tailed σ τ .null)
  | nullVoid : Derives Q s (.void .null)
  -- bare addresses, off the stack
  | rawObject {τ a} (ha : a = 0 ∨ Q τ a 1) (hoff : Frames.extent.contains a = false) :
    Derives Q s (.object τ ⟨a⟩)
  | rawArray {τ p} (hp : p.In Q τ) (hoff : Frames.extent.contains p.base = false) :
    Derives Q s (.array τ (.plain ⟨p⟩))
  -- a value somewhere
  | pointTo {τ p a r} (hp : .boundedObject τ p ∈ s.handles) (ha : Q τ a 1)
      (hr : p.pointTo a = .ok r) : Derives Q s (.boundedObject τ r)
  -- other element types
  | erase {τ p} (hp : .object τ p ∈ s.handles) : Derives Q s (.void p.erase)
  | downcastObject {τ p} (hp : .object τ p ∈ s.handles) (σ) (hvalue : s.Peopled p.address) :
    Derives Q s (.object σ (p.downcast s.world.heap σ))
  | downcastVoid {p} (hp : .void p ∈ s.handles) (σ) (hvalue : s.Peopled p.address) :
    Derives Q s (.object σ (p.downcast s.world.heap σ))
  | downcastArray {τ p} (hp : .array τ (.plain p) ∈ s.handles) (σ) :
    Derives Q s (.array σ (.plain (p.downcast s.world.heap σ)))
  -- aggregates
  | cells {τ m} (hm : .matrix τ m ∈ s.handles) : Derives Q s (.array τ (.plain m.toArrayPtr))
  | fixedArray {τ x p} (hx : .fixed τ x ∈ s.handles) (hp : x.toArrayPtr = .ok p) :
    Derives Q s (.array τ (.plain p))
  | fixedArrayAt {τ x i p} (hx : .fixed τ x ∈ s.handles) (hp : x.offsetArrayPtr i = .ok p) :
    Derives Q s (.array τ (.plain p))
  | globalArray {τ x} (hx : .global τ x ∈ s.handles) : Derives Q s (.array τ (.plain x.toArrayPtr))
  | globalArrayAt {τ x i p} (hx : .global τ x ∈ s.handles) (hp : x.offset i = .ok p) :
    Derives Q s (.array τ (.plain p))

/-- The clones that a program may make, with the address of the data that each refers to.  A clone
is bound to the current frame. -/
inductive Clones (s : Program) : Address → Handle → Prop where
  | object {τ p} (hp : .boundedObject τ p ∈ s.handles) :
    Clones s p.address (.boundedObject τ (p.clone s.world.frames))
  | array {τ p} (hp : .array τ (.bounded p) ∈ s.handles) :
    Clones s p.span.base (.array τ (.bounded (p.clone s.world.frames)))

/-- The stack-scoped handles that a program with storage `Q` may bind to the current frame, with the
address of the data that each refers to. -/
inductive Binds (Q : Storage) (s : Program) : Address → Handle → Prop where
  | object {τ a} (ha : a = 0 ∨ Q τ a 1) :
    Binds Q s a (.boundedObject τ (.ofAddress s.world.frames a))
  | array {τ base extent} (hp : Span.In Q τ ⟨base, 0, extent⟩) (index) :
    Binds Q s base (.array τ (.bounded (.ofParts s.world.frames base extent index)))
  | clone {a h} (hh : Clones s a h) : Binds Q s a h
  | fixedArray {τ x} (hx : .fixed τ x ∈ s.handles) :
    Binds Q s x.base (.array τ (.bounded (x.toStackArrayPtr s.world.frames)))
  | fixedArrayAt {τ x i p} (hx : .fixed τ x ∈ s.handles) (hp : x.offset s.world.frames i = .ok p) :
    Binds Q s x.base (.array τ (.bounded p))

/-! ## 3. Steps -/

/-- How a program treats data of the stack. -/
inductive Discipline where
  /-- In any way. -/
  | free
  /-- It vouches for no data as global, and where it makes a pointer to data of the stack, a clone
  included, the current frame is the one that owns the data or was called from there. -/
  | scoped
deriving DecidableEq

/-- One step of a program. -/
inductive Step (δ : Discipline) : Program → Program → Prop where
  | act {s a} (ha : Acts s a) : Step δ s (s.run a)
  | derive {s h} (hh : Derives (s.world.Holds s.past) s h) : Step δ s (s.keep h)
  | bind {s a h} (hh : Binds (s.world.Holds s.past) s a h)
      (hframe : δ = .scoped → Frames.extent.contains a = true → s.world.frames.pointer ≤ a) :
    Step δ s (s.keep h)
  | vouch {s τ p} (hδ : δ = .free) (hp : .array τ (.bounded p) ∈ s.handles) :
    Step δ s (s.keep (.array τ (.bounded p.setAsGlobal)))
  | forget {s hs} (hhs : hs ⊆ s.handles) : Step δ s { s with handles := hs }
  | enter {s} : Step δ s (s.move enterFrame)
  | leave {s} : Step δ s (s.move leaveFrame)

/-- One program state comes of another in some number of steps. -/
abbrev Leads (δ : Discipline) : Program → Program → Prop := Relation.ReflTransGen (Step δ)

/-- The states that runs lead to. -/
def Reachable (δ : Discipline) (s : Program) : Prop := Leads δ initial s

/-! ## 4. A run -/

/-- The first array of a run, of three words. -/
def threeWords : Operation (List Handle) :=
  giving (.array .uint32 ∘ .plain) (ArrayPtr.new .uint32 3 false)

/-- A pointer to it at an index. -/
def wordsAt (i : Int64) : ArrayPtr .uint32 := ⟨⟨0x400000000000, i, 3⟩⟩

theorem reachable_threeWords (δ : Discipline) : Reachable δ (initial.run threeWords) :=
  .tail .refl (.act (.make (.block (.array .uint32 3 false))))

/-- Its release through such a pointer. -/
def freeWords (i : Int64) : Operation Handle := (.array .uint32 ∘ .plain) <$> (wordsAt i).free

theorem frees_words (i : Int64) : Frees (wordsAt 0).span.base (freeWords i) := .array (wordsAt i)

/-- Three words are released. -/
def released : Program := (initial.run threeWords).run (giving id (freeWords 0))

/-- An array of the words one, two and three, with a pointer to its second one. -/
def countedWords : Program :=
  (initial.run (giving (.array .uint32 ∘ .plain) (ArrayPtr.ofList .uint32 [1, 2, 3]))).keep
    (.array .uint32 (.plain (wordsAt 1)))

theorem reachable_countedWords (δ : Discipline) : Reachable δ countedWords :=
  .tail (.tail .refl (.act (.make (.block (.list .uint32 [1, 2, 3] (by decide))))))
    (.derive (.convert (.offset (p := .plain (wordsAt 0)) List.mem_cons_self 1)))

end Program

end CheckedMemory
