import CheckedMemory.Session.Handle

/-!
# Sessions

A session is a run with named handles, in which addresses are never shown: storage is numbered in
the order in which it was made, and an address is told as a place, a number and the distance from
that storage's start.

An address belongs to the storage that it lies in or that ends at it.  There is a gap behind all
storage, so no address belongs to two.
-/

namespace CheckedMemory

/-! ## 1. Places -/

/-- An address as a distance from the start of numbered storage, or from null. -/
structure Place where
  block : Option Nat
  byte : Int64
deriving DecidableEq, Repr

namespace Memory

/-- The area that an address belongs to: it lies inside or one past the end. -/
def owner? (m : Memory) (a : Address) : Option Area :=
  m.areas.find? fun r => r.base ≤ a && a.toNat ≤ r.base.toNat + r.cells.length

end Memory

/-! ## 2. Sessions -/

/-- A run with named handles and numbered storage. -/
structure Session where
  world : World
  /-- Where numbered storage starts, in the order of the numbers. -/
  storage : List Address
  handles : List (String × Handle)

namespace Session

def initial : Session := ⟨.initial, [], []⟩

/-- The handle under a name. -/
def handle? (s : Session) (name : String) : Option Handle := s.handles.lookup name

/-- Keeps a handle under a name; an earlier one of that name is forgotten. -/
def keep (s : Session) (name : String) (h : Handle) : Session :=
  { s with handles := (name, h) :: s.handles.filter (·.1 != name) }

/-- Gives storage the next number. -/
def number (s : Session) (a : Address) : Session := { s with storage := s.storage ++ [a] }

/-- The number of the storage that starts at an address. -/
def numberOf? (s : Session) (a : Address) : Option Nat := s.storage.findIdx? (· == a)

/-- Address `a` as a distance from the start of the storage that `owner` belongs to. -/
def placeFrom (s : Session) (owner a : Address) : Place :=
  match s.world.memory.owner? owner with
  | some r => ⟨s.numberOf? r.base, (a - r.base).toInt64⟩
  | none => ⟨none, a.toInt64⟩

/-- The place of an address. -/
def place (s : Session) (a : Address) : Place := s.placeFrom a a

/-- The place of an array pointer's current element, in the storage of its base. -/
def placeOfSpan (s : Session) (size : UInt64) (p : Span) : Place := s.placeFrom p.base (p.address size)

/-! ## 3. Frames -/

/-- The storage belongs to the frame at depth `d`. -/
def isInFrame (d : Nat) (a : Address) : Bool := Frames.extent.contains a && Frames.depthOf a == d

/-- Closes the current frame and forgets the handles to its storage. -/
def leave (s : Session) : Session :=
  let gone := fun (h : Handle) => h.storage?.any (isInFrame s.world.frames.depth)
  { s with
    world := { s.world with frames := s.world.frames.leave }
    handles := s.handles.filter fun (_, h) => !gone h }

/-! ## 4. Marked storage -/

/-- The numbers of the storage whose start satisfies a predicate, in order. -/
def numbersWhere (s : Session) (p : Address → Bool) : List Nat :=
  (List.range s.storage.length).filter fun i => s.storage[i]?.any p

/-- The numbers of the blocks that a mark set holds. -/
def marked (s : Session) (m : MarkSet) : List Nat := s.numbersWhere (m.isMarked s.world.heap)

/-- The numbers of the live blocks that a mark set does not hold. -/
def unreachable (s : Session) (m : MarkSet) : List Nat :=
  s.numbersWhere (m.unreachable s.world.heap).contains

/-- Whether two array pointers share their storage: they lie in the same, or both are null. -/
def sameStorage (s : Session) (p q : Span) : Bool :=
  (s.world.memory.owner? p.base).map Area.base == (s.world.memory.owner? q.base).map Area.base

end Session

end CheckedMemory
