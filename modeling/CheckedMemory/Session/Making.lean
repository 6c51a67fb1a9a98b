import CheckedMemory.Heap.Release
import CheckedMemory.Session.Report

/-!
# Making storage in a session

Each step makes storage, gives it the next number and keeps the handle under a name, if there is
one.  Null pointers and raw ones over null need no storage and get no number.
-/

namespace CheckedMemory

namespace Step

variable (dst : Option String) (τ : ElemType)

/-! ## 1. The heap -/

def newObject (x : Datum) (traced : Bool) : Step Datum := do
  madeStorage dst (.object τ (← act (Ptr.new τ (← value τ x) traced)))

def newZeroedObject : Step Datum := do
  demand τ.isPlain
  madeStorage dst (.object τ (← act (Ptr.zeroed τ)))

/-- Keeps a new plain array. -/
def madeArray {σ : ElemType} (make : Operation (ArrayPtr σ)) : Step Datum := do
  madeStorage dst (.array σ (.plain (← act make)))

def newArray (count : UInt64) (traced : Bool) : Step Datum :=
  madeArray dst (ArrayPtr.new τ count traced)

def newArrayOf (xs : Datum) : Step Datum := do
  madeArray dst (ArrayPtr.ofList τ (← values τ xs))

def newFilled (count : UInt64) (x : Datum) : Step Datum := do
  madeArray dst (ArrayPtr.filled τ count (← value τ x))

def newZeroed (count : UInt64) : Step Datum := do
  demand τ.isPlain
  madeArray dst (ArrayPtr.zeroed τ count)

/-- An aligned array, and whether its base is a multiple of the alignment. -/
def newAligned (count align : UInt64) : Step Datum := do
  let p ← act (ArrayPtr.aligned τ count align)
  let array ← madeStorage dst (.array τ (.plain p))
  return .record [("aligned", .truth (p.span.base % align == 0)), ("array", array)]

def newMatrix (x y : UInt64) : Step Datum := do
  madeStorage dst (.matrix τ (← act (Matrix.new τ x y)))

def newTailed (head tail : ElemType) (count : UInt64) (x : Datum) : Step Datum := do
  madeStorage dst (.tailed head tail (← act (TailedPtr.new head tail count (← value head x))))

def resize (name : String) (count : UInt64) : Step Datum := do
  let ⟨_, p⟩ ← plainArray name
  madeArray dst (p.resize count)

/-! ## 2. Frames and static storage -/

def newLocal (xs : Datum) : Step Datum := do
  madeStorage dst (.array τ (.bounded (← act (StackArrayPtr.newLocal τ (← values τ xs)))))

def newStatic (xs : Datum) : Step Datum := do
  madeArray dst (ArrayPtr.newStatic τ (← values τ xs))

def newStaticObject (x : Datum) : Step Datum := do
  madeStorage dst (.object τ (← act (Ptr.newStatic τ (← value τ x))))

/-- A fixed array of the given length, on the heap or in the frame.  No values at all stand for
defaults. -/
def newFixed (length : Nat) (xs : Datum) (onHeap : Bool) : Step Datum := do
  let given ← values τ xs
  let xs := if given.isEmpty then List.replicate length τ.default else given
  demand (xs.length == length)
  let make := if onHeap then FixedArray.newHeap τ xs else FixedArray.newLocal τ xs
  madeStorage dst (.fixed τ (← act make))

def newGlobal (length : Nat) (xs : Datum) : Step Datum := do
  let xs ← values τ xs
  demand (xs.length == length)
  madeStorage dst (.global τ (← act (GlobalArray.new τ xs)))

/-! ## 3. Strings -/

def newLiteral (text : String) : Step Datum := madeArray dst (CString.literal text)

/-- Keeps strings under a common name and a running number, and shows them. -/
def nameStrings (each : Option String) : Nat → List (ArrayPtr .uint8) → Step (List Datum)
  | _, [] => return []
  | i, s :: rest => do
    let one ← madeStorage (each.map (· ++ toString i)) (.array .uint8 (.plain s))
    return one :: (← nameStrings each (i + 1) rest)

/-- An argument vector.  The outer array is numbered first, then its strings. -/
def newVector (texts : List String) (each : Option String) : Step Datum := do
  let outer ← act (CString.vector texts)
  let strings ← act (ArrayLike.toList outer)
  modify (·.number outer.span.base)
  return .record [("size", .natural strings.length),
    ("argv", .list (← nameStrings each 0 strings))]

/-- Makes and releases an argument vector, and gives its length. -/
def countArguments (texts : List String) : Step Datum := do
  let outer ← act (CString.vector texts)
  let strings : List (ArrayPtr .uint8) ← act (ArrayLike.toList outer)
  strings.forM fun s => discard (act s.free)
  discard (act outer.free)
  return .natural strings.length

/-! ## 4. Null -/

/-- The kinds of handles that have a null. -/
inductive NullKind where
  | object
  | boundedObject
  | plainArray
  | boundedArray
  | matrix
  | void
  | stream

def newNull (kind : NullKind) : Step Datum := do
  let f ← frames
  made dst <| match kind with
    | .object => .object τ .null
    | .boundedObject => .boundedObject τ (.null f)
    | .plainArray => .array τ (.plain .null)
    | .boundedArray => .array τ (.bounded (.null f))
    | .matrix => .matrix τ .null
    | .void => .void .null
    | .stream => .stream .null

def newNullTailed (head tail : ElemType) : Step Datum := made dst (.tailed head tail .null)

/-- A span of any index and extent over null. -/
def newRawNull (bounded : Bool) (extent : UInt64) (index : Int64) : Step Datum := do
  if bounded then made dst (.array τ (.bounded (.ofParts (← frames) 0 extent index)))
  else made dst (.array τ (.plain ⟨⟨0, index, extent⟩⟩))

end Step

end CheckedMemory
