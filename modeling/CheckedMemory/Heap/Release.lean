import CheckedMemory.Heap.Allocate

/-!
# Releasing and resizing blocks

Release goes through the heap table, so it needs the start of a live block and nothing else of
the handle: not its index, its extent or the type it views the block as.  The recorded values are
released in order, then every byte of the payload is overwritten with a poison byte.

Resizing moves a block's values into a new block.  The old block leaves the table first, and only
then is the new one asked for; a request that no layout satisfies therefore finds the old block
already gone.
-/

namespace CheckedMemory

/-- The byte that fills released payloads. -/
def poisonByte : UInt8 := 0xDD

/-- `n` poisoned cells. -/
def poison (n : Nat) : Runs Cell := .replicate n (.byte poisonByte)

namespace Operation

/-! ## 1. Release -/

/-- Takes the block whose payload starts at an address out of the table. -/
def takeBlock (p : Address) : Operation Block := do
  let w ← get
  match w.heap.take? p with
  | none => stop (.invalidFree p)
  | some (b, heap) =>
    set { w with heap }
    return b

/-- Releases the block whose payload starts at an address. -/
def release (p : Address) : Operation Unit := do
  let b ← takeBlock p
  let cells ← load b.payload b.bytes
  store b.payload (poison b.bytes)
  logDrops (b.stored.dropMarks b.count.toNat cells)

/-- Releases what a handle refers to, unless it is null. -/
def releaseUnlessNull (p : Address) : Operation Unit :=
  if p = 0 then pure () else release p

end Operation

open Operation

variable {τ h t : ElemType}

/-- Releases the object.  The handle is null afterwards. -/
def Ptr.free (p : Ptr τ) : Operation (Ptr τ) := do
  releaseUnlessNull p.address
  return .null

/-- Releases the array.  The handle is null afterwards. -/
def ArrayPtr.free (p : ArrayPtr τ) : Operation (ArrayPtr τ) := do
  releaseUnlessNull p.span.base
  return .null

/-- Releases the matrix.  The handle is null afterwards. -/
def Matrix.free (m : Matrix τ) : Operation (Matrix τ) := do
  releaseUnlessNull m.base
  return .null

/-- Releases the record.  The handle is null afterwards. -/
def TailedPtr.free (p : TailedPtr h t) : Operation (TailedPtr h t) := do
  releaseUnlessNull p.address
  return .null

/-! ## 2. Resize -/

namespace ArrayPtr

/-- Whether the array is a live block of its own element type. -/
def ownsBlock (w : World) (p : ArrayPtr τ) : Bool :=
  match w.heap.containing? p.span.base with
  | some b => b.payload == p.span.base && b.stored == .elements τ
  | none => false

/-- Moves the array into a new block of `count` elements.  Elements past the old count are
defaults; old elements past the new count are released.  A null array gives a new one. -/
def resize (p : ArrayPtr τ) (count : UInt64) (request : Request := requestMemory) :
    Operation (ArrayPtr τ) := do
  if p.span.isNull then
    ArrayPtr.new τ count false request
  else
    require (p.ownsBlock (← get)) (.invalidFree p.span.base)
    let b ← takeBlock p.span.base
    let r ← reserve τ count τ.align request
    let old ← load b.payload b.bytes
    let kept := min b.count count
    let keptBytes := kept.toNat * τ.layout.size
    store b.payload (poison b.bytes)
    logDrops (τ.dropMarksAll (b.count - kept).toNat (old.drop keptBytes))
    record r (.elements τ) count b.traced
      (old.take keptBytes ++ τ.replicate (count - kept) τ.default)
    return ofBase r.payload count

end ArrayPtr

end CheckedMemory
