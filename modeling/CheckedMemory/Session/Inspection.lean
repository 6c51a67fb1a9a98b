import CheckedMemory.Session.Report
import CheckedMemory.Thread

/-!
# Inspecting the run

The counters of the heap, the drop log, mark phases from named roots, threads, and what is known of
the stack.
-/

namespace CheckedMemory

namespace Step

/-! ## 1. Heap and drops -/

def stats : Step Datum := do
  let s := (← heap).stats
  return .record [("live_blocks", .natural s.liveBlocks), ("live_bytes", .natural s.liveBytes),
    ("total_allocations", .natural s.allocations), ("total_frees", .natural s.frees)]

/-- Whether an address is the start of a live block. -/
def isLive (name : String) (d : Int64) : Step Datum := do
  let a ← storage name d
  return .truth ((← heap).isLive a)

/-- The drop log, which is empty afterwards. -/
def takeDrops : Step Datum := do
  let marks := (← get).world.dropLog
  modify fun s => { s with world := { s.world with dropLog := .empty } }
  return .list (marks.toList.map fun n => .number n.toInt)

/-! ## 2. Marking -/

/-- Node pointers by name; nothing is a null pointer. -/
def nodes (names : List Datum) : Step (List Address) :=
  names.mapM fun name => return (← orMisuse ((← get).object? .node name)).address

/-- The address that a named handle reports as a root.  Fixed and global arrays are none. -/
def handleRoot (name : String) : Step Address := do
  match ← handle name with
  | .fixed .. | .global .. | .tokenizer _ => misuse
  | h => orMisuse h.storage?

/-- A mark phase from addresses. -/
def mark (dst : Option String) (roots : List Address) : Step Datum := do
  made dst (.marks ((← get).world.markFrom roots))

def isMarked (marked name : String) (d : Int64) : Step Datum := do
  let m ← marks marked
  let a ← storage name d
  return .truth (m.isMarked (← heap) a)

/-- A mark set against the heap as it is now. -/
def marksInfo (name : String) : Step Datum := do report (.marks (← marks name))

def sameMarks (name other : String) : Step Datum := do
  return .truth ((← marks name).sameAs (← marks other))

/-! ## 3. Threads -/

/-- Runs a routine on a thread over a named array, or over null. -/
def spawn (routine : Thread.Routine) (argument : Option Datum) : Step Datum := do
  let s ← get
  let p ← match argument with
    | some name => some <$> orMisuse (s.plainArray? .uint64 name)
    | none => pure none
  let out ← act (Thread.run routine p)
  return .record [("out", .word out),
    ("local_on_stack", .truth (Thread.ownsItsFrame s.world.frames))]

/-! ## 4. The stack and the system allocator -/

def residency (r : Residency) : Datum := .text (if r = .stack then "stack" else "heap")

/-- What holds at the edges of the stack, and where the data of each kind is. -/
def stackExtent : Step Datum := do
  let (answer, kept?) := StackExtent.initThread Frames.extent
  let e := StackExtent.current kept? Frames.extent
  let sp := (← frames).pointer
  let heap := UInt64.ofNat World.heapStart
  return .record [
    ("contains", .list ([e.low - 1, e.low, e.high - 1, e.high].map fun a => .truth (e.contains a))),
    ("local", residency (e.residency sp)), ("heap", residency (e.residency heap)),
    ("static", residency (e.residency heap)), ("null", residency (e.residency 0)),
    ("sp_inside", .truth (e.contains sp)), ("init_agrees", .truth (answer == e)),
    ("size_agrees", .truth (e.size == e.high - e.low))]

/-- What is said of a request that the system allocator refused. -/
def allocError : Step Datum :=
  return .list [.text AllocError.noMemory.message, .text AllocError.noMemory.name]

end Step

end CheckedMemory
