import CheckedMemory.Stream.Character
import CheckedMemory.Stream.Mapping

/-!
# Positions of a stream

Telling and setting where the next byte is read or written.  A position inside the block is set
without asking the file; for any other a stream that reads takes the block around it, so that
what it reads next is what was in the file when the position was set.

A stream of characters takes what is before the place in the block as characters.  Where these bytes
are none, it has failed and goes to the position without a block.

Offsets are words and their sums wrap.
-/

namespace CheckedMemory

namespace Stream

/-! ## 1. Writing out and telling -/

/-- Writes out what is pending, and leaves the file where the next byte would have been read.  Says
whether the file took all. -/
def flush (s : Stream) (d : Directory) : Bool × Stream × Directory :=
  match s.source with
  | .mapped m =>
    (true,
      { s with
        source := .mapped { m with cursor := 0, stop := 0 }
        position := if m.cursor = m.stop then s.position else m.cursor
        known := some m.cursor },
      d)
  | _ =>
    let (done, s, d) := s.writePending d
    if !done then (false, s, d)
    else if s.writing || s.isWide then (true, { s with known := none }, d)
    else
      (true, { s with position := s.position - s.ahead.length, ahead := [], known := none }, d)

/-- Sets the place in the block. -/
def turn (s : Stream) (n : Nat) : Stream :=
  { s with behind := (s.block.take n).reverse, ahead := s.block.drop n }

/-- The place in the block by which a stream of characters goes: after the last character, if
characters may differ in width. -/
def turnToCharacters (s : Stream) : Stream :=
  match s.mode.encoding with
  | .named .utf8 => s.turn s.decoded
  | _ => s

/-- The position of the next byte, pending bytes counted.  Pending bytes of a stream that appends
are counted from the end of the file. -/
def tell (s : Stream) (d : Directory) : Nat × Stream :=
  let place := s.known.getD s.position
  match s.source with
  | .undecided => (s.position, { s with known := some s.position })
  | .mapped m => (place - (m.stop - m.cursor), s)
  | .blocks =>
    if s.pending.isEmpty then
      (place - (if s.writing then 0 else s.turnToCharacters.ahead.length), s)
    else if s.mode.appends then
      let size := d.size s.target
      (size + s.pending.length, { s with position := size, known := some size })
    else (place + s.pending.length - s.ahead.length, s)

/-! ## 2. Setting -/

/-- From where a position is counted. -/
inductive Origin where
  | start
  | current
  | finish
deriving DecidableEq, Repr

/-- Whether the file can have a position. -/
def admits (s : Stream) (target : Int) : Bool :=
  0 ≤ target && target ≤ (s.target.lastPosition : Int)

/-- Sets the position of the file itself and drops the block, unless the file cannot have the
position. -/
def jump (s : Stream) (target : Int) : Bool × Stream :=
  if s.admits target then
    (true,
      { s with
        position := target.toNat
        known := some target.toNat
        behind := []
        ahead := []
        decoded := 0
        atEnd := false })
  else (false, s)

/-- Takes the bytes before the place in the block as characters.  If they are none, the position is
set without a block. -/
def takeCharacters (s : Stream) (target : Nat) : Bool × Stream :=
  match s.mode.encoding with
  | .named c =>
    if c.accepts s.behind.reverse then (true, { s with decoded := s.behind.length })
    else { s with failed := true }.jump target
  | _ => (true, s)

/-- Sets a position inside the block, which starts at `first`.  Characters of one width need no
look at the bytes. -/
def moveInBlock (s : Stream) (first target : Nat) : Bool × Stream :=
  let s := { s.turn (target - first) with position := first + s.block.length, atEnd := false }
  match s.mode.encoding with
  | .named .utf8 => s.takeCharacters target
  | _ => (true, { s with decoded := if s.isWide then s.behind.length else 0 })

/-- Takes the block that a position lies in, as far as the position only if `narrow`.  Where the
file does not reach the position, there is no block. -/
def takeBlock (s : Stream) (d : Directory) (narrow : Bool) (target : Nat) : Bool × Stream :=
  let inside := target % blockSize
  let first := target - inside
  let count := if inside = 0 then 0 else if narrow then inside else blockSize
  let block := ((d.read? s.target first count).getD .empty).toList
  if !s.admits first then (false, s)
  else if block.length < inside then { s with position := first }.jump target
  else
    { s with
      position := first + block.length
      known := some (first + block.length)
      behind := (block.take inside).reverse
      ahead := block.drop inside
      atEnd := false }.takeCharacters target

/-- Sets a position that is counted from the start. -/
def moveTo (s : Stream) (d : Directory) (narrow : Bool) (target : Int64) : Bool × Stream :=
  let n := target.toNatClampNeg
  let first := s.known.getD 0 - s.block.length
  if target < 0 then (false, s)
  else if s.known.any (n < ·) && first ≤ n then s.moveInBlock first n
  else if s.mode.readable then s.takeBlock d narrow n
  else s.jump n

/-- Sets the position in blocks.  Pending bytes are written out in any case; if the file does not
take them, the position stays. -/
def seekBlocks (s : Stream) (d : Directory) (offset : Int64) (origin : Origin) :
    Bool × Stream × Directory :=
  let narrow :=
    if s.isWide then s.decoded = 0
    else s.pending.isEmpty && (s.writing || s.behind.isEmpty && s.ahead.isEmpty)
  let (ready, s, d) := s.stopWriting d
  if !ready then (false, s, d)
  else
    let (done, s) :=
      match origin with
      | .start => s.moveTo d narrow offset
      | .current =>
        let s := s.turnToCharacters
        let step := offset - Int64.ofNat s.ahead.length
        match s.known with
        | some place => s.moveTo d narrow (step + Int64.ofNat place)
        | none => s.jump (s.position + step.toInt)
      | .finish => s.moveTo d narrow (offset + Int64.ofNat (d.size s.target))
    (done, s, d)

/-- Sets the position of a file before it is known how it is read. -/
def seekUndecided (s : Stream) (d : Directory) (offset : Int64) (origin : Origin) :
    Bool × Stream :=
  let base : Nat :=
    match origin with
    | .start => 0
    | .current => s.position
    | .finish => d.size s.target
  let target := base + offset.toInt
  if s.admits target then
    (true, { s with position := target.toNat, known := some target.toNat })
  else (false, s)

/-- Sets the position in a file seen as memory, whose end is where it was last seen. -/
def seekMapped (s : Stream) (m : Mapping) (offset : Int64) (origin : Origin) : Bool × Stream :=
  let base :=
    match origin with
    | .start => 0
    | .current => m.cursor
    | .finish => m.length
  let target := base + offset.toInt
  let place := min target.toNat m.length
  if s.admits target then
    (true,
      { s with
        source := .mapped { m with cursor := place, stop := place }
        position := target.toNat
        known := some target.toNat
        atEnd := false })
  else (false, s)

/-- Sets the position, and says whether it could be set. -/
def seek (s : Stream) (d : Directory) (offset : Int64) (origin : Origin) :
    Bool × Stream × Directory :=
  let still := fun ((done, s) : Bool × Stream) => (done, s, d)
  match s.source with
  | .blocks => s.seekBlocks d offset origin
  | .undecided => still (s.seekUndecided d offset origin)
  | .mapped m => still (s.seekMapped m offset origin)

end Stream

end CheckedMemory
