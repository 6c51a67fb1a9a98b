import CheckedMemory.Stream.Block

/-!
# Files seen as memory

A stream that only reads may see its file as memory.  Whether it does is decided at the first read:
only a file that has bytes is seen so.  The bytes of such a stream are those that the file has when
they are asked for, and not those of a block read earlier.

How long the file is, is looked at whenever the bytes known so far do not suffice.  So the end is
not final: a file that has grown can be read on, and one that was emptied is read in blocks from
then on.
-/

namespace CheckedMemory

namespace Stream

/-! ## 1. Deciding -/

/-- Decides how the file is read, if that is still open. -/
def decideSource (s : Stream) (d : Directory) : Stream :=
  match s.source, s.target with
  | .undecided, .file _ =>
    let length := d.size s.target
    let cursor := s.known.getD 0
    if length = 0 || length < cursor then { s with source := .blocks }
    else
      { s with
        source := .mapped ⟨length, cursor, length⟩
        position := length
        known := some length }
  | .undecided, .directory => { s with source := .blocks }
  | _, _ => s

/-- Looks again how long the file is.  What is remembered of the position is then the place of the
next byte, or the end of the file if the next byte is before it. -/
def lookAgain (s : Stream) (d : Directory) : Stream :=
  match s.source with
  | .mapped m =>
    let length := d.size s.target
    if length = 0 then { s with source := .blocks, behind := [], ahead := [] }
    else
      let place := s.known.getD 0 - (m.stop - m.cursor)
      if place < length then
        { s with
          source := .mapped ⟨length, place, length⟩
          position := length
          known := some length }
      else { s with source := .mapped ⟨length, length, length⟩, known := some place }
  | _ => s

/-! ## 2. Bytes -/

/-- At most `n` bytes between the cursor and the place where reading stops, as the file has them.
Bytes that the file has lost read as zeros. -/
def mappedBytes (s : Stream) (d : Directory) (m : Mapping) (n : Nat) : Runs UInt8 :=
  let count := min n (m.stop - m.cursor)
  let bytes := (d.read? s.target m.cursor count).getD .empty
  bytes ++ .replicate (count - bytes.length) 0

/-- Shows the next bytes of a file seen as memory as the block ahead. -/
def showBlock (s : Stream) (d : Directory) (m : Mapping) : Stream :=
  { s with behind := [], ahead := (s.mappedBytes d m blockSize).toList }

/-- Shows the bytes of a file seen as memory anew at the next read. -/
def hideBlock (s : Stream) : Stream :=
  match s.source with
  | .mapped _ => { s with behind := [], ahead := [] }
  | _ => s

/-- Gets more bytes ahead, or meets the end.  A stream of characters gets none. -/
def refill (s : Stream) (d : Directory) : Stream :=
  if s.isWide then s
  else
    let s := s.decideSource d
    match s.source with
    | .mapped m =>
      if m.cursor < m.stop then s.showBlock d m
      else
        let s := s.lookAgain d
        match s.source with
        | .mapped m => if m.cursor < m.stop then s.showBlock d m else { s with atEnd := true }
        | _ => s.readBlock d
    | _ => s.readBlock d

/-- The cursor of a file seen as memory, so many bytes further on. -/
def moveCursor (source : Source) (d : Int) : Source :=
  match source with
  | .mapped m => .mapped { m with cursor := (m.cursor + d).toNat }
  | _ => source

/-- The next byte of a stream that is not writing, or nothing. -/
def nextByte (s : Stream) (d : Directory) : Option UInt8 × Stream :=
  let s := if s.ahead.isEmpty then s.refill d else s
  match s.ahead with
  | [] => (none, s)
  | b :: bs =>
    (some b, { s with behind := b :: s.behind, ahead := bs, source := moveCursor s.source 1 })

/-- Gives back the byte that was just read.  The end of the file is no longer met. -/
def unreadByte (s : Stream) : Stream :=
  match s.behind with
  | [] => s
  | b :: bs =>
    { s with
      behind := bs
      ahead := b :: s.ahead
      source := moveCursor s.source (-1)
      atEnd := false }

/-- A bound on how many bytes are left to be read. -/
def left (s : Stream) (d : Directory) : Nat :=
  let mapped := match s.source with
    | .mapped m => m.stop - m.cursor
    | _ => 0
  s.ahead.length + mapped + d.size s.target

/-- Fewer than `n` bytes are left to the place where reading stops in a file seen as memory. -/
def isShortOf (s : Stream) (n : Nat) : Bool :=
  match s.source with
  | .mapped m => m.stop - m.cursor < n
  | _ => false

/-- Reads up to `n` bytes of a file seen as memory; nothing if it is not seen so any more. -/
def readMapped? (s : Stream) (d : Directory) (n : Nat) : Option (Runs UInt8) × Stream :=
  let s := s.decideSource d
  let s := if s.isShortOf n then s.lookAgain d else s
  match s.source with
  | .mapped m =>
    let bytes := s.mappedBytes d m n
    (some bytes,
      { s with
        source := moveCursor s.source bytes.length
        atEnd := s.atEnd || s.isShortOf n })
  | _ => (none, s)

end Stream

end CheckedMemory
