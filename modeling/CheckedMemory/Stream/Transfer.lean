import CheckedMemory.Stream.Mapping

/-!
# Reading and writing bytes

Transfers of any number of bytes through a stream's block.  Small ones stay in the block as long as
they can; of large ones the whole blocks go between file and caller directly.

A transfer in a direction that the stream was not opened for sets the failure flag and moves
nothing.  So does a write that the file does not take; the bytes that were gathered for it are lost.
-/

namespace CheckedMemory

namespace Stream

/-! ## 1. Writing -/

/-- How many more bytes may be added to the pending ones. -/
def room (s : Stream) : Nat :=
  if s.writing && s.gathers then blockSize - s.behind.length - s.pending.length else 0

/-- Holds back fewer bytes than a block has, where none are pending, and says how many were taken.
What completes a block is written out. -/
def hold (s : Stream) (d : Directory) (bytes : List UInt8) : Nat × Stream × Directory :=
  if s.gathers && s.room < bytes.length then
    let front := bytes.take s.room
    let rest := bytes.drop s.room
    let (count, s, d) := s.writeOut d (.ofList front)
    if count < front.length then (front.length, s, d)
    else (bytes.length, { s with pending := rest }, d)
  else (bytes.length, { s with pending := bytes }, d)

/-- Writes bytes that the stream may write, and says how many were taken: fills the room that is
left, then writes out what is pending and all whole blocks, and holds the rest back.  It stops where
the file does not take what is written out. -/
def gather (s : Stream) (d : Directory) (bytes : Runs UInt8) : Nat × Stream × Directory :=
  let front := bytes.take s.room
  let rest := bytes.drop s.room
  let s := { s with pending := s.pending ++ front.toList }
  if rest.isEmpty then (front.length, s, d)
  else
    let (done, s, d) := s.startWriting.writePending d
    if !done then (front.length, s, d)
    else
      let whole := rest.length / blockSize * blockSize
      let (count, s, d) := if whole = 0 then (0, s, d) else s.writeOut d (rest.take whole)
      if count < whole then (front.length + count, s, d)
      else
        let (held, s, d) := s.hold d (rest.drop whole).toList
        (front.length + whole + held, s, d)

/-- Writes bytes, and says how many were taken.  A stream of characters takes none. -/
def write (s : Stream) (d : Directory) (bytes : Runs UInt8) : Nat × Stream × Directory :=
  if bytes.isEmpty || s.isWide then (0, s, d)
  else if !s.mode.writable then (0, { s with failed := true }, d)
  else s.gather d bytes

/-! ## 2. Reading -/

/-- Reads up to `n` bytes, and no more after one that is the last of its kind. -/
def readUntil (s : Stream) (isLast : UInt8 → Bool) (d : Directory) (n : Nat) :
    List UInt8 × Stream :=
  go n [] s
where
  go : Nat → List UInt8 → Stream → List UInt8 × Stream
    | 0, got, s => (got.reverse, s)
    | n + 1, got, s =>
      match s.nextByte d with
      | (none, s) => (got.reverse, s)
      | (some b, s) => if isLast b then ((b :: got).reverse, s) else go n (b :: got) s

/-- Reads one byte. -/
def readByte (s : Stream) (d : Directory) : Option UInt8 × Stream × Directory :=
  let (ready, s, d) := s.stopWriting d
  if !ready then (none, s, d)
  else
    let (b, s) := s.nextByte d
    (b, s, d)

/-- Reads a line of at most `n` bytes, its line feed included. -/
def readLine (s : Stream) (d : Directory) (n : Nat) : List UInt8 × Stream × Directory :=
  if n = 0 then ([], s, d)
  else
    let (ready, s, d) := s.stopWriting d
    if !ready then ([], s, d)
    else
      let (line, s) := s.readUntil (· == '\n'.toUInt8) d n
      (line, s, d)

/-- Drops the block and whatever is pending. -/
def dropBlock (s : Stream) : Stream :=
  { s with behind := [], ahead := [], pending := [], gathers := false }

/-- Reads up to `n` bytes once the block is used up: whole blocks directly, also past an end that
was met before, and what is left through a new block. -/
def readBlocks (s : Stream) (d : Directory) (n : Nat) : Runs UInt8 × Stream × Directory :=
  if n = 0 then (.empty, s, d)
  else if n < blockSize then
    let (ready, s, d) := s.stopWriting d
    if !ready then (.empty, s, d)
    else
      let (bytes, s) := s.readUntil (fun _ => false) d n
      (.ofList bytes, s, d)
  else
    let found :=
      if s.mode.readable then d.read? s.target s.position (n / blockSize * blockSize) else none
    let s := s.dropBlock
    match found with
    | none => (.empty, { s with failed := true }, d)
    | some bytes =>
      if _h : bytes.length = 0 then (.empty, { s with atEnd := true }, d)
      else
        let s :=
          { s with
            position := s.position + bytes.length
            known := s.known.map (· + bytes.length) }
        let (more, s, d) := s.readBlocks d (n - bytes.length)
        (bytes ++ more, s, d)
termination_by n

/-- Passes the next `n` bytes of the block. -/
def advance (s : Stream) (n : Nat) : Stream :=
  { s with behind := (s.ahead.take n).reverse ++ s.behind, ahead := s.ahead.drop n }

/-- Reads up to `n` bytes through the block. -/
def readThrough (s : Stream) (d : Directory) (n : Nat) : Runs UInt8 × Stream × Directory :=
  let now := if s.writing then [] else s.ahead.take n
  let (more, s, d) := (s.advance now.length).readBlocks d (n - now.length)
  (.ofList now ++ more, s, d)

/-- Reads up to `n` bytes. -/
def read (s : Stream) (d : Directory) (n : Nat) : Runs UInt8 × Stream × Directory :=
  if n = 0 then (.empty, s, d)
  else
    match s.readMapped? d n with
    | (some bytes, s) => (bytes, s, d)
    | (none, s) => s.readThrough d n

end Stream

end CheckedMemory
