import CheckedMemory.Stream.Directory
import CheckedMemory.Stream.Mode

/-!
# Streams and their blocks

A stream does not ask its file for every byte.  It reads a block at once and hands out its bytes
from there, so what another stream writes meanwhile is not seen before the next block; and it
holds written bytes back until a block of them has gathered or the stream is told to write them
out.

The block is kept as two lists around the place where the next byte is read, the bytes that were
passed, latest first, and the bytes still ahead.  The file has a position of its own, at the end of
the block; the stream may also remember a position, and then goes by what it remembers.
-/

namespace CheckedMemory

/-! ## 1. Opening -/

/-- A file seen as memory: how many of its bytes, where the next one is read, and where reading
stops to look how long the file is by now. -/
structure Mapping where
  length : Nat
  cursor : Nat
  stop : Nat
deriving DecidableEq, Repr

/-- How a stream gets at the bytes of its file. -/
inductive Source where
  | blocks
  /-- As memory or in blocks, which the first read decides. -/
  | undecided
  | mapped (m : Mapping)
deriving DecidableEq, Repr

/-- A stream over a file or the directory. -/
structure Stream where
  target : Target
  mode : OpenMode
  source : Source
  /-- Where the file itself is read or written next. -/
  position : Nat
  /-- What the stream remembers of that position. -/
  known : Option Nat
  /-- Bytes of the block that were passed, latest first. -/
  behind : List UInt8
  /-- Bytes of the block that are still to be read. -/
  ahead : List UInt8
  /-- How many bytes at the front of the block were taken as characters. -/
  decoded : Nat
  /-- The last transfer was a write, so nothing of the block can be read. -/
  writing : Bool
  /-- Bytes written and not yet in the file. -/
  pending : List UInt8
  /-- Bytes may be added to the pending ones up to the end of a block. -/
  gathers : Bool
  /-- A read has met the end of the file. -/
  atEnd : Bool
  /-- A transfer has failed. -/
  failed : Bool
deriving DecidableEq, Repr

namespace Stream

/-- How many bytes a stream reads or gathers at once. -/
def blockSize : Nat := 4096

/-- A stream as it is opened.  One that only appends starts at the end, every other at the
start. -/
def fresh (d : Directory) (target : Target) (mode : OpenMode) : Stream :=
  { target, mode
    source := if mode.maps && !mode.writable && mode.encoding = .unnamed then .undecided else .blocks
    position := if mode.appends && !mode.readable then d.size target else 0
    known := none
    behind := []
    ahead := []
    decoded := 0
    writing := false
    pending := []
    gathers := false
    atEnd := false
    failed := false }

/-- Opens what a path says.  The encoding is looked at last: for an unknown one there is no stream,
but a file may have been made or its contents discarded. -/
def openPath (d : Directory) (path : List UInt8) (mode : OpenMode) : Option Stream × Directory :=
  let finish := fun (target : Target) (d : Directory) =>
    (if mode.encoding = .unknown then none else some (fresh d target mode), d)
  match Target.ofPath? path with
  | none => (none, d)
  | some .directory => if mode.writable then (none, d) else finish .directory d
  | some (.file name) =>
    match d.contents? name with
    | none => if mode.creates then finish (.file name) (d.put name .empty) else (none, d)
    | some _ =>
      if mode.creates && mode.exclusive then (none, d)
      else finish (.file name) (if mode.truncates then d.put name .empty else d)

/-- The stream is one of characters. -/
def isWide (s : Stream) : Bool := s.mode.encoding ≠ .unnamed

/-- The bytes of the block. -/
def block (s : Stream) : List UInt8 := s.behind.reverse ++ s.ahead

/-! ## 2. Writing to the file -/

/-- Writes bytes to the file, and says how many it took: at its end if the stream appends, else
where the next byte would have been read.  The block is used up, and so is what the file did not
take. -/
def writeOut (s : Stream) (d : Directory) (bytes : Runs UInt8) : Nat × Stream × Directory :=
  let start := if s.mode.appends then d.size s.target else s.position - s.ahead.length
  let known :=
    if s.mode.appends then none else if s.ahead.isEmpty then s.known else some start
  let (count, d) := d.write s.target start bytes
  (count,
    { s with
      position := if s.mode.appends && count = 0 then s.position else start + count
      known := known.map (· + count)
      behind := []
      ahead := []
      pending := []
      gathers := true
      failed := s.failed || count < bytes.length },
    d)

/-- Writes out what is pending, and says whether the file took all of it. -/
def writePending (s : Stream) (d : Directory) : Bool × Stream × Directory :=
  if s.pending.isEmpty then (true, s, d)
  else
    let (count, t, d) := s.writeOut d (.ofList s.pending)
    (count = s.pending.length, t, d)

/-- Turns to writing.  Bytes gather where reading stopped in the block, or in a new block if it was
read to its end. -/
def startWriting (s : Stream) : Stream :=
  if s.writing then s
  else
    { s with
      writing := true
      gathers := true
      pending := []
      behind := if s.behind.length < blockSize then s.behind else [] }

/-- Turns to reading, and says whether that could be done: not if the file did not take what was
pending. -/
def stopWriting (s : Stream) (d : Directory) : Bool × Stream × Directory :=
  if s.writing then
    let (done, s, d) := s.writePending d
    (done, if done then { s with writing := false } else s, d)
  else (true, s, d)

/-! ## 3. Reading from the file -/

/-- Reads the next block.  Where there is none, the end is met or the read has failed; an end that
was met before stays the end. -/
def readBlock (s : Stream) (d : Directory) : Stream :=
  if s.atEnd then s
  else if !s.mode.readable then { s with failed := true }
  else
    match d.read? s.target s.position blockSize with
    | none => { s with behind := [], ahead := [], known := none, failed := true }
    | some bytes =>
      if bytes.isEmpty then { s with behind := [], ahead := [], known := none, atEnd := true }
      else
        { s with
          behind := []
          ahead := bytes.toList
          position := s.position + bytes.length
          known := s.known.map (· + bytes.length) }

end Stream

end CheckedMemory
