import CheckedMemory.CString.Basic
import CheckedMemory.Stream.Position
import CheckedMemory.Stream.Word

/-!
# Stream pointers

A pointer to an open stream is null or the stream's number, and every operation checks it; a
closed stream counts as null.  Operations that take a buffer check the buffer first, its whole
span at once, and the stream after that; then they transfer bytes, and never more than the span
holds.
-/

namespace CheckedMemory

/-- A pointer to an open stream. -/
structure StreamPtr where
  number? : Option Nat
deriving DecidableEq, Repr

namespace StreamPtr

open Operation

variable {P : ElemType → Type} [ArrayLike P] {τ : ElemType}

/-! ## 1. Opening and closing -/

def null : StreamPtr := ⟨none⟩

def isNull (f : StreamPtr) : Bool := f.number?.isNone

/-- Opens a file under a name in a mode, both strings.  Null where that fails. -/
def openFile {Q : ElemType → Type} [ArrayLike Q] (name : P .uint8) (mode : Q .uint8) :
    Operation StreamPtr := do
  let name ← CString.contents name
  let mode ← CString.contents mode
  let w ← get
  match OpenMode.parse? mode.toList with
  | none => return null
  | some mode =>
    let (s?, directory) := Stream.openPath w.directory name.toList mode
    set { w with directory, streams := w.streams ++ (s?.map some).toList }
    return ⟨s?.map fun _ => w.streams.length⟩

/-- Runs a transfer on the stream.  Bytes of a file seen as memory are looked at anew. -/
def use {α : Type} (f : StreamPtr) (transfer : Stream → Directory → α × Stream × Directory) :
    Operation α := do
  let w ← get
  match f.number?.bind fun n => (w.streams[n]?.join).map (n, ·) with
  | none => stop .nullDereference
  | some (n, s) =>
    let (x, s, directory) := transfer s.hideBlock w.directory
    set { w with directory, streams := w.streams.set n (some s) }
    return x

/-- Writes out what is pending, and says whether the file took it. -/
def flush (f : StreamPtr) : Operation Bool := f.use Stream.flush

/-- Closes the stream, and says whether the file took what was pending.  The pointer is null
afterwards. -/
def close (f : StreamPtr) : Operation (Bool × StreamPtr) := do
  let done ← f.use Stream.writePending
  modify fun w => { w with streams := f.number?.elim w.streams (w.streams.set · none) }
  return (done, null)

/-! ## 2. Bytes -/

/-- The next byte, or nothing at the end of the file. -/
def getByte (f : StreamPtr) : Operation (Option UInt8) := f.use Stream.readByte

/-- Reads elements into the array, as many as it can, and says how many are whole. -/
def readInto (f : StreamPtr) (buffer : P τ) (count : UInt64) : Operation Nat := do
  let a ← check (ArrayLike.requireSpan buffer count)
  let bytes ← f.use fun s d => s.read d (count.toNat * τ.layout.size)
  storeBytes a bytes
  return bytes.length / τ.layout.size

/-- Writes elements of the array, and says how many were taken. -/
def writeFrom (f : StreamPtr) (buffer : P τ) (count : UInt64) : Operation Nat := do
  let a ← check (ArrayLike.requireSpan buffer count)
  let bytes ← loadBytes a (count.toNat * τ.layout.size)
  let taken ← f.use fun s d => s.write d bytes
  return taken / τ.layout.size

/-! ## 3. Lines and strings -/

/-- No line is taken that needs more room, its terminator included. -/
def longestLine : Nat := 2 ^ 31 - 1

/-- Reads a line into `room` bytes, terminator included, and says whether there was one.  Without
a line the array is left alone. -/
def readLine (f : StreamPtr) (buffer : P .uint8) (room : UInt64) : Operation Bool := do
  let a ← check (ArrayLike.requireSpan buffer room)
  if room = 0 then f.use fun s d => (false, s, d)
  else
    let limit := min room.toNat longestLine - 1
    let line ← f.use fun s d => s.readLine d limit
    if line.isEmpty && limit != 0 then return false
    else
      storeBytes a (.ofList line ++ CString.terminator)
      return true

/-- Writes a string without its terminator, and says whether all of it was taken.  A stream of
characters takes not even an empty string. -/
def writeString (f : StreamPtr) (text : P .uint8) : Operation Bool := do
  let bytes ← CString.contents text
  f.use fun s d =>
    let (taken, t, d) := s.write d bytes
    (!s.isWide && taken == bytes.length, t, d)

/-! ## 4. Position and state -/

/-- Sets the position, and says whether it could be set. -/
def seek (f : StreamPtr) (offset : Int64) (origin : Stream.Origin) : Operation Bool :=
  f.use fun s d => s.seek d offset origin

def tell (f : StreamPtr) : Operation Nat :=
  f.use fun s d =>
    let (n, s) := s.tell d
    (n, s, d)

/-- Whether a read has met the end of the file. -/
def atEnd (f : StreamPtr) : Operation Bool := f.use fun s d => (s.atEnd, s, d)

/-- Whether a transfer has failed. -/
def failed (f : StreamPtr) : Operation Bool := f.use fun s d => (s.failed, s, d)

/-! ## 5. Words and formatted text -/

/-- Reads a word into the rest of the array, terminator included, and gives its length.  Where only
blanks are left, the terminator is all that is written. -/
def readWordInto (f : StreamPtr) (buffer : P .uint8) : Operation (Option Nat) := do
  let room ← check (ArrayLike.remaining buffer)
  let a ← check (ArrayLike.requireSpan buffer (max room 1))
  let word? ← f.use fun s d => s.readWord d (room.toNat - 1)
  storeBytes a (.ofList (word?.getD []) ++ CString.terminator)
  return word?.map List.length

/-- Reads a word and gives its value in a form. -/
def readWord (f : StreamPtr) (form : WordForm) : Operation (Option WordValue) := do
  let word? ← f.use fun s d => s.readWord d Stream.noLimit
  return word?.bind form.value?

/-- Writes a text, and gives its number of bytes if all were taken. -/
def print (f : StreamPtr) (text : String) : Operation (Option Nat) := do
  let bytes := text.toUTF8.toList
  let taken ← f.use fun s d => s.write d (.ofList bytes)
  return if taken < bytes.length then none else some taken

end StreamPtr

namespace CString

open Operation

/-- Writes a text into `size` bytes, terminator included, cut where it has to be, and gives the
number of bytes of the whole text. -/
def print {P : ElemType → Type} [ArrayLike P] (buffer : P .uint8) (size : UInt64)
    (text : String) : Operation Nat := do
  let a ← check (ArrayLike.requireSpan buffer size)
  let bytes := text.toUTF8.toList
  if size != 0 then storeBytes a (.ofList (bytes.take (size.toNat - 1)) ++ terminator)
  return bytes.length

end CString

end CheckedMemory
