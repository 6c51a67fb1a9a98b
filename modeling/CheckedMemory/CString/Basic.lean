import CheckedMemory.Bulk
import CheckedMemory.Heap.Allocate

/-!
# Terminated byte strings

A byte array read as a string: the bytes from the current index up to the first zero byte.  The
string is found inside the rest of the array and nowhere else, so a missing terminator is a
violation instead of a run into foreign memory.

Writers compute what they need, check the room of the destination, then overlap, and write last.
-/

namespace CheckedMemory

namespace CString

open Operation

variable {P Q : ElemType → Type} [ArrayLike P] [ArrayLike Q]

/-! ## 1. Reading -/

/-- What ends a string. -/
def terminator : Runs UInt8 := .replicate 1 0

/-- The bytes from the current index to the end of the array. -/
def window (p : P .uint8) : Operation (Runs UInt8) := do
  let (a, count) ← check (ArrayLike.rest p)
  loadBytes a count.toNat

/-- The bytes before the first zero byte. -/
def beforeTerminator (bytes : Runs UInt8) : Runs UInt8 := bytes.takeWhile (· != 0)

/-- Whether a zero byte is among the bytes. -/
def isTerminated (bytes : Runs UInt8) : Bool := bytes.any (· == 0)

/-- The string, without its terminator. -/
def contents (p : P .uint8) : Operation (Runs UInt8) := do
  let bytes ← window p
  if isTerminated bytes then return beforeTerminator bytes
  else stop (.unterminated (UInt64.ofNat bytes.length))

/-- The string, or its first `n` bytes if it has as many; the array must hold one or the
other. -/
def leading (p : P .uint8) (n : UInt64) : Operation (Runs UInt8) := do
  let bytes ← window p
  let front := bytes.take n.toNat
  if isTerminated front then return beforeTerminator front
  else if n.toNat ≤ bytes.length then return front
  else
    let s := ArrayLike.span p
    stop (.spanOutOfBounds s.index n s.extent)

/-- The length of the string. -/
def length (p : P .uint8) : Operation Nat := return (← contents p).length

/-! ## 2. Making strings -/

/-- A string of the heap with the given bytes and a terminator. -/
def ofBytes (bytes : List UInt8) : Operation (ArrayPtr .uint8) := ArrayPtr.ofList .uint8 (bytes ++ [0])

/-- A string of the heap with the bytes of a text. -/
def literal (text : String) : Operation (ArrayPtr .uint8) := ofBytes text.toUTF8.toList

/-- Strings of the heap, one for each text, in order. -/
def literals : List String → Operation (List (ArrayPtr .uint8))
  | [] => pure []
  | t :: ts => do
    let s ← literal t
    return s :: (← literals ts)

/-- An argument vector: an array of strings, one for each text. -/
def vector (texts : List String) : Operation (ArrayPtr (.arrayPointer .uint8)) := do
  ArrayPtr.ofList (.arrayPointer .uint8) (← literals texts)

/-! ## 3. Comparing and searching -/

/-- Compares two strings byte by byte. -/
def compare (p : P .uint8) (q : Q .uint8) : Operation Ordering := do
  let a ← contents p
  let b ← contents q
  return a.compare b

/-- Compares at most `n` bytes of two strings. -/
def compareLeading (p : P .uint8) (q : Q .uint8) (n : UInt64) : Operation Ordering := do
  let a ← leading p n
  let b ← leading q n
  return a.compare b

/-- The first occurrence of a byte in the string; zero finds the terminator. -/
def find? (p : P .uint8) (c : UInt8) : Operation (Option (P .uint8)) := do
  let text ← contents p
  let i := (text.takeWhile (· != c)).length
  return if c = 0 ∨ i < text.length then some (ArrayLike.offset p (Int64.ofNat i)) else none

/-! ## 4. Writing -/

/-- The destination must have room for `needed` bytes; its room is given back. -/
def requireRoom (dst : P .uint8) (needed : Nat) : Operation Unit := do
  let room ← check (ArrayLike.remaining dst)
  let s := ArrayLike.span dst
  require (needed ≤ room.toNat) (.spanOutOfBounds s.index (UInt64.ofNat needed) s.extent)

/-- `n` bytes at `a` and `m` bytes at `b` share an address.  An empty range inside the other one
counts as shared. -/
def overlapping (a : Address) (n : Nat) (b : Address) (m : Nat) : Bool :=
  a.toNat < b.toNat + m && b.toNat < a.toNat + n

/-- Appends at most `n` bytes of the source to the destination, and a terminator. -/
def append (dst : P .uint8) (src : Q .uint8) (n : UInt64) : Operation Unit := do
  let text := (← contents src).take n.toNat
  let start ← length dst
  requireRoom dst (start + text.length + 1)
  let out := ArrayLike.address dst
  require (!overlapping out (start + text.length + 1) (ArrayLike.address src) text.length)
    .overlappingCopy
  storeBytes (out + UInt64.ofNat start) (text ++ terminator)

/-- Appends the source to the destination. -/
def appendAll (dst : P .uint8) (src : Q .uint8) : Operation Unit := append dst src (-1)

/-- Copies the source, with its terminator. -/
def copy (dst : P .uint8) (src : Q .uint8) : Operation Unit := do
  let text ← contents src
  requireRoom dst (text.length + 1)
  let out := ArrayLike.address dst
  require (!overlapping out (text.length + 1) (ArrayLike.address src) text.length) .overlappingCopy
  storeBytes out (text ++ terminator)

/-- Writes exactly `n` bytes: the source, or its first `n` bytes, then zeros. -/
def copyPadded (dst : P .uint8) (src : Q .uint8) (n : UInt64) : Operation Unit := do
  let text ← leading src n
  requireRoom dst n.toNat
  let out := ArrayLike.address dst
  require (!overlapping out n.toNat (ArrayLike.address src) text.length) .overlappingCopy
  storeBytes out (text ++ .replicate (n.toNat - text.length) 0)

end CString

end CheckedMemory
