import CheckedMemory.Stream.CharsetName

/-!
# Modes

How a stream is opened, written as a few letters: one that says the directions, up to six that
refine it, and after those perhaps a comma and the name of a character set.  A stream with a
character set is one of characters, which bytes cannot be written to or asked for one by one.
-/

namespace CheckedMemory

/-- What a mode says about the encoding of a file. -/
inductive Encoding where
  /-- Nothing: the stream is one of bytes. -/
  | unnamed
  | named (c : Charset)
  | unknown
deriving DecidableEq, Repr

namespace Encoding

/-- What the name of a character set comes after. -/
def marker : List UInt8 := ",ccs=".toUTF8.toList

/-- What follows the first marker. -/
def afterMarker? : List UInt8 → Option (List UInt8)
  | [] => none
  | b :: bs => if marker.isPrefixOf (b :: bs) then some ((b :: bs).drop marker.length)
    else afterMarker? bs

/-- What the letters of a mode say; a name ends at a comma. -/
def ofLetters (letters : List UInt8) : Encoding :=
  match afterMarker? letters with
  | none => unnamed
  | some text =>
    match Charset.ofName? (text.takeWhile (· != ','.toUInt8)) with
    | some c => named c
    | none => unknown

end Encoding

/-- What a stream may do, and what opening it does to the file. -/
structure OpenMode where
  readable : Bool
  writable : Bool
  /-- Every write goes to the end of the file. -/
  appends : Bool
  /-- A missing file is made. -/
  creates : Bool
  /-- Earlier contents are discarded. -/
  truncates : Bool
  /-- An existing file is refused where a missing one would be made. -/
  exclusive : Bool
  /-- The file is to be seen as memory where that can be done. -/
  maps : Bool
  encoding : Encoding
deriving DecidableEq, Repr

namespace OpenMode

/-- The letters that refine a mode and end its plain part: a plus sign opens both directions, x
refuses an existing file, and b says nothing. -/
def isRefinement (letter : UInt8) : Bool := "+xb".toUTF8.toList.contains letter

/-- One letter after the first.  Letters without a meaning say nothing. -/
def refine (m : OpenMode) (letter : UInt8) : OpenMode :=
  if letter = '+'.toUInt8 then { m with readable := true, writable := true }
  else if letter = 'x'.toUInt8 then { m with exclusive := true }
  else if letter = 'm'.toUInt8 then { m with maps := true }
  else m

/-- What follows the last refinement among the first six letters. -/
def afterRefinements (letters : List UInt8) : List UInt8 :=
  let plain := (letters.take 6).reverse.dropWhile (!isRefinement ·)
  letters.drop plain.length

/-- Reads a mode: r, w or a, then letters of which the first six refine it. -/
def parse? : List UInt8 → Option OpenMode
  | [] => none
  | c :: letters =>
    let e := Encoding.ofLetters (afterRefinements letters)
    let plain : Option OpenMode :=
      if c = 'r'.toUInt8 then some ⟨true, false, false, false, false, false, false, e⟩
      else if c = 'w'.toUInt8 then some ⟨false, true, false, true, true, false, false, e⟩
      else if c = 'a'.toUInt8 then some ⟨false, true, true, true, false, false, false, e⟩
      else none
    plain.map ((letters.take 6).foldl refine ·)

end OpenMode

end CheckedMemory
