import CheckedMemory.Numeral.Integer
import CheckedMemory.Numeral.Real
import CheckedMemory.Stream.Transfer

/-!
# Words of a stream

A word is a run of bytes without blanks.  Scanning skips the blanks in front, takes a word of at
most a given length and leaves the stream at the byte that ended it; so a long word can be taken
in pieces and no byte of it is lost.  The end of the file is met exactly when nothing was left to
end the word.

A scan sees of a stream only that bytes come one by one and that the last of them can be given back,
so it is defined for whatever does that (`ByteSource`).

A word may be read as one of five forms.  It is used up whether or not it has the form.
-/

namespace CheckedMemory

/-! ## 1. Scanning -/

/-- What gives bytes one by one until there are none, and takes back the one that it gave last.
Some bytes are blanks. -/
structure ByteSource (σ : Type) where
  next : σ → Option UInt8 × σ
  giveBack : UInt8 → σ → σ
  blank : UInt8 → Bool

namespace ByteSource

variable {σ : Type}

/-- The first byte that is no blank, if it is one of the next `n`. -/
def skipBlanks (source : ByteSource σ) : Nat → σ → Option UInt8 × σ
  | 0, s => (none, s)
  | n + 1, s =>
    match source.next s with
    | (none, s) => (none, s)
    | (some b, s) => if source.blank b then source.skipBlanks n s else (some b, s)

/-- Takes at most so many bytes, from the one that was given last, as long as they are no blanks.
The byte that ended the word or was too many is given back. -/
def takeWord (source : ByteSource σ) : Nat → List UInt8 → Option UInt8 → σ → List UInt8 × σ
  | _, got, none, s => (got.reverse, s)
  | 0, got, some b, s => (got.reverse, source.giveBack b s)
  | limit + 1, got, some b, s =>
    if source.blank b then (got.reverse, source.giveBack b s)
    else
      let (next?, s) := source.next s
      source.takeWord limit (b :: got) next? s

/-- Scans a word of at most `limit` bytes where no more than `most` are left, or nothing if they are
all blanks. -/
def scanWord (source : ByteSource σ) (most limit : Nat) (s : σ) : Option (List UInt8) × σ :=
  match source.skipBlanks (most + 1) s with
  | (none, s) => (none, s)
  | (some b, s) =>
    let (word, s) := source.takeWord limit [] (some b) s
    (some word, s)

end ByteSource

namespace Stream

/-- The bytes of a stream that is not writing. -/
def byteSource (d : Directory) : ByteSource Stream where
  next s := s.nextByte d
  giveBack _ s := s.unreadByte
  blank := Numeral.isBlank

/-- Reads a word of at most `limit` bytes, or nothing where only blanks are left. -/
def readWord (s : Stream) (d : Directory) (limit : Nat) :
    Option (List UInt8) × Stream × Directory :=
  let (ready, s, d) := s.stopWriting d
  if ready then
    let (word?, s) := (byteSource d).scanWord (s.left d) limit s
    (word?, s, d)
  else (none, s, d)

/-- Words without a limit: longer than any file. -/
def noLimit : Nat := 2 ^ 64 - 1

end Stream

/-! ## 2. Reading words -/

/-- What a word is read as. -/
inductive WordForm where
  | integer (range : Numeral.Range)
  | real
  | truth
  | character
  | text
deriving DecidableEq, Repr

/-- A word that was read. -/
inductive WordValue where
  | integer (n : Int)
  | real (x : Binary64)
  | truth (b : Bool)
  | character (c : Char)
  | text (s : String)
deriving DecidableEq, Repr

namespace WordForm

/-- The two truth values, spelled out. -/
def truth? (s : String) : Option Bool :=
  if s = "true" then some true else if s = "false" then some false else none

/-- The only character of a text. -/
def character? (s : String) : Option Char :=
  match s.toList with
  | [c] => some c
  | _ => none

/-- The value of a word.  Bytes that are no text have none in any form. -/
def value? (f : WordForm) (word : List UInt8) : Option WordValue := do
  let s ← String.fromUTF8? ⟨word.toArray⟩
  match f with
  | integer range => (Numeral.integer? range word).map .integer
  | real => (Numeral.real? word).map .real
  | truth => (truth? s).map .truth
  | character => (character? s).map .character
  | text => some (.text s)

end WordForm

end CheckedMemory
