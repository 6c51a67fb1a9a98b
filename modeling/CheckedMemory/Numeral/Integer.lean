import CheckedMemory.Numeral.Digits
import CheckedMemory.Word

/-!
# Decimal integers

Two readers.  The lenient one takes blanks, a sign and the digits that follow from the front of a
text, and gives zero where there are none.  The strict one takes a whole word or nothing, and
nothing also where the number leaves the range asked for.
-/

namespace CheckedMemory

namespace Numeral

/-- A number with its sign. -/
def signed (negative : Bool) (n : Nat) : Int := if negative then -n else n

/-! ## 1. The front of a text -/

/-- The integer at the front of a text, after blanks. -/
def leadingInteger (text : List UInt8) : Int :=
  let (negative, rest) := sign (text.dropWhile isBlank)
  signed negative (value 10 (digits 10 rest))

/-- The integer at the front, brought into the range of a signed word. -/
def leadingInt64 (text : List UInt8) : Int64 :=
  Int64.ofInt (max (-2 ^ 63) (min (2 ^ 63 - 1) (leadingInteger text)))

/-- The low half of the integer at the front. -/
def leadingInt32 (text : List UInt8) : Int32 := (leadingInt64 text).toInt32

/-! ## 2. Whole words -/

/-- A range of integers. -/
structure Range where
  least : Int
  greatest : Int
deriving DecidableEq, Repr

namespace Range

/-- The integers of `n` bits without a sign. -/
def unsigned (n : Nat) : Range := ⟨0, 2 ^ n - 1⟩

/-- The integers of `n` bits in two's complement. -/
def twosComplement (n : Nat) : Range := ⟨-2 ^ (n - 1), 2 ^ (n - 1) - 1⟩

def contains (r : Range) (n : Int) : Bool := r.least ≤ n && n ≤ r.greatest

end Range

/-- The integer that a whole word denotes.  A plus is always allowed in front, a minus only where
the range goes below zero. -/
def integer? (range : Range) (word : List UInt8) : Option Int :=
  let (negative, ds) := sign word
  if ds.isEmpty || !(rest 10 ds).isEmpty || (negative && range.least == 0) then none
  else
    let n := signed negative (value 10 ds)
    if range.contains n then some n else none

end Numeral

end CheckedMemory
