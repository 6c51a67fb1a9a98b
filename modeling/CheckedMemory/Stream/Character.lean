import CheckedMemory.Stream.CharsetName

/-!
# Characters in bytes

Which bytes are characters of a character set.  Two sets need more than a look at each byte.  In one
the first byte of a character says how many there are, and none may be written with more bytes than
it needs; in the other every character has four bytes.
-/

namespace CheckedMemory

namespace Charset

/-! ## 1. Characters of several widths -/

/-- A character so far: how many bytes are to come, its value, and the least value that needs as
many bytes. -/
structure Started where
  left : Nat
  value : Nat
  least : Nat
deriving DecidableEq, Repr

namespace Started

/-- What the first byte of a character says. -/
def first? (b : UInt8) : Option Started :=
  if b < 0x80 then some ⟨0, b.toNat, 0⟩
  else if b < 0xC2 then none
  else if b < 0xE0 then some ⟨1, b.toNat - 0xC0, 0x80⟩
  else if b < 0xF0 then some ⟨2, b.toNat - 0xE0, 0x800⟩
  else if b < 0xF8 then some ⟨3, b.toNat - 0xF0, 0x10000⟩
  else if b < 0xFC then some ⟨4, b.toNat - 0xF8, 0x200000⟩
  else if b < 0xFE then some ⟨5, b.toNat - 0xFC, 0x4000000⟩
  else none

/-- Halves of pairs are no characters. -/
def isHalf (value : Nat) : Bool := 0xD800 ≤ value && value < 0xE000

/-- One byte more, which goes on with a character or starts the next. -/
def next? (c : Started) (b : UInt8) : Option Started :=
  if c.left = 0 then first? b
  else
    let value := c.value * 64 + (b.toNat - 0x80)
    let isLast := c.left == 1
    if b < 0x80 || 0xC0 ≤ b || (isLast && (value < c.least || isHalf value)) then none
    else some { c with left := c.left - 1, value }

end Started

/-- Whether bytes are characters of several widths. -/
def acceptsUtf8 (bytes : List UInt8) : Bool :=
  match bytes.foldlM Started.next? ⟨0, 0, 0⟩ with
  | some c => c.left == 0
  | none => false

/-! ## 2. Characters of one width -/

/-- Whether four bytes are a character, by the three most significant: none is beyond the last one,
and none is half of a pair. -/
def isUtf32 (a b c : UInt8) : Bool :=
  a == 0 && b ≤ 0x10 && !(b == 0 && 0xD8 ≤ c && c < 0xE0)

/-- Whether all groups of four bytes are characters. -/
def acceptsUtf32 (mostFirst : Bool) : List UInt8 → Bool
  | a :: b :: c :: e :: rest =>
    (if mostFirst then isUtf32 a b c else isUtf32 e c b) && acceptsUtf32 mostFirst rest
  | _ => true

/-! ## 3. All sets -/

/-- Whether bytes are characters of the set. -/
def accepts (c : Charset) (bytes : List UInt8) : Bool :=
  match c with
  | ascii => bytes.all (· < 0x80)
  | utf8 => acceptsUtf8 bytes
  | utf32 mostFirst => acceptsUtf32 mostFirst bytes
  | eightBit => true

end Charset

end CheckedMemory
