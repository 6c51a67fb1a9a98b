import CheckedMemory.Binary64
import CheckedMemory.Numeral.Digits

/-!
# Reading binary64 numbers

A numeral is a whole significand and a power of ten or two; its value is rounded once, to the
nearest number and on a tie to the even one.  A numeral beyond every finite number is infinite and
one far below the least is zero, and both are told from the number of digits alone, before any
power is computed.

As with integers there are two readers: one for the front of a text, which also knows hexadecimal
numerals and NaN payloads, and one for whole words.  The first takes an exponent of any length, the
second stops counting where it is large enough for any numeral of a reasonable length.
-/

namespace CheckedMemory

namespace Binary64

/-! ## 1. Values of numerals -/

/-- The magnitude nearest to `m * b ^ e`. -/
def roundScaled (b m : Nat) (e : Int) : Nat := roundQuotient (m * b ^ e.toNat) (b ^ (-e).toNat)

/-- The magnitude nearest to `m * 10 ^ e`, where `m` has at most `count` digits and, if it is not
zero, exactly as many. -/
def ofDecimal (m count : Nat) (e : Int) : Nat :=
  if m = 0 then 0
  else if (count : Int) + e > 310 then infinityMagnitude
  else if (count : Int) + e < -330 then 0
  else roundScaled 10 m e

/-- The magnitude nearest to `m * 2 ^ e`. -/
def ofHexadecimal (m : Nat) (e : Int) : Nat :=
  if m = 0 then 0
  else if (m.log2 : Int) + e > 1100 then infinityMagnitude
  else if (m.log2 : Int) + e < -1200 then 0
  else roundScaled 2 m e

end Binary64

namespace Numeral

open Binary64

/-! ## 2. Parts of a numeral -/

/-- The digits before and after an optional point, and what follows them.  A point belongs to the
numeral only next to a digit. -/
def pointed? (base : Nat) (text : List UInt8) :
    Option (List UInt8 × List UInt8 × List UInt8) :=
  let whole := digits base text
  match rest base text with
  | [] => if whole.isEmpty then none else some (whole, [], [])
  | b :: bs =>
    if b = '.'.toUInt8 then
      let places := digits base bs
      if whole.isEmpty && places.isEmpty then none else some (whole, places, rest base bs)
    else if whole.isEmpty then none
    else some (whole, [], b :: bs)

/-- The value of an exponent's digits, of which those after the value has reached 65536 do not
count. -/
def boundedValue (ds : List UInt8) : Nat :=
  ds.foldl (fun n b => if n < 65536 then n * 10 + (digit? 10 b).getD 0 else n) 0

/-- An exponent with its marker in front, and what follows it.  A marker without digits is no
exponent. -/
def exponent? (marker : Char) (count : List UInt8 → Nat) (text : List UInt8) :
    Option (Int × List UInt8) :=
  match text with
  | [] => none
  | b :: bs =>
    if lower b = marker.toUInt8 then
      let (negative, after) := sign bs
      let ds := digits 10 after
      if ds.isEmpty then none
      else some ((if negative then -(count ds : Int) else count ds), rest 10 after)
    else none

/-- The decimal magnitude in front, its exponent counted as told, and what follows it. -/
def decimal? (count : List UInt8 → Nat) (text : List UInt8) : Option (Nat × List UInt8) := do
  let (whole, places, after) ← pointed? 10 text
  let (e, after) := (exponent? 'e' count after).getD (0, after)
  let ds := (whole ++ places).dropWhile (· == '0'.toUInt8)
  return (ofDecimal (value 10 ds) ds.length (e - places.length), after)

/-- The hexadecimal magnitude in front, after its marker, and what follows it. -/
def hexadecimal? (text : List UInt8) : Option (Nat × List UInt8) := do
  let after ← afterWord? "0x" text
  let (whole, places, after) ← pointed? 16 after
  let (e, after) := (exponent? 'p' (value 10) after).getD (0, after)
  return (ofHexadecimal (value 16 (whole ++ places)) (e - 4 * places.length), after)

/-! ## 3. The front of a text -/

/-- The bytes that a NaN payload is written with. -/
def isPayloadByte (b : UInt8) : Bool :=
  (48 ≤ b && b ≤ 57) || (97 ≤ lower b && lower b ≤ 122) || b == '_'.toUInt8

/-- The payload that a text denotes as a whole: hexadecimal after its marker, octal after a zero,
decimal otherwise, and at most the largest word.  No text at all denotes zero. -/
def payload (text : List UInt8) : Nat :=
  let (base, ds) :=
    match afterWord? "0x" text with
    | some ds => (16, ds)
    | none => (if text.head? = some '0'.toUInt8 then 8 else 10, text)
  if (rest base ds).isEmpty then min (value base ds) (2 ^ 64 - 1) else 0

/-- The payload in parentheses after a NaN, or zero. -/
def nanPayload : List UInt8 → Nat
  | [] => 0
  | b :: bs =>
    let body := bs.takeWhile isPayloadByte
    if b = '('.toUInt8 && (bs.dropWhile isPayloadByte).head? = some ')'.toUInt8 then payload body
    else 0

/-- The magnitude in front: infinity, NaN, hexadecimal or decimal. -/
def magnitude? (text : List UInt8) : Option Nat :=
  match afterWord? "inf" text with
  | some _ => some infinityMagnitude
  | none =>
    match afterWord? "nan" text with
    | some after => some (nanMagnitude (nanPayload after))
    | none => (hexadecimal? text <|> decimal? (value 10) text).map (·.1)

/-- The number at the front of a text, after blanks and a sign.  Without one it is zero, and then
a sign does not count. -/
def leadingReal (text : List UInt8) : Binary64 :=
  let (negative, rest) := sign (text.dropWhile isBlank)
  match magnitude? rest with
  | some m => .ofMagnitude negative m
  | none => .zero

/-! ## 4. Whole words -/

/-- The number that a whole word denotes: a decimal numeral, infinity or NaN. -/
def real? (word : List UInt8) : Option Binary64 :=
  let (negative, rest) := sign word
  let named := fun (name : String) => afterWord? name rest == some []
  let magnitude :=
    match decimal? boundedValue rest with
    | some (m, []) => some m
    | _ =>
      if named "inf" || named "infinity" then some infinityMagnitude
      else if named "nan" then some (nanMagnitude 0)
      else none
  magnitude.map (.ofMagnitude negative)

end Numeral

end CheckedMemory
