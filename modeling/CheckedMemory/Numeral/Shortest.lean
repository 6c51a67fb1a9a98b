import CheckedMemory.Numeral.Real

/-!
# Writing binary64 numbers

The text of a number has the fewest digits that read back as it, and of those the nearest; of two
at the same distance it has the larger.  One test, `readsBack`, decides: the decimal is rounded
with the same function that reads numerals.  So that a written number reads back needs no theory
of rounding intervals.
-/

namespace CheckedMemory

namespace Binary64

/-! ## 1. Digits -/

/-- A whole significand and a power of ten. -/
structure Decimal where
  digits : Nat
  exponent : Int
deriving DecidableEq, Repr

/-- How many decimal digits a number has; zero has none. -/
def digitCount (n : Nat) : Nat := if n = 0 then 0 else (Nat.toDigits 10 n).length

/-- The number of digits before the point of `num / den`; for a quotient below one, minus the
number of zeros after it. -/
def pointPosition (num den : Nat) : Int :=
  if den ≤ num then digitCount (num / den) else 1 - (digitCount ((den - 1) / num) : Int)

/-- The decimal is rounded to the magnitude. -/
def readsBack (magnitude : Nat) (d : Decimal) : Bool := roundScaled 10 d.digits d.exponent == magnitude

/-- The decimal of at most `n` digits nearest to `num / den` that reads back. -/
def nearest? (magnitude num den n : Nat) : Option Decimal :=
  let e := pointPosition num den - n
  let a := num * 10 ^ (-e).toNat
  let b := den * 10 ^ e.toNat
  let low : Decimal := ⟨a / b, e⟩
  let high : Decimal := ⟨a / b + 1, e⟩
  if readsBack magnitude low && (!readsBack magnitude high || 2 * (a % b) < b) then some low
  else if readsBack magnitude high then some high
  else none

/-- Seventeen digits are always enough. -/
def maxDigits : Nat := 17

/-- The shortest decimal of a positive magnitude `num / den`. -/
def shortest (magnitude num den : Nat) : Decimal :=
  ((List.range maxDigits).findSome? fun n => nearest? magnitude num den (n + 1)).getD ⟨0, 0⟩

/-! ## 2. Text -/

/-- The number of digits after which the zeros at the end start. -/
def significantLength (ds : List Char) : Nat := ((ds.reverse).dropWhile (· == '0')).length

/-- Positional text: at least one digit on either side of the point. -/
def positional (ds : List Char) (point : Int) : String :=
  let zeros := fun (n : Int) => List.replicate n.toNat '0'
  let whole := ds.take point.toNat ++ zeros (point - ds.length)
  let places := zeros (-point) ++ ds.drop point.toNat
  let orZero := fun (cs : List Char) => if cs.isEmpty then ['0'] else cs
  String.ofList (orZero whole ++ ['.'] ++ orZero places)

/-- Text with an exponent: one digit before the point, and no point without places. -/
def scientific (ds : List Char) (point : Int) : String :=
  let places := ds.drop 1
  String.ofList (ds.take 1 ++ if places.isEmpty then [] else '.' :: places)
    ++ "e" ++ toString (point - 1)

/-- Numbers from `10 ^ 16` on and numbers below `10 ^ -4` are written with an exponent. -/
def isPositional (point : Int) : Bool := -4 < point && point ≤ 16

/-- The text of a number. -/
def text (x : Binary64) : String :=
  if x.isNaN then "NaN"
  else
    let unsignedText :=
      if x.isInfinite then "inf"
      else
        let (m, e) := x.decompose
        if m = 0 then "0.0"
        else
          let d := shortest (x.bits.toNat % 2 ^ 63) (m * 2 ^ e.toNat) (2 ^ (-e).toNat)
          let all := Nat.toDigits 10 d.digits
          let point := d.exponent + all.length
          let ds := all.take (significantLength all)
          if isPositional point then positional ds point else scientific ds point
    if x.isNegative then "-" ++ unsignedText else unsignedText

end Binary64

end CheckedMemory
