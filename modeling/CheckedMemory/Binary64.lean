import CheckedMemory.Word

/-!
# Binary64 numbers

An IEEE 754 binary64 number is kept as its 64 bits: sign, eleven bits of exponent, fifty-two of
fraction.  Memory moves bits and never computes with them; reading decimal text, writing it and
comparing are all done in exact arithmetic on natural numbers.
-/

namespace CheckedMemory

/-- A binary64 number, given by its bits. -/
structure Binary64 where
  bits : UInt64
deriving DecidableEq, Repr

namespace Binary64

/-! ## 1. Fields -/

def zero : Binary64 := ⟨0⟩

instance : Inhabited Binary64 := ⟨zero⟩

def isNegative (x : Binary64) : Bool := 2 ^ 63 ≤ x.bits.toNat

/-- The exponent field. -/
def exponentField (x : Binary64) : Nat := x.bits.toNat / 2 ^ 52 % 2 ^ 11

/-- The fraction field. -/
def fraction (x : Binary64) : Nat := x.bits.toNat % 2 ^ 52

def isNaN (x : Binary64) : Bool := x.exponentField == 2047 && x.fraction != 0

def isInfinite (x : Binary64) : Bool := x.exponentField == 2047 && x.fraction == 0

/-- The significand `m` and exponent `e` of a finite number's magnitude `m * 2 ^ e`. -/
def decompose (x : Binary64) : Nat × Int :=
  if x.exponentField = 0 then (x.fraction, -1074)
  else (x.fraction + 2 ^ 52, (x.exponentField : Int) - 1075)

/-- Equality of numbers: no NaN equals anything, and the two zeros are equal. -/
def numericEq (x y : Binary64) : Bool :=
  !x.isNaN && !y.isNaN && (x.bits == y.bits || (x.bits ||| y.bits) <<< 1 == 0)

/-! ## 2. Building -/

/-- The number with a sign and a magnitude below `2 ^ 63`. -/
def ofMagnitude (negative : Bool) (magnitude : Nat) : Binary64 :=
  ⟨UInt64.ofNat (magnitude + if negative then 2 ^ 63 else 0)⟩

/-- The magnitude of infinity. -/
def infinityMagnitude : Nat := 2047 * 2 ^ 52

/-- The magnitude of the quiet NaN whose payload is the low 51 bits of a number. -/
def nanMagnitude (payload : Nat) : Nat := 4095 * 2 ^ 51 + payload % 2 ^ 51

/-- The magnitude nearest to the quotient `num / den`, ties to the even one.

With `m = num / den / 2 ^ e` and `e` so chosen that `m` has 53 bits (or fewer at the least
exponent), the bits of the magnitude are `(e + 1074) * 2 ^ 52 + m`; a carry out of the rounding
moves into the exponent by itself. -/
def roundQuotient (num den : Nat) : Nat :=
  if num = 0 then 0 else
  let e₀ : Int := (num.log2 : Int) - (den.log2 : Int) - 53
  -- `num / den` lies in `(2 ^ (e₀ + 52), 2 ^ (e₀ + 54))`
  let e₁ := if num * 2 ^ (-(e₀ + 53)).toNat ≥ den * 2 ^ (e₀ + 53).toNat then e₀ + 1 else e₀
  let e := max e₁ (-1074)
  let n := num * 2 ^ (-e).toNat
  let d := den * 2 ^ e.toNat
  let q := n / d
  let r := n % d
  let m := if d < 2 * r ∨ (2 * r = d ∧ q % 2 = 1) then q + 1 else q
  min ((e + 1074).toNat * 2 ^ 52 + m) infinityMagnitude

end Binary64

end CheckedMemory
