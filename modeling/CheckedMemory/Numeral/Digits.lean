import CheckedMemory.Word

/-!
# Digits, signs and blanks

What numerals are made of, on bytes.  Every reader here takes the longest front of the text that
it can use and gives the rest; nothing is lost (`digits_append_rest`), and the rest starts with
no digit (`digit?_rest`).  What digits denote is a sum by places, however it is computed
(`value_eq`).
-/

namespace CheckedMemory

namespace Numeral

/-! ## 1. Blanks and signs -/

/-- The six blanks: the space, and tab to carriage return. -/
def isBlank (b : UInt8) : Bool := b == 32 || (9 ≤ b && b ≤ 13)

/-- An optional sign in front: whether it is a minus, and the rest. -/
def sign : List UInt8 → Bool × List UInt8
  | [] => (false, [])
  | b :: bs =>
    if b = '-'.toUInt8 then (true, bs) else if b = '+'.toUInt8 then (false, bs) else (false, b :: bs)

/-- The lower-case form of an ASCII letter; any other byte is kept. -/
def lower (b : UInt8) : UInt8 := if 65 ≤ b && b ≤ 90 then b + 32 else b

/-- What follows a word in front of the text, letters compared without case. -/
def afterWord? (word : String) (text : List UInt8) : Option (List UInt8) :=
  let w := word.toUTF8.toList
  if (text.take w.length).map lower = w then some (text.drop w.length) else none

/-! ## 2. Digits -/

/-- The value of a digit in a base of at most sixteen; letters count from ten in either case. -/
def digit? (base : Nat) (b : UInt8) : Option Nat :=
  let c := lower b
  let v := if 48 ≤ c && c ≤ 57 then c.toNat - 48 else if 97 ≤ c && c ≤ 102 then c.toNat - 87 else base
  if v < base then some v else none

/-- The digits in front. -/
def digits (base : Nat) (text : List UInt8) : List UInt8 :=
  text.takeWhile (digit? base · |>.isSome)

/-- What follows the digits in front. -/
def rest (base : Nat) (text : List UInt8) : List UInt8 :=
  text.dropWhile (digit? base · |>.isSome)

/-- A number with one more digit at its end. -/
def append (base n : Nat) (b : UInt8) : Nat := n * base + (digit? base b).getD 0

/-- The number that digits denote, found in so many rounds of halving them. -/
def valueInHalves (base : Nat) : Nat → List UInt8 → Nat
  | 0, ds => ds.foldl (append base) 0
  | rounds + 1, ds =>
    let low := ds.length / 2
    let high := ds.length - low
    valueInHalves base rounds (ds.take high) * base ^ low +
      valueInHalves base rounds (ds.drop high)

/-- The number that digits denote, the most significant first.  Many digits are halved until few are
left in each part, as adding digits one by one to a long number is slow. -/
def value (base : Nat) (ds : List UInt8) : Nat := valueInHalves base (ds.length.log2 - 5) ds

theorem digits_append_rest (base : Nat) (text : List UInt8) :
    digits base text ++ rest base text = text :=
  List.takeWhile_append_dropWhile

theorem digit?_rest {base : Nat} {text : List UInt8} {b : UInt8}
    (h : (rest base text).head? = some b) : digit? base b = none := by
  have := List.head?_dropWhile_not (digit? base · |>.isSome) text
  rw [rest] at h
  rw [h] at this
  simpa using this

theorem digit?_lt {base v : Nat} {b : UInt8} (h : digit? base b = some v) : v < base := by
  unfold digit? at h
  simp only [Option.ite_none_right_eq_some, Option.some.injEq] at h
  omega

theorem foldl_append (base n : Nat) (ds : List UInt8) :
    ds.foldl (append base) n = n * base ^ ds.length + ds.foldl (append base) 0 := by
  induction ds generalizing n with
  | nil => simp
  | cons b ds ih =>
    rw [List.foldl_cons, List.foldl_cons, ih, ih (append base 0 b), List.length_cons, append,
      append, Nat.pow_succ, Nat.zero_mul, Nat.zero_add, Nat.add_mul, Nat.add_assoc, Nat.mul_assoc,
      Nat.mul_comm base]

theorem valueInHalves_eq (base rounds : Nat) (ds : List UInt8) :
    valueInHalves base rounds ds = ds.foldl (append base) 0 := by
  induction rounds generalizing ds with
  | zero => rfl
  | succ rounds ih =>
    have hlow : (ds.drop (ds.length - ds.length / 2)).length = ds.length / 2 := by
      rw [List.length_drop]; omega
    have hsplit : (ds.drop (ds.length - ds.length / 2)).foldl (append base)
        ((ds.take (ds.length - ds.length / 2)).foldl (append base) 0) =
          ds.foldl (append base) 0 := by
      rw [← List.foldl_append, List.take_append_drop]
    rw [foldl_append, hlow] at hsplit
    simp only [valueInHalves, ih, hsplit]

/-- **Digits count by their places**: each adds itself to the number before it, times the base. -/
theorem value_eq (base : Nat) (ds : List UInt8) : value base ds = ds.foldl (append base) 0 :=
  valueInHalves_eq base _ ds

end Numeral

end CheckedMemory
