/-!
# Machine words

Addresses, byte counts and element counts are unsigned 64-bit words; element indices are signed
64-bit words.  Both wrap, so every place where wrapping would be wrong asks first, with one of
the functions below.  Each is pinned by the lemma beside it, which speaks about natural numbers:
a proof about addresses never has to look at a bit.
-/

namespace CheckedMemory

/-- Powers of numbers are the ones by repeated multiplication, whatever else is in scope. -/
@[default_instance 20000]
instance (priority := 20000) powByNat {α : Type} [NatPow α] : Pow α Nat := instPowNat

/-- A byte address.  Zero is the null address. -/
abbrev Address := UInt64

namespace Word

/-! ## 1. Arithmetic that notices overflow -/

/-- The sum, unless it leaves the word. -/
def add? (a b : UInt64) : Option UInt64 :=
  if a.toNat + b.toNat < 2 ^ 64 then some (a + b) else none

/-- The product, unless it leaves the word. -/
def mul? (a b : UInt64) : Option UInt64 :=
  if a.toNat * b.toNat < 2 ^ 64 then some (a * b) else none

/-- The product, or the largest word where the product leaves the word. -/
def mulSat (a b : UInt64) : UInt64 :=
  (mul? a b).getD (-1)

/-- The quotient rounded up.  A zero divisor counts as one, so that byte counts of elements
without bytes stay meaningful. -/
def ceilDiv (a b : UInt64) : UInt64 :=
  let d := max b 1
  a / d + (if a % d = 0 then 0 else 1)

theorem add?_eq_some_iff {a b c : UInt64} :
    add? a b = some c ↔ a.toNat + b.toNat < 2 ^ 64 ∧ c.toNat = a.toNat + b.toNat := by
  unfold add?
  split
  · rename_i h
    constructor
    · rintro ⟨rfl⟩
      exact ⟨h, by rw [UInt64.toNat_add, Nat.mod_eq_of_lt h]⟩
    · rintro ⟨-, hc⟩
      congr 1
      apply UInt64.toNat_inj.mp
      rw [UInt64.toNat_add, Nat.mod_eq_of_lt h, hc]
  · rename_i h
    exact ⟨fun e => (nomatch e), fun e => absurd e.1 h⟩

theorem mul?_eq_some_iff {a b c : UInt64} :
    mul? a b = some c ↔ a.toNat * b.toNat < 2 ^ 64 ∧ c.toNat = a.toNat * b.toNat := by
  unfold mul?
  split
  · rename_i h
    constructor
    · rintro ⟨rfl⟩
      exact ⟨h, by rw [UInt64.toNat_mul, Nat.mod_eq_of_lt h]⟩
    · rintro ⟨-, hc⟩
      congr 1
      apply UInt64.toNat_inj.mp
      rw [UInt64.toNat_mul, Nat.mod_eq_of_lt h, hc]
  · rename_i h
    exact ⟨fun e => (nomatch e), fun e => absurd e.1 h⟩

theorem toNat_mulSat (a b : UInt64) :
    (mulSat a b).toNat = min (a.toNat * b.toNat) (2 ^ 64 - 1) := by
  unfold mulSat
  cases h : mul? a b with
  | none =>
    have hle : 2 ^ 64 ≤ a.toNat * b.toNat := by
      simp only [mul?] at h
      split at h <;> simp_all
    simp only [Option.getD_none]
    have : (-1 : UInt64).toNat = 2 ^ 64 - 1 := by decide
    omega
  | some c =>
    obtain ⟨hlt, hc⟩ := mul?_eq_some_iff.mp h
    simp only [Option.getD_some]
    omega

/-! ## 2. Alignment -/

/-- The least multiple of `align` that is at least `n`; `n` itself when `align` is zero. -/
def roundUp (n align : Nat) : Nat :=
  if align = 0 then n else (n + (align - 1)) / align * align

/-- `n` is one of 1, 2, 4, 8, … -/
def isPowerOfTwo (n : Nat) : Bool :=
  n != 0 && 2 ^ n.log2 == n

theorem le_roundUp (n : Nat) {align : Nat} : n ≤ roundUp n align := by
  unfold roundUp
  split
  · exact Nat.le_refl n
  · rename_i h
    have hpos : 0 < align := Nat.pos_of_ne_zero h
    have h1 := Nat.div_add_mod (n + (align - 1)) align
    have h2 := Nat.mod_lt (n + (align - 1)) hpos
    rw [Nat.mul_comm] at h1
    omega

theorem roundUp_lt (n : Nat) {align : Nat} (h : 0 < align) : roundUp n align < n + align := by
  unfold roundUp
  rw [if_neg (Nat.pos_iff_ne_zero.mp h)]
  have h1 := Nat.div_mul_le_self (n + (align - 1)) align
  omega

theorem roundUp_mod (n align : Nat) (h : 0 < align) : roundUp n align % align = 0 := by
  unfold roundUp
  rw [if_neg (Nat.pos_iff_ne_zero.mp h)]
  exact Nat.mul_mod_left _ _

/-! ## 3. Text -/

/-- A word in hexadecimal, lower case, with its marker: `0x0`, `0xff`. -/
def hex (a : UInt64) : String :=
  "0x" ++ String.ofList (Nat.toDigits 16 a.toNat)

end Word

end CheckedMemory
