import CheckedMemory.Word

/-!
# Little-endian digits

A natural number as its `n` lowest base-256 digits, lowest first.  Main statements: reading back
gives the number (`ofBytes_toBytes`), and any `n` bytes are the digits of the number they denote
(`toBytes_ofBytes`), so each pattern of bytes has one number and each number one pattern.
-/

namespace CheckedMemory

namespace LittleEndian

/-- The `n` lowest bytes of `x`, lowest first. -/
def toBytes : Nat → Nat → List UInt8
  | 0, _ => []
  | n + 1, x => UInt8.ofNat x :: toBytes n (x / 256)

/-- The number with these bytes, lowest first. -/
def ofBytes : List UInt8 → Nat
  | [] => 0
  | b :: bs => b.toNat + 256 * ofBytes bs

@[simp] theorem length_toBytes (n x : Nat) : (toBytes n x).length = n := by
  induction n generalizing x with
  | zero => rfl
  | succ n ih => simp [toBytes, ih]

theorem ofBytes_lt (bs : List UInt8) : ofBytes bs < 256 ^ bs.length := by
  induction bs with
  | nil => simp [ofBytes]
  | cons b bs ih =>
    have hb := b.toNat_lt
    simp only [ofBytes, List.length_cons, Nat.pow_succ]
    omega

theorem ofBytes_toBytes {n x : Nat} (h : x < 256 ^ n) : ofBytes (toBytes n x) = x := by
  induction n generalizing x with
  | zero => simp only [Nat.pow_zero] at h; simp [toBytes, ofBytes]; omega
  | succ n ih =>
    have h' : x / 256 < 256 ^ n := by
      rw [Nat.pow_succ] at h
      exact Nat.div_lt_of_lt_mul (by omega)
    simp only [toBytes, ofBytes, ih h', UInt8.toNat_ofNat']
    omega

theorem toBytes_ofBytes (bs : List UInt8) : toBytes bs.length (ofBytes bs) = bs := by
  induction bs with
  | nil => rfl
  | cons b bs ih =>
    have hb := b.toNat_lt
    have h1 : (b.toNat + 256 * ofBytes bs) / 256 = ofBytes bs := by omega
    have h2 : UInt8.ofNat (b.toNat + 256 * ofBytes bs) = b := by
      apply UInt8.toNat_inj.mp
      rw [UInt8.toNat_ofNat']
      omega
    simp only [List.length_cons, ofBytes, toBytes, h1, h2, ih]

end LittleEndian

end CheckedMemory
