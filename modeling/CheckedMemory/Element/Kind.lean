import CheckedMemory.Layout

/-!
# Element types

The types of values that memory can hold: integers of four widths, binary64 numbers, two small
records, a value without bytes, plain bytes of any number, text, a resource whose release is
observed, and pointers into the heap.  A type fixes the layout of its values and what may be done
with them byte by byte.
-/

namespace CheckedMemory

/-- The layout of values that are nothing but bytes: any size that memory can have, and an alignment
that the start of every block has. -/
structure PlainLayout where
  size : Nat
  align : Nat
  size_le : size ≤ Layout.maxSize
  align_dvd : align ∣ 16
  size_mod : size % align = 0
deriving DecidableEq, Repr

/-- The type of an element. -/
inductive ElemType where
  | uint8
  | uint16
  | uint32
  | uint64
  | int16
  | int32
  | int64
  /-- An IEEE 754 binary64 number. -/
  | binary64
  /-- Two 32-bit words, a tag and a length. -/
  | header
  /-- Three bytes. -/
  | rgb
  /-- One value, no bytes. -/
  | unit
  /-- Bytes of a given layout, of which every pattern is a value. -/
  | plain (l : PlainLayout)
  /-- Text of any length, held outside the element. -/
  | text
  /-- A number whose release is written to the drop log. -/
  | resource
  /-- A pointer to one element. -/
  | pointer (target : ElemType)
  /-- A pointer to an array. -/
  | arrayPointer (target : ElemType)
  /-- A node of an object graph. -/
  | node
deriving DecidableEq, Repr

namespace ElemType

/-- The layout of a value. -/
def layout : ElemType → Layout
  | uint8 => ⟨1, 1⟩
  | uint16 | int16 => ⟨2, 2⟩
  | uint32 | int32 => ⟨4, 4⟩
  | uint64 | int64 | binary64 | resource | pointer _ => ⟨8, 8⟩
  | header => ⟨8, 4⟩
  | rgb => ⟨3, 1⟩
  | unit => ⟨0, 1⟩
  | plain l => ⟨l.size, l.align⟩
  | text | arrayPointer _ => ⟨24, 8⟩
  | node => ⟨104, 8⟩

/-- The size of a value as a word. -/
def size (τ : ElemType) : UInt64 := UInt64.ofNat τ.layout.size

/-- The alignment of a value as a word. -/
def align (τ : ElemType) : UInt64 := UInt64.ofNat τ.layout.align

/-- Whether every pattern of bytes is a value, and a value is nothing but its bytes. -/
def isPlain : ElemType → Bool
  | uint8 | uint16 | uint32 | uint64 | int16 | int32 | int64 | binary64 | header | rgb | unit
  | plain _ => true
  | text | resource | pointer _ | arrayPointer _ | node => false

/-- Whether a value may be duplicated by copying its bytes. -/
def isCopy : ElemType → Bool
  | pointer _ | arrayPointer _ => true
  | τ => τ.isPlain

/-- Whether there is a zero value. -/
def hasZero : ElemType → Bool
  | header | rgb | unit | plain _ | text | node => false
  | _ => true

/-- Every alignment divides that of what the system allocator gives. -/
theorem align_dvd (τ : ElemType) : τ.layout.align ∣ 16 := by
  cases τ with
  | plain l => exact l.align_dvd
  | _ => simp only [layout]; decide

/-- No value is larger than memory can be. -/
theorem size_le (τ : ElemType) : τ.layout.size ≤ Layout.maxSize := by
  cases τ with
  | plain l => exact l.size_le
  | _ => simp only [layout]; decide

theorem align_pos (τ : ElemType) : 0 < τ.layout.align :=
  Nat.pos_of_dvd_of_pos τ.align_dvd (by decide)

theorem align_le (τ : ElemType) : τ.layout.align ≤ 16 := Nat.le_of_dvd (by decide) τ.align_dvd

theorem size_mod_align (τ : ElemType) : τ.layout.size % τ.layout.align = 0 := by
  cases τ with
  | plain l => exact l.size_mod
  | _ => simp [layout]

theorem size_lt (τ : ElemType) : τ.layout.size < 2 ^ 63 :=
  Nat.lt_of_le_of_lt τ.size_le (by decide)

@[simp] theorem toNat_size (τ : ElemType) : τ.size.toNat = τ.layout.size := by
  exact UInt64.toNat_ofNat_of_lt' (Nat.lt_trans τ.size_lt (by decide))

@[simp] theorem toNat_align (τ : ElemType) : τ.align.toNat = τ.layout.align := by
  exact UInt64.toNat_ofNat_of_lt' (Nat.lt_of_le_of_lt τ.align_le (by decide))

end ElemType

end CheckedMemory
