import CheckedMemory.Span

/-!
# Two ways to check an element

The software strategy compares the index with the extent.  The register strategy makes an
inclusive range of byte addresses once, when the array is known, and compares the first and last
byte of the element with its limits.  Both are meant to accept the same elements; pointers use
the first.
-/

namespace CheckedMemory

/-! ## 1. The register -/

/-- An inclusive range of byte addresses.  An upper limit below the lower one denotes no
address. -/
structure BoundsRegister where
  lower : Address
  upper : Address
deriving DecidableEq, Repr

namespace BoundsRegister

/-- The range of `length` bytes from `base` on. -/
def make (base : Address) (length : UInt64) : BoundsRegister :=
  ⟨base, base + length - 1⟩

def admitsLower (r : BoundsRegister) (a : Address) : Bool := r.lower ≤ a

def admitsUpper (r : BoundsRegister) (a : Address) : Bool := r.lower ≤ r.upper && a ≤ r.upper

end BoundsRegister

/-! ## 2. The strategies -/

namespace SoftwareBounds

/-- The element is there when its index is in the extent. -/
def admits (extent : UInt64) (index : Int64) : Bool := Span.inExtent index extent

end SoftwareBounds

namespace RegisterBounds

/-- The register of an array of `extent` elements of `size` bytes. -/
def make (base : Address) (size extent : UInt64) : BoundsRegister :=
  .make base (Word.mulSat extent size)

/-- The addresses of an element's first and last byte, unless one leaves the address space. -/
def elementRange? (base : Address) (size : UInt64) (index : Int64) : Option (Address × Address) := do
  let offset ← Word.mul? index.toUInt64 size
  let first ← Word.add? base offset
  let last ← Word.add? first (size - 1)
  return (first, last)

/-- The element is there when its first byte passes the lower limit and its last byte the upper.
Elements without bytes share one address, so for them the index decides. -/
def admits (r : BoundsRegister) (base : Address) (size extent : UInt64) (index : Int64) : Bool :=
  if size = 0 then SoftwareBounds.admits extent index
  else if index < 0 then false
  else match elementRange? base size index with
    | none => false
    | some (first, last) => r.admitsLower first && r.admitsUpper last

end RegisterBounds

end CheckedMemory
