import CheckedMemory.Heap.Allocate
import CheckedMemory.Pointer.Array

/-!
# Matrices

Cell `(x, y)` is element `y * xExtent + x` of one flat block, so a cell is checked once against
both extents.
-/

namespace CheckedMemory

namespace Matrix

open Operation

variable {τ : ElemType}

/-- The number of cells. -/
def size (m : Matrix τ) : UInt64 := m.xExtent * m.yExtent

/-- The flat position of a cell. -/
def position (m : Matrix τ) (x y : UInt64) : UInt64 := y * m.xExtent + x

/-- The address of a cell, checked in `x` first. -/
def locate (m : Matrix τ) (x y : UInt64) : Except Violation Address :=
  if m.isNull then .error .nullDereference
  else if m.xExtent ≤ x then .error (.outOfBounds x.toInt64 m.xExtent)
  else if m.yExtent ≤ y then .error (.outOfBounds y.toInt64 m.yExtent)
  else .ok (m.base + m.position x y * τ.size)

/-- The value of a cell. -/
def index (m : Matrix τ) (x y : UInt64) : Operation τ.Carrier := do
  loadValue τ (← check (m.locate x y))

/-- The value of a cell, or nothing where there is none. -/
def get? (m : Matrix τ) (x y : UInt64) : Operation (Option τ.Carrier) :=
  match m.locate x y with
  | .ok a => some <$> loadValue τ a
  | .error _ => pure none

/-- Assigns to a cell. -/
def set (m : Matrix τ) (x y : UInt64) (v : τ.Carrier) : Operation Unit := do
  assign τ (← check (m.locate x y)) v

/-- Assigns to a cell, if there is one, and says so. -/
def trySet (m : Matrix τ) (x y : UInt64) (v : τ.Carrier) : Operation Bool :=
  match m.locate x y with
  | .ok a => do assign τ a v; return true
  | .error _ => pure false

/-- All cells as one array. -/
def toArrayPtr (m : Matrix τ) : ArrayPtr τ := .ofBase m.base m.size

end Matrix

end CheckedMemory
