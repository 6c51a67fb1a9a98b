import CheckedMemory.Array.Fixed
import CheckedMemory.Array.Matrix
import CheckedMemory.Numeral.Shortest

/-!
# Written forms of handles

Every handle has a description for people: its kind and the parts it is made of.  As in the
sentences of violations, the way an address is written is a parameter.
-/

namespace CheckedMemory

/-! ## 1. Records -/

namespace Description

/-- A kind and its named parts. -/
def record (kind : String) (parts : List (String × String)) : String :=
  kind ++ " \x7b " ++ ", ".intercalate (parts.map fun (name, part) => name ++ ": " ++ part)
    ++ " \x7d"

/-- Parts without names. -/
def list (parts : List String) : String := "[" ++ ", ".intercalate parts ++ "]"

end Description

namespace Residency

def text : Residency → String
  | stack => "Stack"
  | heap => "Heap"

end Residency

/-- The text of a number of an element type; values that are no numbers have none. -/
def ElemType.numeral : (τ : ElemType) → τ.Carrier → String
  | uint8, (x : UInt8) => toString x.toNat
  | uint16, (x : UInt16) => toString x.toNat
  | uint32, (x : UInt32) => toString x.toNat
  | uint64, (x : UInt64) => toString x.toNat
  | int16, (x : Int16) => toString x.toInt
  | int32, (x : Int32) => toString x.toInt
  | int64, (x : Int64) => toString x.toInt
  | binary64, (x : Binary64) => x.text
  | _, _ => ""

/-! ## 2. Handles -/

open Description

variable {τ : ElemType} (address : Address → String)

/-- The strategy by which array pointers check elements, as descriptions name it. -/
def SoftwareBounds.name : String := "\"rampart::ptr::bounds::SoftwareBounds\""

def Ptr.describe (p : Ptr τ) : String := "Ptr(" ++ address p.address ++ ")"

def VoidPtr.describe (p : VoidPtr) : String := "Ptr(" ++ address p.address ++ ")"

def ArrayPtr.describe (p : ArrayPtr τ) : String :=
  record "ArrayPtr" [("base", address p.span.base), ("index", toString p.span.index.toInt),
    ("size", toString p.span.extent.toNat), ("bounds", SoftwareBounds.name)]

def StackPtr.describe (p : StackPtr τ) : String :=
  record "StackPtr" [("data", address p.address), ("bound", address p.bound.frame),
    ("residency", p.bound.residency.text)]

def StackArrayPtr.describe (p : StackArrayPtr τ) : String :=
  record "StackArrayPtr" [("base", address p.span.base), ("index", toString p.span.index.toInt),
    ("size", toString p.span.extent.toNat), ("bound", address p.bound.frame),
    ("residency", p.bound.residency.text)]

def Matrix.describe (m : Matrix τ) : String :=
  record "Matrix" [("data", address m.base), ("x_extent", toString m.xExtent.toNat),
    ("y_extent", toString m.yExtent.toNat)]

def GlobalArray.describe (x : GlobalArray τ) : String :=
  record "GlobalArray" [("len", toString x.length.toNat), ("data", address x.base)]

/-- A fixed array is described by its elements. -/
def FixedArray.describe (x : FixedArray τ) : Operation String :=
  return record "FixedArray" [("data", list ((← x.toList).map τ.numeral))]

end CheckedMemory
