import CheckedMemory.Word

/-!
# Violations and faults

A checked operation either succeeds or stops with a `Fault`.  Nearly every fault is a
`Violation`: a check of this library that said no.  The others are broken preconditions of two
constructors, signed arithmetic that left the word, a system without room, and `wild`, an access
outside every storage area.  A handle with memory behind its whole extent meets a wild access only
in a byte operation on elements without bytes, where every byte counts as one element.

A violation has three written forms: its `kind`, one sentence (`message`), and a record
(`record`) for machines.  The sentence takes the way an address is written as a parameter, since
addresses differ from run to run and readers of logs often want them masked.
-/

namespace CheckedMemory

/-! ## 1. Causes -/

/-- What a failed check found. -/
inductive Violation where
  /-- An element was asked of a null pointer. -/
  | nullDereference
  /-- An element was asked at `index`, outside `[0, extent)`. -/
  | outOfBounds (index : Int64) (extent : UInt64)
  /-- `count` elements were asked from `index` on, and they do not all lie in `[0, extent)`. -/
  | spanOutOfBounds (index : Int64) (count extent : UInt64)
  /-- A stack address below the frame that the receiving pointer is bound to. -/
  | stackEscape (bound address : Address)
  /-- A pointer to stack data was converted to a kind that must not hold any. -/
  | heapOnly (address : Address)
  /-- A request too large for any layout; the size is clamped to the word. -/
  | allocationFailure (size align : UInt64)
  /-- An alignment that is not a power of two. -/
  | invalidAlignment (align : UInt64)
  /-- Memory viewed as a type whose alignment it does not have. -/
  | misaligned (address : Address) (align : UInt64)
  /-- A release of something that is not the start of a live block. -/
  | invalidFree (address : Address)
  /-- A copy that forbids overlap was given overlapping ranges. -/
  | overlappingCopy
  /-- No terminator among the bytes up to the end of the array. -/
  | unterminated (extent : UInt64)
deriving DecidableEq, Repr

/-- Signed or unsigned arithmetic whose exact result does not fit the word. -/
inductive Overflow where
  | negation
  | subtraction
  | multiplication
deriving DecidableEq, Repr

/-- Why a checked operation stopped. -/
inductive Fault where
  | violation (v : Violation)
  | overflow (o : Overflow)
  /-- A matrix needs a positive extent in both directions. -/
  | emptyMatrix (x y : UInt64)
  /-- A record with a variable tail needs at least one tail element. -/
  | emptyTail
  /-- Neither the system allocator nor the stack has room for what was asked. -/
  | exhausted
  /-- An access of `size` bytes that lies in no storage area. -/
  | wild (address : Address) (size : Nat)
deriving DecidableEq, Repr

/-! ## 2. Written forms -/

namespace Violation

/-- The stable short name of the cause. -/
def kind : Violation → String
  | nullDereference => "null dereference"
  | outOfBounds .. => "out of bounds"
  | spanOutOfBounds .. => "span out of bounds"
  | stackEscape .. => "stack escape"
  | heapOnly .. => "heap-only conversion"
  | allocationFailure .. => "allocation failure"
  | invalidAlignment .. => "invalid alignment"
  | misaligned .. => "misaligned reinterpretation"
  | invalidFree .. => "invalid free"
  | overlappingCopy => "overlapping copy"
  | unterminated .. => "unterminated string"

/-- What the sentence says after the kind, with addresses written by `address`. -/
def detail (address : Address → String) : Violation → String
  | nullDereference | overlappingCopy => ""
  | outOfBounds i n => s!": index {i} outside extent {n}"
  | spanOutOfBounds i c n => s!": {c} elements at index {i} exceed extent {n}"
  | stackEscape b a => s!": address {address a} is deeper than bound {address b}"
  | heapOnly a => s!": address {address a} is on the stack"
  | allocationFailure s a => s!": {s} bytes aligned to {a}"
  | invalidAlignment a => s!": {a} is not a power of two"
  | misaligned p a => s!": {address p} is not aligned to {a}"
  | invalidFree a => s!": {address a} is not a live allocation"
  | unterminated n => s!": no terminator within {n} bytes"

/-- One sentence, which leads with the kind. -/
def message (v : Violation) (address : Address → String) : String :=
  v.kind ++ v.detail address

/-- The name of the cause in a record: one word, underscores for blanks. -/
def tag : Violation → String
  | nullDereference => "null_dereference"
  | outOfBounds .. => "out_of_bounds"
  | spanOutOfBounds .. => "span_out_of_bounds"
  | stackEscape .. => "stack_escape"
  | heapOnly .. => "heap_only"
  | allocationFailure .. => "allocation_failure"
  | invalidAlignment .. => "invalid_alignment"
  | misaligned .. => "misaligned"
  | invalidFree .. => "invalid_free"
  | overlappingCopy => "overlapping_copy"
  | unterminated .. => "unterminated"

/-- The numbers of the cause with their names, in the order of the record. -/
def fields : Violation → List (String × Int)
  | nullDereference | overlappingCopy => []
  | outOfBounds i n => [("index", i.toInt), ("extent", n.toNat)]
  | spanOutOfBounds i c n => [("index", i.toInt), ("count", c.toNat), ("extent", n.toNat)]
  | stackEscape b a => [("bound", b.toNat), ("address", a.toNat)]
  | heapOnly a => [("address", a.toNat)]
  | allocationFailure s a => [("size", s.toNat), ("align", a.toNat)]
  | invalidAlignment a => [("align", a.toNat)]
  | misaligned p a => [("address", p.toNat), ("align", a.toNat)]
  | invalidFree a => [("address", a.toNat)]
  | unterminated n => [("extent", n.toNat)]

/-- A compact record: the tag first, then the numbers. -/
def record (v : Violation) : String :=
  let number := fun (name, n) => ",\"" ++ name ++ "\":" ++ toString (n : Int)
  "\x7b\"kind\":\"" ++ v.tag ++ "\"" ++ String.join (v.fields.map number) ++ "\x7d"

end Violation

namespace Overflow

def verb : Overflow → String
  | negation => "negate"
  | subtraction => "subtract"
  | multiplication => "multiply"

end Overflow

namespace Fault

/-- One sentence for any fault. -/
def message (f : Fault) (address : Address → String) : String :=
  match f with
  | violation v => v.message address
  | overflow o => s!"attempt to {o.verb} with overflow"
  | emptyMatrix x y => s!"matrix extents must be non-zero, got {x}x{y}"
  | emptyTail => "variable tail must have at least one element"
  | exhausted => "out of memory"
  | wild a n => s!"wild access: {n} bytes at {address a}"

end Fault

/-! ## 3. Stopping at a failed check -/

/-- A result that stops at a fault. -/
abbrev Checked (α : Type) := Except Fault α

end CheckedMemory
