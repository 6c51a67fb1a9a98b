import CheckedMemory.World

/-!
# Array pointers

Motion, element access and whole-array access, once for both array pointer kinds.  Moving never
fails and keeps everything but the index; every access asks the span first, and only then touches
memory, so a refused access changes nothing.
-/

namespace CheckedMemory

namespace ArrayLike

open Operation

variable {P : ElemType → Type} [ArrayLike P] {τ : ElemType}

/-! ## 1. Motion -/

def base (p : P τ) : Address := (span p).base

def isNull (p : P τ) : Bool := (span p).isNull

/-- The address of the current element. -/
def address (p : P τ) : Address := (span p).address τ.size

/-- The pointer `d` elements further on. -/
def offset (p : P τ) (d : Int64) : P τ := withSpan p ((span p).shift d)

/-- The pointer `d` elements back: `d` is negated first, and that wraps. -/
def back (p : P τ) (d : Int64) : P τ := offset p (-d)

def increment (p : P τ) : P τ := offset p 1

def decrement (p : P τ) : P τ := offset p (-1)

/-- The position before a step forward, and the one after. -/
def postIncrement (p : P τ) : P τ × P τ := (offset p 0, increment p)

/-- The position before a step back, and the one after. -/
def postDecrement (p : P τ) : P τ × P τ := (offset p 0, decrement p)

/-- The first element. -/
def toBegin (p : P τ) : Checked (P τ) := (span p).toBegin.map (withSpan p)

/-- One past the last element. -/
def toEnd (p : P τ) : Checked (P τ) := (span p).toEnd.map (withSpan p)

/-! ## 2. Checks -/

/-- The address of the element `i` from the current one. -/
def locate (p : P τ) (i : Int64) : Except Violation Address := (span p).locate τ.size i

/-- The address of the first of `count` elements, all of them checked. -/
def requireSpan (p : P τ) (count : UInt64) : Except Violation Address :=
  (span p).window τ.size count

def remaining (p : P τ) : Except Violation UInt64 := (span p).remaining

/-- Whether `bytes` bytes from the current element on are inside the array. -/
def spatialCheck (p : P τ) (bytes : UInt64) : Bool := (span p).admitsBytes τ.size bytes

/-! ## 3. Elements -/

/-- The element `i` from the current one. -/
def index (p : P τ) (i : Int64) : Operation τ.Carrier := do
  loadValue τ (← check (locate p i))

/-- The element `i` from the current one, or nothing where there is none. -/
def get? (p : P τ) (i : Int64) : Operation (Option τ.Carrier) :=
  match locate p i with
  | .ok a => some <$> loadValue τ a
  | .error _ => pure none

/-- Assigns to the element `i` from the current one. -/
def set (p : P τ) (i : Int64) (x : τ.Carrier) : Operation Unit := do
  assign τ (← check (locate p i)) x

/-- Assigns to the element `i` from the current one, if there is one, and says so. -/
def trySet (p : P τ) (i : Int64) (x : τ.Carrier) : Operation Bool :=
  match locate p i with
  | .ok a => do assign τ a x; return true
  | .error _ => pure false

/-! ## 4. The rest of the array -/

/-- The address and number of the elements from the current one to the end. -/
def rest (p : P τ) : Except Violation (Address × UInt64) := do
  let count ← remaining p
  let a ← requireSpan p count
  return (a, count)

/-- The elements from the current one to the end, in runs. -/
def elements (p : P τ) : Operation (Runs τ.Carrier) := do
  let (a, count) ← check (rest p)
  loadValues τ a count.toNat

/-- The elements from the current one to the end. -/
def toList (p : P τ) : Operation (List τ.Carrier) := return (← elements p).toList

/-- Assigns to the front of the rest of the array, as far as both go, and gives its length. -/
def overwrite (p : P τ) (xs : List τ.Carrier) : Operation UInt64 := do
  let (a, count) ← check (rest p)
  assignAll τ a (.ofList (xs.take count.toNat))
  return count

/-! ## 5. Comparison

Pointers compare by the address of their current element. -/

def sameAddress (p q : P τ) : Bool := address p == address q

def compareAddress (p q : P τ) : Ordering := compare (address p) (address q)

/-- How many elements `p` is after `q`. -/
def distance (p q : P τ) : Int64 := (span p).distance (span q) τ.size

end ArrayLike

end CheckedMemory
