import CheckedMemory.World

/-!
# Object pointers

Access through pointers to one object.  The only check is against null; that the object is there
is what the pointer's making guarantees.
-/

namespace CheckedMemory

namespace Operation

variable {τ : ElemType}

/-! ## 1. Access by address -/

/-- The address, which must not be null. -/
def notNull (a : Address) : Except Violation Address :=
  if a = 0 then .error .nullDereference else .ok a

/-- The object at an address. -/
def readObject (τ : ElemType) (a : Address) : Operation τ.Carrier := do
  loadValue τ (← check (notNull a))

/-- The object at an address, or nothing at null. -/
def readObject? (τ : ElemType) (a : Address) : Operation (Option τ.Carrier) :=
  if a = 0 then pure none else some <$> loadValue τ a

/-- Assigns to the object at an address. -/
def writeObject (a : Address) (x : τ.Carrier) : Operation Unit := do
  assign τ (← check (notNull a)) x

/-- Assigns to the object at an address, unless it is null, and says so. -/
def tryWriteObject (a : Address) (x : τ.Carrier) : Operation Bool :=
  if a = 0 then pure false else do assign τ a x; return true

/-- How many objects `p` is after `q`.  Objects without bytes count as one byte apart. -/
def objectDistance (τ : ElemType) (p q : Address) : Int64 :=
  (p.toInt64 - q.toInt64) / (max τ.size 1).toInt64

end Operation

/-! ## 2. The two kinds -/

variable {τ : ElemType}

namespace Ptr

def read (p : Ptr τ) : Operation τ.Carrier := Operation.readObject τ p.address

def read? (p : Ptr τ) : Operation (Option τ.Carrier) := Operation.readObject? τ p.address

def write (p : Ptr τ) (x : τ.Carrier) : Operation Unit := Operation.writeObject p.address x

def tryWrite (p : Ptr τ) (x : τ.Carrier) : Operation Bool := Operation.tryWriteObject p.address x

def distance (p q : Ptr τ) : Int64 := Operation.objectDistance τ p.address q.address

/-- The same address with its type forgotten. -/
def erase (p : Ptr τ) : VoidPtr := ⟨p.address⟩

end Ptr

namespace StackPtr

def read (p : StackPtr τ) : Operation τ.Carrier := Operation.readObject τ p.address

def read? (p : StackPtr τ) : Operation (Option τ.Carrier) := Operation.readObject? τ p.address

def write (p : StackPtr τ) (x : τ.Carrier) : Operation Unit := Operation.writeObject p.address x

def tryWrite (p : StackPtr τ) (x : τ.Carrier) : Operation Bool := Operation.tryWriteObject p.address x

def distance (p q : StackPtr τ) : Int64 := Operation.objectDistance τ p.address q.address

end StackPtr

end CheckedMemory
