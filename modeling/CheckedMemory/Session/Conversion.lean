import CheckedMemory.Heap.Release
import CheckedMemory.Pointer.Cast
import CheckedMemory.Pointer.Object
import CheckedMemory.Session.Report

/-!
# Converting and releasing through names

One pointer from another: other kinds, other element types, other frames.  Releasing and
assigning change the named handle itself; everything else keeps a new one.
-/

namespace CheckedMemory

namespace Step

variable (dst : Option String) (name : String)

/-! ## 1. Off the stack -/

/-- The current element of an array as an object. -/
def toObject : Step Datum := do
  let ⟨τ, p⟩ ← plainArray name
  made dst (.object τ (← check p.toPtr))

/-- An object as an array of one element. -/
def toArray : Step Datum := do
  let ⟨τ, p⟩ ← object name
  made dst (.array τ (.plain (.ofPtr p)))

/-- A copy of a handle that may be copied as it is. -/
def duplicate : Step Datum := do
  match ← handle name with
  | .object τ p => made dst (.object τ p)
  | .array τ (.plain p) => made dst (.array τ (.plain p))
  | .matrix τ m => made dst (.matrix τ m)
  | _ => misuse

/-- An object pointer made again from its address. -/
def objectAgain : Step Datum := do
  let ⟨τ, p⟩ ← object name
  made dst (.object τ p)

/-- An array of `extent` elements from the current one on. -/
def arrayFromHere (extent : UInt64) : Step Datum := do
  let ⟨τ, p⟩ ← plainArray name
  made dst (.array τ (.plain (.ofBase (ArrayLike.address p) extent)))

/-- Another span over the same base. -/
def arrayAt (extent : UInt64) (index : Int64) : Step Datum := do
  let ⟨τ, p⟩ ← plainArray name
  made dst (.array τ (.plain ⟨⟨p.span.base, index, extent⟩⟩))

/-- An object pointer with its type forgotten. -/
def erase : Step Datum := do
  let ⟨_, p⟩ ← object name
  made dst (.void p.erase)

/-! ## 2. Element types -/

def downcast (σ : ElemType) : Step Datum := do
  let table ← heap
  match ← handle name with
  | .object _ p => made dst (.object σ (p.downcast table σ))
  | .void p => made dst (.object σ (p.downcast table σ))
  | .array _ (.plain p) => made dst (.array σ (.plain (p.downcast table σ)))
  | _ => misuse

/-- Views plain values as other plain values. -/
def reinterpret (σ : ElemType) : Step Datum := do
  let h ← handle name
  demand (h.elemType?.any (·.isPlain) && σ.isPlain)
  match h with
  | .object _ p => made dst (.object σ (← check (p.reinterpret σ)))
  | .array _ (.plain p) => made dst (.array σ (.plain (← check (p.reinterpret σ))))
  | .array _ (.bounded p) => made dst (.array σ (.bounded (← check (p.reinterpret σ))))
  | _ => misuse

/-! ## 3. Stack-scoped -/

/-- A plain pointer as a stack-scoped one. -/
def toStack : Step Datum := do
  match ← handle name with
  | .object τ p => made dst (.boundedObject τ (.ofPtr (← frames) p))
  | .array τ (.plain p) => made dst (.array τ (.bounded (.ofArrayPtr (← frames) p)))
  | _ => misuse

/-- A stack-scoped array as a plain one. -/
def arrayOffStack : Step Datum := do
  match ← handle name with
  | .array τ (.bounded p) => made dst (.array τ (.plain (← check (ArrayPtr.ofStack p))))
  | _ => misuse

/-- A stack-scoped pointer of either kind as a plain one. -/
def offStack : Step Datum := do
  match ← handle name with
  | .boundedObject τ p => made dst (.object τ (← check (Ptr.ofStack p)))
  | _ => arrayOffStack dst name

/-- The current element of a stack-scoped array as a stack-scoped object. -/
def toStackObject : Step Datum := do
  match ← handle name with
  | .array τ (.bounded p) => made dst (.boundedObject τ (← check p.toStackPtr))
  | _ => misuse

/-- A stack-scoped pointer to the same data, bound to the current frame. -/
def clone : Step Datum := do
  match ← handle name with
  | .boundedObject τ p => made dst (.boundedObject τ (p.clone (← frames)))
  | .array τ (.bounded p) => made dst (.array τ (.bounded (p.clone (← frames))))
  | _ => misuse

/-- A stack-scoped array over the same base and extent, made again from its parts. -/
def stackArrayAt (index : Int64) : Step Datum := do
  let ⟨τ, p⟩ ← array name
  made dst (.array τ (.bounded (.ofParts (← frames) p.span.base p.span.extent index)))

/-- A stack-scoped pointer to an element. -/
def pointToElement (i : Int64) : Step Datum := do
  let (τ, a) ← elementOf (← handle name) i
  made dst (.boundedObject τ (.ofAddress (← frames) a))

/-! ## 4. Changing a handle -/

/-- Releases what a handle refers to. -/
def free : Step Datum := do
  match ← handle name with
  | .object τ p => changed name (.object τ (← act p.free))
  | .array τ (.plain p) => changed name (.array τ (.plain (← act p.free)))
  | .matrix τ m => changed name (.matrix τ (← act m.free))
  | .tailed h t p => changed name (.tailed h t (← act p.free))
  | _ => misuse

/-- Vouches for the data of a stack-scoped array as global. -/
def setAsGlobal : Step Datum := do
  match ← handle name with
  | .array τ (.bounded p) => changed name (.array τ (.bounded p.setAsGlobal))
  | _ => misuse

/-- Takes over the referent of another stack-scoped pointer of the same kind and type. -/
def assign (other : String) : Step Datum := do
  match ← handle name, ← handle other with
  | .boundedObject τ p, .boundedObject σ q =>
    if h : σ = τ then changed name (.boundedObject τ (← check (p.assign (h ▸ q)))) else misuse
  | .array τ (.bounded p), .array σ (.bounded q) =>
    if h : σ = τ then changed name (.array τ (.bounded (← check (p.assign (h ▸ q))))) else misuse
  | _, _ => misuse

/-- Takes over an element. -/
def pointTo (source : String) (i : Int64) : Step Datum := do
  match ← handle name with
  | .boundedObject τ p =>
    let a ← elementAt τ (← handle source) i
    changed name (.boundedObject τ (← check (p.pointTo a)))
  | _ => misuse

/-- Whether an element, or null where none is named, may be taken over; for an array also whether
it is off the stack. -/
def canAccept (source : Option String) (i : Int64) : Step Datum := do
  let address := fun τ => do
    match source with
    | some s => elementAt τ (← handle s) i
    | none => return 0
  match ← handle name with
  | .boundedObject τ p => return .truth (p.canAccept (← address τ))
  | .array τ (.bounded p) =>
    let a ← address τ
    return .list [.truth (p.canAccept a), .truth (StackArrayPtr.dataOffStack a)]
  | _ => misuse

end Step

end CheckedMemory
