import CheckedMemory.Description
import CheckedMemory.Pointer.Object
import CheckedMemory.Session.Report

/-!
# Reading and writing through names

Element access, motion and comparison for every kind of handle that has them.  Where a handle
kind lacks an operation, the step makes no sense.
-/

namespace CheckedMemory

namespace Step

/-! ## 1. Elements -/

/-- The element `i` of an array, or the object, or nothing. -/
def element? (name : String) (i : Int64) : Step Datum := do
  match ← handle name with
  | .array τ p => reportValue? τ (← act (ArrayLike.get? p i))
  | .object τ p => reportValue? τ (← act p.read?)
  | .boundedObject τ p => reportValue? τ (← act p.read?)
  | _ => misuse

/-- Assigns where there is an element, and says whether there was. -/
def trySetElement (name : String) (i : Int64) (x : Datum) : Step Datum := do
  let done ← match ← handle name with
    | .array τ p => act (ArrayLike.trySet p i (← value τ x))
    | .object τ p => act (p.tryWrite (← value τ x))
    | .boundedObject τ p => act (p.tryWrite (← value τ x))
    | _ => misuse
  return .truth done

/-- The element `i`, which must be there. -/
def element (name : String) (i : Datum) : Step Datum := do
  match ← handle name with
  | .array τ p => reportValue τ (← act (ArrayLike.index p (← orMisuse i.signedWord?)))
  | .fixed τ x => reportValue τ (← act (x.index (← orMisuse i.word?)))
  | .global τ x => reportValue τ (← act (x.index (← orMisuse i.word?)))
  | _ => misuse

/-- Assigns to the element `i`, which must be there. -/
def setElement (name : String) (i x : Datum) : Step Datum := do
  match ← handle name with
  | .array τ p => act (ArrayLike.set p (← orMisuse i.signedWord?) (← value τ x))
  | .fixed τ a => act (a.set (← orMisuse i.word?) (← value τ x))
  | _ => misuse
  return .nothing

/-- The current element or the object, which must be there. -/
def read (name : String) : Step Datum := do
  match ← handle name with
  | .array τ p => reportValue τ (← act (ArrayLike.index p 0))
  | .object τ p => reportValue τ (← act p.read)
  | .boundedObject τ p => reportValue τ (← act p.read)
  | _ => misuse

/-- Assigns to the current element or the object, which must be there. -/
def write (name : String) (x : Datum) : Step Datum := do
  match ← handle name with
  | .array τ p => act (ArrayLike.set p 0 (← value τ x))
  | .object τ p => act (p.write (← value τ x))
  | .boundedObject τ p => act (p.write (← value τ x))
  | _ => misuse
  return .nothing

/-! ## 2. Whole arrays -/

/-- The elements of an array from the current one to the end. -/
def elements (name : String) : Step Datum := do
  let ⟨τ, p⟩ ← array name
  reportValues τ (← act (ArrayLike.toList p))

/-- The elements of a fixed array. -/
def fixedElements (name : String) : Step Datum := do
  let ⟨τ, x⟩ ← fixed name
  reportValues τ (← act x.toList)

/-- The elements of either. -/
def slice (name : String) : Step Datum := do
  match ← handle name with
  | .fixed .. => fixedElements name
  | _ => elements name

/-- Assigns to the front of the rest of an array, and gives the length of the rest. -/
def overwrite (name : String) (xs : Datum) : Step Datum := do
  match ← handle name with
  | .array τ p => return .word (← act (ArrayLike.overwrite p (← values τ xs)))
  | .fixed τ x => return .word (← act (x.overwrite (← values τ xs)))
  | _ => misuse

/-! ## 3. Motion -/

/-- A move of an array pointer of any element type. -/
abbrev Move := {τ : ElemType} → AnyArrayPtr τ → AnyArrayPtr τ

/-- Keeps a moved copy of an array. -/
def moved (dst : Option String) (name : String) (f : Move) : Step Datum := do
  let ⟨τ, p⟩ ← array name
  made dst (.array τ (f p))

/-- Keeps a copy of an array at its first element. -/
def toBegin (dst : Option String) (name : String) : Step Datum := do
  let ⟨τ, p⟩ ← array name
  made dst (.array τ (← act (Operation.ofChecked (ArrayLike.toBegin p))))

/-- Keeps a copy of an array one past its last element. -/
def toEnd (dst : Option String) (name : String) : Step Datum := do
  let ⟨τ, p⟩ ← array name
  made dst (.array τ (← act (Operation.ofChecked (ArrayLike.toEnd p))))

/-- Moves an array itself. -/
def moveInPlace (name : String) (f : Move) : Step Datum := moved (some name) name f

/-- Moves an array itself and keeps its earlier position.  Both positions are shown. -/
def stepInPlace (dst : Option String) (name : String)
    (f : {τ : ElemType} → AnyArrayPtr τ → AnyArrayPtr τ × AnyArrayPtr τ) : Step Datum := do
  let ⟨τ, p⟩ ← array name
  let (was, now) := f p
  let now ← changed name (.array τ now)
  return .record [("was", ← made dst (.array τ was)), ("now", now)]

/-! ## 4. Checks -/

/-- Whether bytes lie in the rest of the array, by either of two routes to the same check. -/
def spatialCheck (name : String) (bytes : UInt64) : Step Datum := do
  let ⟨_, p⟩ ← array name
  let ok := Datum.truth (ArrayLike.spatialCheck p bytes)
  return .list [ok, ok]

def remaining (name : String) : Step Datum := do
  let ⟨_, p⟩ ← array name
  return .word (← check (ArrayLike.remaining p))

/-- The checked address of elements, as a distance from the array's base. -/
def requireSpan (name : String) (count : UInt64) : Step Datum := do
  let ⟨_, p⟩ ← array name
  let a ← check (ArrayLike.requireSpan p count)
  return .number (a - ArrayLike.base p).toInt64.toInt

/-! ## 5. What a handle says of itself -/

def info (name : String) : Step Datum := do
  let h ← handle name
  let s ← get
  return .record (s.handleParts h ++ (← orMisuse (Session.selfParts? h)))

/-- The written form of a handle. -/
def describe (address : Address → String) (name : String) : Step Datum := do
  match ← handle name with
  | .array _ (.plain p) => return .text (p.describe address)
  | .array _ (.bounded p) => return .text (p.describe address)
  | .object _ p => return .text (p.describe address)
  | .boundedObject _ p => return .text (p.describe address)
  | .matrix _ m => return .text (m.describe address)
  | .void p => return .text (p.describe address)
  | .fixed _ x => return .text (← act x.describe)
  | .global _ x => return .text (x.describe address)
  | _ => misuse

/-- The written form of the address at which a plain pointer is itself kept.  Handles are kept in
the current frame, so it is never null. -/
def describeLocation (address : Address → String) (name : String) : Step Datum := do
  match ← handle name with
  | .array _ (.plain _) | .object .. => return .text (address (← frames).pointer)
  | _ => misuse

/-! ## 6. Comparison -/

/-- Equality by address.  Equal pointers have equal hashes, as the address is all that is
hashed. -/
def equality (a b : Address) : List (String × Datum) :=
  [("eq", .truth (a == b)), ("hash_eq", .truth (a == b))]

/-- The order of two addresses, which is total. -/
def ordering (a b : Address) : List (String × Datum) :=
  [("cmp", .order (compare a b)), ("partial_cmp", .order (compare a b))]

def difference (d : Int64) : List (String × Datum) := [("diff", .number d.toInt)]

def compareArrays {τ : ElemType} (p q : AnyArrayPtr τ) : Step Datum := do
  let s ← get
  let a := ArrayLike.address p
  let b := ArrayLike.address q
  return .record <| equality a b ++
    if s.sameStorage p.span q.span then ordering a b ++ difference (ArrayLike.distance p q) else []

/-- Compares two handles of one kind and type, or a stack-scoped with a plain object pointer.
Order and difference are told only within one storage, where they mean something. -/
def compareHandles (name other : String) : Step Datum := do
  let s ← get
  let together := fun (a b : Address) => s.sameStorage ⟨a, 0, 0⟩ ⟨b, 0, 0⟩
  match ← handle name, ← handle other with
  | .array τ p, .array σ q =>
    demand (p.bound?.isSome == q.bound?.isSome)
    if h : σ = τ then compareArrays p (h ▸ q) else misuse
  | .object τ p, .object σ q =>
    if h : σ = τ then
      return .record <| equality p.address q.address ++
        if together p.address q.address then
          ordering p.address q.address ++ difference (p.distance (h ▸ q))
        else []
    else misuse
  | .boundedObject τ p, .boundedObject σ q =>
    if h : σ = τ then
      return .record <| equality p.address q.address ++
        if together p.address q.address then difference (p.distance (h ▸ q)) else []
    else misuse
  | .boundedObject τ p, .object σ q =>
    demand (τ == σ)
    return .record [("eq", .truth (p.address == q.address))]
  | .matrix τ m, .matrix σ n =>
    demand (τ == σ)
    return .record [("eq", .truth (m.base == n.base))]
  | .fixed τ x, .fixed σ y =>
    if h : σ = τ then return .record [("eq", .truth (← act (x.same (h ▸ y))))] else misuse
  | _, _ => misuse

end Step

end CheckedMemory
