import CheckedMemory.Session.Report

/-!
# Aggregates through names

Matrices, records with a tail, fixed and global arrays, and bulk operations on arrays of any
kind.
-/

namespace CheckedMemory

namespace Step

variable (dst : Option String) (name : String)

/-! ## 1. Matrices -/

def cell? (x y : UInt64) : Step Datum := do
  let ⟨τ, m⟩ ← matrix name
  reportValue? τ (← act (m.get? x y))

def cell (x y : UInt64) : Step Datum := do
  let ⟨τ, m⟩ ← matrix name
  reportValue τ (← act (m.index x y))

def trySetCell (x y : UInt64) (v : Datum) : Step Datum := do
  let ⟨τ, m⟩ ← matrix name
  return .truth (← act (m.trySet x y (← value τ v)))

def setCell (x y : UInt64) (v : Datum) : Step Datum := do
  let ⟨τ, m⟩ ← matrix name
  act (m.set x y (← value τ v))
  return .nothing

def matrixArray : Step Datum := do
  let ⟨τ, m⟩ ← matrix name
  made dst (.array τ (.plain m.toArrayPtr))

/-! ## 2. Records with a tail -/

/-- The record under a name, with its types. -/
def tailed : Step ((h : ElemType) × (t : ElemType) × TailedPtr h t) := do
  match ← handle name with
  | .tailed h t p => return ⟨h, t, p⟩
  | _ => misuse

def head : Step Datum := do
  let ⟨h, _, p⟩ ← tailed name
  reportValue h (← act p.head)

def setHead (x : Datum) : Step Datum := do
  let ⟨h, _, p⟩ ← tailed name
  act (p.setHead (← value h x))
  return .nothing

def tailLength : Step Datum := do
  let ⟨_, _, p⟩ ← tailed name
  return .word (← act p.tailLength)

def tail : Step Datum := do
  let ⟨_, t, p⟩ ← tailed name
  made dst (.array t (.plain (← act p.tail)))

/-! ## 3. Fixed and global arrays -/

/-- A fixed array as a plain array. -/
def fixedArray : Step Datum := do
  let ⟨τ, x⟩ ← fixed name
  made dst (.array τ (.plain (← check x.toArrayPtr)))

/-- A fixed array as a plain array at an element. -/
def fixedArrayAt (i : UInt64) : Step Datum := do
  let ⟨τ, x⟩ ← fixed name
  made dst (.array τ (.plain (← check (x.offsetArrayPtr i))))

/-- A fixed array as a stack-scoped array. -/
def fixedStackArray : Step Datum := do
  let ⟨τ, x⟩ ← fixed name
  made dst (.array τ (.bounded (x.toStackArrayPtr (← frames))))

/-- A fixed array as a stack-scoped array at an element. -/
def fixedStackArrayAt (i : UInt64) : Step Datum := do
  let ⟨τ, x⟩ ← fixed name
  made dst (.array τ (.bounded (← check (x.offset (← frames) i))))

def globalArray : Step Datum := do
  let ⟨τ, x⟩ ← global name
  made dst (.array τ (.plain x.toArrayPtr))

def globalArrayAt (i : UInt64) : Step Datum := do
  let ⟨τ, x⟩ ← global name
  made dst (.array τ (.plain (← check (x.offset i))))

/-- Sets every element of a fixed or global array to zero. -/
def zeroAll : Step Datum := do
  match ← handle name with
  | .fixed τ x =>
    demand τ.hasZero
    act x.zero
  | .global τ x =>
    demand τ.hasZero
    act x.zero
  | _ => misuse
  return .nothing

/-! ## 4. Bulk operations -/

def zero (count : UInt64) : Step Datum := do
  let ⟨τ, p⟩ ← array name
  demand τ.hasZero
  act (Bulk.zero p count)
  return .nothing

def fill (x : Datum) (count : UInt64) : Step Datum := do
  let ⟨τ, p⟩ ← array name
  act (Bulk.fill p (← value τ x) count)
  return .nothing

def memset (b : UInt8) (bytes : UInt64) : Step Datum := do
  let ⟨τ, p⟩ ← array name
  demand τ.isPlain
  act (Bulk.memset p b bytes)
  return .nothing

/-- An operation on two arrays of one element type. -/
abbrev Pairwise (α : Type) := {τ : ElemType} → AnyArrayPtr τ → AnyArrayPtr τ → Operation α

/-- Runs an operation on two arrays of one element type of a class. -/
def onPair {α : Type} (source : String) (inClass : ElemType → Bool) (f : Pairwise α) : Step α := do
  let ⟨τ, p⟩ ← array name
  let q ← arrayOf τ source
  demand (inClass τ)
  act (f p q)

/-- The transfers between two arrays. -/
inductive Transfer where
  /-- Elements, not overlapping. -/
  | copy
  /-- Elements, overlapping or not. -/
  | cloneInto
  /-- The cells of elements. -/
  | copyTrivial
  /-- Bytes, not overlapping. -/
  | memcpy
  /-- Bytes, overlapping or not. -/
  | memmove

/-- Transfers elements or bytes. -/
def transfer (kind : Transfer) (source : String) (n : UInt64) : Step Datum := do
  match kind with
  | .copy => onPair name source (fun _ => true) fun p q => Bulk.copy p q n
  | .cloneInto => onPair name source (fun _ => true) fun p q => Bulk.cloneInto p q n
  | .copyTrivial => onPair name source (·.isCopy) fun p q => Bulk.copyTrivial p q n
  | .memcpy => onPair name source (·.isPlain) fun p q => Bulk.memcpy p q n
  | .memmove => onPair name source (·.isPlain) fun p q => Bulk.memmove p q n
  return .nothing

def memcmp (source : String) (bytes : UInt64) : Step Datum :=
  return .order (← onPair name source (·.isPlain) fun p q => Bulk.memcmp p q bytes)

end Step

end CheckedMemory
