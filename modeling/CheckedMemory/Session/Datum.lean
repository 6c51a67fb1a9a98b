import CheckedMemory.Numeral.Integer

/-!
# Plain data

What goes into the steps of a session and what comes out of them: numbers, texts, lists and
records of such.  Reading is strict: a number must be in the range asked for, and a part that is
there but says nothing counts as absent.
-/

namespace CheckedMemory

/-- Plain data. -/
inductive Datum where
  | nothing
  | truth (b : Bool)
  | number (n : Int)
  | text (s : String)
  | list (xs : List Datum)
  | record (parts : List (String × Datum))

namespace Datum

instance : Inhabited Datum := ⟨nothing⟩

variable {α : Type}

/-! ## 1. Writing -/

def natural (n : Nat) : Datum := number n

def word (n : UInt64) : Datum := natural n.toNat

def bytes (bs : List UInt8) : Datum := list (bs.map fun b => natural b.toNat)

/-- An order as a number: minus one, zero or one. -/
def order : Ordering → Datum
  | .lt => number (-1)
  | .eq => number 0
  | .gt => number 1

def optional (f : α → Datum) : Option α → Datum
  | some x => f x
  | none => nothing

/-! ## 2. Reading -/

/-- The part of a record under a name. -/
def part? (name : String) : Datum → Option Datum
  | record parts =>
    match parts.lookup name with
    | some nothing => none
    | p => p
  | _ => none

/-- A number in a range. -/
def numberIn? (range : Numeral.Range) : Datum → Option Int
  | number n => if range.contains n then some n else none
  | _ => none

/-- A number of `n` bits without a sign. -/
def natural? (n : Nat) (x : Datum) : Option Nat := (x.numberIn? (.unsigned n)).map Int.toNat

/-- A number of `n` bits in two's complement. -/
def integer? (n : Nat) (x : Datum) : Option Int := x.numberIn? (.twosComplement n)

def word? (x : Datum) : Option UInt64 := (x.natural? 64).map UInt64.ofNat

def signedWord? (x : Datum) : Option Int64 := (x.integer? 64).map Int64.ofInt

def byte? (x : Datum) : Option UInt8 := (x.natural? 8).map UInt8.ofNat

def text? : Datum → Option String
  | text s => some s
  | _ => none

def list? : Datum → Option (List Datum)
  | list xs => some xs
  | _ => none

/-- Whether a part is there and true. -/
def flag (name : String) (x : Datum) : Bool :=
  match x.part? name with
  | some (truth b) => b
  | _ => false

end Datum

end CheckedMemory
