import CheckedMemory.Session.Step

/-!
# Reports

How a session shows handles and values as plain data.  Addresses appear as places only.  An array
is shown by the place of its current element, its index and its extent; stack-scoped pointers also
say whether their data is on the stack and to which depth of frame they are bound.
-/

namespace CheckedMemory

/-! ## 1. Numbers -/

/-- The bits of a number in hexadecimal, all sixteen digits. -/
def Binary64.bitText (x : Binary64) : String :=
  let ds := Nat.toDigits 16 x.bits.toNat
  "0x" ++ String.ofList (List.replicate (16 - ds.length) '0' ++ ds)

namespace Session

/-! ## 2. Handles -/

def placeParts (p : Place) : List (String × Datum) :=
  [("block", .optional .natural p.block), ("byte", .number p.byte.toInt)]

/-- An address by its place. -/
def showAddress (s : Session) (a : Address) : Datum := .record (placeParts (s.place a))

def spanParts (s : Session) (τ : ElemType) (p : Span) : List (String × Datum) :=
  placeParts (s.placeOfSpan τ.size p) ++
    [("index", .number p.index.toInt), ("size", .word p.extent)]

/-- A span by its place, index and extent. -/
def showSpan (s : Session) (τ : ElemType) (p : Span) : Datum := .record (s.spanParts τ p)

def boundParts (b : TemporalBound) : List (String × Datum) :=
  [("stack", .truth !b.offStack), ("bound", .natural (Frames.depthOf b.frame))]

/-- The parts by which a handle is shown. -/
def handleParts (s : Session) : Handle → List (String × Datum)
  | .object _ p => placeParts (s.place p.address)
  | .boundedObject _ p => placeParts (s.place p.address) ++ boundParts p.bound
  | .array τ p => s.spanParts τ p.span ++ (p.bound?.map boundParts).getD []
  | .matrix _ m =>
    placeParts (s.place m.base) ++
      [("x", .word m.xExtent), ("y", .word m.yExtent), ("len", .word m.size),
        ("empty", .truth (m.size == 0)), ("null", .truth m.isNull)]
  | .tailed _ _ p => placeParts (s.place p.address)
  | .void p => placeParts (s.place p.address)
  | .fixed _ x => placeParts (s.place x.base) ++ [("len", .word x.length)]
  | .global _ x => [("len", .word x.length)]
  | .stream f => [("null", .truth f.isNull)]
  | .tokenizer _ => []
  | .marks m =>
    [("len", .natural m.size), ("empty", .truth m.isEmpty),
      ("marked", .list ((s.marked m).map .natural)),
      ("unreachable", .list ((s.unreachable m).map .natural))]

def showHandle (s : Session) (h : Handle) : Datum := .record (s.handleParts h)

/-- What a handle knows of itself beyond the parts by which it is shown, for those that do. -/
def selfParts? : Handle → Option (List (String × Datum))
  | .array _ p => some [("null", .truth (ArrayLike.isNull p)), ("raw_agrees", .truth true)]
  | .object _ p => some [("null", .truth p.isNull), ("raw_agrees", .truth true)]
  | .boundedObject _ p => some [("null", .truth p.isNull), ("raw_agrees", .truth true)]
  | .fixed _ x => some [("empty", .truth (x.length == 0)), ("not_on_stack", .truth x.offStack)]
  | .global _ x => some [("empty", .truth (x.length == 0))]
  | .matrix .. | .tailed .. => some []
  | _ => none

/-! ## 3. Values -/

/-- A value of an element type. -/
def showValue (s : Session) : (τ : ElemType) → τ.Carrier → Datum
  | .uint8, (x : UInt8) => .natural x.toNat
  | .uint16, (x : UInt16) => .natural x.toNat
  | .uint32, (x : UInt32) => .natural x.toNat
  | .uint64, (x : UInt64) => .word x
  | .int16, (x : Int16) => .number x.toInt
  | .int32, (x : Int32) => .number x.toInt
  | .int64, (x : Int64) => .number x.toInt
  | .binary64, (x : Binary64) => .text x.bitText
  | .header, (x : Header) => .list [.natural x.tag.toNat, .natural x.length.toNat]
  | .rgb, (x : Rgb) => .bytes [x.red, x.green, x.blue]
  | .unit, _ => .text "()"
  | .plain _, (x : Bytes _) => .bytes x.toList
  | .text, (x : String) => .text x
  | .resource, (x : Resource) => .number x.number.toInt
  | .pointer _, p => s.showAddress p.address
  | .arrayPointer τ, p => s.showSpan τ p.span
  | .node, (x : Node) =>
    .record [("id", .natural x.id.toNat), ("next", s.showAddress x.next.address),
      ("items", s.showSpan .uint64 x.items.span),
      ("extra", .optional (fun p : Ptr .node => s.showAddress p.address) x.extra),
      ("grid", s.showAddress x.grid.base),
      ("kids", .list (x.kids.map fun p => s.showAddress p.address))]

/-! ## 4. Values from data -/

/-- The bits of a number in hexadecimal, all sixteen digits. -/
def bitsOf? (s : String) : Option Binary64 := do
  let ds ← Numeral.afterWord? "0x" s.toUTF8.toList
  if ds.length = 16 ∧ Numeral.rest 16 ds = [] then
    some ⟨UInt64.ofNat (Numeral.value 16 ds)⟩
  else none

/-- What a name stands for, or a null pointer where there is no name. -/
def named? {α : Type} (s : Session) (null : α) (read : Handle → Option α) : Datum → Option α
  | .nothing => some null
  | .text name => (s.handle? name).bind read
  | _ => none

def object? (s : Session) (τ : ElemType) : Datum → Option (Ptr τ) := s.named? .null (·.objectOf? τ)

def plainArray? (s : Session) (τ : ElemType) : Datum → Option (ArrayPtr τ) :=
  s.named? .null (·.plainArrayOf? τ)

/-- A node: parts left out are null or empty. -/
def node? (s : Session) (x : Datum) : Option Node := do
  let part := fun name => (x.part? name).getD .nothing
  let id ← (← x.part? "id").natural? 32
  let next ← s.object? .node (part "next")
  let items ← s.plainArray? .uint64 (part "items")
  let extra ← match x.part? "extra" with
    | some p => (s.object? .node p).map some
    | none => some none
  let grid ← s.named? .null (·.matrixOf? .uint32) (part "grid")
  let kids ← match x.part? "kids" with
    | some k => (← k.list?).mapM (s.object? .node)
    | none => some []
  return ⟨UInt32.ofNat id, next, items, extra, grid, kids⟩

/-- The value of an element type that a datum denotes. -/
def value? (s : Session) : (τ : ElemType) → Datum → Option τ.Carrier
  | .uint8, x => (x.natural? 8).map UInt8.ofNat
  | .uint16, x => (x.natural? 16).map UInt16.ofNat
  | .uint32, x => (x.natural? 32).map UInt32.ofNat
  | .uint64, x => x.word?
  | .int16, x => (x.integer? 16).map Int16.ofInt
  | .int32, x => (x.integer? 32).map Int32.ofInt
  | .int64, x => x.signedWord?
  | .binary64, x => x.text?.bind bitsOf?
  | .header, .list [a, b] => do
    return (⟨UInt32.ofNat (← a.natural? 32), UInt32.ofNat (← b.natural? 32)⟩ : Header)
  | .header, _ => none
  | .rgb, .list [a, b, c] => do return (⟨← a.byte?, ← b.byte?, ← c.byte?⟩ : Rgb)
  | .rgb, _ => none
  | .unit, _ => some ()
  | .plain l, x => do
    let bs ← (← x.list?).mapM (·.byte?)
    if h : bs.length = l.size then some (⟨bs, h⟩ : Bytes l.size) else none
  | .text, x => x.text?
  | .resource, x => x.signedWord?.map Resource.mk
  | .pointer τ, x => s.object? τ x
  | .arrayPointer τ, x => s.plainArray? τ x
  | .node, x => s.node? x

/-- A list of values.  Bytes may be given as a text. -/
def values? (s : Session) : (τ : ElemType) → Datum → Option (List τ.Carrier)
  | .uint8, .text t => some t.toUTF8.toList
  | τ, .list xs => xs.mapM (s.value? τ)
  | _, _ => none

end Session

/-! ## 5. In steps -/

namespace Step

/-- A value from a datum. -/
def value (τ : ElemType) (x : Datum) : Step τ.Carrier := do orMisuse ((← get).value? τ x)

/-- A list of values from a datum. -/
def values (τ : ElemType) (x : Datum) : Step (List τ.Carrier) := do
  orMisuse ((← get).values? τ x)

def report (h : Handle) : Step Datum := return (← get).showHandle h

def reportValue (τ : ElemType) (x : τ.Carrier) : Step Datum := return (← get).showValue τ x

def reportValues (τ : ElemType) (xs : List τ.Carrier) : Step Datum := do
  let s ← get
  return .list (xs.map (s.showValue τ))

def reportValue? (τ : ElemType) (x : Option τ.Carrier) : Step Datum := do
  let s ← get
  return .optional (s.showValue τ) x

/-- Keeps a new handle under a name, if there is one, and shows it. -/
def made (dst : Option String) (h : Handle) : Step Datum := do
  dst.forM (keep · h)
  report h

/-- The same for a handle to new storage, which gets the next number. -/
def madeStorage (dst : Option String) (h : Handle) : Step Datum := do
  h.storage?.forM fun a => modify (·.number a)
  made dst h

/-- Gives a name another handle, and shows it. -/
def changed (name : String) (h : Handle) : Step Datum := made (some name) h

end Step

end CheckedMemory
