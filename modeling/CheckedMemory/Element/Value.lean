import CheckedMemory.Binary64
import CheckedMemory.LittleEndian
import CheckedMemory.Memory.Cell
import CheckedMemory.Pointer.Basic

/-!
# Values in memory

The values of each element type, and the cells that hold them.  Main statements: a value takes as
many cells as its type says (`length_encode`), and reading its cells gives it back
(`decode_encode`).  Reading is total: cells that hold no text read as the empty text, so a stale
pointer reads something of the right type.
-/

namespace CheckedMemory

/-! ## 1. The values -/

/-- Two words: a tag and a length. -/
structure Header where
  tag : UInt32
  length : UInt32
deriving DecidableEq, Repr

/-- Three bytes. -/
structure Rgb where
  red : UInt8
  green : UInt8
  blue : UInt8
deriving DecidableEq, Repr

/-- So many bytes. -/
structure Bytes (n : Nat) where
  toList : List UInt8
  length_eq : toList.length = n
deriving DecidableEq, Repr

/-- A resource, known by its number. -/
structure Resource where
  number : Int64
deriving DecidableEq, Repr

/-- A node of an object graph, with every kind of reference that a value can hold. -/
structure Node where
  id : UInt32
  next : Ptr .node
  items : ArrayPtr .uint64
  extra : Option (Ptr .node)
  grid : Matrix .uint32
  kids : List (Ptr .node)
deriving DecidableEq, Repr

namespace ElemType

/-- The values of a type. -/
abbrev Carrier : ElemType → Type
  | uint8 => UInt8
  | uint16 => UInt16
  | uint32 => UInt32
  | uint64 => UInt64
  | int16 => Int16
  | int32 => Int32
  | int64 => Int64
  | binary64 => Binary64
  | header => Header
  | rgb => Rgb
  | unit => Unit
  | plain l => Bytes l.size
  | text => String
  | resource => Resource
  | pointer τ => Ptr τ
  | arrayPointer τ => ArrayPtr τ
  | node => Node

/-- The value that fresh elements have. -/
def default : (τ : ElemType) → τ.Carrier
  | uint8 => (0 : UInt8)
  | uint16 => (0 : UInt16)
  | uint32 => (0 : UInt32)
  | uint64 => (0 : UInt64)
  | int16 => (0 : Int16)
  | int32 => (0 : Int32)
  | int64 => (0 : Int64)
  | binary64 => Binary64.zero
  | header => (⟨0, 0⟩ : Header)
  | rgb => (⟨0, 0, 0⟩ : Rgb)
  | unit => ()
  | plain l => (⟨List.replicate l.size 0, List.length_replicate⟩ : Bytes l.size)
  | text => ""
  | resource => (⟨0⟩ : Resource)
  | pointer _ => Ptr.null
  | arrayPointer _ => ArrayPtr.null
  | node => (⟨0, .null, .null, none, .null, []⟩ : Node)

instance (τ : ElemType) : Inhabited τ.Carrier := ⟨τ.default⟩

/-! ## 2. Cells of a value -/

/-- The cells of an `n`-byte number. -/
def cellsOfNat (n x : Nat) : List Cell := Cell.ofBytes (LittleEndian.toBytes n x)

/-- The number in cells. -/
def natOfCells (cs : List Cell) : Nat := LittleEndian.ofBytes (Cell.toBytes cs)

/-- The word in cells. -/
def wordOfCells (cs : List Cell) : UInt64 := UInt64.ofNat (natOfCells cs)

/-- The cells of a value. -/
def encode : (τ : ElemType) → τ.Carrier → List Cell
  | uint8, (x : UInt8) => cellsOfNat 1 x.toNat
  | uint16, (x : UInt16) => cellsOfNat 2 x.toNat
  | uint32, (x : UInt32) => cellsOfNat 4 x.toNat
  | uint64, (x : UInt64) => cellsOfNat 8 x.toNat
  | int16, (x : Int16) => cellsOfNat 2 x.toUInt16.toNat
  | int32, (x : Int32) => cellsOfNat 4 x.toUInt32.toNat
  | int64, (x : Int64) => cellsOfNat 8 x.toUInt64.toNat
  | binary64, (x : Binary64) => cellsOfNat 8 x.bits.toNat
  | header, (x : Header) => cellsOfNat 4 x.tag.toNat ++ cellsOfNat 4 x.length.toNat
  | rgb, (x : Rgb) => Cell.ofBytes [x.red, x.green, x.blue]
  | unit, _ => []
  | plain _, (x : Bytes _) => Cell.ofBytes x.toList
  | text, (x : String) => Cell.parts 24 (.text x)
  | resource, (x : Resource) => cellsOfNat 8 x.number.toUInt64.toNat
  | pointer _, x => cellsOfNat 8 x.address.toNat
  | arrayPointer _, x =>
    cellsOfNat 8 x.span.base.toNat ++ cellsOfNat 8 x.span.index.toUInt64.toNat ++
      cellsOfNat 8 x.span.extent.toNat
  | node, (x : Node) =>
    cellsOfNat 8 x.id.toNat ++ cellsOfNat 8 x.next.address.toNat ++
      (cellsOfNat 8 x.items.span.base.toNat ++ cellsOfNat 8 x.items.span.index.toUInt64.toNat ++
        cellsOfNat 8 x.items.span.extent.toNat) ++
      (cellsOfNat 8 (if x.extra.isSome then 1 else 0) ++
        cellsOfNat 8 (x.extra.getD .null).address.toNat) ++
      (cellsOfNat 8 x.grid.base.toNat ++ cellsOfNat 8 x.grid.xExtent.toNat ++
        cellsOfNat 8 x.grid.yExtent.toNat) ++
      Cell.parts 24 (.addresses (x.kids.map Ptr.address))

/-- Word `i` of cells, eight cells to a word. -/
def wordAt (cs : List Cell) (i : Nat) : UInt64 := wordOfCells ((cs.drop (8 * i)).take 8)

/-- The first `n` bytes in cells, zeros where there are no more. -/
def bytesOfCells (n : Nat) (cs : List Cell) : Bytes n :=
  ⟨(Cell.toBytes cs ++ List.replicate n 0).take n, by simp⟩

/-- The value in cells. -/
def decode : (τ : ElemType) → List Cell → τ.Carrier
  | uint8, cs => UInt8.ofNat (natOfCells (cs.take 1))
  | uint16, cs => UInt16.ofNat (natOfCells (cs.take 2))
  | uint32, cs => UInt32.ofNat (natOfCells (cs.take 4))
  | uint64, cs => wordAt cs 0
  | int16, cs => (UInt16.ofNat (natOfCells (cs.take 2))).toInt16
  | int32, cs => (UInt32.ofNat (natOfCells (cs.take 4))).toInt32
  | int64, cs => (wordAt cs 0).toInt64
  | binary64, cs => (⟨wordAt cs 0⟩ : Binary64)
  | header, cs =>
    (⟨UInt32.ofNat (natOfCells (cs.take 4)),
      UInt32.ofNat (natOfCells ((cs.drop 4).take 4))⟩ : Header)
  | rgb, cs =>
    match Cell.toBytes cs with
    | r :: g :: b :: _ => (⟨r, g, b⟩ : Rgb)
    | _ => (⟨0, 0, 0⟩ : Rgb)
  | unit, _ => ()
  | plain l, cs => bytesOfCells l.size cs
  | text, cs =>
    match Cell.owned? cs with
    | some (.text s) => s
    | _ => ""
  | resource, cs => (⟨(wordAt cs 0).toInt64⟩ : Resource)
  | pointer _, cs => ⟨wordAt cs 0⟩
  | arrayPointer _, cs => ⟨⟨wordAt cs 0, (wordAt cs 1).toInt64, wordAt cs 2⟩⟩
  | node, cs =>
    (⟨UInt32.ofNat (wordAt cs 0).toNat, ⟨wordAt cs 1⟩,
      ⟨⟨wordAt cs 2, (wordAt cs 3).toInt64, wordAt cs 4⟩⟩,
      (if wordAt cs 5 = 0 then none else some ⟨wordAt cs 6⟩),
      ⟨wordAt cs 7, wordAt cs 8, wordAt cs 9⟩,
      match Cell.owned? (cs.drop 80) with
      | some (.addresses as) => as.map Ptr.mk
      | _ => []⟩ : Node)

/-! ## 3. Reading back -/

@[simp] theorem length_cellsOfNat (n x : Nat) : (cellsOfNat n x).length = n := by
  simp [cellsOfNat]

@[simp] theorem natOfCells_cellsOfNat {n x : Nat} (h : x < 256 ^ n) :
    natOfCells (cellsOfNat n x) = x := by
  simp [natOfCells, cellsOfNat, LittleEndian.ofBytes_toBytes h]

@[simp] theorem length_encode (τ : ElemType) (x : τ.Carrier) :
    (encode τ x).length = τ.layout.size := by
  cases τ with
  | plain l => exact (Cell.length_ofBytes _).trans (Bytes.length_eq x)
  | _ => simp [encode, layout]

theorem natOfCells_take {n x : Nat} (h : x < 256 ^ n) (cs : List Cell) :
    natOfCells ((cellsOfNat n x ++ cs).take n) = x := by
  rw [List.take_left' (length_cellsOfNat n x), natOfCells_cellsOfNat h]

theorem drop_cellsOfNat (n x : Nat) (cs : List Cell) : (cellsOfNat n x ++ cs).drop n = cs :=
  List.drop_left' (length_cellsOfNat n x)

theorem wordAt_zero {x : Nat} (h : x < 2 ^ 64) (cs : List Cell) :
    wordAt (cellsOfNat 8 x ++ cs) 0 = UInt64.ofNat x := by
  simp only [wordAt, wordOfCells, Nat.mul_zero, List.drop_zero]
  rw [natOfCells_take (by simpa using h)]

theorem wordAt_succ (x i : Nat) (cs : List Cell) :
    wordAt (cellsOfNat 8 x ++ cs) (i + 1) = wordAt cs i := by
  have h : 8 * (i + 1) = 8 + 8 * i := by omega
  simp only [wordAt, h, ← List.drop_drop, drop_cellsOfNat]

theorem wordAt_word (w : UInt64) (cs : List Cell) :
    wordAt (cellsOfNat 8 w.toNat ++ cs) 0 = w := by
  rw [wordAt_zero w.toNat_lt, UInt64.ofNat_toNat]

theorem wordAt_self (w : UInt64) : wordAt (cellsOfNat 8 w.toNat) 0 = w := by
  simpa using wordAt_word w []

theorem bytesOfCells_ofBytes {n : Nat} (x : Bytes n) :
    bytesOfCells n (Cell.ofBytes x.toList) = x := by
  obtain ⟨bs, rfl⟩ := x
  simp only [bytesOfCells, Cell.toBytes_ofBytes, List.take_left]

/-- A node's cells read back as the node: ten words come first, then the parts of its list. -/
theorem decode_encode_node (x : Node) : decode .node (encode .node x) = x := by
  obtain ⟨id, ⟨next⟩, ⟨⟨base, index, extent⟩⟩, extra, ⟨data, xs, ys⟩, kids⟩ := x
  have hid : id.toNat < 2 ^ 64 := by have := id.toNat_lt; omega
  have h0 : ∀ cs, wordAt (cellsOfNat 8 0 ++ cs) 0 = 0 := wordAt_zero (by decide)
  have h1 : ∀ cs, wordAt (cellsOfNat 8 1 ++ cs) 0 = 1 := wordAt_zero (by decide)
  have hmk : (Ptr.mk ∘ Ptr.address : Ptr .node → Ptr .node) = fun p => p := rfl
  cases extra <;>
    simp [encode, decode, wordAt_succ, wordAt_word, wordAt_zero hid, h0, h1,
      List.drop_append, List.drop_of_length_le, hmk]

/-- **A value's cells read back as the value.** -/
theorem decode_encode (τ : ElemType) (x : τ.Carrier) : decode τ (encode τ x) = x := by
  cases τ with
  | node => exact decode_encode_node x
  | uint8 =>
    have h := natOfCells_take (n := 1) (by simpa using UInt8.toNat_lt x) []
    simp_all [encode, decode]
  | uint16 =>
    have h := natOfCells_take (n := 2) (by simpa using UInt16.toNat_lt x) []
    simp_all [encode, decode]
  | uint32 =>
    have h := natOfCells_take (n := 4) (by simpa using UInt32.toNat_lt x) []
    simp_all [encode, decode]
  | int16 =>
    have h := natOfCells_take (n := 2) (by simpa using UInt16.toNat_lt (Int16.toUInt16 x)) []
    simp_all [encode, decode]
  | int32 =>
    have h := natOfCells_take (n := 4) (by simpa using UInt32.toNat_lt (Int32.toUInt32 x)) []
    simp_all [encode, decode]
  | header =>
    have h1 := natOfCells_take (n := 4) (by simpa using UInt32.toNat_lt (Header.tag x))
    have h2 := natOfCells_take (n := 4) (by simpa using UInt32.toNat_lt (Header.length x)) []
    simp_all [encode, decode]
  | rgb | unit => rfl
  | plain l => exact bytesOfCells_ofBytes x
  | text => rfl
  | uint64 => exact wordAt_self x
  | int64 | binary64 | resource | pointer => simp [encode, decode, wordAt_self]
  | arrayPointer => simp [encode, decode, wordAt_succ, wordAt_word, wordAt_self]

/-! ## 4. What a value holds -/

/-- What the release of a value writes to the drop log. -/
def dropMarks : (τ : ElemType) → τ.Carrier → List Int64
  | resource, (x : Resource) => [x.number]
  | _, _ => []

/-- The addresses that a value refers to, in the order in which it reports them.  An array
pointer reports its base whatever its index. -/
def references : (τ : ElemType) → τ.Carrier → List Address
  | pointer _, p => [p.address]
  | arrayPointer _, p => [p.span.base]
  | node, (x : Node) =>
    [x.next.address, x.items.span.base] ++ (x.extra.toList.map Ptr.address) ++ [x.grid.base] ++
      x.kids.map Ptr.address
  | _, _ => []

/-- Equality of values as their type means it: numbers by value, all else by cells. -/
def same : (τ : ElemType) → τ.Carrier → τ.Carrier → Bool
  | binary64, x, y => Binary64.numericEq x y
  | τ, x, y => encode τ x == encode τ y

end ElemType

end CheckedMemory
