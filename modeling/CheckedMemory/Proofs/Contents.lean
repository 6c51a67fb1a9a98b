import CheckedMemory.Proofs.Sound

/-!
# What blocks hold

A block is recorded with the type and the number of its values, and its payload has their cells.
`World.values` reads the two together: the values that a block holds in a state, in order, a
record's head before its tail.  What a release writes to the drop log and which addresses a block
reports while the heap is marked are then facts about that list (`World.Sound.toList_dropMarks`,
`World.Sound.mem_references`), whatever runs the cells are kept in.
-/

namespace CheckedMemory

variable {past : List Block} {w : World} {m m' : Memory} {b : Block} {a : Address} {n : Nat}
  {cs : Runs Cell}

/-! ## 1. Cells in a range -/

/-- The `n` cells from `a` on; nothing where they do not lie in one area. -/
def Memory.cells (m : Memory) (a : Address) (n : Nat) : List Cell :=
  ((m.read? a n).map Runs.toList).getD []

namespace Memory

theorem cells_eq (h : m.read? a n = some cs) : m.cells a n = cs.toList := by
  rw [cells, h]
  rfl

/-- A write leaves the cells of every disjoint range alone. -/
theorem cells_write?_of_disjoint {p : Address} (h : m.write? p cs = some m')
    (hd : a.toNat + n ≤ p.toNat ∨ p.toNat + cs.length ≤ a.toNat) :
    m'.cells a n = m.cells a n := by
  rw [cells, cells, read?_write?_of_disjoint h hd]

/-- And puts its own into its range. -/
theorem cells_write?_same (h : m.write? a cs = some m') : m'.cells a cs.length = cs.toList := by
  rw [cells, read?_write?_same h]
  rfl

theorem cells_place_of_apart {p : Address} {r : Plot} (hap : Plot.Apart ⟨p, cs.length⟩ r)
    (hc : r.Covers a.toNat n) : (m.place p cs).cells a n = m.cells a n := by
  rw [cells, cells, read?_place_of_apart hap hc]

end Memory

/-! ## 2. Values of any type -/

/-- A value together with its type. -/
structure AnyValue where
  type : ElemType
  value : type.Carrier

namespace AnyValue

/-- What its release writes to the drop log. -/
def dropMarks (x : AnyValue) : List Int64 := x.type.dropMarks x.value

/-- The addresses that it refers to. -/
def references (x : AnyValue) : List Address := x.type.references x.value

end AnyValue

/-- `n` consecutive values of one type. -/
def ElemType.valuesIn (τ : ElemType) (n : Nat) (cs : List Cell) : List AnyValue :=
  (τ.decodeAll n cs).map (AnyValue.mk τ)

namespace ElemType

theorem flatMap_dropMarks (τ : ElemType) (n : Nat) (cs : List Cell) :
    (τ.valuesIn n cs).flatMap AnyValue.dropMarks = (τ.decodeAll n cs).flatMap τ.dropMarks :=
  List.flatMap_map ..

theorem flatMap_references (τ : ElemType) (n : Nat) (cs : List Cell) :
    (τ.valuesIn n cs).flatMap AnyValue.references = (τ.decodeAll n cs).flatMap τ.references :=
  List.flatMap_map ..

theorem length_valuesIn (τ : ElemType) (n : Nat) (cs : List Cell) :
    (τ.valuesIn n cs).length = n := by
  rw [valuesIn, List.length_map]
  induction n generalizing cs with
  | zero => rfl
  | succ n ih => rw [decodeAll_succ, List.length_cons, ih]

/-- Values one after the other are those in front and those behind. -/
theorem valuesIn_append (τ : ElemType) {n : Nat} {cs : List Cell}
    (h : cs.length = n * τ.layout.size) (m : Nat) (ds : List Cell) :
    τ.valuesIn (n + m) (cs ++ ds) = τ.valuesIn n cs ++ τ.valuesIn m ds := by
  rw [valuesIn, decodeAll_append τ h, List.map_append]
  rfl

theorem valuesIn_encodeAll (τ : ElemType) (xs : List τ.Carrier) :
    τ.valuesIn xs.length (τ.encodeAll xs) = xs.map (AnyValue.mk τ) := by
  rw [valuesIn, decodeAll_encodeAll]

/-- Values that are cut in two are those of their cells cut in two. -/
theorem valuesIn_split (τ : ElemType) {n k : Nat} {cs : List Cell}
    (h : cs.length = n * τ.layout.size) (hk : k ≤ n) :
    τ.valuesIn k (cs.take (k * τ.layout.size)) = (τ.valuesIn n cs).take k ∧
      τ.valuesIn (n - k) (cs.drop (k * τ.layout.size)) = (τ.valuesIn n cs).drop k := by
  have hle : k * τ.layout.size ≤ n * τ.layout.size := Nat.mul_le_mul_right _ hk
  have hlen : (cs.take (k * τ.layout.size)).length = k * τ.layout.size := by
    rw [List.length_take]
    omega
  have hall := τ.valuesIn_append hlen (n - k) (cs.drop (k * τ.layout.size))
  rw [List.take_append_drop, Nat.add_sub_cancel' hk] at hall
  have hfront := τ.length_valuesIn k (cs.take (k * τ.layout.size))
  rw [hall, List.take_left' hfront, List.drop_left' hfront]
  exact ⟨rfl, rfl⟩

end ElemType

/-! ## 3. Values of a block -/

namespace Stored

/-- The values in the cells of a block that is recorded with `count` of them, in order. -/
def values (count : Nat) (cs : List Cell) : Stored → List AnyValue
  | elements τ => τ.valuesIn count cs
  | fixed τ n => τ.valuesIn n cs
  | tailed h t =>
    h.valuesIn 1 (cs.take h.layout.size) ++
      t.valuesIn count
        ((cs.drop (Layout.Tailed.tailOffset h.layout t.layout)).take (count * t.layout.size))

/-- A record is released as a whole and reports nothing; all else does what its elements do. -/
def IsRecord : Stored → Prop
  | tailed .. => True
  | elements _ | fixed .. => False

end Stored

/-- The values that a block holds. -/
def World.values (w : World) (b : Block) : List AnyValue :=
  b.stored.values b.count.toNat (w.memory.cells b.payload b.bytes)

/-- **The release of a block releases the values that it holds, in order.** -/
theorem Block.toList_dropMarks (hb : b.Shaped) (hcs : cs.length = b.bytes) :
    (b.stored.dropMarks b.count.toNat cs).toList =
      (b.stored.values b.count.toNat cs.toList).flatMap AnyValue.dropMarks := by
  unfold Block.Shaped at hb
  cases hs : b.stored with
  | elements τ =>
    rw [hs] at hb
    simp only [Stored.dropMarks, Stored.values, ElemType.flatMap_dropMarks]
    exact ElemType.toList_dropMarksAll τ (hcs.trans hb.2)
  | fixed τ n =>
    rw [hs] at hb
    simp only [Stored.dropMarks, Stored.values, ElemType.flatMap_dropMarks]
    exact ElemType.toList_dropMarksAll τ (hcs.trans hb.2.2)
  | tailed h t =>
    rw [hs] at hb
    obtain ⟨-, hleast, hend⟩ := hb
    have hhead : h.layout.size ≤ Layout.Tailed.tailOffset h.layout t.layout := by
      have h1 := Layout.Tailed.size_le_lengthOffset h.layout
      have h2 := Layout.Tailed.lengthOffset_le_tailOffset h.layout t.layout
      omega
    simp only [Stored.dropMarks, Stored.values, List.flatMap_append, ElemType.flatMap_dropMarks,
      Runs.toList_append]
    rw [ElemType.toList_dropMarksAll h (by rw [Runs.length_take]; omega),
      ElemType.toList_dropMarksAll t (by rw [Runs.length_take, Runs.length_drop]; omega),
      Runs.toList_take, Runs.toList_take, Runs.toList_drop]

/-- **A block reports what the values that it holds refer to**, unless it is a record. -/
theorem Block.mem_references (hb : b.Shaped) (hcs : cs.length = b.bytes) :
    a ∈ b.stored.references b.count.toNat cs ↔ ¬ b.stored.IsRecord ∧
      ∃ x ∈ b.stored.values b.count.toNat cs.toList, a ∈ x.references := by
  unfold Block.Shaped at hb
  rw [← List.mem_flatMap]
  cases hs : b.stored with
  | elements τ =>
    rw [hs] at hb
    simp only [Stored.references, Stored.values, Stored.IsRecord, ElemType.flatMap_references,
      not_false_eq_true, true_and]
    exact ElemType.mem_referencesAll τ (hcs.trans hb.2)
  | fixed τ n =>
    rw [hs] at hb
    simp only [Stored.references, Stored.values, Stored.IsRecord, ElemType.flatMap_references,
      not_false_eq_true, true_and]
    exact ElemType.mem_referencesAll τ (hcs.trans hb.2.2)
  | tailed h t => simp [Stored.references, Stored.IsRecord]

namespace World.Sound

/-- The payload of a block of the past can be read as a whole. -/
theorem exists_payload (h : Sound past w) (hb : b ∈ past) :
    ∃ cs, w.memory.read? b.payload b.bytes = some cs ∧ cs.length = b.bytes := by
  obtain ⟨cs, hcs⟩ := Memory.exists_read? (h.housed b hb) (covers_payload b)
  exact ⟨cs, hcs, Memory.length_of_read? hcs⟩

end World.Sound

end CheckedMemory
