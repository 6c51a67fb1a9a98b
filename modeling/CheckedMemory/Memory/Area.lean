import CheckedMemory.Memory.Cell
import CheckedMemory.Runs.Basic

/-!
# Storage areas

Memory is a list of areas, each a run of cells at a base address: a heap block's payload, an
array of a stack frame, a static array.  An area is never removed, so a stale address still reads
whatever its area holds.

An access names an address and a length and must lie in one area as a whole.  Main statements: a
read gives what was last written there (`read?_write?_same`), a write leaves every disjoint range
alone (`read?_write?_of_disjoint`), and it changes no area's place (`isMapped_write?`).
-/

namespace CheckedMemory

/-! ## 1. One area -/

/-- Consecutive cells from a base address on. -/
structure Area where
  base : Address
  cells : Runs Cell
deriving DecidableEq, Repr

namespace Area

/-- The area holds `n` cells from `a` on. -/
def covers (r : Area) (a : Address) (n : Nat) : Bool :=
  r.base ≤ a && a.toNat + n ≤ r.base.toNat + r.cells.length

/-- The `n` cells from `a` on. -/
def load (r : Area) (a : Address) (n : Nat) : Runs Cell :=
  (r.cells.drop (a.toNat - r.base.toNat)).take n

/-- The area with `cs` from `a` on. -/
def store (r : Area) (a : Address) (cs : Runs Cell) : Area :=
  let i := a.toNat - r.base.toNat
  { r with cells := r.cells.take i ++ cs ++ r.cells.drop (i + cs.length) }

theorem le_of_covers {r : Area} {a : Address} {n : Nat} (h : r.covers a n = true) :
    r.base.toNat ≤ a.toNat ∧ a.toNat + n ≤ r.base.toNat + r.cells.length := by
  simp only [covers, Bool.and_eq_true, decide_eq_true_eq, UInt64.le_iff_toNat_le] at h
  exact h

theorem length_load {r : Area} {a : Address} {n : Nat} (h : r.covers a n = true) :
    (r.load a n).length = n := by
  have := le_of_covers h
  simp only [load, Runs.length_take, Runs.length_drop]
  omega

theorem length_store {r : Area} {a : Address} {cs : Runs Cell}
    (h : r.covers a cs.length = true) : (r.store a cs).cells.length = r.cells.length := by
  have := le_of_covers h
  simp only [store, Runs.length_append, Runs.length_take, Runs.length_drop]
  omega

theorem covers_store {r : Area} {a : Address} {cs : Runs Cell}
    (h : r.covers a cs.length = true) (b : Address) (n : Nat) :
    (r.store a cs).covers b n = r.covers b n := by
  simp only [covers, length_store h]
  rfl

theorem load_store_same {r : Area} {a : Address} {cs : Runs Cell}
    (h : r.covers a cs.length = true) :
    ((r.store a cs).load a cs.length).toList = cs.toList := by
  have hb := le_of_covers h
  have hlen : (r.cells.toList.take (a.toNat - r.base.toNat)).length = a.toNat - r.base.toNat := by
    rw [List.length_take, Runs.length_toList]; omega
  simp only [load, store, Runs.toList_take, Runs.toList_drop, Runs.toList_append,
    List.append_assoc]
  rw [List.drop_left' hlen, List.take_left' (Runs.length_toList cs)]

theorem getElem?_store {r : Area} {a : Address} {cs : Runs Cell}
    (h : r.covers a cs.length = true) (i : Nat) :
    (r.store a cs).cells.toList[i]? =
      if i < a.toNat - r.base.toNat ∨ a.toNat - r.base.toNat + cs.length ≤ i then
        r.cells.toList[i]?
      else cs.toList[i - (a.toNat - r.base.toNat)]? := by
  have hb := le_of_covers h
  have hlen : (r.cells.toList.take (a.toNat - r.base.toNat)).length = a.toNat - r.base.toNat := by
    rw [List.length_take, Runs.length_toList]; omega
  simp only [store, Runs.toList_append, Runs.toList_take, Runs.toList_drop, List.append_assoc,
    List.getElem?_append, hlen, List.getElem?_take, List.getElem?_drop, Runs.length_toList]
  split
  · rename_i h1; simp [h1]
  · rename_i h1
    split
    · rename_i h2
      rw [if_neg (by omega)]
    · rename_i h2
      rw [if_pos (by omega)]
      congr 1
      omega

theorem load_store_of_disjoint {r : Area} {a b : Address} {cs : Runs Cell} {n : Nat}
    (h : r.covers a cs.length = true) (hb : r.covers b n = true)
    (hd : b.toNat + n ≤ a.toNat ∨ a.toNat + cs.length ≤ b.toNat) :
    ((r.store a cs).load b n).toList = (r.load b n).toList := by
  have ha := le_of_covers h
  have hb := le_of_covers hb
  apply List.ext_getElem?
  intro i
  simp only [load, Runs.toList_take, Runs.toList_drop, List.getElem?_take, List.getElem?_drop]
  split
  · have := getElem?_store h (b.toNat - (r.store a cs).base.toNat + i)
    rw [this, if_pos (by simp only [store]; omega)]
    rfl
  · rfl

end Area

/-! ## 2. Memory -/

/-- The areas of a run, newest first. -/
structure Memory where
  areas : List Area
deriving DecidableEq, Repr

namespace Memory

def empty : Memory := ⟨[]⟩

/-- Adds an area. -/
def place (m : Memory) (base : Address) (cells : Runs Cell) : Memory :=
  ⟨⟨base, cells⟩ :: m.areas⟩

/-- The area that holds `n` cells from `a` on. -/
def area? (m : Memory) (a : Address) (n : Nat) : Option Area :=
  m.areas.find? (·.covers a n)

/-- Whether `n` cells from `a` on lie in one area. -/
def isMapped (m : Memory) (a : Address) (n : Nat) : Bool :=
  n == 0 || (m.area? a n).isSome

/-- The `n` cells from `a` on, if they lie in one area. -/
def read? (m : Memory) (a : Address) (n : Nat) : Option (Runs Cell) :=
  if n = 0 then some .empty else (m.area? a n).map (·.load a n)

/-- The areas with `cs` written at `a` to the first one that has room for it there. -/
def storeFirst (a : Address) (cs : Runs Cell) : List Area → Option (List Area)
  | [] => none
  | r :: rs =>
    if r.covers a cs.length then some (r.store a cs :: rs)
    else (storeFirst a cs rs).map (r :: ·)

/-- Memory with `cs` from `a` on, if that range lies in one area. -/
def write? (m : Memory) (a : Address) (cs : Runs Cell) : Option Memory :=
  if cs.length = 0 then some m else (storeFirst a cs m.areas).map Memory.mk

/-! ## 3. Reads after writes -/

theorem storeFirst_load_same {a : Address} {cs : Runs Cell} :
    ∀ {rs rs' : List Area}, storeFirst a cs rs = some rs' →
      (rs'.find? (·.covers a cs.length)).map (fun r => (r.load a cs.length).toList) = some cs.toList
  | [], _, h => by simp [storeFirst] at h
  | r :: rs, rs', h => by
    simp only [storeFirst] at h
    split at h
    · rename_i hr
      cases h
      simp [Area.covers_store hr, hr, Area.load_store_same hr]
    · rename_i hr
      obtain ⟨rs'', h', rfl⟩ := Option.map_eq_some_iff.mp h
      simpa [hr] using storeFirst_load_same h'

theorem storeFirst_load_of_disjoint {a b : Address} {cs : Runs Cell} {n : Nat}
    (hd : b.toNat + n ≤ a.toNat ∨ a.toNat + cs.length ≤ b.toNat) :
    ∀ {rs rs' : List Area}, storeFirst a cs rs = some rs' →
      (rs'.find? (·.covers b n)).map (fun r => (r.load b n).toList) =
        (rs.find? (·.covers b n)).map (fun r => (r.load b n).toList)
  | [], _, h => by simp [storeFirst] at h
  | r :: rs, rs', h => by
    simp only [storeFirst] at h
    split at h
    · rename_i hr
      cases h
      cases hb : r.covers b n <;> simp [Area.covers_store hr, hb]
      exact Area.load_store_of_disjoint hr hb hd
    · obtain ⟨rs'', h', rfl⟩ := Option.map_eq_some_iff.mp h
      cases hb : r.covers b n <;> simp [hb]
      exact storeFirst_load_of_disjoint hd h'

theorem storeFirst_covers {a : Address} {cs : Runs Cell} {b : Address} {n : Nat} :
    ∀ {rs rs' : List Area}, storeFirst a cs rs = some rs' →
      (rs'.find? (·.covers b n)).isSome = (rs.find? (·.covers b n)).isSome
  | [], _, h => by simp [storeFirst] at h
  | r :: rs, rs', h => by
    simp only [storeFirst] at h
    split at h
    · rename_i hr
      cases h
      cases hb : r.covers b n <;> simp [Area.covers_store hr, hb]
    · obtain ⟨rs'', h', rfl⟩ := Option.map_eq_some_iff.mp h
      cases hb : r.covers b n <;> simp [hb]
      simpa using storeFirst_covers h'

/-- **A read gives what was last written there.** -/
theorem read?_write?_same {m m' : Memory} {a : Address} {cs : Runs Cell}
    (h : m.write? a cs = some m') :
    (m'.read? a cs.length).map Runs.toList = some cs.toList := by
  unfold write? at h
  split at h
  · rename_i hc
    rw [hc, List.eq_nil_of_length_eq_zero (l := cs.toList) (by simpa using hc)]
    rfl
  · rename_i hc
    obtain ⟨rs', h', rfl⟩ := Option.map_eq_some_iff.mp h
    rw [read?, if_neg hc, Option.map_map]
    exact storeFirst_load_same h'

/-- **A write leaves every disjoint range alone.** -/
theorem read?_write?_of_disjoint {m m' : Memory} {a b : Address} {cs : Runs Cell} {n : Nat}
    (h : m.write? a cs = some m')
    (hd : b.toNat + n ≤ a.toNat ∨ a.toNat + cs.length ≤ b.toNat) :
    (m'.read? b n).map Runs.toList = (m.read? b n).map Runs.toList := by
  unfold write? at h
  split at h
  · cases h; rfl
  · obtain ⟨rs', h', rfl⟩ := Option.map_eq_some_iff.mp h
    unfold read?
    split
    · rfl
    · rw [Option.map_map, Option.map_map]
      exact storeFirst_load_of_disjoint hd h'

/-- **A write moves no area.** -/
theorem isMapped_write? {m m' : Memory} {a : Address} {cs : Runs Cell}
    (h : m.write? a cs = some m') (b : Address) (n : Nat) : m'.isMapped b n = m.isMapped b n := by
  unfold write? at h
  split at h
  · cases h; rfl
  · obtain ⟨rs', h', rfl⟩ := Option.map_eq_some_iff.mp h
    simp only [isMapped, area?, storeFirst_covers h']

theorem isSome_storeFirst {a : Address} {cs : Runs Cell} :
    ∀ {rs : List Area}, (storeFirst a cs rs).isSome = (rs.find? (·.covers a cs.length)).isSome
  | [] => rfl
  | r :: rs => by
    simp only [storeFirst]
    cases hr : r.covers a cs.length <;> simp [hr]
    simpa using isSome_storeFirst

/-- A write succeeds exactly where a read of as many cells does. -/
theorem isSome_write? (m : Memory) (a : Address) (cs : Runs Cell) :
    (m.write? a cs).isSome = m.isMapped a cs.length := by
  unfold write? isMapped
  by_cases h : cs.length = 0
  · simp [h]
  · rw [if_neg h, Option.isSome_map, isSome_storeFirst]
    simp [h, area?]

theorem isSome_read? (m : Memory) (a : Address) (n : Nat) :
    (m.read? a n).isSome = m.isMapped a n := by
  unfold read? isMapped
  by_cases h : n = 0 <;> simp [h]

end Memory

end CheckedMemory
