import CheckedMemory.Proofs.Cells

/-!
# What an assignment leaves

An assignment to a held value leaves that value at its address, the cells of every range that misses
it as they were, and nothing else that is other but the drop log (`World.Assigned`).  Among values
in a row it changes the one that was assigned to (`World.Assigned.elements`).
-/

namespace CheckedMemory

open Operation

variable {past : List Block} {w w' : World} {τ : ElemType} {a : Address} {n : Nat} {x : τ.Carrier}

/-- The value `x` has been put at `a`, and nothing else is other than it was. -/
structure World.Assigned (τ : ElemType) (a : Address) (x : τ.Carrier) (w w' : World) : Prop where
  world : w' = { w with memory := w'.memory, dropLog := w'.dropLog }
  plots : w'.memory.plots = w.memory.plots
  value : w'.memory.cells a τ.layout.size = τ.encode x
  others : ∀ (b : Address) (k : Nat), b.toNat + k ≤ a.toNat ∨ a.toNat + τ.layout.size ≤ b.toNat →
    w'.memory.cells b k = w.memory.cells b k

/-- **An assignment to a held value succeeds**, and the state that it leaves follows. -/
theorem World.Holds.assigned (h : w.Sound past) (ha : w.Holds past τ a 1) (x : τ.Carrier) :
    ∃ w', outcome (assign τ a x) w = (.ok (), w') ∧ World.Assigned τ a x w w' ∧
      w.Follows past w' := by
  obtain ⟨cs, m, -, hm, ho, hf⟩ := ha.outcome_assign h x
  have hlen : (Runs.ofList (τ.encode x)).length = τ.layout.size := by
    rw [Runs.length_ofList, ElemType.length_encode]
  have hvalue := Memory.cells_write?_same hm
  rw [hlen, Runs.toList_ofList] at hvalue
  refine ⟨_, ho, ⟨rfl, Memory.plots_write? hm, hvalue, fun b k hmiss => ?_⟩,
    hf.trans (World.Follows.log (hf.sound.congr fun b => ?_) _)⟩
  · rw [← hlen] at hmiss
    exact Memory.cells_write?_of_disjoint hm hmiss
  · simp only [List.mem_append]
    exact ⟨.inr, fun hb => hb.elim (h.live b) id⟩

namespace World.Assigned

/-- A read of the value gives it. -/
theorem outcome_loadValue (hw : Assigned τ a x w w') (h : w.Sound past) (ha : w.Holds past τ a 1) :
    outcome (loadValue τ a) w' = (.ok x, w') := by
  have hm := ha.isMapped h
  rw [Nat.one_mul, ← Memory.isMapped_congr hw.plots] at hm
  rw [Operation.outcome_loadValue hm, hw.value, ElemType.decode_encode]

/-- **Of values in a row, the one assigned to is the new one and every other as it was.** -/
theorem elements {k : UInt64} (hw : Assigned τ (a + k * τ.size) x w w') (h : w.Sound past)
    (ha : w.Holds past τ a n) (hn : n < 2 ^ 64) (hk : k.toNat < n) :
    w'.elements τ a n = (w.elements τ a n).set k.toNat x := by
  have hplots := hw.plots
  have hend : ∀ q ∈ w.memory.plots, q.stop < 2 ^ 64 := fun q hq => by
    have := h.stop_lt hq
    omega
  have hm := ha.isMapped h
  have hm' : w'.memory.isMapped a (n * τ.layout.size) = true := by
    rwa [Memory.isMapped_congr hplots]
  have hwhere := ha.toNat_element h (i := k) (by omega)
  rw [elements_eq_map (w := w') (hplots ▸ h.apart) (hplots ▸ hend) hm' hn,
    elements_eq_map h.apart hend hm hn]
  refine List.ext_getElem? fun i => ?_
  by_cases hi : i < n
  · have haddr := Memory.toNat_elementAt hend hm hn hi
    by_cases hik : i = k.toNat
    · subst hik
      have hsame : τ.elementAt a k.toNat = a + k * τ.size := by
        rw [ElemType.elementAt, UInt64.ofNat_toNat]
      rw [List.getElem?_set_self (by simpa using hk), List.getElem?_map, List.getElem?_range hi,
        Option.map_some, hsame, hw.value, ElemType.decode_encode]
    · have hmiss : (τ.elementAt a i).toNat + τ.layout.size ≤ (a + k * τ.size).toNat ∨
          (a + k * τ.size).toNat + τ.layout.size ≤ (τ.elementAt a i).toNat := by
        rw [haddr, hwhere]
        rcases Nat.lt_or_gt_of_ne hik with hlt | hgt
        · have := τ.mul_size_add_le hlt
          omega
        · have := τ.mul_size_add_le hgt
          omega
      rw [List.getElem?_set_ne (Ne.symm hik), List.getElem?_map, List.getElem?_map,
        List.getElem?_range hi, Option.map_some, Option.map_some, hw.others _ _ hmiss]
  · rw [List.getElem?_eq_none (by simpa using hi), List.getElem?_eq_none (by simpa using hi)]

end World.Assigned

end CheckedMemory
