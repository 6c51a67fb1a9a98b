import CheckedMemory.Proofs.Cells

/-!
# What an access touches

An access is confined to a range of addresses if, where it succeeds, it changes no cell outside the
range, and neither what it gives nor what it leaves behind depends on any cell outside.  The second
half is asked of a second memory with the same areas that differs outside the range in any way: the
access succeeds there too, with the same result.

Confinement says nothing of an access that is refused.  That one that passed its check does succeed
is a statement of its own (`ArrayLike.Confined`, `ObjectConfined`).
-/

namespace CheckedMemory

open Operation

/-! ## 1. Memories that agree on a range -/

/-- The same areas, and the same cells from `lo` to `hi`. -/
structure Memory.Agree (lo hi : Nat) (m m' : Memory) : Prop where
  plots : m'.plots = m.plots
  cells : ∀ (a : Address) (n : Nat), lo ≤ a.toNat → a.toNat + n ≤ hi →
    (m'.read? a n).map Runs.toList = (m.read? a n).map Runs.toList

section Agree

variable {a b : Address} {n lo hi : Nat} {cs : Runs Cell}

/-- Areas in the same place that agree where they are read still do after the same write. -/
theorem Area.load_store_congr {r r' : Area} (hplot : r'.plot = r.plot)
    (ha : r.covers a cs.length = true)
    (h : (r'.load b n).toList = (r.load b n).toList) :
    ((r'.store a cs).load b n).toList = ((r.store a cs).load b n).toList := by
  have hbase : r'.base = r.base := congrArg Plot.base hplot
  have hlen : r'.cells.length = r.cells.length := congrArg Plot.length hplot
  have ha' : r'.covers a cs.length = true := by
    simp only [Area.covers, hbase, hlen] at ha ⊢
    exact ha
  apply List.ext_getElem?
  intro i
  have hi := congrArg (fun l => l[i]?) h
  have hs := Area.getElem?_store ha
  have hs' := Area.getElem?_store ha'
  have hbase₁ : (r.store a cs).base = r.base := rfl
  have hbase₂ : (r'.store a cs).base = r.base := hbase
  simp only [Area.load, Runs.toList_take, Runs.toList_drop, List.getElem?_take,
    List.getElem?_drop, hbase, hbase₁, hbase₂, hs, hs'] at hi ⊢
  split
  · rename_i hin
    rw [if_pos hin, if_pos hin] at hi
    split
    · exact hi
    · rfl
  · rfl

theorem Memory.storeFirst_congr :
    ∀ {rs rs' ss ss' : List Area}, rs'.map Area.plot = rs.map Area.plot →
      storeFirst a cs rs = some ss → storeFirst a cs rs' = some ss' →
      (rs'.find? (·.covers b n)).map (fun r => (r.load b n).toList) =
        (rs.find? (·.covers b n)).map (fun r => (r.load b n).toList) →
      (ss'.find? (·.covers b n)).map (fun r => (r.load b n).toList) =
        (ss.find? (·.covers b n)).map (fun r => (r.load b n).toList)
  | [], _, _, _, _, h, _, _ => by simp [storeFirst] at h
  | _ :: _, [], _, _, hplots, _, _, _ => by simp at hplots
  | r :: rs, r' :: rs', ss, ss', hplots, h, h', hread => by
    obtain ⟨hplot, hplots⟩ := List.cons.inj hplots
    have hcov : ∀ a n, r'.covers a n = r.covers a n := by
      intro a n
      rw [Bool.eq_iff_iff, Area.covers_iff, Area.covers_iff, hplot]
    simp only [storeFirst, hcov] at h h'
    simp only [List.find?_cons, hcov] at hread
    split at h
    · rename_i ha
      rw [if_pos ha] at h'
      cases h
      cases h'
      have ha' : r'.covers a cs.length = true := by rw [hcov]; exact ha
      simp only [List.find?_cons, Area.covers_store ha, Area.covers_store ha', hcov]
      cases hb : r.covers b n with
      | true =>
        simp only [hb, Option.map_some, Option.some.injEq] at hread ⊢
        exact Area.load_store_congr hplot ha hread
      | false =>
        simp only [hb] at hread ⊢
        exact hread
    · rename_i ha
      rw [if_neg ha] at h'
      obtain ⟨ts, ht, rfl⟩ := Option.map_eq_some_iff.mp h
      obtain ⟨ts', ht', rfl⟩ := Option.map_eq_some_iff.mp h'
      simp only [List.find?_cons, hcov]
      cases hb : r.covers b n with
      | true =>
        simp only [hb] at hread ⊢
        exact hread
      | false =>
        simp only [hb] at hread ⊢
        exact storeFirst_congr hplots ht ht' hread

namespace Memory.Agree

variable {m m' : Memory}

/-- A read in the range succeeds in both memories, or in neither. -/
theorem exists_read? (h : Agree lo hi m m') (hlo : lo ≤ a.toNat) (hhi : a.toNat + n ≤ hi)
    (hr : m.read? a n = some cs) : ∃ cs', m'.read? a n = some cs' ∧ cs'.toList = cs.toList := by
  have := h.cells a n hlo hhi
  rw [hr, Option.map_some] at this
  exact Option.map_eq_some_iff.mp this

/-- A write succeeds in both memories, or in neither. -/
theorem exists_write? {m₁ : Memory} (h : Agree lo hi m m') (hw : m.write? a cs = some m₁) :
    ∃ m₂, m'.write? a cs = some m₂ := by
  rw [← Option.isSome_iff_exists, Memory.isSome_write?]
  have hm := Memory.isSome_write? m a cs
  rw [hw, Option.isSome_some] at hm
  by_cases hn : cs.length = 0
  · simp [Memory.isMapped, hn]
  · rw [Memory.isMapped_iff hn, h.plots]
    exact (Memory.isMapped_iff hn).mp hm.symm

/-- **The same write keeps memories in agreement**, wherever it is. -/
theorem write? {m₁ m₂ : Memory} (h : Agree lo hi m m') (hw : m.write? a cs = some m₁)
    (hw' : m'.write? a cs = some m₂) : Agree lo hi m₁ m₂ := by
  refine ⟨?_, fun b n hlo hhi => ?_⟩
  · rw [Memory.plots_write? hw, Memory.plots_write? hw', h.plots]
  · have hread := h.cells b n hlo hhi
    unfold Memory.write? at hw hw'
    split at hw
    · rename_i hn
      rw [if_pos hn] at hw'
      cases hw
      cases hw'
      exact hread
    · rename_i hn
      rw [if_neg hn] at hw'
      obtain ⟨rs, hrs, rfl⟩ := Option.map_eq_some_iff.mp hw
      obtain ⟨rs', hrs', rfl⟩ := Option.map_eq_some_iff.mp hw'
      unfold Memory.read? at hread ⊢
      split
      · rfl
      · rename_i hn
        rw [if_neg hn, if_neg hn, Option.map_map, Option.map_map] at hread
        rw [Option.map_map, Option.map_map]
        exact Memory.storeFirst_congr h.plots hrs hrs' hread

end Memory.Agree

end Agree

/-! ## 2. Confined operations -/

/-- Where it succeeds, the operation changes no cell outside `[lo, hi)`, and neither what it gives
nor what it leaves depends on one. -/
def Operation.Confined {α : Type} (a : Operation α) (w : World) (lo hi : Nat) : Prop :=
  ∀ x w', outcome a w = (.ok x, w') →
    (∀ (b : Address) (n : Nat), b.toNat + n ≤ lo ∨ hi ≤ b.toNat →
      (w'.memory.read? b n).map Runs.toList = (w.memory.read? b n).map Runs.toList) ∧
    ∀ m, w.memory.Agree lo hi m → ∃ w'', outcome a { w with memory := m } = (.ok x, w'') ∧
      w'.memory.Agree lo hi w''.memory ∧ w''.dropLog.toList = w'.dropLog.toList

namespace Operation

variable {α β : Type} {w : World} {lo hi : Nat} {a : Address} {n : Nat} {τ : ElemType}

theorem confined_pure (x : α) : (pure x : Operation α).Confined w lo hi := by
  intro y w' h
  cases h
  exact ⟨fun _ _ _ => rfl, fun m hm => ⟨{ w with memory := m }, rfl, hm, rfl⟩⟩

/-- A check looks at no memory. -/
theorem confined_check {r : Except Violation α} {f : α → Operation β}
    (hf : ∀ x, r = .ok x → (f x).Confined w lo hi) : (check r >>= f).Confined w lo hi := by
  cases r with
  | ok x => exact hf x rfl
  | error v =>
    intro y w' h
    cases h

theorem Confined.map {a : Operation α} (ha : a.Confined w lo hi) (f : α → β) :
    (f <$> a).Confined w lo hi := by
  rw [map_eq_pure_bind]
  intro y w' h
  obtain ⟨x, w₁, hx, hy⟩ := exists_of_outcome_bind h
  cases hy
  obtain ⟨hwrite, hread⟩ := ha x w' hx
  refine ⟨hwrite, fun m hm => ?_⟩
  obtain ⟨w'', ho, hrest⟩ := hread m hm
  exact ⟨w'', by rw [outcome_bind_ok _ ho]; rfl, hrest⟩

theorem Confined.andThen {a : Operation α} (ha : a.Confined w lo hi) (y : β) :
    (do let _ ← a; return y).Confined w lo hi := by
  have hmap := ha.map fun _ => y
  rwa [map_eq_pure_bind] at hmap

/-- A read of cells in the range, and what is made of the list of them. -/
theorem confined_load (hlo : lo ≤ a.toNat) (hhi : a.toNat + n ≤ hi) {f : Runs Cell → β}
    (hf : ∀ cs cs' : Runs Cell, cs.length = n → cs'.toList = cs.toList → f cs' = f cs) :
    (f <$> load a n).Confined w lo hi := by
  rw [map_eq_pure_bind]
  intro y w' h
  obtain ⟨cs, w₁, hcs, hy⟩ := exists_of_outcome_bind h
  obtain ⟨rfl, hread⟩ := exists_read?_of_outcome hcs
  cases hy
  refine ⟨fun _ _ _ => rfl, fun m hm => ?_⟩
  obtain ⟨cs', hread', hlist⟩ := hm.exists_read? hlo hhi hread
  refine ⟨{ w' with memory := m }, ?_, hm, rfl⟩
  rw [outcome_bind_ok _ (outcome_load hread'),
    hf cs cs' (Memory.length_of_read? hread) hlist]
  rfl

theorem confined_loadValue (hlo : lo ≤ a.toNat) (hhi : a.toNat + τ.layout.size ≤ hi) :
    (loadValue τ a).Confined w lo hi := by
  unfold loadValue
  rw [← map_eq_pure_bind]
  refine confined_load hlo hhi ?_
  intro cs cs' _ hlist
  rw [hlist]

/-- A write of cells in the range after a read of as many, with marks that the read cells give. -/
theorem confined_replace {marks : Runs Cell → Runs Int64} {cs : Runs Cell} (hlo : lo ≤ a.toNat)
    (hread : a.toNat + n ≤ hi) (hwrite : a.toNat + cs.length ≤ hi)
    (hmarks : ∀ old old' : Runs Cell, old.length = n → old'.toList = old.toList →
      (marks old').toList = (marks old).toList) :
    (do
      let old ← load a n
      store a cs
      logDrops (marks old)).Confined w lo hi := by
  intro _ w' h
  obtain ⟨old, w₁, hload, hrest⟩ := exists_of_outcome_bind h
  obtain ⟨rfl, hold⟩ := exists_read?_of_outcome hload
  obtain ⟨_, w₂, hstore, hlog⟩ := exists_of_outcome_bind hrest
  obtain ⟨m₁, hm₁, rfl⟩ := exists_write?_of_outcome hstore
  cases hlog
  refine ⟨fun b k hdisjoint => ?_, fun m hm => ?_⟩
  · refine Memory.read?_write?_of_disjoint hm₁ ?_
    omega
  · obtain ⟨old', hold', hlist⟩ := hm.exists_read? hlo hread hold
    obtain ⟨m₂, hm₂⟩ := hm.exists_write? hm₁
    refine ⟨{ w₁ with memory := m₂, dropLog := w₁.dropLog ++ marks old' }, ?_,
      hm.write? hm₁ hm₂, ?_⟩
    · rw [outcome_bind_ok _ (outcome_load hold'), outcome_bind_ok _ (outcome_store hm₂)]
      rfl
    · simp only [Runs.toList_append]
      rw [hmarks old old' (Memory.length_of_read? hold) hlist]

theorem confined_assign (hlo : lo ≤ a.toNat) (hhi : a.toNat + τ.layout.size ≤ hi) (x : τ.Carrier) :
    (assign τ a x).Confined w lo hi := by
  have hlen : (Runs.ofList (τ.encode x)).length = τ.layout.size := by
    rw [Runs.length_ofList, ElemType.length_encode]
  have heq : assign τ a x = (do
      let old ← load a τ.layout.size
      store a (.ofList (τ.encode x))
      logDrops (.ofList (τ.dropMarks (τ.decode old.toList)))) := by
    unfold assign loadValue drop
    simp only [bind_assoc, pure_bind]
  rw [heq]
  refine confined_replace hlo hhi (by omega) ?_
  intro old old' _ hlist
  rw [hlist]

theorem confined_assignAll {xs : List τ.Carrier} (hlo : lo ≤ a.toNat)
    (hhi : a.toNat + xs.length * τ.layout.size ≤ hi) :
    (assignAll τ a (.ofList xs)).Confined w lo hi := by
  have hlen : (τ.encodeRuns (.ofList xs)).length = xs.length * τ.layout.size := by
    rw [ElemType.length_encodeRuns, Runs.length_ofList]
  unfold assignAll replaceElements
  rw [Runs.length_ofList]
  refine confined_replace hlo hhi (by omega) ?_
  intro old old' hold hlist
  have hold' : old'.length = xs.length * τ.layout.size := by
    rw [← Runs.length_toList, hlist, Runs.length_toList, hold]
  simp only [if_true]
  rw [ElemType.toList_dropMarksAll τ hold, ElemType.toList_dropMarksAll τ hold', hlist]

/-- An assignment where there is memory succeeds. -/
theorem exists_outcome_assign (hm : w.memory.isMapped a τ.layout.size = true) (x : τ.Carrier) :
    ∃ w', outcome (assign τ a x) w = (.ok (), w') := by
  have hlen : (Runs.ofList (τ.encode x)).length = τ.layout.size := by
    rw [Runs.length_ofList, ElemType.length_encode]
  obtain ⟨m, hw⟩ : ∃ m, w.memory.write? a (.ofList (τ.encode x)) = some m :=
    Memory.exists_write?_of_isMapped (hlen.symm ▸ hm)
  unfold assign
  rw [outcome_bind_ok _ (outcome_loadValue hm), outcome_bind_ok _ (outcome_store hw)]
  exact ⟨_, rfl⟩

end Operation

/-! ## 3. Confined accesses -/

section Arrays

variable {P : ElemType → Type} [ArrayLike P] {τ : ElemType}

/-- Every access through the pointer is confined, and one of an element that passes its check
succeeds. -/
structure ArrayLike.Confined (p : P τ) (w : World) (lo hi : Nat) : Prop where
  index : ∀ i, (index p i).Confined w lo hi
  get? : ∀ i, (get? p i).Confined w lo hi
  set : ∀ i x, (set p i x).Confined w lo hi
  trySet : ∀ i x, (trySet p i x).Confined w lo hi
  toList : (toList p).Confined w lo hi
  overwrite : ∀ xs, (overwrite p xs).Confined w lo hi
  succeeds : ∀ i a, locate p i = .ok a → lo ≤ a.toNat ∧ a.toNat + τ.layout.size ≤ hi ∧
    (∃ x, outcome (ArrayLike.index p i) w = (.ok x, w)) ∧
      ∀ x, ∃ w', outcome (ArrayLike.set p i x) w = (.ok (), w')

end Arrays

/-- Every access to the object at an address is confined, and succeeds. -/
structure ObjectConfined (τ : ElemType) (a : Address) (w : World) (lo hi : Nat) : Prop where
  read : (readObject τ a).Confined w lo hi
  read? : (readObject? τ a).Confined w lo hi
  write : ∀ x : τ.Carrier, (writeObject a x).Confined w lo hi
  tryWrite : ∀ x : τ.Carrier, (tryWriteObject a x).Confined w lo hi
  succeeds : (∃ x, outcome (readObject τ a) w = (.ok x, w)) ∧
    ∀ x : τ.Carrier, ∃ w', outcome (writeObject a x) w = (.ok (), w')

/-! ## 4. Accesses to storage -/

section Storage

variable {P : ElemType → Type} [ArrayLike P] {τ : ElemType} {p : P τ} {Q : Storage}
  {w : World} {lo hi : Nat} {a : Address} (hQ : Q.Mapped w.memory)

include hQ

/-- An element that a check let through lies in the extent. -/
theorem Span.In.locate_within {s : Span} (hs : s.In Q τ) {i : Int64}
    (hl : s.locate τ.size i = .ok a) :
    s.base.toNat ≤ a.toNat ∧
      a.toNat + τ.layout.size ≤ s.base.toNat + s.extent.toNat * τ.layout.size := by
  obtain ⟨hne, k, hk, rfl⟩ := locate_eq_ok hl
  have haddr := hQ.toNat_element (hs.resolve_left hne) (Nat.le_of_lt hk)
  have hmul := τ.mul_size_add_le hk
  exact ⟨by omega, by omega⟩

/-- The rest of the array lies in the extent. -/
theorem Span.In.rest_within {count : UInt64} (hs : (ArrayLike.span p).In Q τ)
    (hr : ArrayLike.rest p = .ok (a, count)) :
    (ArrayLike.span p).base.toNat ≤ a.toNat ∧
      a.toNat + count.toNat * τ.layout.size ≤
        (ArrayLike.span p).base.toNat + (ArrayLike.span p).extent.toNat * τ.layout.size := by
  obtain ⟨rfl, hne, hsum⟩ := ArrayLike.rest_eq_ok hr
  have haddr := hQ.toNat_element (hs.resolve_left hne)
    (i := (ArrayLike.span p).index.toUInt64) (by omega)
  have hmul : ((ArrayLike.span p).index.toUInt64.toNat + count.toNat) * τ.layout.size ≤
      (ArrayLike.span p).extent.toNat * τ.layout.size := Nat.mul_le_mul_right _ (by omega)
  rw [Nat.add_mul] at hmul
  unfold ArrayLike.address Span.address Span.elementAddress
  exact ⟨by omega, by omega⟩

/-- **Accesses through a pointer to storage are confined to what its extent lies in.** -/
theorem Span.In.confined (hs : (ArrayLike.span p).In Q τ)
    (hlo : lo ≤ (ArrayLike.span p).base.toNat)
    (hhi : (ArrayLike.span p).base.toNat + (ArrayLike.span p).extent.toNat * τ.layout.size ≤ hi) :
    ArrayLike.Confined p w lo hi where
  index i := by
    refine confined_check fun a hl => ?_
    have hin := hs.locate_within hQ hl
    exact confined_loadValue (by omega) (by omega)
  get? i := by
    unfold ArrayLike.get?
    cases hl : ArrayLike.locate p i with
    | error v => exact confined_pure none
    | ok a =>
      have hin := hs.locate_within hQ hl
      exact (confined_loadValue (by omega) (by omega)).map some
  set i x := by
    refine confined_check fun a hl => ?_
    have hin := hs.locate_within hQ hl
    exact confined_assign (by omega) (by omega) x
  trySet i x := by
    unfold ArrayLike.trySet
    cases hl : ArrayLike.locate p i with
    | error v => exact confined_pure false
    | ok a =>
      have hin := hs.locate_within hQ hl
      exact (confined_assign (by omega) (by omega) x).andThen true
  toList := by
    have heq : ArrayLike.toList p = (check (ArrayLike.rest p) >>= fun r =>
        (fun cs => (τ.decodeRuns r.2.toNat cs).toList) <$>
          load r.1 (r.2.toNat * τ.layout.size)) := by
      simp only [ArrayLike.toList, ArrayLike.elements, loadValues, bind_assoc, pure_bind,
        map_eq_pure_bind]
    rw [heq]
    refine confined_check ?_
    rintro ⟨a, count⟩ hr
    have hin := hs.rest_within hQ hr
    dsimp only
    refine confined_load (by omega) (by omega) ?_
    intro cs cs' hcs hlist
    have hcs' : cs'.length = count.toNat * τ.layout.size := by
      rw [← Runs.length_toList, hlist, Runs.length_toList, hcs]
    rw [ElemType.toList_decodeRuns τ hcs, ElemType.toList_decodeRuns τ hcs', hlist]
  overwrite xs := by
    unfold ArrayLike.overwrite
    refine confined_check ?_
    rintro ⟨a, count⟩ hr
    have hin := hs.rest_within hQ hr
    have hlen : (xs.take count.toNat).length * τ.layout.size ≤ count.toNat * τ.layout.size :=
      Nat.mul_le_mul_right _ (List.length_take_le _ _)
    exact (confined_assignAll (by omega) (by omega)).andThen count
  succeeds i a hl := by
    have hin := hs.locate_within hQ hl
    have hmapped : w.memory.isMapped a τ.layout.size = true :=
      Nat.one_mul τ.layout.size ▸ hQ.mapped (hs.locate hQ.toDivides hl)
    refine ⟨by omega, by omega, ?_, fun x => ?_⟩
    · unfold ArrayLike.index
      rw [hl]
      exact ⟨_, outcome_loadValue hmapped⟩
    · unfold ArrayLike.set
      rw [hl]
      exact exists_outcome_assign hmapped x

/-- **Accesses to an object in storage are confined to what it lies in.** -/
theorem Storage.Mapped.objectConfined (ha : Q τ a 1) (hne : a ≠ 0) (hlo : lo ≤ a.toNat)
    (hhi : a.toNat + τ.layout.size ≤ hi) : ObjectConfined τ a w lo hi := by
  have hcheck : notNull a = .ok a := by rw [notNull, if_neg hne]
  have hmapped : w.memory.isMapped a τ.layout.size = true :=
    Nat.one_mul τ.layout.size ▸ hQ.mapped ha
  refine ⟨?_, ?_, fun x => ?_, fun x => ?_, ?_, fun x => ?_⟩
  · unfold readObject
    rw [hcheck]
    exact confined_loadValue hlo hhi
  · unfold readObject?
    rw [if_neg hne]
    exact (confined_loadValue hlo hhi).map some
  · unfold writeObject
    rw [hcheck]
    exact confined_assign hlo hhi x
  · unfold tryWriteObject
    rw [if_neg hne]
    exact (confined_assign hlo hhi x).andThen true
  · unfold readObject
    rw [hcheck]
    exact ⟨_, outcome_loadValue hmapped⟩
  · unfold writeObject
    rw [hcheck]
    exact exists_outcome_assign hmapped x

end Storage

end CheckedMemory
