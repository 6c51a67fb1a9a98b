import Mathlib.Data.List.Basic
import Mathlib.Data.List.TakeWhile

/-!
# Pieces of a text

A call that takes a token off a text takes a piece off it: delimiters, the token, and the delimiter
that ended it if the end of the text did not.  The delimiters may be others at each call, so what a
run of calls does to a text is said of pieces (`Cuts`), one rule for each way in which a call can
end, and the rest of this module reads off what such a run amounts to: pieces and rest make up the
text, and which calls found nothing and why (`Cuts.decomposes`).  If the delimiters are the same at
every call then the tokens are the fields of the text that are not empty (`Cuts.fields`).

Nothing here is about memory.
-/

namespace CheckedMemory

/-! ## 1. One piece -/

/-- Nothing of the other kind follows exactly if all are of one kind. -/
theorem takeWhile_dropWhile_eq_nil_iff {α : Type} {p : α → Bool} {l : List α} :
    (l.dropWhile p).takeWhile (!p ·) = [] ↔ ∀ x ∈ l, p x = true := by
  rw [← List.dropWhile_eq_nil_iff]
  constructor
  · intro h
    cases hmore : l.dropWhile p with
    | nil => rfl
    | cons b more =>
      have hnot := List.head?_dropWhile_not p l
      rw [hmore] at hnot
      simp only [List.head?_cons] at hnot
      simp [hmore, hnot] at h
  · intro h
    rw [h, List.takeWhile_nil]

/-- Delimiters, a token, and the delimiter that ended it, if it was one. -/
structure Piece where
  blank : List UInt8
  token : List UInt8
  stop : Option UInt8

namespace Piece

variable {D r : List UInt8} {c : Piece}

/-- The bytes of the text that the piece takes up. -/
def bytes (c : Piece) : List UInt8 := c.blank ++ (c.token ++ c.stop.toList)

/-- Those bytes with a terminator for the delimiter that ended the token. -/
def marked (c : Piece) : List UInt8 := c.blank ++ (c.token ++ c.stop.toList.map fun _ => 0)

@[simp] theorem length_marked (c : Piece) : c.marked.length = c.bytes.length := by
  simp [marked, bytes]

/-- The token is the first one for these delimiters, and one of them ended it or none did. -/
structure CutBy (c : Piece) (D : List UInt8) : Prop where
  blank : ∀ b ∈ c.blank, b ∈ D
  nonempty : c.token ≠ []
  token : ∀ b ∈ c.token, b ∉ D
  stop : ∀ d, c.stop = some d → d ∈ D

/-- The first piece of a text, without a token if there is none. -/
def first (D r : List UInt8) : Piece where
  blank := r.takeWhile D.contains
  token := (r.dropWhile D.contains).takeWhile (!D.contains ·)
  stop := ((r.dropWhile D.contains).dropWhile (!D.contains ·)).head?

/-- What is left of a text after its first piece. -/
def rest (D r : List UInt8) : List UInt8 :=
  ((r.dropWhile D.contains).dropWhile (!D.contains ·)).tail

/-- **The first piece and the rest make up the text.** -/
theorem bytes_first_append_rest (D r : List UInt8) : (first D r).bytes ++ rest D r = r := by
  have hlast : ∀ l : List UInt8, l.head?.toList ++ l.tail = l := fun l => by cases l <;> rfl
  simp only [bytes, first, rest, List.append_assoc, hlast, List.takeWhile_append_dropWhile]

theorem rest_eq_nil (h : (first D r).stop = none) : rest D r = [] := by
  rw [rest, List.head?_eq_none_iff.mp h, List.tail_nil]

theorem first_cutBy (h : (first D r).token ≠ []) : (first D r).CutBy D where
  blank b hb := by simpa using List.mem_takeWhile_imp hb
  nonempty := h
  token b hb := by simpa using List.mem_takeWhile_imp hb
  stop d hd := by
    have hnot := List.head?_dropWhile_not (!D.contains ·) (r.dropWhile D.contains)
    rw [show List.head? _ = some d from hd] at hnot
    simpa using hnot

/-- **There is no token exactly if all of the text are delimiters.** -/
theorem token_first_eq_nil_iff : (first D r).token = [] ↔ ∀ b ∈ r, b ∈ D :=
  takeWhile_dropWhile_eq_nil_iff.trans (by simp)

end Piece

/-! ## 2. Fields -/

/-- The fields of a text between delimiters that are not empty, in order. -/
def fields (D x : List UInt8) : List (List UInt8) := (x.splitOnP D.contains).filter (· ≠ [])

section Fields

variable {D x y s : List UInt8} {d : UInt8} {c : Piece}

/-- A delimiter is where fields are parted. -/
theorem fields_append_cons (hd : d ∈ D) : fields D (x ++ d :: y) = fields D x ++ fields D y := by
  rw [fields, List.splitOnP_append_cons x y (by simpa using hd), List.filter_append]
  rfl

theorem fields_append_of_forall (hs : ∀ b ∈ s, b ∈ D) : fields D (s ++ y) = fields D y := by
  induction s with
  | nil => rfl
  | cons b s ih =>
    have hb := fields_append_cons (x := []) (y := s ++ y) (hs b List.mem_cons_self)
    rw [List.cons_append, ← List.nil_append (b :: (s ++ y)), hb,
      ih fun b hb => hs b (List.mem_cons_of_mem _ hb)]
    rfl

theorem fields_eq_nil (hs : ∀ b ∈ s, b ∈ D) : fields D s = [] := by
  have h := fields_append_of_forall (y := []) hs
  rw [List.append_nil] at h
  rw [h]
  rfl

/-- What has no delimiter in it is one field. -/
theorem fields_eq_singleton (hne : x ≠ []) (hx : ∀ b ∈ x, b ∉ D) : fields D x = [x] := by
  rw [fields, List.splitOnP_eq_singleton fun b hb => by simpa using hx b hb]
  simp [hne]

/-- **A piece is one field.** -/
theorem Piece.CutBy.fields (hc : c.CutBy D) (hlast : c.stop = none → y = []) :
    CheckedMemory.fields D (c.bytes ++ y) = c.token :: CheckedMemory.fields D y := by
  rw [bytes, List.append_assoc, fields_append_of_forall hc.blank, List.append_assoc]
  cases hstop : c.stop with
  | none =>
    rw [hlast hstop]
    simp [fields_eq_singleton hc.nonempty hc.token, fields_eq_nil]
  | some d =>
    have hd := fields_append_cons (x := c.token) (y := y) (hc.stop d hstop)
    rw [fields_eq_singleton hc.nonempty hc.token] at hd
    exact hd

end Fields

/-! ## 3. A run of calls -/

/-- A call: its delimiters, and what it found. -/
structure Call (α : Type) where
  delims : List UInt8
  result : Option α

section Runs

variable {α : Type} {found : Nat → α} {x rest D : List UInt8} {calls : List (Call α)}
  {pieces : List Piece} {more : Bool} {c : Piece} {i : Nat} {r : Option α}

/-- How many bytes the pieces take up. -/
def Piece.total (pieces : List Piece) : Nat := (pieces.flatMap bytes).length

theorem Piece.length_flatMap_marked (pieces : List Piece) :
    (pieces.flatMap marked).length = total pieces := by
  simp [total, List.length_flatMap]

theorem Piece.total_append_singleton :
    total (pieces ++ [c]) = total pieces + c.bytes.length := by
  simp [total]

/-- What calls do to the text `x`, the last call last: the pieces that they took off it, what is
left, and whether any more is looked for.  The token at an offset of the text is found as `found`
says. -/
inductive Cuts (found : Nat → α) (x : List UInt8) :
    List (Call α) → List Piece → List UInt8 → Bool → Prop
  | start : Cuts found x [] [] x true
  | token {cs : List (Call α)} {ps : List Piece} {y E : List UInt8} {p : Piece}
      (h : Cuts found x cs ps (p.bytes ++ y) true) (hp : p.CutBy E)
      (hlast : p.stop = none → y = []) :
      Cuts found x (cs ++ [⟨E, some (found (Piece.total ps + p.blank.length))⟩]) (ps ++ [p]) y
        p.stop.isSome
  | missing {cs : List (Call α)} {ps : List Piece} {y E : List UInt8}
      (h : Cuts found x cs ps y true) (hy : ∀ b ∈ y, b ∈ E) :
      Cuts found x (cs ++ [⟨E, none⟩]) ps y false
  | ended {cs : List (Call α)} {ps : List Piece} {y E : List UInt8}
      (h : Cuts found x cs ps y false) : Cuts found x (cs ++ [⟨E, none⟩]) ps y false

/-- What a run of calls amounts to. -/
structure Decomposes (found : Nat → α) (x : List UInt8) (calls : List (Call α))
    (pieces : List Piece) (rest : List UInt8) : Prop where
  /-- Nothing is lost and nothing is invented. -/
  whole : x = pieces.flatMap Piece.bytes ++ rest
  /-- Each piece was cut by a call of its own, in order, and found where it is. -/
  cut : ∀ (i : Nat) (c : Piece), pieces[i]? = some c → ∃ D, c.CutBy D ∧
    calls[i]? = some ⟨D, some (found (Piece.total (pieces.take i) + c.blank.length))⟩
  /-- Only the end of the text ends a token otherwise than a delimiter does. -/
  last : ∀ (i : Nat) (c : Piece), pieces[i]? = some c → c.stop = none →
    pieces.length = i + 1 ∧ rest = []
  /-- As long as none was in vain, a call is in vain exactly if delimiters are all that is left. -/
  none_iff : ∀ (i : Nat) D r, calls[i]? = some ⟨D, r⟩ → i ≤ pieces.length →
    (r = none ↔ ∀ b ∈ x.drop (Piece.total (pieces.take i)), b ∈ D)
  /-- And every call after one that was in vain is. -/
  after : ∀ (i : Nat) D r, calls[i]? = some ⟨D, r⟩ → pieces.length ≤ i → r = none

namespace Cuts

theorem text (h : Cuts found x calls pieces rest more) :
    x = pieces.flatMap Piece.bytes ++ rest := by
  induction h with
  | start => rfl
  | token h hp hlast ih => simpa using ih
  | missing h hy ih | ended h ih => exact ih

/-- Each piece is the work of one call, and as long as there is more to find there are no others. -/
theorem length_le (h : Cuts found x calls pieces rest more) :
    pieces.length ≤ calls.length ∧ (more = true → pieces.length = calls.length) := by
  induction h with
  | start => simp
  | token h hp hlast ih =>
    have := ih.2 rfl
    simp [this]
  | missing h hy ih | ended h ih =>
    simp only [List.length_append, List.length_singleton, reduceCtorEq, false_implies, and_true]
    omega

/-- No more is looked for when nothing is left, or after a call that was in vain. -/
theorem spent (h : Cuts found x calls pieces rest more) (hmore : more = false) :
    rest = [] ∨ pieces.length < calls.length := by
  induction h with
  | start => cases hmore
  | token h hp hlast ih => exact .inl (hlast (by simpa using hmore))
  | missing h hy ih =>
    have := h.length_le.2 rfl
    simp [this]
  | ended h ih =>
    have := h.length_le.1
    simp only [List.length_append, List.length_singleton]
    omega

/-- What a list gets at its end is found there, and before it what was there. -/
theorem getElem?_concat_eq_some_iff {β : Type} {l : List β} {a b : β} :
    (l ++ [a])[i]? = some b ↔ l[i]? = some b ∨ i = l.length ∧ a = b := by
  rw [List.getElem?_append]
  split
  · have : i ≠ l.length := by omega
    simp [this]
  · rename_i hle
    rw [List.getElem?_eq_none (l := l) (by omega), List.getElem?_singleton]
    by_cases hi : i = l.length
    · simp [hi]
    · rw [if_neg (by omega)]
      simp [hi]

theorem cut (h : Cuts found x calls pieces rest more) (hc : pieces[i]? = some c) :
    ∃ D, c.CutBy D ∧
      calls[i]? = some ⟨D, some (found (Piece.total (pieces.take i) + c.blank.length))⟩ := by
  induction h with
  | start => cases hc
  | @token cs ps y E p h hp hlast ih =>
    rcases getElem?_concat_eq_some_iff.mp hc with hold | ⟨rfl, rfl⟩
    · obtain ⟨D, hD, hcall⟩ := ih hold
      have hi := (List.getElem?_eq_some_iff.mp hold).1
      rw [List.take_append_of_le_length (Nat.le_of_lt hi)]
      exact ⟨D, hD, getElem?_concat_eq_some_iff.mpr (.inl hcall)⟩
    · rw [List.take_left]
      exact ⟨E, hp, getElem?_concat_eq_some_iff.mpr (.inr ⟨h.length_le.2 rfl, rfl⟩)⟩
  | missing h hy ih | ended h ih =>
    obtain ⟨D, hD, hcall⟩ := ih hc
    exact ⟨D, hD, getElem?_concat_eq_some_iff.mpr (.inl hcall)⟩

theorem last (h : Cuts found x calls pieces rest more) (hc : pieces[i]? = some c)
    (hstop : c.stop = none) : more = false ∧ pieces.length = i + 1 ∧ rest = [] := by
  induction h with
  | start => cases hc
  | token h hp hlast ih =>
    rcases getElem?_concat_eq_some_iff.mp hc with hold | ⟨rfl, rfl⟩
    · cases (ih hold).1
    · exact ⟨by rw [hstop]; rfl, List.length_append, hlast hstop⟩
  | missing h hy ih => cases (ih hc).1
  | ended h ih => exact ih hc

theorem vain (h : Cuts found x calls pieces rest more) (hcall : calls[i]? = some ⟨D, r⟩)
    (hi : pieces.length ≤ i) : r = none ∧ (i = pieces.length → ∀ b ∈ rest, b ∈ D) := by
  induction h with
  | start => cases hcall
  | token h hp hlast ih =>
    have hlen := h.length_le.2 rfl
    rw [List.length_append, List.length_singleton] at hi
    rcases getElem?_concat_eq_some_iff.mp hcall with hold | ⟨rfl, -⟩
    · have := (List.getElem?_eq_some_iff.mp hold).1
      omega
    · omega
  | missing h hy ih =>
    rcases getElem?_concat_eq_some_iff.mp hcall with hold | ⟨rfl, heq⟩
    · exact ih hold hi
    · cases heq
      exact ⟨rfl, fun _ => hy⟩
  | ended h ih =>
    rcases getElem?_concat_eq_some_iff.mp hcall with hold | ⟨rfl, heq⟩
    · exact ih hold hi
    · cases heq
      refine ⟨rfl, fun hlen => ?_⟩
      rcases h.spent rfl with hnil | hlt
      · simp [hnil]
      · omega

/-- **What a run of calls amounts to.** -/
theorem decomposes (h : Cuts found x calls pieces rest more) :
    Decomposes found x calls pieces rest where
  whole := h.text
  cut _ _ hc := h.cut hc
  last _ _ hc hstop := (h.last hc hstop).2
  none_iff i D r hcall hi := by
    rcases Nat.lt_or_eq_of_le hi with hlt | rfl
    · -- the call found a token, whose bytes are left then
      have hc : pieces[i]? = some pieces[i] := List.getElem?_eq_getElem hlt
      obtain ⟨E, hE, hcall'⟩ := h.cut hc
      rw [hcall] at hcall'
      cases hcall'
      have hdrop : x.drop (Piece.total (pieces.take i)) =
          pieces[i].bytes ++ ((pieces.drop (i + 1)).flatMap Piece.bytes ++ rest) := by
        have hsplit := congrArg (List.flatMap Piece.bytes) (List.take_append_drop i pieces)
        rw [List.drop_eq_getElem_cons hlt, List.flatMap_append, List.flatMap_cons] at hsplit
        rw [h.text, ← hsplit, List.append_assoc, Piece.total, List.drop_left, List.append_assoc]
      obtain ⟨b, hb⟩ := List.exists_mem_of_ne_nil _ hE.nonempty
      refine ⟨fun hnone => (nomatch hnone), fun hall => absurd (hall b ?_) (hE.token b hb)⟩
      rw [hdrop, Piece.bytes]
      simp [hb]
    · have hdrop : x.drop (Piece.total (pieces.take pieces.length)) = rest := by
        rw [List.take_length, h.text, Piece.total, List.drop_left]
      have hvain := h.vain hcall (Nat.le_refl _)
      rw [hdrop]
      exact ⟨fun _ => hvain.2 rfl, fun _ => hvain.1⟩
  after _ _ _ hcall hi := (h.vain hcall hi).1

/-- **With the same delimiters at every call, the tokens are the fields.** -/
theorem fields (h : Cuts found x calls pieces rest more)
    (hD : ∀ c ∈ calls, ∀ b, b ∈ c.delims ↔ b ∈ D) :
    CheckedMemory.fields D x = pieces.map Piece.token ++ CheckedMemory.fields D rest := by
  induction h with
  | start => rfl
  | @token cs ps y E p h hp hlast ih =>
    have hE := hD ⟨E, _⟩ (List.mem_append_right _ List.mem_cons_self)
    have hp' : p.CutBy D := ⟨fun b hb => (hE b).mp (hp.blank b hb), hp.nonempty,
      fun b hb hbD => hp.token b hb ((hE b).mpr hbD), fun d hd => (hE d).mp (hp.stop d hd)⟩
    rw [ih fun c hc => hD c (List.mem_append_left _ hc), hp'.fields hlast]
    simp
  | missing h hy ih | ended h ih => exact ih fun c hc => hD c (List.mem_append_left _ hc)

/-- And they are all of them once a call was in vain. -/
theorem fields_of_vain (h : Cuts found x calls pieces rest more)
    (hD : ∀ c ∈ calls, ∀ b, b ∈ c.delims ↔ b ∈ D) (hvain : ∃ c ∈ calls, c.result = none) :
    CheckedMemory.fields D x = pieces.map Piece.token := by
  obtain ⟨⟨E, r⟩, hmem, rfl⟩ := hvain
  obtain ⟨i, hi, hcall⟩ := List.mem_iff_getElem.mp hmem
  have hlen : pieces.length < calls.length := by
    refine Nat.lt_of_le_of_lt (Nat.le_of_not_lt fun hlt => ?_) hi
    obtain ⟨D', -, hcall'⟩ := h.cut (List.getElem?_eq_getElem hlt)
    rw [List.getElem?_eq_getElem hi, hcall] at hcall'
    cases hcall'
  have hfirst : calls[pieces.length]? = some calls[pieces.length] := List.getElem?_eq_getElem hlen
  have hrest := (h.vain hfirst (Nat.le_refl _)).2 rfl
  have hsame := hD _ (List.getElem_mem hlen)
  rw [h.fields hD, fields_eq_nil fun b hb => (hsame b).mp (hrest b hb), List.append_nil]

end Cuts

end Runs

end CheckedMemory
