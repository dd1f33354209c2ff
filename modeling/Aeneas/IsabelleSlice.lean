import Aeneas.IsabelleScalar

/-!
# Slice indexing in the Isabelle prelude

A mutable borrow of a part of a slice returns the part and a function which puts
another one in its place. The indices `i`, `a..b` and `..b` all select a window of
the slice, the first one a window of a single element.
-/

namespace Aeneas

open List

/-! ## Windows of lists -/

section
variable {α : Type} {lo hi : Nat} {s w : List α}

def window (lo hi : Nat) (s : List α) : List α := (s.drop lo).take (hi - lo)

def splice (lo hi : Nat) (s w : List α) : List α := s.take lo ++ w ++ s.drop hi

theorem length_window (hhi : hi ≤ s.length) : (window lo hi s).length = hi - lo := by
  simp only [window, length_take, length_drop]
  omega

theorem splice_window (hlo : lo ≤ hi) : splice lo hi s (window lo hi s) = s := by
  rw [splice, window, ← take_add, Nat.add_sub_cancel' hlo, take_append_drop]

theorem window_splice (hlo : lo ≤ hi) (hhi : hi ≤ s.length) (hw : w.length = hi - lo) :
    window lo hi (splice lo hi s w) = w := by
  have htake : (s.take lo).length = lo := by rw [length_take]; omega
  rw [window, splice, append_assoc, drop_append_of_le_length htake.ge, drop_of_length_le htake.le,
    nil_append, ← hw, take_left]

theorem length_splice (hlo : lo ≤ hi) (hhi : hi ≤ s.length) :
    (splice lo hi s w).length + (hi - lo) = s.length + w.length := by
  simp only [splice, length_append, length_take, length_drop]
  omega

theorem getElem?_splice (hlo : lo ≤ hi) (hhi : hi ≤ s.length) (hw : w.length = hi - lo) {k : Nat}
    (hk : k < lo ∨ hi ≤ k) : (splice lo hi s w)[k]? = s[k]? := by
  have htake : (s.take lo).length = lo := by rw [length_take]; omega
  rcases hk with hk | hk
  · rw [splice, append_assoc, getElem?_append_left (by omega), getElem?_take_of_lt hk]
  · rw [splice, getElem?_append_right (by rw [length_append]; omega), getElem?_drop,
      length_append]
    congr 1
    omega

theorem set_eq_splice {i : Nat} (hi : i < s.length) (x : α) : s.set i x = splice i (i + 1) s [x] := by
  rw [splice, set_eq_take_append_cons_drop, if_pos hi]
  simp

theorem window_succ {i : Nat} (hi : i < s.length) : window i (i + 1) s = [s.get ⟨i, hi⟩] := by
  rw [window, drop_eq_getElem_cons hi, Nat.add_sub_cancel_left, take_succ_cons, take_zero]
  rfl

end

end Aeneas

namespace Aeneas.Isabelle
variable {α β ι : Type}

/-! ## The prelude -/

structure Range (α : Type) where
  start : α
  (end' : α)

structure RangeTo (α : Type) where
  (end' : α)

structure ConstRawPtr (α : Type) where
  v : α

structure MutRawPtr (α : Type) where
  v : α

structure SliceIndex (ι T β : Type) where
  get : ι → T → Result (Option β)
  getMut : ι → T → Result (Option β × (Option β → T))
  getUnchecked : ι → ConstRawPtr T → Result (ConstRawPtr β)
  getUncheckedMut : ι → MutRawPtr T → Result (MutRawPtr β)
  index : ι → T → Result β
  indexMut : ι → T → Result (β × (β → T))

variable {s : List α}

theorem toNat_lt_length {i : Int} (h : 0 ≤ i ∧ i < s.length) : i.toNat < s.length := by omega

def sliceIndexUsize (s : List α) (i : Int) : Result α :=
  if h : 0 ≤ i ∧ i < s.length then pure (s.get ⟨i.toNat, toNat_lt_length h⟩) else .fail .failure

def sliceUpdate (s : List α) (i : Int) (x : α) : List α :=
  if 0 ≤ i ∧ i < s.length then s.set i.toNat x else s

def sliceIndexMutUsize (s : List α) (i : Int) : Result (α × (α → List α)) :=
  if h : 0 ≤ i ∧ i < s.length then pure (s.get ⟨i.toNat, toNat_lt_length h⟩, sliceUpdate s i) else .fail .failure

def sliceRangeValid (r : Range Int) (s : List α) : Bool :=
  decide (0 ≤ r.start) && decide (r.start ≤ r.end') && decide (r.end' ≤ s.length)

def sliceSubslice (s : List α) (r : Range Int) : Result (List α) :=
  if sliceRangeValid r s then pure ((s.drop r.start.toNat).take (r.end' - r.start).toNat) else .fail .failure

def sliceReplaceRange (s : List α) (r : Range Int) (ns : List α) : List α :=
  if sliceRangeValid r s ∧ (ns.length : Int) = r.end' - r.start then
    s.take r.start.toNat ++ ns ++ s.drop r.end'.toNat
  else s

namespace SliceIndexUsize

def get (i : Int) (s : List α) : Result (Option α) :=
  pure (if h : 0 ≤ i ∧ i < s.length then some (s.get ⟨i.toNat, toNat_lt_length h⟩) else none)

def getMut (i : Int) (s : List α) : Result (Option α × (Option α → List α)) :=
  pure (if h : 0 ≤ i ∧ i < s.length then
    (some (s.get ⟨i.toNat, toNat_lt_length h⟩), fun x => x.elim s (sliceUpdate s i))
  else (none, fun _ => s))

def getUnchecked (_ : Int) (_ : ConstRawPtr (List α)) : Result (ConstRawPtr α) := .fail .failure

def getUncheckedMut (_ : Int) (_ : MutRawPtr (List α)) : Result (MutRawPtr α) := .fail .failure

def index (i : Int) (s : List α) : Result α := sliceIndexUsize s i

def indexMut (i : Int) (s : List α) : Result (α × (α → List α)) := sliceIndexMutUsize s i

def inst (α : Type) : SliceIndex Int (List α) α where
  get := get
  getMut := getMut
  getUnchecked := getUnchecked
  getUncheckedMut := getUncheckedMut
  index := index
  indexMut := indexMut

end SliceIndexUsize

namespace SliceIndexRangeUsize

def get (r : Range Int) (s : List α) : Result (Option (List α)) :=
  if sliceRangeValid r s then do
    let ss ← sliceSubslice s r
    pure (some ss)
  else pure none

def getMut (r : Range Int) (s : List α) : Result (Option (List α) × (Option (List α) → List α)) :=
  if sliceRangeValid r s then do
    let ss ← sliceSubslice s r
    pure (some ss, fun nss => nss.elim s (sliceReplaceRange s r))
  else pure (none, fun _ => s)

def getUnchecked (_ : Range Int) (_ : ConstRawPtr (List α)) : Result (ConstRawPtr (List α)) := .fail .failure

def getUncheckedMut (_ : Range Int) (_ : MutRawPtr (List α)) : Result (MutRawPtr (List α)) := .fail .failure

def index (r : Range Int) (s : List α) : Result (List α) := sliceSubslice s r

def indexMut (r : Range Int) (s : List α) : Result (List α × (List α → List α)) := do
  let ss ← sliceSubslice s r
  pure (ss, sliceReplaceRange s r)

def inst (α : Type) : SliceIndex (Range Int) (List α) (List α) where
  get := get
  getMut := getMut
  getUnchecked := getUnchecked
  getUncheckedMut := getUncheckedMut
  index := index
  indexMut := indexMut

end SliceIndexRangeUsize

def sliceRangeToValid (r : RangeTo Int) (s : List α) : Bool := decide (0 ≤ r.end') && decide (r.end' ≤ s.length)

def sliceRangeToPrefix (r : RangeTo Int) (s : List α) : List α := s.take r.end'.toNat

-- Unlike `sliceReplaceRange`, this does not check the length of the part.
def sliceRangeToReplace (r : RangeTo Int) (s ys : List α) : List α := ys ++ s.drop r.end'.toNat

namespace SliceIndexRangeToUsize

def get (r : RangeTo Int) (s : List α) : Result (Option (List α)) :=
  .ok (if sliceRangeToValid r s then some (sliceRangeToPrefix r s) else none)

def getMut (r : RangeTo Int) (s : List α) : Result (Option (List α) × (Option (List α) → List α)) :=
  if sliceRangeToValid r s then
    .ok (some (sliceRangeToPrefix r s), fun nss => nss.elim s (sliceRangeToReplace r s))
  else .ok (none, fun _ => s)

def getUnchecked (_ : RangeTo Int) (_ : ConstRawPtr (List α)) : Result (ConstRawPtr (List α)) := .fail .failure

def getUncheckedMut (_ : RangeTo Int) (_ : MutRawPtr (List α)) : Result (MutRawPtr (List α)) := .fail .failure

def index (r : RangeTo Int) (s : List α) : Result (List α) :=
  if sliceRangeToValid r s then .ok (sliceRangeToPrefix r s) else .fail .failure

def indexMut (r : RangeTo Int) (s : List α) : Result (List α × (List α → List α)) :=
  if sliceRangeToValid r s then .ok (sliceRangeToPrefix r s, sliceRangeToReplace r s) else .fail .failure

def inst (α : Type) : SliceIndex (RangeTo Int) (List α) (List α) where
  get := get
  getMut := getMut
  getUnchecked := getUnchecked
  getUncheckedMut := getUncheckedMut
  index := index
  indexMut := indexMut

end SliceIndexRangeToUsize

/-! ## Lenses -/

attribute [local simp] SliceIndexUsize.inst SliceIndexUsize.get SliceIndexUsize.index SliceIndexUsize.indexMut
  SliceIndexRangeUsize.inst SliceIndexRangeUsize.get SliceIndexRangeUsize.getMut SliceIndexRangeUsize.index
  SliceIndexRangeUsize.indexMut SliceIndexRangeToUsize.inst SliceIndexRangeToUsize.get SliceIndexRangeToUsize.getMut
  SliceIndexRangeToUsize.index SliceIndexRangeToUsize.indexMut

/-- Borrowing a part agrees with reading it, and giving a part back replaces it and nothing else. -/
structure LensLaws (inst : SliceIndex ι (List α) β) (view : β → List α) (lo hi : Nat) (i : ι) (s : List α) : Prop where
  indexMut_fst : (do let p ← inst.indexMut i s; pure p.1) = inst.index i s
  put_same : ∀ v back, inst.indexMut i s = .ok (v, back) → back v = s
  index_put : ∀ v back w, inst.indexMut i s = .ok (v, back) → (view w).length = (view v).length →
    inst.index i (back w) = .ok w
  outside : ∀ v back w, inst.indexMut i s = .ok (v, back) → (view w).length = (view v).length →
    (back w).length = s.length ∧ ∀ k, k < lo ∨ hi ≤ k → (back w)[k]? = s[k]?
  get_some : ∀ v, inst.get i s = .ok (some v) ↔ inst.index i s = .ok v

/-- An index selects the window from `lo` to `hi` of the slices whose length is valid for it. -/
structure Windowed (inst : SliceIndex ι (List α) β) (view : β → List α) (valid : ι → Nat → Prop) (lo hi : ι → Nat) :
    Prop where
  view_injective : Function.Injective view
  bounds : ∀ {i n}, valid i n → lo i ≤ hi i ∧ hi i ≤ n
  hit : ∀ {i s}, valid i s.length → ∃ v back, view v = window (lo i) (hi i) s ∧
    inst.get i s = .ok (some v) ∧ inst.index i s = .ok v ∧ inst.indexMut i s = .ok (v, back) ∧
    ∀ w, (view w).length = hi i - lo i → back w = splice (lo i) (hi i) s (view w)
  miss : ∀ {i s}, ¬ valid i s.length →
    inst.get i s = .ok none ∧ inst.index i s = .fail .failure ∧ inst.indexMut i s = .fail .failure

theorem Windowed.lensLaws {inst : SliceIndex ι (List α) β} {view : β → List α} {valid : ι → Nat → Prop}
    {lo hi : ι → Nat} (h : Windowed inst view valid lo hi) (i : ι) (s : List α) :
    LensLaws inst view (lo i) (hi i) i s := by
  by_cases hvalid : valid i s.length
  · obtain ⟨hlo, hhi⟩ := h.bounds hvalid
    obtain ⟨v, back, hview, hget, hindex, hmut, hback⟩ := h.hit hvalid
    have hlen : (view v).length = hi i - lo i := by rw [hview, length_window hhi]
    have hput : ∀ w, (view w).length = (view v).length → back w = splice (lo i) (hi i) s (view w) := by
      intro w hw
      exact hback w (hw.trans hlen)
    have hsame : ∀ w, (view w).length = (view v).length → (back w).length = s.length := by
      intro w hw
      have := length_splice (w := view w) hlo hhi
      rw [hput w hw]
      omega
    refine ⟨?_, ?_, ?_, ?_, ?_⟩
    · rw [hmut, hindex]
      rfl
    · intro v' back' hmut'
      obtain ⟨rfl, rfl⟩ := Prod.mk.inj (Result.ok.inj (hmut.symm.trans hmut'))
      rw [hput v rfl, hview, splice_window hlo]
    · intro v' back' w hmut' hw
      obtain ⟨rfl, rfl⟩ := Prod.mk.inj (Result.ok.inj (hmut.symm.trans hmut'))
      -- the length of the slice has not changed, so the index is still valid
      obtain ⟨u, -, hview', -, hu, -⟩ := h.hit (i := i) (s := back w) (by rwa [hsame w hw])
      rw [hput w hw, window_splice hlo hhi (hw.trans hlen)] at hview'
      rw [hu, h.view_injective hview']
    · intro v' back' w hmut' hw
      obtain ⟨rfl, rfl⟩ := Prod.mk.inj (Result.ok.inj (hmut.symm.trans hmut'))
      refine ⟨hsame w hw, fun k hk => ?_⟩
      rw [hput w hw, getElem?_splice hlo hhi (hw.trans hlen) hk]
    · intro u
      rw [hget, hindex]
      simp
  · obtain ⟨hget, hindex, hmut⟩ := h.miss hvalid
    refine ⟨?_, ?_, ?_, ?_, ?_⟩
    · rw [hmut, hindex]
      rfl
    · simp [hmut]
    · simp [hmut]
    · simp [hmut]
    · simp [hindex, hget]

theorem windowed_usize (α : Type) : Windowed (SliceIndexUsize.inst α) (fun x => [x]) (fun i n => 0 ≤ i ∧ i < n)
    Int.toNat (fun i => i.toNat + 1) := by
  constructor
  · intro x y h
    exact (List.cons.inj h).1
  · intro i n h
    omega
  · intro i s h
    have hi : i.toNat < s.length := by omega
    refine ⟨s.get ⟨i.toNat, hi⟩, sliceUpdate s i, (window_succ hi).symm, ?_, ?_, ?_, ?_⟩
    · simp [h]
    · simp [sliceIndexUsize, h]
    · simp [sliceIndexMutUsize, h]
    · intro x _
      rw [sliceUpdate, if_pos h, set_eq_splice hi]
  · intro i s h
    simp [sliceIndexUsize, sliceIndexMutUsize, h]

variable {r : Range Int}

theorem sliceRangeValid_iff :
    sliceRangeValid r s = true ↔ 0 ≤ r.start ∧ r.start ≤ r.end' ∧ r.end' ≤ s.length := by
  simp [sliceRangeValid, and_assoc]

theorem sliceSubslice_eq (h : sliceRangeValid r s = true) :
    sliceSubslice s r = .ok (window r.start.toNat r.end'.toNat s) := by
  obtain ⟨hstart, hle, -⟩ := sliceRangeValid_iff.mp h
  have hlen : (r.end' - r.start).toNat = r.end'.toNat - r.start.toNat := by omega
  rw [sliceSubslice, if_pos h, window, hlen]
  rfl

theorem sliceReplaceRange_eq {w : List α} (h : sliceRangeValid r s = true)
    (hw : w.length = r.end'.toNat - r.start.toNat) :
    sliceReplaceRange s r w = splice r.start.toNat r.end'.toNat s w := by
  obtain ⟨hstart, hle, -⟩ := sliceRangeValid_iff.mp h
  rw [sliceReplaceRange, if_pos ⟨h, by omega⟩, splice]

theorem windowed_range (α : Type) : Windowed (SliceIndexRangeUsize.inst α) id
    (fun r n => 0 ≤ r.start ∧ r.start ≤ r.end' ∧ r.end' ≤ n) (fun r => r.start.toNat) (fun r => r.end'.toNat) := by
  constructor
  · exact Function.injective_id
  · intro r n h
    omega
  · intro r s h
    have hvalid := sliceRangeValid_iff.mpr h
    refine ⟨window r.start.toNat r.end'.toNat s, sliceReplaceRange s r, rfl, ?_, ?_, ?_, ?_⟩
    · simp [hvalid, sliceSubslice_eq hvalid]
    · simp [sliceSubslice_eq hvalid]
    · simp [sliceSubslice_eq hvalid]
    · intro w hw
      exact sliceReplaceRange_eq hvalid hw
  · intro r s h
    have hvalid : sliceRangeValid r s = false := by
      rw [← Bool.not_eq_true, sliceRangeValid_iff]
      exact h
    simp [sliceSubslice, hvalid]

theorem sliceRangeToValid_iff {r : RangeTo Int} :
    sliceRangeToValid r s = true ↔ 0 ≤ r.end' ∧ r.end' ≤ s.length := by
  simp [sliceRangeToValid]

theorem windowed_rangeTo (α : Type) : Windowed (SliceIndexRangeToUsize.inst α) id
    (fun r n => 0 ≤ r.end' ∧ r.end' ≤ n) (fun _ => 0) (fun r => r.end'.toNat) := by
  constructor
  · exact Function.injective_id
  · intro r n h
    omega
  · intro r s h
    have hvalid := sliceRangeToValid_iff.mpr h
    refine ⟨sliceRangeToPrefix r s, sliceRangeToReplace r s, by simp [window, sliceRangeToPrefix], ?_, ?_, ?_, ?_⟩
    · simp [hvalid]
    · simp [hvalid]
    · simp [hvalid]
    · intro w _
      simp [sliceRangeToReplace, splice]
  · intro r s h
    have hvalid : sliceRangeToValid r s = false := by
      rw [← Bool.not_eq_true, sliceRangeToValid_iff]
      exact h
    simp [hvalid]

theorem sliceIndex_lensLaws (α : Type) :
    ((∀ (i : Int) (s : List α), LensLaws (SliceIndexUsize.inst α) (fun x => [x]) i.toNat (i.toNat + 1) i s) ∧
    (∀ (r : Range Int) (s : List α), LensLaws (SliceIndexRangeUsize.inst α) id r.start.toNat r.end'.toNat r s) ∧
    (∀ (r : RangeTo Int) (s : List α), LensLaws (SliceIndexRangeToUsize.inst α) id 0 r.end'.toNat r s)) ∧
    Windowed (SliceIndexUsize.inst α) (fun x => [x]) (fun i n => 0 ≤ i ∧ i < n) Int.toNat (fun i => i.toNat + 1) ∧
    Windowed (SliceIndexRangeUsize.inst α) id (fun r n => 0 ≤ r.start ∧ r.start ≤ r.end' ∧ r.end' ≤ n)
      (fun r => r.start.toNat) (fun r => r.end'.toNat) ∧
    Windowed (SliceIndexRangeToUsize.inst α) id (fun r n => 0 ≤ r.end' ∧ r.end' ≤ n) (fun _ => 0)
      (fun r => r.end'.toNat) :=
  ⟨⟨(windowed_usize α).lensLaws, (windowed_range α).lensLaws, (windowed_rangeTo α).lensLaws⟩, windowed_usize α,
    windowed_range α, windowed_rangeTo α⟩

theorem sliceIndex_lensLaws_middle : ∃ back,
    (SliceIndexRangeUsize.inst Nat).indexMut ⟨1, 3⟩ [1, 2, 3, 4] = .ok ([2, 3], back) ∧ back [5, 6] = [1, 5, 6, 4] := by
  obtain ⟨_, back, rfl, -, -, hmut, hback⟩ :=
    (sliceIndex_lensLaws Nat).2.2.1.hit (i := ⟨1, 3⟩) (s := [1, 2, 3, 4]) (by decide)
  exact ⟨back, hmut, hback [5, 6] rfl⟩

/-! ## Ranges without a start -/

def giveBack {γ σ : Type} (borrow : Result (β × (γ → σ))) (y : γ) : Result (β × σ) := do
  let p ← borrow
  pure (p.1, p.2 y)

/-- The methods for `..e` agree with those for `0..e` if `ys` is given back for a mutable borrow, and
the slice which results has the length of the original. -/
structure AsFromZero (e : Int) (s ys : List α) : Prop where
  get : (SliceIndexRangeToUsize.inst α).get ⟨e⟩ s = (SliceIndexRangeUsize.inst α).get ⟨0, e⟩ s
  index : (SliceIndexRangeToUsize.inst α).index ⟨e⟩ s = (SliceIndexRangeUsize.inst α).index ⟨0, e⟩ s
  getUnchecked : ∀ p, (SliceIndexRangeToUsize.inst α).getUnchecked ⟨e⟩ p =
    (SliceIndexRangeUsize.inst α).getUnchecked ⟨0, e⟩ p
  getUncheckedMut : ∀ p, (SliceIndexRangeToUsize.inst α).getUncheckedMut ⟨e⟩ p =
    (SliceIndexRangeUsize.inst α).getUncheckedMut ⟨0, e⟩ p
  getMut_none : giveBack ((SliceIndexRangeToUsize.inst α).getMut ⟨e⟩ s) none =
    giveBack ((SliceIndexRangeUsize.inst α).getMut ⟨0, e⟩ s) none
  getMut_some : giveBack ((SliceIndexRangeToUsize.inst α).getMut ⟨e⟩ s) (some ys) =
    giveBack ((SliceIndexRangeUsize.inst α).getMut ⟨0, e⟩ s) (some ys)
  indexMut : giveBack ((SliceIndexRangeToUsize.inst α).indexMut ⟨e⟩ s) ys =
    giveBack ((SliceIndexRangeUsize.inst α).indexMut ⟨0, e⟩ s) ys
  getMut_length : ∀ v back, (SliceIndexRangeToUsize.inst α).getMut ⟨e⟩ s = .ok (v, back) →
    (back (some ys)).length = s.length
  indexMut_length : ∀ v back, (SliceIndexRangeToUsize.inst α).indexMut ⟨e⟩ s = .ok (v, back) →
    (back ys).length = s.length

theorem sliceRangeValid_zero (e : Int) (s : List α) : sliceRangeValid ⟨0, e⟩ s = sliceRangeToValid ⟨e⟩ s := by
  simp [sliceRangeValid, sliceRangeToValid]

variable {e : Int}

theorem sliceSubslice_zero :
    sliceSubslice s ⟨0, e⟩ =
      if sliceRangeToValid ⟨e⟩ s then .ok (sliceRangeToPrefix ⟨e⟩ s) else .fail .failure := by
  simp [sliceSubslice, sliceRangeValid_zero, sliceRangeToPrefix]

theorem sliceRangeToValid_mk : sliceRangeToValid ⟨e⟩ s = true ↔ 0 ≤ e ∧ e ≤ s.length :=
  sliceRangeToValid_iff

theorem sliceRangeToReplace_eq_iff {ys : List α} (h : sliceRangeToValid ⟨e⟩ s = true) :
    sliceRangeToReplace ⟨e⟩ s ys = sliceReplaceRange s ⟨0, e⟩ ys ↔ (ys.length : Int) = e := by
  have hin := sliceRangeToValid_mk.mp h
  simp only [sliceReplaceRange, sliceRangeValid_zero, h, true_and, sub_zero, sliceRangeToReplace]
  split
  · rename_i hlen
    simp [hlen]
  · rename_i hlen
    refine iff_of_false (fun heq => ?_) hlen
    have := congrArg List.length heq
    simp only [List.length_append, List.length_drop] at this
    omega

theorem length_sliceRangeToReplace {ys : List α} (h : sliceRangeToValid ⟨e⟩ s = true)
    (hlen : (ys.length : Int) = e) : (sliceRangeToReplace ⟨e⟩ s ys).length = s.length := by
  have hin := sliceRangeToValid_mk.mp h
  simp only [sliceRangeToReplace, List.length_append, List.length_drop]
  omega

section
variable {e : Int} {s ys : List α}

attribute [local simp] giveBack sliceRangeValid_zero sliceSubslice_zero

theorem giveBack_indexMut_rangeTo (h : sliceRangeToValid ⟨e⟩ s = true) :
    giveBack ((SliceIndexRangeToUsize.inst α).indexMut ⟨e⟩ s) ys =
      .ok (sliceRangeToPrefix ⟨e⟩ s, sliceRangeToReplace ⟨e⟩ s ys) := by
  simp [h]

theorem giveBack_indexMut_range (h : sliceRangeToValid ⟨e⟩ s = true) :
    giveBack ((SliceIndexRangeUsize.inst α).indexMut ⟨0, e⟩ s) ys =
      .ok (sliceRangeToPrefix ⟨e⟩ s, sliceReplaceRange s ⟨0, e⟩ ys) := by
  simp [h]

theorem asFromZero_of_valid (h : sliceRangeToValid ⟨e⟩ s = true) (hlen : (ys.length : Int) = e) :
    AsFromZero e s ys where
  get := by
    simp [h]
  index := by
    simp [h]
  getUnchecked := fun _ => rfl
  getUncheckedMut := fun _ => rfl
  getMut_none := by
    simp [h]
  getMut_some := by
    simp [h, (sliceRangeToReplace_eq_iff h).mpr hlen]
  indexMut := by
    rw [giveBack_indexMut_rangeTo h, giveBack_indexMut_range h, (sliceRangeToReplace_eq_iff h).mpr hlen]
  getMut_length := by
    intro v back hmut
    simp only [SliceIndexRangeToUsize.inst, SliceIndexRangeToUsize.getMut, h, if_true] at hmut
    obtain ⟨-, rfl⟩ := Prod.mk.inj (Result.ok.inj hmut)
    exact length_sliceRangeToReplace h hlen
  indexMut_length := by
    intro v back hmut
    simp only [SliceIndexRangeToUsize.inst, SliceIndexRangeToUsize.indexMut, h, if_true] at hmut
    obtain ⟨-, rfl⟩ := Prod.mk.inj (Result.ok.inj hmut)
    exact length_sliceRangeToReplace h hlen

theorem asFromZero_of_invalid (h : sliceRangeToValid ⟨e⟩ s = false) : AsFromZero e s ys where
  get := by
    simp [h]
  index := by
    simp [h]
  getUnchecked := fun _ => rfl
  getUncheckedMut := fun _ => rfl
  getMut_none := by
    simp [h]
  getMut_some := by
    simp [h]
  indexMut := by
    simp [h]
  getMut_length := by
    intro v back hmut
    simp only [SliceIndexRangeToUsize.inst, SliceIndexRangeToUsize.getMut, h, Bool.false_eq_true, if_false] at hmut
    obtain ⟨-, rfl⟩ := Prod.mk.inj (Result.ok.inj hmut)
    rfl
  indexMut_length := by
    simp [h]

end

theorem rangeTo_asFromZero_iff {α : Type} (e : Int) (s ys : List α) :
    AsFromZero e s ys ↔ (0 ≤ e ∧ e ≤ s.length → (ys.length : Int) = e) := by
  rw [← sliceRangeToValid_mk]
  constructor
  · intro h hvalid
    have hback := h.indexMut
    rw [giveBack_indexMut_rangeTo hvalid, giveBack_indexMut_range hvalid] at hback
    exact (sliceRangeToReplace_eq_iff hvalid).mp (Prod.mk.inj (Result.ok.inj hback)).2
  · intro hlen
    cases hvalid : sliceRangeToValid ⟨e⟩ s with
    | false => exact asFromZero_of_invalid hvalid
    | true => exact asFromZero_of_valid hvalid (hlen hvalid)

/-- Giving nothing back for the first element of three leaves two. -/
theorem rangeTo_shrinks :
    giveBack ((SliceIndexRangeToUsize.inst Nat).indexMut ⟨1⟩ [1, 2, 3]) [] = .ok ([1], [2, 3]) ∧
    giveBack ((SliceIndexRangeUsize.inst Nat).indexMut ⟨0, 1⟩ [1, 2, 3]) [] = .ok ([1], [1, 2, 3]) ∧
    ¬ AsFromZero 1 [1, 2, 3] ([] : List Nat) := by
  refine ⟨by decide, by decide, fun h => ?_⟩
  exact absurd h.indexMut (by decide)

end Aeneas.Isabelle
