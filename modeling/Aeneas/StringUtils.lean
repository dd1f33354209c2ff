import Aeneas.Collections
import Aeneas.EditDistance

/-!
# The Levenshtein distance (`utils/StringUtils.ml`)

The distance is computed row by row in two arrays that swap their roles after each
character. The arrays live in a memory of two cells, and `rv0` and `rv1` point to one
of them each, so that a write through one reference is seen by whatever shares its cell.
-/

namespace Aeneas.StringUtils

open EditDistance List

variable {α : Type}

def arrayGet (v : List α) (i : Nat) : Except Exn α :=
  match v[i]? with
  | some x => .ok x
  | none => .error (.invalidArgument "index out of bounds")

def arraySet (v : List α) (i : Nat) (x : α) : Except Exn (List α) :=
  if i < v.length then .ok (v.set i x) else .error (.invalidArgument "index out of bounds")

inductive Cell
  | fst
  | snd
deriving DecidableEq

structure Rows where
  mem : Cell → List Nat
  rv0 : Cell
  rv1 : Cell

def Rows.get (r : Rows) (c : Cell) (i : Nat) : Except Exn Nat :=
  arrayGet (r.mem c) i

def Rows.set (r : Rows) (c : Cell) (i x : Nat) : Except Exn Rows := do
  let v ← arraySet (r.mem c) i x
  return { r with mem := Function.update r.mem c v }

variable [DecidableEq α]

def substCost (s t : List α) (v0 : Cell) (i : Nat) (r : Rows) (j : Nat) : Except Exn Nat := do
  let a ← arrayGet s i
  let b ← arrayGet t j
  let cost ← r.get v0 j
  return if a = b then cost else cost + 1

def levenshteinEntry (s t : List α) (v0 v1 : Cell) (i : Nat) (r : Rows) (j : Nat) : Except Exn Rows := do
  let deletionCost := (← r.get v0 (j + 1)) + 1
  let insertionCost := (← r.get v1 j) + 1
  let substCost ← substCost s t v0 i r j
  let v := if deletionCost < insertionCost then deletionCost else insertionCost
  let v := if v < substCost then v else substCost
  r.set v1 (j + 1) v

def levenshteinRow (s t : List α) (r : Rows) (i : Nat) : Except Exn Rows := do
  let v0 := r.rv0
  let v1 := r.rv1
  let r ← r.set v1 0 (i + 1)
  let r ← (range t.length).foldlM (levenshteinEntry s t v0 v1 i) r
  let tmp := r.rv0
  let r := { r with rv0 := r.rv1 }
  return { r with rv1 := tmp }

/-- `levenshtein_distance`: strings are lists of their characters. -/
def levenshteinDistance (s t : List α) : Except Exn Nat := do
  let m := s.length
  let n := t.length
  let r : Rows := { mem := fun _ => replicate (n + 1) 0, rv0 := .fst, rv1 := .snd }
  let r ← (range (n + 1)).foldlM (fun r i => r.set .fst i i) r
  let r ← (range m).foldlM (levenshteinRow s t) r
  r.get r.rv0 n

/-! ## Accesses within the bounds -/

variable {i : Nat}

theorem arrayGet_eq {α : Type} {v : List α} {x : α} (h : v[i]? = some x) : arrayGet v i = .ok x := by
  unfold arrayGet
  rw [h]

variable {r : Rows} {c : Cell}

theorem Rows.get_eq {x : Nat} (h : (r.mem c)[i]? = some x) : r.get c i = .ok x :=
  arrayGet_eq h

structure Rows.Wrote (r r' : Rows) (c : Cell) (i x : Nat) : Prop where
  rv0 : r'.rv0 = r.rv0
  rv1 : r'.rv1 = r.rv1
  other : ∀ c', c' ≠ c → r'.mem c' = r.mem c'
  length : (r'.mem c).length = (r.mem c).length
  here : (r'.mem c)[i]? = some x
  there : ∀ k, k ≠ i → (r'.mem c)[k]? = (r.mem c)[k]?

theorem Rows.set_eq (h : i < (r.mem c).length) (x : Nat) :
    ∃ r', r.set c i x = .ok r' ∧ r.Wrote r' c i x := by
  have hset : arraySet (r.mem c) i x = .ok ((r.mem c).set i x) := by
    unfold arraySet
    rw [if_pos h]
  refine ⟨_, bind_eq_ok.mpr ⟨_, hset, rfl⟩, rfl, rfl, ?_, ?_, ?_, ?_⟩
  · intro c' hc
    exact Function.update_of_ne hc _ _
  · simp
  · simp [h]
  · intro k hk
    simp [getElem?_set_ne (Ne.symm hk)]

theorem range_split {n j : Nat} {pre post : List Nat} (h : range n = pre ++ j :: post) : j = pre.length ∧ j < n := by
  have hj : (range n)[pre.length]? = some j := by rw [h]; simp
  rw [getElem?_eq_some_iff] at hj
  obtain ⟨hlt, hj⟩ := hj
  rw [getElem_range] at hj
  rw [length_range] at hlt
  exact ⟨hj.symm, hj ▸ hlt⟩

/-! ## The rows -/

/-- The first `k` entries of a row hold the distances from `s` to the beginnings of `t`. -/
structure RowUpTo (s t : List α) (k : Nat) (v : List Nat) : Prop where
  length : v.length = t.length + 1
  entry : ∀ j < k, v[j]? = some (editDistance s (t.take j))

variable {s t : List α}

theorem RowUpTo.write {k : Nat} {r' : Rows} {x : Nat} (h : RowUpTo s t k (r.mem c))
    (hw : r.Wrote r' c k x) (hx : x = editDistance s (t.take k)) : RowUpTo s t (k + 1) (r'.mem c) := by
  refine ⟨hw.length.trans h.length, fun j hj => ?_⟩
  by_cases hjk : j = k
  · subst hjk
    rw [hw.here, hx]
  · rw [hw.there j hjk]
    exact h.entry j (by omega)

theorem take_succ_of_lt {α : Type} {l : List α} (h : i < l.length) :
    ∃ a, l[i]? = some a ∧ l.take (i + 1) = l.take i ++ [a] :=
  ⟨l[i], by simp, by simp⟩

theorem cost_eq (a b : α) (s t : List α) :
    (let v := if editDistance s (t ++ [b]) + 1 < editDistance (s ++ [a]) t + 1 then editDistance s (t ++ [b]) + 1
        else editDistance (s ++ [a]) t + 1
      let cost := if a = b then editDistance s t else editDistance s t + 1
      if v < cost then v else cost) = editDistance (s ++ [a]) (t ++ [b]) := by
  rw [editDistance_snoc_snoc]
  by_cases hab : a = b
  · simp only [if_pos hab]
    split <;> split <;> omega
  · simp only [if_neg hab]
    split <;> split <;> omega

/-- While row `i + 1` is written, row `i` is whole and in the other array. -/
structure Filling (s t : List α) (i : Nat) (v0 v1 : Cell) (k : Nat) (r : Rows) : Prop where
  rv0 : r.rv0 = v0
  rv1 : r.rv1 = v1
  ne : v0 ≠ v1
  previous : RowUpTo (s.take i) t (t.length + 1) (r.mem v0)
  current : RowUpTo (s.take (i + 1)) t (k + 1) (r.mem v1)

theorem levenshteinEntry_ok {j : Nat} {v0 v1 : Cell} (hi : i < s.length)
    (hj : j < t.length) (h : Filling s t i v0 v1 j r) :
    ∃ r', levenshteinEntry s t v0 v1 i r j = .ok r' ∧ Filling s t i v0 v1 (j + 1) r' := by
  obtain ⟨a, ha, has⟩ := take_succ_of_lt hi
  obtain ⟨b, hb, hbt⟩ := take_succ_of_lt hj
  have hdel := Rows.get_eq (h.previous.entry (j + 1) (by omega))
  have hins := Rows.get_eq (h.current.entry j (by omega))
  have hsub := Rows.get_eq (h.previous.entry j (by omega))
  have hcost : substCost s t v0 i r j =
      .ok (if a = b then editDistance (s.take i) (t.take j) else editDistance (s.take i) (t.take j) + 1) :=
    bind_eq_ok.mpr ⟨a, arrayGet_eq ha, bind_eq_ok.mpr ⟨b, arrayGet_eq hb, bind_eq_ok.mpr ⟨_, hsub, rfl⟩⟩⟩
  rw [hbt] at hdel
  rw [has] at hins
  obtain ⟨r', hr', hw⟩ := Rows.set_eq (r := r) (c := v1) (i := j + 1) (by rw [h.current.length]; omega)
    (editDistance (s.take i ++ [a]) (t.take j ++ [b]))
  refine ⟨r', ?_, hw.rv0.trans h.rv0, hw.rv1.trans h.rv1, h.ne, ?_, ?_⟩
  · refine bind_eq_ok.mpr ⟨_, hdel, bind_eq_ok.mpr ⟨_, hins, bind_eq_ok.mpr ⟨_, hcost, ?_⟩⟩⟩
    rw [← cost_eq] at hr'
    exact hr'
  · rw [hw.other v0 h.ne]
    exact h.previous
  · exact h.current.write hw (by rw [has, hbt])

structure Filled (s t : List α) (i : Nat) (r : Rows) : Prop where
  ne : r.rv0 ≠ r.rv1
  row : RowUpTo (s.take i) t (t.length + 1) (r.mem r.rv0)
  -- the other array holds stale entries, only its length is known
  stale : (r.mem r.rv1).length = t.length + 1

theorem levenshteinRow_ok (hi : i < s.length) (h : Filled s t i r) :
    ∃ r', levenshteinRow s t r i = .ok r' ∧ Filled s t (i + 1) r' := by
  obtain ⟨r₁, hr₁, hw⟩ := Rows.set_eq (r := r) (c := r.rv1) (i := 0) (by rw [h.stale]; omega) (i + 1)
  have hfirst : Filling s t i r.rv0 r.rv1 0 r₁ := by
    have hstale : RowUpTo (s.take (i + 1)) t 0 (r.mem r.rv1) := ⟨h.stale, by simp⟩
    refine ⟨hw.rv0, hw.rv1, h.ne, ?_, hstale.write hw ?_⟩
    · rw [hw.other _ h.ne]
      exact h.row
    · rw [take_zero, editDistance_to_nil, length_take]
      omega
  obtain ⟨r₂, hr₂, hlast⟩ := foldlM_ok (P := fun pre r' => Filling s t i r.rv0 r.rv1 pre.length r')
    (f := levenshteinEntry s t r.rv0 r.rv1 i) (l := range t.length)
    (by
      intro pre j post r' hl hr'
      obtain ⟨rfl, hj⟩ := range_split hl
      rw [length_append, length_singleton]
      exact levenshteinEntry_ok hi hj hr')
    hfirst
  rw [length_range] at hlast
  refine ⟨{ r₂ with rv0 := r₂.rv1, rv1 := r₂.rv0 },
    bind_eq_ok.mpr ⟨r₁, hr₁, bind_eq_ok.mpr ⟨r₂, hr₂, rfl⟩⟩, ?_, ?_, ?_⟩
  · rw [hlast.rv0, hlast.rv1]
    exact h.ne.symm
  · change RowUpTo _ _ _ (r₂.mem r₂.rv1)
    rw [hlast.rv1]
    exact hlast.current
  · change (r₂.mem r₂.rv0).length = _
    rw [hlast.rv0]
    exact hlast.previous.length

theorem firstRow_ok (s t : List α) :
    ∃ r', (range (t.length + 1)).foldlM (fun r i => r.set .fst i i)
        ({ mem := fun _ => replicate (t.length + 1) 0, rv0 := .fst, rv1 := .snd } : Rows) = .ok r' ∧
      Filled s t 0 r' := by
  obtain ⟨r', hr', h⟩ := foldlM_ok
    (P := fun pre (r : Rows) => r.rv0 = .fst ∧ r.rv1 = .snd ∧ (r.mem .snd).length = t.length + 1 ∧
      RowUpTo [] t pre.length (r.mem .fst))
    (f := fun (r : Rows) i => r.set .fst i i) (l := range (t.length + 1))
    (by
      rintro pre i post r hl ⟨h0, h1, hstale, hrow⟩
      obtain ⟨rfl, hi⟩ := range_split hl
      obtain ⟨r', hr', hw⟩ := Rows.set_eq (r := r) (c := .fst) (by rw [hrow.length]; exact hi) pre.length
      refine ⟨r', hr', hw.rv0.trans h0, hw.rv1.trans h1, ?_, ?_⟩
      · rw [hw.other .snd (by decide)]
        exact hstale
      · rw [length_append, length_singleton]
        refine hrow.write hw ?_
        rw [editDistance_nil, length_take]
        omega)
    (s := { mem := fun _ => replicate (t.length + 1) 0, rv0 := .fst, rv1 := .snd })
    ⟨rfl, rfl, by simp, by simp, by simp⟩
  obtain ⟨h0, h1, hstale, hrow⟩ := h
  rw [length_range] at hrow
  refine ⟨r', hr', ?_, ?_, ?_⟩
  · rw [h0, h1]
    decide
  · rw [h0, take_zero]
    exact hrow
  · rw [h1]
    exact hstale

/-- The distance is the least number of insertions, deletions and substitutions. -/
theorem levenshteinDistance_eq (s t : List α) :
    levenshteinDistance s t = .ok (editDistance s t) ∧ IsLeast {n | Edits n s t} (editDistance s t) := by
  refine ⟨?_, isLeast_editDistance s t⟩
  obtain ⟨r₁, hr₁, hfirst⟩ := firstRow_ok s t
  obtain ⟨r₂, hr₂, hlast⟩ := foldlM_ok (P := fun pre r => Filled s t pre.length r)
    (f := levenshteinRow s t) (l := range s.length)
    (by
      intro pre i post r hl hr
      obtain ⟨rfl, hi⟩ := range_split hl
      rw [length_append, length_singleton]
      exact levenshteinRow_ok hi hr)
    hfirst
  rw [length_range] at hlast
  have hget := Rows.get_eq (hlast.row.entry t.length (by omega))
  rw [take_length, take_length] at hget
  exact bind_eq_ok.mpr ⟨r₁, hr₁, bind_eq_ok.mpr ⟨r₂, hr₂, hget⟩⟩

example : levenshteinDistance "kitten".toList "sitting".toList = .ok 3 := by decide

end Aeneas.StringUtils
