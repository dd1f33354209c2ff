import Mathlib.Data.List.Basic
import Mathlib.Order.Bounds.Basic

/-!
# The edit distance

The least number of insertions, deletions and substitutions of one element that turn
a list into another one, as a recursion over the first elements and over the last ones.
-/

namespace Aeneas.EditDistance

variable {α : Type}

inductive Edit : List α → List α → Prop
  | insert (u v : List α) (a : α) : Edit (u ++ v) (u ++ a :: v)
  | delete (u v : List α) (a : α) : Edit (u ++ a :: v) (u ++ v)
  | substitute (u v : List α) (a b : α) : Edit (u ++ a :: v) (u ++ b :: v)

inductive Edits : Nat → List α → List α → Prop
  | refl (s : List α) : Edits 0 s s
  | step {n : Nat} {s u t : List α} : Edit s u → Edits n u t → Edits (n + 1) s t

variable {s t : List α}

theorem Edit.cons (c : α) (h : Edit s t) : Edit (c :: s) (c :: t) := by
  cases h with
  | insert u v a => exact .insert (c :: u) v a
  | delete u v a => exact .delete (c :: u) v a
  | substitute u v a b => exact .substitute (c :: u) v a b

theorem Edit.reverse (h : Edit s t) : Edit s.reverse t.reverse := by
  cases h with
  | insert u v a => simpa using Edit.insert v.reverse u.reverse a
  | delete u v a => simpa using Edit.delete v.reverse u.reverse a
  | substitute u v a b => simpa using Edit.substitute v.reverse u.reverse a b

variable {n : Nat}

theorem Edits.cons (c : α) (h : Edits n s t) : Edits n (c :: s) (c :: t) := by
  induction h with
  | refl s => exact .refl (c :: s)
  | step he _ ih => exact .step (he.cons c) ih

theorem Edits.reverse (h : Edits n s t) : Edits n s.reverse t.reverse := by
  induction h with
  | refl s => exact .refl s.reverse
  | step he _ ih => exact .step he.reverse ih

theorem edits_nil (t : List α) : Edits t.length [] t := by
  induction t with
  | nil => exact .refl []
  | cons b t ih => exact .step (.insert [] [] b) (ih.cons b)

theorem edits_to_nil (s : List α) : Edits s.length s [] := by
  induction s with
  | nil => exact .refl []
  | cons a s ih => exact .step (.delete [] s a) ih

variable [DecidableEq α]

def editDistance : List α → List α → Nat
  | [], t => t.length
  | s, [] => s.length
  | a :: s, b :: t =>
    if a = b then editDistance s t
    else 1 + min (editDistance s (b :: t)) (min (editDistance (a :: s) t) (editDistance s t))
termination_by s t => s.length + t.length

theorem editDistance_nil (t : List α) : editDistance [] t = t.length := by rw [editDistance]

theorem editDistance_to_nil (s : List α) : editDistance s [] = s.length := by
  cases s with
  | nil => rw [editDistance]
  | cons a s => rw [editDistance]; simp

theorem editDistance_cons_self (a : α) (s t : List α) : editDistance (a :: s) (a :: t) = editDistance s t := by
  rw [editDistance, if_pos rfl]

theorem editDistance_cons_ne {a b : α} (h : a ≠ b) (s t : List α) :
    editDistance (a :: s) (b :: t) =
      1 + min (editDistance s (b :: t)) (min (editDistance (a :: s) t) (editDistance s t)) := by
  rw [editDistance, if_neg h]

theorem edits_editDistance (s t : List α) : Edits (editDistance s t) s t := by
  fun_induction editDistance s t with
  | case1 t => exact edits_nil t
  | case2 s _ => exact edits_to_nil s
  | case3 s b t ih => exact ih.cons b
  | case4 a s b t hab ihdel ihins ihsub =>
    rw [Nat.add_comm]
    rcases Nat.le_total (editDistance s (b :: t)) (min (editDistance (a :: s) t) (editDistance s t)) with h | h
    · rw [Nat.min_eq_left h]
      exact .step (.delete [] s a) ihdel
    · rw [Nat.min_eq_right h]
      rcases Nat.le_total (editDistance (a :: s) t) (editDistance s t) with h | h
      · rw [Nat.min_eq_left h]
        exact .step (.insert [] (a :: s) b) (ihins.cons b)
      · rw [Nat.min_eq_right h]
        exact .step (.substitute [] s a b) (ihsub.cons b)

theorem editDistance_comm (s t : List α) : editDistance s t = editDistance t s := by
  fun_induction editDistance s t with
  | case1 t => exact (editDistance_to_nil t).symm
  | case2 s _ => exact (editDistance_nil s).symm
  | case3 s b t ih => rw [editDistance_cons_self, ih]
  | case4 a s b t hab ihdel ihins ihsub =>
    rw [editDistance_cons_ne (Ne.symm hab), ihdel, ihins, ihsub]
    omega

theorem editDistance_cons_le (a : α) (v t : List α) :
    editDistance (a :: v) t ≤ editDistance v t + 1 ∧ editDistance v t ≤ editDistance (a :: v) t + 1 := by
  -- by induction on both lists, with the lists swapped in the induction hypothesis
  induction hn : v.length + t.length using Nat.strongRecOn generalizing a v t with
  | ind n ih =>
    cases t with
    | nil =>
      rw [editDistance_to_nil, editDistance_to_nil, List.length_cons]
      omega
    | cons b t =>
      have hright := ih (t.length + v.length) (by simp at hn; omega) b t v rfl
      rw [editDistance_comm (b :: t) v, editDistance_comm t v] at hright
      by_cases hab : a = b
      · subst hab
        rw [editDistance_cons_self]
        omega
      · have hleft := ih (v.length + t.length) (by simp at hn; omega) a v t rfl
        rw [editDistance_cons_ne hab]
        omega

theorem editDistance_substitute_le (a b : α) (v t : List α) :
    editDistance (a :: v) t ≤ editDistance (b :: v) t + 1 := by
  induction t with
  | nil =>
    rw [editDistance_to_nil, editDistance_to_nil, List.length_cons, List.length_cons]
    omega
  | cons c t ih =>
    have hright := editDistance_cons_le c t v
    rw [editDistance_comm (c :: t) v, editDistance_comm t v] at hright
    have hb := editDistance_cons_le b v t
    by_cases hac : a = c
    · subst hac
      rw [editDistance_cons_self]
      by_cases hbc : b = a
      · subst hbc
        rw [editDistance_cons_self]
        omega
      · rw [editDistance_cons_ne hbc]
        omega
    · rw [editDistance_cons_ne hac]
      by_cases hbc : b = c
      · subst hbc
        rw [editDistance_cons_self]
        omega
      · rw [editDistance_cons_ne hbc]
        omega

variable {u : List α}

theorem editDistance_cons_mono {k : Nat} (h : ∀ t, editDistance s t ≤ editDistance u t + k) (c : α)
    (t : List α) : editDistance (c :: s) t ≤ editDistance (c :: u) t + k := by
  induction t with
  | nil =>
    have hnil := h []
    rw [editDistance_to_nil, editDistance_to_nil] at hnil ⊢
    simp only [List.length_cons]
    omega
  | cons b t ih =>
    have hcons := h (b :: t)
    have ht := h t
    by_cases hcb : c = b
    · subst hcb
      rw [editDistance_cons_self, editDistance_cons_self]
      exact ht
    · rw [editDistance_cons_ne hcb, editDistance_cons_ne hcb]
      omega

theorem editDistance_append_mono {k : Nat} (h : ∀ t, editDistance s t ≤ editDistance u t + k) (w : List α) :
    ∀ t, editDistance (w ++ s) t ≤ editDistance (w ++ u) t + k := by
  induction w with
  | nil => exact h
  | cons c w ih => exact editDistance_cons_mono ih c

theorem Edit.editDistance_le (h : Edit s u) (t : List α) : editDistance s t ≤ editDistance u t + 1 := by
  cases h with
  | insert w v a => exact editDistance_append_mono (fun t => (editDistance_cons_le a v t).2) w t
  | delete w v a => exact editDistance_append_mono (fun t => (editDistance_cons_le a v t).1) w t
  | substitute w v a b => exact editDistance_append_mono (fun t => editDistance_substitute_le a b v t) w t

theorem editDistance_self (s : List α) : editDistance s s = 0 := by
  induction s with
  | nil => rw [editDistance_nil, List.length_nil]
  | cons a s ih => rw [editDistance_cons_self, ih]

theorem Edits.editDistance_le (h : Edits n s t) : editDistance s t ≤ n := by
  induction h with
  | refl s => rw [editDistance_self]
  | @step n s u t he _ ih =>
    have hstep := he.editDistance_le t
    omega

theorem isLeast_editDistance (s t : List α) : IsLeast {n | Edits n s t} (editDistance s t) :=
  ⟨edits_editDistance s t, fun _ h => h.editDistance_le⟩

/-! ## The last elements -/

theorem editDistance_reverse (s t : List α) : editDistance s.reverse t.reverse = editDistance s t := by
  refine Nat.le_antisymm (edits_editDistance s t).reverse.editDistance_le ?_
  have h := (edits_editDistance s.reverse t.reverse).reverse.editDistance_le
  rwa [List.reverse_reverse, List.reverse_reverse] at h

theorem editDistance_cons_cons (a b : α) (s t : List α) :
    editDistance (a :: s) (b :: t) =
      min (min (editDistance s (b :: t) + 1) (editDistance (a :: s) t + 1))
        (editDistance s t + if a = b then 0 else 1) := by
  by_cases hab : a = b
  · subst hab
    have hleft := editDistance_cons_le a s t
    have hright := editDistance_cons_le a t s
    rw [editDistance_comm (a :: t) s, editDistance_comm t s] at hright
    rw [editDistance_cons_self, if_pos rfl]
    omega
  · rw [editDistance_cons_ne hab, if_neg hab]
    omega

theorem editDistance_snoc_snoc (a b : α) (s t : List α) :
    editDistance (s ++ [a]) (t ++ [b]) =
      min (min (editDistance s (t ++ [b]) + 1) (editDistance (s ++ [a]) t + 1))
        (editDistance s t + if a = b then 0 else 1) := by
  have h := editDistance_cons_cons a b s.reverse t.reverse
  have ha : a :: s.reverse = (s ++ [a]).reverse := by simp
  have hb : b :: t.reverse = (t ++ [b]).reverse := by simp
  rwa [ha, hb, editDistance_reverse, editDistance_reverse, editDistance_reverse, editDistance_reverse] at h

end Aeneas.EditDistance
