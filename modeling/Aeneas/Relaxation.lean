import Mathlib.Algebra.Order.BigOperators.Group.Finset
import Mathlib.Data.Finset.Card

/-!
# Labels propagated along weighted links

Some nodes have a label, with a weight. A label is propagated along the links of a graph,
whose lengths add up; where it arrives it replaces a label of a greater weight. Once no
link can improve a label, each node has the label of a node at the least cost.
-/

namespace Aeneas.Relaxation

variable {N L : Type}

inductive Walk (E : N → Int → N → Prop) (x : N) : Int → N → Prop
  | refl : Walk E x 0 x
  | snoc {l d : Int} {y z : N} : Walk E x l y → E y d z → Walk E x (l + d) z

abbrev Labels (N L : Type) := N → Option (L × Int)

def cost (w l : Int) : Int := max w 0 + l

/-- The label comes to the node at this cost from a node which has it at the start. -/
def Comes (E : N → Int → N → Prop) (start : Labels N L) (label : L) (c : Int) (v : N) : Prop :=
  ∃ u w l, start u = some (label, w) ∧ Walk E u l v ∧ c = cost w l

def Relaxed (f : Labels N L) (x : N) (d : Int) (y : N) : Prop :=
  ∀ label w, f x = some (label, w) → ∃ label' w', f y = some (label', w') ∧ w' ≤ cost w d

def Improves (E : N → Int → N → Prop) (start f : Labels N L) : Prop :=
  ∀ v, f v = start v ∨
    ∃ label c, f v = some (label, c) ∧ Comes E start label c v ∧ ∀ label₀ w₀, start v = some (label₀, w₀) → c < w₀

/-- The nodes which a label can come to are those with a label. It comes at the least cost, and the label a node
has at the start is only replaced at a smaller cost. -/
structure Optimal (E : N → Int → N → Prop) (start f : Labels N L) : Prop where
  labelled : ∀ v, (f v).isSome ↔ ∃ label c, Comes E start label c v
  least : ∀ v label w, f v = some (label, w) →
    ∃ c, Comes E start label c v ∧ ∀ label' c', Comes E start label' c' v → c ≤ c'
  own : ∀ v label₀ w₀, start v = some (label₀, w₀) →
    (∀ label c, Comes E start label c v → cost w₀ 0 ≤ c) → f v = some (label₀, w₀)

section
variable {E : N → Int → N → Prop} (hE : ∀ x d y, E x d y → 0 ≤ d) {start f : Labels N L}
include hE

variable {x y : N}

theorem Walk.nonneg {l : Int} (h : Walk E x l y) : 0 ≤ l := by
  induction h with
  | refl => exact le_refl 0
  | snoc _ hlink ih => exact add_nonneg ih (hE _ _ _ hlink)

variable {label : L} {v : N}

theorem Comes.nonneg {c : Int} (h : Comes E start label c v) : 0 ≤ c := by
  obtain ⟨u, w, l, -, hwalk, rfl⟩ := h
  exact add_nonneg (le_max_right w 0) (hwalk.nonneg hE)

variable {w : Int}

omit hE in
theorem comes_self (h : start v = some (label, w)) : Comes E start label (cost w 0) v :=
  ⟨v, w, 0, h, .refl, rfl⟩

variable {d : Int}

theorem Comes.link (himp : Improves E start f) (hx : f x = some (label, w))
    (hlink : E x d y) : Comes E start label (cost w d) y := by
  rcases himp x with hsame | ⟨label', c, hx', hcomes, -⟩
  · rw [hx] at hsame
    exact ⟨x, w, 0 + d, hsame.symm, .snoc .refl hlink, by rw [zero_add]⟩
  · rw [hx] at hx'
    obtain ⟨rfl, rfl⟩ := Prod.mk.inj (Option.some.inj hx')
    have hnonneg := hcomes.nonneg hE
    obtain ⟨u, w', l, hu, hwalk, rfl⟩ := hcomes
    refine ⟨u, w', l + d, hu, .snoc hwalk hlink, ?_⟩
    unfold cost at hnonneg ⊢
    omega

theorem Improves.update [DecidableEq N] (himp : Improves E start f)
    (hx : f x = some (label, w)) (hlink : E x d y) (hless : ∀ label' w', f y = some (label', w') → cost w d < w') :
    Improves E start (Function.update f y (some (label, cost w d))) := by
  intro v
  by_cases hv : v = y
  · subst hv
    refine .inr ⟨label, cost w d, Function.update_self _ _ _, Comes.link hE himp hx hlink, fun label₀ w₀ h₀ => ?_⟩
    rcases himp v with hsame | ⟨label', c, hc, -, hlt⟩
    · exact hless label₀ w₀ (hsame.trans h₀)
    · exact (hless label' c hc).trans (hlt label₀ w₀ h₀)
  · rw [Function.update_of_ne hv]
    exact himp v

omit hE in
theorem Relaxed.update [DecidableEq N] {z : N} (h : Relaxed f x d z)
    (hxy : x ≠ y) (hless : ∀ label' w', f y = some (label', w') → w ≤ w') :
    Relaxed (Function.update f y (some (label, w))) x d z := by
  intro labelx wx hx
  rw [Function.update_of_ne hxy] at hx
  obtain ⟨label', w', hz, hle⟩ := h labelx wx hx
  by_cases hzy : z = y
  · subst hzy
    exact ⟨label, w, Function.update_self _ _ _, (hless label' w' hz).trans hle⟩
  · exact ⟨label', w', by rw [Function.update_of_ne hzy, hz], hle⟩

theorem le_of_comes (himp : Improves E start f) (hrelaxed : ∀ x d y, E x d y → Relaxed f x d y) {c : Int}
    (h : Comes E start label c v) : ∃ label' w', f v = some (label', w') ∧ max w' 0 ≤ c := by
  obtain ⟨u, w, l, hu, hwalk, rfl⟩ := h
  induction hwalk with
  | refl =>
    rcases himp u with hsame | ⟨label', c, hc, -, hlt⟩
    · exact ⟨label, w, hsame.trans hu, by simp [cost]⟩
    · have hw := hlt label w hu
      exact ⟨label', c, hc, by unfold cost; omega⟩
  | snoc hwalk hlink ih =>
    obtain ⟨label', w', hy, hle⟩ := ih
    obtain ⟨label'', w'', hz, hle'⟩ := hrelaxed _ _ _ hlink label' w' hy
    have hd := hE _ _ _ hlink
    refine ⟨label'', w'', hz, ?_⟩
    unfold cost at hle hle' ⊢
    omega

theorem Improves.optimal (himp : Improves E start f) (hrelaxed : ∀ x d y, E x d y → Relaxed f x d y) :
    Optimal E start f := by
  refine ⟨fun v => ⟨fun h => ?_, ?_⟩, fun v label w hv => ?_, fun v label₀ w₀ h₀ hleast => ?_⟩
  · obtain ⟨⟨label, w⟩, hv⟩ := Option.isSome_iff_exists.mp h
    rcases himp v with hsame | ⟨label', c, -, hcomes, -⟩
    · exact ⟨label, cost w 0, comes_self (hsame.symm.trans hv)⟩
    · exact ⟨label', c, hcomes⟩
  · rintro ⟨label, c, hcomes⟩
    obtain ⟨label', w', hv, -⟩ := le_of_comes hE himp hrelaxed hcomes
    rw [hv]
    rfl
  · have hle : ∀ label' c', Comes E start label' c' v → max w 0 ≤ c' := by
      intro label' c' hcomes
      obtain ⟨label'', w'', hv', hle⟩ := le_of_comes hE himp hrelaxed hcomes
      rw [hv] at hv'
      obtain ⟨-, rfl⟩ := Prod.mk.inj (Option.some.inj hv')
      exact hle
    rcases himp v with hsame | ⟨label', c, hc, hcomes, -⟩
    · refine ⟨cost w 0, comes_self (hsame.symm.trans hv), fun label' c' h => ?_⟩
      have hle := hle label' c' h
      unfold cost
      omega
    · rw [hv] at hc
      obtain ⟨rfl, rfl⟩ := Prod.mk.inj (Option.some.inj hc)
      refine ⟨w, hcomes, fun label' c' h => ?_⟩
      exact (le_max_left w 0).trans (hle label' c' h)
  · rcases himp v with hsame | ⟨label, c, -, hcomes, hlt⟩
    · exact hsame.trans h₀
    · have hc := hleast label c hcomes
      have hlt := hlt label₀ w₀ h₀
      unfold cost at hc
      omega

end

/-! ## Termination -/

section
variable [DecidableEq N] (V : Finset N)

def rank (f : Labels N L) : Nat × Nat :=
  ((V.filter fun v => (f v).isNone).card, ∑ v ∈ V, (f v).elim 0 fun p => p.2.toNat)

theorem rank_update {f : Labels N L} {y : N} (hy : y ∈ V) {label : L} {w : Int} (hw : 0 ≤ w)
    (hless : ∀ label' w', f y = some (label', w') → w < w') :
    Prod.Lex (· < ·) (· < ·) (rank V (Function.update f y (some (label, w)))) (rank V f) := by
  have hother : ∀ v, v ≠ y → Function.update f y (some (label, w)) v = f v := fun v hv => Function.update_of_ne hv _ _
  cases hfy : f y with
  | none =>
    -- the node had no label
    refine .left _ _ (Finset.card_lt_card (Finset.ssubset_iff_of_subset ?_ |>.mpr ⟨y, ?_, ?_⟩))
    · intro v hv
      rw [Finset.mem_filter] at hv ⊢
      refine ⟨hv.1, ?_⟩
      by_cases hvy : v = y
      · rw [hvy, hfy]
        rfl
      · rw [← hother v hvy]
        exact hv.2
    · rw [Finset.mem_filter, hfy]
      exact ⟨hy, rfl⟩
    · rw [Finset.mem_filter, Function.update_self]
      simp
  | some p =>
    obtain ⟨label', w'⟩ := p
    have hlt := hless label' w' hfy
    have hcount : (V.filter fun v => (Function.update f y (some (label, w)) v).isNone) = V.filter fun v =>
      (f v).isNone := by
      refine Finset.filter_congr fun v _ => ?_
      by_cases hvy : v = y
      · rw [hvy, hfy, Function.update_self]
        rfl
      · rw [hother v hvy]
    unfold rank
    rw [hcount]
    refine .right _ (Finset.sum_lt_sum (fun v _ => ?_) ⟨y, hy, ?_⟩)
    · by_cases hvy : v = y
      · rw [hvy, Function.update_self, hfy]
        simp only [Option.elim_some]
        omega
      · rw [hother v hvy]
    · rw [Function.update_self, hfy]
      simp only [Option.elim_some]
      omega

end

end Aeneas.Relaxation
