import Aeneas.IsabelleScalar

/-!
# Division and remainder in the Isabelle prelude

Division in HOL rounds towards minus infinity and division in Rust towards zero,
so the prelude builds the latter from absolute values. The quotient leaves the
bounds of its type for one pair of operands, the minimum and `-1`, for which the
remainder is `0` and stays in bounds.
-/

namespace Aeneas.Isabelle

def scalarTruncDiv (x y : Int) : Int := if (x < 0) ↔ (y < 0) then |x| / |y| else -(|x| / |y|)

def scalarTruncRem (x y : Int) : Int := x - scalarTruncDiv x y * y

def scalarDiv (ty : ScalarTy) (x y : Int) : Result Int :=
  if y = 0 then .fail .failure else mkScalar ty (scalarTruncDiv x y)

def scalarRem (ty : ScalarTy) (x y : Int) : Result Int :=
  if y = 0 then .fail .failure else mkScalar ty (scalarTruncRem x y)

def checkedDiv (ty : ScalarTy) (x y : Int) : Option Int := scalarCheckedOp ty (scalarDiv ty x y)

def checkedRem (ty : ScalarTy) (x y : Int) : Option Int := scalarCheckedOp ty (scalarRem ty x y)

/-! ## Truncation -/

theorem scalarTruncDiv_eq_tdiv (x y : Int) : scalarTruncDiv x y = x.tdiv y := by
  unfold scalarTruncDiv
  rcases lt_or_ge x 0 with hx | hx <;> rcases lt_or_ge y 0 with hy | hy
  · simp only [hx, hy, abs_of_neg, if_true]
    rw [← Int.tdiv_eq_ediv_of_nonneg (by omega), Int.neg_tdiv_neg]
  · simp only [hx, not_lt.mpr hy, abs_of_neg, abs_of_nonneg hy, iff_false, not_true_eq_false, if_false]
    rw [← Int.tdiv_eq_ediv_of_nonneg (by omega), Int.neg_tdiv, neg_neg]
  · simp only [not_lt.mpr hx, hy, abs_of_neg, abs_of_nonneg hx, iff_true, if_false]
    rw [← Int.tdiv_eq_ediv_of_nonneg hx, Int.tdiv_neg, neg_neg]
  · simp only [not_lt.mpr hx, not_lt.mpr hy, abs_of_nonneg hx, abs_of_nonneg hy, if_true]
    exact (Int.tdiv_eq_ediv_of_nonneg hx).symm

theorem scalarTruncRem_eq_tmod (x y : Int) : scalarTruncRem x y = x.tmod y := by
  rw [scalarTruncRem, scalarTruncDiv_eq_tdiv, Int.tmod_def, Int.mul_comm]

theorem tdiv_inBounds_iff {ty : ScalarTy} {x y : Int} (hx : scalarInBounds ty x = true)
    (hy : scalarInBounds ty y = true) (hzero : y ≠ 0) :
    scalarInBounds ty (x.tdiv y) = true ↔ ¬ (x = scalarMin ty ∧ y = -1) := by
  rw [scalarInBounds_iff] at hx hy ⊢
  have hmin := scalarMin_nonpos ty
  have habs := Int.natAbs_tdiv x y
  constructor
  · rintro hin ⟨rfl, rfl⟩
    rw [Int.tdiv_neg, Int.tdiv_one] at hin
    omega
  · intro hne
    by_cases hone : y = 1 ∨ y = -1
    · rcases hone with rfl | rfl
      · rwa [Int.tdiv_one]
      · rw [Int.tdiv_neg, Int.tdiv_one]
        omega
    · -- the quotient is then at most half of the dividend
      have hhalf : x.natAbs / y.natAbs ≤ x.natAbs / 2 := Nat.div_le_div_left (by omega) (by decide)
      have hsign : 0 ≤ x → 0 ≤ y → 0 ≤ x.tdiv y := Int.tdiv_nonneg
      change _ = x.natAbs / y.natAbs at habs
      omega

theorem tmod_inBounds {ty : ScalarTy} {x : Int} (hx : scalarInBounds ty x = true) (y : Int) :
    scalarInBounds ty (x.tmod y) = true := by
  rw [scalarInBounds_iff] at hx ⊢
  have hmin := scalarMin_nonpos ty
  have habs := Int.natAbs_tmod x y
  have hle := Nat.mod_le x.natAbs y.natAbs
  rcases le_or_gt 0 x with hpos | hneg
  · have := Int.tmod_nonneg y hpos
    omega
  · have hflip := Int.tmod_nonneg y (show 0 ≤ -x by omega)
    rw [Int.neg_tmod] at hflip
    omega

/-! ## The operations -/

def DivPanics (ty : ScalarTy) (x y : Int) : Prop := y = 0 ∨ (x = scalarMin ty ∧ y = -1)

theorem mkScalar_fails_iff {ty : ScalarTy} {z : Int} :
    (∃ e, mkScalar ty z = .fail e) ↔ scalarInBounds ty z = false := by
  unfold mkScalar
  cases scalarInBounds ty z <;> simp

theorem scalarCheckedOp_mkScalar_eq_none {ty : ScalarTy} {z : Int} :
    scalarCheckedOp ty (mkScalar ty z) = none ↔ ∃ e, mkScalar ty z = .fail e := by
  unfold mkScalar
  cases scalarInBounds ty z <;> simp [scalarCheckedOp]

section
variable {ty : ScalarTy} {x y : Int}

theorem scalarDiv_fails_iff (hx : scalarInBounds ty x = true) (hy : scalarInBounds ty y = true) :
    (∃ e, scalarDiv ty x y = .fail e) ↔ DivPanics ty x y := by
  unfold scalarDiv DivPanics
  split
  · rename_i hzero
    simp [hzero]
  · rename_i hzero
    have hbounds := tdiv_inBounds_iff hx hy hzero
    rw [mkScalar_fails_iff, scalarTruncDiv_eq_tdiv, ← Bool.not_eq_true, hbounds]
    simp [hzero]

theorem scalarDiv_eq_ok (hx : scalarInBounds ty x = true) (hy : scalarInBounds ty y = true)
    (h : ¬ DivPanics ty x y) : scalarDiv ty x y = .ok (x.tdiv y) := by
  obtain ⟨hzero, hmin⟩ := not_or.mp h
  rw [scalarDiv, if_neg hzero, scalarTruncDiv_eq_tdiv, mkScalar_eq_ok]
  exact ⟨rfl, (tdiv_inBounds_iff hx hy hzero).mpr hmin⟩

theorem scalarRem_eq (hx : scalarInBounds ty x = true) :
    scalarRem ty x y = if y = 0 then .fail .failure else .ok (x.tmod y) := by
  unfold scalarRem
  rw [scalarTruncRem_eq_tmod, mkScalar, if_pos (tmod_inBounds hx y)]
  rfl

theorem scalarRem_fails_iff (hx : scalarInBounds ty x = true) : (∃ e, scalarRem ty x y = .fail e) ↔ y = 0 := by
  rw [scalarRem_eq hx]
  split <;> simp_all

theorem checkedDiv_eq_none : checkedDiv ty x y = none ↔ ∃ e, scalarDiv ty x y = .fail e := by
  unfold checkedDiv scalarDiv
  split
  · simp [scalarCheckedOp]
  · exact scalarCheckedOp_mkScalar_eq_none

theorem checkedRem_eq_none : checkedRem ty x y = none ↔ ∃ e, scalarRem ty x y = .fail e := by
  unfold checkedRem scalarRem
  split
  · simp [scalarCheckedOp]
  · exact scalarCheckedOp_mkScalar_eq_none

theorem tmod_spec (hzero : y ≠ 0) :
    x = x.tdiv y * y + x.tmod y ∧ |x.tmod y| < |y| ∧ (x.tmod y = 0 ∨ (x.tmod y).sign = x.sign) := by
  refine ⟨(Int.tdiv_mul_add_tmod x y).symm, ?_, ?_⟩
  · have habs := Int.natAbs_tmod x y
    have hlt := Nat.mod_lt x.natAbs (Int.natAbs_pos.mpr hzero)
    rw [Int.abs_eq_natAbs, Int.abs_eq_natAbs]
    omega
  · by_cases hrem : x.tmod y = 0
    · exact Or.inl hrem
    · have hx : x ≠ 0 := by rintro rfl; exact hrem (Int.zero_tmod y)
      right
      rcases lt_or_gt_of_ne hx with hneg | hpos
      · have hflip := Int.tmod_nonneg y (show 0 ≤ -x by omega)
        rw [Int.neg_tmod] at hflip
        rw [Int.sign_eq_neg_one_of_neg hneg, Int.sign_eq_neg_one_of_neg (by omega)]
      · have := Int.tmod_nonneg y hpos.le
        rw [Int.sign_eq_one_of_pos hpos, Int.sign_eq_one_of_pos (by omega)]

end

/-- Division and remainder fail on the operands on which Rust panics, and return the truncated
quotient and its remainder on the others; the checked variants return nothing when they fail. -/
structure DivRemAsInRust (ty : ScalarTy) (x y : Int) : Prop where
  div_fails : (∃ e, scalarDiv ty x y = .fail e) ↔ DivPanics ty x y
  rem_fails : (∃ e, scalarRem ty x y = .fail e) ↔ DivPanics ty x y
  returns : ¬ DivPanics ty x y → ∃ q r, scalarDiv ty x y = .ok q ∧ scalarRem ty x y = .ok r ∧
    x = q * y + r ∧ |r| < |y| ∧ (r = 0 ∨ r.sign = x.sign)
  checked_div : checkedDiv ty x y = none ↔ ∃ e, scalarDiv ty x y = .fail e
  checked_rem : checkedRem ty x y = none ↔ ∃ e, scalarRem ty x y = .fail e

theorem divRem_asInRust_iff (ty : ScalarTy) (x y : Int) (hx : scalarInBounds ty x = true)
    (hy : scalarInBounds ty y = true) : DivRemAsInRust ty x y ↔ ¬ (x = scalarMin ty ∧ y = -1) := by
  constructor
  · rintro h ⟨rfl, rfl⟩
    have hfails := h.rem_fails.mpr (Or.inr ⟨rfl, rfl⟩)
    rw [scalarRem_fails_iff hx] at hfails
    simp at hfails
  · intro hmin
    have hpanics : DivPanics ty x y ↔ y = 0 := or_iff_left hmin
    refine ⟨scalarDiv_fails_iff hx hy, ?_, ?_, checkedDiv_eq_none, checkedRem_eq_none⟩
    · rw [scalarRem_fails_iff hx, hpanics]
    · intro h
      have hzero : y ≠ 0 := fun hzero => h (Or.inl hzero)
      exact ⟨x.tdiv y, x.tmod y, scalarDiv_eq_ok hx hy h, by rw [scalarRem_eq hx, if_neg hzero], tmod_spec hzero⟩

theorem divRem_asInRust_minusSeven : DivRemAsInRust .i32 (-7) 2 :=
  (divRem_asInRust_iff .i32 (-7) 2 (by decide) (by decide)).mpr (by decide)

/-- In Rust `i32::MIN % -1` overflows and panics, in the prelude it is `0`. -/
theorem i32_min_rem_minusOne :
    scalarDiv .i32 (-2147483648) (-1) = .fail .failure ∧ scalarRem .i32 (-2147483648) (-1) = .ok 0 ∧
    checkedRem .i32 (-2147483648) (-1) = some 0 ∧ ¬ DivRemAsInRust .i32 (-2147483648) (-1) := by
  refine ⟨by decide, by decide, by decide, fun h => ?_⟩
  obtain ⟨e, he⟩ := h.rem_fails.mpr (Or.inr ⟨by decide, rfl⟩)
  exact absurd he (by rw [show scalarRem .i32 (-2147483648) (-1) = .ok 0 by decide]; simp)

end Aeneas.Isabelle
