import Aeneas.IsabelleScalar
import Mathlib.Data.Int.Bitwise

/-!
# Bitwise operations and shifts in the Isabelle prelude

The prelude computes on the two's complement representation of unbounded integers
and wraps the result. Wrapping an integer is cutting it to the width of its type
and reading the bits back, so each operation is the one on bit vectors.
-/

namespace Aeneas

open BitVec

/-! ## Unbounded two's complement and bit vectors -/

section
variable {w : Nat}

theorem getLsbD_ofInt (x : Int) (i : Nat) : (BitVec.ofInt w x).getLsbD i = (decide (i < w) && x.testBit i) := by
  cases x with
  | ofNat n => simp [Int.testBit, BitVec.getLsbD_ofNat]
  | negSucc n =>
    rw [ofInt_negSucc_eq_not_ofNat, getLsbD_not, getLsbD_ofNat, Int.testBit]
    by_cases hi : i < w <;> simp [hi]

theorem ofInt_land (x y : Int) : BitVec.ofInt w (x.land y) = BitVec.ofInt w x &&& BitVec.ofInt w y := by
  apply eq_of_getLsbD_eq
  intro i hi
  simp only [getLsbD_and, getLsbD_ofInt, hi, Int.testBit_land, decide_true, Bool.true_and]

theorem ofInt_lor (x y : Int) : BitVec.ofInt w (x.lor y) = BitVec.ofInt w x ||| BitVec.ofInt w y := by
  apply eq_of_getLsbD_eq
  intro i hi
  simp only [getLsbD_or, getLsbD_ofInt, hi, Int.testBit_lor, decide_true, Bool.true_and]

theorem ofInt_xor (x y : Int) : BitVec.ofInt w (x.xor y) = BitVec.ofInt w x ^^^ BitVec.ofInt w y := by
  apply eq_of_getLsbD_eq
  intro i hi
  simp only [getLsbD_xor, getLsbD_ofInt, hi, Int.testBit_lxor, decide_true, Bool.true_and]

theorem ofInt_lnot (x : Int) : BitVec.ofInt w x.lnot = ~~~ BitVec.ofInt w x := by
  apply eq_of_getLsbD_eq
  intro i hi
  simp only [getLsbD_not, getLsbD_ofInt, hi, Int.testBit_lnot, decide_true, Bool.true_and]

theorem ofInt_mul_two_pow (x : Int) (k : Nat) : BitVec.ofInt w (x * 2 ^ k) = BitVec.ofInt w x <<< k := by
  have hpow : BitVec.ofInt w (2 ^ k) = BitVec.twoPow w k := by
    rw [show (2 : Int) ^ k = ((2 ^ k : Nat) : Int) by simp, ofInt_natCast]
    apply eq_of_toNat_eq
    rw [toNat_twoPow, toNat_ofNat]
  rw [ofInt_mul, hpow, mul_twoPow_eq_shiftLeft]

end

end Aeneas

namespace Aeneas.Isabelle

/-! ## The operations -/

def scalarXor (ty : ScalarTy) (x y : Int) : Int := scalarWrap ty (x.xor y)

def scalarOr (ty : ScalarTy) (x y : Int) : Int := scalarWrap ty (x.lor y)

def scalarAnd (ty : ScalarTy) (x y : Int) : Int := scalarWrap ty (x.land y)

def scalarNot (ty : ScalarTy) (x : Int) : Int := scalarWrap ty x.lnot

def scalarShiftInBounds (ty : ScalarTy) (n : Int) : Bool := decide (0 ≤ n) && decide (n < scalarBits ty)

def scalarShl (ty : ScalarTy) (x n : Int) : Result Int :=
  if scalarShiftInBounds ty n then pure (scalarWrap ty (x * 2 ^ n.toNat)) else .fail .failure

def scalarShr (ty : ScalarTy) (x n : Int) : Result Int :=
  if scalarShiftInBounds ty n then pure (scalarWrap ty (x / 2 ^ n.toNat)) else .fail .failure

def scalarWrappingShiftAmount (ty : ScalarTy) (n : Int) : Nat := (n % scalarBits ty).toNat

def scalarWrappingShl (ty : ScalarTy) (x n : Int) : Int :=
  scalarWrap ty (x * 2 ^ scalarWrappingShiftAmount ty n)

def scalarWrappingShr (ty : ScalarTy) (x n : Int) : Int :=
  scalarWrap ty (x / 2 ^ scalarWrappingShiftAmount ty n)

/-! ## Scalars as bit vectors -/

def toBits (ty : ScalarTy) (x : Int) : BitVec (scalarBits ty) := BitVec.ofInt (scalarBits ty) x

def ofBits (ty : ScalarTy) (b : BitVec (scalarBits ty)) : Int := if scalarIsSigned ty then b.toInt else b.toNat

/-- The right shift of Rust: arithmetic at the signed types, logical at the others. -/
def shiftRightBits (ty : ScalarTy) (b : BitVec (scalarBits ty)) (k : Nat) : BitVec (scalarBits ty) :=
  if scalarIsSigned ty then b.sshiftRight k else b >>> k

theorem scalarWrap_eq_ofBits (ty : ScalarTy) (x : Int) : scalarWrap ty x = ofBits ty (toBits ty x) := by
  have hnonneg := Int.emod_nonneg x (scalarModulus_pos ty).ne'
  have heven := two_dvd_scalarModulus ty
  have hcast : ((2 ^ scalarBits ty : Nat) : Int) = scalarModulus ty := by simp [scalarModulus]
  simp only [scalarWrap, ofBits, toBits]
  cases scalarIsSigned ty with
  | false => simp [BitVec.toNat_ofInt, hcast, hnonneg]
  | true =>
    simp only [Bool.true_and, decide_eq_true_eq, if_true, BitVec.toInt_ofInt, Int.bmod, hcast]
    split <;> split <;> omega

variable {ty : ScalarTy} {x : Int}

theorem ofBits_toBits (h : scalarInBounds ty x = true) : ofBits ty (toBits ty x) = x := by
  rw [← scalarWrap_eq_ofBits, scalarWrap_eq_self_iff.mpr h]

theorem div_two_pow_inBounds (h : scalarInBounds ty x = true) (k : Nat) :
    scalarInBounds ty (x / 2 ^ k) = true := by
  have hpow : (0 : Int) < 2 ^ k := Int.pow_pos (by decide)
  have hmin := scalarMin_nonpos ty
  rw [scalarInBounds_iff] at h ⊢
  rcases le_or_gt 0 x with hx | hx
  · have hnonneg := Int.ediv_nonneg hx hpow.le
    have hle := Int.ediv_le_self (2 ^ k) hx
    omega
  · have hneg := Int.ediv_neg_of_neg_of_pos hx hpow
    have hle : x ≤ x / 2 ^ k := by
      rw [Int.le_ediv_iff_mul_le hpow]
      exact mul_le_of_one_le_right hx.le (by omega)
    omega

theorem ofBits_shiftRightBits (h : scalarInBounds ty x = true) (k : Nat) :
    ofBits ty (shiftRightBits ty (toBits ty x) k) = scalarWrap ty (x / 2 ^ k) := by
  rw [scalarWrap_eq_self_iff.mpr (div_two_pow_inBounds h k)]
  have hx := ofBits_toBits h
  unfold ofBits shiftRightBits at *
  cases hsigned : scalarIsSigned ty with
  | false =>
    simp only [hsigned, Bool.false_eq_true, if_false] at hx ⊢
    rw [BitVec.toNat_ushiftRight, Nat.shiftRight_eq_div_pow, Int.natCast_ediv, hx]
    simp
  | true =>
    simp only [hsigned, if_true] at hx ⊢
    rw [BitVec.toInt_sshiftRight, Int.shiftRight_eq_div_pow, hx]
    simp

theorem scalarShl_eq (ty : ScalarTy) (x n : Int) :
    scalarShl ty x n =
      if 0 ≤ n ∧ n < scalarBits ty then .ok (ofBits ty (toBits ty x <<< n.toNat)) else .fail .failure := by
  simp only [scalarShl, scalarShiftInBounds, Bool.and_eq_true, decide_eq_true_eq, scalarWrap_eq_ofBits, toBits,
    ofInt_mul_two_pow, Result.pure_eq]

theorem scalarShr_eq (h : scalarInBounds ty x = true) (n : Int) :
    scalarShr ty x n =
      if 0 ≤ n ∧ n < scalarBits ty then .ok (ofBits ty (shiftRightBits ty (toBits ty x) n.toNat))
      else .fail .failure := by
  simp only [scalarShr, scalarShiftInBounds, Bool.and_eq_true, decide_eq_true_eq, ofBits_shiftRightBits h,
    Result.pure_eq]

/-- Each operation is the one on the bit vectors of the width of its type. A plain shift fails if
its amount is not below the width, and a wrapping one reduces the amount modulo the width. -/
theorem bitwise_eq_onBits (ty : ScalarTy) (x y n : Int) (hx : scalarInBounds ty x = true) :
    scalarAnd ty x y = ofBits ty (toBits ty x &&& toBits ty y) ∧
    scalarOr ty x y = ofBits ty (toBits ty x ||| toBits ty y) ∧
    scalarXor ty x y = ofBits ty (toBits ty x ^^^ toBits ty y) ∧
    scalarNot ty x = ofBits ty (~~~ toBits ty x) ∧
    scalarShl ty x n =
      (if 0 ≤ n ∧ n < scalarBits ty then .ok (ofBits ty (toBits ty x <<< n.toNat)) else .fail .failure) ∧
    scalarShr ty x n =
      (if 0 ≤ n ∧ n < scalarBits ty then .ok (ofBits ty (shiftRightBits ty (toBits ty x) n.toNat))
      else .fail .failure) ∧
    scalarWrappingShl ty x n = ofBits ty (toBits ty x <<< (n % scalarBits ty).toNat) ∧
    scalarWrappingShr ty x n = ofBits ty (shiftRightBits ty (toBits ty x) (n % scalarBits ty).toNat) := by
  refine ⟨?_, ?_, ?_, ?_, scalarShl_eq ty x n, scalarShr_eq hx n, ?_, ?_⟩
  · rw [scalarAnd, scalarWrap_eq_ofBits, toBits, ofInt_land, ← toBits, ← toBits]
  · rw [scalarOr, scalarWrap_eq_ofBits, toBits, ofInt_lor, ← toBits, ← toBits]
  · rw [scalarXor, scalarWrap_eq_ofBits, toBits, ofInt_xor, ← toBits, ← toBits]
  · rw [scalarNot, scalarWrap_eq_ofBits, toBits, ofInt_lnot, ← toBits]
  · rw [scalarWrappingShl, scalarWrap_eq_ofBits, toBits, ofInt_mul_two_pow, ← toBits, scalarWrappingShiftAmount]
  · rw [scalarWrappingShr, ofBits_shiftRightBits hx, scalarWrappingShiftAmount]

/-- `-8i8 >> 1` keeps the sign, and a shift by `9` wraps to a shift by `1`. -/
theorem bitwise_eq_onBits_minusEight :
    scalarInBounds .i8 (-8) = true ∧ scalarShr .i8 (-8) 1 = .ok (-4) ∧ scalarShl .i8 (-8) 8 = .fail .failure ∧
    scalarWrappingShr .i8 (-8) 9 = -4 := by
  obtain ⟨-, -, -, -, -, hshr, -, -⟩ := bitwise_eq_onBits .i8 (-8) 0 1 (by decide)
  obtain ⟨-, -, -, -, hshl, -, -, -⟩ := bitwise_eq_onBits .i8 (-8) 0 8 (by decide)
  obtain ⟨-, -, -, -, -, -, -, hwrap⟩ := bitwise_eq_onBits .i8 (-8) 0 9 (by decide)
  exact ⟨by decide, hshr.trans (by decide), hshl.trans (by decide), hwrap.trans (by decide)⟩

end Aeneas.Isabelle
