import Aeneas.IsabelleScalar
import Mathlib.Algebra.BigOperators.Ring.Finset
import Mathlib.Tactic.Ring

/-!
# Byte encodings in the Isabelle prelude

A scalar of `n` bytes is encoded by the `n` base-256 digits of its unsigned bit
pattern. Encoding and decoding are inverse to each other because the digits
determine the pattern, and the pattern the scalar in the bounds of its type.
-/

namespace Aeneas.Isabelle

open List

def scalarToLeBytes (ty : ScalarTy) (x : Int) : List Int :=
  let n := scalarBits ty / 8
  let u := x % scalarModulus ty
  (List.range n).map fun k => u / 256 ^ k % 256

def scalarToBeBytes (ty : ScalarTy) (x : Int) : List Int := (scalarToLeBytes ty x).reverse

def scalarFromLeBytes (ty : ScalarTy) (bs : List Int) : Int :=
  scalarWrap ty (∑ k ∈ Finset.range bs.length, bs.getD k 0 * 256 ^ k)

def scalarFromBeBytes (ty : ScalarTy) (bs : List Int) : Int := scalarFromLeBytes ty bs.reverse

/-! ## Digits -/

def lowDigits : Nat → Int → List Int
  | 0, _ => []
  | n + 1, u => u % 256 :: lowDigits n (u / 256)

def digitsValue : List Int → Int
  | [] => 0
  | b :: bs => b + 256 * digitsValue bs

def IsBytes (n : Nat) (bs : List Int) : Prop := bs.length = n ∧ ∀ b ∈ bs, scalarInBounds .u8 b = true

theorem u8_inBounds_iff {b : Int} : scalarInBounds .u8 b = true ↔ 0 ≤ b ∧ b < 256 := by
  rw [scalarInBounds_iff]
  simp only [scalarMin, scalarMax, u8Min, u8Max]
  omega

theorem map_digit_eq_lowDigits (n : Nat) (u : Int) :
    ((List.range n).map fun k => u / 256 ^ k % 256) = lowDigits n u := by
  induction n generalizing u with
  | zero => rfl
  | succ n ih =>
    rw [List.range_succ_eq_map, map_cons, map_map, lowDigits, ← ih]
    have hstep : ∀ k : Nat, u / 256 ^ (k + 1) = u / 256 / 256 ^ k := by
      intro k
      rw [pow_succ', Int.ediv_ediv_of_nonneg (by decide)]
    simp [Function.comp_def, hstep]

theorem sum_eq_digitsValue (bs : List Int) :
    ∑ k ∈ Finset.range bs.length, bs.getD k 0 * 256 ^ k = digitsValue bs := by
  induction bs with
  | nil => rfl
  | cons b bs ih =>
    rw [length_cons, Finset.sum_range_succ', digitsValue, ← ih, Finset.mul_sum]
    simp only [getD_cons_succ, getD_cons_zero, pow_zero, mul_one, add_comm b]
    congr 1
    apply Finset.sum_congr rfl
    intro k _
    ring

theorem lowDigits_isBytes (n : Nat) (u : Int) : IsBytes n (lowDigits n u) := by
  induction n generalizing u with
  | zero => simp [IsBytes, lowDigits]
  | succ n ih =>
    obtain ⟨hlen, hbytes⟩ := ih (u / 256)
    refine ⟨by simp [lowDigits, hlen], ?_⟩
    intro b hb
    rcases mem_cons.mp hb with rfl | hb
    · rw [u8_inBounds_iff]; omega
    · exact hbytes b hb

theorem emod_mul_eq (u : Int) {p : Int} (hp : 0 < p) : u % (256 * p) = u % 256 + 256 * (u / 256 % p) := by
  have hnonneg := Int.emod_nonneg (u / 256) hp.ne'
  have hlt := Int.emod_lt_of_pos (u / 256) hp
  have hsplit : u = u % 256 + 256 * (u / 256 % p) + 256 * p * (u / 256 / p) := by
    have hinner := Int.emod_add_mul_ediv (u / 256) p
    rw [mul_assoc, add_assoc, ← mul_add, hinner]
    omega
  conv_lhs => rw [hsplit, Int.add_mul_emod_self_left]
  exact Int.emod_eq_of_lt (by omega) (by omega)

theorem digitsValue_lowDigits (n : Nat) (u : Int) : digitsValue (lowDigits n u) = u % 256 ^ n := by
  induction n generalizing u with
  | zero => simp [lowDigits, digitsValue]
  | succ n ih =>
    rw [lowDigits, digitsValue, ih, pow_succ', emod_mul_eq u (Int.pow_pos (by decide))]

theorem lowDigits_digitsValue {n : Nat} {bs : List Int} (h : IsBytes n bs) :
    lowDigits n (digitsValue bs) = bs ∧ 0 ≤ digitsValue bs ∧ digitsValue bs < 256 ^ n := by
  induction bs generalizing n with
  | nil =>
    obtain ⟨rfl, -⟩ := h
    simp [lowDigits, digitsValue]
  | cons b bs ih =>
    obtain ⟨rfl, hbytes⟩ := h
    obtain ⟨hdigits, hnonneg, hlt⟩ := ih ⟨rfl, fun c hc => hbytes c (mem_cons_of_mem b hc)⟩
    have hb := u8_inBounds_iff.mp (hbytes b mem_cons_self)
    have hmod : (b + 256 * digitsValue bs) % 256 = b := by omega
    have hdiv : (b + 256 * digitsValue bs) / 256 = digitsValue bs := by omega
    refine ⟨?_, ?_, ?_⟩
    · rw [length_cons, lowDigits, digitsValue, hmod, hdiv, hdigits]
    · rw [digitsValue]; omega
    · rw [digitsValue, length_cons, pow_succ']; omega

/-! ## Encoding and decoding -/

theorem scalarModulus_eq_pow (ty : ScalarTy) : scalarModulus ty = 256 ^ (scalarBits ty / 8) := by
  cases ty <;> decide

theorem scalarToLeBytes_eq (ty : ScalarTy) (x : Int) :
    scalarToLeBytes ty x = lowDigits (scalarBits ty / 8) (x % scalarModulus ty) :=
  map_digit_eq_lowDigits _ _

theorem scalarFromLeBytes_eq (ty : ScalarTy) (bs : List Int) :
    scalarFromLeBytes ty bs = scalarWrap ty (digitsValue bs) := by
  rw [scalarFromLeBytes, sum_eq_digitsValue]

section
variable {ty : ScalarTy}

theorem scalarToLeBytes_isBytes (x : Int) : IsBytes (scalarBits ty / 8) (scalarToLeBytes ty x) := by
  rw [scalarToLeBytes_eq]
  exact lowDigits_isBytes _ _

theorem scalarFromLeBytes_scalarToLeBytes {x : Int} (h : scalarInBounds ty x = true) :
    scalarFromLeBytes ty (scalarToLeBytes ty x) = x := by
  rw [scalarToLeBytes_eq, scalarFromLeBytes_eq, digitsValue_lowDigits,
    ← scalarModulus_eq_pow, Int.emod_emod_of_dvd _ (Int.dvd_refl _), scalarWrap_eq_iff]
  exact ⟨h, (Int.emod_emod_of_dvd x (Int.dvd_refl _)).symm⟩

theorem scalarToLeBytes_scalarFromLeBytes {bs : List Int} (h : IsBytes (scalarBits ty / 8) bs) :
    scalarToLeBytes ty (scalarFromLeBytes ty bs) = bs := by
  obtain ⟨hdigits, hnonneg, hlt⟩ := lowDigits_digitsValue h
  rw [scalarToLeBytes_eq, scalarFromLeBytes_eq, scalarWrap_emod, scalarModulus_eq_pow,
    Int.emod_eq_of_lt hnonneg hlt, hdigits]

theorem isBytes_reverse {n : Nat} {bs : List Int} (h : IsBytes n bs) : IsBytes n bs.reverse := by
  obtain ⟨hlen, hbytes⟩ := h
  exact ⟨by simpa using hlen, fun b hb => hbytes b (mem_reverse.mp hb)⟩

end

theorem bytes_inverse (ty : ScalarTy) :
    (∀ x, scalarInBounds ty x = true → IsBytes (scalarBits ty / 8) (scalarToLeBytes ty x) ∧
      scalarFromLeBytes ty (scalarToLeBytes ty x) = x) ∧
    (∀ bs, IsBytes (scalarBits ty / 8) bs → scalarInBounds ty (scalarFromLeBytes ty bs) = true ∧
      scalarToLeBytes ty (scalarFromLeBytes ty bs) = bs) ∧
    (∀ x, scalarInBounds ty x = true → IsBytes (scalarBits ty / 8) (scalarToBeBytes ty x) ∧
      scalarFromBeBytes ty (scalarToBeBytes ty x) = x) ∧
    (∀ bs, IsBytes (scalarBits ty / 8) bs → scalarInBounds ty (scalarFromBeBytes ty bs) = true ∧
      scalarToBeBytes ty (scalarFromBeBytes ty bs) = bs) ∧
    ∀ x, scalarToBeBytes ty x = (scalarToLeBytes ty x).reverse := by
  refine ⟨?_, ?_, ?_, ?_, fun x => rfl⟩
  · intro x hx
    exact ⟨scalarToLeBytes_isBytes x, scalarFromLeBytes_scalarToLeBytes hx⟩
  · intro bs hbs
    exact ⟨scalarWrap_inBounds ty _, scalarToLeBytes_scalarFromLeBytes hbs⟩
  · intro x hx
    refine ⟨isBytes_reverse (scalarToLeBytes_isBytes x), ?_⟩
    rw [scalarFromBeBytes, scalarToBeBytes, reverse_reverse, scalarFromLeBytes_scalarToLeBytes hx]
  · intro bs hbs
    refine ⟨scalarWrap_inBounds ty _, ?_⟩
    rw [scalarFromBeBytes, scalarToBeBytes, scalarToLeBytes_scalarFromLeBytes (isBytes_reverse hbs),
      reverse_reverse]

theorem bytes_inverse_minusTwo :
    scalarInBounds .i16 (-2) = true ∧ scalarToBeBytes .i16 (-2) = [255, 254] ∧
    scalarFromBeBytes .i16 (scalarToBeBytes .i16 (-2)) = -2 := by
  refine ⟨by decide, by decide, ((bytes_inverse .i16).2.2.1 (-2) (by decide)).2⟩

end Aeneas.Isabelle
