import Mathlib.Algebra.Order.Ring.Int
import Mathlib.Data.List.Basic

/-!
# Little-endian bytes

`leBytes n x` lists the `n` low bytes of `x`, least significant first, and
`leValue` reads such a list back. A reader that takes `n` bytes off the front of
a buffer (`takeLe`) undoes a writer that appended `leBytes n x`.
-/

namespace Aeneas

abbrev Byte := BitVec 8

def leBytes : Nat → Nat → List Byte
  | 0, _ => []
  | n + 1, x => BitVec.ofNat 8 x :: leBytes n (x / 256)

def leValue : List Byte → Nat
  | [] => 0
  | b :: bs => b.toNat + 256 * leValue bs

def takeLe (n : Nat) (bs : List Byte) : Option (Nat × List Byte) :=
  if n ≤ bs.length then some (leValue (bs.take n), bs.drop n) else none

@[simp] theorem leBytes_length (n x : Nat) : (leBytes n x).length = n := by
  induction n generalizing x with
  | zero => rfl
  | succ n ih => simp [leBytes, ih]

theorem leBytes_take (m n x : Nat) (h : m ≤ n) : (leBytes n x).take m = leBytes m x := by
  induction m generalizing n x with
  | zero => simp [leBytes]
  | succ m ih =>
    obtain ⟨k, rfl⟩ : ∃ k, n = k + 1 := ⟨n - 1, by omega⟩
    simp only [leBytes, List.take_succ_cons]
    rw [ih k (x / 256) (by omega)]

theorem leValue_leBytes (n x : Nat) : leValue (leBytes n x) = x % 256 ^ n := by
  induction n generalizing x with
  | zero => simp [leBytes, leValue, Nat.mod_one]
  | succ n ih =>
    have h : x % 256 ^ (n + 1) = x % 256 + 256 * (x / 256 % 256 ^ n) := by
      rw [Nat.pow_succ, Nat.mul_comm (256 ^ n) 256, Nat.mod_mul]
    simp only [leBytes, leValue, ih, BitVec.toNat_ofNat, h]

theorem leBytes_mod (n x : Nat) : leBytes n (x % 256 ^ n) = leBytes n x := by
  induction n generalizing x with
  | zero => rfl
  | succ n ih =>
    simp only [leBytes]
    have h1 : BitVec.ofNat 8 (x % 256 ^ (n + 1)) = BitVec.ofNat 8 x := by
      apply BitVec.eq_of_toNat_eq
      simp only [BitVec.toNat_ofNat]
      exact Nat.mod_mod_of_dvd x ⟨256 ^ n, by rw [Nat.pow_succ, Nat.mul_comm]⟩
    have h2 : x % 256 ^ (n + 1) / 256 = x / 256 % 256 ^ n := by
      rw [Nat.pow_succ, Nat.mul_comm (256 ^ n) 256]
      exact Nat.mod_mul_right_div_self x 256 (256 ^ n)
    rw [h1, h2, ih]

theorem takeLe_append (n x : Nat) (rest : List Byte) :
    takeLe n (leBytes n x ++ rest) = some (x % 256 ^ n, rest) := by
  have hlen : n ≤ (leBytes n x ++ rest).length := by simp
  have htake : (leBytes n x ++ rest).take n = leBytes n x := by
    rw [List.take_append_of_le_length (by simp), List.take_of_length_le (by simp)]
  have hdrop : (leBytes n x ++ rest).drop n = rest := by
    rw [List.drop_append_of_le_length (by simp), List.drop_of_length_le (by simp), List.nil_append]
  simp only [takeLe, hlen, ite_true, htake, hdrop, leValue_leBytes]

/-! ## Reading a truncated bit vector back -/

theorem ofNat_mod_toNat {w : Nat} (n : Nat) (x : BitVec w) :
    BitVec.ofNat n (x.toNat % 2 ^ n) = x.setWidth n := by
  apply BitVec.eq_of_toNat_eq
  simp [BitVec.toNat_ofNat, BitVec.toNat_setWidth]

theorem setWidth_signExtend {n m : Nat} (h : n ≤ m) (x : BitVec n) :
    (x.signExtend m).setWidth n = x := by
  apply BitVec.eq_of_getLsbD_eq
  intro i hi
  have hm : i < m := by omega
  simp only [BitVec.getLsbD_setWidth, BitVec.getLsbD_signExtend, hi, hm, decide_true, Bool.true_and,
    ite_true]

end Aeneas
