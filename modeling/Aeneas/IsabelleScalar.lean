import Aeneas.Result
import Mathlib.Algebra.Order.Ring.Int

/-!
# The scalars of the Isabelle prelude

All the integer types are modelled by the integers, with operations that check
or restore the bounds of a type. Wrapping takes the representative modulo two to
the width of a type which lies in its bounds, and everything else follows from
that: casts compose, and the variants of an operation agree where the exact
result is in bounds.
-/

namespace Aeneas.Isabelle

/-! ## Types and bounds -/

def i8Min : Int := -128
def i8Max : Int := 127
def i16Min : Int := -32768
def i16Max : Int := 32767
def i32Min : Int := -2147483648
def i32Max : Int := 2147483647
def i64Min : Int := -9223372036854775808
def i64Max : Int := 9223372036854775807
def i128Min : Int := -170141183460469231731687303715884105728
def i128Max : Int := 170141183460469231731687303715884105727
def u8Min : Int := 0
def u8Max : Int := 255
def u16Min : Int := 0
def u16Max : Int := 65535
def u32Min : Int := 0
def u32Max : Int := 4294967295
def u64Min : Int := 0
def u64Max : Int := 18446744073709551615
def u128Min : Int := 0
def u128Max : Int := 340282366920938463463374607431768211455

-- The backend fixes the pointer width to 64 bits.
def isizeMin : Int := -9223372036854775808
def isizeMax : Int := 9223372036854775807
def usizeMin : Int := 0
def usizeMax : Int := 18446744073709551615

inductive ScalarTy where
  | isize | i8 | i16 | i32 | i64 | i128
  | usize | u8 | u16 | u32 | u64 | u128
deriving DecidableEq

def scalarBits : ScalarTy → Nat
  | .isize => 64
  | .i8 => 8
  | .i16 => 16
  | .i32 => 32
  | .i64 => 64
  | .i128 => 128
  | .usize => 64
  | .u8 => 8
  | .u16 => 16
  | .u32 => 32
  | .u64 => 64
  | .u128 => 128

def scalarIsSigned : ScalarTy → Bool
  | .isize | .i8 | .i16 | .i32 | .i64 | .i128 => true
  | .usize | .u8 | .u16 | .u32 | .u64 | .u128 => false

def scalarMin : ScalarTy → Int
  | .isize => isizeMin
  | .i8 => i8Min
  | .i16 => i16Min
  | .i32 => i32Min
  | .i64 => i64Min
  | .i128 => i128Min
  | .usize => usizeMin
  | .u8 => u8Min
  | .u16 => u16Min
  | .u32 => u32Min
  | .u64 => u64Min
  | .u128 => u128Min

def scalarMax : ScalarTy → Int
  | .isize => isizeMax
  | .i8 => i8Max
  | .i16 => i16Max
  | .i32 => i32Max
  | .i64 => i64Max
  | .i128 => i128Max
  | .usize => usizeMax
  | .u8 => u8Max
  | .u16 => u16Max
  | .u32 => u32Max
  | .u64 => u64Max
  | .u128 => u128Max

def scalarInBounds (ty : ScalarTy) (x : Int) : Bool := decide (scalarMin ty ≤ x) && decide (x ≤ scalarMax ty)

def mkScalar (ty : ScalarTy) (x : Int) : Result Int := if scalarInBounds ty x then pure x else .fail .failure

/-! ## Wrapping -/

def scalarModulus (ty : ScalarTy) : Int := 2 ^ scalarBits ty

def scalarWrap (ty : ScalarTy) (x : Int) : Int :=
  let modulus := scalarModulus ty
  let value := x % modulus
  if scalarIsSigned ty && decide (value ≥ modulus / 2) then value - modulus else value

variable {ty : ScalarTy} {x : Int}

theorem scalarInBounds_iff :
    scalarInBounds ty x = true ↔ scalarMin ty ≤ x ∧ x ≤ scalarMax ty := by
  simp [scalarInBounds]

theorem scalarModulus_pos (ty : ScalarTy) : 0 < scalarModulus ty := by
  cases ty <;> decide

theorem scalarMax_eq (ty : ScalarTy) : scalarMax ty = scalarMin ty + scalarModulus ty - 1 := by
  cases ty <;> decide

theorem scalarMin_eq (ty : ScalarTy) : scalarMin ty = if scalarIsSigned ty then -(scalarModulus ty / 2) else 0 := by
  cases ty <;> decide

theorem scalarMin_nonpos (ty : ScalarTy) :
    scalarMin ty ≤ 0 ∧ 0 ≤ scalarMax ty ∧ (scalarMin ty = 0 ∨ scalarMin ty = -scalarMax ty - 1) := by
  cases ty <;> decide

theorem two_dvd_scalarModulus (ty : ScalarTy) : 2 ∣ scalarModulus ty := by
  cases ty <;> decide

theorem scalarWrap_inBounds (ty : ScalarTy) (x : Int) : scalarInBounds ty (scalarWrap ty x) = true := by
  have hpos := scalarModulus_pos ty
  have hnonneg := Int.emod_nonneg x (by omega : scalarModulus ty ≠ 0)
  have hlt := Int.emod_lt_of_pos x hpos
  have heven := two_dvd_scalarModulus ty
  rw [scalarInBounds_iff, scalarMax_eq, scalarMin_eq, scalarWrap]
  cases scalarIsSigned ty with
  | false => simp only [Bool.false_and, Bool.false_eq_true, if_false]; omega
  | true =>
    simp only [Bool.true_and, decide_eq_true_eq, if_true]
    split <;> omega

theorem scalarWrap_emod (ty : ScalarTy) (x : Int) : scalarWrap ty x % scalarModulus ty = x % scalarModulus ty := by
  simp only [scalarWrap]
  split
  · rw [Int.sub_emod_right, Int.emod_emod_of_dvd _ (Int.dvd_refl _)]
  · rw [Int.emod_emod_of_dvd _ (Int.dvd_refl _)]

theorem eq_of_inBounds_of_emod {y : Int} (hx : scalarInBounds ty x = true)
    (hy : scalarInBounds ty y = true) (h : x % scalarModulus ty = y % scalarModulus ty) : x = y := by
  rw [scalarInBounds_iff, scalarMax_eq] at hx hy
  have hsub : (x - scalarMin ty) % scalarModulus ty = (y - scalarMin ty) % scalarModulus ty := by
    rw [Int.sub_emod, h, ← Int.sub_emod]
  rw [Int.emod_eq_of_lt (by omega) (by omega), Int.emod_eq_of_lt (by omega) (by omega)] at hsub
  omega

theorem scalarWrap_eq_iff {y : Int} :
    scalarWrap ty x = y ↔ scalarInBounds ty y = true ∧ y % scalarModulus ty = x % scalarModulus ty := by
  constructor
  · rintro rfl
    exact ⟨scalarWrap_inBounds ty x, scalarWrap_emod ty x⟩
  · intro h
    exact eq_of_inBounds_of_emod (scalarWrap_inBounds ty x) h.1 ((scalarWrap_emod ty x).trans h.2.symm)

theorem scalarWrap_eq_self_iff : scalarWrap ty x = x ↔ scalarInBounds ty x = true := by
  simp [scalarWrap_eq_iff]

/-! ## Casts -/

inductive TryFromIntError where
  | undefined
deriving DecidableEq

inductive CoreResult (α ε : Type) where
  | ok (x : α)
  | err (e : ε)
deriving DecidableEq

def scalarCast (_src tgt : ScalarTy) (x : Int) : Result Int := pure (scalarWrap tgt x)

def scalarTryFrom (ty : ScalarTy) (x : Int) : Result (CoreResult Int TryFromIntError) :=
  .ok (if scalarInBounds ty x then .ok x else .err .undefined)

theorem scalarModulus_dvd {ty' : ScalarTy} (h : scalarBits ty ≤ scalarBits ty') :
    scalarModulus ty ∣ scalarModulus ty' :=
  pow_dvd_pow 2 h

theorem scalarWrap_scalarWrap {ty' : ScalarTy} (h : scalarBits ty ≤ scalarBits ty') (x : Int) :
    scalarWrap ty (scalarWrap ty' x) = scalarWrap ty x := by
  rw [scalarWrap_eq_iff]
  refine ⟨scalarWrap_inBounds ty x, ?_⟩
  have hdvd := scalarModulus_dvd h
  rw [scalarWrap_emod, ← Int.emod_emod_of_dvd (scalarWrap ty' x) hdvd, scalarWrap_emod, Int.emod_emod_of_dvd _ hdvd]

theorem scalarWrap_cast_tryFrom :
    (∀ ty x, (scalarInBounds ty (scalarWrap ty x) = true ∧
      scalarWrap ty x % 2 ^ scalarBits ty = x % 2 ^ scalarBits ty) ∧
      ∀ y, scalarInBounds ty y = true → y % 2 ^ scalarBits ty = x % 2 ^ scalarBits ty → y = scalarWrap ty x) ∧
    (∀ src mid tgt x, scalarBits tgt ≤ scalarBits mid →
      (scalarCast src mid x >>= scalarCast mid tgt) = scalarCast src tgt x) ∧
    ∀ src tgt x, ((∃ v, scalarTryFrom tgt x = .ok (.ok v)) ↔ scalarCast src tgt x = .ok x) ∧
      ∀ v, scalarTryFrom tgt x = .ok (.ok v) → v = x := by
  refine ⟨fun ty x => ⟨⟨scalarWrap_inBounds ty x, scalarWrap_emod ty x⟩, fun y hy h => ?_⟩, ?_, ?_⟩
  · exact (scalarWrap_eq_iff.mpr ⟨hy, h⟩).symm
  · intro src mid tgt x h
    simp [scalarCast, scalarWrap_scalarWrap h]
  · intro src tgt x
    have hcast : scalarCast src tgt x = .ok x ↔ scalarInBounds tgt x = true := by
      simp [scalarCast, scalarWrap_eq_self_iff]
    rw [hcast, scalarTryFrom]
    cases scalarInBounds tgt x <;> simp [eq_comm]

/-- `-1` as a `u8` is `255`, also through `i64`. -/
theorem scalarWrap_cast_tryFrom_minusOne :
    (scalarCast .i32 .i64 (-1) >>= scalarCast .i64 .u8) = .ok 255 ∧ ¬ ∃ v, scalarTryFrom .u8 (-1) = .ok (.ok v) := by
  obtain ⟨-, hcast, htry⟩ := scalarWrap_cast_tryFrom
  refine ⟨(hcast .i32 .i64 .u8 (-1) (by decide)).trans (by decide), fun h => ?_⟩
  exact absurd ((htry .i32 .u8 (-1)).1.mp h) (by decide)

/-! ## Operations

The prelude defines the members of each family for the twelve types one by one. -/

def scalarAdd (ty : ScalarTy) (x y : Int) : Result Int := mkScalar ty (x + y)

def scalarSub (ty : ScalarTy) (x y : Int) : Result Int := mkScalar ty (x - y)

def scalarMul (ty : ScalarTy) (x y : Int) : Result Int := mkScalar ty (x * y)

def scalarWrappingAdd (ty : ScalarTy) (x y : Int) : Int := scalarWrap ty (x + y)

def scalarWrappingSub (ty : ScalarTy) (x y : Int) : Int := scalarWrap ty (x - y)

def scalarWrappingMul (ty : ScalarTy) (x y : Int) : Int := scalarWrap ty (x * y)

-- Rust's `overflowing_*` operations
def scalarAddChecked (ty : ScalarTy) (x y : Int) : Int × Bool :=
  let z := x + y
  (scalarWrap ty z, !scalarInBounds ty z)

def scalarSubChecked (ty : ScalarTy) (x y : Int) : Int × Bool :=
  let z := x - y
  (scalarWrap ty z, !scalarInBounds ty z)

def scalarMulChecked (ty : ScalarTy) (x y : Int) : Int × Bool :=
  let z := x * y
  (scalarWrap ty z, !scalarInBounds ty z)

def scalarCheckedOp (_ty : ScalarTy) : Result Int → Option Int
  | .ok v => some v
  | _ => none

def add : ScalarTy → Int → Int → Result Int
  | .isize => scalarAdd .isize
  | .i8 => scalarAdd .i8
  | .i16 => scalarAdd .i16
  | .i32 => scalarAdd .i32
  | .i64 => scalarAdd .i64
  | .i128 => scalarAdd .i128
  | .usize => scalarAdd .usize
  | .u8 => scalarAdd .u8
  | .u16 => scalarAdd .u16
  | .u32 => scalarAdd .u32
  | .u64 => scalarAdd .u64
  | .u128 => scalarAdd .u128

def sub : ScalarTy → Int → Int → Result Int
  | .isize => scalarSub .isize
  | .i8 => scalarSub .i8
  | .i16 => scalarSub .i16
  | .i32 => scalarSub .i32
  | .i64 => scalarSub .i64
  | .i128 => scalarSub .i128
  | .usize => scalarSub .usize
  | .u8 => scalarSub .u8
  | .u16 => scalarSub .u16
  | .u32 => scalarSub .u32
  | .u64 => scalarSub .u64
  | .u128 => scalarSub .u128

def mul : ScalarTy → Int → Int → Result Int
  | .isize => scalarMul .isize
  | .i8 => scalarMul .i8
  | .i16 => scalarMul .i16
  | .i32 => scalarMul .i32
  | .i64 => scalarMul .i64
  | .i128 => scalarMul .i128
  | .usize => scalarMul .usize
  | .u8 => scalarMul .u8
  | .u16 => scalarMul .u16
  | .u32 => scalarMul .u32
  | .u64 => scalarMul .u64
  | .u128 => scalarMul .u128

def checkedAdd : ScalarTy → Int → Int → Option Int
  | .isize, x, y => scalarCheckedOp .isize (scalarAdd .isize x y)
  | .i8, x, y => scalarCheckedOp .i8 (scalarAdd .i8 x y)
  | .i16, x, y => scalarCheckedOp .i16 (scalarAdd .i16 x y)
  | .i32, x, y => scalarCheckedOp .i32 (scalarAdd .i32 x y)
  | .i64, x, y => scalarCheckedOp .i64 (scalarAdd .i64 x y)
  | .i128, x, y => scalarCheckedOp .i128 (scalarAdd .i128 x y)
  | .usize, x, y => scalarCheckedOp .usize (scalarAdd .usize x y)
  | .u8, x, y => scalarCheckedOp .u8 (scalarAdd .u8 x y)
  | .u16, x, y => scalarCheckedOp .u16 (scalarAdd .u16 x y)
  | .u32, x, y => scalarCheckedOp .u32 (scalarAdd .u32 x y)
  | .u64, x, y => scalarCheckedOp .u64 (scalarAdd .u64 x y)
  | .u128, x, y => scalarCheckedOp .u128 (scalarAdd .u128 x y)

def checkedSub : ScalarTy → Int → Int → Option Int
  | .isize, x, y => scalarCheckedOp .isize (scalarSub .isize x y)
  | .i8, x, y => scalarCheckedOp .i8 (scalarSub .i8 x y)
  | .i16, x, y => scalarCheckedOp .i16 (scalarSub .i16 x y)
  | .i32, x, y => scalarCheckedOp .i32 (scalarSub .i32 x y)
  | .i64, x, y => scalarCheckedOp .i64 (scalarSub .i64 x y)
  | .i128, x, y => scalarCheckedOp .i128 (scalarSub .i128 x y)
  | .usize, x, y => scalarCheckedOp .usize (scalarSub .usize x y)
  | .u8, x, y => scalarCheckedOp .u8 (scalarSub .u8 x y)
  | .u16, x, y => scalarCheckedOp .u16 (scalarSub .u16 x y)
  | .u32, x, y => scalarCheckedOp .u32 (scalarSub .u32 x y)
  | .u64, x, y => scalarCheckedOp .u64 (scalarSub .u64 x y)
  | .u128, x, y => scalarCheckedOp .u128 (scalarSub .u128 x y)

def checkedMul : ScalarTy → Int → Int → Option Int
  | .isize, x, y => scalarCheckedOp .isize (scalarMul .isize x y)
  | .i8, x, y => scalarCheckedOp .i8 (scalarMul .i8 x y)
  | .i16, x, y => scalarCheckedOp .i16 (scalarMul .i16 x y)
  | .i32, x, y => scalarCheckedOp .i32 (scalarMul .i32 x y)
  | .i64, x, y => scalarCheckedOp .i64 (scalarMul .i64 x y)
  | .i128, x, y => scalarCheckedOp .i128 (scalarMul .i128 x y)
  | .usize, x, y => scalarCheckedOp .usize (scalarMul .usize x y)
  | .u8, x, y => scalarCheckedOp .u8 (scalarMul .u8 x y)
  | .u16, x, y => scalarCheckedOp .u16 (scalarMul .u16 x y)
  | .u32, x, y => scalarCheckedOp .u32 (scalarMul .u32 x y)
  | .u64, x, y => scalarCheckedOp .u64 (scalarMul .u64 x y)
  | .u128, x, y => scalarCheckedOp .u128 (scalarMul .u128 x y)

def coreNumWrappingAdd : ScalarTy → Int → Int → Int
  | .isize, x, y => scalarWrappingAdd .isize x y
  | .i8, x, y => scalarWrappingAdd .i8 x y
  | .i16, x, y => scalarWrappingAdd .i16 x y
  | .i32, x, y => scalarWrappingAdd .i32 x y
  | .i64, x, y => scalarWrappingAdd .i64 x y
  | .i128, x, y => scalarWrappingAdd .i128 x y
  | .usize, x, y => scalarWrappingAdd .usize x y
  | .u8, x, y => scalarWrappingAdd .u8 x y
  | .u16, x, y => scalarWrappingAdd .u16 x y
  | .u32, x, y => scalarWrappingAdd .u32 x y
  | .u64, x, y => scalarWrappingAdd .u64 x y
  | .u128, x, y => scalarWrappingAdd .u128 x y

def coreNumWrappingSub : ScalarTy → Int → Int → Int
  | .isize, x, y => scalarWrappingSub .isize x y
  | .i8, x, y => scalarWrappingSub .i8 x y
  | .i16, x, y => scalarWrappingSub .i16 x y
  | .i32, x, y => scalarWrappingSub .i32 x y
  | .i64, x, y => scalarWrappingSub .i64 x y
  | .i128, x, y => scalarWrappingSub .i128 x y
  | .usize, x, y => scalarWrappingSub .usize x y
  | .u8, x, y => scalarWrappingSub .u8 x y
  | .u16, x, y => scalarWrappingSub .u16 x y
  | .u32, x, y => scalarWrappingSub .u32 x y
  | .u64, x, y => scalarWrappingSub .u64 x y
  | .u128, x, y => scalarWrappingSub .u128 x y

def coreNumWrappingMul : ScalarTy → Int → Int → Int
  | .isize, x, y => scalarWrappingMul .isize x y
  | .i8, x, y => scalarWrappingMul .i8 x y
  | .i16, x, y => scalarWrappingMul .i16 x y
  | .i32, x, y => scalarWrappingMul .i32 x y
  | .i64, x, y => scalarWrappingMul .i64 x y
  | .i128, x, y => scalarWrappingMul .i128 x y
  | .usize, x, y => scalarWrappingMul .usize x y
  | .u8, x, y => scalarWrappingMul .u8 x y
  | .u16, x, y => scalarWrappingMul .u16 x y
  | .u32, x, y => scalarWrappingMul .u32 x y
  | .u64, x, y => scalarWrappingMul .u64 x y
  | .u128, x, y => scalarWrappingMul .u128 x y

def coreNumMin : ScalarTy → Int
  | .isize => isizeMin
  | .i8 => i8Min
  | .i16 => i16Min
  | .i32 => i32Min
  | .i64 => i64Min
  | .i128 => i64Min
  | .usize => usizeMin
  | .u8 => u8Min
  | .u16 => u16Min
  | .u32 => u32Min
  | .u64 => u64Min
  | .u128 => u64Min

def coreNumMax : ScalarTy → Int
  | .isize => isizeMax
  | .i8 => i8Max
  | .i16 => i16Max
  | .i32 => i32Max
  | .i64 => i64Max
  | .i128 => i64Max
  | .usize => usizeMax
  | .u8 => u8Max
  | .u16 => u16Max
  | .u32 => u32Max
  | .u64 => u64Max
  | .u128 => u64Max

/-! ## The variants of an operation -/

inductive ArithOp where
  | add | sub | mul

namespace ArithOp

def exact : ArithOp → Int → Int → Int
  | .add, x, y => x + y
  | .sub, x, y => x - y
  | .mul, x, y => x * y

def plain : ArithOp → ScalarTy → Int → Int → Result Int
  | .add => Isabelle.add
  | .sub => Isabelle.sub
  | .mul => Isabelle.mul

def checked : ArithOp → ScalarTy → Int → Int → Option Int
  | .add => checkedAdd
  | .sub => checkedSub
  | .mul => checkedMul

def wrapping : ArithOp → ScalarTy → Int → Int → Int
  | .add => coreNumWrappingAdd
  | .sub => coreNumWrappingSub
  | .mul => coreNumWrappingMul

def overflowing : ArithOp → ScalarTy → Int → Int → Int × Bool
  | .add => scalarAddChecked
  | .sub => scalarSubChecked
  | .mul => scalarMulChecked

variable (op : ArithOp) (ty : ScalarTy) (x y : Int)

theorem plain_eq : op.plain ty x y = mkScalar ty (op.exact x y) := by
  cases op <;> cases ty <;> rfl

theorem checked_eq : op.checked ty x y = scalarCheckedOp ty (mkScalar ty (op.exact x y)) := by
  cases op <;> cases ty <;> rfl

theorem wrapping_eq : op.wrapping ty x y = scalarWrap ty (op.exact x y) := by
  cases op <;> cases ty <;> rfl

theorem overflowing_eq :
    op.overflowing ty x y = (scalarWrap ty (op.exact x y), !scalarInBounds ty (op.exact x y)) := by
  cases op <;> rfl

/-- The plain and the checked operation return the exact result if it is between the exported
constants, and nothing otherwise; the other variants then return it too. -/
def VariantsAgree : Prop := ∀ v,
  (op.plain ty x y = .ok v ↔ op.checked ty x y = some v) ∧
  (op.checked ty x y = some v ↔ v = op.exact x y ∧ coreNumMin ty ≤ op.exact x y ∧ op.exact x y ≤ coreNumMax ty) ∧
  (op.plain ty x y = .ok v → op.wrapping ty x y = v ∧ op.overflowing ty x y = (v, false))

end ArithOp

theorem mkScalar_eq_ok {z v : Int} : mkScalar ty z = .ok v ↔ v = z ∧ scalarInBounds ty z = true := by
  unfold mkScalar
  split
  · rename_i h
    simp [h, eq_comm]
  · rename_i h
    simp [h]

theorem scalarCheckedOp_eq_some {r : Result Int} {v : Int} :
    scalarCheckedOp ty r = some v ↔ r = .ok v := by
  cases r <;> simp [scalarCheckedOp]

theorem between_coreNum_iff (ty : ScalarTy) (z : Int) :
    (scalarInBounds ty z = true ↔ coreNumMin ty ≤ z ∧ z ≤ coreNumMax ty) ↔
      (ty = .i128 → scalarInBounds .i64 z = true ∨ scalarInBounds .i128 z = false) ∧
      (ty = .u128 → scalarInBounds .u64 z = true ∨ scalarInBounds .u128 z = false) := by
  cases ty with
  | i128 =>
    simp only [scalarInBounds_iff, ← Bool.not_eq_true, scalarMin, scalarMax, coreNumMin, coreNumMax, i64Min, i64Max,
      i128Min, i128Max]
    simp
    omega
  | u128 =>
    simp only [scalarInBounds_iff, ← Bool.not_eq_true, scalarMin, scalarMax, coreNumMin, coreNumMax, u64Min, u64Max,
      u128Min, u128Max]
    simp
    omega
  | _ => simp [scalarInBounds_iff, scalarMin, scalarMax, coreNumMin, coreNumMax]

theorem arith_variantsAgree_iff (op : ArithOp) (ty : ScalarTy) (x y : Int) :
    op.VariantsAgree ty x y ↔
      (ty = .i128 → scalarInBounds .i64 (op.exact x y) = true ∨ scalarInBounds .i128 (op.exact x y) = false) ∧
      (ty = .u128 → scalarInBounds .u64 (op.exact x y) = true ∨ scalarInBounds .u128 (op.exact x y) = false) := by
  rw [← between_coreNum_iff, ArithOp.VariantsAgree]
  simp only [op.plain_eq, op.checked_eq, op.wrapping_eq, op.overflowing_eq, scalarCheckedOp_eq_some, mkScalar_eq_ok,
    true_and, and_congr_right_iff]
  constructor
  · intro h
    exact (h (op.exact x y)).1 rfl
  · intro h v
    refine ⟨fun _ => h, ?_⟩
    rintro ⟨rfl, hin⟩
    simp [scalarWrap_eq_self_iff.mpr hin, hin]

theorem arith_variantsAgree_iff_i32 :
    ArithOp.add.VariantsAgree .i32 2147483647 1 ∧ ArithOp.mul.VariantsAgree .i128 7 (-3) :=
  ⟨(arith_variantsAgree_iff .add .i32 2147483647 1).mpr (by decide),
    (arith_variantsAgree_iff .mul .i128 7 (-3)).mpr (by decide)⟩

/-- `i64::MAX + 1` fits in an `i128` but is above its exported maximum. -/
theorem i128_add_above_coreNumMax :
    scalarInBounds .i128 9223372036854775807 = true ∧ scalarInBounds .i128 1 = true ∧
    ArithOp.add.plain .i128 9223372036854775807 1 = .ok 9223372036854775808 ∧
    ArithOp.add.checked .i128 9223372036854775807 1 = some 9223372036854775808 ∧
    coreNumMax .i128 < 9223372036854775808 := by
  decide

/-! ## Casts of the results -/

theorem scalarWrap_exact (op : ArithOp) (ty : ScalarTy) (x y : Int) :
    scalarWrap ty (op.exact (scalarWrap ty x) (scalarWrap ty y)) = scalarWrap ty (op.exact x y) := by
  refine scalarWrap_eq_iff.mpr ⟨scalarWrap_inBounds ty _, (scalarWrap_emod ty _).trans ?_⟩
  cases op with
  | add => rw [ArithOp.exact, ArithOp.exact, Int.add_emod, ← scalarWrap_emod ty x, ← scalarWrap_emod ty y,
      ← Int.add_emod]
  | sub => rw [ArithOp.exact, ArithOp.exact, Int.sub_emod, ← scalarWrap_emod ty x, ← scalarWrap_emod ty y,
      ← Int.sub_emod]
  | mul => rw [ArithOp.exact, ArithOp.exact, Int.mul_emod, ← scalarWrap_emod ty x, ← scalarWrap_emod ty y,
      ← Int.mul_emod]

/-- Casting to a type which is not wider goes before or after a wrapping operation. -/
theorem scalarCast_wrapping (op : ArithOp) {src tgt : ScalarTy} (h : scalarBits tgt ≤ scalarBits src) (x y : Int) :
    scalarCast src tgt (op.wrapping src x y) = (do
      let x' ← scalarCast src tgt x
      let y' ← scalarCast src tgt y
      pure (op.wrapping tgt x' y')) := by
  simp only [scalarCast, ArithOp.wrapping_eq, scalarWrap_scalarWrap h, Result.bind_ok, Result.pure_eq, scalarWrap_exact]

theorem scalarCast_wrapping_u8 : scalarCast .i64 .u8 (ArithOp.mul.wrapping .i64 (2 ^ 40 + 3) (-5)) = .ok 241 :=
  scalarCast_wrapping .mul (by decide) _ _

end Aeneas.Isabelle
