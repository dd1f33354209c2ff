import Aeneas.X86Machine

/-!
# Reasoning about the x86-64 machine

What each instruction does to registers and flags, the meaning of the condition codes
after a compare or a test, and a composition rule for straight-line code (`Runs`).
-/

namespace Aeneas.X86

open List

/-! ## Memory -/

theorem leBytes_eq_map (n x : Nat) :
    leBytes n x = (List.range n).map fun i => BitVec.ofNat 8 (x / 256 ^ i) := by
  induction n generalizing x with
  | zero => rfl
  | succ n ih =>
    rw [List.range_succ_eq_map, map_cons, map_map, leBytes, ih, Nat.pow_zero, Nat.div_one]
    refine congrArg _ (map_congr_left fun i _ => ?_)
    rw [Function.comp_apply, Nat.pow_succ, Nat.mul_comm, Nat.div_div_eq_div_mul]

theorem store64_byte (mem : BitVec 64 → Byte) (a v : BitVec 64) {i : Nat} (hi : i < 8) :
    store64 mem a v (a + BitVec.ofNat 64 i) = BitVec.ofNat 8 (v.toNat / 256 ^ i) := by
  have hoff : (a + BitVec.ofNat 64 i - a).toNat = i := by
    rw [BitVec.add_comm, BitVec.add_sub_cancel, BitVec.toNat_ofNat]
    omega
  rw [store64, hoff, if_pos hi, BitVec.extractLsb', Nat.shiftRight_eq_div_pow, Nat.pow_mul]

theorem load64_store64 (mem : BitVec 64 → Byte) (a v : BitVec 64) : load64 (store64 mem a v) a = v := by
  have hbytes : ((List.range 8).map fun i => store64 mem a v (a + BitVec.ofNat 64 i)) = leBytes 8 v.toNat := by
    rw [leBytes_eq_map]
    exact map_congr_left fun i hi => store64_byte mem a v (mem_range.mp hi)
  rw [load64, hbytes, leValue_leBytes]
  apply BitVec.eq_of_toNat_eq
  have := v.isLt
  simp only [BitVec.toNat_ofNat]
  omega

/-! ## Registers and flags -/

section
variable (s : State) (w64 : Bool) (r r' : Reg) (v : BitVec 64)

def truncate (w64 : Bool) (v : BitVec 64) : BitVec 64 := if w64 then v else (v.setWidth 32).setWidth 64

@[simp] theorem setReg_regs : (s.setReg r v).regs r' = if r' = r then v else s.regs r' := rfl
@[simp] theorem setReg_flags : (s.setReg r v).flags = s.flags := rfl
@[simp] theorem setReg_mem : (s.setReg r v).mem = s.mem := rfl
@[simp] theorem setReg_rip : (s.setReg r v).rip = s.rip := rfl
@[simp] theorem write_regs : (s.write w64 r v).regs r' = if r' = r then truncate w64 v else s.regs r' := rfl
@[simp] theorem write_flags : (s.write w64 r v).flags = s.flags := rfl
@[simp] theorem write_mem : (s.write w64 r v).mem = s.mem := rfl
@[simp] theorem write_rip : (s.write w64 r v).rip = s.rip := rfl
@[simp] theorem push_regs : (s.push v).regs r' = if r' = rsp then s.regs rsp - 8 else s.regs r' := rfl
@[simp] theorem push_mem : (s.push v).mem = store64 s.mem (s.regs rsp - 8) v := rfl
@[simp] theorem push_rip : (s.push v).rip = s.rip := rfl
@[simp] theorem pop_mem : (s.pop r).mem = s.mem := rfl
@[simp] theorem pop_rip : (s.pop r).rip = s.rip := rfl

@[simp] theorem pop_regs : (s.pop r).regs r' =
    if r' = r then load64 s.mem (s.regs rsp) else if r' = rsp then s.regs rsp + 8 else s.regs r' := rfl

@[simp] theorem truncate_true : truncate true v = v := rfl

def Alu.value (op : Alu) (w64 : Bool) (x y : BitVec 64) : BitVec 64 :=
  if w64 then op.result x y else (op.result (x.setWidth 32) (y.setWidth 32)).setWidth 64

def Alu.flagsOf (op : Alu) (w64 : Bool) (x y : BitVec 64) : Flags :=
  if w64 then op.flags x y else op.flags (x.setWidth 32) (y.setWidth 32)

def Shift.value (op : Shift) (w64 : Bool) (x : BitVec 64) (count : Byte) : BitVec 64 :=
  if w64 then op.result x (count.toNat % 64) else (op.result (x.setWidth 32) (count.toNat % 32)).setWidth 64

theorem alu_regs (op : Alu) (hop : op.writes = true) :
    (s.alu op w64 r v).regs r' = if r' = r then op.value w64 (s.regs r) v else s.regs r' := by
  unfold State.alu
  rw [if_pos hop]
  cases w64 with
  | true => rfl
  | false => simp [State.write, State.setReg, Alu.value]

theorem alu_compare (op : Alu) (hop : op.writes = false) :
    s.alu op w64 r v = { s with flags := op.flagsOf w64 (s.regs r) v } := by
  unfold State.alu
  rw [if_neg (by simp [hop])]
  rfl

@[simp] theorem alu_rip (op : Alu) : (s.alu op w64 r v).rip = s.rip := by
  unfold State.alu
  cases op.writes <;> rfl

@[simp] theorem alu_mem (op : Alu) : (s.alu op w64 r v).mem = s.mem := by
  unfold State.alu
  cases op.writes <;> rfl

@[simp] theorem shift_regs (undef : Bool) (op : Shift) (count : Byte) :
    (s.shift undef op w64 r count).regs r' = if r' = r then op.value w64 (s.regs r) count else s.regs r' := by
  cases w64 with
  | true => rfl
  | false => simp [State.shift, State.write, State.setReg, Shift.value]

@[simp] theorem shift_rip (undef : Bool) (op : Shift) (count : Byte) :
    (s.shift undef op w64 r count).rip = s.rip := rfl

@[simp] theorem shift_mem (undef : Bool) (op : Shift) (count : Byte) :
    (s.shift undef op w64 r count).mem = s.mem := rfl

end

/-! ## Condition codes -/

section
variable {w : Nat} (x y : BitVec w)

theorem subFlags_zf : (subFlags x y).zf = (x == y) := by
  simp only [subFlags]
  by_cases h : x = y
  · subst h; simp
  · have : x - y ≠ 0 := fun h' => h (by simpa [BitVec.sub_eq_iff_eq_add] using h')
    rw [beq_eq_false_iff_ne.mpr h, beq_eq_false_iff_ne.mpr this]

theorem subFlags_sf_of : ((subFlags x y).sf != (subFlags x y).of) = x.slt y := by
  cases w with
  | zero => simp [subFlags, BitVec.eq_nil x, BitVec.eq_nil y]
  | succ w =>
    rw [BitVec.slt_eq_ult]
    simp only [subFlags, BitVec.msb_eq_decide, BitVec.ult, BitVec.toNat_sub, Nat.add_sub_cancel, Nat.pow_succ]
    have hx := x.isLt
    have hy := y.isLt
    rw [Nat.pow_succ] at hx hy
    generalize x.toNat = a at *
    generalize y.toNat = b at *
    generalize 2 ^ w = p at *
    have hz : (p * 2 - b + a) % (p * 2) = if b ≤ a then a - b else p * 2 - b + a := by
      split
      · rw [show p * 2 - b + a = (a - b) + p * 2 by omega, Nat.add_mod_right, Nat.mod_eq_of_lt (by omega)]
      · rw [Nat.mod_eq_of_lt (by omega)]
    rw [hz]
    split <;> by_cases h₁ : p ≤ a <;> by_cases h₂ : p ≤ b <;> simp [h₁, h₂] <;> omega

end

/-! ## Straight-line code -/

/-- Wherever `bytes` stand at `rip`, executing them leads from `s` to `s'`, just past them. -/
structure Runs (undef : State → Bool) (bytes : List Byte) (s s' : State) : Prop where
  rip : s'.rip = s.rip + bytes.length
  steps : ∀ code rest, code.drop s.rip = bytes ++ rest → Steps undef code s s'

section
variable {undef : State → Bool} {s s₁ s' : State}

theorem Runs.nil : Runs undef [] s s := ⟨rfl, fun _ _ _ => .refl s⟩

theorem drop_append_left {code b rest : List Byte} {n : Nat} (h : code.drop n = b ++ rest) :
    code.drop (n + b.length) = rest := by
  rw [← drop_drop, h, drop_left]

theorem Runs.append {b₁ b₂ : List Byte} (h₁ : Runs undef b₁ s s₁) (h₂ : Runs undef b₂ s₁ s') :
    Runs undef (b₁ ++ b₂) s s' where
  rip := by rw [h₂.rip, h₁.rip, length_append, Nat.add_assoc]
  steps code rest h := by
    rw [append_assoc] at h
    refine (h₁.steps code _ h).trans (h₂.steps code rest ?_)
    rw [h₁.rip]
    exact drop_append_left h

theorem step_of_decode {code bytes rest : List Byte} {d : Decoded} (hcode : code.drop s.rip = bytes ++ rest)
    (hne : bytes ≠ []) (hdecode : decode (bytes ++ rest) = some (d, rest)) :
    step undef code s = exec (undef s) d { s with rip := s.rip + bytes.length } := by
  have hlen : code.length - rest.length = s.rip + bytes.length := by
    have h := congrArg List.length hcode
    have hpos := length_pos_iff.mpr hne
    simp only [length_drop, length_append] at h
    omega
  simp [step, hcode, hdecode, hlen]

end

end Aeneas.X86
