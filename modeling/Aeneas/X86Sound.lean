import Aeneas.X86
import Aeneas.X86Exec

/-!
# The encoder and the machine

The machine decodes what `encode` writes for instructions on registers, so
executing the bytes of an emitted instruction has the effect its constructor is named for.
-/

namespace Aeneas.Sbpf

open X86 X86Instruction OperandSize

def sizeOf64 (w64 : Bool) : OperandSize := if w64 then .s64 else .s32

def OperandSize.byteCount : OperandSize → Nat
  | .s0 => 0
  | .s8 => 1
  | .s16 => 2
  | .s32 => 4
  | .s64 => 8

def OperandSize.readBack (size : OperandSize) (imm : BitVec 64) : BitVec 64 :=
  (imm.setWidth (8 * size.byteCount)).signExtend 64

theorem takeSigned_emitted (size : OperandSize) (imm : BitVec 64) (rest : List Byte) :
    takeSigned size.byteCount (emitVariableLength size imm ++ rest) = some (size.readBack imm, rest) := by
  have hbytes : emitVariableLength size imm = leBytes size.byteCount imm.toNat := by
    cases size with
    | s0 | s64 => rfl
    | s8 | s16 | s32 => exact leBytes_take _ 8 _ (by decide)
  have hpow : (256 : Nat) ^ size.byteCount = 2 ^ (8 * size.byteCount) := (Nat.pow_mul 2 8 _).symm
  simp only [takeSigned, hbytes, takeLe_append, hpow, Option.bind_eq_bind, Option.bind_some, ofNat_mod_toNat]
  rfl

/-! ## Prefixes, opcode and ModRM -/

def rexBits (w r b : Bool) : Byte :=
  (boolToU8 w <<< 3) ||| (boolToU8 r <<< 2) ||| boolToU8 b

def rexPrefix (w r b : Bool) : List Byte :=
  if rexBits w r b != 0 then [0x40 ||| rexBits w r b] else []

def modrmByte (reg rm : Reg) : Byte :=
  (3 <<< 6) ||| ((reg.setWidth 8 &&& 0b111) <<< 3) ||| (rm.setWidth 8 &&& 0b111)

variable {o : Byte}

theorem decode_rexPrefix (w r b : Bool) (bs : List Byte) (h66 : o ≠ 0x66)
    (hrex : o.extractLsb' 4 4 ≠ 4#4) :
    decode (rexPrefix w r b ++ o :: bs) = decodeOpcode false { w, r, x := false, b } (o :: bs) := by
  have hplain : decode (o :: bs) = decodeOpcode false {} (o :: bs) := by
    simp only [decode, decodeRex, if_neg h66, if_neg hrex]
  cases w <;> cases r <;> cases b
  · exact hplain
  all_goals rfl

theorem decodeModRm_reg {rex : Rex} {reg rm : Reg} (hr : rex.r = reg.msb) (hb : rex.b = rm.msb) (bs : List Byte) :
    decodeModRm rex (modrmByte reg rm :: bs) = some ((reg, .reg rm), bs) := by
  have hfields : ∀ reg rm : Reg, modField (modrmByte reg rm) = 3 ∧
      Reg.of reg.msb (regField (modrmByte reg rm)) = reg ∧ Reg.of rm.msb (rmField (modrmByte reg rm)) = rm := by
    decide
  obtain ⟨hmod, hreg, hrm⟩ := hfields reg rm
  simp [decodeModRm, decodeRm, hmod, hr, hb, hreg, hrm]

theorem not_prefix_of_form {form : Form} (h : oneByteForm o.toNat = some form) :
    o ≠ 0x66 ∧ o.extractLsb' 4 4 ≠ 4#4 ∧ o ≠ 0x0f := by
  have hall : ∀ o : Byte, (oneByteForm o.toNat).isSome → o ≠ 0x66 ∧ o.extractLsb' 4 4 ≠ 4#4 ∧ o ≠ 0x0f := by
    decide
  exact hall o (by simp [h])

theorem decodeOpcode_oneByte {form : Form} (h0f : o ≠ 0x0f) (hform : oneByteForm o.toNat = some form)
    (operandSize16 : Bool) (rex : Rex) (bs : List Byte) :
    decodeOpcode operandSize16 rex (o :: bs) = decodeOperands operandSize16 rex false o form bs := by
  cases bs <;> rw [decodeOpcode, if_neg h0f, hform] <;> rfl

/-! ## Register instructions -/

def direct (w64 : Bool) (opcode : Byte) (reg rm : Reg) (immediateSize : OperandSize) (immediate : BitVec 64) :
    X86Instruction :=
  { size := sizeOf64 w64, opcode, firstOperand := reg.setWidth 8, secondOperand := rm.setWidth 8,
    immediateSize, immediate }

def plain (w64 : Bool) (opcode : Byte) (rm : Reg) (immediateSize : OperandSize) (immediate : BitVec 64) :
    X86Instruction :=
  { size := sizeOf64 w64, opcode, modrm := false, secondOperand := rm.setWidth 8, immediateSize, immediate }

theorem msb_eq_bit3 (r : Reg) : (r.setWidth 8 &&& (0b1000 : Byte) != 0) = r.msb := by
  revert r
  decide

theorem rexByte_of_none {i : X86Instruction} {w64 : Bool} {rm : Reg} (hsize : i.size = sizeOf64 w64)
    (hsecond : i.secondOperand = rm.setWidth 8) (hind : i.indirect = none) :
    i.rexByte = rexBits w64 (i.firstOperand &&& 0b1000 != 0) rm.msb := by
  have hx : i.addressing.x = false := by
    unfold addressing
    rw [hind]
    split <;> rfl
  rw [rexByte, hx, hsize, hsecond, msb_eq_bit3]
  cases w64 <;> cases (i.firstOperand &&& 0b1000 != 0) <;> cases rm.msb <;> rfl

theorem direct_bytes (w64 : Bool) (opcode : Byte) (reg rm : Reg) (size : OperandSize) (imm : BitVec 64) :
    (direct w64 opcode reg rm size imm).bytes =
      rexPrefix w64 reg.msb rm.msb ++ opcode :: modrmByte reg rm :: emitVariableLength size imm := by
  have hrex : (direct w64 opcode reg rm size imm).rexByte = rexBits w64 reg.msb rm.msb := by
    rw [rexByte_of_none rfl rfl rfl, ← msb_eq_bit3 reg]
    rfl
  rw [bytes, hrex]
  cases w64 <;> simp [direct, sizeOf64, addressing, escapeBytes,
    modrmBytes, rexPrefix, modrmByte, emitVariableLength]

theorem plain_bytes (w64 : Bool) (opcode : Byte) (rm : Reg) (size : OperandSize) (imm : BitVec 64) :
    (plain w64 opcode rm size imm).bytes =
      rexPrefix w64 false rm.msb ++ opcode :: emitVariableLength size imm := by
  have hzero : ((0 : Byte) &&& 0b1000 != 0) = false := by decide
  have hrex : (plain w64 opcode rm size imm).rexByte = rexBits w64 false rm.msb := by
    rw [← hzero]
    exact rexByte_of_none rfl rfl rfl
  rw [bytes, hrex]
  cases w64 <;> simp [plain, sizeOf64, escapeBytes, modrmBytes, rexPrefix]

section
variable {undef : State → Bool} {s s' : State} {w64 : Bool} {opcode : Byte} {reg rm : Reg} {size : OperandSize}
  {imm : BitVec 64} {form : Form}

theorem decode_direct (hform : oneByteForm opcode.toNat = some form) (hmodrm : form.modrm = true)
    (himm : ∀ rex, rex.w = w64 → immLength false rex reg form.imm = size.byteCount) (rest : List Byte) :
    decode ((direct w64 opcode reg rm size imm).bytes ++ rest) =
      some ({ operandSize16 := false, rex := { w := w64, r := reg.msb, x := false, b := rm.msb },
              escaped := false, opcode, modrm := some (reg, .reg rm), imm := size.readBack imm }, rest) := by
  obtain ⟨h66, hrex, h0f⟩ := not_prefix_of_form hform
  rw [direct_bytes, List.append_assoc, List.cons_append, List.cons_append, decode_rexPrefix _ _ _ _ h66 hrex,
    decodeOpcode_oneByte h0f hform]
  simp [decodeOperands, hmodrm, decodeModRm_reg, himm, takeSigned_emitted]

theorem decode_plain (hform : oneByteForm opcode.toNat = some form) (hmodrm : form.modrm = false)
    (himm : ∀ rex, rex.w = w64 → immLength false rex 0#4 form.imm = size.byteCount) (rest : List Byte) :
    decode ((plain w64 opcode rm size imm).bytes ++ rest) =
      some ({ operandSize16 := false, rex := { w := w64, r := false, x := false, b := rm.msb },
              escaped := false, opcode, modrm := none, imm := size.readBack imm }, rest) := by
  obtain ⟨h66, hrex, h0f⟩ := not_prefix_of_form hform
  rw [plain_bytes, List.append_assoc, List.cons_append, decode_rexPrefix _ _ _ _ h66 hrex,
    decodeOpcode_oneByte h0f hform]
  simp [decodeOperands, hmodrm, himm, takeSigned_emitted]

def past (s : State) (i : X86Instruction) : State := { s with rip := s.rip + i.bytes.length }

@[simp] theorem past_regs (i : X86Instruction) : (past s i).regs = s.regs := rfl
@[simp] theorem past_mem (i : X86Instruction) : (past s i).mem = s.mem := rfl
@[simp] theorem past_rip (i : X86Instruction) : (past s i).rip = s.rip + i.bytes.length := rfl

variable {code rest : List Byte}

theorem step_direct (hform : oneByteForm opcode.toNat = some form)
    (hmodrm : form.modrm = true)
    (himm : ∀ rex, rex.w = w64 → immLength false rex reg form.imm = size.byteCount)
    (hcode : code.drop s.rip = (direct w64 opcode reg rm size imm).bytes ++ rest) :
    step undef code s = execReg (undef s) (past s (direct w64 opcode reg rm size imm)) w64 opcode reg rm
      (size.readBack imm) := by
  rw [step_of_decode hcode (by rw [direct_bytes]; simp) (decode_direct hform hmodrm himm rest)]
  rfl

theorem runs_direct (hform : oneByteForm opcode.toNat = some form) (hmodrm : form.modrm = true)
    (himm : ∀ rex, rex.w = w64 → immLength false rex reg form.imm = size.byteCount)
    (hexec : execReg (undef s) (past s (direct w64 opcode reg rm size imm)) w64 opcode reg rm (size.readBack imm) =
      some s') (hrip : s'.rip = s.rip + (direct w64 opcode reg rm size imm).bytes.length) :
    Runs undef (direct w64 opcode reg rm size imm).bytes s s' where
  rip := hrip
  steps code rest hcode := .single (by rw [step_direct hform hmodrm himm hcode, hexec])

theorem runs_plain (hform : oneByteForm opcode.toNat = some form) (hmodrm : form.modrm = false)
    (himm : ∀ rex, rex.w = w64 → immLength false rex 0#4 form.imm = size.byteCount)
    (hexec : execPlain (past s (plain w64 opcode rm size imm)) { w := w64, r := false, x := false, b := rm.msb }
      opcode (size.readBack imm) = some s') (hrip : s'.rip = s.rip + (plain w64 opcode rm size imm).bytes.length) :
    Runs undef (plain w64 opcode rm size imm).bytes s s' where
  rip := hrip
  steps code rest hcode := by
    refine .single ?_
    rw [step_of_decode hcode (by rw [plain_bytes]; simp) (decode_plain hform hmodrm himm rest)]
    exact hexec

/-! ## Effects -/

theorem runs_mov (src dst : Reg) :
    Runs undef (direct w64 0x89 src dst .s0 0).bytes s
      ((past s (direct w64 0x89 src dst .s0 0)).write w64 dst (s.regs src)) :=
  runs_direct rfl rfl (fun _ _ => rfl) rfl rfl

theorem runs_xchg (src dst : Reg) :
    Runs undef (direct true 0x87 src dst .s0 0).bytes s
      (((past s (direct true 0x87 src dst .s0 0)).setReg dst (s.regs src)).setReg src (s.regs dst)) :=
  runs_direct rfl rfl (fun _ _ => rfl) rfl rfl

theorem runs_alu {op : Alu} (src dst : Reg) (hop : aluOfOpcode opcode = some op) :
    Runs undef (direct w64 opcode src dst .s0 0).bytes s
      ((past s (direct w64 opcode src dst .s0 0)).alu op w64 dst (s.regs src)) := by
  unfold aluOfOpcode at hop
  split at hop <;> cases hop <;>
    exact runs_direct rfl rfl (fun _ _ => rfl) rfl (alu_rip _ _ _ _ _)

theorem runs_aluImmediate {op : Alu} (ext dst : Reg) (hop : aluOfGroup1 (ext.extractLsb' 0 3) = some op) :
    Runs undef (direct w64 0x81 ext dst .s32 imm).bytes s
      ((past s (direct w64 0x81 ext dst .s32 imm)).alu op w64 dst (s32.readBack imm)) :=
  runs_direct rfl rfl (fun _ _ => rfl) (by simp only [execReg, hop]; rfl) (alu_rip _ _ _ _ _)

theorem runs_testImmediate (dst : Reg) :
    Runs undef (direct w64 0xf7 0 dst .s32 imm).bytes s
      ((past s (direct w64 0xf7 0 dst .s32 imm)).alu .test w64 dst (s32.readBack imm)) :=
  runs_direct rfl rfl (fun _ _ => rfl) rfl (alu_rip _ _ _ _ _)

theorem runs_shiftImmediate {op : Shift} (ext dst : Reg) (hop : shiftOfGroup2 (ext.extractLsb' 0 3) = some op) :
    Runs undef (direct w64 0xc1 ext dst .s8 imm).bytes s
      ((past s (direct w64 0xc1 ext dst .s8 imm)).shift (undef s) op w64 dst (imm.setWidth 8)) := by
  have himm : (s8.readBack imm).setWidth 8 = imm.setWidth 8 :=
    setWidth_signExtend (by decide) (imm.setWidth 8)
  rw [← himm]
  exact runs_direct rfl rfl (fun _ _ => rfl) (by simp only [execReg, hop]; rfl) rfl

theorem runs_shiftRcx {op : Shift} (ext dst : Reg) (hop : shiftOfGroup2 (ext.extractLsb' 0 3) = some op) :
    Runs undef (direct w64 0xd3 ext dst .s0 0).bytes s
      ((past s (direct w64 0xd3 ext dst .s0 0)).shift (undef s) op w64 dst ((s.regs rcx).setWidth 8)) :=
  runs_direct rfl rfl (fun _ _ => rfl) (by simp only [execReg, hop]; rfl) rfl

def opcodeWith (base : Byte) (r : Reg) : Byte := base ||| (r.setWidth 8 &&& 0b111)

theorem opcodeWith_push (r : Reg) : oneByteForm (opcodeWith 0x50 r).toNat = some { modrm := false } ∧
    Reg.of r.msb ((opcodeWith 0x50 r).extractLsb' 0 3) = r ∧ (opcodeWith 0x50 r).extractLsb' 3 5 = 0b01010#5 := by
  revert r
  decide

theorem opcodeWith_pop (r : Reg) : oneByteForm (opcodeWith 0x58 r).toNat = some { modrm := false } ∧
    Reg.of r.msb ((opcodeWith 0x58 r).extractLsb' 0 3) = r ∧ (opcodeWith 0x58 r).extractLsb' 3 5 = 0b01011#5 := by
  revert r
  decide

theorem opcodeWith_mov (r : Reg) : oneByteForm (opcodeWith 0xb8 r).toNat = some { modrm := false, imm := .immV } ∧
    Reg.of r.msb ((opcodeWith 0xb8 r).extractLsb' 0 3) = r ∧ (opcodeWith 0xb8 r).extractLsb' 3 5 = 0b10111#5 := by
  revert r
  decide

theorem runs_push (r : Reg) :
    Runs undef (plain false (opcodeWith 0x50 r) r .s0 0).bytes s
      ((past s (plain false (opcodeWith 0x50 r) r .s0 0)).push (s.regs r)) := by
  obtain ⟨hform, hr, hop⟩ := opcodeWith_push r
  exact runs_plain hform rfl (fun _ _ => rfl) (by simp only [execPlain, hr, hop]; rfl) rfl

theorem runs_pop (r : Reg) :
    Runs undef (plain false (opcodeWith 0x58 r) r .s0 0).bytes s
      ((past s (plain false (opcodeWith 0x58 r) r .s0 0)).pop r) := by
  obtain ⟨hform, hr, hop⟩ := opcodeWith_pop r
  exact runs_plain hform rfl (fun _ _ => rfl) (by simp only [execPlain, hr, hop]) rfl

theorem runs_movSigned (dst : Reg) :
    Runs undef (direct true 0xc7 0 dst .s32 imm).bytes s
      ((past s (direct true 0xc7 0 dst .s32 imm)).setReg dst (s32.readBack imm)) :=
  runs_direct rfl rfl (fun _ _ => rfl) rfl rfl

theorem runs_movImmediate (r : Reg) (hsize : size = sizeOf64 w64) :
    Runs undef (plain w64 (opcodeWith 0xb8 r) r size imm).bytes s
      ((past s (plain w64 (opcodeWith 0xb8 r) r size imm)).write w64 r (size.readBack imm)) := by
  obtain ⟨hform, hr, hop⟩ := opcodeWith_mov r
  refine runs_plain hform rfl ?_ (by simp only [execPlain, hr, hop]) rfl
  rintro rex rfl
  subst hsize
  cases h : rex.w <;> simp [immLength, h, sizeOf64, byteCount]

/-! ## Relative jumps -/

theorem takeSigned_displacement (d : BitVec 32) (rest : List Byte) :
    takeSigned 4 (leBytes 4 d.toNat ++ rest) = some (d.signExtend 64, rest) := by
  have hmod : d.toNat % 4294967296 = d.toNat := Nat.mod_eq_of_lt d.isLt
  simp [takeSigned, takeLe_append, hmod]

theorem decode_conditional {cc : Byte} (d : BitVec 32) (rest : List Byte) (hcc : cc.extractLsb' 4 4 = 8#4) :
    decode ([0x0f, cc] ++ leBytes 4 d.toNat ++ rest) =
      some ({ operandSize16 := false, rex := {}, escaped := true, opcode := cc, modrm := none,
              imm := d.signExtend 64 }, rest) := by
  have hform : ∀ cc : Byte, cc.extractLsb' 4 4 = 8#4 →
      twoByteForm cc.toNat = some { modrm := false, imm := .immZ } := by decide
  change decodeOpcode false {} (0x0f :: cc :: (leBytes 4 d.toNat ++ rest)) = _
  simp [decodeOpcode, hform cc hcc, decodeOperands, immLength, takeSigned_displacement]

variable {d : BitVec 32}

theorem step_conditional {cc : Byte} {b : Bool}
    (hcode : code.drop s.rip = [0x0f, cc] ++ leBytes 4 d.toNat ++ rest) (hcc : cc.extractLsb' 4 4 = 8#4)
    (hcond : condition s.flags (cc.extractLsb' 0 4) = some b) :
    step undef code s =
      if b then State.jump { s with rip := s.rip + 6 } (d.signExtend 64) else some { s with rip := s.rip + 6 } := by
  rw [step_of_decode hcode (by simp) (decode_conditional d rest hcc)]
  simp only [exec, hcc, hcond, Bool.false_eq_true, if_true, if_false, List.length_append, leBytes_length]
  cases b <;> rfl

theorem step_jump (hcode : code.drop s.rip = [0xe9] ++ leBytes 4 d.toNat ++ rest) :
    step undef code s = State.jump { s with rip := s.rip + 5 } (d.signExtend 64) := by
  have hdecode : decode ([0xe9] ++ leBytes 4 d.toNat ++ rest) =
      some ({ operandSize16 := false, rex := {}, escaped := false, opcode := 0xe9, modrm := none,
              imm := d.signExtend 64 }, rest) := by
    change decodeOperands false {} false 0xe9 { modrm := false, imm := .immZ } (leBytes 4 d.toNat ++ rest) = _
    simp [decodeOperands, immLength, takeSigned_displacement]
  rw [step_of_decode hcode (by simp) hdecode]
  simp [exec, execPlain]

theorem jump_to {e target : Nat} (hd : d.toInt = (target : Int) - e) (hrip : s.rip = e) :
    s.jump (d.signExtend 64) = some { s with rip := target } := by
  have htarget : (s.rip : Int) + (d.signExtend 64).toInt = target := by
    rw [BitVec.toInt_signExtend_of_le (by decide), hd, hrip]
    omega
  simp [State.jump, htarget]

end

/-! ## Immediates -/

theorem toInt_readBack_s32 (v : BitVec 64) :
    (s32.readBack v).toInt = Int.bmod v.toNat (2 ^ 32) := by
  unfold readBack
  rw [BitVec.toInt_signExtend_of_le (by decide), BitVec.toInt_setWidth]
  rfl

theorem readBack_s32_eq_iff (v : BitVec 64) :
    s32.readBack v = v ↔ -2 ^ 31 ≤ v.toInt ∧ v.toInt ≤ 2 ^ 31 - 1 := by
  rw [← BitVec.toInt_inj, toInt_readBack_s32, BitVec.toInt_eq_toNat_bmod]
  have := v.isLt
  simp only [Int.bmod]
  omega

@[simp] theorem readBack_s64 (v : BitVec 64) : s64.readBack v = v := by
  simp [readBack, byteCount, BitVec.signExtend_eq]

theorem setWidth_readBack_s32 (v : BitVec 64) : (s32.readBack v).setWidth 32 = v.setWidth 32 :=
  setWidth_signExtend (by decide) (v.setWidth 32)

theorem truncate_readBack (v : BitVec 64) (h : v.toNat < 2 ^ 32) :
    truncate false (s32.readBack v) = v := by
  simp only [truncate, Bool.false_eq_true, if_false, setWidth_readBack_s32]
  apply BitVec.eq_of_toNat_eq
  simp only [BitVec.toNat_setWidth]
  omega

/-! ## The constructors -/

def X86Register.num (r : X86Register) : Reg := r.toU8.setWidth 4

def X86Register.IsGeneral (r : X86Register) : Prop := r.toU8 = r.num.setWidth 8

instance (r : X86Register) : Decidable r.IsGeneral := inferInstanceAs (Decidable (_ = _))

section
variable (dbg w64 : Bool) {src dst : X86Register} (hsrc : src.IsGeneral) (hdst : dst.IsGeneral)

theorem excludeOperandSizes_ok {l : List OperandSize} {size : OperandSize} (h : size ∉ l) :
    excludeOperandSizes dbg size l = some () := by
  simp [excludeOperandSizes, debugAssert, h]

theorem sizeOf64_not_mem : sizeOf64 w64 ∉ [s0, .s8, .s16] := by
  cases w64 <;> decide

include hsrc hdst in
theorem mov_eq : mov dbg (sizeOf64 w64) src dst = some (direct w64 0x89 src.num dst.num .s0 0) := by
  unfold mov
  rw [excludeOperandSizes_ok dbg (sizeOf64_not_mem w64), hsrc, hdst]
  rfl

include hsrc hdst in
theorem alu_eq (opcode : Byte) : alu dbg (sizeOf64 w64) opcode src dst none =
    some (direct w64 opcode src.num dst.num .s0 0) := by
  unfold alu aluEscaped
  rw [excludeOperandSizes_ok dbg (sizeOf64_not_mem w64), hsrc, hdst]
  rfl

include hsrc hdst in
theorem xchg_eq : xchg dbg .s64 src dst none = some (direct true 0x87 src.num dst.num .s0 0) := by
  unfold xchg
  rw [excludeOperandSizes_ok dbg (by decide), hsrc, hdst]
  rfl

include hsrc hdst in
theorem cmp_eq : cmp dbg (sizeOf64 w64) src dst none =
    some (direct w64 0x39 src.num dst.num .s0 0) := by
  unfold X86Instruction.cmp
  rw [excludeOperandSizes_ok dbg (by cases w64 <;> decide), hsrc, hdst]
  cases w64 <;> rfl

include hsrc hdst in
theorem test_eq : test dbg (sizeOf64 w64) src dst none =
    some (direct w64 0x85 src.num dst.num .s0 0) := by
  unfold test
  rw [excludeOperandSizes_ok dbg (by cases w64 <;> decide), hsrc, hdst]
  cases w64 <;> rfl

include hdst in
theorem cmpImmediate_eq (imm : BitVec 64) : cmpImmediate dbg (sizeOf64 w64) dst imm none =
    some (direct w64 0x81 7 dst.num .s32 imm) := by
  unfold cmpImmediate
  rw [excludeOperandSizes_ok dbg (by cases w64 <;> decide), hdst]
  cases w64 <;> rfl

include hdst in
theorem testImmediate_eq (imm : BitVec 64) : testImmediate dbg (sizeOf64 w64) dst imm none =
    some (direct w64 0xf7 0 dst.num .s32 imm) := by
  unfold testImmediate
  rw [excludeOperandSizes_ok dbg (by cases w64 <;> decide), hdst]
  cases w64 <;> rfl

include hdst in
theorem aluImmediate_eq (opcode : Byte) (ext : Reg) (imm : BitVec 64) (size : OperandSize)
    (hsize : (if opcode = 0xc1 then .s8 else if opcode = 0x81 then .s32
      else if opcode = 0xf7 ∧ ext.setWidth 8 = (0 : Byte) then .s32 else .s0) = size) :
    aluImmediate dbg (sizeOf64 w64) opcode (ext.setWidth 8) dst imm none =
      some (direct w64 opcode ext dst.num size imm) := by
  unfold aluImmediate aluImmediateEscaped
  rw [excludeOperandSizes_ok dbg (sizeOf64_not_mem w64), hdst, hsize]
  rfl

include hdst in
theorem push_eq : push dst none = plain false (opcodeWith 0x50 dst.num) dst.num .s0 0 := by
  unfold push
  rw [hdst]
  rfl

include hdst in
theorem pop_eq : pop dst = plain false (opcodeWith 0x58 dst.num) dst.num .s0 0 := by
  unfold pop
  rw [hdst]
  rfl

include hdst in
theorem loadImmediate_eq (v : BitVec 64) :
    (∃ w64, loadImmediate dst v = plain w64 (opcodeWith 0xb8 dst.num) dst.num (sizeOf64 w64) v ∧
      truncate w64 ((sizeOf64 w64).readBack v) = v) ∨
    (loadImmediate dst v = direct true 0xc7 0 dst.num .s32 v ∧ s32.readBack v = v) := by
  unfold loadImmediate
  rw [hdst]
  by_cases hpos : 0 ≤ v.toInt
  · rw [if_pos hpos]
    by_cases hsmall : v.toInt ≤ 2 ^ 32 - 1
    · refine .inl ⟨false, by rw [if_pos hsmall]; rfl, truncate_readBack v ?_⟩
      rw [BitVec.toInt_eq_toNat_cond] at hpos hsmall
      omega
    · exact .inl ⟨true, by rw [if_neg hsmall]; rfl, by simp [sizeOf64]⟩
  · rw [if_neg hpos]
    by_cases hlow : -2 ^ 31 ≤ v.toInt
    · exact .inr ⟨by rw [if_pos hlow]; rfl, (readBack_s32_eq_iff v).mpr ⟨hlow, by omega⟩⟩
    · exact .inl ⟨true, by rw [if_neg hlow]; rfl, by simp [sizeOf64]⟩

include hdst in
theorem runs_loadImmediate (undef : State → Bool) (s : State) (v : BitVec 64) :
    Runs undef (loadImmediate dst v).bytes s
      ((past s (loadImmediate dst v)).setReg dst.num v) := by
  rcases loadImmediate_eq hdst v with ⟨w64, hi, hv⟩ | ⟨hi, hv⟩
  · have hrun : Runs undef (plain w64 (opcodeWith 0xb8 dst.num) dst.num (sizeOf64 w64) v).bytes s _ :=
      runs_movImmediate dst.num rfl
    rw [hi]
    rwa [State.write, ← truncate, hv] at hrun
  · have hrun : Runs undef (direct true 0xc7 0 dst.num .s32 v).bytes s _ := runs_movSigned dst.num
    rw [hi]
    rwa [hv] at hrun

end

end Aeneas.Sbpf
