import Aeneas.Interpreter
import Aeneas.JitBlock

/-!
# Lowering against the interpreter

An instruction that lowers to `J` makes the version 3 interpreter do what a block of `J`
does, except that 32-bit additions and subtractions are sign-extended by the interpreter
and zero-extended by the block.
-/

namespace Aeneas.Sbpf

open Ebpf X86 JitInstruction

variable {C : Type}

theorem except_bind_ok {α β : Type} {r : Except JitModelError α} {f : α → Except JitModelError β} {b : β} :
    (r >>= f) = .ok b ↔ ∃ a, r = .ok a ∧ f a = .ok b := by
  cases r with
  | error e | ok a => simp [bind, Except.bind]

/-! ## Opcodes -/

def opcodeOf (cls operation : Byte) (register : Bool) : Byte :=
  cls ||| operation ||| (if register then bpfX else bpfK)

def aluClass (w64 : Bool) : Byte := if w64 then bpfAlu64Store else bpfAlu32Load

def jumpClass (w64 : Bool) : Byte := if w64 then bpfJmp64 else bpfJmp32

theorem opc_eq_opcodeOf (opc : Byte) :
    opc = opcodeOf (opc &&& bpfClsMask) (opc &&& bpfAluOpMask) (opc &&& bpfX != 0) := by
  revert opc
  decide

def AluOperation.toByte : AluOperation → Byte
  | .add => bpfAdd
  | .subtract => bpfSub
  | .or => bpfOr
  | .and => bpfAnd
  | .xor => bpfXor

def ShiftOperation.toByte : ShiftOperation → Byte
  | .left => bpfLsh
  | .right => bpfRsh
  | .arithmeticRight => bpfArsh

def JumpCondition.toByte : JumpCondition → Byte
  | .equal => bpfJeq
  | .notEqual => bpfJne
  | .greater => bpfJgt
  | .greaterOrEqual => bpfJge
  | .less => bpfJlt
  | .lessOrEqual => bpfJle
  | .signedGreater => bpfJsgt
  | .signedGreaterOrEqual => bpfJsge
  | .signedLess => bpfJslt
  | .signedLessOrEqual => bpfJsle

variable {b : Byte}

theorem aluOperationOf_eq_some {op : AluOperation} (h : aluOperationOf b = some op) : b = op.toByte := by
  unfold aluOperationOf at h
  split_ifs at h <;> cases h <;> assumption

theorem shiftOperationOf_eq_some {op : ShiftOperation} (h : shiftOperationOf b = some op) :
    b = op.toByte := by
  unfold shiftOperationOf at h
  split_ifs at h <;> cases h <;> assumption

theorem jumpConditionFromOperation_ok {c : JumpCondition} (h : jumpConditionFromOperation b = .ok c) :
    b = c.toByte := by
  have hall : ∀ b, (jumpConditionFromOperation b).toOption.all (fun c => b == c.toByte) = true := by
    decide
  simpa [h, Except.toOption] using hall b

/-! ## The arms of the lowered instructions -/

def AluOperation.interpreted (op : AluOperation) (w64 : Bool) (x y : BitVec 64) : BitVec 64 :=
  if !w64 && (op = .add || op = .subtract) then
    (op.toAlu.result (x.setWidth 32) (y.setWidth 32)).signExtend 64
  else op.toAlu.value w64 x y

theorem selectArm_alu (w64 : Bool) (op : AluOperation) (register : Bool) :
    ∃ f, selectArm (C := C) .v3 (opcodeOf (aluClass w64) op.toByte register) =
        some (if register then aluReg f else aluImm f) ∧ ∀ d v, f .v3 d v = op.interpreted w64 d v := by
  cases w64 <;> cases op <;> cases register <;> exact ⟨_, rfl, fun _ _ => rfl⟩

theorem selectArm_mov (w64 : Bool) (register : Bool) :
    ∃ f, selectArm (C := C) .v3 (opcodeOf (aluClass w64) bpfMov register) =
        some (if register then aluReg f else aluImm f) ∧ ∀ d v, f .v3 d v = truncate w64 v := by
  cases w64 <;> cases register <;> exact ⟨_, rfl, fun _ _ => rfl⟩

theorem count_mod {w : Nat} (hw : w = 32 ∨ w = 64) (v : BitVec 64) :
    (v.setWidth 32).toNat % w = (v.setWidth 8).toNat % w := by
  simp only [BitVec.toNat_setWidth]
  rcases hw with rfl | rfl <;> omega

def ShiftOperation.interpreted (op : ShiftOperation) (w64 : Bool) : SBPFVersion → BitVec 64 → BitVec 64 → BitVec 64 :=
  match w64, op with
  | true, .left => u64 shl64
  | true, .right => u64 shr64
  | true, .arithmeticRight => u64 sar64
  | false, .left => u32 wrappingShl
  | false, .right => u32 wrappingShr
  | false, .arithmeticRight => u32 wrappingSar

theorem ShiftOperation.interpreted_eq (op : ShiftOperation) (w64 : Bool) (version : SBPFVersion) (d v : BitVec 64) :
    op.interpreted w64 version d v = op.toShift.value w64 d (v.setWidth 8) := by
  have h32 := count_mod (.inl rfl) v
  have h64 := count_mod (.inr rfl) v
  cases w64 with
  | true =>
    cases op <;> simp only [interpreted, u64, shl64, shr64, sar64, wrappingShl, wrappingShr, wrappingSar, h64] <;> rfl
  | false =>
    cases op <;> simp only [interpreted, u32, wrappingShl, wrappingShr, wrappingSar, h32] <;> rfl

theorem selectArm_shift (w64 : Bool) (op : ShiftOperation) (register : Bool) :
    selectArm (C := C) .v3 (opcodeOf (aluClass w64) op.toByte register) =
      some (if register then aluReg (op.interpreted w64) else aluImm (op.interpreted w64)) := by
  cases w64 <;> cases op <;> cases register <;> rfl

theorem selectArm_jump (w64 : Bool) (c : JumpCondition) (register : Bool) :
    selectArm (C := C) .v3 (opcodeOf (jumpClass w64) c.toByte register) =
      some (if register then jumpReg (compare w64 c) else jumpImm (compare w64 c)) := by
  cases w64 <;> cases c <;> cases register <;> rfl

theorem selectArm_jset (w64 : Bool) (register : Bool) :
    selectArm (C := C) .v3 (opcodeOf (jumpClass w64) bpfJset register) =
      some (if register then jumpReg (overlap w64) else jumpImm (overlap w64)) := by
  cases w64 <;> cases register <;> rfl

theorem selectArm_ja (register : Bool) (h : selectArm (C := C) .v3 (opcodeOf bpfJmp64 bpfJa register) ≠ none) :
    selectArm (C := C) .v3 (opcodeOf bpfJmp64 bpfJa register) =
      some fun _ insn s nextPc => .done s (branchTo insn nextPc) := by
  cases register
  · rfl
  · exact absurd rfl h

theorem selectArm_exit (register : Bool) (h : selectArm (C := C) .v3 (opcodeOf bpfJmp64 bpfExit register) ≠ none) :
    selectArm (C := C) .v3 (opcodeOf bpfJmp64 bpfExit register) = some exitBody := by
  cases register
  · rfl
  · exact absurd rfl h

/-! ## Registers -/

namespace Interpreter

def regs (s : Interpreter C) : Regs := fun i => s.reg i.castSucc

theorem getReg_eq (s : Interpreter C) {i : Nat} (hi : i < 11) : s.getReg i = some (s.regs.get i) := by
  rw [getReg, dif_pos (by omega), Regs.get, dif_pos hi]
  rfl

theorem setReg_regs (s : Interpreter C) {i : Nat} (v : BitVec 64) : (s.setReg i v).regs = s.regs.set i v := rfl

theorem setReg_pc_regs (s : Interpreter C) (v : BitVec 64) : (s.setReg 11 v).regs = s.regs := by
  funext i
  rw [setReg_regs, Regs.set, if_neg (by omega)]

theorem setReg_pc (s : Interpreter C) (v : BitVec 64) : (s.setReg 11 v).pc = v := rfl

end Interpreter

namespace JitInstruction

def Mapped : JitInstruction → Prop
  | .loadImmediate _ d _ | .aluImmediate _ _ d _ | .shiftImmediate _ _ d _ | .jumpImmediate _ _ d _ _
  | .jumpTestImmediate _ d _ _ => d < 11
  | .moveRegister _ s d | .aluRegister _ _ s d | .shiftRegister _ _ s d | .jumpRegister _ _ s d _
  | .jumpTestRegister _ s d _ => s < 11 ∧ d < 11
  | .jump _ | .ret => True

theorem mapped_of_straight {dbg : Bool} {J : JitInstruction} {l : List (Option X86Instruction)}
    (h : J.straight dbg = some l) : J.Mapped := by
  cases J with
  | jump | ret => trivial
  | loadImmediate | aluImmediate | shiftImmediate | jumpImmediate | jumpTestImmediate =>
    obtain ⟨d, rfl, -⟩ := register_bind h
    exact d.isLt
  | moveRegister | aluRegister | shiftRegister | jumpRegister | jumpTestRegister =>
    obtain ⟨a, rfl, h'⟩ := register_bind h
    obtain ⟨d, rfl, -⟩ := register_bind h'
    exact ⟨a.isLt, d.isLt⟩

def interpreted (w64 : Bool) (r : Regs) : JitInstruction → Regs
  | .aluImmediate _ op d v => r.set d (op.interpreted w64 (r.get d) v)
  | .aluRegister _ op s d => r.set d (op.interpreted w64 (r.get d) (r.get s))
  | J => J.result w64 r

end JitInstruction

/-! ## One instruction -/

section
variable {x : Executable C} {insn : Insn} {s : Interpreter C} {pc : Nat} {J : JitInstruction} {w64 : Bool}

structure Next (s : Interpreter C) (r : Regs) (pc' : Nat) (result : StepResult C) : Prop where
  next : ∃ s', result = .next s' ∧ s'.regs = r ∧ s'.pc = BitVec.ofNat 64 pc' ∧ s'.vm = s.vm

theorem pc_succ (hpc : s.pc = BitVec.ofNat 64 pc) : s.pc + 1 = BitVec.ofNat 64 (pc + 1) := by
  rw [hpc, BitVec.ofNat_add]
  rfl

variable {t : Nat}

theorem branchTo_eq (hpc : s.pc = BitVec.ofNat 64 pc) (ht : branchTarget pc insn.off = .ok t) :
    branchTo insn (s.pc + 1) = BitVec.ofNat 64 t := by
  unfold branchTarget at ht
  dsimp only at ht
  split at ht
  · cases ht
  · next hrange =>
    obtain rfl := Except.ok.inj ht
    have htarget : ((pc : Int) + insn.off.toInt + 1).toNat = ((pc + 1 : Nat) : Int) + insn.off.toInt := by omega
    rw [branchTo, pc_succ hpc, ← BitVec.ofInt_natCast, ← BitVec.ofInt_natCast, htarget, BitVec.ofInt_add]
    rfl

theorem execInsn_done {body : Body C} {s' : Interpreter C} {nextPc : BitVec 64} (hv : x.sbpfVersion = .v3)
    (harm : selectArm .v3 insn.opc = some body) (hbody : body x insn s (s.pc + 1) = .done s' nextPc) :
    execInsn x insn s = .next (s'.setReg 11 nextPc) := by
  simp only [execInsn, hv, harm, hbody]

variable {f : SBPFVersion → BitVec 64 → BitVec 64 → BitVec 64} {register : Bool}

theorem next_alu (hv : x.sbpfVersion = .v3) (hpc : s.pc = BitVec.ofNat 64 pc)
    (harm : selectArm (C := C) .v3 insn.opc = some (if register then aluReg f else aluImm f))
    (hd : insn.dst.toNat < 11) (hs : register = true → insn.src.toNat < 11) :
    Next s (s.regs.set insn.dst.toNat (f .v3 (s.regs.get insn.dst.toNat)
      (if register then s.regs.get insn.src.toNat else insn.imm))) (pc + 1) (execInsn x insn s) := by
  have hbody : (if register then aluReg f else aluImm f) x insn s (s.pc + 1) = .done (s.setReg insn.dst.toNat
      (f .v3 (s.regs.get insn.dst.toNat) (if register then s.regs.get insn.src.toNat else insn.imm)))
      (s.pc + 1) := by
    cases register with
    | true => simp [aluReg, hv, s.getReg_eq hd, s.getReg_eq (hs rfl)]
    | false => simp [aluImm, hv, s.getReg_eq hd]
  exact ⟨_, execInsn_done hv harm hbody, by rw [Interpreter.setReg_pc_regs, Interpreter.setReg_regs],
    pc_succ hpc, rfl⟩

variable {c : BitVec 64 → BitVec 64 → Bool}

theorem next_jump (hv : x.sbpfVersion = .v3)
    (hpc : s.pc = BitVec.ofNat 64 pc)
    (harm : selectArm (C := C) .v3 insn.opc = some (if register then jumpReg c else jumpImm c))
    (ht : branchTarget pc insn.off = .ok t)
    (hd : insn.dst.toNat < 11) (hs : register = true → insn.src.toNat < 11) :
    Next s s.regs (if c (s.regs.get insn.dst.toNat) (if register then s.regs.get insn.src.toNat else insn.imm)
      then t else pc + 1) (execInsn x insn s) := by
  have hbody : (if register then jumpReg c else jumpImm c) x insn s (s.pc + 1) = .done s
      (if c (s.regs.get insn.dst.toNat) (if register then s.regs.get insn.src.toNat else insn.imm)
        then branchTo insn (s.pc + 1) else s.pc + 1) := by
    cases register with
    | true => simp [jumpReg, s.getReg_eq hd, s.getReg_eq (hs rfl)]
    | false => simp [jumpImm, s.getReg_eq hd]
  refine ⟨_, execInsn_done hv harm hbody, Interpreter.setReg_pc_regs _ _, ?_, rfl⟩
  rw [Interpreter.setReg_pc, branchTo_eq hpc ht, pc_succ hpc, ← apply_ite (BitVec.ofNat 64)]

structure Lowered (x : Executable C) (insn : Insn) (s : Interpreter C) (pc : Nat) (J : JitInstruction) (w64 : Bool) :
    Prop where
  size : J.HasSize w64
  next : Next s (J.interpreted w64 s.regs) (J.nextPc w64 s.regs pc) (execInsn x insn s)

theorem Lowered.of_forms {g : BitVec 64 → BitVec 64 → BitVec 64}
    {Jr Ji : JitInstruction} (hv : x.sbpfVersion = .v3) (hpc : s.pc = BitVec.ofNat 64 pc)
    (hf : ∀ d v, f .v3 d v = g d v)
    (harm : selectArm (C := C) .v3 insn.opc = some (if register then aluReg f else aluImm f))
    (hJ : (if register then Except.ok Jr else Except.ok Ji : Except JitModelError JitInstruction) = .ok J)
    (hm : J.Mapped) (hsr : Jr.HasSize w64) (hsi : Ji.HasSize w64)
    (hmr : Jr.Mapped → insn.src.toNat < 11 ∧ insn.dst.toNat < 11) (hmi : Ji.Mapped → insn.dst.toNat < 11)
    (hr : Jr.interpreted w64 s.regs =
      s.regs.set insn.dst.toNat (g (s.regs.get insn.dst.toNat) (s.regs.get insn.src.toNat)))
    (hi : Ji.interpreted w64 s.regs = s.regs.set insn.dst.toNat (g (s.regs.get insn.dst.toNat) insn.imm))
    (hpr : Jr.nextPc w64 s.regs pc = pc + 1) (hpi : Ji.nextPc w64 s.regs pc = pc + 1) :
    Lowered x insn s pc J w64 := by
  cases register with
  | true =>
    obtain rfl := Except.ok.inj hJ
    have hnext := next_alu hv hpc harm (hmr hm).2 fun _ => (hmr hm).1
    exact ⟨hsr, by rw [hr, hpr, ← hf]; exact hnext⟩
  | false =>
    obtain rfl := Except.ok.inj hJ
    have hnext := next_alu hv hpc harm (hmi hm) (by simp)
    exact ⟨hsi, by rw [hi, hpi, ← hf]; exact hnext⟩

theorem lowerAluInstruction_cases (hcls : insn.opc &&& bpfClsMask = aluClass w64)
    (hlow : lowerAluInstruction (sizeOf64 w64) insn = .ok J) :
    ∃ register,
      (insn.opc = opcodeOf (aluClass w64) bpfMov register ∧
        (if register then Except.ok (.moveRegister (sizeOf64 w64) insn.src.toNat insn.dst.toNat)
          else Except.ok (.loadImmediate (sizeOf64 w64) insn.dst.toNat insn.imm)) =
          (Except.ok J : Except JitModelError JitInstruction)) ∨
      (∃ op : AluOperation, insn.opc = opcodeOf (aluClass w64) op.toByte register ∧
        (if register then Except.ok (.aluRegister (sizeOf64 w64) op insn.src.toNat insn.dst.toNat)
          else Except.ok (.aluImmediate (sizeOf64 w64) op insn.dst.toNat insn.imm)) =
          (Except.ok J : Except JitModelError JitInstruction)) ∨
      (∃ op : ShiftOperation, insn.opc = opcodeOf (aluClass w64) op.toByte register ∧
        (if register then Except.ok (.shiftRegister (sizeOf64 w64) op insn.src.toNat insn.dst.toNat)
          else Except.ok (.shiftImmediate (sizeOf64 w64) op insn.dst.toNat (insn.imm.setWidth 8))) =
          (Except.ok J : Except JitModelError JitInstruction)) := by
  have hopc := opc_eq_opcodeOf insn.opc
  rw [hcls] at hopc
  unfold lowerAluInstruction at hlow
  dsimp only at hlow
  refine ⟨insn.opc &&& bpfX != 0, ?_⟩
  by_cases hmov : insn.opc &&& bpfAluOpMask = bpfMov
  · rw [if_pos hmov] at hlow
    rw [hmov] at hopc
    exact .inl ⟨hopc, hlow⟩
  · rw [if_neg hmov] at hlow
    cases halu : aluOperationOf (insn.opc &&& bpfAluOpMask) with
    | some op =>
      rw [halu] at hlow
      rw [aluOperationOf_eq_some halu] at hopc
      exact .inr (.inl ⟨op, hopc, hlow⟩)
    | none =>
      rw [halu] at hlow
      cases hshift : shiftOperationOf (insn.opc &&& bpfAluOpMask) with
      | some op =>
        rw [hshift] at hlow
        rw [shiftOperationOf_eq_some hshift] at hopc
        exact .inr (.inr ⟨op, hopc, hlow⟩)
      | none =>
        rw [hshift] at hlow
        cases hlow

theorem lowered_alu (hv : x.sbpfVersion = .v3) (hpc : s.pc = BitVec.ofNat 64 pc)
    (hcls : insn.opc &&& bpfClsMask = aluClass w64) (hlow : lowerAluInstruction (sizeOf64 w64) insn = .ok J)
    (hm : J.Mapped) : Lowered x insn s pc J w64 := by
  obtain ⟨register, ⟨hopc, hJ⟩ | ⟨op, hopc, hJ⟩ | ⟨op, hopc, hJ⟩⟩ := lowerAluInstruction_cases hcls hlow
  · obtain ⟨f, harm, hf⟩ := selectArm_mov (C := C) w64 register
    rw [← hopc] at harm
    exact .of_forms (g := fun _ v => truncate w64 v) hv hpc hf harm hJ hm rfl rfl id id rfl rfl rfl rfl
  · obtain ⟨f, harm, hf⟩ := selectArm_alu (C := C) w64 op register
    rw [← hopc] at harm
    exact .of_forms hv hpc hf harm hJ hm rfl rfl id id rfl rfl rfl rfl
  · have harm := selectArm_shift (C := C) w64 op register
    rw [← hopc] at harm
    exact .of_forms hv hpc (op.interpreted_eq w64 .v3) harm hJ hm rfl rfl id id rfl rfl rfl rfl

theorem Lowered.of_jumpForms {Jr Ji : JitInstruction}
    (hv : x.sbpfVersion = .v3) (hpc : s.pc = BitVec.ofNat 64 pc) (ht : branchTarget pc insn.off = .ok t)
    (harm : selectArm (C := C) .v3 insn.opc = some (if register then jumpReg c else jumpImm c))
    (hJ : (if register then Except.ok Jr else Except.ok Ji : Except JitModelError JitInstruction) = .ok J)
    (hm : J.Mapped) (hsr : Jr.HasSize w64) (hsi : Ji.HasSize w64)
    (hmr : Jr.Mapped → insn.src.toNat < 11 ∧ insn.dst.toNat < 11) (hmi : Ji.Mapped → insn.dst.toNat < 11)
    (hr : Jr.interpreted w64 s.regs = s.regs) (hi : Ji.interpreted w64 s.regs = s.regs)
    (hpr : Jr.nextPc w64 s.regs pc =
      if c (s.regs.get insn.dst.toNat) (s.regs.get insn.src.toNat) then t else pc + 1)
    (hpi : Ji.nextPc w64 s.regs pc = if c (s.regs.get insn.dst.toNat) insn.imm then t else pc + 1) :
    Lowered x insn s pc J w64 := by
  cases register with
  | true =>
    obtain rfl := Except.ok.inj hJ
    have hnext := next_jump hv hpc harm ht (hmr hm).2 fun _ => (hmr hm).1
    exact ⟨hsr, by rw [hr, hpr]; exact hnext⟩
  | false =>
    obtain rfl := Except.ok.inj hJ
    have hnext := next_jump hv hpc harm ht (hmi hm) (by simp)
    exact ⟨hsi, by rw [hi, hpi]; exact hnext⟩

theorem sizeOf64_inj {w w' : Bool} (h : sizeOf64 w = sizeOf64 w') : w = w' := by
  revert w w'
  decide

theorem sizeOf64_eq_s64 : sizeOf64 w64 = .s64 ↔ w64 = true := by
  cases w64 <;> decide

theorem lowerJumpInstruction_cases (hcls : insn.opc &&& bpfClsMask = jumpClass w64)
    (hlow : lowerJumpInstruction (sizeOf64 w64) pc insn = .ok J) :
    ∃ register,
      (insn.opc = opcodeOf bpfJmp64 bpfExit register ∧ J = .ret) ∨
      ∃ t, branchTarget pc insn.off = .ok t ∧
        ((insn.opc = opcodeOf bpfJmp64 bpfJa register ∧ J = .jump t) ∨
        (insn.opc = opcodeOf (jumpClass w64) bpfJset register ∧
          (if register then Except.ok (.jumpTestRegister (sizeOf64 w64) insn.src.toNat insn.dst.toNat t)
            else Except.ok (.jumpTestImmediate (sizeOf64 w64) insn.dst.toNat insn.imm t)) =
            (Except.ok J : Except JitModelError JitInstruction)) ∨
        ∃ c : JumpCondition, insn.opc = opcodeOf (jumpClass w64) c.toByte register ∧
          (if register then Except.ok (.jumpRegister (sizeOf64 w64) c insn.src.toNat insn.dst.toNat t)
            else Except.ok (.jumpImmediate (sizeOf64 w64) c insn.dst.toNat insn.imm t)) =
            (Except.ok J : Except JitModelError JitInstruction)) := by
  have hopc := opc_eq_opcodeOf insn.opc
  rw [hcls] at hopc
  unfold lowerJumpInstruction at hlow
  dsimp only at hlow
  refine ⟨insn.opc &&& bpfX != 0, ?_⟩
  split at hlow
  · next hexit =>
    obtain rfl := sizeOf64_eq_s64.mp hexit.1
    rw [hexit.2] at hopc
    exact .inl ⟨hopc, (Except.ok.inj hlow).symm⟩
  · obtain ⟨t, ht, hlow₁⟩ := except_bind_ok.mp hlow
    refine .inr ⟨t, ht, ?_⟩
    split at hlow₁
    · next hja =>
      obtain rfl := sizeOf64_eq_s64.mp hja.1
      rw [hja.2] at hopc
      exact .inl ⟨hopc, (Except.ok.inj hlow₁).symm⟩
    · split at hlow₁
      · next hjset => exact .inr (.inl ⟨by rw [← hjset]; exact hopc, hlow₁⟩)
      · obtain ⟨c, hc, hJ⟩ := except_bind_ok.mp hlow₁
        exact .inr (.inr ⟨c, by rw [← jumpConditionFromOperation_ok hc]; exact hopc, hJ⟩)

theorem lowered_jump (hv : x.sbpfVersion = .v3) (hpc : s.pc = BitVec.ofNat 64 pc)
    (himm : OperandSize.s32.readBack insn.imm = insn.imm) (harm : selectArm (C := C) .v3 insn.opc ≠ none)
    (hcls : insn.opc &&& bpfClsMask = jumpClass w64) (hlow : lowerJumpInstruction (sizeOf64 w64) pc insn = .ok J)
    (hm : J.Mapped) (hret : J ≠ .ret) : Lowered x insn s pc J w64 := by
  obtain ⟨register, ⟨-, rfl⟩ | ⟨t, ht, ⟨hopc, rfl⟩ | ⟨hopc, hJ⟩ | ⟨c, hopc, hJ⟩⟩⟩ :=
    lowerJumpInstruction_cases hcls hlow
  · exact absurd rfl hret
  · have harm' := selectArm_ja (C := C) register (hopc ▸ harm)
    rw [← hopc] at harm'
    refine ⟨trivial, _, execInsn_done hv harm' rfl, Interpreter.setReg_pc_regs _ _, ?_, rfl⟩
    rw [Interpreter.setReg_pc, branchTo_eq hpc ht]
    rfl
  · have harm' := selectArm_jset (C := C) w64 register
    rw [← hopc] at harm'
    refine .of_jumpForms hv hpc ht harm' hJ hm rfl rfl id id rfl rfl rfl ?_
    simp only [nextPc, target, taken, himm]
  · have harm' := selectArm_jump (C := C) w64 c register
    rw [← hopc] at harm'
    refine .of_jumpForms hv hpc ht harm' hJ hm rfl rfl id id rfl rfl rfl ?_
    simp only [nextPc, target, taken, himm]

theorem lowerSbpfInstruction_cases (hlow : lowerSbpfInstruction pc insn = .ok J) :
    ∃ w64, (insn.opc &&& bpfClsMask = aluClass w64 ∧ lowerAluInstruction (sizeOf64 w64) insn = .ok J) ∨
      (insn.opc &&& bpfClsMask = jumpClass w64 ∧ lowerJumpInstruction (sizeOf64 w64) pc insn = .ok J) := by
  unfold lowerSbpfInstruction at hlow
  dsimp only at hlow
  split at hlow
  · exact ⟨false, .inl ⟨‹_›, hlow⟩⟩
  split at hlow
  · exact ⟨true, .inl ⟨‹_›, hlow⟩⟩
  split at hlow
  · exact ⟨false, .inr ⟨‹_›, hlow⟩⟩
  split at hlow
  · exact ⟨true, .inr ⟨‹_›, hlow⟩⟩
  · cases hlow

theorem lowered_insn (hv : x.sbpfVersion = .v3) (hpc : s.pc = BitVec.ofNat 64 pc)
    (himm : OperandSize.s32.readBack insn.imm = insn.imm) (harm : selectArm (C := C) .v3 insn.opc ≠ none)
    (hlow : lowerSbpfInstruction pc insn = .ok J) (hm : J.Mapped) (hret : J ≠ .ret) :
    ∃ w64, Lowered x insn s pc J w64 := by
  obtain ⟨w64, ⟨hcls, hlow⟩ | ⟨hcls, hlow⟩⟩ := lowerSbpfInstruction_cases hlow
  · exact ⟨w64, lowered_alu hv hpc hcls hlow hm⟩
  · exact ⟨w64, lowered_jump hv hpc himm harm hcls hlow hm hret⟩

theorem opc_of_ret (hlow : lowerSbpfInstruction pc insn = .ok .ret) :
    ∃ register, insn.opc = opcodeOf bpfJmp64 bpfExit register := by
  obtain ⟨w64, ⟨hcls, hlow⟩ | ⟨hcls, hlow⟩⟩ := lowerSbpfInstruction_cases hlow
  · obtain ⟨register, ⟨-, hJ⟩ | ⟨op, -, hJ⟩ | ⟨op, -, hJ⟩⟩ := lowerAluInstruction_cases hcls hlow <;>
      cases register <;> cases hJ
  · obtain ⟨register, ⟨hopc, -⟩ | ⟨t, -, ⟨-, hJ⟩ | ⟨-, hJ⟩ | ⟨c, -, hJ⟩⟩⟩ := lowerJumpInstruction_cases hcls hlow
    · exact ⟨register, hopc⟩
    · cases hJ
    · cases register <;> cases hJ
    · cases register <;> cases hJ

theorem execInsn_exit (hv : x.sbpfVersion = .v3) (harm : selectArm (C := C) .v3 insn.opc ≠ none)
    (hlow : lowerSbpfInstruction pc insn = .ok .ret) (hdepth : s.vm.callDepth = 0)
    (hmeter : x.config.enableInstructionMeter = false) :
    execInsn x insn s = .stop { s with vm := { s.vm with programResult := .ok (s.reg 0) } } := by
  obtain ⟨register, hopc⟩ := opc_of_ret hlow
  rw [hopc] at harm
  have harm' := selectArm_exit (C := C) register harm
  rw [← hopc] at harm'
  simp [execInsn, hv, harm', exitBody, hdepth, hmeter]

def IsAddSub32 (opc : Byte) : Prop := opc = add32Imm ∨ opc = add32Reg ∨ opc = sub32Imm ∨ opc = sub32Reg

theorem AluOperation.interpreted_eq_value (op : AluOperation) (x y : BitVec 64)
    (h : ¬ (w64 = false ∧ (op = .add ∨ op = .subtract))) : op.interpreted w64 x y = op.toAlu.value w64 x y := by
  rw [AluOperation.interpreted, if_neg (by simpa using h)]

theorem isAddSub32_of_op {op : AluOperation} (hop : op = .add ∨ op = .subtract) :
    IsAddSub32 (opcodeOf (aluClass false) op.toByte register) := by
  unfold IsAddSub32
  rcases hop with rfl | rfl <;> cases register <;> decide

theorem interpreted_eq_result (hlow : lowerSbpfInstruction pc insn = .ok J) (hsize : J.HasSize w64)
    (hno : ¬ IsAddSub32 insn.opc) (r : Regs) : J.interpreted w64 r = J.result w64 r := by
  obtain ⟨w', ⟨hcls, hlow⟩ | ⟨hcls, hlow⟩⟩ := lowerSbpfInstruction_cases hlow
  · obtain ⟨register, ⟨-, hJ⟩ | ⟨op, hopc, hJ⟩ | ⟨op, -, hJ⟩⟩ := lowerAluInstruction_cases hcls hlow
    · cases register <;> obtain rfl := Except.ok.inj hJ <;> rfl
    · have hw : sizeOf64 w' = sizeOf64 w64 := by
        cases register <;> obtain rfl := Except.ok.inj hJ <;> exact hsize
      obtain rfl : w' = w64 := sizeOf64_inj hw
      have hop : ¬ (w' = false ∧ (op = .add ∨ op = .subtract)) := by
        rintro ⟨rfl, hop⟩
        exact hno (hopc ▸ isAddSub32_of_op hop)
      cases register <;> obtain rfl := Except.ok.inj hJ <;>
        simp only [interpreted, result, op.interpreted_eq_value _ _ hop]
    · cases register <;> obtain rfl := Except.ok.inj hJ <;> rfl
  · obtain ⟨register, ⟨-, rfl⟩ | ⟨t, -, ⟨-, rfl⟩ | ⟨-, hJ⟩ | ⟨c, -, hJ⟩⟩⟩ := lowerJumpInstruction_cases hcls hlow
    · rfl
    · rfl
    · cases register <;> obtain rfl := Except.ok.inj hJ <;> rfl
    · cases register <;> obtain rfl := Except.ok.inj hJ <;> rfl

end

end Aeneas.Sbpf
