import Aeneas.JitLower

/-!
# Correctness of the safe JIT

The code of `compile_sbpf` simulates the version 3 interpreter: block starts correspond to
program counters, and the mapped host registers to the sBPF registers.
-/

namespace Aeneas.Sbpf

open X86 List

variable {C : Type}

/-! ## Decoded programs -/

def getInsns (dbg : Bool) (text : List Byte) : Nat → Nat → Option (List Insn)
  | 0, _ => some []
  | count + 1, pc => do
    let insn ← getInsn dbg text pc
    let rest ← getInsns dbg text count (pc + 1)
    some (insn :: rest)

def decodeText (dbg : Bool) (text : List Byte) : Option (List Insn) :=
  getInsns dbg text (text.length / Ebpf.insnSize) 0

variable {dbg : Bool} {text : List Byte} {pc : Nat}

theorem getInsns_eq_some {count : Nat} {program : List Insn}
    (h : getInsns dbg text count pc = some program) :
    program.length = count ∧ ∀ i insn, program[i]? = some insn → getInsn dbg text (pc + i) = some insn := by
  induction count generalizing pc program with
  | zero =>
    obtain rfl := Option.some.inj h
    exact ⟨rfl, by simp⟩
  | succ count ih =>
    simp only [getInsns, Option.bind_eq_bind, Option.bind_eq_some_iff, Option.some.injEq] at h
    obtain ⟨insn, hinsn, rest, hrest, rfl⟩ := h
    obtain ⟨hlen, hget⟩ := ih hrest
    refine ⟨by rw [length_cons, hlen], fun i insn' hi => ?_⟩
    cases i with
    | zero =>
      obtain rfl : insn = insn' := by simpa using hi
      exact hinsn
    | succ i =>
      rw [← Nat.add_assoc, Nat.add_right_comm]
      exact hget i insn' (by simpa using hi)

variable {insn : Insn}

theorem getInsnUnchecked_of_getInsn (h : getInsn dbg text pc = some insn) : getInsnUnchecked text pc = some insn := by
  unfold getInsn at h
  split at h
  · cases h
  · exact h

theorem readLe_bound {n i v : Nat} (h : readLe (n + 1) text i = some v) :
    i + n + 1 ≤ text.length := by
  unfold readLe takeLe at h
  split at h
  · next hle =>
    rw [length_drop] at hle
    omega
  · cases h

theorem getInsnUnchecked_fields (h : getInsnUnchecked text pc = some insn) :
    pc < text.length / Ebpf.insnSize ∧ OperandSize.s32.readBack insn.imm = insn.imm := by
  unfold getInsnUnchecked at h
  simp only [Option.bind_eq_bind, Option.bind_eq_some_iff, Option.some.injEq] at h
  obtain ⟨opc, -, regs, -, off, -, imm, himm, rfl⟩ := h
  have hbound := readLe_bound himm
  refine ⟨?_, ?_⟩
  · unfold Ebpf.insnSize at hbound ⊢
    omega
  · exact congrArg (BitVec.signExtend 64) (setWidth_signExtend (by decide) (BitVec.ofNat 32 imm))

/-! ## The lowered program -/

namespace JitCompilerModel

theorem emitSbpfFrom_ok {dbg : Bool} {program : List Insn} {pc : Nat} {s s' : JitCompilerModel} {u : Unit}
    (h : emitSbpfFrom dbg pc program s = .ok u s') :
    ∃ lowered, lowered.length = program.length ∧
      (∀ i insn J, program[i]? = some insn → lowered[i]? = some J → lowerSbpfInstruction (pc + i) insn = .ok J) ∧
      emitFrom dbg pc lowered s = .ok u s' := by
  induction program generalizing pc s with
  | nil => exact ⟨[], rfl, by simp, h⟩
  | cons insn program ih =>
    obtain ⟨_, s₁, hset, h₁⟩ := bind_ok.mp h
    obtain ⟨J, _, hresult, h₂⟩ := bind_ok.mp h₁
    obtain ⟨hJ, rfl⟩ := ofResult_ok.mp hresult
    obtain ⟨_, s₂, hemit, h₃⟩ := bind_ok.mp h₂
    obtain ⟨lowered, hlen, hlow, hrest⟩ := ih h₃
    refine ⟨J :: lowered, by rw [length_cons, length_cons, hlen], ?_,
      bind_ok.mpr ⟨_, _, hset, bind_ok.mpr ⟨_, _, hemit, hrest⟩⟩⟩
    intro i insn' J' hi hJ'
    cases i with
    | zero =>
      obtain rfl : insn = insn' := by simpa using hi
      obtain rfl : J = J' := by simpa using hJ'
      exact hJ
    | succ i =>
      rw [← Nat.add_assoc, Nat.add_right_comm]
      exact hlow i insn' J' (by simpa using hi) (by simpa using hJ')

theorem finish_congr {count : Nat} {emit emit' : JitM Unit} {s : JitCompilerModel}
    (h : emit (new count 0) = .ok () s) (h' : emit' (new count 0) = .ok () s) :
    finish count emit = finish count emit' := by
  have hrun : ∀ x : JitM Unit, x (new count 0) = .ok () s →
    (do x; resolveJumps).run (new count 0) = resolveJumps s := by
    intro x hx
    change EStateM.bind x _ _ = _
    simp only [EStateM.bind, hx]
  rw [finish, finish, hrun emit h, hrun emit' h']

theorem compileSbpf_ok {dbg : Bool} {program : List Insn} {code : List Byte}
    (h : compileSbpf dbg program = .ok code) :
    ∃ lowered, lowered.length = program.length ∧
      (∀ pc insn J, program[pc]? = some insn → lowered[pc]? = some J → lowerSbpfInstruction pc insn = .ok J) ∧
      compile dbg lowered = .ok code := by
  obtain ⟨s, -, hemit, -, -⟩ := finish_ok h
  obtain ⟨lowered, hlen, hlow, hemit'⟩ := emitSbpfFrom_ok hemit
  refine ⟨lowered, hlen, fun pc insn J => by simpa using hlow pc insn J, ?_⟩
  rw [compile, hlen, ← finish_congr hemit hemit']
  exact h

end JitCompilerModel

/-! ## Simulation -/

structure Compiled (dbg : Bool) (x : Executable C) (program : List Insn) (lowered : List JitInstruction)
    (blocks : List (List Byte)) : Prop where
  version : x.sbpfVersion = .v3
  meter : x.config.enableInstructionMeter = false
  decodes : decodeText dbg x.text.bytes = some program
  length_eq : lowered.length = program.length
  lower : ∀ pc insn J, program[pc]? = some insn → lowered[pc]? = some J → lowerSbpfInstruction pc insn = .ok J
  linked : Linked dbg lowered blocks

theorem compiled_of_compileSbpf {x : Executable C} {program : List Insn} {code : List Byte}
    (hv : x.sbpfVersion = .v3) (hmeter : x.config.enableInstructionMeter = false)
    (hdec : decodeText dbg x.text.bytes = some program) (h : JitCompilerModel.compileSbpf dbg program = .ok code) :
    ∃ lowered blocks, Compiled dbg x program lowered blocks ∧ code = blocks.flatten := by
  obtain ⟨lowered, hlen, hlow, hcompile⟩ := JitCompilerModel.compileSbpf_ok h
  obtain ⟨blocks, hlinked, rfl⟩ := linked_of_compile hcompile
  exact ⟨lowered, blocks, ⟨hv, hmeter, hdec, hlen, hlow, hlinked⟩, rfl⟩

structure Sim (program : List Insn) (blocks : List (List Byte)) (pc : Nat) (s : Interpreter C) (m : State) : Prop where
  pc_eq : s.pc = BitVec.ofNat 64 pc
  pc_le : pc ≤ program.length
  depth : s.vm.callDepth = 0
  agree : Agree s.regs m
  rip : m.rip = blockStart blocks pc

def Succeeds : StepResult C → Prop
  | .next _ => True
  | .stop s => ∃ v, s.vm.programResult = .ok v
  | .panic => False

section
variable {dbg : Bool} {x : Executable C} {program : List Insn} {lowered : List JitInstruction}
  {blocks : List (List Byte)} {pc : Nat} {s s' : Interpreter C} {m : State} {undef : State → Bool}

theorem not_succeeds_throwErr (err : EbpfError) : ¬ Succeeds (.stop (s.throwErr err)) := by
  rintro ⟨v, hv⟩
  cases hv

variable {insn : Insn}

theorem arm_of_succeeds (hv : x.sbpfVersion = .v3) (h : Succeeds (execInsn x insn s)) :
    selectArm (C := C) .v3 insn.opc ≠ none := by
  intro harm
  simp only [execInsn, hv, harm] at h
  exact not_succeeds_throwErr _ h

theorem Compiled.program_length (hc : Compiled dbg x program lowered blocks) :
    program.length = x.text.bytes.length / Ebpf.insnSize := (getInsns_eq_some hc.decodes).1

theorem Compiled.getInsn_eq (hc : Compiled dbg x program lowered blocks)
    (h : program[pc]? = some insn) : getInsnUnchecked x.text.bytes pc = some insn := by
  have hget := (getInsns_eq_some hc.decodes).2 pc insn h
  rw [Nat.zero_add] at hget
  exact getInsnUnchecked_of_getInsn hget

theorem Compiled.pc_toNat (hc : Compiled dbg x program lowered blocks) (hpc : s.pc = BitVec.ofNat 64 pc)
    (hle : pc ≤ program.length) : s.pc.toNat = pc := by
  rw [hpc, BitVec.toNat_ofNat, Nat.mod_eq_of_lt]
  have := x.text.length_lt
  have := hc.program_length
  unfold Ebpf.insnSize at this
  omega

theorem step_eq_execInsn (hmeter : x.config.enableInstructionMeter = false)
    (hrange : ¬ x.text.bytes.length ≤ s.pc.toNat * Ebpf.insnSize)
    (hget : getInsnUnchecked x.text.bytes s.pc.toNat = some insn) :
    ∃ s₁, s.step x = execInsn x insn s₁ ∧ s₁.regs = s.regs ∧ s₁.pc = s.pc ∧
      s₁.vm.callDepth = s.vm.callDepth := by
  have hmeter' : meterExceeded x s = false := by simp [meterExceeded, hmeter]
  have hpc : ∀ vm : EbpfVm C, Interpreter.pc { s with vm := vm } = s.pc := fun _ => rfl
  simp only [Interpreter.step, hmeter', Bool.false_eq_true, if_false, hpc, if_neg hrange, hget]
  refine ⟨_, rfl, ?_⟩
  unfold traceRegisters
  split <;> exact ⟨rfl, rfl, rfl⟩

theorem Compiled.fetch (hc : Compiled dbg x program lowered blocks) (hpc : s.pc = BitVec.ofNat 64 pc)
    (hinsn : program[pc]? = some insn) :
    ∃ s₁, s.step x = execInsn x insn s₁ ∧ s₁.regs = s.regs ∧ s₁.pc = s.pc ∧
      s₁.vm.callDepth = s.vm.callDepth ∧ OperandSize.s32.readBack insn.imm = insn.imm := by
  have hlt : pc < program.length := (List.getElem?_eq_some_iff.mp hinsn).1
  have hnat := hc.pc_toNat hpc (Nat.le_of_lt hlt)
  have hget := hc.getInsn_eq hinsn
  have hrange : ¬ x.text.bytes.length ≤ pc * Ebpf.insnSize := by
    have hlen := hc.program_length
    unfold Ebpf.insnSize at hlen ⊢
    omega
  rw [← hnat] at hget hrange
  obtain ⟨s₁, hstep, hregs, hpc₁, hdepth⟩ := step_eq_execInsn hc.meter hrange hget
  exact ⟨s₁, hstep, hregs, hpc₁, hdepth, (getInsnUnchecked_fields hget).2⟩

theorem Compiled.pc_lt_of_succeeds (hc : Compiled dbg x program lowered blocks) (hpc : s.pc = BitVec.ofNat 64 pc)
    (hle : pc ≤ program.length) (h : Succeeds (s.step x)) : pc < program.length := by
  have hmeter : meterExceeded x s = false := by simp [meterExceeded, hc.meter]
  have hpc' : ∀ vm : EbpfVm C, Interpreter.pc { s with vm := vm } = s.pc := fun _ => rfl
  simp only [Interpreter.step, hmeter, Bool.false_eq_true, if_false, hpc', hc.pc_toNat hpc hle] at h
  split at h
  · exact absurd h (not_succeeds_throwErr _)
  · cases hget : getInsnUnchecked x.text.bytes pc with
    | none =>
      rw [hget] at h
      exact h.elim
    | some insn => exact hc.program_length ▸ (getInsnUnchecked_fields hget).1

theorem Compiled.lowered_at (hc : Compiled dbg x program lowered blocks)
    (hinsn : program[pc]? = some insn) :
    ∃ J, lowered[pc]? = some J ∧ lowerSbpfInstruction pc insn = .ok J ∧ J.Mapped := by
  have hlt : pc < lowered.length := hc.length_eq ▸ (List.getElem?_eq_some_iff.mp hinsn).1
  have hJ := getElem?_eq_getElem hlt
  have hb := getElem?_eq_getElem (l := blocks) (hc.linked.length_eq ▸ hlt)
  obtain ⟨is, d, hs, -⟩ := hc.linked.block pc _ _ hJ hb
  exact ⟨_, hJ, hc.lower pc insn _ hinsn hJ, JitInstruction.mapped_of_straight hs⟩

theorem Compiled.nextPc_le (hc : Compiled dbg x program lowered blocks) {J : JitInstruction} {w64 : Bool} {r : Regs}
    (hJ : lowered[pc]? = some J) : J.nextPc w64 r pc ≤ program.length := by
  have hlt : pc < lowered.length := (List.getElem?_eq_some_iff.mp hJ).1
  have hb := getElem?_eq_getElem (l := blocks) (hc.linked.length_eq ▸ hlt)
  obtain ⟨is, d, -, -, hlink⟩ := hc.linked.block pc J _ hJ hb
  have hle : pc + 1 ≤ program.length := hc.length_eq ▸ hlt
  unfold JitInstruction.nextPc
  split
  · exact hle
  · next t ht =>
    obtain ⟨hlt, -⟩ := hlink t ht
    rw [hc.linked.length_eq, hc.length_eq] at hlt
    split <;> omega

theorem sim_step (hc : Compiled dbg x program lowered blocks) (hno : ∀ insn ∈ program, ¬ IsAddSub32 insn.opc)
    (h : Sim program blocks pc s m) (hstep : s.step x = .next s') :
    ∃ pc' m', Steps undef blocks.flatten m m' ∧ Sim program blocks pc' s' m' ∧ m'.regs rsp = m.regs rsp := by
  have hinsn := getElem?_eq_getElem (hc.pc_lt_of_succeeds h.pc_eq h.pc_le (by rw [hstep]; trivial))
  obtain ⟨s₁, hexec, hregs, hpc₁, hdepth, himm⟩ := hc.fetch h.pc_eq hinsn
  obtain ⟨J, hJ, hlow, hm⟩ := hc.lowered_at hinsn
  rw [hexec] at hstep
  have harm := arm_of_succeeds hc.version (s := s₁) (by rw [hstep]; trivial)
  have hret : J ≠ .ret := by
    rintro rfl
    rw [execInsn_exit hc.version harm hlow (hdepth.trans h.depth) hc.meter] at hstep
    cases hstep
  obtain ⟨w64, hsize, s₂, hs₂, hregs₂, hpc₂, hvm⟩ :=
    lowered_insn hc.version (hpc₁.trans h.pc_eq) himm harm hlow hm hret
  obtain rfl : s' = s₂ := by simpa using hstep.symm.trans hs₂
  rw [hregs, interpreted_eq_result hlow hsize (hno _ (mem_of_getElem? hinsn))] at hregs₂
  rw [hregs] at hpc₂
  obtain ⟨m', hsteps, hrip, hagree, hrsp⟩ : ∃ m', Steps undef blocks.flatten m m' ∧ _ :=
    block_steps hc.linked hJ hsize hret h.agree h.rip
  refine ⟨_, m', hsteps, ⟨hpc₂, hc.nextPc_le hJ, by rw [hvm, hdepth, h.depth], ?_, hrip⟩, hrsp⟩
  rw [hregs₂]
  exact hagree

theorem sim_exit (hc : Compiled dbg x program lowered blocks) (h : Sim program blocks pc s m)
    (hstep : s.step x = .stop s') (hok : ∃ v, s'.vm.programResult = .ok v) :
    AtRet blocks.flatten m ∧ Agree s'.regs m := by
  have hinsn := getElem?_eq_getElem (hc.pc_lt_of_succeeds h.pc_eq h.pc_le (by rw [hstep]; exact hok))
  obtain ⟨s₁, hexec, hregs, hpc₁, hdepth, himm⟩ := hc.fetch h.pc_eq hinsn
  obtain ⟨J, hJ, hlow, hm⟩ := hc.lowered_at hinsn
  rw [hexec] at hstep
  have harm := arm_of_succeeds hc.version (s := s₁) (by rw [hstep]; exact hok)
  by_cases hret : J = .ret
  · subst hret
    rw [execInsn_exit hc.version harm hlow (hdepth.trans h.depth) hc.meter] at hstep
    obtain rfl := StepResult.stop.inj hstep
    refine ⟨atRet_of_linked hc.linked hJ h.rip, ?_⟩
    have : s₁.regs = s.regs := hregs
    intro i
    exact (h.agree i).trans (congrFun this i).symm
  · obtain ⟨w64, hsize, s₂, hs₂, -⟩ := lowered_insn hc.version (hpc₁.trans h.pc_eq) himm harm hlow hm hret
    rw [hs₂] at hstep
    cases hstep

theorem sim_steps (hc : Compiled dbg x program lowered blocks) (hno : ∀ insn ∈ program, ¬ IsAddSub32 insn.opc)
    (hsteps : Interpreter.Steps x s s') (h : Sim program blocks pc s m) :
    ∃ pc' m', Steps undef blocks.flatten m m' ∧ Sim program blocks pc' s' m' ∧ m'.regs rsp = m.regs rsp := by
  induction hsteps generalizing pc m with
  | refl => exact ⟨pc, m, .refl m, h, rfl⟩
  | step hstep _ ih =>
    obtain ⟨pc₁, m₁, hsteps₁, h₁, hrsp₁⟩ := sim_step hc hno h hstep
    obtain ⟨pc₂, m₂, hsteps₂, h₂, hrsp₂⟩ := ih h₁
    exact ⟨pc₂, m₂, hsteps₁.trans hsteps₂, h₂, hrsp₂.trans hrsp₁⟩

end

/-- Whenever the interpreter exits, the compiled code reaches `ret` with the same registers
and the initial stack pointer. -/
theorem compileSbpf_correct {dbg : Bool} {x : Executable C} {program : List Insn} {code : List Byte}
    (hv : x.sbpfVersion = .v3) (hmeter : x.config.enableInstructionMeter = false)
    (hdec : decodeText dbg x.text.bytes = some program) (hno : ∀ insn ∈ program, ¬ IsAddSub32 insn.opc)
    (hcode : JitCompilerModel.compileSbpf dbg program = .ok code)
    {s s' : Interpreter C} (hpc : s.pc = 0) (hdepth : s.vm.callDepth = 0) (hexits : Interpreter.Exits x s s')
    (undef : State → Bool) {m : State} (hrip : m.rip = 0)
    (hregs : ∀ i : Fin 11, m.regs (hostReg i).num = s.reg i.castSucc) :
    ∃ m', Steps undef code m m' ∧ AtRet code m' ∧
      (∀ i : Fin 11, m'.regs (hostReg i).num = s'.reg i.castSucc) ∧ m'.regs rsp = m.regs rsp := by
  obtain ⟨lowered, blocks, hc, rfl⟩ := compiled_of_compileSbpf hv hmeter hdec hcode
  have hsim : Sim program blocks 0 s m := ⟨hpc, Nat.zero_le _, hdepth, hregs, hrip⟩
  obtain ⟨sₙ, hsteps, hstop, hok⟩ := hexits
  obtain ⟨pc', m', hsteps', hsim', hrsp⟩ : ∃ pc' m', Steps undef blocks.flatten m m' ∧ _ :=
    sim_steps hc hno hsteps hsim
  obtain ⟨hret, hagree⟩ := sim_exit hc hsim' hstop hok
  exact ⟨m', hsteps', hret, hagree, hrsp⟩

/-! ## Runs of small programs -/

def bareExecutable (text : Text) : Executable Unit where
  sbpfVersion := .v3
  config := { maxCallDepth := 64, stackFrameSize := 4096, enableStackFrameGaps := false,
              enableInstructionMeter := false, enableRegisterTracing := false }
  text := text
  programVmAddr := 0
  functionRegistry _ := none
  builtins _ := none
  load _ _ a := .error (.accessViolation a 0)
  store _ _ _ a := .error (.accessViolation a 0)

def bareInterpreter (v : BitVec 64) : Interpreter Unit where
  vm := { callDepth := 0, previousInstructionMeter := 0, dueInsnCount := 0, registers := fun _ => 0,
          programResult := .ok 0, registerTrace := [], context := () }
  callFrames := []
  reg j := if j.val = 0 then v else 0

def bareMachine (v : BitVec 64) : State where
  rip := 0
  regs n := if n = 0 then v else 0
  flags := { cf := false, zf := false, sf := false, of := false }
  mem _ := 0

theorem bareMachine_agree (v : BitVec 64) (i : Fin 11) :
    (bareMachine v).regs (hostReg i).num = (bareInterpreter v).reg i.castSucc := by
  have h : ∀ i : Fin 11, (hostReg i).num = 0 ↔ i.castSucc.val = 0 := by decide
  simp only [bareMachine, bareInterpreter, h]

/-- `r1 = 2; r0 <<= r1; exit`, whose shift goes through `rcx` and the stack. -/
def shiftText : Text :=
  ⟨[0xb7, 1, 0, 0, 2, 0, 0, 0, 0x6f, 0x10, 0, 0, 0, 0, 0, 0, 0x95, 0, 0, 0, 0, 0, 0, 0], by decide⟩

theorem compileSbpf_correct_shift :
    ∃ s' m', Interpreter.Exits (bareExecutable shiftText) (bareInterpreter 5) s' ∧
      Steps (fun _ => false) [190, 2, 0, 0, 0, 81, 72, 137, 241, 72, 211, 224, 89, 195] (bareMachine 5) m' ∧
      AtRet [190, 2, 0, 0, 0, 81, 72, 137, 241, 72, 211, 224, 89, 195] m' ∧
      (∀ i : Fin 11, m'.regs (hostReg i).num = s'.reg i.castSucc) ∧
      m'.regs rsp = (bareMachine 5).regs rsp := by
  have hexits : ∃ s', Interpreter.Exits (bareExecutable shiftText) (bareInterpreter 5) s' :=
    ⟨_, _, .step rfl (.step rfl (.refl _)), rfl, _, rfl⟩
  obtain ⟨s', hs'⟩ := hexits
  have hdec : decodeText true (bareExecutable shiftText).text.bytes = some [_, _, _] := rfl
  obtain ⟨m', hm'⟩ := compileSbpf_correct rfl rfl hdec (by unfold IsAddSub32; decide) rfl rfl rfl hs'
    (fun _ => false) rfl (bareMachine_agree 5)
  exact ⟨s', m', hs', hm'⟩

/-! ## 32-bit additions and subtractions -/

open Ebpf in
def addSub32 (insn : Insn) (r : Regs) : BitVec 32 :=
  let x := (r.get insn.dst.toNat).setWidth 32
  let y := (if insn.opc = add32Reg ∨ insn.opc = sub32Reg then r.get insn.src.toNat else insn.imm).setWidth 32
  if insn.opc = add32Imm ∨ insn.opc = add32Reg then x + y else x - y

theorem lower_alu32 {op : AluOperation} {register : Bool} (pc : Nat)
    (hopc : insn.opc = opcodeOf (aluClass false) op.toByte register) :
    lowerSbpfInstruction pc insn = .ok (if register then .aluRegister .s32 op insn.src.toNat insn.dst.toNat
      else .aluImmediate .s32 op insn.dst.toNat insn.imm) := by
  have hfacts : insn.opc &&& Ebpf.bpfClsMask = Ebpf.bpfAlu32Load ∧ insn.opc &&& Ebpf.bpfAluOpMask ≠ Ebpf.bpfMov ∧
      aluOperationOf (insn.opc &&& Ebpf.bpfAluOpMask) = some op ∧ (insn.opc &&& Ebpf.bpfX != 0) = register := by
    rw [hopc]
    cases op <;> cases register <;> decide
  obtain ⟨hcls, hmov, hop, hx⟩ := hfacts
  simp only [lowerSbpfInstruction, lowerAluInstruction, hcls, if_true, if_neg hmov, hop, hx]
  cases register <;> rfl

theorem isAddSub32_iff {opc : Byte} (h : IsAddSub32 opc) :
    ∃ op register, opc = opcodeOf (aluClass false) (AluOperation.toByte op) register ∧
      (op = .add ∨ op = .subtract) ∧ (register = true ↔ opc = Ebpf.add32Reg ∨ opc = Ebpf.sub32Reg) ∧
      (op = .add ↔ opc = Ebpf.add32Imm ∨ opc = Ebpf.add32Reg) := by
  rcases h with rfl | rfl | rfl | rfl
  · exact ⟨.add, false, by decide⟩
  · exact ⟨.add, true, by decide⟩
  · exact ⟨.subtract, false, by decide⟩
  · exact ⟨.subtract, true, by decide⟩

theorem lowered_addSub32 {J : JitInstruction} (hlow : lowerSbpfInstruction pc insn = .ok J)
    (h : IsAddSub32 insn.opc) (r : Regs) (hm : J.Mapped) :
    (∀ w64, J.HasSize w64 ↔ w64 = false) ∧ J ≠ .ret ∧ insn.dst.toNat < 11 ∧ J.nextPc false r pc = pc + 1 ∧
      J.result false r = r.set insn.dst.toNat ((addSub32 insn r).setWidth 64) ∧
      J.interpreted false r = r.set insn.dst.toNat ((addSub32 insn r).signExtend 64) := by
  obtain ⟨op, register, hopc, hop, hreg, hadd⟩ := isAddSub32_iff h
  rw [lower_alu32 pc hopc] at hlow
  obtain rfl := Except.ok.inj hlow
  have hresult : addSub32 insn r = op.toAlu.result ((r.get insn.dst.toNat).setWidth 32)
      ((if register then r.get insn.src.toNat else insn.imm).setWidth 32) := by
    simp only [addSub32, ← hadd, ← hreg]
    rcases hop with rfl | rfl <;> rfl
  have hsize : ∀ w64, OperandSize.s32 = sizeOf64 w64 ↔ w64 = false := by decide
  rw [hresult]
  cases register <;> rcases hop with rfl | rfl
  · exact ⟨hsize, by simp, hm, rfl, rfl, rfl⟩
  · exact ⟨hsize, by simp, hm, rfl, rfl, rfl⟩
  · exact ⟨hsize, by simp, hm.2, rfl, rfl, rfl⟩
  · exact ⟨hsize, by simp, hm.2, rfl, rfl, rfl⟩

theorem setWidth_eq_signExtend_iff (x : BitVec 32) : x.setWidth 64 = x.signExtend 64 ↔ x.msb = false := by
  have hx := x.isLt
  rw [← BitVec.toInt_inj, BitVec.toInt_setWidth, BitVec.toInt_signExtend_of_le (by decide),
    BitVec.toInt_eq_msb_cond]
  simp only [Int.bmod]
  cases x.msb <;> simp <;> omega

/-- A block of a 32-bit addition or subtraction leaves the interpreter's value in the
destination exactly when bit 31 of the result is clear. -/
theorem compileSbpf_addSub32_iff {dbg : Bool} {x : Executable C} {program : List Insn} {code : List Byte}
    (hv : x.sbpfVersion = .v3) (hmeter : x.config.enableInstructionMeter = false)
    (hdec : decodeText dbg x.text.bytes = some program) (hcode : JitCompilerModel.compileSbpf dbg program = .ok code) :
    ∃ lowered blocks, Compiled dbg x program lowered blocks ∧ code = blocks.flatten ∧
      ∀ pc insn, program[pc]? = some insn → IsAddSub32 insn.opc →
        ∀ (s : Interpreter C) (m : State) (undef : State → Bool), s.pc = BitVec.ofNat 64 pc →
          m.rip = blockStart blocks pc → Agree s.regs m →
          ∃ (d : Fin 11) (s' : Interpreter C) (m' : State), d.val = insn.dst.toNat ∧ s.step x = .next s' ∧
            Steps undef code m m' ∧ m'.rip = blockStart blocks (pc + 1) ∧
            (∀ i, i ≠ d → m'.regs (hostReg i).num = s'.reg i.castSucc) ∧
            (m'.regs (hostReg d).num = s'.reg d.castSucc ↔ (addSub32 insn s.regs).msb = false) := by
  obtain ⟨lowered, blocks, hc, rfl⟩ := compiled_of_compileSbpf hv hmeter hdec hcode
  refine ⟨lowered, blocks, hc, rfl, fun pc insn hinsn hopc s m undef hpc hrip hagree => ?_⟩
  obtain ⟨J, hJ, hlow, hm⟩ := hc.lowered_at hinsn
  obtain ⟨hsize, hret, hdst, hnext, hresult, hinterp⟩ := lowered_addSub32 hlow hopc s.regs hm
  obtain ⟨m', hsteps, hrip', hagree', -⟩ : ∃ m', Steps undef blocks.flatten m m' ∧ _ :=
    block_steps hc.linked hJ ((hsize false).mpr rfl) hret hagree hrip
  obtain ⟨s₁, hexec, hregs, hpc₁, -, himm⟩ := hc.fetch hpc hinsn
  have harm : selectArm (C := C) .v3 insn.opc ≠ none := by
    obtain ⟨op, register, hop, -⟩ := isAddSub32_iff hopc
    obtain ⟨f, harm, -⟩ := selectArm_alu (C := C) false op register
    rw [hop, harm]
    exact Option.some_ne_none _
  obtain ⟨w64, hsize', s', hs', hregs', -, -⟩ :=
    lowered_insn hc.version (hpc₁.trans hpc) himm harm hlow hm hret
  obtain rfl := (hsize w64).mp hsize'
  rw [hregs, hinterp] at hregs'
  rw [hresult] at hagree'
  obtain ⟨d, hd⟩ : ∃ d : Fin 11, d.val = insn.dst.toNat := ⟨⟨insn.dst.toNat, hdst⟩, rfl⟩
  rw [← hd] at hregs' hagree'
  refine ⟨d, s', m', hd, hexec.trans hs', hsteps, by rw [hrip', hnext], fun i hi => ?_, ?_⟩
  · have hi' : i.val ≠ d.val := fun h => hi (Fin.ext h)
    rw [hagree' i, show s'.reg i.castSucc = s'.regs i from rfl, hregs', Regs.set, Regs.set, if_neg hi', if_neg hi']
  · rw [hagree' d, show s'.reg d.castSucc = s'.regs d from rfl, hregs', Regs.set, Regs.set, if_pos rfl, if_pos rfl]
    exact setWidth_eq_signExtend_iff _

/-- `r0 += 1` on 32 bits, then `exit`. -/
def add32Text : Text := ⟨[0x04, 0, 0, 0, 1, 0, 0, 0, 0x95, 0, 0, 0, 0, 0, 0, 0], by decide⟩

def add32Code : List Byte := [0x81, 0xc0, 1, 0, 0, 0, 0xc3]

/-- From `0x7fffffff` the interpreter ends with a sign-extended value in register 0 and the
code with a zero-extended one. -/
theorem add32_diverges :
    ∃ program s' m', decodeText true (bareExecutable add32Text).text.bytes = some program ∧
      JitCompilerModel.compileSbpf true program = .ok add32Code ∧
      Interpreter.Exits (bareExecutable add32Text) (bareInterpreter 0x7fffffff) s' ∧
      Steps (fun _ => false) add32Code (bareMachine 0x7fffffff) m' ∧ AtRet add32Code m' ∧
      s'.reg 0 = 0xffffffff80000000 ∧ m'.regs (hostReg 0).num = 0x80000000 :=
  ⟨[_, _], _, _, rfl, rfl, ⟨_, .step rfl (.refl _), rfl, _, rfl⟩, .single rfl, ⟨_, _, rfl, rfl, rfl⟩, rfl, rfl⟩

theorem compileSbpf_addSub32_iff_five :
    ∃ s' m', (bareInterpreter 5).step (bareExecutable add32Text) = .next s' ∧
      Steps (fun _ => false) add32Code (bareMachine 5) m' ∧
      m'.regs (hostReg 0).num = s'.reg (0 : Fin 11).castSucc := by
  have hdec : decodeText true (bareExecutable add32Text).text.bytes = some [_, _] := rfl
  obtain ⟨lowered, blocks, -, -, h⟩ := compileSbpf_addSub32_iff rfl rfl hdec (rfl : _ = Except.ok add32Code)
  obtain ⟨d, s', m', hd, hstep, hsteps, -, -, hiff⟩ := h 0 _ rfl (.inl rfl) (bareInterpreter 5) (bareMachine 5)
    (fun _ => false) rfl rfl (bareMachine_agree 5)
  obtain rfl : d = 0 := Fin.ext hd
  exact ⟨s', m', hstep, hsteps, hiff.mpr (by decide)⟩

end Aeneas.Sbpf
