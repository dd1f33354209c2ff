import Aeneas.Interpreter

/-!
# Runs of the interpreter

A step that goes on takes from the instruction meter, so a metered run ends. The call
depth stays below its maximum, so a run stays within the call frames.
-/

namespace Aeneas.Sbpf

variable {C : Type} {x : Executable C} {insn : Insn} {s s' s'' : Interpreter C} {pc pc' : BitVec 64}

/-! ## The built-in functions -/

/-- The context object, as far as it meters the instructions. -/
structure ContextObject (C : Type) where
  consume : C → BitVec 64 → C
  getRemaining : C → BitVec 64

/-- `BuiltinFunction::vm`, where `rust` is the logic of the function and `args` are the registers 1 to 5. -/
def builtinVm (o : ContextObject C) (enableInsnMeter : Bool) (rust : C → (args : Fin 5 → BitVec 64) → ProgramResult × C)
    (vm : EbpfVm C) : EbpfVm C :=
  let usedCus := vm.previousInstructionMeter - vm.dueInsnCount
  let context := if enableInsnMeter then o.consume vm.context usedCus else vm.context
  let (programResult, context) := rust context fun i => vm.registers ⟨i + 1, by omega⟩
  let meter := if enableInsnMeter then o.getRemaining context else vm.previousInstructionMeter
  { vm with programResult, context, previousInstructionMeter := meter }

def Executable.KeepsDepth (x : Executable C) : Prop :=
  ∀ ⦃k f⦄, x.builtins k = some f → ∀ vm, (f vm).callDepth = vm.callDepth

/-- The machine has the meter of the context. -/
def EbpfVm.Synced (o : ContextObject C) (vm : EbpfVm C) :
    Prop := o.getRemaining vm.context = vm.previousInstructionMeter

/-- The built-in functions, which are given the rest of the meter as the count, leave no more of it than that,
and the stores do not touch it. -/
structure Executable.KeepsMeter (o : ContextObject C) (x : Executable C) : Prop where
  builtins : ∀ {k f}, x.builtins k = some f → ∀ vm, vm.Synced o → vm.dueInsnCount ≤ vm.previousInstructionMeter →
    (f vm).Synced o ∧ (f vm).previousInstructionMeter ≤ vm.dueInsnCount
  store : ∀ {c c' len v addr}, x.store c len v addr = .ok c' → o.getRemaining c' = o.getRemaining c

/-- The wrapper keeps the meter, if the logic of the function does not give back any of it. -/
theorem builtinVm_keepsMeter {o : ContextObject C} {rust : C → (Fin 5 → BitVec 64) → ProgramResult × C}
    (hconsume : ∀ c n, n ≤ o.getRemaining c → o.getRemaining (o.consume c n) ≤ o.getRemaining c - n)
    (hrust : ∀ c args, o.getRemaining (rust c args).2 ≤ o.getRemaining c) {vm : EbpfVm C} (hsynced : vm.Synced o)
    (hdue : vm.dueInsnCount ≤ vm.previousInstructionMeter) :
    (builtinVm o true rust vm).Synced o ∧ (builtinVm o true rust vm).previousInstructionMeter ≤ vm.dueInsnCount := by
  refine ⟨rfl, BitVec.le_trans (hrust _ _) ?_⟩
  have hused : vm.previousInstructionMeter - vm.dueInsnCount ≤ o.getRemaining vm.context := by
    rw [hsynced]
    bv_omega
  refine BitVec.le_trans (hconsume _ _ hused) ?_
  rw [hsynced]
  bv_omega

namespace Interpreter

def remaining (s : Interpreter C) : Nat := s.vm.previousInstructionMeter.toNat - s.vm.dueInsnCount.toNat

def Metered (o : ContextObject C) (s : Interpreter C) : Prop :=
  s.vm.Synced o ∧ s.vm.dueInsnCount.toNat ≤ s.vm.previousInstructionMeter.toNat

/-- The depth is below the maximum, up to which there are frames. -/
def Framed (x : Executable C) (s : Interpreter C) : Prop :=
  s.vm.callDepth.toNat < x.config.maxCallDepth ∧ x.config.maxCallDepth ≤ s.callFrames.length

/-- `n` steps of `while interpreter.step() {}`. -/
def run (x : Executable C) : Nat → Interpreter C → StepResult C
  | 0, s => .next s
  | n + 1, s => match s.step x with
    | .next s => run x n s
    | r => r

/-- The state up to the registers and the trace. -/
def core (s : Interpreter C) : List CallFrame × BitVec 64 × BitVec 64 × BitVec 64 × C :=
  (s.callFrames, s.vm.callDepth, s.vm.previousInstructionMeter, s.vm.dueInsnCount, s.vm.context)

end Interpreter

open Interpreter

variable {o : ContextObject C}

structure Keeps (o : ContextObject C) (x : Executable C) (s s' : Interpreter C) : Prop where
  framed : x.KeepsDepth → Framed x s → Framed x s'
  metered : x.KeepsMeter o → Metered o s → Metered o s' ∧ s'.remaining ≤ s.remaining

theorem Keeps.trans (h : Keeps o x s s') (h' : Keeps o x s' s'') : Keeps o x s s'' where
  framed hx hs := h'.framed hx (h.framed hx hs)
  metered hx hs := by
    obtain ⟨hs', hle⟩ := h.metered hx hs
    obtain ⟨hs'', hle'⟩ := h'.metered hx hs'
    exact ⟨hs'', hle'.trans hle⟩

attribute [local grind] core setReg Framed Metered EbpfVm.Synced remaining

theorem keeps_of_core (h : s'.core = s.core) : Keeps o x s s' := by constructor <;> grind

/-! ## The bodies of the arms -/

def Kept (o : ContextObject C) (x : Executable C) (body : Body C) : Prop :=
  ∀ ⦃insn s pc s' pc'⦄, body x insn s pc = .done s' pc' → Keeps o x s s'

section
attribute [local grind] Kept
attribute [local grind .] keeps_of_core
variable (f : SBPFVersion → BitVec 64 → BitVec 64 → BitVec 64) (c : BitVec 64 → BitVec 64 → Bool)
  (g : BitVec 64 → BitVec 64 → Division) (len : Nat)

theorem kept_aluImm : Kept o x (aluImm f) := by grind [aluImm]

theorem kept_aluReg : Kept o x (aluReg f) := by grind [aluReg]

theorem kept_divImm : Kept o x (divImm g) := by
  unfold divImm divide
  grind

theorem kept_divReg : Kept o x (divReg g) := by
  unfold divReg divide
  grind

theorem kept_jumpImm : Kept o x (jumpImm c) := by grind [jumpImm]

theorem kept_jumpReg : Kept o x (jumpReg c) := by grind [jumpReg]

theorem kept_loadReg : Kept o x (loadReg len) := by grind [loadReg]

theorem storeValue_keeps {value : Option (BitVec 64)} (h : storeValue len value x insn s pc = .done s' pc') :
    Keeps o x s s' := by
  unfold storeValue at h
  constructor <;> grind [Executable.KeepsMeter.store]

theorem kept_storeImm : Kept o x (storeImm len) := fun _ _ _ _ _ h => storeValue_keeps len h

theorem kept_storeReg : Kept o x (storeReg len) := fun _ _ _ _ _ h => storeValue_keeps len h

theorem kept_endian (convert : Nat → BitVec 64 → BitVec 64) : Kept o x (endian convert) := by grind [endian, aluImm]

theorem kept_lddw : Kept o x lddw := by grind [lddw]

theorem kept_ja : Kept o x fun _ insn s pc => .done s (branchTo insn pc) := by grind

theorem pushFrame_keeps (h : pushFrame x s = .done s' pc) : Keeps o x s s' := by
  have hdepth : (s.vm.callDepth + 1).toNat ≤ s.vm.callDepth.toNat + 1 := by
    rw [BitVec.toNat_add]
    exact Nat.mod_le _ _
  unfold pushFrame at h
  constructor <;> grind

theorem pushFrameThen_keeps {target : Interpreter C → ArmResult C}
    (htarget : ∀ ⦃s s' pc⦄, target s = .done s' pc → s' = s) (h : pushFrameThen x s target = .done s' pc) :
    Keeps o x s s' := by
  unfold pushFrameThen at h
  grind [pushFrame_keeps]

theorem kept_callReg : Kept o x callReg := by
  unfold callReg
  grind [pushFrameThen_keeps, checkPc]

theorem kept_callInternal (resolved : Bool) : Kept o x (callInternal resolved) := by
  unfold callInternal
  grind [pushFrameThen_keeps, checkPc]

theorem pop_lt {depth : BitVec 64} (h : depth ≠ 0) : (depth - 1).toNat < depth.toNat := by bv_omega

theorem kept_exitBody : Kept o x exitBody := by
  intro insn s pc s' pc' h
  unfold exitBody at h
  constructor <;> grind [pop_lt]

end

theorem dispatchSyscall_keeps {k : BitVec 32} {f : EbpfVm C → EbpfVm C} (hf : x.builtins k = some f)
    (value : BitVec 64) :
    Keeps o x s ((dispatchSyscall f s).setReg 0 value) where
  framed hx hs := ⟨(congrArg BitVec.toNat (hx hf _)).trans_lt hs.1, hs.2⟩
  metered hx hs := by
    have hrest := BitVec.toNat_sub_of_le (BitVec.le_def.mpr hs.2)
    obtain ⟨hsynced, hle⟩ := hx.builtins hf { s.vm with
      dueInsnCount := s.vm.previousInstructionMeter - s.vm.dueInsnCount
      registers := fun j => if j.val < 6 then s.reg j else s.vm.registers j } hs.1
      (BitVec.le_def.mpr (hrest.trans_le (Nat.sub_le _ _)))
    exact ⟨⟨hsynced, Nat.zero_le _⟩, (BitVec.le_def.mp hle).trans hrest.le⟩

theorem kept_callImm : Kept o x callImm := by
  intro insn s pc s' pc' h
  unfold callImm at h
  split at h
  · split at h
    · rename_i hf
      simp only at h
      split at h
      · exact (dispatchSyscall_keeps hf _).trans (kept_callInternal true h)
      · cases h
    · exact kept_callInternal false h
  · exact kept_callInternal false h

theorem kept_arms : ∀ arm ∈ arms, Kept o x arm.body := by
  simp only [arms, ldxAndStArms, alu32Arms, alu64Arms, pqrArms, jmp32Arms, jmp64Arms, List.forall_mem_append,
    List.forall_mem_cons, List.not_mem_nil, kept_aluImm, kept_aluReg, kept_divImm, kept_divReg, kept_jumpImm,
      kept_jumpReg,
    kept_loadReg, kept_storeImm, kept_storeReg, kept_endian, kept_lddw, kept_ja, kept_callReg, kept_callImm,
    kept_exitBody, and_self, implies_true, IsEmpty.forall_iff]

theorem execInsn_keeps (h : execInsn x insn s = .next s') : Keeps o x s s' := by
  unfold execInsn at h
  simp only at h
  split at h
  · rename_i s₁ pc₁ hbody
    cases h
    refine Keeps.trans ?_ (keeps_of_core (s := s₁) rfl)
    split at hbody
    · rename_i body hselect
      obtain ⟨arm, harm, rfl⟩ := Option.map_eq_some_iff.mp hselect
      exact kept_arms arm (List.mem_of_find?_eq_some harm) hbody
    · cases hbody
  · cases h
  · cases h

theorem step_keeps (h : s.step x = .next s') : (x.KeepsDepth → Framed x s → Framed x s') ∧
    (x.KeepsMeter o → x.config.enableInstructionMeter = true → s.vm.Synced o →
      s'.vm.Synced o ∧ s'.remaining < s.remaining) := by
  have htrace : ∀ s : Interpreter C, (traceRegisters x s).core = s.core := by
    intro s
    unfold traceRegisters
    split <;> rfl
  unfold Interpreter.step at h
  split at h
  · cases h
  · rename_i hmeter
    simp only at h
    split at h
    · cases h
    · split at h
      · cases h
      · have hkeeps : Keeps o x _ s' := (keeps_of_core (htrace _)).trans (execInsn_keeps h)
        refine ⟨hkeeps.framed, fun hx henabled hsynced => ?_⟩
        have hlt : s.vm.dueInsnCount.toNat < s.vm.previousInstructionMeter.toNat := by
          simpa [meterExceeded, henabled] using hmeter
        have hcount : (s.vm.dueInsnCount + 1).toNat = s.vm.dueInsnCount.toNat + 1 := by bv_omega
        obtain ⟨hmetered, hle⟩ := hkeeps.metered hx ⟨hsynced, hcount.trans_le hlt⟩
        refine ⟨hmetered.1, ?_⟩
        simp only [Interpreter.remaining, hcount] at hle ⊢
        omega

/-! ## Runs -/

/-- Each step that goes on takes from the meter. -/
theorem run_remaining (hx : x.KeepsMeter o) (hmeter : x.config.enableInstructionMeter = true) (hs : s.vm.Synced o)
    {n : Nat} (h : s.run x n = .next s') : n + s'.remaining ≤ s.remaining := by
  induction n generalizing s with
  | zero =>
    cases h
    omega
  | succ n ih =>
    rw [run] at h
    split at h
    · rename_i hstep
      obtain ⟨hsynced, hlt⟩ := (step_keeps hstep).2 hx hmeter hs
      have hrest := ih hsynced h
      omega
    · rename_i hstep
      exact absurd h (hstep s')

/-- The frames of the calls and of the returns are there. -/
theorem run_framed (hx : x.KeepsDepth) (hs : Framed x s) {n : Nat} (h : s.run x n = .next s') :
    Framed x s' ∧ pushFrame x s' ≠ .panic ∧ ∀ insn pc, exitBody x insn s' pc ≠ .panic := by
  induction n generalizing s with
  | zero =>
    cases h
    refine ⟨hs, by grind [pushFrame], fun insn pc => ?_⟩
    unfold exitBody
    grind [pop_lt]
  | succ n ih =>
    rw [run] at h
    split at h
    · rename_i hstep
      exact ih ((step_keeps (o := ⟨fun c _ => c, fun _ => 0⟩) hstep).1 hx hs) h
    · rename_i hstep
      exact absurd h (hstep s')

/-- The context is the meter. -/
def meterObject : ContextObject (BitVec 64) := ⟨fun c n => c - n, id⟩

/-- A built-in function that takes a unit from the meter, if there is one. -/
def tick : EbpfVm (BitVec 64) → EbpfVm (BitVec 64) :=
  builtinVm meterObject true fun c _ => (.ok 0, if c = 0 then 0 else c - 1)

/-- `call 7; ja -2`, where 7 is the built-in function. -/
def loopExecutable : Executable (BitVec 64) where
  sbpfVersion := .v3
  config := { maxCallDepth := 64, stackFrameSize := 4096, enableStackFrameGaps := false,
              enableInstructionMeter := true, enableRegisterTracing := false }
  text := ⟨[0x85, 0, 0, 0, 7, 0, 0, 0, 0x05, 0, 0xfe, 0xff, 0, 0, 0, 0], by decide⟩
  programVmAddr := 0
  functionRegistry _ := none
  builtins k := if k = 7 then some tick else none
  load _ _ a := .error (.accessViolation a 0)
  store _ _ _ a := .error (.accessViolation a 0)

theorem loopExecutable_builtin {k : BitVec 32} {f : EbpfVm (BitVec 64) → EbpfVm (BitVec 64)}
    (h : loopExecutable.builtins k = some f) : f = tick := by
  simp only [loopExecutable] at h
  split at h
  · exact (Option.some.inj h).symm
  · cases h

def loopStart : Interpreter (BitVec 64) where
  vm := { callDepth := 0, previousInstructionMeter := 9, dueInsnCount := 0, registers := fun _ => 0,
          programResult := .ok 0, registerTrace := [], context := 9 }
  callFrames := List.replicate 64 ⟨fun _ => 0, 0, 0⟩
  reg _ := 0

theorem loopExecutable_keepsMeter : loopExecutable.KeepsMeter meterObject where
  builtins h _ hsynced hdue := by
    cases loopExecutable_builtin h
    refine builtinVm_keepsMeter (fun c n _ => BitVec.le_refl (c - n)) (fun c _ => ?_) hsynced hdue
    simp only [meterObject, id]
    split <;> bv_omega
  store h := by cases h

/-- Two of the units are for the built-in function, which is called twice. -/
theorem run_remaining_loop : ∃ s', loopStart.run loopExecutable 4 = .next s' ∧ s'.remaining = 3 ∧
    4 + s'.remaining ≤ loopStart.remaining :=
  ⟨_, rfl, rfl, run_remaining loopExecutable_keepsMeter rfl (s := loopStart) (by rfl) rfl⟩

theorem run_framed_loop : ∃ s', loopStart.run loopExecutable 4 = .next s' ∧ pushFrame loopExecutable s' ≠ .panic := by
  have hdepth : loopExecutable.KeepsDepth := by
    intro k f h vm
    cases loopExecutable_builtin h
    rfl
  exact ⟨_, rfl, (run_framed hdepth (s := loopStart) (by unfold Framed; decide) (n := 4) rfl).2.1⟩

end Aeneas.Sbpf
