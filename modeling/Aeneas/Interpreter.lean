import Aeneas.Ebpf

/-!
# The sBPF interpreter

`Interpreter::step` of `interpreter.rs`. A step looks the opcode up in `arms`, the
match of the source written as a table: an arm applies when its opcode is the
instruction's and its version guard holds, and the first one that applies runs.
Guest memory and built-in functions are parameters of the executable.
-/

namespace Aeneas.Sbpf

open Ebpf

inductive EbpfError
  | callDepthExceeded | divideByZero | divideOverflow | executionOverrun
  | callOutsideTextSegment | exceededMaxInstructions | invalidInstruction | unsupportedInstruction
  | accessViolation (vmAddr len : BitVec 64) | syscallError
  deriving DecidableEq, Repr

abbrev ProgramResult := Except EbpfError (BitVec 64)

structure CallFrame where
  callerSavedRegisters : Fin 4 → BitVec 64
  framePointer : BitVec 64
  targetPc : BitVec 64

structure Config where
  maxCallDepth : Nat
  stackFrameSize : Nat
  enableStackFrameGaps : Bool
  enableInstructionMeter : Bool
  enableRegisterTracing : Bool

abbrev Registers := Fin 12 → BitVec 64

/-- `C` is the guest memory together with the context object. -/
structure EbpfVm (C : Type) where
  callDepth : BitVec 64
  previousInstructionMeter : BitVec 64
  dueInsnCount : BitVec 64
  registers : Registers
  programResult : ProgramResult
  registerTrace : List Registers
  context : C

structure Executable (C : Type) where
  sbpfVersion : SBPFVersion
  config : Config
  text : Text
  programVmAddr : BitVec 64
  functionRegistry : BitVec 32 → Option Nat
  /-- The loader's built-in functions; each gets the whole machine. -/
  builtins : BitVec 32 → Option (EbpfVm C → EbpfVm C)
  /-- `MemoryMapping::load` of `len` bytes at an address. -/
  load : C → Nat → BitVec 64 → Except EbpfError (BitVec 64)
  /-- `MemoryMapping::store` of the low `len` bytes of a value at an address. -/
  store : C → Nat → BitVec 64 → BitVec 64 → Except EbpfError C

structure Interpreter (C : Type) where
  vm : EbpfVm C
  callFrames : List CallFrame
  /-- General purpose registers and pc. -/
  reg : Registers

/-- How one step ends: `step` returns true, it returns false, or it panics. -/
inductive StepResult (C : Type)
  | next (s : Interpreter C)
  | stop (s : Interpreter C)
  | panic

/-- How the body of an arm ends: normally, with the `next_pc` it leaves, or by leaving `step`. -/
inductive ArmResult (C : Type)
  | done (s : Interpreter C) (nextPc : BitVec 64)
  | stop (s : Interpreter C)
  | panic

variable {C : Type}

namespace Interpreter

def getReg (s : Interpreter C) (i : Nat) : Option (BitVec 64) :=
  if h : i < 12 then some (s.reg ⟨i, h⟩) else none

def setReg (s : Interpreter C) (i : Nat) (v : BitVec 64) : Interpreter C :=
  { s with reg := fun j => if j.val = i then v else s.reg j }

def pc (s : Interpreter C) : BitVec 64 := s.reg 11

def throwErr (s : Interpreter C) (err : EbpfError) : Interpreter C :=
  { s with vm := { s.vm with registers := fun j => if j = 11 then s.pc else s.vm.registers j,
                             programResult := .error err } }

end Interpreter

/-! ## Bodies of the arms -/

abbrev Body (C : Type) := Executable C → Insn → Interpreter C → BitVec 64 → ArmResult C

/-- `self.reg[dst] = f(self.reg[dst], insn.imm)`. -/
def aluImm (f : SBPFVersion → BitVec 64 → BitVec 64 → BitVec 64) : Body C := fun x insn s nextPc =>
  match s.getReg insn.dst.toNat with
  | some d => .done (s.setReg insn.dst.toNat (f x.sbpfVersion d insn.imm)) nextPc
  | none => .panic

/-- `self.reg[dst] = f(self.reg[dst], self.reg[src])`. -/
def aluReg (f : SBPFVersion → BitVec 64 → BitVec 64 → BitVec 64) : Body C := fun x insn s nextPc =>
  match s.getReg insn.src.toNat, s.getReg insn.dst.toNat with
  | some v, some d => .done (s.setReg insn.dst.toNat (f x.sbpfVersion d v)) nextPc
  | _, _ => .panic

/-- A body that divides: `f` says how the division ends. -/
inductive Division
  | value (v : BitVec 64)
  | error (err : EbpfError)
  | panic

def divide (f : BitVec 64 → BitVec 64 → Division) (operand : Option (BitVec 64)) : Body C :=
  fun _ insn s nextPc =>
    match operand, s.getReg insn.dst.toNat with
    | some v, some d =>
      match f d v with
      | .value r => .done (s.setReg insn.dst.toNat r) nextPc
      | .error err => .stop (s.throwErr err)
      | .panic => .panic
    | _, _ => .panic

def divImm (f : BitVec 64 → BitVec 64 → Division) : Body C := fun x insn s nextPc =>
  divide f (some insn.imm) x insn s nextPc

def divReg (f : BitVec 64 → BitVec 64 → Division) : Body C := fun x insn s nextPc =>
  divide f (s.getReg insn.src.toNat) x insn s nextPc

/-- `next_pc = (next_pc as i64 + insn.off as i64) as u64`. -/
def branchTo (insn : Insn) (nextPc : BitVec 64) : BitVec 64 := nextPc + insn.off.signExtend 64

def jumpImm (c : BitVec 64 → BitVec 64 → Bool) : Body C := fun _ insn s nextPc =>
  match s.getReg insn.dst.toNat with
  | some d => .done s (if c d insn.imm then branchTo insn nextPc else nextPc)
  | none => .panic

def jumpReg (c : BitVec 64 → BitVec 64 → Bool) : Body C := fun _ insn s nextPc =>
  match s.getReg insn.dst.toNat, s.getReg insn.src.toNat with
  | some d, some v => .done s (if c d v then branchTo insn nextPc else nextPc)
  | _, _ => .panic

def vmAddr (base : BitVec 64) (insn : Insn) : BitVec 64 := base + insn.off.signExtend 64

def loadReg (len : Nat) : Body C := fun x insn s nextPc =>
  match s.getReg insn.src.toNat with
  | none => .panic
  | some base =>
    match x.load s.vm.context len (vmAddr base insn) with
    | .error err => .stop (s.throwErr err)
    | .ok v =>
      if insn.dst.toNat < 12 then .done (s.setReg insn.dst.toNat v) nextPc else .panic

def storeValue (len : Nat) (value : Option (BitVec 64)) : Body C := fun x insn s nextPc =>
  match s.getReg insn.dst.toNat, value with
  | some base, some v =>
    match x.store s.vm.context len v (vmAddr base insn) with
    | .error err => .stop (s.throwErr err)
    | .ok context => .done { s with vm := { s.vm with context } } nextPc
  | _, _ => .panic

def storeImm (len : Nat) : Body C := fun x insn s nextPc => storeValue len (some insn.imm) x insn s nextPc

def storeReg (len : Nat) : Body C := fun x insn s nextPc =>
  storeValue len (s.getReg insn.src.toNat) x insn s nextPc

section
variable (f : BitVec 32 → BitVec 32 → BitVec 32)

def u32 (_ : SBPFVersion) (d v : BitVec 64) : BitVec 64 :=
  (f (d.setWidth 32) (v.setWidth 32)).setWidth 64

/-- `sign_extension`: version 2 zero-extends 32-bit results, the others sign-extend them. -/
def signExtension (version : SBPFVersion) (value : BitVec 32) : BitVec 64 :=
  if version.explicitSignExtensionOfResults then value.setWidth 64 else value.signExtend 64

def i32 (version : SBPFVersion) (d v : BitVec 64) : BitVec 64 :=
  signExtension version (f (d.setWidth 32) (v.setWidth 32))

end

def u64 (f : BitVec 64 → BitVec 64 → BitVec 64) (_ : SBPFVersion) (d v : BitVec 64) : BitVec 64 := f d v

section
variable {w : Nat}

/-- The `wrapping_sh*` operations mask the amount, a `u32`, to the width. -/
def wrappingShl (x : BitVec w) (n : BitVec 32) : BitVec w := x <<< (n.toNat % w)
def wrappingShr (x : BitVec w) (n : BitVec 32) : BitVec w := x >>> (n.toNat % w)
def wrappingSar (x : BitVec w) (n : BitVec 32) : BitVec w := x.sshiftRight (n.toNat % w)

end

def shl64 (d v : BitVec 64) : BitVec 64 := wrappingShl d (v.setWidth 32)
def shr64 (d v : BitVec 64) : BitVec 64 := wrappingShr d (v.setWidth 32)
def sar64 (d v : BitVec 64) : BitVec 64 := wrappingSar d (v.setWidth 32)

def subImm32 (version : SBPFVersion) (d v : BitVec 64) : BitVec 64 :=
  if version.swapSubRegImmOperands then i32 (fun d v => v - d) version d v
  else i32 (fun d v => d - v) version d v

def subImm64 (version : SBPFVersion) (d v : BitVec 64) : BitVec 64 :=
  if version.swapSubRegImmOperands then v - d else d - v

def movReg32 (version : SBPFVersion) (_ v : BitVec 64) : BitVec 64 :=
  if version.explicitSignExtensionOfResults then (v.setWidth 32).signExtend 64
  else (v.setWidth 32).setWidth 64

/-- The host division operators panic on a zero divisor. -/
def hostDivision (zero : Bool) (v : BitVec 64) : Division := if zero then .panic else .value v

def checkedDivision (zero : Bool) (v : BitVec 64) : Division :=
  if zero then .error .divideByZero else .value v

def udiv32 (d v : BitVec 64) : BitVec 64 := ((d.setWidth 32).udiv (v.setWidth 32)).setWidth 64
def urem32 (d v : BitVec 64) : BitVec 64 := ((d.setWidth 32).umod (v.setWidth 32)).setWidth 64
def sdiv32 (d v : BitVec 64) : BitVec 64 := ((d.setWidth 32).sdiv (v.setWidth 32)).setWidth 64
def srem32 (d v : BitVec 64) : BitVec 64 := ((d.setWidth 32).srem (v.setWidth 32)).setWidth 64

def isZero32 (v : BitVec 64) : Bool := v.setWidth 32 == 0#32

/-- Signed division: overflow is checked before the host operator, and zero before
that in the register forms. -/
def signedDivision (reg : Bool) (zero overflow : Bool) (v : BitVec 64) : Division :=
  if reg && zero then .error .divideByZero
  else if overflow then .error .divideOverflow
  else hostDivision zero v

def overflows32 (d v : BitVec 64) : Bool :=
  d.setWidth 32 == BitVec.intMin 32 && v.setWidth 32 == -1#32

def overflows64 (d v : BitVec 64) : Bool := d == BitVec.intMin 64 && v == -1#64

def sdivision32 (reg : Bool) (d v : BitVec 64) : Division :=
  signedDivision reg (isZero32 v) (overflows32 d v) (sdiv32 d v)
def sremainder32 (reg : Bool) (d v : BitVec 64) : Division :=
  signedDivision reg (isZero32 v) (overflows32 d v) (srem32 d v)
def sdivision64 (reg : Bool) (d v : BitVec 64) : Division :=
  signedDivision reg (v == 0) (overflows64 d v) (d.sdiv v)
def sremainder64 (reg : Bool) (d v : BitVec 64) : Division :=
  signedDivision reg (v == 0) (overflows64 d v) (d.srem v)

def mulHigh (d v : BitVec 128) : BitVec 64 := ((d * v) >>> 64).setWidth 64

/-- Byte order conversions on a little-endian host. -/
def swapBytes (n : Nat) (v : BitVec 64) : BitVec 64 :=
  BitVec.ofNat 64 (leValue (leBytes n v.toNat).reverse)

def endian (convert : Nat → BitVec 64 → BitVec 64) : Body C := fun x insn s nextPc =>
  if insn.imm = 16 then aluImm (fun _ d _ => convert 2 d) x insn s nextPc
  else if insn.imm = 32 then aluImm (fun _ d _ => convert 4 d) x insn s nextPc
  else if insn.imm = 64 then aluImm (fun _ d _ => convert 8 d) x insn s nextPc
  else .stop (s.throwErr .invalidInstruction)

def toLe (n : Nat) (v : BitVec 64) : BitVec 64 := BitVec.ofNat 64 (leValue (leBytes n v.toNat))

def lddw : Body C := fun x insn s nextPc =>
  match augmentLddwUnchecked x.text.bytes insn with
  | none => .panic
  | some insn =>
    if insn.dst.toNat < 12 then
      let s := s.setReg insn.dst.toNat insn.imm
      .done (s.setReg 11 (s.pc + 1)) (nextPc + 1)
    else .panic

/-! ## Calls -/

def savedRegisters (s : Interpreter C) : Fin 4 → BitVec 64 := fun i => s.reg ⟨firstScratchReg + i, by
  have := i.isLt; unfold firstScratchReg; omega⟩

def pushFrame (x : Executable C) (s : Interpreter C) : ArmResult C :=
  if s.vm.callDepth.toNat < s.callFrames.length then
    let frame : CallFrame :=
      { callerSavedRegisters := savedRegisters s, framePointer := s.reg 10, targetPc := s.pc + 1 }
    let callDepth := s.vm.callDepth + 1
    let s := { s with callFrames := s.callFrames.set s.vm.callDepth.toNat frame,
                      vm := { s.vm with callDepth } }
    if callDepth.toNat = x.config.maxCallDepth then .stop (s.throwErr .callDepthExceeded)
    else if x.sbpfVersion.manualStackFrameBump then .done s 0
    else
      let numFrames := if x.sbpfVersion.stackFrameGaps && x.config.enableStackFrameGaps then 2 else 1
      let stackFrameSize := x.config.stackFrameSize * numFrames
      .done (s.setReg framePtrReg (s.reg 10 + BitVec.ofNat 64 stackFrameSize)) 0
  else .panic

def pushFrameThen (x : Executable C) (s : Interpreter C) (target : Interpreter C → ArmResult C) :
    ArmResult C :=
  match pushFrame x s with
  | .done s _ => target s
  | r => r

def checkPc (x : Executable C) (targetPc : BitVec 64) (s : Interpreter C) : ArmResult C :=
  if isPcInProgram x.text.bytes targetPc.toNat then .done s targetPc
  else .stop (s.throwErr .callOutsideTextSegment)

def callReg : Body C := fun x insn s _ =>
  let targetPc :=
    if x.sbpfVersion.callxUsesSrcReg then s.getReg insn.src.toNat
    else if x.sbpfVersion.callxUsesDstReg then s.getReg insn.dst.toNat
    else s.getReg insn.imm.toNat
  match targetPc with
  | none => .panic
  | some targetPc =>
    pushFrameThen x s (checkPc x (BitVec.udiv (targetPc - x.programVmAddr) (BitVec.ofNat 64 insnSize)))

def dispatchSyscall (f : EbpfVm C → EbpfVm C) (s : Interpreter C) : Interpreter C :=
  let vm := { s.vm with dueInsnCount := s.vm.previousInstructionMeter - s.vm.dueInsnCount,
                        registers := fun j => if j.val < 6 then s.reg j else s.vm.registers j }
  { s with vm := { f vm with dueInsnCount := 0 } }

def saturatingAdd (x y : BitVec 64) : BitVec 64 :=
  if x.toInt + y.toInt < -2 ^ 63 then BitVec.intMin 64
  else if 2 ^ 63 ≤ x.toInt + y.toInt then BitVec.intMax 64
  else x + y

/-- The internal half of `call_imm`, after the syscall half resolved the call or not. -/
def callInternal (resolved : Bool) : Body C := fun x insn s nextPc =>
  let unresolved := if resolved then .done s nextPc else .stop (s.throwErr .unsupportedInstruction)
  if x.sbpfVersion.staticSyscalls then
    let targetPc := saturatingAdd nextPc insn.imm
    if isPcInProgram x.text.bytes targetPc.toNat && insn.src == 1 then
      pushFrameThen x s fun s => .done s targetPc
    else unresolved
  else
    match x.functionRegistry (insn.imm.setWidth 32) with
    | some targetPc => pushFrameThen x s (checkPc x (BitVec.ofNat 64 targetPc))
    | none => unresolved

def callImm : Body C := fun x insn s nextPc =>
  if !x.sbpfVersion.staticSyscalls || insn.src == 0 then
    match x.builtins (insn.imm.setWidth 32) with
    | some f =>
      let s := dispatchSyscall f s
      match s.vm.programResult with
      | .ok value => callInternal true x insn (s.setReg 0 value) nextPc
      | .error _ => .stop s
    | none => callInternal false x insn s nextPc
  else callInternal false x insn s nextPc

def exitBody : Body C := fun x _ s _ =>
  if s.vm.callDepth = 0 then
    if x.config.enableInstructionMeter && s.vm.dueInsnCount > s.vm.previousInstructionMeter then
      .stop (s.throwErr .exceededMaxInstructions)
    else .stop { s with vm := { s.vm with programResult := .ok (s.reg 0) } }
  else
    let callDepth := s.vm.callDepth - 1
    match s.callFrames[callDepth.toNat]? with
    | none => .panic
    | some frame =>
      let reg : Registers := fun j =>
        if j = 10 then frame.framePointer
        else if h : 6 ≤ j.val ∧ j.val < 10 then frame.callerSavedRegisters ⟨j.val - 6, by omega⟩
        else s.reg j
      .done { s with reg, vm := { s.vm with callDepth } } frame.targetPc

/-! ## The match on the opcode -/

structure Arm (C : Type) where
  opc : Byte
  guard : SBPFVersion → Bool := fun _ => true
  body : Body C

def ldxAndStArms : List (Arm C) :=
  let notMoved := fun v : SBPFVersion => !v.moveMemoryInstructionClasses
  [ ⟨ldDwImm, fun v => !v.disableLddw, lddw⟩,
    ⟨ldBReg, notMoved, loadReg 1⟩,
    ⟨ldHReg, notMoved, loadReg 2⟩,
    ⟨ldWReg, notMoved, loadReg 4⟩,
    ⟨ldDwReg, notMoved, loadReg 8⟩,
    ⟨stBImm, notMoved, storeImm 1⟩,
    ⟨stHImm, notMoved, storeImm 2⟩,
    ⟨stWImm, notMoved, storeImm 4⟩,
    ⟨stDwImm, notMoved, storeImm 8⟩,
    ⟨stBReg, notMoved, storeReg 1⟩,
    ⟨stHReg, notMoved, storeReg 2⟩,
    ⟨stWReg, notMoved, storeReg 4⟩,
    ⟨stDwReg, notMoved, storeReg 8⟩ ]

def alu32Arms : List (Arm C) :=
  let always := fun _ : SBPFVersion => true
  let moved := SBPFVersion.moveMemoryInstructionClasses
  let noPqr := fun v : SBPFVersion => !v.enablePqr
  [ ⟨add32Imm, always, aluImm (i32 fun d v => d + v)⟩,
    ⟨add32Reg, always, aluReg (i32 fun d v => d + v)⟩,
    ⟨sub32Imm, always, aluImm subImm32⟩,
    ⟨sub32Reg, always, aluReg (i32 fun d v => d - v)⟩,
    ⟨mul32Imm, noPqr, aluImm (i32 fun d v => d * v)⟩,
    ⟨mul32Reg, noPqr, aluReg (i32 fun d v => d * v)⟩,
    ⟨ld1bReg, moved, loadReg 1⟩,
    ⟨div32Imm, noPqr, divImm fun d v => hostDivision (isZero32 v) (udiv32 d v)⟩,
    ⟨div32Reg, noPqr, divReg fun d v => checkedDivision (isZero32 v) (udiv32 d v)⟩,
    ⟨ld2bReg, moved, loadReg 2⟩,
    ⟨or32Imm, always, aluImm (u32 fun d v => d ||| v)⟩,
    ⟨or32Reg, always, aluReg (u32 fun d v => d ||| v)⟩,
    ⟨and32Imm, always, aluImm (u32 fun d v => d &&& v)⟩,
    ⟨and32Reg, always, aluReg (u32 fun d v => d &&& v)⟩,
    ⟨lsh32Imm, always, aluImm (u32 wrappingShl)⟩,
    ⟨lsh32Reg, always, aluReg (u32 wrappingShl)⟩,
    ⟨rsh32Imm, always, aluImm (u32 wrappingShr)⟩,
    ⟨rsh32Reg, always, aluReg (u32 wrappingShr)⟩,
    ⟨neg32, fun v => !v.disableNeg, aluImm (u32 fun d _ => -d)⟩,
    ⟨ld4bReg, moved, loadReg 4⟩,
    ⟨mod32Imm, noPqr, divImm fun d v => hostDivision (isZero32 v) (urem32 d v)⟩,
    ⟨mod32Reg, noPqr, divReg fun d v => checkedDivision (isZero32 v) (urem32 d v)⟩,
    ⟨ld8bReg, moved, loadReg 8⟩,
    ⟨xor32Imm, always, aluImm (u32 fun d v => d ^^^ v)⟩,
    ⟨xor32Reg, always, aluReg (u32 fun d v => d ^^^ v)⟩,
    ⟨mov32Imm, always, aluImm (u32 fun _ v => v)⟩,
    ⟨mov32Reg, always, aluReg movReg32⟩,
    ⟨arsh32Imm, always, aluImm (u32 wrappingSar)⟩,
    ⟨arsh32Reg, always, aluReg (u32 wrappingSar)⟩,
    ⟨le, fun v => !v.disableLe, endian toLe⟩,
    ⟨be, always, endian swapBytes⟩ ]

def alu64Arms : List (Arm C) :=
  let always := fun _ : SBPFVersion => true
  let moved := SBPFVersion.moveMemoryInstructionClasses
  let noPqr := fun v : SBPFVersion => !v.enablePqr
  [ ⟨add64Imm, always, aluImm (u64 fun d v => d + v)⟩,
    ⟨add64Reg, always, aluReg (u64 fun d v => d + v)⟩,
    ⟨sub64Imm, always, aluImm subImm64⟩,
    ⟨sub64Reg, always, aluReg (u64 fun d v => d - v)⟩,
    ⟨mul64Imm, noPqr, aluImm (u64 fun d v => d * v)⟩,
    ⟨st1bImm, moved, storeImm 1⟩,
    ⟨mul64Reg, noPqr, aluReg (u64 fun d v => d * v)⟩,
    ⟨st1bReg, moved, storeReg 1⟩,
    ⟨div64Imm, noPqr, divImm fun d v => hostDivision (v == 0) (d.udiv v)⟩,
    ⟨st2bImm, moved, storeImm 2⟩,
    ⟨div64Reg, noPqr, divReg fun d v => checkedDivision (v == 0) (d.udiv v)⟩,
    ⟨st2bReg, moved, storeReg 2⟩,
    ⟨or64Imm, always, aluImm (u64 fun d v => d ||| v)⟩,
    ⟨or64Reg, always, aluReg (u64 fun d v => d ||| v)⟩,
    ⟨and64Imm, always, aluImm (u64 fun d v => d &&& v)⟩,
    ⟨and64Reg, always, aluReg (u64 fun d v => d &&& v)⟩,
    ⟨lsh64Imm, always, aluImm (u64 shl64)⟩,
    ⟨lsh64Reg, always, aluReg (u64 shl64)⟩,
    ⟨rsh64Imm, always, aluImm (u64 shr64)⟩,
    ⟨rsh64Reg, always, aluReg (u64 shr64)⟩,
    ⟨st4bImm, moved, storeImm 4⟩,
    ⟨neg64, fun v => !v.disableNeg, aluImm (u64 fun d _ => -d)⟩,
    ⟨st4bReg, moved, storeReg 4⟩,
    ⟨mod64Imm, noPqr, divImm fun d v => hostDivision (v == 0) (d.umod v)⟩,
    ⟨st8bImm, moved, storeImm 8⟩,
    ⟨mod64Reg, noPqr, divReg fun d v => checkedDivision (v == 0) (d.umod v)⟩,
    ⟨st8bReg, moved, storeReg 8⟩,
    ⟨xor64Imm, always, aluImm (u64 fun d v => d ^^^ v)⟩,
    ⟨xor64Reg, always, aluReg (u64 fun d v => d ^^^ v)⟩,
    ⟨mov64Imm, always, aluImm (u64 fun _ v => v)⟩,
    ⟨mov64Reg, always, aluReg (u64 fun _ v => v)⟩,
    ⟨arsh64Imm, always, aluImm (u64 sar64)⟩,
    ⟨arsh64Reg, always, aluReg (u64 sar64)⟩,
    ⟨hor64Imm, SBPFVersion.disableLddw, aluImm (u64 fun d v => d ||| v <<< 32)⟩ ]

def pqrArms : List (Arm C) :=
  let pqr := SBPFVersion.enablePqr
  let low := fun v : BitVec 64 => (v.setWidth 32).setWidth 64
  [ ⟨lmul32Imm, pqr, aluImm (u32 fun d v => d * v)⟩,
    ⟨lmul32Reg, pqr, aluReg (u32 fun d v => d * v)⟩,
    ⟨lmul64Imm, pqr, aluImm (u64 fun d v => d * v)⟩,
    ⟨lmul64Reg, pqr, aluReg (u64 fun d v => d * v)⟩,
    ⟨uhmul64Imm, pqr, aluImm (u64 fun d v => mulHigh (d.setWidth 128) ((v.setWidth 32).setWidth 128))⟩,
    ⟨uhmul64Reg, pqr, aluReg (u64 fun d v => mulHigh (d.setWidth 128) (v.setWidth 128))⟩,
    ⟨shmul64Imm, pqr, aluImm (u64 fun d v => mulHigh (d.signExtend 128) (v.signExtend 128))⟩,
    ⟨shmul64Reg, pqr, aluReg (u64 fun d v => mulHigh (d.signExtend 128) (v.signExtend 128))⟩,
    ⟨udiv32Imm, pqr, divImm fun d v => hostDivision (isZero32 v) (udiv32 d v)⟩,
    ⟨udiv32Reg, pqr, divReg fun d v => checkedDivision (isZero32 v) (udiv32 d v)⟩,
    ⟨udiv64Imm, pqr, divImm fun d v => hostDivision (isZero32 v) (d.udiv (low v))⟩,
    ⟨udiv64Reg, pqr, divReg fun d v => checkedDivision (v == 0) (d.udiv v)⟩,
    ⟨urem32Imm, pqr, divImm fun d v => hostDivision (isZero32 v) (urem32 d v)⟩,
    ⟨urem32Reg, pqr, divReg fun d v => checkedDivision (isZero32 v) (urem32 d v)⟩,
    ⟨urem64Imm, pqr, divImm fun d v => hostDivision (isZero32 v) (d.umod (low v))⟩,
    ⟨urem64Reg, pqr, divReg fun d v => checkedDivision (v == 0) (d.umod v)⟩,
    ⟨sdiv32Imm, pqr, divImm (sdivision32 false)⟩,
    ⟨sdiv32Reg, pqr, divReg (sdivision32 true)⟩,
    ⟨sdiv64Imm, pqr, divImm (sdivision64 false)⟩,
    ⟨sdiv64Reg, pqr, divReg (sdivision64 true)⟩,
    ⟨srem32Imm, pqr, divImm (sremainder32 false)⟩,
    ⟨srem32Reg, pqr, divReg (sremainder32 true)⟩,
    ⟨srem64Imm, pqr, divImm (sremainder64 false)⟩,
    ⟨srem64Reg, pqr, divReg (sremainder64 true)⟩ ]

def low32 (c : BitVec 32 → BitVec 32 → Bool) (d v : BitVec 64) : Bool := c (d.setWidth 32) (v.setWidth 32)

section
variable {w : Nat}

/-- The conditions of the jump arms, as Rust writes them on `u32`, `u64`, `i32` and `i64`. -/
def condEq (d v : BitVec w) : Bool := d == v
def condGt (d v : BitVec w) : Bool := v.ult d
def condGe (d v : BitVec w) : Bool := v.ule d
def condLt (d v : BitVec w) : Bool := d.ult v
def condLe (d v : BitVec w) : Bool := d.ule v
def condSet (d v : BitVec w) : Bool := d &&& v != 0
def condNe (d v : BitVec w) : Bool := d != v
def condSgt (d v : BitVec w) : Bool := v.slt d
def condSge (d v : BitVec w) : Bool := v.sle d
def condSlt (d v : BitVec w) : Bool := d.slt v
def condSle (d v : BitVec w) : Bool := d.sle v

end

def jmp32Arms : List (Arm C) :=
  let jmp32 := SBPFVersion.enableJmp32
  [ ⟨jeq32Imm, jmp32, jumpImm (low32 condEq)⟩,
    ⟨jeq32Reg, jmp32, jumpReg (low32 condEq)⟩,
    ⟨jgt32Imm, jmp32, jumpImm (low32 condGt)⟩,
    ⟨jgt32Reg, jmp32, jumpReg (low32 condGt)⟩,
    ⟨jge32Imm, jmp32, jumpImm (low32 condGe)⟩,
    ⟨jge32Reg, jmp32, jumpReg (low32 condGe)⟩,
    ⟨jlt32Imm, jmp32, jumpImm (low32 condLt)⟩,
    ⟨jlt32Reg, jmp32, jumpReg (low32 condLt)⟩,
    ⟨jle32Imm, jmp32, jumpImm (low32 condLe)⟩,
    ⟨jle32Reg, jmp32, jumpReg (low32 condLe)⟩,
    ⟨jset32Imm, jmp32, jumpImm (low32 condSet)⟩,
    ⟨jset32Reg, jmp32, jumpReg (low32 condSet)⟩,
    ⟨jne32Imm, jmp32, jumpImm (low32 condNe)⟩,
    ⟨jne32Reg, jmp32, jumpReg (low32 condNe)⟩,
    ⟨jsgt32Imm, jmp32, jumpImm (low32 condSgt)⟩,
    ⟨jsgt32Reg, jmp32, jumpReg (low32 condSgt)⟩,
    ⟨jsge32Imm, jmp32, jumpImm (low32 condSge)⟩,
    ⟨jsge32Reg, jmp32, jumpReg (low32 condSge)⟩,
    ⟨jslt32Imm, jmp32, jumpImm (low32 condSlt)⟩,
    ⟨jslt32Reg, jmp32, jumpReg (low32 condSlt)⟩,
    ⟨jsle32Imm, jmp32, jumpImm (low32 condSle)⟩,
    ⟨jsle32Reg, jmp32, jumpReg (low32 condSle)⟩ ]

def jmp64Arms : List (Arm C) :=
  let always := fun _ : SBPFVersion => true
  [ ⟨ja, always, fun _ insn s nextPc => .done s (branchTo insn nextPc)⟩,
    ⟨jeq64Imm, always, jumpImm condEq⟩,
    ⟨jeq64Reg, always, jumpReg condEq⟩,
    ⟨jgt64Imm, always, jumpImm condGt⟩,
    ⟨jgt64Reg, always, jumpReg condGt⟩,
    ⟨jge64Imm, always, jumpImm condGe⟩,
    ⟨jge64Reg, always, jumpReg condGe⟩,
    ⟨jlt64Imm, always, jumpImm condLt⟩,
    ⟨jlt64Reg, always, jumpReg condLt⟩,
    ⟨jle64Imm, always, jumpImm condLe⟩,
    ⟨jle64Reg, always, jumpReg condLe⟩,
    ⟨jset64Imm, always, jumpImm condSet⟩,
    ⟨jset64Reg, always, jumpReg condSet⟩,
    ⟨jne64Imm, always, jumpImm condNe⟩,
    ⟨jne64Reg, always, jumpReg condNe⟩,
    ⟨jsgt64Imm, always, jumpImm condSgt⟩,
    ⟨jsgt64Reg, always, jumpReg condSgt⟩,
    ⟨jsge64Imm, always, jumpImm condSge⟩,
    ⟨jsge64Reg, always, jumpReg condSge⟩,
    ⟨jslt64Imm, always, jumpImm condSlt⟩,
    ⟨jslt64Reg, always, jumpReg condSlt⟩,
    ⟨jsle64Imm, always, jumpImm condSle⟩,
    ⟨jsle64Reg, always, jumpReg condSle⟩,
    ⟨Ebpf.callReg, always, callReg⟩,
    ⟨Ebpf.callImm, always, callImm⟩,
    ⟨exit, always, exitBody⟩ ]

def arms : List (Arm C) :=
  ldxAndStArms ++ alu32Arms ++ alu64Arms ++ pqrArms ++ jmp32Arms ++ jmp64Arms

def selectArm (version : SBPFVersion) (opc : Byte) : Option (Body C) :=
  (arms.find? fun arm => arm.opc == opc && arm.guard version).map (·.body)

def execInsn (x : Executable C) (insn : Insn) (s : Interpreter C) : StepResult C :=
  let result := match selectArm x.sbpfVersion insn.opc with
    | some body => body x insn s (s.pc + 1)
    | none => .stop (s.throwErr .unsupportedInstruction)
  match result with
  | .done s nextPc => .next (s.setReg 11 nextPc)
  | .stop s => .stop s
  | .panic => .panic

/-- The meter check comes before the instruction is counted. -/
def meterExceeded (x : Executable C) (s : Interpreter C) : Bool :=
  x.config.enableInstructionMeter && decide (s.vm.previousInstructionMeter.toNat ≤ s.vm.dueInsnCount.toNat)

def traceRegisters (x : Executable C) (s : Interpreter C) : Interpreter C :=
  if x.config.enableRegisterTracing then
    { s with vm := { s.vm with registerTrace := s.vm.registerTrace ++ [s.reg] } }
  else s

namespace Interpreter

def step (x : Executable C) (s : Interpreter C) : StepResult C :=
  if meterExceeded x s then .stop (s.throwErr .exceededMaxInstructions)
  else
    let s := { s with vm := { s.vm with dueInsnCount := s.vm.dueInsnCount + 1 } }
    if x.text.bytes.length ≤ s.pc.toNat * insnSize then .stop (s.throwErr .executionOverrun)
    else
      match getInsnUnchecked x.text.bytes s.pc.toNat with
      | none => .panic
      | some insn => execInsn x insn (traceRegisters x s)

inductive Steps (x : Executable C) : Interpreter C → Interpreter C → Prop
  | refl (s : Interpreter C) : Steps x s s
  | step {s₁ s₂ s₃ : Interpreter C} : step x s₁ = .next s₂ → Steps x s₂ s₃ → Steps x s₁ s₃

/-- `while interpreter.step() {}` ends in `s'` with an `Ok` result. -/
def Exits (x : Executable C) (s s' : Interpreter C) : Prop :=
  ∃ sₙ, Steps x s sₙ ∧ sₙ.step x = .stop s' ∧ ∃ v, s'.vm.programResult = .ok v

end Interpreter

end Aeneas.Sbpf
