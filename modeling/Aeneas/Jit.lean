import Aeneas.X86
import Aeneas.Ebpf

/-!
# The safe JIT compiler model

`safe_mode/jit.rs`: lowering of decoded sBPF instructions to a small instruction set,
emission of x86-64 bytes, and relocation of forward jumps. A method that mutates the
compiler keeps its effect on the state when it returns an error, so the methods run in
`EStateM`.
-/

namespace Aeneas.Sbpf

open X86Instruction

def registerMap : List X86Register :=
  [.rax, .rsi, .rdx, .rcx, .r8, .r9, .rbx, .r12, .r13, .r14, .r15]

/-- Holds an immediate that does not fit an x86 immediate operand. -/
def registerScratch : X86Register := .r11

inductive AluOperation
  | add | subtract | or | and | xor
  deriving DecidableEq, Repr

inductive ShiftOperation
  | left | right | arithmeticRight
  deriving DecidableEq, Repr

inductive JumpCondition
  | equal | notEqual | greater | greaterOrEqual | less | lessOrEqual
  | signedGreater | signedGreaterOrEqual | signedLess | signedLessOrEqual
  deriving DecidableEq, Repr

/-- Registers are sBPF register indices; jump targets are instruction indices. -/
inductive JitInstruction
  | loadImmediate (size : OperandSize) (destination : Nat) (value : BitVec 64)
  | moveRegister (size : OperandSize) (source destination : Nat)
  | aluImmediate (size : OperandSize) (operation : AluOperation) (destination : Nat) (value : BitVec 64)
  | aluRegister (size : OperandSize) (operation : AluOperation) (source destination : Nat)
  | shiftImmediate (size : OperandSize) (operation : ShiftOperation) (destination : Nat) (amount : Byte)
  | shiftRegister (size : OperandSize) (operation : ShiftOperation) (source destination : Nat)
  | jump (targetPc : Nat)
  | jumpImmediate (size : OperandSize) (condition : JumpCondition) (destination : Nat)
      (value : BitVec 64) (targetPc : Nat)
  | jumpRegister (size : OperandSize) (condition : JumpCondition) (source destination : Nat)
      (targetPc : Nat)
  | jumpTestImmediate (size : OperandSize) (destination : Nat) (value : BitVec 64) (targetPc : Nat)
  | jumpTestRegister (size : OperandSize) (source destination : Nat) (targetPc : Nat)
  | ret
  deriving DecidableEq, Repr

inductive JitModelError
  | invalidRegister | invalidJumpTarget | invalidOperandSize | unsupportedInstruction | invalidAnchor
  | invalidProgramCounter | anchorNotSet | programCounterNotSet | relativeOffsetOutOfRange
  | invalidRelocation
  deriving DecidableEq, Repr

/-- A pending relative jump: the offset of its displacement and the pc it points to. -/
structure JumpModel where
  location : Nat
  targetPc : Nat
  deriving DecidableEq, Repr

structure JitCompilerModel where
  textSection : List Byte
  pcSection : List (Option Nat)
  textSectionJumps : List JumpModel
  anchors : List (Option Nat)
  deriving DecidableEq, Repr

/-- A method either returns `Err` or panics when it does not return. -/
inductive Failure
  | err (e : JitModelError)
  | panic
  deriving DecidableEq, Repr

abbrev JitM := EStateM Failure JitCompilerModel

def throwJit {α : Type} (e : JitModelError) : JitM α := throw (.err e)

/-- `Option::ok_or(e)?` -/
def okOr {α : Type} (e : JitModelError) : Option α → JitM α
  | some a => pure a
  | none => throwJit e

def orPanic {α : Type} : Option α → JitM α
  | some a => pure a
  | none => throw .panic

def usizeMax : Nat := 2 ^ 64 - 1

def checkedAdd (x y : Nat) : Option Nat := if x + y ≤ usizeMax then some (x + y) else none

def checkedSub (x y : Nat) : Option Nat := if y ≤ x then some (x - y) else none

/-! ## Tables -/

def mappedRegister (index : Nat) : Except JitModelError X86Register :=
  match registerMap[index]? with
  | some register => .ok register
  | none => .error .invalidRegister

def aluEncoding : AluOperation → Byte × Byte
  | .add => (0x01, 0)
  | .or => (0x09, 1)
  | .and => (0x21, 4)
  | .subtract => (0x29, 5)
  | .xor => (0x31, 6)

def shiftOpcodeExtension : ShiftOperation → Byte
  | .left => 4
  | .right => 5
  | .arithmeticRight => 7

def jumpOpcode : JumpCondition → Byte
  | .equal => 0x84
  | .notEqual => 0x85
  | .greater => 0x87
  | .greaterOrEqual => 0x83
  | .less => 0x82
  | .lessOrEqual => 0x86
  | .signedGreater => 0x8f
  | .signedGreaterOrEqual => 0x8d
  | .signedLess => 0x8c
  | .signedLessOrEqual => 0x8e

def relativeOffset (destination instructionEnd : Nat) : Except JitModelError (BitVec 32) :=
  let difference : Int := destination - instructionEnd
  if -2 ^ 31 ≤ difference ∧ difference < 2 ^ 31 then .ok (BitVec.ofInt 32 difference)
  else .error .relativeOffsetOutOfRange

/-- `?` on a `Result`. -/
def ofResult {α : Type} : Except JitModelError α → JitM α
  | .ok a => pure a
  | .error e => throwJit e

namespace JitCompilerModel

/-! ## The text section and the tables -/

def new (programCounterCount anchorCount : Nat) : JitCompilerModel :=
  { textSection := [], pcSection := List.replicate programCounterCount none, textSectionJumps := [],
    anchors := List.replicate anchorCount none }

def emitBytes (bytes : List Byte) : JitM Unit :=
  modify fun self => { self with textSection := self.textSection ++ bytes }

def emitIns (dbg : Bool) (instruction : X86Instruction) : JitM Unit := do
  let bytes ← orPanic (instruction.encode dbg)
  emitBytes bytes

def setProgramCounter (pc : Nat) : JitM Unit := do
  let self ← get
  if pc < self.pcSection.length then
    set { self with pcSection := self.pcSection.set pc (some self.textSection.length) }
  else throwJit .invalidProgramCounter

/-- A displacement to a pc whose offset is known, or a pending relocation. -/
def relativeToTargetPc (targetPc instructionLength : Nat) : JitM (BitVec 32) := do
  let self ← get
  let destination ← okOr .invalidProgramCounter self.pcSection[targetPc]?
  let instructionEnd ← okOr .relativeOffsetOutOfRange
    (checkedAdd self.textSection.length instructionLength)
  match destination with
  | some destination => ofResult (relativeOffset destination instructionEnd)
  | none =>
    let location ← okOr .invalidRelocation (checkedSub instructionEnd 4)
    set { self with textSectionJumps := self.textSectionJumps ++ [JumpModel.mk location targetPc] }
    pure 0

/-- Overwrite the four bytes at a location, if they are inside the text section. -/
def patch (text : List Byte) (location : Nat) (displacement : BitVec 32) : Option (List Byte) :=
  if location + 4 ≤ text.length then
    some (text.take location ++ leBytes 4 displacement.toNat ++ text.drop (location + 4))
  else none

def resolveJump (jump : JumpModel) : JitM Unit := do
  let self ← get
  let slot ← okOr .invalidProgramCounter self.pcSection[jump.targetPc]?
  let destination ← okOr .programCounterNotSet slot
  let instructionEnd ← okOr .invalidRelocation (checkedAdd jump.location 4)
  let displacement ← ofResult (relativeOffset destination instructionEnd)
  let textSection ← okOr .invalidRelocation (patch self.textSection jump.location displacement)
  set { self with textSection }

def resolveEach : List JumpModel → JitM Unit
  | [] => pure ()
  | jump :: rest => do
    resolveJump jump
    resolveEach rest

def resolveJumps : JitM Unit := do
  resolveEach (← get).textSectionJumps
  modify fun self => { self with textSectionJumps := [] }

/-! ## Emission -/

/-- A shift by a register needs the count in `RCX`. -/
def emitShiftByRcx (dbg : Bool) (size : OperandSize) (opcodeExtension : Byte)
    (source destination : X86Register) : JitM Unit :=
  if source = .rcx then do
    emitIns dbg (← orPanic (aluImmediate dbg size 0xd3 opcodeExtension destination 0 none))
  else if destination = .rcx then do
    emitIns dbg (push source none)
    emitIns dbg (← orPanic (xchg dbg .s64 source .rcx none))
    emitIns dbg (← orPanic (aluImmediate dbg size 0xd3 opcodeExtension source 0 none))
    emitIns dbg (← orPanic (mov dbg .s64 source .rcx))
    emitIns dbg (pop source)
  else do
    emitIns dbg (push .rcx none)
    emitIns dbg (← orPanic (mov dbg .s64 source .rcx))
    emitIns dbg (← orPanic (aluImmediate dbg size 0xd3 opcodeExtension destination 0 none))
    emitIns dbg (pop .rcx)

def emitRegisterShift (dbg : Bool) (size : OperandSize) (operation : ShiftOperation)
    (source destination : X86Register) : JitM Unit :=
  let opcodeExtension := shiftOpcodeExtension operation
  if size = .s32 then do
    emitIns dbg (← orPanic (mov dbg size destination destination))
    emitShiftByRcx dbg size opcodeExtension source destination
  else emitShiftByRcx dbg size opcodeExtension source destination

def emitConditionalJump (dbg : Bool) (condition : JumpCondition) (targetPc : Nat) : JitM Unit := do
  let displacement ← relativeToTargetPc targetPc 6
  emitIns dbg (conditionalJumpImmediate (jumpOpcode condition) displacement)

def fitsI32 (value : BitVec 64) : Bool := decide (-2 ^ 31 ≤ value.toInt ∧ value.toInt ≤ 2 ^ 31 - 1)

def emitJitInstruction (dbg : Bool) : JitInstruction → JitM Unit
  | .loadImmediate size destination value => do
    let destination ← ofResult (mappedRegister destination)
    match size with
    | .s32 => emitIns dbg (loadImmediate destination ((value.setWidth 32).setWidth 64))
    | .s64 => emitIns dbg (loadImmediate destination value)
    | _ => throwJit .invalidOperandSize
  | .moveRegister size source destination => do
    let source ← ofResult (mappedRegister source)
    let destination ← ofResult (mappedRegister destination)
    emitIns dbg (← orPanic (mov dbg size source destination))
  | .aluImmediate size operation destination value => do
    let destination ← ofResult (mappedRegister destination)
    let (opcode, opcodeExtension) := aluEncoding operation
    if fitsI32 value then
      emitIns dbg
        (← orPanic (aluImmediate dbg size 0x81 opcodeExtension destination value none))
    else
      emitIns dbg (loadImmediate registerScratch value)
      emitIns dbg (← orPanic (alu dbg size opcode registerScratch destination none))
  | .aluRegister size operation source destination => do
    let source ← ofResult (mappedRegister source)
    let destination ← ofResult (mappedRegister destination)
    let (opcode, _) := aluEncoding operation
    emitIns dbg (← orPanic (alu dbg size opcode source destination none))
  | .shiftImmediate size operation destination amount => do
    let destination ← ofResult (mappedRegister destination)
    emitIns dbg (← orPanic (aluImmediate dbg size 0xc1 (shiftOpcodeExtension operation)
      destination (amount.setWidth 64) none))
  | .shiftRegister size operation source destination => do
    let source ← ofResult (mappedRegister source)
    let destination ← ofResult (mappedRegister destination)
    emitRegisterShift dbg size operation source destination
  | .jump targetPc => do
    let displacement ← relativeToTargetPc targetPc 5
    emitIns dbg (jumpImmediate displacement)
  | .jumpImmediate size condition destination value targetPc => do
    let destination ← ofResult (mappedRegister destination)
    emitIns dbg (← orPanic (cmpImmediate dbg size destination value none))
    emitConditionalJump dbg condition targetPc
  | .jumpRegister size condition source destination targetPc => do
    let source ← ofResult (mappedRegister source)
    let destination ← ofResult (mappedRegister destination)
    emitIns dbg (← orPanic (cmp dbg size source destination none))
    emitConditionalJump dbg condition targetPc
  | .jumpTestImmediate size destination value targetPc => do
    let destination ← ofResult (mappedRegister destination)
    emitIns dbg (← orPanic (testImmediate dbg size destination value none))
    emitConditionalJump dbg .notEqual targetPc
  | .jumpTestRegister size source destination targetPc => do
    let source ← ofResult (mappedRegister source)
    let destination ← ofResult (mappedRegister destination)
    emitIns dbg (← orPanic (test dbg size source destination none))
    emitConditionalJump dbg .notEqual targetPc
  | .ret => emitIns dbg returnNear

end JitCompilerModel

def branchTarget (pc : Nat) (offset : BitVec 16) : Except JitModelError Nat :=
  let target : Int := pc + offset.toInt + 1
  if target < 0 ∨ (usizeMax : Int) < target then .error .invalidJumpTarget else .ok target.toNat

open Ebpf in
def jumpConditionFromOperation (operation : Byte) : Except JitModelError JumpCondition :=
  if operation = bpfJeq then .ok .equal
  else if operation = bpfJne then .ok .notEqual
  else if operation = bpfJgt then .ok .greater
  else if operation = bpfJge then .ok .greaterOrEqual
  else if operation = bpfJlt then .ok .less
  else if operation = bpfJle then .ok .lessOrEqual
  else if operation = bpfJsgt then .ok .signedGreater
  else if operation = bpfJsge then .ok .signedGreaterOrEqual
  else if operation = bpfJslt then .ok .signedLess
  else if operation = bpfJsle then .ok .signedLessOrEqual
  else .error .unsupportedInstruction

open Ebpf in
/-- The two inner matches of `lower_alu_instruction`. -/
def aluOperationOf (operation : Byte) : Option AluOperation :=
  if operation = bpfAdd then some .add
  else if operation = bpfSub then some .subtract
  else if operation = bpfOr then some .or
  else if operation = bpfAnd then some .and
  else if operation = bpfXor then some .xor
  else none

open Ebpf in
def shiftOperationOf (operation : Byte) : Option ShiftOperation :=
  if operation = bpfLsh then some .left
  else if operation = bpfRsh then some .right
  else if operation = bpfArsh then some .arithmeticRight
  else none

open Ebpf in
def lowerAluInstruction (size : OperandSize) (instruction : Insn) : Except JitModelError JitInstruction :=
  let operation := instruction.opc &&& bpfAluOpMask
  let registerSource := instruction.opc &&& bpfX != 0
  let source := instruction.src.toNat
  let destination := instruction.dst.toNat
  if operation = bpfMov then
    if registerSource then .ok (.moveRegister size source destination)
    else .ok (.loadImmediate size destination instruction.imm)
  else
    match aluOperationOf operation, shiftOperationOf operation with
    | some operation, _ =>
      if registerSource then .ok (.aluRegister size operation source destination)
      else .ok (.aluImmediate size operation destination instruction.imm)
    | none, some operation =>
      if registerSource then .ok (.shiftRegister size operation source destination)
      else .ok (.shiftImmediate size operation destination (instruction.imm.setWidth 8))
    | none, none => .error .unsupportedInstruction

open Ebpf in
def lowerJumpInstruction (size : OperandSize) (pc : Nat) (instruction : Insn) :
    Except JitModelError JitInstruction :=
  let operation := instruction.opc &&& bpfAluOpMask
  if size = .s64 ∧ operation = bpfExit then .ok .ret
  else do
    let targetPc ← branchTarget pc instruction.off
    if size = .s64 ∧ operation = bpfJa then .ok (.jump targetPc)
    else
      let registerSource := instruction.opc &&& bpfX != 0
      let source := instruction.src.toNat
      let destination := instruction.dst.toNat
      if operation = bpfJset then
        if registerSource then .ok (.jumpTestRegister size source destination targetPc)
        else .ok (.jumpTestImmediate size destination instruction.imm targetPc)
      else do
        let condition ← jumpConditionFromOperation operation
        if registerSource then .ok (.jumpRegister size condition source destination targetPc)
        else .ok (.jumpImmediate size condition destination instruction.imm targetPc)

open Ebpf in
def lowerSbpfInstruction (pc : Nat) (instruction : Insn) : Except JitModelError JitInstruction :=
  let cls := instruction.opc &&& bpfClsMask
  if cls = bpfAlu32Load then lowerAluInstruction .s32 instruction
  else if cls = bpfAlu64Store then lowerAluInstruction .s64 instruction
  else if cls = bpfJmp32 then lowerJumpInstruction .s32 pc instruction
  else if cls = bpfJmp64 then lowerJumpInstruction .s64 pc instruction
  else .error .unsupportedInstruction

/-! ## Compilation -/

namespace JitCompilerModel

def emitFrom (dbg : Bool) : Nat → List JitInstruction → JitM Unit
  | _, [] => pure ()
  | pc, instruction :: rest => do
    setProgramCounter pc
    emitJitInstruction dbg instruction
    emitFrom dbg (pc + 1) rest

/-- The emission loop of `compile_sbpf`, which lowers each instruction as it comes. -/
def emitSbpfFrom (dbg : Bool) : Nat → List Insn → JitM Unit
  | _, [] => pure ()
  | pc, instruction :: rest => do
    setProgramCounter pc
    let instruction ← ofResult (lowerSbpfInstruction pc instruction)
    emitJitInstruction dbg instruction
    emitSbpfFrom dbg (pc + 1) rest

def finish (count : Nat) (emit : JitM Unit) : Except Failure (List Byte) :=
  match (do emit; resolveJumps).run (new count 0) with
  | .ok _ self => .ok self.textSection
  | .error e _ => .error e

def compile (dbg : Bool) (program : List JitInstruction) : Except Failure (List Byte) :=
  finish program.length (emitFrom dbg 0 program)

def compileSbpf (dbg : Bool) (program : List Insn) : Except Failure (List Byte) :=
  finish program.length (emitSbpfFrom dbg 0 program)

end JitCompilerModel

end Aeneas.Sbpf
