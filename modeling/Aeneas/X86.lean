import Aeneas.Bytes

/-!
# The safe x86-64 byte encoder

`X86Instruction.encode` and the instruction constructors of `safe_mode/x86.rs`.
`dbg` says whether the crate is built with debug assertions; a failing assertion
panics, which is `none` here.
-/

namespace Aeneas.Sbpf

inductive OperandSize
  | s0 | s8 | s16 | s32 | s64
  deriving DecidableEq, Repr

inductive X86Register
  | rax | rcx | rdx | rbx | rsp | rbp | rsi | rdi
  | r8 | r9 | r10 | r11 | r12 | r13 | r14 | r15
  | mm0 | mm1 | mm2 | mm3 | mm4 | mm5 | mm6 | mm7
  deriving DecidableEq, Repr

def X86Register.toU8 : X86Register → Byte
  | .rax => 0 | .rcx => 1 | .rdx => 2 | .rbx => 3 | .rsp => 4 | .rbp => 5 | .rsi => 6 | .rdi => 7
  | .r8 => 8 | .r9 => 9 | .r10 => 10 | .r11 => 11 | .r12 => 12 | .r13 => 13 | .r14 => 14 | .r15 => 15
  | .mm0 => 16 | .mm1 => 17 | .mm2 => 18 | .mm3 => 19 | .mm4 => 20 | .mm5 => 21 | .mm6 => 22
  | .mm7 => 23

inductive X86IndirectAccess
  /-- `[second_operand + offset]` -/
  | offset (offset : BitVec 32)
  /-- `[second_operand + offset + index << shift]` -/
  | offsetIndexShift (offset : BitVec 32) (index : X86Register) (shift : Byte)
  deriving DecidableEq, Repr

inductive FenceType
  | load | all | store
  deriving DecidableEq, Repr

def FenceType.toU8 : FenceType → Byte
  | .load => 5 | .all => 6 | .store => 7

/-- The field defaults are those of `X86Instruction::DEFAULT`. -/
structure X86Instruction where
  size : OperandSize := .s0
  opcodeEscapeSequence : Byte := 0
  opcode : Byte := 0
  modrm : Bool := true
  indirect : Option X86IndirectAccess := none
  firstOperand : Byte := 0
  secondOperand : Byte := 0
  immediateSize : OperandSize := .s0
  immediate : BitVec 64 := 0
  deriving DecidableEq, Repr

def debugAssert (dbg b : Bool) : Option Unit :=
  if dbg && !b then none else some ()

def excludeOperandSizes (dbg : Bool) (size : OperandSize) (toExclude : List OperandSize) : Option Unit :=
  debugAssert dbg (!toExclude.contains size)

def emitVariableLength (size : OperandSize) (data : BitVec 64) : List Byte :=
  let bytes := leBytes 8 data.toNat
  match size with
  | .s0 => []
  | .s8 => bytes.take 1
  | .s16 => bytes.take 2
  | .s32 => bytes.take 4
  | .s64 => bytes

namespace X86Instruction

/-! ## The encoder -/

structure X86Sib where
  scale : Byte := 0
  index : Byte := 0
  base : Byte := 0

/-- What the operand kind decides: the ModRM mode and `m` field, `REX.X`, the SIB
fields and the displacement. -/
structure Addressing where
  mode : Byte := 0
  m : Byte
  x : Bool := false
  sib : X86Sib := {}
  displacementSize : OperandSize := .s0
  displacement : BitVec 32 := 0

def fitsI8 (displacement : BitVec 32) : Bool :=
  decide (-128 ≤ displacement.toInt ∧ displacement.toInt ≤ 127)

def addressing (self : X86Instruction) : Addressing :=
  let m := self.secondOperand &&& 0b111
  if self.modrm then
    match self.indirect with
    | some (.offset displacement) =>
      if fitsI8 displacement || (displacement == 0 && m == 5) then
        { mode := 1, m, displacementSize := .s8, displacement }
      else { mode := 2, m, displacementSize := .s32, displacement }
    | some (.offsetIndexShift displacement index shift) =>
      let x := index.toU8 &&& 0b1000 != 0
      let sib := { scale := shift &&& 0b11, index := index.toU8 &&& 0b111, base := m }
      if fitsI8 displacement then { mode := 1, m := 4, x, sib, displacementSize := .s8, displacement }
      else { mode := 2, m := 4, x, sib, displacementSize := .s32, displacement }
    | none => { mode := 3, m }
  else { m }

/-- The assertions of `encode`: a size is set, and a plain offset has no base whose
encoding would need a SIB byte. -/
def encodeAsserts (dbg : Bool) (self : X86Instruction) : Option Unit := do
  debugAssert dbg (self.size != .s0)
  match self.modrm, self.indirect with
  | true, some (.offset _) => debugAssert dbg (self.secondOperand &&& 0b111 != 4)
  | _, _ => some ()

def boolToU8 (b : Bool) : Byte := if b then 1 else 0

def rexByte (self : X86Instruction) : Byte :=
  (boolToU8 (self.size == .s64) <<< 3) ||| (boolToU8 (self.firstOperand &&& 0b1000 != 0) <<< 2) |||
    (boolToU8 self.addressing.x <<< 1) ||| boolToU8 (self.secondOperand &&& 0b1000 != 0)

def escapeBytes (opcodeEscapeSequence : Byte) : List Byte :=
  if opcodeEscapeSequence = 1 then [0x0f]
  else if opcodeEscapeSequence = 2 then leBytes 2 0x0f38
  else if opcodeEscapeSequence = 3 then leBytes 2 0x0f3a
  else []

def modrmBytes (self : X86Instruction) : List Byte :=
  let a := self.addressing
  let sibByte := (a.sib.scale <<< 6) ||| (a.sib.index <<< 3) ||| a.sib.base
  if self.modrm then
    [(a.mode <<< 6) ||| ((self.firstOperand &&& 0b111) <<< 3) ||| a.m] ++
      (if sibByte != 0 then [sibByte] else []) ++
      emitVariableLength a.displacementSize (a.displacement.signExtend 64)
  else []

def bytes (self : X86Instruction) : List Byte :=
  (if self.size = .s16 then [0x66] else []) ++
  (if self.rexByte != 0 then [0x40 ||| self.rexByte] else []) ++
  escapeBytes self.opcodeEscapeSequence ++ [self.opcode] ++ self.modrmBytes ++
  emitVariableLength self.immediateSize self.immediate

def encode (dbg : Bool) (self : X86Instruction) : Option (List Byte) := do
  self.encodeAsserts dbg
  some self.bytes

/-! ## The constructors -/

def aluEscaped (dbg : Bool) (size : OperandSize) (opcodeEscapeSequence opcode : Byte)
    (source destination : X86Register) (indirect : Option X86IndirectAccess) : Option X86Instruction := do
  excludeOperandSizes dbg size [.s0, .s8, .s16]
  some { size, opcodeEscapeSequence, opcode, firstOperand := source.toU8,
         secondOperand := destination.toU8, indirect }

def aluImmediateEscaped (dbg : Bool) (size : OperandSize) (opcodeEscapeSequence opcode : Byte)
    (opcodeExtension : Byte) (destination : X86Register) (immediate : BitVec 64)
    (indirect : Option X86IndirectAccess) : Option X86Instruction := do
  excludeOperandSizes dbg size [.s0, .s8, .s16]
  some { size, opcodeEscapeSequence, opcode, firstOperand := opcodeExtension,
         secondOperand := destination.toU8,
         immediateSize :=
           if opcode = 0xc1 then .s8
           else if opcode = 0x81 then .s32
           else if opcode = 0xf7 ∧ opcodeExtension = 0 then .s32
           else .s0,
         immediate, indirect }

def alu (dbg : Bool) (size : OperandSize) (opcode : Byte) (source destination : X86Register)
    (indirect : Option X86IndirectAccess) : Option X86Instruction :=
  aluEscaped dbg size 0 opcode source destination indirect

def aluImmediate (dbg : Bool) (size : OperandSize) (opcode opcodeExtension : Byte)
    (destination : X86Register) (immediate : BitVec 64) (indirect : Option X86IndirectAccess) :
    Option X86Instruction :=
  aluImmediateEscaped dbg size 0 opcode opcodeExtension destination immediate indirect

def mov (dbg : Bool) (size : OperandSize) (source destination : X86Register) : Option X86Instruction := do
  excludeOperandSizes dbg size [.s0, .s8, .s16]
  some { size, opcode := 0x89, firstOperand := source.toU8, secondOperand := destination.toU8 }

def movWithSignExtension (dbg : Bool) (size : OperandSize) (source destination : X86Register) :
    Option X86Instruction := do
  excludeOperandSizes dbg size [.s0, .s8, .s16]
  some { size, opcode := 0x63, firstOperand := destination.toU8, secondOperand := source.toU8 }

def movMmx (dbg : Bool) (size : OperandSize) (source destination : X86Register) :
    Option X86Instruction := do
  excludeOperandSizes dbg size [.s0, .s8, .s16, .s32]
  if destination.toU8 &&& 16 != 0 then
    some { size, opcodeEscapeSequence := 1,
           opcode := if source.toU8 &&& 16 != 0 then 0x6f else 0x6e,
           firstOperand := destination.toU8 &&& 0xf, secondOperand := source.toU8 &&& 0xf }
  else
    some { size, opcodeEscapeSequence := 1, opcode := 0x7e,
           firstOperand := source.toU8 &&& 0xf, secondOperand := destination.toU8 &&& 0xf }

def cmov (dbg : Bool) (size : OperandSize) (condition : Byte) (source destination : X86Register) :
    Option X86Instruction := do
  excludeOperandSizes dbg size [.s0, .s8, .s16]
  some { size, opcodeEscapeSequence := 1, opcode := condition, firstOperand := destination.toU8,
         secondOperand := source.toU8 }

def xchg (dbg : Bool) (size : OperandSize) (source destination : X86Register)
    (indirect : Option X86IndirectAccess) : Option X86Instruction := do
  excludeOperandSizes dbg size [.s0, .s8, .s16, .s32]
  some { size, opcode := 0x87, firstOperand := source.toU8, secondOperand := destination.toU8, indirect }

def bswap (dbg : Bool) (size : OperandSize) (destination : X86Register) : Option X86Instruction := do
  excludeOperandSizes dbg size [.s0, .s8]
  match size with
  | .s16 => some { size, opcode := 0xc1, secondOperand := destination.toU8, immediateSize := .s8,
                   immediate := 8 }
  | .s32 | .s64 => some { size, opcodeEscapeSequence := 1, opcode := 0xc8 ||| (destination.toU8 &&& 0b111),
                          modrm := false, secondOperand := destination.toU8 }
  | _ => none

def test (dbg : Bool) (size : OperandSize) (source destination : X86Register)
    (indirect : Option X86IndirectAccess) : Option X86Instruction := do
  excludeOperandSizes dbg size [.s0]
  some { size, opcode := if size = .s8 then 0x84 else 0x85, firstOperand := source.toU8,
         secondOperand := destination.toU8, indirect }

/-- The immediate of a 64-bit operation is encoded in 32 bits. -/
def immediateSizeOf (size : OperandSize) : OperandSize :=
  if size = .s64 then .s32 else size

def testImmediate (dbg : Bool) (size : OperandSize) (destination : X86Register) (immediate : BitVec 64)
    (indirect : Option X86IndirectAccess) : Option X86Instruction := do
  excludeOperandSizes dbg size [.s0]
  some { size, opcode := if size = .s8 then 0xf6 else 0xf7, firstOperand := 0,
         secondOperand := destination.toU8, immediateSize := immediateSizeOf size, immediate, indirect }

def cmp (dbg : Bool) (size : OperandSize) (source destination : X86Register)
    (indirect : Option X86IndirectAccess) : Option X86Instruction := do
  excludeOperandSizes dbg size [.s0]
  some { size, opcode := if size = .s8 then 0x38 else 0x39, firstOperand := source.toU8,
         secondOperand := destination.toU8, indirect }

def cmpImmediate (dbg : Bool) (size : OperandSize) (destination : X86Register) (immediate : BitVec 64)
    (indirect : Option X86IndirectAccess) : Option X86Instruction := do
  excludeOperandSizes dbg size [.s0]
  some { size, opcode := if size = .s8 then 0x80 else 0x81, firstOperand := 7,
         secondOperand := destination.toU8, immediateSize := immediateSizeOf size, immediate, indirect }

def lea (dbg : Bool) (size : OperandSize) (source destination : X86Register)
    (indirect : Option X86IndirectAccess) : Option X86Instruction := do
  excludeOperandSizes dbg size [.s0, .s8, .s16, .s32]
  some { size, opcode := 0x8d, firstOperand := destination.toU8, secondOperand := source.toU8, indirect }

def signExtendRaxRdx (dbg : Bool) (size : OperandSize) : Option X86Instruction := do
  excludeOperandSizes dbg size [.s0, .s8, .s16]
  some { size, opcode := 0x99, modrm := false }

def load (dbg : Bool) (size : OperandSize) (source destination : X86Register)
    (indirect : X86IndirectAccess) : Option X86Instruction := do
  excludeOperandSizes dbg size [.s0]
  some { size := if size = .s64 then .s64 else .s32,
         opcodeEscapeSequence := if size = .s8 ∨ size = .s16 then 1 else 0,
         opcode := if size = .s8 then 0xb6 else if size = .s16 then 0xb7 else 0x8b,
         firstOperand := destination.toU8, secondOperand := source.toU8, indirect := some indirect }

def store (dbg : Bool) (size : OperandSize) (source destination : X86Register)
    (indirect : X86IndirectAccess) : Option X86Instruction := do
  excludeOperandSizes dbg size [.s0]
  some { size, opcode := if size = .s8 then 0x88 else 0x89, firstOperand := source.toU8,
         secondOperand := destination.toU8, indirect := some indirect }

def loadImmediate (destination : X86Register) (immediate : BitVec 64) : X86Instruction :=
  if 0 ≤ immediate.toInt then
    let size := if immediate.toInt ≤ 2 ^ 32 - 1 then .s32 else .s64
    { size, opcode := 0xb8 ||| (destination.toU8 &&& 0b111), modrm := false,
      secondOperand := destination.toU8, immediateSize := size, immediate }
  else if -2 ^ 31 ≤ immediate.toInt then
    { size := .s64, opcode := 0xc7, secondOperand := destination.toU8, immediateSize := .s32, immediate }
  else
    { size := .s64, opcode := 0xb8 ||| (destination.toU8 &&& 0b111), modrm := false,
      secondOperand := destination.toU8, immediateSize := .s64, immediate }

def storeImmediate (dbg : Bool) (size : OperandSize) (destination : X86Register)
    (indirect : X86IndirectAccess) (immediate : BitVec 64) : Option X86Instruction := do
  excludeOperandSizes dbg size [.s0]
  some { size, opcode := if size = .s8 then 0xc6 else 0xc7, secondOperand := destination.toU8,
         indirect := some indirect, immediateSize := immediateSizeOf size, immediate }

def pushImmediate (dbg : Bool) (size : OperandSize) (immediate : BitVec 32) : Option X86Instruction := do
  excludeOperandSizes dbg size [.s0, .s16]
  some { size, opcode := if size = .s8 then 0x6a else 0x68, modrm := false,
         immediateSize := immediateSizeOf size, immediate := immediate.signExtend 64 }

def push (source : X86Register) (indirect : Option X86IndirectAccess) : X86Instruction :=
  if indirect.isNone then
    { size := .s32, opcode := 0x50 ||| (source.toU8 &&& 0b111), modrm := false,
      secondOperand := source.toU8 }
  else { size := .s64, opcode := 0xff, firstOperand := 6, secondOperand := source.toU8, indirect }

def pop (destination : X86Register) : X86Instruction :=
  { size := .s32, opcode := 0x58 ||| (destination.toU8 &&& 0b111), modrm := false,
    secondOperand := destination.toU8 }

def conditionalJumpImmediate (opcode : Byte) (relativeDestination : BitVec 32) : X86Instruction :=
  { size := .s32, opcodeEscapeSequence := 1, opcode, modrm := false, immediateSize := .s32,
    immediate := relativeDestination.signExtend 64 }

def jumpImmediate (relativeDestination : BitVec 32) : X86Instruction :=
  { size := .s32, opcode := 0xe9, modrm := false, immediateSize := .s32,
    immediate := relativeDestination.signExtend 64 }

def jumpReg (destination : X86Register) (indirect : Option X86IndirectAccess) : X86Instruction :=
  { size := .s64, opcode := 0xff, firstOperand := 4, secondOperand := destination.toU8, indirect }

def callImmediate (relativeDestination : BitVec 32) : X86Instruction :=
  { size := .s32, opcode := 0xe8, modrm := false, immediateSize := .s32,
    immediate := relativeDestination.signExtend 64 }

def callReg (destination : X86Register) (indirect : Option X86IndirectAccess) : X86Instruction :=
  { size := .s64, opcode := 0xff, firstOperand := 2, secondOperand := destination.toU8, indirect }

def returnNear : X86Instruction := { size := .s32, opcode := 0xc3, modrm := false }

def noop : X86Instruction := { size := .s32, opcode := 0x90, modrm := false }

def interrupt (immediate : Byte) : X86Instruction :=
  if immediate = 3 then { size := .s32, opcode := 0xcc, modrm := false }
  else { size := .s32, opcode := 0xcd, modrm := false, immediateSize := .s8,
         immediate := immediate.setWidth 64 }

def cycleCount : X86Instruction :=
  { size := .s32, opcodeEscapeSequence := 1, opcode := 0x31, modrm := false }

def fence (fenceType : FenceType) : X86Instruction :=
  { size := .s32, opcodeEscapeSequence := 1, opcode := 0xae, firstOperand := fenceType.toU8 }

end X86Instruction

end Aeneas.Sbpf
