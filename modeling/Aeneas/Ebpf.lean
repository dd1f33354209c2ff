import Aeneas.Bytes

/-!
# sBPF instructions and versions

The opcode constants and instruction decoding of `ebpf.rs`, and the version
predicates of `program.rs`.
-/

namespace Aeneas.Sbpf

namespace Ebpf

def insnSize : Nat := 8
def framePtrReg : Nat := 10
def firstScratchReg : Nat := 6

/-! ## Instruction classes, sizes, modes and operations -/

def bpfLd : Byte := 0x00
def bpfLdx : Byte := 0x01
def bpfSt : Byte := 0x02
def bpfStx : Byte := 0x03
def bpfAlu32Load : Byte := 0x04
def bpfJmp64 : Byte := 0x05
def bpfJmp32 : Byte := 0x06
def bpfPqr : Byte := 0x06
def bpfAlu64Store : Byte := 0x07
def bpfW : Byte := 0x00
def bpfH : Byte := 0x08
def bpfB : Byte := 0x10
def bpfDw : Byte := 0x18
def bpf1b : Byte := 0x20
def bpf2b : Byte := 0x30
def bpf4b : Byte := 0x80
def bpf8b : Byte := 0x90
def bpfImm : Byte := 0x00
def bpfMem : Byte := 0x60
def bpfK : Byte := 0x00
def bpfX : Byte := 0x08
def bpfAdd : Byte := 0x00
def bpfSub : Byte := 0x10
def bpfMul : Byte := 0x20
def bpfDiv : Byte := 0x30
def bpfOr : Byte := 0x40
def bpfAnd : Byte := 0x50
def bpfLsh : Byte := 0x60
def bpfRsh : Byte := 0x70
def bpfNeg : Byte := 0x80
def bpfMod : Byte := 0x90
def bpfXor : Byte := 0xa0
def bpfMov : Byte := 0xb0
def bpfArsh : Byte := 0xc0
def bpfEnd : Byte := 0xd0
def bpfHor : Byte := 0xf0
def bpfUhmul : Byte := 0x20
def bpfUdiv : Byte := 0x40
def bpfUrem : Byte := 0x60
def bpfLmul : Byte := 0x80
def bpfShmul : Byte := 0xa0
def bpfSdiv : Byte := 0xc0
def bpfSrem : Byte := 0xe0
def bpfJa : Byte := 0x00
def bpfJeq : Byte := 0x10
def bpfJgt : Byte := 0x20
def bpfJge : Byte := 0x30
def bpfJset : Byte := 0x40
def bpfJne : Byte := 0x50
def bpfJsgt : Byte := 0x60
def bpfJsge : Byte := 0x70
def bpfCall : Byte := 0x80
def bpfExit : Byte := 0x90
def bpfJlt : Byte := 0xa0
def bpfJle : Byte := 0xb0
def bpfJslt : Byte := 0xc0
def bpfJsle : Byte := 0xd0
def bpfClsMask : Byte := 0x07
def bpfAluOpMask : Byte := 0xf0

/-! ## Opcodes -/

def ldDwImm : Byte := bpfLd ||| bpfImm ||| bpfDw
def ldBReg : Byte := bpfLdx ||| bpfMem ||| bpfB
def ldHReg : Byte := bpfLdx ||| bpfMem ||| bpfH
def ldWReg : Byte := bpfLdx ||| bpfMem ||| bpfW
def ldDwReg : Byte := bpfLdx ||| bpfMem ||| bpfDw
def stBImm : Byte := bpfSt ||| bpfMem ||| bpfB
def stHImm : Byte := bpfSt ||| bpfMem ||| bpfH
def stWImm : Byte := bpfSt ||| bpfMem ||| bpfW
def stDwImm : Byte := bpfSt ||| bpfMem ||| bpfDw
def stBReg : Byte := bpfStx ||| bpfMem ||| bpfB
def stHReg : Byte := bpfStx ||| bpfMem ||| bpfH
def stWReg : Byte := bpfStx ||| bpfMem ||| bpfW
def stDwReg : Byte := bpfStx ||| bpfMem ||| bpfDw
def ld1bReg : Byte := bpfAlu32Load ||| bpfX ||| bpf1b
def ld2bReg : Byte := bpfAlu32Load ||| bpfX ||| bpf2b
def ld4bReg : Byte := bpfAlu32Load ||| bpfX ||| bpf4b
def ld8bReg : Byte := bpfAlu32Load ||| bpfX ||| bpf8b
def st1bImm : Byte := bpfAlu64Store ||| bpfK ||| bpf1b
def st2bImm : Byte := bpfAlu64Store ||| bpfK ||| bpf2b
def st4bImm : Byte := bpfAlu64Store ||| bpfK ||| bpf4b
def st8bImm : Byte := bpfAlu64Store ||| bpfK ||| bpf8b
def st1bReg : Byte := bpfAlu64Store ||| bpfX ||| bpf1b
def st2bReg : Byte := bpfAlu64Store ||| bpfX ||| bpf2b
def st4bReg : Byte := bpfAlu64Store ||| bpfX ||| bpf4b
def st8bReg : Byte := bpfAlu64Store ||| bpfX ||| bpf8b
def add32Imm : Byte := bpfAlu32Load ||| bpfK ||| bpfAdd
def add32Reg : Byte := bpfAlu32Load ||| bpfX ||| bpfAdd
def sub32Imm : Byte := bpfAlu32Load ||| bpfK ||| bpfSub
def sub32Reg : Byte := bpfAlu32Load ||| bpfX ||| bpfSub
def mul32Imm : Byte := bpfAlu32Load ||| bpfK ||| bpfMul
def mul32Reg : Byte := bpfAlu32Load ||| bpfX ||| bpfMul
def div32Imm : Byte := bpfAlu32Load ||| bpfK ||| bpfDiv
def div32Reg : Byte := bpfAlu32Load ||| bpfX ||| bpfDiv
def or32Imm : Byte := bpfAlu32Load ||| bpfK ||| bpfOr
def or32Reg : Byte := bpfAlu32Load ||| bpfX ||| bpfOr
def and32Imm : Byte := bpfAlu32Load ||| bpfK ||| bpfAnd
def and32Reg : Byte := bpfAlu32Load ||| bpfX ||| bpfAnd
def lsh32Imm : Byte := bpfAlu32Load ||| bpfK ||| bpfLsh
def lsh32Reg : Byte := bpfAlu32Load ||| bpfX ||| bpfLsh
def rsh32Imm : Byte := bpfAlu32Load ||| bpfK ||| bpfRsh
def rsh32Reg : Byte := bpfAlu32Load ||| bpfX ||| bpfRsh
def neg32 : Byte := bpfAlu32Load ||| bpfNeg
def mod32Imm : Byte := bpfAlu32Load ||| bpfK ||| bpfMod
def mod32Reg : Byte := bpfAlu32Load ||| bpfX ||| bpfMod
def xor32Imm : Byte := bpfAlu32Load ||| bpfK ||| bpfXor
def xor32Reg : Byte := bpfAlu32Load ||| bpfX ||| bpfXor
def mov32Imm : Byte := bpfAlu32Load ||| bpfK ||| bpfMov
def mov32Reg : Byte := bpfAlu32Load ||| bpfX ||| bpfMov
def arsh32Imm : Byte := bpfAlu32Load ||| bpfK ||| bpfArsh
def arsh32Reg : Byte := bpfAlu32Load ||| bpfX ||| bpfArsh
def lmul32Imm : Byte := bpfPqr ||| bpfK ||| bpfLmul
def lmul32Reg : Byte := bpfPqr ||| bpfX ||| bpfLmul
def udiv32Imm : Byte := bpfPqr ||| bpfK ||| bpfUdiv
def udiv32Reg : Byte := bpfPqr ||| bpfX ||| bpfUdiv
def urem32Imm : Byte := bpfPqr ||| bpfK ||| bpfUrem
def urem32Reg : Byte := bpfPqr ||| bpfX ||| bpfUrem
def sdiv32Imm : Byte := bpfPqr ||| bpfK ||| bpfSdiv
def sdiv32Reg : Byte := bpfPqr ||| bpfX ||| bpfSdiv
def srem32Imm : Byte := bpfPqr ||| bpfK ||| bpfSrem
def srem32Reg : Byte := bpfPqr ||| bpfX ||| bpfSrem
def le : Byte := bpfAlu32Load ||| bpfK ||| bpfEnd
def be : Byte := bpfAlu32Load ||| bpfX ||| bpfEnd
def add64Imm : Byte := bpfAlu64Store ||| bpfK ||| bpfAdd
def add64Reg : Byte := bpfAlu64Store ||| bpfX ||| bpfAdd
def sub64Imm : Byte := bpfAlu64Store ||| bpfK ||| bpfSub
def sub64Reg : Byte := bpfAlu64Store ||| bpfX ||| bpfSub
def mul64Imm : Byte := bpfAlu64Store ||| bpfK ||| bpfMul
def mul64Reg : Byte := bpfAlu64Store ||| bpfX ||| bpfMul
def div64Imm : Byte := bpfAlu64Store ||| bpfK ||| bpfDiv
def div64Reg : Byte := bpfAlu64Store ||| bpfX ||| bpfDiv
def or64Imm : Byte := bpfAlu64Store ||| bpfK ||| bpfOr
def or64Reg : Byte := bpfAlu64Store ||| bpfX ||| bpfOr
def and64Imm : Byte := bpfAlu64Store ||| bpfK ||| bpfAnd
def and64Reg : Byte := bpfAlu64Store ||| bpfX ||| bpfAnd
def lsh64Imm : Byte := bpfAlu64Store ||| bpfK ||| bpfLsh
def lsh64Reg : Byte := bpfAlu64Store ||| bpfX ||| bpfLsh
def rsh64Imm : Byte := bpfAlu64Store ||| bpfK ||| bpfRsh
def rsh64Reg : Byte := bpfAlu64Store ||| bpfX ||| bpfRsh
def neg64 : Byte := bpfAlu64Store ||| bpfNeg
def mod64Imm : Byte := bpfAlu64Store ||| bpfK ||| bpfMod
def mod64Reg : Byte := bpfAlu64Store ||| bpfX ||| bpfMod
def xor64Imm : Byte := bpfAlu64Store ||| bpfK ||| bpfXor
def xor64Reg : Byte := bpfAlu64Store ||| bpfX ||| bpfXor
def mov64Imm : Byte := bpfAlu64Store ||| bpfK ||| bpfMov
def mov64Reg : Byte := bpfAlu64Store ||| bpfX ||| bpfMov
def arsh64Imm : Byte := bpfAlu64Store ||| bpfK ||| bpfArsh
def arsh64Reg : Byte := bpfAlu64Store ||| bpfX ||| bpfArsh
def hor64Imm : Byte := bpfAlu64Store ||| bpfK ||| bpfHor
def lmul64Imm : Byte := bpfPqr ||| bpfB ||| bpfK ||| bpfLmul
def lmul64Reg : Byte := bpfPqr ||| bpfB ||| bpfX ||| bpfLmul
def uhmul64Imm : Byte := bpfPqr ||| bpfB ||| bpfK ||| bpfUhmul
def uhmul64Reg : Byte := bpfPqr ||| bpfB ||| bpfX ||| bpfUhmul
def udiv64Imm : Byte := bpfPqr ||| bpfB ||| bpfK ||| bpfUdiv
def udiv64Reg : Byte := bpfPqr ||| bpfB ||| bpfX ||| bpfUdiv
def urem64Imm : Byte := bpfPqr ||| bpfB ||| bpfK ||| bpfUrem
def urem64Reg : Byte := bpfPqr ||| bpfB ||| bpfX ||| bpfUrem
def shmul64Imm : Byte := bpfPqr ||| bpfB ||| bpfK ||| bpfShmul
def shmul64Reg : Byte := bpfPqr ||| bpfB ||| bpfX ||| bpfShmul
def sdiv64Imm : Byte := bpfPqr ||| bpfB ||| bpfK ||| bpfSdiv
def sdiv64Reg : Byte := bpfPqr ||| bpfB ||| bpfX ||| bpfSdiv
def srem64Imm : Byte := bpfPqr ||| bpfB ||| bpfK ||| bpfSrem
def srem64Reg : Byte := bpfPqr ||| bpfB ||| bpfX ||| bpfSrem
def jeq32Imm : Byte := bpfJmp32 ||| bpfK ||| bpfJeq
def jeq32Reg : Byte := bpfJmp32 ||| bpfX ||| bpfJeq
def jgt32Imm : Byte := bpfJmp32 ||| bpfK ||| bpfJgt
def jgt32Reg : Byte := bpfJmp32 ||| bpfX ||| bpfJgt
def jge32Imm : Byte := bpfJmp32 ||| bpfK ||| bpfJge
def jge32Reg : Byte := bpfJmp32 ||| bpfX ||| bpfJge
def jlt32Imm : Byte := bpfJmp32 ||| bpfK ||| bpfJlt
def jlt32Reg : Byte := bpfJmp32 ||| bpfX ||| bpfJlt
def jle32Imm : Byte := bpfJmp32 ||| bpfK ||| bpfJle
def jle32Reg : Byte := bpfJmp32 ||| bpfX ||| bpfJle
def jset32Imm : Byte := bpfJmp32 ||| bpfK ||| bpfJset
def jset32Reg : Byte := bpfJmp32 ||| bpfX ||| bpfJset
def jne32Imm : Byte := bpfJmp32 ||| bpfK ||| bpfJne
def jne32Reg : Byte := bpfJmp32 ||| bpfX ||| bpfJne
def jsgt32Imm : Byte := bpfJmp32 ||| bpfK ||| bpfJsgt
def jsgt32Reg : Byte := bpfJmp32 ||| bpfX ||| bpfJsgt
def jsge32Imm : Byte := bpfJmp32 ||| bpfK ||| bpfJsge
def jsge32Reg : Byte := bpfJmp32 ||| bpfX ||| bpfJsge
def jslt32Imm : Byte := bpfJmp32 ||| bpfK ||| bpfJslt
def jslt32Reg : Byte := bpfJmp32 ||| bpfX ||| bpfJslt
def jsle32Imm : Byte := bpfJmp32 ||| bpfK ||| bpfJsle
def jsle32Reg : Byte := bpfJmp32 ||| bpfX ||| bpfJsle
def ja : Byte := bpfJmp64 ||| bpfJa
def jeq64Imm : Byte := bpfJmp64 ||| bpfK ||| bpfJeq
def jeq64Reg : Byte := bpfJmp64 ||| bpfX ||| bpfJeq
def jgt64Imm : Byte := bpfJmp64 ||| bpfK ||| bpfJgt
def jgt64Reg : Byte := bpfJmp64 ||| bpfX ||| bpfJgt
def jge64Imm : Byte := bpfJmp64 ||| bpfK ||| bpfJge
def jge64Reg : Byte := bpfJmp64 ||| bpfX ||| bpfJge
def jlt64Imm : Byte := bpfJmp64 ||| bpfK ||| bpfJlt
def jlt64Reg : Byte := bpfJmp64 ||| bpfX ||| bpfJlt
def jle64Imm : Byte := bpfJmp64 ||| bpfK ||| bpfJle
def jle64Reg : Byte := bpfJmp64 ||| bpfX ||| bpfJle
def jset64Imm : Byte := bpfJmp64 ||| bpfK ||| bpfJset
def jset64Reg : Byte := bpfJmp64 ||| bpfX ||| bpfJset
def jne64Imm : Byte := bpfJmp64 ||| bpfK ||| bpfJne
def jne64Reg : Byte := bpfJmp64 ||| bpfX ||| bpfJne
def jsgt64Imm : Byte := bpfJmp64 ||| bpfK ||| bpfJsgt
def jsgt64Reg : Byte := bpfJmp64 ||| bpfX ||| bpfJsgt
def jsge64Imm : Byte := bpfJmp64 ||| bpfK ||| bpfJsge
def jsge64Reg : Byte := bpfJmp64 ||| bpfX ||| bpfJsge
def jslt64Imm : Byte := bpfJmp64 ||| bpfK ||| bpfJslt
def jslt64Reg : Byte := bpfJmp64 ||| bpfX ||| bpfJslt
def jsle64Imm : Byte := bpfJmp64 ||| bpfK ||| bpfJsle
def jsle64Reg : Byte := bpfJmp64 ||| bpfX ||| bpfJsle
def callImm : Byte := bpfJmp64 ||| bpfCall
def callReg : Byte := bpfJmp64 ||| bpfX ||| bpfCall
def exit : Byte := bpfJmp64 ||| bpfExit

end Ebpf

/-! ## Instructions -/

structure Insn where
  ptr : Nat := 0
  opc : Byte := 0
  dst : Byte := 0
  src : Byte := 0
  off : BitVec 16 := 0
  imm : BitVec 64 := 0
  deriving DecidableEq, Repr

/-- The text bytes of an executable: a slice, so no longer than `isize::MAX`. -/
structure Text where
  bytes : List Byte
  length_lt : bytes.length < 2 ^ 63

def isPcInProgram (prog : List Byte) (pc : Nat) : Bool :=
  decide ((pc + 1) * Ebpf.insnSize ≤ prog.length)

def readLe (n : Nat) (prog : List Byte) (i : Nat) : Option Nat :=
  (takeLe n (prog.drop i)).map (·.1)

/-- `get_insn_unchecked`; indexing past the end panics. -/
def getInsnUnchecked (prog : List Byte) (pc : Nat) : Option Insn := do
  let opc ← prog[Ebpf.insnSize * pc]?
  let regs ← prog[Ebpf.insnSize * pc + 1]?
  let off ← readLe 2 prog (Ebpf.insnSize * pc + 2)
  let imm ← readLe 4 prog (Ebpf.insnSize * pc + 4)
  some { ptr := pc, opc, dst := regs &&& 0x0f, src := (regs &&& 0xf0) >>> 4,
         off := BitVec.ofNat 16 off, imm := (BitVec.ofNat 32 imm).signExtend 64 }

def getInsn (dbg : Bool) (prog : List Byte) (pc : Nat) : Option Insn :=
  if dbg && !isPcInProgram prog pc then none else getInsnUnchecked prog pc

def augmentLddwUnchecked (prog : List Byte) (insn : Insn) : Option Insn := do
  let moreSignificantHalf ← readLe 4 prog ((insn.ptr + 1) * Ebpf.insnSize + 4)
  let hi := ((BitVec.ofNat 32 moreSignificantHalf).signExtend 64) <<< 32
  some { insn with imm := (insn.imm &&& 0xffffffff) ||| hi }

/-! ## Versions -/

inductive SBPFVersion
  | v0 | v1 | v2 | v3 | v4 | reserved
  deriving DecidableEq, Repr

namespace SBPFVersion

/-- `self >= SBPFVersion::V3` in the derived order. -/
def atLeastV3 : SBPFVersion → Bool
  | .v0 | .v1 | .v2 => false
  | .v3 | .v4 | .reserved => true

def manualStackFrameBump (self : SBPFVersion) : Bool := self == .v1 || self == .v2
def stackFrameGaps (self : SBPFVersion) : Bool := self == .v0
def enablePqr (self : SBPFVersion) : Bool := self == .v2
def explicitSignExtensionOfResults (self : SBPFVersion) : Bool := self == .v2
def swapSubRegImmOperands (self : SBPFVersion) : Bool := self == .v2
def disableNeg (self : SBPFVersion) : Bool := self == .v2
def callxUsesSrcReg (self : SBPFVersion) : Bool := self == .v2
def disableLddw (self : SBPFVersion) : Bool := self == .v2
def disableLe (self : SBPFVersion) : Bool := self == .v2
def moveMemoryInstructionClasses (self : SBPFVersion) : Bool := self == .v2
def staticSyscalls (self : SBPFVersion) : Bool := self.atLeastV3
def enableJmp32 (self : SBPFVersion) : Bool := self.atLeastV3
def callxUsesDstReg (self : SBPFVersion) : Bool := self.atLeastV3

end SBPFVersion

end Aeneas.Sbpf
