import Aeneas.Bytes

/-!
# An x86-64 machine

A decoder for 64-bit mode (operand-size prefix, REX, one- and two-byte opcode
maps, ModRM, SIB, displacement, immediate) and the effect of the instructions a
compiler of straight-line integer code emits: moves, two-operand arithmetic,
shifts, compares and tests, stack pushes and pops, relative jumps. The code is
a list of bytes apart from the data memory, and `rip` is an offset into it.
-/

namespace Aeneas.X86

/-! ## Decoding -/

structure Rex where
  w : Bool := false
  r : Bool := false
  x : Bool := false
  b : Bool := false
  deriving DecidableEq, Repr

abbrev Reg := BitVec 4

def Reg.of (hi : Bool) (lo : BitVec 3) : Reg := BitVec.cons hi lo

inductive Operand
  | reg (r : Reg)
  /-- `base + index * 2^scale + disp` -/
  | mem (base : Option Reg) (index : Option (Reg × BitVec 2)) (disp : BitVec 64)
  | ripRelative (disp : BitVec 64)
  deriving DecidableEq, Repr

/-- The immediate that follows an opcode. `immZ` is 32 bits, or 16 under an operand
size prefix; `immV` is as wide as the operand; `enter` has 16 and 8 bits, and a move
of the accumulator an address; the two `group3` opcodes have one only for `/0` and
`/1`. -/
inductive Imm
  | none | imm8 | imm16 | imm24 | address | immZ | immV | group3b | group3z
  deriving DecidableEq, Repr

structure Form where
  modrm : Bool
  imm : Imm := .none
  deriving DecidableEq, Repr

/-- The one-byte opcode map of 64-bit mode. Prefixes and undefined opcodes are `none`. -/
def oneByteForm (o : Nat) : Option Form :=
  if o < 0x40 then
    if o % 8 < 4 then some { modrm := true }
    else if o % 8 = 4 then some { modrm := false, imm := .imm8 }
    else if o % 8 = 5 then some { modrm := false, imm := .immZ }
    else none
  else if o < 0x50 ∨ o ∈ [0x60, 0x61, 0x62, 0x64, 0x65, 0x66, 0x67, 0x82, 0x9a] then none
  else if o < 0x60 then some { modrm := false }
  else if o = 0x63 then some { modrm := true }
  else if o = 0x68 then some { modrm := false, imm := .immZ }
  else if o = 0x69 ∨ o = 0x81 then some { modrm := true, imm := .immZ }
  else if o = 0x6a then some { modrm := false, imm := .imm8 }
  else if o = 0x6b ∨ o = 0x80 ∨ o = 0x83 then some { modrm := true, imm := .imm8 }
  else if o < 0x70 then some { modrm := false }
  else if o < 0x80 then some { modrm := false, imm := .imm8 }
  else if o < 0x90 then some { modrm := true }
  else if o < 0xa0 then some { modrm := false }
  else if o < 0xa4 then some { modrm := false, imm := .address }
  else if o = 0xa8 then some { modrm := false, imm := .imm8 }
  else if o = 0xa9 then some { modrm := false, imm := .immZ }
  else if o < 0xb0 then some { modrm := false }
  else if o < 0xb8 then some { modrm := false, imm := .imm8 }
  else if o < 0xc0 then some { modrm := false, imm := .immV }
  else if o < 0xc2 ∨ o = 0xc6 then some { modrm := true, imm := .imm8 }
  else if o = 0xc2 ∨ o = 0xca then some { modrm := false, imm := .imm16 }
  else if o = 0xc7 then some { modrm := true, imm := .immZ }
  else if o = 0xc8 then some { modrm := false, imm := .imm24 }
  else if o ∈ [0xc4, 0xc5, 0xce, 0xd4, 0xd5, 0xd6, 0xea, 0xf0, 0xf2, 0xf3] then none
  else if o = 0xcd ∨ 0xe0 ≤ o ∧ o < 0xe8 ∨ o = 0xeb then some { modrm := false, imm := .imm8 }
  else if o < 0xd0 ∨ o = 0xd7 then some { modrm := false }
  else if o < 0xe0 ∨ o = 0xfe ∨ o = 0xff then some { modrm := true }
  else if o < 0xea then some { modrm := false, imm := .immZ }
  else if o = 0xf6 then some { modrm := true, imm := .group3b }
  else if o = 0xf7 then some { modrm := true, imm := .group3z }
  else some { modrm := false }

/-- The two-byte opcode map of 64-bit mode, whatever the prefixes. Escapes to other maps and undefined
opcodes are `none`, and so are the moves of control and debug registers, whose ModRM byte has no memory
operand. -/
def twoByteForm (o : Nat) : Option Form :=
  if o ∈ [0x04, 0x0a, 0x0c, 0x0e, 0x0f, 0x36, 0x7a, 0x7b, 0xa6, 0xa7, 0xb8] ∨ 0x20 ≤ o ∧ o < 0x28 ∨
      0x38 ≤ o ∧ o < 0x40 then none
  else if o ∈ [0x05, 0x06, 0x07, 0x08, 0x09, 0x0b, 0x77, 0xa0, 0xa1, 0xa2, 0xa8, 0xa9, 0xaa] ∨
      0x30 ≤ o ∧ o < 0x38 ∨ 0xc8 ≤ o ∧ o < 0xd0 then some { modrm := false }
  else if 0x80 ≤ o ∧ o < 0x90 then some { modrm := false, imm := .immZ }
  else if o ∈ [0x70, 0x71, 0x72, 0x73, 0xa4, 0xac, 0xba, 0xc2, 0xc4, 0xc5, 0xc6] then some { modrm := true, imm :=
    .imm8 }
  else some { modrm := true }

structure Decoded where
  operandSize16 : Bool
  rex : Rex
  escaped : Bool
  opcode : Byte
  /-- ModRM `reg` with `REX.R`, and the `r/m` operand. -/
  modrm : Option (Reg × Operand)
  /-- The immediate, sign-extended. -/
  imm : BitVec 64
  deriving DecidableEq, Repr

def takeSigned (n : Nat) (bs : List Byte) : Option (BitVec 64 × List Byte) := do
  let (v, bs) ← takeLe n bs
  some ((BitVec.ofNat (8 * n) v).signExtend 64, bs)

def modField (b : Byte) : BitVec 2 := b.extractLsb' 6 2
def regField (b : Byte) : BitVec 3 := b.extractLsb' 3 3
def rmField (b : Byte) : BitVec 3 := b.extractLsb' 0 3

/-- The displacement that follows ModRM or SIB for each `mod`. -/
def takeDisp (mode : BitVec 2) (bs : List Byte) : Option (BitVec 64 × List Byte) :=
  if mode = 1 then takeSigned 1 bs else if mode = 2 then takeSigned 4 bs else some (0, bs)

def decodeRm (rex : Rex) (mode : BitVec 2) (rm : BitVec 3) (bs : List Byte) :
    Option (Operand × List Byte) :=
  if mode = 3 then some (.reg (Reg.of rex.b rm), bs)
  else if rm = 4 then
    match bs with
    | [] => none
    | sib :: bs => do
      -- index number 4 (without REX.X) stands for no index
      let index := Reg.of rex.x (regField sib)
      let index := if index = 4 then none else some (index, modField sib)
      if mode = 0 ∧ rmField sib = 5 then
        let (disp, bs) ← takeSigned 4 bs
        some (.mem none index disp, bs)
      else
        let (disp, bs) ← takeDisp mode bs
        some (.mem (some (Reg.of rex.b (rmField sib))) index disp, bs)
  else if mode = 0 ∧ rm = 5 then do
    let (disp, bs) ← takeSigned 4 bs
    some (.ripRelative disp, bs)
  else do
    let (disp, bs) ← takeDisp mode bs
    some (.mem (some (Reg.of rex.b rm)) none disp, bs)

def decodeModRm (rex : Rex) : List Byte → Option ((Reg × Operand) × List Byte)
  | [] => none
  | b :: bs => do
    let (operand, bs) ← decodeRm rex (modField b) (rmField b) bs
    some ((Reg.of rex.r (regField b), operand), bs)

def immLength (operandSize16 : Bool) (rex : Rex) (reg : Reg) : Imm → Nat
  | .none => 0
  | .imm8 => 1
  | .imm16 => 2
  | .imm24 => 3
  | .address => 8
  | .immZ => if operandSize16 && !rex.w then 2 else 4
  | .immV => if rex.w then 8 else if operandSize16 then 2 else 4
  | .group3b => if reg.extractLsb' 0 3 = 0#3 ∨ reg.extractLsb' 0 3 = 1#3 then 1 else 0
  | .group3z =>
    if reg.extractLsb' 0 3 = 0#3 ∨ reg.extractLsb' 0 3 = 1#3 then
      if operandSize16 && !rex.w then 2 else 4
    else 0

def decodeOperands (operandSize16 : Bool) (rex : Rex) (escaped : Bool) (opcode : Byte) (form : Form)
    (bs : List Byte) : Option (Decoded × List Byte) := do
  let (modrm, bs) ←
    if form.modrm then (decodeModRm rex bs).map fun (m, bs) => (some m, bs) else some (none, bs)
  let reg := match modrm with | some (r, _) => r | none => 0
  let (imm, bs) ← takeSigned (immLength operandSize16 rex reg form.imm) bs
  some ({ operandSize16, rex, escaped, opcode, modrm, imm }, bs)

def decodeOpcode (operandSize16 : Bool) (rex : Rex) : List Byte → Option (Decoded × List Byte)
  | [] => none
  | b :: bs =>
    if b = 0x0f then
      match bs with
      | [] => none
      | o :: bs => do
        let form ← twoByteForm o.toNat
        decodeOperands operandSize16 rex true o form bs
    else do
      let form ← oneByteForm b.toNat
      decodeOperands operandSize16 rex false b form bs

def decodeRex (operandSize16 : Bool) : List Byte → Option (Decoded × List Byte)
  | [] => none
  | b :: bs =>
    if b.extractLsb' 4 4 = 4#4 then
      decodeOpcode operandSize16
        { w := b.getLsbD 3, r := b.getLsbD 2, x := b.getLsbD 1, b := b.getLsbD 0 } bs
    else decodeOpcode operandSize16 {} (b :: bs)

def decode : List Byte → Option (Decoded × List Byte)
  | [] => none
  | b :: bs => if b = 0x66 then decodeRex true bs else decodeRex false (b :: bs)

/-! ## State -/

structure Flags where
  cf : Bool
  zf : Bool
  sf : Bool
  of : Bool
  deriving DecidableEq, Repr

structure State where
  rip : Nat
  regs : Reg → BitVec 64
  flags : Flags
  mem : BitVec 64 → Byte

def rcx : Reg := 1
def rsp : Reg := 4

def State.setReg (s : State) (r : Reg) (v : BitVec 64) : State :=
  { s with regs := fun r' => if r' = r then v else s.regs r' }

/-- Write an operand: a 32-bit result clears the upper half of its register. -/
def State.write (s : State) (w64 : Bool) (r : Reg) (v : BitVec 64) : State :=
  s.setReg r (if w64 then v else (v.setWidth 32).setWidth 64)

def store64 (mem : BitVec 64 → Byte) (a v : BitVec 64) : BitVec 64 → Byte :=
  fun b => if (b - a).toNat < 8 then v.extractLsb' (8 * (b - a).toNat) 8 else mem b

def load64 (mem : BitVec 64 → Byte) (a : BitVec 64) : BitVec 64 :=
  BitVec.ofNat 64 (leValue ((List.range 8).map fun i => mem (a + BitVec.ofNat 64 i)))

/-! ## Arithmetic -/

section
variable {w : Nat}

def logicFlags (v : BitVec w) : Flags :=
  { cf := false, zf := v == 0, sf := v.msb, of := false }

def addFlags (x y : BitVec w) : Flags :=
  { cf := decide (2 ^ w ≤ x.toNat + y.toNat), zf := x + y == 0, sf := (x + y).msb,
    of := x.msb == y.msb && (x + y).msb != x.msb }

def subFlags (x y : BitVec w) : Flags :=
  { cf := decide (x.toNat < y.toNat), zf := x - y == 0, sf := (x - y).msb,
    of := x.msb != y.msb && (x - y).msb != x.msb }

end

inductive Alu
  | add | or | and | sub | xor | cmp | test
  deriving DecidableEq, Repr

def Alu.result {w : Nat} (x y : BitVec w) : Alu → BitVec w
  | .add => x + y
  | .or => x ||| y
  | .and | .test => x &&& y
  | .sub | .cmp => x - y
  | .xor => x ^^^ y

def Alu.flags {w : Nat} (x y : BitVec w) : Alu → Flags
  | .add => addFlags x y
  | .sub | .cmp => subFlags x y
  | .or => logicFlags (x ||| y)
  | .and | .test => logicFlags (x &&& y)
  | .xor => logicFlags (x ^^^ y)

def Alu.writes : Alu → Bool
  | .cmp | .test => false
  | _ => true

def State.alu (s : State) (op : Alu) (w64 : Bool) (dst : Reg) (y : BitVec 64) : State :=
  let x := s.regs dst
  let v := if w64 then op.result x y else (op.result (x.setWidth 32) (y.setWidth 32)).setWidth 64
  let flags := if w64 then op.flags x y else op.flags (x.setWidth 32) (y.setWidth 32)
  if op.writes then { s.write w64 dst v with flags } else { s with flags }

inductive Shift
  | shl | shr | sar
  deriving DecidableEq, Repr

def Shift.result {w : Nat} (x : BitVec w) (n : Nat) : Shift → BitVec w
  | .shl => x <<< n
  | .shr => x >>> n
  | .sar => x.sshiftRight n

/-- Flags of a shift by `n > 0`. The overflow flag is defined for `n = 1` only;
`undef` is what the processor leaves there otherwise. -/
def Shift.flags {w : Nat} (undef : Bool) (x : BitVec w) (n : Nat) (op : Shift) : Flags :=
  let v := op.result x n
  let cf := match op with
    | .shl => x.getLsbD (w - n)
    | .shr | .sar => x.getLsbD (n - 1)
  let of := match op with
    | .shl => v.msb != cf
    | .shr => x.msb
    | .sar => false
  { cf, zf := v == 0, sf := v.msb, of := if n = 1 then of else undef }

/-- The count is masked to 5 or 6 bits; a masked count of 0 leaves the flags alone. -/
def State.shift (s : State) (undef : Bool) (op : Shift) (w64 : Bool) (dst : Reg) (count : Byte) : State :=
  let x := s.regs dst
  let n := count.toNat % (if w64 then 64 else 32)
  let v := if w64 then op.result x n else (op.result (x.setWidth 32) n).setWidth 64
  let flags :=
    if n = 0 then s.flags
    else if w64 then op.flags undef x n else op.flags undef (x.setWidth 32) n
  { s.write w64 dst v with flags }

def State.push (s : State) (v : BitVec 64) : State :=
  let a := s.regs rsp - 8
  { s.setReg rsp a with mem := store64 s.mem a v }

def State.pop (s : State) (r : Reg) : State :=
  let a := s.regs rsp
  (s.setReg rsp (a + 8)).setReg r (load64 s.mem a)

def condition (f : Flags) (cc : BitVec 4) : Option Bool :=
  match cc with
  | 0x0#4 => some f.of
  | 0x1#4 => some !f.of
  | 0x2#4 => some f.cf
  | 0x3#4 => some !f.cf
  | 0x4#4 => some f.zf
  | 0x5#4 => some !f.zf
  | 0x6#4 => some (f.cf || f.zf)
  | 0x7#4 => some (!f.cf && !f.zf)
  | 0x8#4 => some f.sf
  | 0x9#4 => some !f.sf
  | 0xc#4 => some (f.sf != f.of)
  | 0xd#4 => some (f.sf == f.of)
  | 0xe#4 => some (f.zf || f.sf != f.of)
  | 0xf#4 => some (!f.zf && f.sf == f.of)
  | _ => none

/-! ## Execution -/

def State.jump (s : State) (disp : BitVec 64) : Option State :=
  let target := (s.rip : Int) + disp.toInt
  if 0 ≤ target then some { s with rip := target.toNat } else none

def aluOfOpcode (opcode : Byte) : Option Alu :=
  match opcode with
  | 0x01#8 => some .add
  | 0x09#8 => some .or
  | 0x21#8 => some .and
  | 0x29#8 => some .sub
  | 0x31#8 => some .xor
  | 0x39#8 => some .cmp
  | 0x85#8 => some .test
  | _ => none

def aluOfGroup1 (ext : BitVec 3) : Option Alu :=
  match ext with
  | 0#3 => some .add
  | 1#3 => some .or
  | 4#3 => some .and
  | 5#3 => some .sub
  | 6#3 => some .xor
  | 7#3 => some .cmp
  | _ => none

def shiftOfGroup2 (ext : BitVec 3) : Option Shift :=
  match ext with
  | 4#3 => some .shl
  | 5#3 => some .shr
  | 7#3 => some .sar
  | _ => none

def execReg (undef : Bool) (s : State) (w64 : Bool) (opcode : Byte) (reg dst : Reg) (imm : BitVec 64) :
    Option State :=
  let ext := reg.extractLsb' 0 3
  match opcode with
  | 0x81#8 => (aluOfGroup1 ext).map fun op => s.alu op w64 dst imm
  | 0xf7#8 => if ext = 0 then some (s.alu .test w64 dst imm) else none
  | 0xc1#8 => (shiftOfGroup2 ext).map fun op => s.shift undef op w64 dst (imm.setWidth 8)
  | 0xd3#8 => (shiftOfGroup2 ext).map fun op => s.shift undef op w64 dst ((s.regs rcx).setWidth 8)
  | 0xc7#8 => if ext = 0 then some (s.write w64 dst imm) else none
  | 0x89#8 => some (s.write w64 dst (s.regs reg))
  | 0x87#8 =>
    let x := s.regs dst
    some ((s.write w64 dst (s.regs reg)).write w64 reg x)
  | _ => (aluOfOpcode opcode).map fun op => s.alu op w64 dst (s.regs reg)

/-- Instructions without ModRM. The register of `50+r`, `58+r` and `b8+r` is in the
opcode; `ret` leaves the code and is not a step. -/
def execPlain (s : State) (rex : Rex) (opcode : Byte) (imm : BitVec 64) : Option State :=
  let r := Reg.of rex.b (opcode.extractLsb' 0 3)
  match opcode.extractLsb' 3 5 with
  | 0b01010#5 => some (s.push (s.regs r))
  | 0b01011#5 => some (s.pop r)
  | 0b10111#5 => some (s.write rex.w r imm)
  | _ => if opcode = 0xe9 then s.jump imm else none

/-- The effect of a decoded instruction on a state whose `rip` is already past it. -/
def exec (undef : Bool) (d : Decoded) (s : State) : Option State :=
  if d.operandSize16 then none
  else if d.escaped then
    if d.opcode.extractLsb' 4 4 = 8#4 then
      match condition s.flags (d.opcode.extractLsb' 0 4) with
      | some true => s.jump d.imm
      | some false => some s
      | none => none
    else none
  else
    match d.modrm with
    | some (reg, .reg dst) => execReg undef s d.rex.w d.opcode reg dst d.imm
    | some _ => none
    | none => execPlain s d.rex d.opcode d.imm

/-- One step in `code`. `undef s` is the overflow flag after a shift by more than one. -/
def step (undef : State → Bool) (code : List Byte) (s : State) : Option State := do
  let (d, rest) ← decode (code.drop s.rip)
  exec (undef s) d { s with rip := code.length - rest.length }

def AtRet (code : List Byte) (s : State) : Prop :=
  ∃ d rest, decode (code.drop s.rip) = some (d, rest) ∧ d.escaped = false ∧ d.opcode = 0xc3

inductive Steps (undef : State → Bool) (code : List Byte) : State → State → Prop
  | refl (s : State) : Steps undef code s s
  | step {s₁ s₂ s₃ : State} : step undef code s₁ = some s₂ → Steps undef code s₂ s₃ → Steps undef code s₁ s₃

theorem Steps.trans {undef : State → Bool} {code : List Byte} {s₁ s₂ s₃ : State}
    (h₁ : Steps undef code s₁ s₂) (h₂ : Steps undef code s₂ s₃) : Steps undef code s₁ s₃ := by
  induction h₁ with
  | refl => exact h₂
  | step h _ ih => exact .step h (ih h₂)

theorem Steps.single {undef : State → Bool} {code : List Byte} {s₁ s₂ : State}
    (h : X86.step undef code s₁ = some s₂) : Steps undef code s₁ s₂ := .step h (.refl _)

end Aeneas.X86
