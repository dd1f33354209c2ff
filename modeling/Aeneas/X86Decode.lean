import Aeneas.X86Sound

/-!
# Decoding every encoded instruction

For an opcode of the maps with the operands and the immediate the instruction
has, the machine reads back what `encode` wrote, on registers and in memory, and
leaves the bytes that follow. The exception is an indexed operand all of whose
SIB fields are zero: `encode` leaves its SIB byte out.
-/

namespace Aeneas.Sbpf

open X86 X86Instruction List

namespace X86Instruction

def form (i : X86Instruction) : Option Form :=
  if i.opcodeEscapeSequence = 1 then twoByteForm i.opcode.toNat else oneByteForm i.opcode.toNat

def rex (i : X86Instruction) : Rex :=
  { w := i.size == .s64, r := i.firstOperand &&& 0b1000 != 0, x := i.addressing.x,
    b := i.secondOperand &&& 0b1000 != 0 }

def operand (i : X86Instruction) : Operand :=
  match i.indirect with
  | none => .reg (i.secondOperand.setWidth 4)
  | some (.offset displacement) => .mem (some (i.secondOperand.setWidth 4)) none (displacement.signExtend 64)
  | some (.offsetIndexShift displacement index shift) =>
    .mem (some (i.secondOperand.setWidth 4)) (some (index.num, shift.setWidth 2)) (displacement.signExtend 64)

def decoded (i : X86Instruction) : Decoded :=
  { operandSize16 := i.size == .s16, rex := i.rex, escaped := i.opcodeEscapeSequence == 1, opcode := i.opcode,
    modrm := if i.modrm then some (i.firstOperand.setWidth 4, i.operand) else none,
    imm := i.immediateSize.readBack i.immediate }

/-- The opcode takes a ModRM byte if the instruction has one, and an immediate of its size. -/
structure HasForm (i : X86Instruction) : Prop where
  escape : i.opcodeEscapeSequence = 0 ∨ i.opcodeEscapeSequence = 1
  form : ∃ form, i.form = some form ∧ form.modrm = i.modrm ∧
    immLength (i.size == .s16) i.rex (if i.modrm then i.firstOperand.setWidth 4 else 0) form.imm =
      i.immediateSize.byteCount

structure HasRegisters (i : X86Instruction) : Prop where
  first : i.firstOperand.toNat < 16
  second : i.secondOperand.toNat < 16

def sibByte (i : X86Instruction) : Byte :=
  (i.addressing.sib.scale <<< 6) ||| (i.addressing.sib.index <<< 3) ||| i.addressing.sib.base

end X86Instruction

/-! ## Prefixes and opcode -/

def rexOf (rex : Rex) : Byte :=
  (boolToU8 rex.w <<< 3) ||| (boolToU8 rex.r <<< 2) ||| (boolToU8 rex.x <<< 1) ||| boolToU8 rex.b

theorem decodeRex_written (operandSize16 : Bool) (rex : Rex) {o : Byte} (bs : List Byte)
    (ho : o.extractLsb' 4 4 ≠ 4#4) :
    decodeRex operandSize16 ((if rexOf rex != 0 then [0x40 ||| rexOf rex] else []) ++ o :: bs) =
      decodeOpcode operandSize16 rex (o :: bs) := by
  have hplain : decodeRex operandSize16 (o :: bs) = decodeOpcode operandSize16 {} (o :: bs) := by
    simp only [decodeRex, if_neg ho]
  obtain ⟨w, r, x, b⟩ := rex
  cases w <;> cases r <;> cases x <;> cases b
  · exact hplain
  all_goals rfl

theorem decode_prefixes (operandSize16 : Bool) (rex : Rex) {o : Byte} (bs : List Byte) (h66 : o ≠ 0x66)
    (ho : o.extractLsb' 4 4 ≠ 4#4) :
    decode ((if operandSize16 then [0x66] else []) ++ (if rexOf rex != 0 then [0x40 ||| rexOf rex] else []) ++ o ::
      bs) =
      decodeOpcode operandSize16 rex (o :: bs) := by
  rw [← decodeRex_written operandSize16 rex bs ho]
  cases operandSize16 with
  | true => rfl
  | false =>
    have hrex : ∀ rex : Rex, (0x40 ||| rexOf rex) ≠ (0x66 : Byte) := by
      rintro ⟨w, r, x, b⟩
      revert w r x b
      decide
    cases hzero : (rexOf rex != 0) with
    | true => simp only [decode, Bool.false_eq_true, if_false, if_true, nil_append, cons_append,
        if_neg (hrex rex)]
    | false => simp only [decode, Bool.false_eq_true, if_false, nil_append, if_neg h66]

theorem rexByte_eq (i : X86Instruction) : i.rexByte = rexOf i.rex := rfl

variable {form : Form}

theorem decode_head {i : X86Instruction} (hesc : i.opcodeEscapeSequence = 0 ∨ i.opcodeEscapeSequence = 1)
    (hform : i.form = some form) (bs : List Byte) :
    decode ((if i.size = .s16 then [0x66] else []) ++ (if i.rexByte != 0 then [0x40 ||| i.rexByte] else []) ++
        escapeBytes i.opcodeEscapeSequence ++ [i.opcode] ++ bs) =
      decodeOperands (i.size == .s16) i.rex (i.opcodeEscapeSequence == 1) i.opcode form bs := by
  have hsize : (if i.size = .s16 then [(0x66 : Byte)] else []) = if (i.size == .s16) = true then [0x66] else [] := by
    simp
  rw [rexByte_eq, hsize]
  unfold X86Instruction.form at hform
  rcases hesc with hesc | hesc
  · rw [hesc, if_neg (by decide)] at hform
    obtain ⟨h66, ho, h0f⟩ := not_prefix_of_form hform
    have hbytes : escapeBytes i.opcodeEscapeSequence = [] := by rw [hesc]; rfl
    rw [hbytes, append_nil, append_assoc, singleton_append, decode_prefixes _ _ _ h66 ho,
      decodeOpcode_oneByte h0f hform, hesc]
    rfl
  · rw [hesc, if_pos rfl] at hform
    have hbytes : escapeBytes i.opcodeEscapeSequence = [0x0f] := by rw [hesc]; rfl
    rw [hbytes, append_assoc _ _ bs, append_assoc, singleton_append, singleton_append,
      decode_prefixes _ _ _ (by decide) (by decide), decodeOpcode, if_pos rfl, hform, hesc]
    rfl

/-! ## ModRM, SIB and displacement -/

def fieldsByte (high : BitVec 2) (middle low : BitVec 3) : Byte :=
  (high.setWidth 8 <<< 6) ||| (middle.setWidth 8 <<< 3) ||| low.setWidth 8

theorem fieldsByte_fields (high : BitVec 2) (middle low : BitVec 3) :
    modField (fieldsByte high middle low) = high ∧ regField (fieldsByte high middle low) = middle ∧
      rmField (fieldsByte high middle low) = low := by
  revert high middle low
  decide

theorem operand_low (b : Byte) : b &&& 7#8 = (b.setWidth 3).setWidth 8 := by
  revert b
  decide

theorem shift_low (b : Byte) : b &&& 3#8 = (b.setWidth 2).setWidth 8 := by
  revert b
  decide

theorem regOf_operand {b : Byte} (hb : b.toNat < 16) : Reg.of (b &&& 0b1000 != 0) (b.setWidth 3) = b.setWidth 4 := by
  have hall : ∀ b : Byte, b.toNat < 16 → Reg.of (b &&& 0b1000 != 0) (b.setWidth 3) = b.setWidth 4 := by
    decide
  exact hall b hb

theorem readBack_eq_iff (size : OperandSize) (v : BitVec 64) : size.readBack v = v ↔
    -2 ^ (8 * size.byteCount) ≤ 2 * v.toInt ∧ 2 * v.toInt < 2 ^ (8 * size.byteCount) := by
  have hle : 8 * size.byteCount ≤ 64 := by cases size <;> decide
  have hread : (size.readBack v).toInt = Int.bmod v.toNat (2 ^ (8 * size.byteCount)) := by
    rw [OperandSize.readBack, BitVec.toInt_signExtend_of_le hle, BitVec.toInt_setWidth]
  have hv := v.isLt
  rw [← BitVec.toInt_inj, hread, BitVec.toInt_eq_toNat_bmod]
  have hwidth : 8 * size.byteCount = 0 ∨ 8 * size.byteCount = 8 ∨ 8 * size.byteCount = 16 ∨
      8 * size.byteCount = 32 ∨ 8 * size.byteCount = 64 := by cases size <;> decide
  clear hread hle
  generalize 8 * size.byteCount = width at *
  simp only [Int.bmod]
  rcases hwidth with rfl | rfl | rfl | rfl | rfl <;> omega

variable {d : BitVec 32}

theorem readBack_s8_of_fits (h : fitsI8 d = true) :
    OperandSize.s8.readBack (d.signExtend 64) = d.signExtend 64 := by
  have hd : -128 ≤ d.toInt ∧ d.toInt ≤ 127 := of_decide_eq_true h
  rw [readBack_eq_iff, BitVec.toInt_signExtend_of_le (by decide)]
  exact ⟨by simp only [OperandSize.byteCount]; omega, by simp only [OperandSize.byteCount]; omega⟩

theorem readBack_s32_displacement (d : BitVec 32) : OperandSize.s32.readBack (d.signExtend 64) = d.signExtend 64 := by
  rw [OperandSize.readBack]
  exact congrArg _ (setWidth_signExtend (by decide) d)

def DispMode (mode : BitVec 2) (size : OperandSize) (d : BitVec 32) : Prop :=
  mode = 1#2 ∧ size = .s8 ∧ fitsI8 d = true ∨ mode = 2#2 ∧ size = .s32

variable {mode : BitVec 2}

theorem takeDisp_written {size : OperandSize} (h : DispMode mode size d)
    (rest : List Byte) :
    takeDisp mode (emitVariableLength size (d.signExtend 64) ++ rest) = some (d.signExtend 64, rest) := by
  rcases h with ⟨rfl, rfl, hd⟩ | ⟨rfl, rfl⟩
  · have htake := takeSigned_emitted .s8 (d.signExtend 64) rest
    rwa [readBack_s8_of_fits hd] at htake
  · have htake := takeSigned_emitted .s32 (d.signExtend 64) rest
    rwa [readBack_s32_displacement] at htake

theorem DispMode.ne {size : OperandSize} (h : DispMode mode size d) :
    mode ≠ 3#2 ∧ mode ≠ 0#2 := by
  rcases h with ⟨rfl, -⟩ | ⟨rfl, -⟩ <;> decide

theorem decodeRm_offset (rex : Rex) {rm : BitVec 3} (hrm : rm ≠ 4#3) {size : OperandSize}
    (h : DispMode mode size d) (rest : List Byte) :
    decodeRm rex mode rm (emitVariableLength size (d.signExtend 64) ++ rest) =
      some (.mem (some (Reg.of rex.b rm)) none (d.signExtend 64), rest) := by
  simp [decodeRm, hrm, h.ne, takeDisp_written h]

variable {rex : Rex}

theorem decodeRm_indexed (scale : BitVec 2) {index : BitVec 3} (base : BitVec 3) (hindex : Reg.of rex.x index ≠ 4#4)
    {size : OperandSize} (h : DispMode mode size d) (rest : List Byte) :
    decodeRm rex mode 4#3 (fieldsByte scale index base :: (emitVariableLength size (d.signExtend 64) ++ rest)) =
      some (.mem (some (Reg.of rex.b base)) (some (Reg.of rex.x index, scale)) (d.signExtend 64), rest) := by
  obtain ⟨hscale, hidx, hbase⟩ := fieldsByte_fields scale index base
  simp [decodeRm, hscale, hidx, hbase, hindex, h.ne, takeDisp_written h]

variable {operand : Operand} {bs rest : List Byte}

theorem decodeModRm_written {reg rm : BitVec 3}
    (h : decodeRm rex mode rm bs = some (operand, rest)) :
    decodeModRm rex (fieldsByte mode reg rm :: bs) = some ((Reg.of rex.r reg, operand), rest) := by
  obtain ⟨hmode, hreg, hrm⟩ := fieldsByte_fields mode reg rm
  simp [decodeModRm, hmode, hreg, hrm, h]

/-! ## The instruction -/

theorem modrmBytes_eq {i : X86Instruction} (hmodrm : i.modrm = true) (mode : BitVec 2) (rm : BitVec 3)
    (hmode : i.addressing.mode = mode.setWidth 8) (hm : i.addressing.m = rm.setWidth 8) :
    i.modrmBytes = fieldsByte mode (i.firstOperand.setWidth 3) rm ::
      ((if i.sibByte = 0 then [] else [i.sibByte]) ++
        emitVariableLength i.addressing.displacementSize (i.addressing.displacement.signExtend 64)) := by
  have hsib : (if i.sibByte != 0 then [i.sibByte] else []) = if i.sibByte = 0 then [] else [i.sibByte] := by
    by_cases h : i.sibByte = 0 <;> simp [h]
  rw [← hsib]
  simp [modrmBytes, hmodrm, hmode, hm, operand_low, fieldsByte, sibByte]

theorem modrmBytes_none {i : X86Instruction} (hmodrm : i.modrm = true) (hind : i.indirect = none) :
    i.modrmBytes = [fieldsByte 3#2 (i.firstOperand.setWidth 3) (i.secondOperand.setWidth 3)] := by
  have ha : i.addressing = { mode := 3, m := (i.secondOperand.setWidth 3).setWidth 8 } := by
    simp [addressing, hmodrm, hind, operand_low]
  have hsib : i.sibByte = 0 := by simp [sibByte, ha]
  rw [modrmBytes_eq hmodrm 3#2 _ (by rw [ha]; rfl) (by rw [ha]), hsib, ha]
  rfl

theorem modrmBytes_offset {i : X86Instruction} (hmodrm : i.modrm = true)
    (hind : i.indirect = some (.offset d)) : ∃ mode size, DispMode mode size d ∧
      i.modrmBytes = fieldsByte mode (i.firstOperand.setWidth 3) (i.secondOperand.setWidth 3) ::
        emitVariableLength size (d.signExtend 64) := by
  obtain ⟨mode, size, hd, ha⟩ : ∃ mode size, DispMode mode size d ∧ i.addressing =
      { mode := mode.setWidth 8, m := (i.secondOperand.setWidth 3).setWidth 8, displacementSize := size,
        displacement := d } := by
    by_cases hd : fitsI8 d = true
    · exact ⟨1#2, .s8, .inl ⟨rfl, rfl, hd⟩, by simp [addressing, hmodrm, hind, hd, operand_low]⟩
    · refine ⟨2#2, .s32, .inr ⟨rfl, rfl⟩, ?_⟩
      -- zero fits in a byte, so a base of 5 makes no difference here
      have hzero : d ≠ 0#32 := by
        rintro rfl
        exact hd (by decide)
      simp [addressing, hmodrm, hind, hd, hzero, operand_low]
  have hsib : i.sibByte = 0 := by simp [sibByte, ha]
  refine ⟨mode, size, hd, ?_⟩
  rw [modrmBytes_eq hmodrm mode _ (by rw [ha]) (by rw [ha]), hsib, ha]
  rfl

variable {index : X86Register} {shift : Byte}

theorem modrmBytes_indexed {i : X86Instruction}
    (hmodrm : i.modrm = true) (hind : i.indirect = some (.offsetIndexShift d index shift)) :
    i.rex.x = (index.toU8 &&& 0b1000 != 0) ∧
    i.sibByte = fieldsByte (shift.setWidth 2) (index.toU8.setWidth 3) (i.secondOperand.setWidth 3) ∧
    ∃ mode size, DispMode mode size d ∧
      i.modrmBytes = fieldsByte mode (i.firstOperand.setWidth 3) 4#3 ::
        ((if i.sibByte = 0 then [] else [i.sibByte]) ++ emitVariableLength size (d.signExtend 64)) := by
  obtain ⟨mode, size, hd, ha⟩ : ∃ mode size, DispMode mode size d ∧ i.addressing =
      { mode := mode.setWidth 8, m := 4, x := index.toU8 &&& 0b1000 != 0,
        sib := { scale := (shift.setWidth 2).setWidth 8, index := (index.toU8.setWidth 3).setWidth 8,
                 base := (i.secondOperand.setWidth 3).setWidth 8 },
        displacementSize := size, displacement := d } := by
    by_cases hd : fitsI8 d = true
    · exact ⟨1#2, .s8, .inl ⟨rfl, rfl, hd⟩, by simp [addressing, hmodrm, hind, hd, operand_low, shift_low]⟩
    · exact ⟨2#2, .s32, .inr ⟨rfl, rfl⟩, by simp [addressing, hmodrm, hind, hd, operand_low, shift_low]⟩
  refine ⟨by rw [rex, ha], by rw [sibByte, ha]; rfl, mode, size, hd, ?_⟩
  rw [modrmBytes_eq hmodrm mode 4#3 (by rw [ha]) (by rw [ha]; rfl), ha]

/-- The memory operand is one the encoder can write: a plain offset has a base that needs no SIB byte, and an
indexed operand has an index and a SIB byte that is not zero. -/
def X86Instruction.HasOperand (i : X86Instruction) : Prop :=
  match i.indirect with
  | none => True
  | some (.offset _) => i.secondOperand &&& 0b111 ≠ 4
  | some (.offsetIndexShift _ index _) => i.sibByte ≠ 0 ∧ index.IsGeneral ∧ index ≠ .rsp

theorem operand_low_ne_four {b : Byte} (hb : b &&& 0b111 ≠ 4) : b.setWidth 3 ≠ 4#3 := by
  have hall : ∀ b : Byte, b &&& 0b111 ≠ 4 → b.setWidth 3 ≠ 4#3 := by decide
  exact hall b hb

theorem regOf_index {r : X86Register} (hr : r.IsGeneral) :
    Reg.of (r.toU8 &&& 0b1000 != 0) (r.toU8.setWidth 3) = r.num ∧ (r ≠ .rsp → r.num ≠ 4#4) := by
  cases r <;> revert hr <;> decide

theorem decodeModRm_modrmBytes {i : X86Instruction} (hmodrm : i.modrm = true) (hregs : i.HasRegisters)
    (hoperand : i.HasOperand) (rest : List Byte) :
    decodeModRm i.rex (i.modrmBytes ++ rest) = some ((i.firstOperand.setWidth 4, i.operand), rest) := by
  have hr : Reg.of i.rex.r (i.firstOperand.setWidth 3) = i.firstOperand.setWidth 4 := regOf_operand hregs.first
  have hb : Reg.of i.rex.b (i.secondOperand.setWidth 3) = i.secondOperand.setWidth 4 := regOf_operand hregs.second
  unfold X86Instruction.HasOperand at hoperand
  unfold operand
  cases hind : i.indirect with
  | none =>
    have hrm : decodeRm i.rex 3#2 (i.secondOperand.setWidth 3) rest =
        some (.reg (Reg.of i.rex.b (i.secondOperand.setWidth 3)), rest) := rfl
    rw [modrmBytes_none hmodrm hind, singleton_append, decodeModRm_written hrm, hr, hb]
  | some access =>
    rw [hind] at hoperand
    cases access with
    | offset d =>
      obtain ⟨mode, size, hd, hbytes⟩ := modrmBytes_offset hmodrm hind
      have hrm := decodeRm_offset i.rex (operand_low_ne_four hoperand) hd rest
      rw [hbytes, cons_append, decodeModRm_written hrm, hr, hb]
    | offsetIndexShift d index shift =>
      obtain ⟨hne, hgen, hrsp⟩ := hoperand
      obtain ⟨hx, hsib, mode, size, hd, hbytes⟩ := modrmBytes_indexed hmodrm hind
      obtain ⟨hnum, hfour⟩ := regOf_index hgen
      rw [← hx] at hnum
      have hrm := decodeRm_indexed (shift.setWidth 2) (i.secondOperand.setWidth 3) (hnum ▸ hfour hrsp) hd rest
      rw [hbytes, if_neg hne, hsib, cons_append, append_assoc, singleton_append,
        decodeModRm_written hrm, hr, hb, hnum]

/-! ## Operands and immediate -/

theorem decodeOperands_modrm {operandSize16 : Bool} {escaped : Bool} {opcode : Byte}
    (hform : form.modrm = true) {r : Reg} {bs' : List Byte}
    (h : decodeModRm rex bs = some ((r, operand), bs')) :
    decodeOperands operandSize16 rex escaped opcode form bs =
      (takeSigned (immLength operandSize16 rex r form.imm) bs').map fun t : BitVec 64 × List Byte =>
        ({ operandSize16, rex, escaped, opcode, modrm := some (r, operand), imm := t.1 }, t.2) := by
  simp [decodeOperands, hform, h, Option.map_eq_bind]

theorem decodeOperands_plain {operandSize16 : Bool} {escaped : Bool} {opcode : Byte}
    (hform : form.modrm = false) (bs : List Byte) :
    decodeOperands operandSize16 rex escaped opcode form bs =
      (takeSigned (immLength operandSize16 rex 0 form.imm) bs).map fun t : BitVec 64 × List Byte =>
        ({ operandSize16, rex, escaped, opcode, modrm := none, imm := t.1 }, t.2) := by
  simp [decodeOperands, hform, Option.map_eq_bind]

theorem decode_bytes {i : X86Instruction} (hform : i.HasForm) (hregs : i.HasRegisters) (hoperand : i.HasOperand)
    (rest : List Byte) : decode (i.bytes ++ rest) = some (i.decoded, rest) := by
  obtain ⟨form, hof, hmodrm, himm⟩ := hform.form
  have htake := takeSigned_emitted i.immediateSize i.immediate rest
  rw [bytes, append_assoc, append_assoc, decode_head hform.escape hof]
  cases hi : i.modrm with
  | true =>
    rw [hi, if_pos rfl] at himm
    rw [decodeOperands_modrm (hmodrm.trans hi) (decodeModRm_modrmBytes hi hregs hoperand _), himm, htake]
    simp [decoded, hi]
  | false =>
    rw [hi, if_neg (by decide)] at himm
    have hnil : i.modrmBytes = [] := by simp [modrmBytes, hi]
    rw [hnil, nil_append, decodeOperands_plain (hmodrm.trans hi), himm, htake]
    simp [decoded, hi]

/-! ## The constructors -/

/-- Instructions of the constructors that choose the opcode themselves. -/
inductive OwnOpcode (dbg : Bool) : X86Instruction → Prop
  | mov {size source destination i} : mov dbg size source destination = some i → OwnOpcode dbg i
  | movWithSignExtension {size source destination i} :
    movWithSignExtension dbg size source destination = some i → OwnOpcode dbg i
  | movMmx {size source destination i} : movMmx dbg size source destination = some i → OwnOpcode dbg i
  | xchg {size source destination indirect i} :
    xchg dbg size source destination indirect = some i → OwnOpcode dbg i
  | bswap {size destination i} : bswap dbg size destination = some i → OwnOpcode dbg i
  | test {size source destination indirect i} :
    test dbg size source destination indirect = some i → OwnOpcode dbg i
  | testImmediate {size destination immediate indirect i} :
    testImmediate dbg size destination immediate indirect = some i → OwnOpcode dbg i
  | cmp {size source destination indirect i} :
    cmp dbg size source destination indirect = some i → OwnOpcode dbg i
  | cmpImmediate {size destination immediate indirect i} :
    cmpImmediate dbg size destination immediate indirect = some i → OwnOpcode dbg i
  | lea {size source destination indirect i} :
    lea dbg size source destination indirect = some i → OwnOpcode dbg i
  | signExtendRaxRdx {size i} : signExtendRaxRdx dbg size = some i → OwnOpcode dbg i
  | load {size source destination indirect i} :
    load dbg size source destination indirect = some i → OwnOpcode dbg i
  | store {size source destination indirect i} :
    store dbg size source destination indirect = some i → OwnOpcode dbg i
  | loadImmediate (destination : X86Register) (immediate : BitVec 64) :
    OwnOpcode dbg (loadImmediate destination immediate)
  | storeImmediate {size destination indirect immediate i} :
    storeImmediate dbg size destination indirect immediate = some i → OwnOpcode dbg i
  | pushImmediate {size immediate i} : pushImmediate dbg size immediate = some i → OwnOpcode dbg i
  | push (source : X86Register) (indirect : Option X86IndirectAccess) :
    OwnOpcode dbg (push source indirect)
  | pop (destination : X86Register) : OwnOpcode dbg (pop destination)
  | jumpImmediate (relativeDestination : BitVec 32) : OwnOpcode dbg (jumpImmediate relativeDestination)
  | jumpReg (destination : X86Register) (indirect : Option X86IndirectAccess) :
    OwnOpcode dbg (.jumpReg destination indirect)
  | callImmediate (relativeDestination : BitVec 32) : OwnOpcode dbg (callImmediate relativeDestination)
  | callReg (destination : X86Register) (indirect : Option X86IndirectAccess) :
    OwnOpcode dbg (.callReg destination indirect)
  | returnNear : OwnOpcode dbg returnNear
  | noop : OwnOpcode dbg noop
  | interrupt (immediate : Byte) : OwnOpcode dbg (interrupt immediate)
  | cycleCount : OwnOpcode dbg cycleCount
  | fence (fenceType : FenceType) : OwnOpcode dbg (fence fenceType)

/-- Instructions of the constructors that are given the opcode. -/
inductive GivenOpcode (dbg : Bool) : X86Instruction → Prop
  | aluEscaped {size escape opcode source destination indirect i} :
    aluEscaped dbg size escape opcode source destination indirect = some i → GivenOpcode dbg i
  | aluImmediateEscaped {size escape opcode extension destination immediate indirect i} :
    aluImmediateEscaped dbg size escape opcode extension destination immediate indirect = some i →
      GivenOpcode dbg i
  | alu {size opcode source destination indirect i} :
    alu dbg size opcode source destination indirect = some i → GivenOpcode dbg i
  | aluImmediate {size opcode extension destination immediate indirect i} :
    aluImmediate dbg size opcode extension destination immediate indirect = some i → GivenOpcode dbg i
  | cmov {size condition source destination i} :
    cmov dbg size condition source destination = some i → GivenOpcode dbg i
  | conditionalJumpImmediate (opcode : Byte) (relativeDestination : BitVec 32) :
    GivenOpcode dbg (conditionalJumpImmediate opcode relativeDestination)

variable {dbg : Bool}

theorem eq_of_excluded {size : OperandSize} {excluded : List OperandSize} {i i' : X86Instruction}
    (h : (do excludeOperandSizes dbg size excluded; some i) = some i') : i = i' := by
  cases hex : excludeOperandSizes dbg size excluded with
  | none => simp [hex] at h
  | some => simpa [hex] using h

theorem OwnOpcode.hasForm {i : X86Instruction} (h : OwnOpcode dbg i) (hsize : i.size ≠ .s0) :
    i.HasForm := by
  cases h with
  | mov h | movWithSignExtension h | xchg h | lea h =>
    obtain rfl := eq_of_excluded h
    exact ⟨.inl rfl, { modrm := true }, rfl, rfl, rfl⟩
  | @test size _ _ _ _ h | @store size _ _ _ _ h =>
    obtain rfl := eq_of_excluded h
    cases size <;> exact ⟨.inl rfl, { modrm := true }, rfl, rfl, rfl⟩
  | @cmp size _ _ _ _ h =>
    obtain rfl := eq_of_excluded h
    have h38 : oneByteForm 0x38 = some { modrm := true } := by decide
    have h39 : oneByteForm 0x39 = some { modrm := true } := by decide
    refine ⟨.inl rfl, { modrm := true }, ?_, rfl, rfl⟩
    cases size <;> simp [form, h38, h39]
  | @load size _ _ _ _ h =>
    obtain rfl := eq_of_excluded h
    cases size with
    | s8 | s16 => exact ⟨.inr rfl, { modrm := true }, rfl, rfl, rfl⟩
    | s0 | s32 | s64 => exact ⟨.inl rfl, { modrm := true }, rfl, rfl, rfl⟩
  | @testImmediate size _ _ _ _ h | @cmpImmediate size _ _ _ _ h | @storeImmediate size _ _ _ _ h
  | @pushImmediate size _ _ h =>
    obtain rfl := eq_of_excluded h
    cases size with
    | s0 => exact absurd rfl hsize
    | s8 | s16 | s32 | s64 => exact ⟨.inl rfl, _, rfl, rfl, rfl⟩
  | @movMmx _ source destination _ h =>
    unfold X86Instruction.movMmx at h
    split at h
    · obtain rfl := eq_of_excluded h
      refine ⟨.inr rfl, { modrm := true }, ?_, rfl, rfl⟩
      cases source <;> rfl
    · obtain rfl := eq_of_excluded h
      exact ⟨.inr rfl, { modrm := true }, rfl, rfl, rfl⟩
  | @bswap size destination _ h =>
    cases size with
    | s0 | s8 => simp [X86Instruction.bswap] at h
    | s16 =>
      obtain rfl := eq_of_excluded h
      exact ⟨.inl rfl, _, rfl, rfl, rfl⟩
    | s32 | s64 =>
      obtain rfl := eq_of_excluded h
      cases destination <;> exact ⟨.inr rfl, { modrm := false }, rfl, rfl, rfl⟩
  | loadImmediate destination immediate =>
    unfold X86Instruction.loadImmediate
    split_ifs <;> cases destination <;> exact ⟨.inl rfl, _, rfl, rfl, rfl⟩
  | push source indirect =>
    cases indirect with
    | none => cases source <;> exact ⟨.inl rfl, { modrm := false }, rfl, rfl, rfl⟩
    | some access => exact ⟨.inl rfl, { modrm := true }, rfl, rfl, rfl⟩
  | pop destination => cases destination <;> exact ⟨.inl rfl, { modrm := false }, rfl, rfl, rfl⟩
  | interrupt immediate =>
    unfold X86Instruction.interrupt
    split <;> exact ⟨.inl rfl, _, rfl, rfl, rfl⟩
  | signExtendRaxRdx h =>
    obtain rfl := eq_of_excluded h
    exact ⟨.inl rfl, { modrm := false }, rfl, rfl, rfl⟩
  | jumpReg | callReg | jumpImmediate | callImmediate | returnNear | noop => exact ⟨.inl rfl, _, rfl, rfl, rfl⟩
  | cycleCount | fence => exact ⟨.inr rfl, _, rfl, rfl, rfl⟩

theorem OwnOpcode.modrm {i : X86Instruction} (h : OwnOpcode dbg i) (hind : i.indirect ≠ none) :
    i.modrm = true := by
  cases h with
  | mov h | movWithSignExtension h | xchg h | lea h | test h | store h | cmp h | load h | testImmediate h
  | cmpImmediate h | storeImmediate h =>
    obtain rfl := eq_of_excluded h
    rfl
  | pushImmediate h | signExtendRaxRdx h =>
    obtain rfl := eq_of_excluded h
    exact absurd rfl hind
  | @movMmx _ source destination _ h =>
    unfold X86Instruction.movMmx at h
    split at h
    · obtain rfl := eq_of_excluded h
      rfl
    · obtain rfl := eq_of_excluded h
      rfl
  | @bswap size _ _ h =>
    cases size with
    | s0 | s8 => simp [X86Instruction.bswap] at h
    | s16 | s32 | s64 =>
      obtain rfl := eq_of_excluded h
      exact absurd rfl hind
  | loadImmediate destination immediate =>
    revert hind
    unfold X86Instruction.loadImmediate
    split_ifs <;> exact fun h => absurd rfl h
  | push source indirect =>
    cases indirect with
    | none => exact absurd rfl hind
    | some access => rfl
  | interrupt immediate =>
    revert hind
    unfold X86Instruction.interrupt
    split <;> exact fun h => absurd rfl h
  | jumpReg | callReg | fence => rfl
  | pop | jumpImmediate | callImmediate | returnNear | noop | cycleCount => exact absurd rfl hind

theorem GivenOpcode.modrm {i : X86Instruction} (h : GivenOpcode dbg i) (hind : i.indirect ≠ none) :
    i.modrm = true := by
  cases h with
  | aluEscaped h | aluImmediateEscaped h | alu h | aluImmediate h | cmov h =>
    obtain rfl := eq_of_excluded h
    rfl
  | conditionalJumpImmediate => exact absurd rfl hind

theorem encode_eq_bytes {i : X86Instruction} (hsize : i.size ≠ .s0)
    (hbase : ∀ d, i.indirect = some (.offset d) → i.secondOperand &&& 0b111 ≠ 4) : i.encode dbg = some i.bytes := by
  have hassert : i.encodeAsserts dbg = some () := by
    have hnonzero : (i.size != .s0) = true := by simp [hsize]
    unfold encodeAsserts
    split
    · rename_i d _ hind
      have hfour : i.secondOperand &&& 7#8 ≠ 4#8 := hbase d hind
      simp [debugAssert, hnonzero, hfour]
    · simp [debugAssert, hnonzero]
  simp [encode, hassert]

def X86Instruction.ImmediateFits (i : X86Instruction) : Prop :=
  -2 ^ (8 * i.immediateSize.byteCount) ≤ 2 * i.immediate.toInt ∧
    2 * i.immediate.toInt < 2 ^ (8 * i.immediateSize.byteCount)

/-- A register operand, or an offset from a base that the assertions allow. -/
def X86Instruction.HasPlainOperand (i : X86Instruction) : Prop :=
  i.indirect = none ∨ ∃ d, i.indirect = some (.offset d) ∧ i.secondOperand &&& 0b111 ≠ 4

theorem encode_decodes {dbg : Bool} {i : X86Instruction} (hbuilt : OwnOpcode dbg i ∨ GivenOpcode dbg i ∧ i.HasForm)
    (hsize : i.size = .s32 ∨ i.size = .s64) (hregs : i.HasRegisters) (hoperand : i.HasPlainOperand) :
    i.encode dbg = some i.bytes ∧ (∀ rest, decode (i.bytes ++ rest) = some (i.decoded, rest)) ∧
      (i.decoded.imm = i.immediate ↔ i.ImmediateFits) := by
  have hnonzero : i.size ≠ .s0 := by rcases hsize with h | h <;> simp [h]
  have hform : i.HasForm := hbuilt.elim (fun h => h.hasForm hnonzero) And.right
  have hop : i.HasOperand := by
    rcases hoperand with h | ⟨d, h, hbase⟩
    · simp [X86Instruction.HasOperand, h]
    · simpa [X86Instruction.HasOperand, h] using hbase
  refine ⟨encode_eq_bytes hnonzero ?_, decode_bytes hform hregs hop, readBack_eq_iff _ _⟩
  intro d hd
  simpa [X86Instruction.HasOperand, hd] using hop

/-- `cmp qword [rbp - 8], -2` -/
theorem encode_decodes_cmp : ∃ i, cmpImmediate true .s64 .rbp (-2) (some (.offset (-8))) = some i ∧
    decode (i.bytes ++ [0xcc]) =
      some ({ operandSize16 := false, rex := { w := true }, escaped := false, opcode := 0x81,
              modrm := some (7, .mem (some 5) none (-8)), imm := -2 }, [0xcc]) := by
  have h := encode_decodes (.inl (.cmpImmediate
    (show cmpImmediate true .s64 .rbp (-2) (some (.offset (-8))) = some _ from rfl))) (.inr rfl) ⟨by decide, by decide⟩
      (.inr ⟨_, rfl, by decide⟩)
  exact ⟨_, rfl, h.2.1 [0xcc]⟩

/-- A wider immediate loses its upper bits, and an opcode with an immediate of its own takes the bytes that follow. -/
theorem truncated_and_misread : (∃ i, cmpImmediate true .s64 .rax 0x100000000 none = some i ∧
      (decode i.bytes).map (fun t : Decoded × List Byte => t.1.imm) = some 0) ∧
    ∃ i, alu true .s64 0x83 .rcx .rax none = some i ∧ decode i.bytes = none :=
  ⟨⟨_, rfl, by decide⟩, _, rfl, by decide⟩

/-! ## Indexed operands -/

theorem takeSigned_length {n : Nat} {v : BitVec 64} (h : takeSigned n bs = some (v, rest)) :
    bs.length = n + rest.length := by
  unfold takeSigned takeLe at h
  split at h
  · rename_i hle
    simp only [Option.bind_eq_bind, Option.bind_some, Option.some.injEq, Prod.mk.injEq] at h
    rw [← h.2, length_drop]
    omega
  · simp at h

theorem takeDisp_length {size : OperandSize} (hd : DispMode mode size d)
    {v : BitVec 64} (h : takeDisp mode bs = some (v, rest)) :
    bs.length = size.byteCount + rest.length := by
  rcases hd with ⟨rfl, rfl, -⟩ | ⟨rfl, rfl⟩
  · exact takeSigned_length h
  · exact takeSigned_length h

theorem decodeRm_sib_length {size : OperandSize}
    (hd : DispMode mode size d)
    (h : decodeRm rex mode 4#3 bs = some (operand, rest)) : bs.length = size.byteCount + 1 + rest.length := by
  cases bs with
  | nil => simp [decodeRm, hd.ne] at h
  | cons sib bs =>
    cases hdisp : takeDisp mode bs with
    | none => simp [decodeRm, hd.ne, hdisp] at h
    | some taken =>
      obtain ⟨v, rest'⟩ := taken
      have hrest : rest' = rest := by
        simp [decodeRm, hd.ne, hdisp] at h
        exact h.2
      rw [length_cons, takeDisp_length hd hdisp, hrest]
      omega

theorem emitVariableLength_length (size : OperandSize) (v : BitVec 64) :
    (emitVariableLength size v).length = size.byteCount := by
  have h := takeSigned_length (takeSigned_emitted size v [])
  simpa using h

theorem decode_bytes_ne {i : X86Instruction} (hform : i.HasForm) (hmodrm : i.modrm = true) (hregs : i.HasRegisters)
    (hind : i.indirect = some (.offsetIndexShift d index shift))
    (hsib : i.sibByte = 0) (rest : List Byte) (dec : Decoded) : decode (i.bytes ++ rest) ≠ some (dec, rest) := by
  intro h
  obtain ⟨form, hof, hfm, himm⟩ := hform.form
  obtain ⟨-, -, mode, size, hd, hbytes⟩ := modrmBytes_indexed hmodrm hind
  have hr : Reg.of i.rex.r (i.firstOperand.setWidth 3) = i.firstOperand.setWidth 4 := regOf_operand hregs.first
  rw [bytes, append_assoc, append_assoc, decode_head hform.escape hof, hbytes, if_pos hsib, nil_append,
    cons_append] at h
  generalize htail :
    emitVariableLength size (d.signExtend 64) ++ (emitVariableLength i.immediateSize i.immediate ++ rest) =
    tail at h
  cases hrm : decodeRm i.rex mode 4#3 tail with
  | none =>
    obtain ⟨hmode, hreg, hfour⟩ := fieldsByte_fields mode (i.firstOperand.setWidth 3) 4#3
    simp [decodeOperands, hfm, hmodrm, decodeModRm, hmode, hfour, hrm] at h
  | some operand =>
    obtain ⟨operand, bs⟩ := operand
    rw [decodeOperands_modrm (hfm.trans hmodrm) (decodeModRm_written hrm), hr, Option.map_eq_some_iff] at h
    rw [if_pos hmodrm] at himm
    obtain ⟨⟨v, rest'⟩, htake, heq⟩ := h
    have hrest : rest' = rest := (Prod.mk.inj heq).2
    have hlen := decodeRm_sib_length hd hrm
    have himmLen := takeSigned_length htake
    rw [← htail, length_append, length_append, emitVariableLength_length, emitVariableLength_length] at hlen
    rw [himm, hrest] at himmLen
    omega

theorem sibByte_eq_zero_iff {i : X86Instruction}
    (hmodrm : i.modrm = true) (hind : i.indirect = some (.offsetIndexShift d index shift)) (hshift : shift.toNat ≤ 3) :
    i.sibByte = 0 ↔ i.secondOperand &&& 0b111 = 0 ∧ index.toU8 &&& 0b111 = 0 ∧ shift = 0 := by
  obtain ⟨-, hsib, -⟩ := modrmBytes_indexed hmodrm hind
  have hfields : ∀ (high : BitVec 2) (middle low : BitVec 3),
      fieldsByte high middle low = 0 ↔ low = 0#3 ∧ middle = 0#3 ∧ high = 0#2 := by decide
  have hlow : ∀ b : Byte, b.setWidth 3 = 0#3 ↔ b &&& 0b111 = 0 := by decide
  have htwo : ∀ b : Byte, b.toNat ≤ 3 → (b.setWidth 2 = 0#2 ↔ b = 0) := by decide
  rw [hsib, hfields, hlow, hlow, htwo shift hshift]

theorem indexed_decodes_iff {dbg : Bool} {i : X86Instruction} {d : BitVec 32} {index : X86Register} {shift : Byte}
    (hbuilt : OwnOpcode dbg i ∨ GivenOpcode dbg i ∧ i.HasForm) (hsize : i.size ≠ .s0) (hregs : i.HasRegisters)
    (hind : i.indirect = some (.offsetIndexShift d index shift)) (hindex : index.IsGeneral ∧ index ≠ .rsp)
    (hshift : shift.toNat ≤ 3) (rest : List Byte) :
    (∃ bytes, i.encode dbg = some bytes ∧ decode (bytes ++ rest) = some (i.decoded, rest)) ↔
      ¬ (i.secondOperand &&& 0b111 = 0 ∧ index.toU8 &&& 0b111 = 0 ∧ shift = 0) := by
  have hform : i.HasForm := hbuilt.elim (fun h => h.hasForm hsize) And.right
  have hmem : i.indirect ≠ none := by simp [hind]
  have hmodrm : i.modrm = true := hbuilt.elim (fun h => h.modrm hmem) fun h => h.1.modrm hmem
  have hencode : i.encode dbg = some i.bytes := encode_eq_bytes hsize (by simp [hind])
  rw [← sibByte_eq_zero_iff hmodrm hind hshift]
  constructor
  · rintro ⟨bytes, henc, hdec⟩ hsib
    rw [hencode, Option.some.injEq] at henc
    subst henc
    exact decode_bytes_ne hform hmodrm hregs hind hsib rest _ hdec
  · intro hsib
    refine ⟨i.bytes, hencode, decode_bytes hform hregs ?_ rest⟩
    unfold X86Instruction.HasOperand
    rw [hind]
    exact ⟨hsib, hindex⟩

/-- `mov rcx, [rax + r8 * 2 - 8]` -/
theorem indexed_decodes_load : ∃ i bytes, load true .s64 .rax .rcx (.offsetIndexShift (-8) .r8 1) = some i ∧
    i.encode true = some bytes ∧
    decode (bytes ++ [0xcc]) =
      some ({ operandSize16 := false, rex := { w := true, x := true }, escaped := false, opcode := 0x8b,
              modrm := some (1, .mem (some 0) (some (8, 1)) (-8)), imm := 0 }, [0xcc]) := by
  have h := indexed_decodes_iff (.inl (.load
    (show load true .s64 .rax .rcx (.offsetIndexShift (-8) .r8 1) = some _ from rfl)))
    (by decide) ⟨by decide, by decide⟩ rfl (by decide) (by decide) [0xcc]
  obtain ⟨bytes, hencode, hdecode⟩ := h.mpr (by decide)
  exact ⟨_, bytes, rfl, hencode, hdecode⟩

/-- `mov rcx, [rax + rax]` is written as `48 8b 4c 00`, of which the last byte is read as the SIB byte. -/
theorem indexed_sib_missing : ∃ i, load true .s64 .rax .rcx (.offsetIndexShift 0 .rax 0) = some i ∧
    i.encode true = some [0x48, 0x8b, 0x4c, 0x00] ∧ decode [0x48, 0x8b, 0x4c, 0x00] = none :=
  ⟨_, rfl, by decide, by decide⟩

end Aeneas.Sbpf
