import Aeneas.JitErrors
import Aeneas.X86Sound

/-!
# What a compiled block computes

Each block of 32- or 64-bit size is run on the machine: straight-line blocks update the
host register of one sBPF register, and compares leave the flags that decide the jump at
the end of the block. The stack and the other mapped registers are as before.
-/

namespace Aeneas.Sbpf

open X86 JitInstruction Option List

/-! ## Registers -/

abbrev Regs := Fin 11 → BitVec 64

def Regs.get (r : Regs) (i : Nat) : BitVec 64 := if h : i < 11 then r ⟨i, h⟩ else 0

def Regs.set (r : Regs) (i : Nat) (v : BitVec 64) : Regs := fun j => if j.val = i then v else r j

def hostReg (i : Fin 11) : X86Register := registerMap.get ⟨i.1, i.2⟩

theorem register_eq_some {i : Nat} {r : X86Register} (h : register i = some r) :
    ∃ hi : i < 11, r = hostReg ⟨i, hi⟩ := by
  obtain ⟨hi, rfl⟩ := List.getElem?_eq_some_iff.mp h
  exact ⟨hi, rfl⟩

theorem hostReg_general : ∀ i, (hostReg i).IsGeneral := by decide

theorem hostReg_num_inj : ∀ i j, (hostReg i).num = (hostReg j).num → i = j := by decide

theorem hostReg_ne_rsp : ∀ i, (hostReg i).num ≠ rsp := by decide

theorem hostReg_ne_scratch : ∀ i, (hostReg i).num ≠ registerScratch.num := by decide

theorem hostReg_rcx : ∀ i, hostReg i = .rcx ↔ (hostReg i).num = rcx := by decide

def Agree (r : Regs) (s : State) : Prop := ∀ i, s.regs (hostReg i).num = r i

/-- `s'` has `v` in a register, and the other registers of `s` except for the scratch register. -/
def Sets (s s' : State) (n : Reg) (v : BitVec 64) : Prop :=
  ∀ n', n' ≠ registerScratch.num → s'.regs n' = if n' = n then v else s.regs n'

theorem Agree.set {r : Regs} {s s' : State} {d : Fin 11} {v : BitVec 64} (h : Agree r s)
    (hs : Sets s s' (hostReg d).num v) : Agree (r.set d v) s' := by
  intro i
  rw [hs _ (hostReg_ne_scratch i), h i, Regs.set]
  by_cases hi : i = d
  · subst hi; simp
  · rw [if_neg fun he => hi (hostReg_num_inj i d he), if_neg fun he => hi (Fin.ext he)]

theorem Sets.rsp {s s' : State} {d : Fin 11} {v : BitVec 64} (hs : Sets s s' (hostReg d).num v) :
    s'.regs X86.rsp = s.regs X86.rsp := by
  rw [hs _ (by decide), if_neg (Ne.symm (hostReg_ne_rsp d))]

/-! ## Operations -/

def AluOperation.toAlu : AluOperation → Alu
  | .add => .add
  | .subtract => .sub
  | .or => .or
  | .and => .and
  | .xor => .xor

def ShiftOperation.toShift : ShiftOperation → Shift
  | .left => .shl
  | .right => .shr
  | .arithmeticRight => .sar

def JumpCondition.holds {w : Nat} (x y : BitVec w) : JumpCondition → Bool
  | .equal => x == y
  | .notEqual => x != y
  | .greater => y.ult x
  | .greaterOrEqual => y.ule x
  | .less => x.ult y
  | .lessOrEqual => x.ule y
  | .signedGreater => y.slt x
  | .signedGreaterOrEqual => y.sle x
  | .signedLess => x.slt y
  | .signedLessOrEqual => x.sle y

theorem condition_subFlags {w : Nat} (x y : BitVec w) (c : JumpCondition) :
    condition (subFlags x y) ((jumpOpcode c).extractLsb' 0 4) = some (c.holds x y) := by
  have hzf := subFlags_zf x y
  have hs := subFlags_sf_of x y
  have hs' : ((subFlags x y).sf == (subFlags x y).of) = !x.slt y := by rw [← hs, bne, Bool.not_not]
  -- compared as numbers, equality is equality of values
  have hnat : (x == y) = decide (x.toNat = y.toNat) := by rw [Bool.eq_iff_iff]; simp [BitVec.toNat_inj]
  have hint : (x == y) = decide (x.toInt = y.toInt) := by rw [Bool.eq_iff_iff]; simp [BitVec.toInt_inj]
  cases c with
  | equal => exact congrArg some hzf
  | notEqual => exact congrArg (fun b => some !b) hzf
  | greater =>
    change some (!(x.ult y) && !(subFlags x y).zf) = some (y.ult x)
    rw [hzf, hnat, some.injEq, Bool.eq_iff_iff]
    simp [BitVec.ult]
    omega
  | greaterOrEqual =>
    change some (!(x.ult y)) = some (y.ule x)
    rw [some.injEq, Bool.eq_iff_iff]
    simp [BitVec.ult, BitVec.ule]
  | less => rfl
  | lessOrEqual =>
    change some (x.ult y || (subFlags x y).zf) = some (x.ule y)
    rw [hzf, hnat, some.injEq, Bool.eq_iff_iff]
    simp [BitVec.ult, BitVec.ule]
    omega
  | signedGreater =>
    change some (!(subFlags x y).zf && (subFlags x y).sf == (subFlags x y).of) = some (y.slt x)
    rw [hzf, hs', hint, some.injEq, Bool.eq_iff_iff]
    simp [BitVec.slt]
    omega
  | signedGreaterOrEqual =>
    change some ((subFlags x y).sf == (subFlags x y).of) = some (y.sle x)
    rw [hs', some.injEq, Bool.eq_iff_iff]
    simp [BitVec.slt, BitVec.sle]
  | signedLess => exact congrArg some hs
  | signedLessOrEqual =>
    change some ((subFlags x y).zf || (subFlags x y).sf != (subFlags x y).of) = some (x.sle y)
    rw [hzf, hs, hint, some.injEq, Bool.eq_iff_iff]
    simp [BitVec.slt, BitVec.sle]
    omega

/-! ## Straight-line blocks -/

theorem map_some_inj {l l' : List X86Instruction} (h : l.map some = l'.map some) : l = l' :=
  (List.map_inj_right fun _ _ => some.inj).mp h

@[simp] theorem bytesOf_nil : bytesOf [] = [] := rfl

@[simp] theorem bytesOf_cons (i : X86Instruction) (is : List X86Instruction) :
    bytesOf (i :: is) = i.bytes ++ bytesOf is := rfl

section
variable {undef : State → Bool} {dbg w64 : Bool} {s : State} {src dst : Fin 11}

variable {is : List X86Instruction}

theorem runs_seq {i : X86Instruction} {s₁ s' : State}
    (h₁ : Runs undef i.bytes s s₁) (h₂ : Runs undef (bytesOf is) s₁ s') : Runs undef (bytesOf (i :: is)) s s' :=
  h₁.append h₂

theorem runs_one {i : X86Instruction} {s' : State} (h : Runs undef i.bytes s s') :
    Runs undef (bytesOf [i]) s s' := runs_seq h .nil

theorem shiftExtension_eq (op : ShiftOperation) :
    ∃ ext : Reg, shiftOpcodeExtension op = ext.setWidth 8 ∧
      shiftOfGroup2 (ext.extractLsb' 0 3) = some op.toShift := by
  cases op with
  | left => exact ⟨4, rfl, rfl⟩
  | right => exact ⟨5, rfl, rfl⟩
  | arithmeticRight => exact ⟨7, rfl, rfl⟩

theorem runs_shiftByRcx (op : ShiftOperation)
    (his : shiftByRcx dbg (sizeOf64 w64) (shiftOpcodeExtension op) (hostReg src) (hostReg dst) =
      is.map some) :
    ∃ s', Runs undef (bytesOf is) s s' ∧
      Sets s s' (hostReg dst).num
        (op.toShift.value w64 (s.regs (hostReg dst).num) ((s.regs (hostReg src).num).setWidth 8)) := by
  obtain ⟨ext, hext, hop⟩ := shiftExtension_eq op
  have hgen := hostReg_general
  have hrcx : X86Register.rcx.IsGeneral := by decide
  have hnum : X86Register.rcx.num = rcx := rfl
  have hne := hostReg_ne_rsp
  have hshift : ∀ {r : X86Register}, r.IsGeneral →
      X86Instruction.aluImmediate dbg (sizeOf64 w64) 0xd3 (ext.setWidth 8) r 0 none =
        some (direct w64 0xd3 ext r.num .s0 0) :=
    fun hr => aluImmediate_eq dbg w64 hr 0xd3 ext 0 .s0 (by simp)
  rw [hext] at his
  unfold shiftByRcx at his
  dsimp only at his
  by_cases hsrc : hostReg src = .rcx
  · rw [if_pos hsrc, hshift (hgen dst)] at his
    obtain rfl := map_some_inj (l := [_]) his
    refine ⟨_, runs_one (runs_shiftRcx ext _ hop), fun n' _ => ?_⟩
    rw [hsrc]
    simp [hnum]
  · have hsrc' : (hostReg src).num ≠ rcx := fun h => hsrc ((hostReg_rcx src).mpr h)
    have hrr : rcx ≠ rsp := by decide
    have hmov : X86Instruction.mov dbg .s64 (hostReg src) .rcx = _ := mov_eq dbg true (hgen src) hrcx
    rw [if_neg hsrc] at his
    by_cases hdst : hostReg dst = .rcx
    · rw [if_pos hdst, hshift (hgen src), xchg_eq dbg (hgen src) hrcx, hmov, push_eq (hgen src),
        pop_eq (hgen src)] at his
      obtain rfl := map_some_inj (l := [_, _, _, _, _]) his
      refine ⟨_, runs_seq (runs_push _) (runs_seq (runs_xchg _ _) (runs_seq (runs_shiftRcx ext _ hop)
        (runs_seq (runs_mov _ _) (runs_one (runs_pop _))))), fun n' _ => ?_⟩
      rw [hdst, hnum]
      simp only [pop_regs, write_regs, shift_regs, setReg_regs, push_regs, past_regs, past_mem, write_mem, shift_mem,
        setReg_mem, push_mem, truncate_true, hrr, Ne.symm hrr, hsrc', Ne.symm hsrc', hne src, Ne.symm (hne src),
        if_true, if_false, load64_store64, BitVec.sub_add_cancel]
      split_ifs <;> simp_all
    · have hdst' : (hostReg dst).num ≠ rcx := fun h => hdst ((hostReg_rcx dst).mpr h)
      rw [if_neg hdst, hshift (hgen dst), hmov, push_eq hrcx, pop_eq hrcx] at his
      obtain rfl := map_some_inj (l := [_, _, _, _]) his
      refine ⟨_, runs_seq (runs_push _) (runs_seq (runs_mov _ _) (runs_seq (runs_shiftRcx ext _ hop)
        (runs_one (runs_pop _)))), fun n' _ => ?_⟩
      rw [hnum]
      simp only [pop_regs, write_regs, shift_regs, push_regs, past_regs, past_mem, write_mem, shift_mem, push_mem,
        truncate_true, hrr, Ne.symm hrr, hdst', hne src, hne dst, Ne.symm (hne dst), if_true, if_false,
        load64_store64, BitVec.sub_add_cancel]
      split_ifs <;> simp_all

end

namespace JitInstruction

def HasSize (w64 : Bool) : JitInstruction → Prop
  | .loadImmediate size _ _ | .moveRegister size _ _ | .aluImmediate size _ _ _ | .aluRegister size _ _ _
  | .shiftImmediate size _ _ _ | .shiftRegister size _ _ _ | .jumpImmediate size _ _ _ _
  | .jumpRegister size _ _ _ _ | .jumpTestImmediate size _ _ _ | .jumpTestRegister size _ _ _ =>
    size = sizeOf64 w64
  | .jump _ | .ret => True

def result (w64 : Bool) (r : Regs) : JitInstruction → Regs
  | .loadImmediate _ d v => r.set d (truncate w64 v)
  | .moveRegister _ s d => r.set d (truncate w64 (r.get s))
  | .aluImmediate _ op d v => r.set d (op.toAlu.value w64 (r.get d) v)
  | .aluRegister _ op s d => r.set d (op.toAlu.value w64 (r.get d) (r.get s))
  | .shiftImmediate _ op d amount => r.set d (op.toShift.value w64 (r.get d) amount)
  | .shiftRegister _ op s d => r.set d (op.toShift.value w64 (r.get d) ((r.get s).setWidth 8))
  | _ => r

def compare (w64 : Bool) (c : JumpCondition) (x y : BitVec 64) : Bool :=
  if w64 then c.holds x y else c.holds (x.setWidth 32) (y.setWidth 32)

def overlap (w64 : Bool) (x y : BitVec 64) : Bool :=
  if w64 then x &&& y != 0 else x.setWidth 32 &&& y.setWidth 32 != 0

/-- Whether the jump at the end of a block is taken. An immediate is seen as the machine
reads it back. -/
def taken (w64 : Bool) (r : Regs) : JitInstruction → Bool
  | .jump _ => true
  | .jumpImmediate _ c d v _ => compare w64 c (r.get d) (OperandSize.s32.readBack v)
  | .jumpRegister _ c s d _ => compare w64 c (r.get d) (r.get s)
  | .jumpTestImmediate _ d v _ => overlap w64 (r.get d) (OperandSize.s32.readBack v)
  | .jumpTestRegister _ s d _ => overlap w64 (r.get d) (r.get s)
  | _ => false

end JitInstruction

theorem condition_cmp (w64 : Bool) (c : JumpCondition) (x y : BitVec 64) :
    condition (Alu.cmp.flagsOf w64 x y) ((jumpOpcode c).extractLsb' 0 4) = some (compare w64 c x y) := by
  cases w64 with
  | true => exact condition_subFlags x y c
  | false => exact condition_subFlags _ _ c

theorem condition_test (w64 : Bool) (x y : BitVec 64) :
    condition (Alu.test.flagsOf w64 x y) ((jumpOpcode .notEqual).extractLsb' 0 4) =
      some (overlap w64 x y) := by
  cases w64 <;> rfl

/-- `s'` differs from `s` as a block of `J` says: registers, stack pointer and the condition
of the jump that follows. -/
structure BlockDone (w64 : Bool) (J : JitInstruction) (r : Regs) (s s' : State) : Prop where
  agree : Agree (J.result w64 r) s'
  rsp : s'.regs rsp = s.regs rsp
  condition : ∀ cc, J.jumpBytes = [0x0f, cc] → condition s'.flags (cc.extractLsb' 0 4) = some (J.taken w64 r)

section
variable {undef : State → Bool} {dbg w64 : Bool} {s : State} {r : Regs} {is : List X86Instruction}

theorem register_bind {α : Type} {index : Nat} {f : X86Register → Option α} {a : α}
    (h : (do let reg ← register index; f reg) = some a) :
    ∃ i : Fin 11, i.val = index ∧ f (hostReg i) = some a := by
  obtain ⟨reg, hreg, hf⟩ := bind_eq_some_iff.mp h
  obtain ⟨hi, rfl⟩ := register_eq_some hreg
  exact ⟨⟨index, hi⟩, rfl, hf⟩

theorem Agree.get (h : Agree r s) (i : Fin 11) : s.regs (hostReg i).num = r.get i := by
  rw [h i, Regs.get, dif_pos i.isLt]

theorem aluEncoding_eq (op : AluOperation) :
    aluOfOpcode (aluEncoding op).1 = some op.toAlu ∧ op.toAlu.writes = true ∧
      ∃ ext : Reg, (aluEncoding op).2 = ext.setWidth 8 ∧ aluOfGroup1 (ext.extractLsb' 0 3) = some op.toAlu := by
  cases op with
  | add => exact ⟨rfl, rfl, 0, rfl, rfl⟩
  | or => exact ⟨rfl, rfl, 1, rfl, rfl⟩
  | and => exact ⟨rfl, rfl, 4, rfl, rfl⟩
  | subtract => exact ⟨rfl, rfl, 5, rfl, rfl⟩
  | xor => exact ⟨rfl, rfl, 6, rfl, rfl⟩

variable {J : JitInstruction} {d : Fin 11} {v : BitVec 64}

theorem BlockDone.of_sets {s' : State} (h : Agree r s)
    (hres : J.result w64 r = r.set d v) (hjump : J.jumpBytes = []) (hs : Sets s s' (hostReg d).num v) :
    BlockDone w64 J r s s' :=
  ⟨hres ▸ h.set hs, hs.rsp, fun cc hcc => by rw [hjump] at hcc; cases hcc⟩

theorem BlockDone.of_compare {s₁ : State} {op : Alu} {n : Reg} {y : BitVec 64}
    {c : JumpCondition} (h : Agree r s) (hregs : s₁.regs = s.regs) (hop : op.writes = false)
    (hres : J.result w64 r = r) (hjump : J.jumpBytes = [0x0f, jumpOpcode c])
    (hc : X86.condition (op.flagsOf w64 (s.regs n) y) ((jumpOpcode c).extractLsb' 0 4) = some (J.taken w64 r)) :
    BlockDone w64 J r s (s₁.alu op w64 n y) where
  agree i := by rw [hres, alu_compare _ _ _ _ _ hop, ← h i, ← hregs]
  rsp := by rw [alu_compare _ _ _ _ _ hop, ← hregs]
  condition cc hcc := by
    rw [hjump] at hcc
    cases hcc
    rw [alu_compare _ _ _ _ _ hop, hregs]
    exact hc

theorem Sets.trans {s₁ s₂ : State} {n : Reg} {v₁ v₂ : BitVec 64} (h₁ : Sets s s₁ n v₁) (h₂ : Sets s₁ s₂ n v₂) :
    Sets s s₂ n v₂ := by
  intro n' hn'
  rw [h₂ n' hn', h₁ n' hn']
  split <;> rfl

theorem Shift.value_truncate (op : Shift) (x : BitVec 64) (count : Byte) :
    op.value false (truncate false x) count = op.value false x count := by
  simp [Shift.value, truncate]

theorem setWidth_truncate (x : BitVec 64) : (truncate w64 x).setWidth 8 = x.setWidth 8 := by
  cases w64 <;> simp [truncate]

theorem runs_registerShift {src dst : Fin 11} (op : ShiftOperation)
    (his : registerShift dbg (sizeOf64 w64) op (hostReg src) (hostReg dst) = is.map some) :
    ∃ s', Runs undef (bytesOf is) s s' ∧
      Sets s s' (hostReg dst).num
        (op.toShift.value w64 (s.regs (hostReg dst).num) ((s.regs (hostReg src).num).setWidth 8)) := by
  cases w64 with
  | true => exact runs_shiftByRcx op his
  | false =>
    -- the operand is zero-extended first, which changes neither the result nor the count
    obtain ⟨i, is, rfl, hi, his'⟩ := map_eq_cons_iff.mp his.symm
    rw [mov_eq dbg false (hostReg_general dst) (hostReg_general dst)] at hi
    obtain rfl := some.inj hi
    have hmov : Sets s _ (hostReg dst).num (truncate false (s.regs (hostReg dst).num)) :=
      fun n' _ => write_regs (past s (direct false 0x89 (hostReg dst).num (hostReg dst).num .s0 0)) false _ n' _
    obtain ⟨s', hruns, hsets⟩ := runs_shiftByRcx op his'.symm
    refine ⟨s', runs_seq (runs_mov _ _) hruns, ?_⟩
    have hcount : (if (hostReg src).num = (hostReg dst).num then truncate false (s.regs (hostReg dst).num)
        else s.regs (hostReg src).num).setWidth 8 = (s.regs (hostReg src).num).setWidth 8 := by
      split
      · next he => rw [setWidth_truncate, he]
      · rfl
    rw [hmov _ (hostReg_ne_scratch dst), hmov _ (hostReg_ne_scratch src), if_pos rfl, hcount,
      Shift.value_truncate] at hsets
    exact hmov.trans hsets

theorem runs_loadImmediateBlock (hJ : (loadImmediate (sizeOf64 w64) d v).straight dbg = some (is.map some)) :
    ∃ s', Runs undef (bytesOf is) s s' ∧ Sets s s' (hostReg d).num (truncate w64 v) ∧ s'.mem = s.mem := by
  obtain ⟨d', hd, hJ'⟩ := register_bind hJ
  obtain rfl : d' = d := Fin.ext hd
  have his : is = [.loadImmediate (hostReg d') (truncate w64 v)] := by
    cases w64 <;> exact (map_some_inj (l := [_]) (some.inj hJ')).symm
  subst his
  exact ⟨_, runs_one (runs_loadImmediate (hostReg_general d') undef s _), fun n' _ => rfl, rfl⟩

theorem runs_aluImmediateBlock {op : AluOperation}
    (hJ : (aluImmediate (sizeOf64 w64) op d v).straight dbg = some (is.map some)) :
    ∃ s', Runs undef (bytesOf is) s s' ∧
      Sets s s' (hostReg d).num (op.toAlu.value w64 (s.regs (hostReg d).num) v) ∧ s'.mem = s.mem := by
  obtain ⟨d', hd, hJ'⟩ := register_bind hJ
  obtain rfl : d' = d := Fin.ext hd
  have hgen := hostReg_general d'
  obtain ⟨hopc, hwrites, ext, hext, hgroup⟩ := aluEncoding_eq op
  by_cases hfits : JitCompilerModel.fitsI32 v
  · rw [if_pos hfits, hext, aluImmediate_eq dbg w64 hgen 0x81 ext v .s32 (by simp)] at hJ'
    obtain rfl := map_some_inj (l := [_]) (some.inj hJ')
    refine ⟨_, runs_one (runs_aluImmediate ext _ hgroup), fun n' _ => ?_, alu_mem ..⟩
    have hv : OperandSize.s32.readBack v = v := (readBack_s32_eq_iff v).mpr (of_decide_eq_true hfits)
    rw [alu_regs _ _ _ _ _ _ hwrites, hv, past_regs]
  · rw [if_neg hfits, alu_eq dbg w64 (by decide) hgen] at hJ'
    obtain rfl := map_some_inj (l := [_, _]) (some.inj hJ')
    refine ⟨_, runs_seq (runs_loadImmediate (by decide) undef s v) (runs_one (runs_alu _ _ hopc)), fun n' hn' => ?_,
      alu_mem ..⟩
    rw [alu_regs _ _ _ _ _ _ hwrites]
    simp only [past_regs, setReg_regs, if_true, hn', if_false, hostReg_ne_scratch d']

theorem straight_runs (hJ : J.straight dbg = some (is.map some)) (hsize : J.HasSize w64)
    (hret : J ≠ .ret) (h : Agree r s) : ∃ s', Runs undef (bytesOf is) s s' ∧ BlockDone w64 J r s s' := by
  have hgen := hostReg_general
  cases J with
  | loadImmediate size d v =>
    obtain rfl := hsize
    obtain ⟨d, rfl, -⟩ := register_bind hJ
    obtain ⟨s', hruns, hsets, -⟩ := runs_loadImmediateBlock hJ
    exact ⟨s', hruns, .of_sets h rfl rfl hsets⟩
  | moveRegister size a d =>
    obtain rfl := hsize
    obtain ⟨a, rfl, hJ₁⟩ := register_bind hJ
    obtain ⟨d, rfl, hJ₂⟩ := register_bind hJ₁
    rw [mov_eq dbg w64 (hgen a) (hgen d)] at hJ₂
    obtain rfl := map_some_inj (l := [_]) (some.inj hJ₂)
    refine ⟨_, runs_one (runs_mov _ _), .of_sets h rfl rfl fun n' _ => ?_⟩
    rw [write_regs, h.get a]
    rfl
  | aluImmediate size op d v =>
    obtain rfl := hsize
    obtain ⟨d, rfl, -⟩ := register_bind hJ
    obtain ⟨s', hruns, hsets, -⟩ := runs_aluImmediateBlock hJ
    rw [h.get d] at hsets
    exact ⟨s', hruns, .of_sets h rfl rfl hsets⟩
  | aluRegister size op a d =>
    obtain rfl := hsize
    obtain ⟨a, rfl, hJ₁⟩ := register_bind hJ
    obtain ⟨d, rfl, hJ₂⟩ := register_bind hJ₁
    obtain ⟨hopc, hwrites, -⟩ := aluEncoding_eq op
    rw [alu_eq dbg w64 (hgen a) (hgen d)] at hJ₂
    obtain rfl := map_some_inj (l := [_]) (some.inj hJ₂)
    refine ⟨_, runs_one (runs_alu _ _ hopc), .of_sets h rfl rfl fun n' _ => ?_⟩
    rw [alu_regs _ _ _ _ _ _ hwrites, past_regs, h.get a, h.get d]
  | shiftImmediate size op d amount =>
    obtain rfl := hsize
    obtain ⟨d, rfl, hJ₁⟩ := register_bind hJ
    obtain ⟨ext, hext, hop⟩ := shiftExtension_eq op
    rw [hext, aluImmediate_eq dbg w64 (hgen d) 0xc1 ext _ .s8 (by simp)] at hJ₁
    obtain rfl := map_some_inj (l := [_]) (some.inj hJ₁)
    refine ⟨_, runs_one (runs_shiftImmediate ext _ hop), .of_sets h rfl rfl fun n' _ => ?_⟩
    rw [shift_regs, past_regs, h.get d]
    simp
  | shiftRegister size op a d =>
    obtain rfl := hsize
    obtain ⟨a, rfl, hJ₁⟩ := register_bind hJ
    obtain ⟨d, rfl, hJ₂⟩ := register_bind hJ₁
    obtain ⟨s', hruns, hsets⟩ := runs_registerShift op (some.inj hJ₂)
    rw [h.get a, h.get d] at hsets
    exact ⟨s', hruns, .of_sets h rfl rfl hsets⟩
  | jump t =>
    obtain rfl := map_some_inj (l := []) (some.inj hJ)
    exact ⟨s, .nil, h, rfl, fun cc hcc => by cases hcc⟩
  | jumpImmediate size c d v t =>
    obtain rfl := hsize
    obtain ⟨d, rfl, hJ₁⟩ := register_bind hJ
    rw [cmpImmediate_eq dbg w64 (hgen d)] at hJ₁
    obtain rfl := map_some_inj (l := [_]) (some.inj hJ₁)
    refine ⟨_, runs_one (runs_aluImmediate 7 _ (rfl : _ = some Alu.cmp)), .of_compare h rfl rfl rfl rfl ?_⟩
    rw [h.get d]
    exact condition_cmp w64 c _ _
  | jumpRegister size c a d t =>
    obtain rfl := hsize
    obtain ⟨a, rfl, hJ₁⟩ := register_bind hJ
    obtain ⟨d, rfl, hJ₂⟩ := register_bind hJ₁
    rw [cmp_eq dbg w64 (hgen a) (hgen d)] at hJ₂
    obtain rfl := map_some_inj (l := [_]) (some.inj hJ₂)
    refine ⟨_, runs_one (runs_alu _ _ (rfl : _ = some Alu.cmp)), .of_compare h rfl rfl rfl rfl ?_⟩
    rw [h.get a, h.get d]
    exact condition_cmp w64 c _ _
  | jumpTestImmediate size d v t =>
    obtain rfl := hsize
    obtain ⟨d, rfl, hJ₁⟩ := register_bind hJ
    rw [testImmediate_eq dbg w64 (hgen d)] at hJ₁
    obtain rfl := map_some_inj (l := [_]) (some.inj hJ₁)
    refine ⟨_, runs_one (runs_testImmediate _), .of_compare h rfl rfl rfl rfl ?_⟩
    rw [h.get d]
    exact condition_test w64 _ _
  | jumpTestRegister size a d t =>
    obtain rfl := hsize
    obtain ⟨a, rfl, hJ₁⟩ := register_bind hJ
    obtain ⟨d, rfl, hJ₂⟩ := register_bind hJ₁
    rw [test_eq dbg w64 (hgen a) (hgen d)] at hJ₂
    obtain rfl := map_some_inj (l := [_]) (some.inj hJ₂)
    refine ⟨_, runs_one (runs_alu _ _ (rfl : _ = some Alu.test)), .of_compare h rfl rfl rfl rfl ?_⟩
    rw [h.get a, h.get d]
    exact condition_test w64 _ _
  | ret => exact absurd rfl hret

end

/-! ## Immediates -/

def AluOperation.apply {w : Nat} (x y : BitVec w) : AluOperation → BitVec w
  | .add => x + y
  | .subtract => x - y
  | .or => x ||| y
  | .and => x &&& y
  | .xor => x ^^^ y

theorem AluOperation.toAlu_value (op : AluOperation) (w64 : Bool) (x y : BitVec 64) :
    op.toAlu.value w64 x y =
      if w64 then op.apply x y else (op.apply (x.setWidth 32) (y.setWidth 32)).setWidth 64 := by
  cases op <;> rfl

theorem emitJitInstruction_of_accepted (dbg : Bool) {J : JitInstruction} (hJ : J.Accepted dbg) (ht : J.target = none)
    (self : JitCompilerModel) : ∃ is, J.straight dbg = some (is.map some) ∧
      JitCompilerModel.emitJitInstruction dbg J self = .ok () (self.append (bytesOf is)) := by
  rcases JitCompilerModel.emission dbg J self with ⟨hn, -, -⟩ | ⟨hn, -, -, -, -⟩ | ⟨-, _, -, t, ht', -⟩ | ⟨-, -, self',
    hx⟩
  · exact absurd hJ hn
  · exact absurd hJ hn
  · rw [ht] at ht'
    cases ht'
  · obtain ⟨is, d, hs, hst⟩ := JitCompilerModel.emitJitInstruction_ok hx
    rw [ht] at hst
    refine ⟨is, hs, hx.trans ?_⟩
    rw [hst]
    simp [block, ht]

/-- The code emitted for `LoadImmediate` and `AluImmediate`, for the sizes of 32 and 64 bits. -/
theorem emit_immediate_runs (dbg w64 : Bool) (undef : State → Bool) (self : JitCompilerModel) (d : Fin 11)
    (v : BitVec 64) (s : State) :
    (∃ code s', JitCompilerModel.emitJitInstruction dbg (.loadImmediate (sizeOf64 w64) d v) self =
        .ok () (self.append code) ∧ Runs undef code s s' ∧ s'.mem = s.mem ∧
      Sets s s' (hostReg d).num (if w64 then v else (v.setWidth 32).setWidth 64)) ∧
    ∀ op : AluOperation, ∃ code s',
      JitCompilerModel.emitJitInstruction dbg (.aluImmediate (sizeOf64 w64) op d v) self =
        .ok () (self.append code) ∧ Runs undef code s s' ∧ s'.mem = s.mem ∧
      Sets s s' (hostReg d).num (if w64 then op.apply (s.regs (hostReg d).num) v
        else (op.apply ((s.regs (hostReg d).num).setWidth 32) (v.setWidth 32)).setWidth 64) := by
  have hsize : sizeOf64 w64 = .s32 ∨ sizeOf64 w64 = .s64 := by cases w64 <;> simp [sizeOf64]
  constructor
  · obtain ⟨is, hs, hemit⟩ :=
      emitJitInstruction_of_accepted dbg (J := .loadImmediate (sizeOf64 w64) d v) ⟨d.isLt, hsize⟩ rfl
      self
    obtain ⟨s', hruns, hsets, hmem⟩ := runs_loadImmediateBlock hs
    exact ⟨_, s', hemit, hruns, hmem, hsets⟩
  · intro op
    obtain ⟨is, hs, hemit⟩ := emitJitInstruction_of_accepted dbg (J := .aluImmediate (sizeOf64 w64) op d v)
      ⟨d.isLt, fun _ => hsize⟩ rfl self
    obtain ⟨s', hruns, hsets, hmem⟩ := runs_aluImmediateBlock hs
    rw [op.toAlu_value] at hsets
    exact ⟨_, s', hemit, hruns, hmem, hsets⟩

/-! ## Blocks in linked code -/

def JitInstruction.nextPc (w64 : Bool) (r : Regs) (pc : Nat) (J : JitInstruction) : Nat :=
  match J.target with
  | none => pc + 1
  | some t => if J.taken w64 r then t else pc + 1

theorem relativeOffset_toInt {destination e : Nat} {d : BitVec 32} (h : relativeOffset destination e = .ok d) :
    d.toInt = (destination : Int) - e := by
  obtain ⟨hlo, hhi, rfl⟩ := relativeOffset_ok h
  rw [BitVec.toInt_ofInt]
  simp only [Int.bmod]
  omega

section
variable {undef : State → Bool} {dbg w64 : Bool} {program : List JitInstruction} {blocks : List (List Byte)}
  {J : JitInstruction} {pc : Nat} {s : State} {r : Regs}

theorem jumpOpcode_nibble (c : JumpCondition) : (jumpOpcode c).extractLsb' 4 4 = 8#4 := by
  cases c <;> rfl

theorem jump_step {t e : Nat} {d : BitVec 32} {rest code : List Byte} (ht : J.target = some t)
    (hcode : code.drop s.rip = J.jumpBytes ++ leBytes 4 d.toNat ++ rest)
    (hcond : ∀ cc, J.jumpBytes = [0x0f, cc] → condition s.flags (cc.extractLsb' 0 4) = some (J.taken w64 r))
    (he : s.rip + J.jumpBytes.length + 4 = e) {destination : Nat} (hd : relativeOffset destination e = .ok d) :
    step undef code s = some { s with rip := if J.taken w64 r then destination else e } := by
  have hconditional : ∀ c, J.jumpBytes = [0x0f, jumpOpcode c] →
      step undef code s = some { s with rip := if J.taken w64 r then destination else e } := by
    intro c hc
    rw [hc] at hcode he
    have hend : s.rip + 6 = e := he
    rw [step_conditional hcode (jumpOpcode_nibble c) (hcond _ hc), jump_to (relativeOffset_toInt hd) hend, hend]
    cases J.taken w64 r <;> rfl
  cases J with
  | jump t' =>
    have hend : s.rip + 5 = e := he
    rw [step_jump hcode, jump_to (relativeOffset_toInt hd) hend]
    rfl
  | jumpImmediate _ c | jumpRegister _ c => exact hconditional c rfl
  | jumpTestImmediate | jumpTestRegister => exact hconditional .notEqual rfl
  | _ => cases ht

theorem block_steps (hl : Linked dbg program blocks) (hJ : program[pc]? = some J) (hsize : J.HasSize w64)
    (hret : J ≠ .ret) (h : Agree r s) (hrip : s.rip = blockStart blocks pc) :
    ∃ s', Steps undef blocks.flatten s s' ∧ s'.rip = blockStart blocks (J.nextPc w64 r pc) ∧
      Agree (J.result w64 r) s' ∧ s'.regs rsp = s.regs rsp := by
  have hlt : pc < blocks.length := by
    rw [hl.length_eq]
    exact (List.getElem?_eq_some_iff.mp hJ).1
  have hb : blocks[pc]? = some blocks[pc] := getElem?_eq_getElem hlt
  obtain ⟨is, d, hs, hblock, hlink⟩ := hl.block pc J _ hJ hb
  rw [hblock] at hb
  have hcode := drop_blockStart hb
  have hend := blockStart_succ hb
  obtain ⟨s₁, hruns, hdone⟩ : ∃ s₁, Runs undef (bytesOf is) s s₁ ∧ _ := straight_runs hs hsize hret h
  rw [← hrip] at hcode
  cases ht : J.target with
  | none =>
    simp only [block, ht, append_nil] at hcode hend
    refine ⟨s₁, hruns.steps _ _ hcode, ?_, hdone.agree, hdone.rsp⟩
    rw [hruns.rip, hrip, nextPc, ht, hend]
  | some t =>
    simp only [block, ht] at hcode hend
    rw [append_assoc] at hcode
    obtain ⟨-, hrel⟩ := hlink t ht
    have he : s₁.rip + J.jumpBytes.length + 4 = blockStart blocks (pc + 1) := by
      rw [hruns.rip, hrip, hend]
      simp
      omega
    have hjump : step undef blocks.flatten s₁ = _ :=
      jump_step ht (hruns.rip ▸ drop_append_left hcode) hdone.condition he hrel
    refine ⟨_, (hruns.steps _ _ hcode).trans (.single hjump), ?_, hdone.agree, hdone.rsp⟩
    simp only [nextPc, ht]
    cases J.taken w64 r <;> rfl

theorem atRet_of_linked (hl : Linked dbg program blocks) (hJ : program[pc]? = some .ret)
    (hrip : s.rip = blockStart blocks pc) : AtRet blocks.flatten s := by
  have hlt : pc < blocks.length := by
    rw [hl.length_eq]
    exact (List.getElem?_eq_some_iff.mp hJ).1
  have hb : blocks[pc]? = some blocks[pc] := getElem?_eq_getElem hlt
  obtain ⟨is, d, hs, hblock, -⟩ := hl.block pc .ret _ hJ hb
  obtain rfl := map_some_inj (l := [_]) (some.inj hs)
  have hbytes : ret.block [.returnNear] d = (plain false 0xc3 0 .s0 0).bytes := by
    simp only [block, target, bytesOf_cons, bytesOf_nil, append_nil]
    rfl
  rw [hblock, hbytes] at hb
  exact ⟨_, _, by rw [hrip, drop_blockStart hb]; exact decode_plain rfl rfl (fun _ _ => rfl) _, rfl, rfl⟩

end

end Aeneas.Sbpf
