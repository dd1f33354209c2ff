import Aeneas.JitBlock

/-!
# Branches on 64-bit immediates

`cmp` and `test` carry a 32-bit immediate that the processor sign-extends. A block that
compares a register with an immediate therefore branches on the immediate as it is read
back, which is the one in the instruction exactly when that fits an `i32`.
-/

namespace Aeneas.Sbpf

open X86

def jumpCondition (code : List Byte) (m : State) : Option Bool :=
  match decode (code.drop m.rip) with
  | some (d, _) => if d.escaped then condition m.flags (d.opcode.extractLsb' 0 4) else none
  | none => none

/-- One instruction sets the flags, and the conditional jump after it is taken to `target`
if `taken` and falls through to `next` otherwise. -/
def BranchesOn (undef : State → Bool) (code : List Byte) (m : State) (target next : Nat) (taken : Bool) : Prop :=
  ∃ m₁ m₂, step undef code m = some m₁ ∧ jumpCondition code m₁ = some taken ∧
    step undef code m₁ = some m₂ ∧ m₂.rip = if taken then target else next

theorem BranchesOn.unique {undef : State → Bool} {code : List Byte} {m : State} {target next : Nat} {b b' : Bool}
    (h : BranchesOn undef code m target next b) (h' : BranchesOn undef code m target next b') : b = b' := by
  obtain ⟨m₁, _, hstep, hcond, -⟩ := h
  obtain ⟨m₁', _, hstep', hcond', -⟩ := h'
  obtain rfl : m₁ = m₁' := Option.some.inj (hstep.symm.trans hstep')
  exact Option.some.inj (hcond.symm.trans hcond')

/-- A 64-bit branch on an immediate: its register, its immediate, its target and the relation
it tests. -/
def JitInstruction.immediateBranch : JitInstruction → Option (Nat × BitVec 64 × Nat × (BitVec 64 → BitVec 64 → Bool))
  | .jumpImmediate .s64 c d v t => some (d, v, t, fun x y => c.holds x y)
  | .jumpTestImmediate .s64 d v t => some (d, v, t, fun x y => x &&& y != 0)
  | _ => none

/-! ## Immediates are told apart -/

theorem JumpCondition.holds_inj (c : JumpCondition) {v v' : BitVec 64} (h : ∀ x, c.holds x v = c.holds x v') :
    v = v' := by
  have h₁ := h v
  have h₂ := h v'
  cases c with
  | equal | notEqual => simpa [holds] using h₁
  | greater | greaterOrEqual | less | lessOrEqual =>
    apply BitVec.eq_of_toNat_eq
    simp [holds, BitVec.ult, BitVec.ule] at h₁ h₂
    omega
  | signedGreater | signedGreaterOrEqual | signedLess | signedLessOrEqual =>
    apply BitVec.eq_of_toInt_eq
    simp [holds, BitVec.slt, BitVec.sle] at h₁ h₂
    omega

theorem and_ne_zero_inj {v v' : BitVec 64} (h : ∀ x : BitVec 64, (x &&& v != 0) = (x &&& v' != 0)) : v = v' := by
  apply BitVec.eq_of_getLsbD_eq
  intro i hi
  have hbit : ∀ w : BitVec 64, (BitVec.twoPow 64 i &&& w != 0) = w.getLsbD i := by
    intro w
    have hpow : BitVec.twoPow 64 i ≠ 0 := by
      intro h0
      have := congrArg (fun y => y.getLsbD i) h0
      simp [hi] at this
    rw [BitVec.twoPow_and]
    cases w.getLsbD i with
    | true => simpa using hpow
    | false => simp
  rw [← hbit, ← hbit, h]

theorem immediateBranch_inj {J : JitInstruction} {d t : Nat} {v w w' : BitVec 64} {test : BitVec 64 → BitVec 64 → Bool}
    (hJ : J.immediateBranch = some (d, v, t, test)) (h : ∀ x, test x w = test x w') : w = w' := by
  unfold JitInstruction.immediateBranch at hJ
  split at hJ
  · next c _ _ _ =>
    cases hJ
    exact c.holds_inj h
  · cases hJ
    exact and_ne_zero_inj h
  · cases hJ

section
variable {undef : State → Bool} {dbg : Bool} {program : List JitInstruction} {blocks : List (List Byte)}
  {J : JitInstruction} {pc d t : Nat} {v : BitVec 64} {test : BitVec 64 → BitVec 64 → Bool}

theorem branchesOn_of_block {i : X86Instruction} {c : JumpCondition} {m m₁ : State} {taken : Bool}
    (hl : Linked dbg program blocks) (hpc : program[pc]? = some J) (hs : J.straight dbg = some [some i])
    (ht : J.target = some t) (hjump : J.jumpBytes = [0x0f, jumpOpcode c]) (hm : m.rip = blockStart blocks pc)
    (hstep : ∀ code rest, code.drop m.rip = i.bytes ++ rest → step undef code m = some m₁)
    (hrip : m₁.rip = m.rip + i.bytes.length)
    (hcond : condition m₁.flags ((jumpOpcode c).extractLsb' 0 4) = some taken) :
    BranchesOn undef blocks.flatten m (blockStart blocks t) (blockStart blocks (pc + 1)) taken := by
  have hlt : pc < blocks.length := by
    rw [hl.length_eq]
    exact (List.getElem?_eq_some_iff.mp hpc).1
  have hb : blocks[pc]? = some blocks[pc] := List.getElem?_eq_getElem hlt
  obtain ⟨is, d, hs', hblock, hlink⟩ := hl.block pc J _ hpc hb
  obtain rfl := map_some_inj (l := [_]) (Option.some.inj (hs.symm.trans hs'))
  have hbytes : J.block [i] d = i.bytes ++ ([0x0f, jumpOpcode c] ++ leBytes 4 d.toNat) := by
    simp [JitInstruction.block, ht, hjump]
  rw [hblock, hbytes] at hb
  have hcode := drop_blockStart hb
  rw [← hm, List.append_assoc] at hcode
  have hcode₁ : blocks.flatten.drop m₁.rip =
      [0x0f, jumpOpcode c] ++ leBytes 4 d.toNat ++ (blocks.drop (pc + 1)).flatten := by
    rw [hrip]
    exact drop_append_left hcode
  have hend : m₁.rip + 6 = blockStart blocks (pc + 1) := by
    rw [blockStart_succ hb, hrip, hm]
    simp
    omega
  have hjumps : step undef blocks.flatten m₁ = _ := step_conditional hcode₁ (jumpOpcode_nibble c) hcond
  rw [jump_to (relativeOffset_toInt (hlink t ht).2) hend, hend] at hjumps
  refine ⟨m₁, { m₁ with rip := if taken then blockStart blocks t else blockStart blocks (pc + 1) },
    hstep _ _ hcode, ?_, ?_, rfl⟩
  · rw [jumpCondition, hcode₁, decode_conditional _ _ (jumpOpcode_nibble c)]
    exact hcond
  · rw [hjumps]
    cases taken <;> rfl

theorem s64_eq : sizeOf64 true = .s64 := rfl

theorem mappedRegister_hostReg : ∀ i : Fin 11, mappedRegister i = .ok (hostReg i) := by decide

theorem immediate_block_branches (hl : Linked dbg program blocks) (hpc : program[pc]? = some J)
    (hJ : J.immediateBranch = some (d, v, t, test)) :
    ∃ r, mappedRegister d = .ok r ∧ ∀ m : State, m.rip = blockStart blocks pc →
      BranchesOn undef blocks.flatten m (blockStart blocks t) (blockStart blocks (pc + 1))
        (test (m.regs r.num) (OperandSize.s32.readBack v)) := by
  have hlt : pc < blocks.length := by
    rw [hl.length_eq]
    exact (List.getElem?_eq_some_iff.mp hpc).1
  obtain ⟨is, -, hs, -⟩ := hl.block pc J _ hpc (List.getElem?_eq_getElem hlt)
  unfold JitInstruction.immediateBranch at hJ
  split at hJ
  · next c d' v' t' =>
    obtain ⟨rfl, rfl, rfl, rfl⟩ : d' = d ∧ v' = v ∧ t' = t ∧ _ = test := by simpa using hJ
    obtain ⟨i, rfl, hs'⟩ := register_bind hs
    rw [← s64_eq, cmpImmediate_eq dbg true (hostReg_general i)] at hs'
    obtain rfl := map_some_inj (l := [_]) (Option.some.inj hs')
    refine ⟨hostReg i, mappedRegister_hostReg i, fun m hm => ?_⟩
    have hstep : ∀ code rest, code.drop m.rip = (direct true 0x81 7 (hostReg i).num .s32 v').bytes ++ rest →
        step undef code m = some ((past m (direct true 0x81 7 (hostReg i).num .s32 v')).alu .cmp true
          (hostReg i).num (OperandSize.s32.readBack v')) :=
      fun code rest hcode => step_direct rfl rfl (fun _ _ => rfl) hcode
    exact branchesOn_of_block hl hpc hs rfl rfl hm hstep (alu_rip _ _ _ _ _) (condition_cmp true c _ _)
  · next d' v' t' =>
    obtain ⟨rfl, rfl, rfl, rfl⟩ : d' = d ∧ v' = v ∧ t' = t ∧ _ = test := by simpa using hJ
    obtain ⟨i, rfl, hs'⟩ := register_bind hs
    rw [← s64_eq, testImmediate_eq dbg true (hostReg_general i)] at hs'
    obtain rfl := map_some_inj (l := [_]) (Option.some.inj hs')
    refine ⟨hostReg i, mappedRegister_hostReg i, fun m hm => ?_⟩
    have hstep : ∀ code rest, code.drop m.rip = (direct true 0xf7 0 (hostReg i).num .s32 v').bytes ++ rest →
        step undef code m = some ((past m (direct true 0xf7 0 (hostReg i).num .s32 v')).alu .test true
          (hostReg i).num (OperandSize.s32.readBack v')) :=
      fun code rest hcode => step_direct rfl rfl (fun _ _ => rfl) hcode
    exact branchesOn_of_block hl hpc hs rfl rfl hm hstep (alu_rip _ _ _ _ _) (condition_test true _ _)
  · cases hJ

end

/-- In compiled code, a 64-bit branch on an immediate is taken exactly when its relation holds
for every register content if and only if the immediate is in the range of an `i32`. -/
theorem compile_immediateBranch_iff {dbg : Bool} {program : List JitInstruction} {code : List Byte}
    (h : JitCompilerModel.compile dbg program = .ok code) (undef : State → Bool) :
    ∃ blocks, Linked dbg program blocks ∧ code = blocks.flatten ∧
      ∀ pc J d v t test, program[pc]? = some J → J.immediateBranch = some (d, v, t, test) →
        ∃ r, mappedRegister d = .ok r ∧
          ((∀ m : State, m.rip = blockStart blocks pc →
              BranchesOn undef code m (blockStart blocks t) (blockStart blocks (pc + 1)) (test (m.regs r.num) v)) ↔
            -2 ^ 31 ≤ v.toInt ∧ v.toInt ≤ 2 ^ 31 - 1) := by
  obtain ⟨blocks, hl, rfl⟩ := linked_of_compile h
  refine ⟨blocks, hl, rfl, fun pc J d v t test hpc hJ => ?_⟩
  obtain ⟨r, hr, hbranch⟩ : ∃ r, mappedRegister d = .ok r ∧ ∀ m : State, m.rip = _ → BranchesOn undef _ m _ _ _ :=
    immediate_block_branches hl hpc hJ
  refine ⟨r, hr, ?_⟩
  rw [← readBack_s32_eq_iff]
  constructor
  · intro hall
    refine immediateBranch_inj hJ fun x => ?_
    -- any register content is that of some machine at the start of the block
    let m : State := { rip := blockStart blocks pc, regs := fun _ => x,
                       flags := { cf := false, zf := false, sf := false, of := false }, mem := fun _ => 0 }
    exact (hbranch m rfl).unique (hall m rfl)
  · intro hv m hm
    have := hbranch m hm
    rwa [hv] at this

/-- `if r0 == 0x100000000 goto 2`, compiled without an error. -/
def wideBranch : List JitInstruction := [.jumpImmediate .s64 .equal 0 0x100000000 2, .ret, .ret]

def wideBranchCode : List Byte := [0x48, 0x81, 0xf8, 0, 0, 0, 0, 0x0f, 0x84, 1, 0, 0, 0, 0xc3, 0xc3]

/-- The machine at offset 0 with all registers 0. -/
def zeroMachine : State where
  rip := 0
  regs _ := 0
  flags := { cf := false, zf := false, sf := false, of := false }
  mem _ := 0

/-- With 0 in the register the branch is taken, as the low half of the immediate is 0. -/
theorem wideBranch_taken :
    JitCompilerModel.compile true wideBranch = .ok wideBranchCode ∧
      BranchesOn (fun _ => false) wideBranchCode zeroMachine 14 13 true ∧
      JumpCondition.equal.holds (zeroMachine.regs (hostReg 0).num) 0x100000000 = false :=
  ⟨rfl, ⟨_, _, rfl, rfl, rfl, rfl⟩, rfl⟩

/-- `if r0 == 5 goto 0`. -/
def narrowBranch : List JitInstruction := [.jumpImmediate .s64 .equal 0 5 0]

def narrowBranchCode : List Byte := [0x48, 0x81, 0xf8, 5, 0, 0, 0, 0x0f, 0x84, 0xf3, 0xff, 0xff, 0xff]

theorem compile_immediateBranch_iff_narrow :
    ∃ blocks, Linked true narrowBranch blocks ∧
      ∀ m : State, m.rip = blockStart blocks 0 →
        BranchesOn (fun _ => false) narrowBranchCode m (blockStart blocks 0) (blockStart blocks 1)
          (m.regs X86Register.rax.num == 5) := by
  have hcode : JitCompilerModel.compile true narrowBranch = .ok narrowBranchCode := rfl
  obtain ⟨blocks, hl, -, h⟩ := compile_immediateBranch_iff hcode (fun _ => false)
  obtain ⟨r, hr, hiff⟩ := h 0 _ 0 5 0 _ rfl rfl
  obtain rfl : X86Register.rax = r := Except.ok.inj hr
  exact ⟨blocks, hl, hiff.mpr (by decide)⟩

end Aeneas.Sbpf
