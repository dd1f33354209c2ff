import Aeneas.Jit

/-!
# What one instruction emits

A method of the compiler that returns `Ok` is inverted into the state it leaves. The
straight-line part of a block does not depend on the compiler state; a jump that ends the
block reads the pc table and may leave a pending relocation.
-/

namespace Aeneas.Sbpf

open X86Instruction

/-! ## When a method returns `Ok` -/

section
variable {α β : Type} {s s' : JitCompilerModel}

variable {x : JitM α} {f : α → JitM β}

theorem bind_ok {b : β} :
    (x >>= f) s = .ok b s' ↔ ∃ a s₁, x s = .ok a s₁ ∧ f a s₁ = .ok b s' := by
  change EStateM.bind x f s = _ ↔ _
  unfold EStateM.bind
  cases h : x s with
  | ok a s₁ => simp
  | error e s₁ => simp

variable {a : α} {s₁ : JitCompilerModel}

theorem bind_of_ok (h : x s = .ok a s₁) :
    (x >>= f) s = f a s₁ := by
  change EStateM.bind x f s = _
  rw [EStateM.bind, h]

theorem bind_of_error {e : Failure} (h : x s = .error e s₁) :
    (x >>= f) s = .error e s₁ := by
  change EStateM.bind x f s = _
  rw [EStateM.bind, h]

theorem pure_ok {b : α} : (pure a : JitM α) s = .ok b s' ↔ b = a ∧ s' = s := by
  change EStateM.Result.ok a s = _ ↔ _
  simp [eq_comm]

theorem okOr_ok {e : JitModelError} {o : Option α} :
    okOr e o s = .ok a s' ↔ o = some a ∧ s' = s := by
  cases o with
  | none => simp only [okOr, reduceCtorEq, false_and, iff_false]; rintro ⟨⟩
  | some b => simp only [okOr, pure_ok, Option.some.injEq, eq_comm]

theorem orPanic_ok {o : Option α} : orPanic o s = .ok a s' ↔ o = some a ∧ s' = s := by
  cases o with
  | none => simp only [orPanic, reduceCtorEq, false_and, iff_false]; rintro ⟨⟩
  | some b => simp only [orPanic, pure_ok, Option.some.injEq, eq_comm]

theorem ofResult_ok {r : Except JitModelError α} :
    ofResult r s = .ok a s' ↔ r = .ok a ∧ s' = s := by
  cases r with
  | error e => simp only [ofResult, reduceCtorEq, false_and, iff_false]; rintro ⟨⟩
  | ok b => simp only [ofResult, pure_ok, Except.ok.injEq, eq_comm]

theorem get_ok {a : JitCompilerModel} : (get : JitM _) s = .ok a s' ↔ a = s ∧ s' = s := by
  change EStateM.Result.ok s s = _ ↔ _
  simp [eq_comm]

theorem set_ok {t : JitCompilerModel} {u : PUnit} : (set t : JitM _) s = .ok u s' ↔ s' = t := by
  change EStateM.Result.ok _ t = _ ↔ _
  simp [eq_comm]

theorem throwJit_not_ok {e : JitModelError} : throwJit e s ≠ .ok a s' := by
  rintro ⟨⟩

end

variable {x y z : Nat}

theorem checkedAdd_eq_some (h : checkedAdd x y = some z) : x + y = z := by
  unfold checkedAdd at h
  split at h
  · exact Option.some.inj h
  · cases h

theorem checkedAdd_le (h : checkedAdd x y = some z) : z ≤ usizeMax := by
  unfold checkedAdd at h
  split at h
  · exact Option.some.inj h ▸ ‹_›
  · cases h

theorem checkedSub_eq_some (h : checkedSub x y = some z) : x - y = z := by
  unfold checkedSub at h
  split at h
  · exact Option.some.inj h
  · cases h

namespace JitCompilerModel

section
variable {dbg : Bool} {s s' : JitCompilerModel} {u : Unit}

def append (s : JitCompilerModel) (bytes : List Byte) : JitCompilerModel :=
  { s with textSection := s.textSection ++ bytes }

@[simp] theorem append_nil : s.append [] = s := by simp [append]

@[simp] theorem append_append {b₁ b₂ : List Byte} : (s.append b₁).append b₂ = s.append (b₁ ++ b₂) := by
  simp [append]

variable {i : X86Instruction}

theorem encode_eq_some {bytes : List Byte} (h : i.encode dbg = some bytes) : bytes = i.bytes := by
  unfold encode at h
  cases hasserts : i.encodeAsserts dbg with
  | none => simp [hasserts] at h
  | some v => simpa [hasserts, eq_comm] using h

theorem emitIns_of_encode (h : i.encode dbg = some i.bytes) :
    emitIns dbg i s = .ok () (s.append i.bytes) :=
  bind_ok.mpr ⟨i.bytes, s, orPanic_ok.mpr ⟨h, rfl⟩, rfl⟩

theorem emitIns_ok :
    emitIns dbg i s = .ok u s' ↔ i.encode dbg = some i.bytes ∧ s' = s.append i.bytes := by
  constructor
  · intro h
    obtain ⟨bytes, s₁, hpanic, happend⟩ := bind_ok.mp h
    obtain ⟨hb, rfl⟩ := orPanic_ok.mp hpanic
    obtain rfl := encode_eq_some hb
    cases happend
    exact ⟨hb, rfl⟩
  · rintro ⟨hb, rfl⟩
    exact emitIns_of_encode hb

theorem setProgramCounter_ok {pc : Nat} :
    setProgramCounter pc s = .ok u s' ↔ pc < s.pcSection.length ∧
      s' = { s with pcSection := s.pcSection.set pc (some s.textSection.length) } := by
  simp only [setProgramCounter, bind_ok, get_ok]
  constructor
  · rintro ⟨_, _, ⟨rfl, rfl⟩, h⟩
    split at h
    · exact ⟨‹_›, set_ok.mp h⟩
    · exact absurd h throwJit_not_ok
  · rintro ⟨hpc, rfl⟩
    exact ⟨s, s, ⟨rfl, rfl⟩, by rw [if_pos hpc]; rfl⟩

/-- The pending relocation of a forward jump whose block will end at `instructionEnd`. -/
def pend (s : JitCompilerModel) (instructionEnd targetPc : Nat) : JitCompilerModel :=
  { s with textSectionJumps := s.textSectionJumps ++ [JumpModel.mk (instructionEnd - 4) targetPc] }

theorem relativeToTargetPc_ok {targetPc len : Nat} {d : BitVec 32} :
    relativeToTargetPc targetPc len s = .ok d s' →
      (∃ destination, s.pcSection[targetPc]? = some (some destination) ∧
        relativeOffset destination (s.textSection.length + len) = .ok d ∧ s' = s) ∨
      (s.pcSection[targetPc]? = some none ∧ d = 0 ∧ s' = s.pend (s.textSection.length + len) targetPc) := by
  simp only [relativeToTargetPc, bind_ok, get_ok, okOr_ok]
  rintro ⟨_, _, ⟨rfl, rfl⟩, slot, _, ⟨hslot, rfl⟩, e, _, ⟨he, rfl⟩, h⟩
  obtain rfl := checkedAdd_eq_some he
  cases slot with
  | some destination =>
    obtain ⟨hd, rfl⟩ := ofResult_ok.mp h
    exact .inl ⟨destination, hslot, hd, rfl⟩
  | none =>
    simp only [bind_ok, okOr_ok, set_ok, pure_ok] at h
    obtain ⟨location, _, ⟨hl, rfl⟩, _, _, rfl, rfl, rfl⟩ := h
    obtain rfl := checkedSub_eq_some hl
    exact .inr ⟨hslot, rfl, rfl⟩

end

end JitCompilerModel

/-! ## The instructions of a block -/

namespace JitInstruction

def target : JitInstruction → Option Nat
  | .jump t | .jumpImmediate _ _ _ _ t | .jumpRegister _ _ _ _ t | .jumpTestImmediate _ _ _ t
  | .jumpTestRegister _ _ _ t => some t
  | _ => none

def jumpBytes : JitInstruction → List Byte
  | .jump _ => [0xe9]
  | .jumpImmediate _ c _ _ _ | .jumpRegister _ c _ _ _ => [0x0f, jumpOpcode c]
  | .jumpTestImmediate _ _ _ _ | .jumpTestRegister _ _ _ _ => [0x0f, jumpOpcode .notEqual]
  | _ => []

def register (index : Nat) : Option X86Register := registerMap[index]?

def shiftByRcx (dbg : Bool) (size : OperandSize) (opcodeExtension : Byte)
    (source destination : X86Register) : List (Option X86Instruction) :=
  let shift := fun r => X86Instruction.aluImmediate dbg size 0xd3 opcodeExtension r 0 none
  if source = .rcx then [shift destination]
  else if destination = .rcx then
    [some (.push source none), xchg dbg .s64 source .rcx none, shift source,
      mov dbg .s64 source .rcx, some (.pop source)]
  else
    [some (.push .rcx none), mov dbg .s64 source .rcx, shift destination, some (.pop .rcx)]

def registerShift (dbg : Bool) (size : OperandSize) (operation : ShiftOperation)
    (source destination : X86Register) : List (Option X86Instruction) :=
  let rest := shiftByRcx dbg size (shiftOpcodeExtension operation) source destination
  if size = .s32 then mov dbg size destination destination :: rest else rest

/-- What a block computes before its jump, if it has one; an instruction is `none` when
its constructor panics. -/
def straight (dbg : Bool) : JitInstruction → Option (List (Option X86Instruction))
  | .loadImmediate size destination value => do
    let destination ← register destination
    match size with
    | .s32 => some [some (.loadImmediate destination ((value.setWidth 32).setWidth 64))]
    | .s64 => some [some (.loadImmediate destination value)]
    | _ => none
  | .moveRegister size source destination => do
    some [mov dbg size (← register source) (← register destination)]
  | .aluImmediate size operation destination value => do
    let destination ← register destination
    if JitCompilerModel.fitsI32 value then
      some [X86Instruction.aluImmediate dbg size 0x81 (aluEncoding operation).2 destination value none]
    else
      some [some (.loadImmediate registerScratch value),
        alu dbg size (aluEncoding operation).1 registerScratch destination none]
  | .aluRegister size operation source destination => do
    some [alu dbg size (aluEncoding operation).1 (← register source)
      (← register destination) none]
  | .shiftImmediate size operation destination amount => do
    some [X86Instruction.aluImmediate dbg size 0xc1 (shiftOpcodeExtension operation)
      (← register destination) (amount.setWidth 64) none]
  | .shiftRegister size operation source destination => do
    some (registerShift dbg size operation (← register source) (← register destination))
  | .jump _ => some []
  | .jumpImmediate size _ destination value _ => do
    some [cmpImmediate dbg size (← register destination) value none]
  | .jumpRegister size _ source destination _ => do
    some [cmp dbg size (← register source) (← register destination) none]
  | .jumpTestImmediate size destination value _ => do
    some [testImmediate dbg size (← register destination) value none]
  | .jumpTestRegister size source destination _ => do
    some [test dbg size (← register source) (← register destination) none]
  | .ret => some [some .returnNear]

end JitInstruction

def bytesOf (is : List X86Instruction) : List Byte := is.flatMap bytes

/-- A block: its straight-line instructions and, for a jump, the opcode and a displacement. -/
def JitInstruction.block (J : JitInstruction) (is : List X86Instruction) (d : BitVec 32) : List Byte :=
  bytesOf is ++ match J.target with
    | none => []
    | some _ => J.jumpBytes ++ leBytes 4 d.toNat

/-- When `x` returns, it has appended the instructions of `o`, none of which panicked, and
then run `k`. -/
def Emits (x : JitM Unit) (o : Option (List (Option X86Instruction))) (k : JitM Unit) : Prop :=
  ∀ s s' u, x s = .ok u s' →
    ∃ is : List X86Instruction, o = some (is.map some) ∧ k (s.append (bytesOf is)) = .ok u s'

def Ready (dbg : Bool) (l : List (Option X86Instruction)) (is : List X86Instruction) : Prop :=
  l = is.map some ∧ ∀ i ∈ is, i.encode dbg = some i.bytes

/-- All that `x` can do: refuse without touching the state, panic at an instruction of `o`, or
append the instructions of `o` and go on with `k`. -/
inductive Outcome (dbg : Bool) (x : JitM Unit) (refusal : JitModelError) (o : Option (List (Option X86Instruction)))
    (k : JitM Unit) (s : JitCompilerModel) : Prop
  | refuses (ho : o = none) (hx : x s = .error (.err refusal) s)
  | panics (l : List (Option X86Instruction)) (ho : o = some l) (hl : ∀ is, ¬ Ready dbg l is)
      (s' : JitCompilerModel) (hx : x s = .error .panic s')
  | appends (l : List (Option X86Instruction)) (is : List X86Instruction) (ho : o = some l) (hl : Ready dbg l is)
      (hx : x s = k (s.append (bytesOf is)))

section
variable (dbg : Bool) {refusal : JitModelError} {y k : JitM Unit} {l : List (Option X86Instruction)}

theorem ready_cons {o : Option X86Instruction} {is : List X86Instruction} :
    Ready dbg (o :: l) is ↔
      ∃ i is', o = some i ∧ is = i :: is' ∧ i.encode dbg = some i.bytes ∧ Ready dbg l is' := by
  constructor
  · rintro ⟨hmap, henc⟩
    cases is with
    | nil => cases hmap
    | cons i is =>
      obtain ⟨ho, hl⟩ := List.cons.inj hmap
      exact ⟨i, is, ho, rfl, henc i (by simp), hl, fun j hj => henc j (by simp [hj])⟩
  · rintro ⟨i, is', rfl, rfl, hi, hl, henc⟩
    exact ⟨by rw [hl]; rfl, by simpa [hi] using henc⟩

namespace Outcome

theorem rest (k : JitM Unit) (s : JitCompilerModel) : Outcome dbg k refusal (some []) k s :=
  .appends [] [] rfl ⟨rfl, by simp⟩ (by simp [bytesOf])

theorem built_then (o : Option X86Instruction) (hy : ∀ s, Outcome dbg y refusal (some l) k s) (s : JitCompilerModel) :
    Outcome dbg (do let i ← orPanic o; JitCompilerModel.emitIns dbg i; y) refusal (some (o :: l)) k s := by
  cases o with
  | none =>
    refine .panics _ rfl (fun is h => ?_) s rfl
    obtain ⟨_, _, ho, -⟩ := (ready_cons dbg).mp h
    cases ho
  | some i =>
    cases hi : i.encode dbg with
    | none =>
      have hpanic : JitCompilerModel.emitIns dbg i s = .error .panic s := bind_of_error (by rw [hi]; rfl)
      have hbind : (do JitCompilerModel.emitIns dbg i; y) s = .error .panic s := bind_of_error hpanic
      refine .panics _ rfl (fun is h => ?_) s hbind
      obtain ⟨_, _, ho, -, henc, -⟩ := (ready_cons dbg).mp h
      cases ho
      rw [hi] at henc
      cases henc
    | some bytes =>
      obtain rfl := JitCompilerModel.encode_eq_some hi
      have hrun : (do let i ← orPanic (some i); JitCompilerModel.emitIns dbg i; y) s = y (s.append i.bytes) :=
        bind_of_ok (JitCompilerModel.emitIns_of_encode hi)
      rcases hy (s.append i.bytes) with ⟨ho, -⟩ | ⟨l, ho, hl, s', hx⟩ | ⟨l, is, ho, hl, hx⟩
      · cases ho
      · cases ho
        refine .panics _ rfl (fun is h => ?_) s' (hrun.trans hx)
        obtain ⟨_, is', -, -, -, hready⟩ := (ready_cons dbg).mp h
        exact hl is' hready
      · cases ho
        refine .appends _ (i :: is) rfl ((ready_cons dbg).mpr ⟨i, is, rfl, rfl, hi, hl⟩) ?_
        rw [hrun, hx, JitCompilerModel.append_append]
        rfl

theorem built (o : Option X86Instruction) (s : JitCompilerModel) :
    Outcome dbg (do let i ← orPanic o; JitCompilerModel.emitIns dbg i) refusal (some [o]) (pure ()) s := by
  simpa using built_then dbg o (rest dbg (pure ())) s

theorem ins_then (i : X86Instruction) (hy : ∀ s, Outcome dbg y refusal (some l) k s) (s : JitCompilerModel) :
    Outcome dbg (do JitCompilerModel.emitIns dbg i; y) refusal (some (some i :: l)) k s :=
  built_then dbg (some i) hy s

theorem ins (i : X86Instruction) (s : JitCompilerModel) :
    Outcome dbg (JitCompilerModel.emitIns dbg i) refusal (some [some i]) (pure ()) s := built dbg (some i) s

theorem mapped {index : Nat} {f : X86Register → JitM Unit}
    {g : X86Register → Option (List (Option X86Instruction))}
    (hrefusal : JitInstruction.register index = none → refusal = .invalidRegister)
    (h : ∀ r s, JitInstruction.register index = some r → Outcome dbg (f r) refusal (g r) k s) (s : JitCompilerModel) :
    Outcome dbg (do let r ← ofResult (mappedRegister index); f r) refusal
      (do let r ← JitInstruction.register index; g r) k s := by
  cases hindex : JitInstruction.register index with
  | none =>
    have hmap : mappedRegister index = .error .invalidRegister := by
      unfold mappedRegister
      rw [show registerMap[index]? = none from hindex]
    refine .refuses rfl ?_
    rw [hmap, hrefusal hindex]
    rfl
  | some r =>
    have hmap : mappedRegister index = .ok r := by
      unfold mappedRegister
      rw [show registerMap[index]? = some r from hindex]
    rw [hmap]
    exact h r s hindex

end Outcome

end

namespace JitCompilerModel

section
variable {dbg : Bool} {s s' : JitCompilerModel} {u : Unit}

theorem outcome_shiftByRcx {refusal : JitModelError} (size : OperandSize) (opcodeExtension : Byte)
    (source destination : X86Register) (s : JitCompilerModel) :
    Outcome dbg (emitShiftByRcx dbg size opcodeExtension source destination) refusal
      (some (JitInstruction.shiftByRcx dbg size opcodeExtension source destination)) (pure ()) s := by
  unfold emitShiftByRcx JitInstruction.shiftByRcx
  split
  · exact .built dbg _ s
  · split
    · exact .ins_then dbg _ (.built_then dbg _ (.built_then dbg _ (.built_then dbg _ (.ins dbg _)))) s
    · exact .ins_then dbg _ (.built_then dbg _ (.built_then dbg _ (.ins dbg _))) s

theorem outcome_registerShift {refusal : JitModelError} (size : OperandSize) (operation : ShiftOperation)
    (source destination : X86Register) (s : JitCompilerModel) :
    Outcome dbg (emitRegisterShift dbg size operation source destination) refusal
      (some (JitInstruction.registerShift dbg size operation source destination)) (pure ()) s := by
  unfold emitRegisterShift JitInstruction.registerShift
  dsimp only
  split
  · exact .built_then dbg _ (outcome_shiftByRcx _ _ _ _) s
  · exact outcome_shiftByRcx _ _ _ _ s

def emitJump (dbg : Bool) : JitInstruction → JitM Unit
  | .jump t => do
    let d ← relativeToTargetPc t 5
    emitIns dbg (jumpImmediate d)
  | .jumpImmediate _ c _ _ t | .jumpRegister _ c _ _ t => emitConditionalJump dbg c t
  | .jumpTestImmediate _ _ _ t | .jumpTestRegister _ _ _ t => emitConditionalJump dbg .notEqual t
  | _ => pure ()

def refusal : JitInstruction → JitModelError
  | .loadImmediate _ destination _ =>
    if (JitInstruction.register destination).isSome then .invalidOperandSize else .invalidRegister
  | _ => .invalidRegister

theorem outcome_jitInstruction (J : JitInstruction) (s : JitCompilerModel) :
    Outcome dbg (emitJitInstruction dbg J) (refusal J) (J.straight dbg) (emitJump dbg J) s := by
  cases J with
  | loadImmediate size destination value =>
    refine .mapped dbg (fun h => by rw [refusal, h]; rfl) (fun r s hr => ?_) s
    rw [refusal, hr]
    cases size with
    | s32 | s64 => exact .ins dbg _ s
    | s0 | s8 | s16 => exact .refuses rfl rfl
  | aluImmediate size operation destination value =>
    refine .mapped dbg (fun _ => rfl) (fun r s _ => ?_) s
    dsimp only
    split
    · exact .built dbg _ s
    · exact .ins_then dbg _ (.built dbg _) s
  | shiftImmediate size operation destination amount =>
    exact .mapped dbg (fun _ => rfl) (fun r s _ => .built dbg _ s) s
  | moveRegister size source destination | aluRegister size operation source destination =>
    exact .mapped dbg (fun _ => rfl) (fun r s _ => .mapped dbg (fun _ => rfl) (fun r' s _ => .built dbg _ s) s) s
  | shiftRegister size operation source destination =>
    exact .mapped dbg (fun _ => rfl)
      (fun r s _ => .mapped dbg (fun _ => rfl) (fun r' s _ => outcome_registerShift _ _ _ _ s) s) s
  | jumpImmediate size c destination value t | jumpTestImmediate size destination value t =>
    exact .mapped dbg (fun _ => rfl) (fun r s _ => .built_then dbg _ (.rest dbg _) s) s
  | jumpRegister size c source destination t | jumpTestRegister size source destination t =>
    exact .mapped dbg (fun _ => rfl)
      (fun r s _ => .mapped dbg (fun _ => rfl) (fun r' s _ => .built_then dbg _ (.rest dbg _) s) s) s
  | jump t => exact .rest dbg _ s
  | ret => exact .ins dbg _ s

theorem emits_jitInstruction (J : JitInstruction) :
    Emits (emitJitInstruction dbg J) (J.straight dbg) (emitJump dbg J) := by
  intro s s' u h
  have hout : Outcome dbg _ _ _ _ s := outcome_jitInstruction J s
  rcases hout with ⟨-, hx⟩ | ⟨_, -, -, _, hx⟩ | ⟨l, is, ho, hl, hx⟩
  · rw [hx] at h
    cases h
  · rw [hx] at h
    cases h
  · exact ⟨is, by rw [ho, hl.1], hx ▸ h⟩

theorem emitVariableLength_s32 (d : BitVec 32) : emitVariableLength .s32 (d.signExtend 64) = leBytes 4 d.toNat := by
  have h256 : 256 ^ 4 = 2 ^ 32 := by decide
  have h : d.toNat = (d.signExtend 64).toNat % 256 ^ 4 := by
    rw [h256, ← congrArg BitVec.toNat (setWidth_signExtend (show 32 ≤ 64 by omega) d), BitVec.toNat_setWidth]
  rw [h, leBytes_mod]
  exact leBytes_take 4 8 _ (by omega)

theorem jumpImmediate_bytes (d : BitVec 32) :
    (jumpImmediate d).bytes = [0xe9] ++ leBytes 4 d.toNat := by
  simp [← emitVariableLength_s32, bytes, rexByte, addressing,
    boolToU8, escapeBytes, modrmBytes, jumpImmediate]

theorem conditionalJumpImmediate_bytes (opcode : Byte) (d : BitVec 32) :
    (conditionalJumpImmediate opcode d).bytes = [0x0f, opcode] ++ leBytes 4 d.toNat := by
  simp [← emitVariableLength_s32, bytes, rexByte, addressing,
    boolToU8, escapeBytes, modrmBytes,
    conditionalJumpImmediate]

theorem emitConditionalJump_ok {c : JumpCondition} {t : Nat} (h : emitConditionalJump dbg c t s = .ok u s') :
    ∃ d s₁, relativeToTargetPc t 6 s = .ok d s₁ ∧
      s' = s₁.append ([0x0f, jumpOpcode c] ++ leBytes 4 d.toNat) := by
  obtain ⟨d, s₁, hd, h⟩ := bind_ok.mp h
  obtain ⟨-, rfl⟩ := emitIns_ok.mp h
  exact ⟨d, s₁, hd, by rw [conditionalJumpImmediate_bytes]⟩

theorem emitJump_ok {J : JitInstruction} (h : emitJump dbg J s = .ok u s') :
    match J.target with
    | none => s' = s
    | some t => ∃ d s₁, relativeToTargetPc t (J.jumpBytes.length + 4) s = .ok d s₁ ∧
        s' = s₁.append (J.jumpBytes ++ leBytes 4 d.toNat) := by
  cases J with
  | jump t =>
    obtain ⟨d, s₁, hd, h⟩ := bind_ok.mp h
    obtain ⟨-, rfl⟩ := emitIns_ok.mp h
    exact ⟨d, s₁, hd, by rw [jumpImmediate_bytes]; rfl⟩
  | jumpImmediate | jumpRegister | jumpTestImmediate | jumpTestRegister => exact emitConditionalJump_ok h
  | _ => exact (pure_ok.mp h).2

theorem emitJitInstruction_ok {J : JitInstruction} (h : emitJitInstruction dbg J s = .ok u s') :
    ∃ is d, J.straight dbg = some (is.map some) ∧
      match J.target with
      | none => s' = s.append (J.block is d)
      | some t =>
        let e := s.textSection.length + (J.block is d).length
        (∃ destination, s.pcSection[t]? = some (some destination) ∧ relativeOffset destination e = .ok d ∧
          s' = s.append (J.block is d)) ∨
        (s.pcSection[t]? = some none ∧ s' = (s.append (J.block is d)).pend e t) := by
  obtain ⟨is, hs, hk⟩ := emits_jitInstruction J _ _ _ h
  have hj := emitJump_ok hk
  cases ht : J.target with
  | none =>
    rw [ht] at hj
    exact ⟨is, 0, hs, by simpa [JitInstruction.block, ht] using hj⟩
  | some t =>
    rw [ht] at hj
    obtain ⟨d, s₁, hd, rfl⟩ := hj
    refine ⟨is, d, hs, ?_⟩
    have he : s.textSection.length + (J.block is d).length =
        (s.append (bytesOf is)).textSection.length + (J.jumpBytes.length + 4) := by
      simp [JitInstruction.block, ht, append]
      omega
    have happ : s.append (J.block is d) = (s.append (bytesOf is)).append (J.jumpBytes ++ leBytes 4 d.toNat) := by
      simp [JitInstruction.block, ht]
    dsimp only
    rw [he, happ]
    rcases relativeToTargetPc_ok hd with ⟨destination, hdest, hrel, rfl⟩ | ⟨hnone, -, rfl⟩
    · exact .inl ⟨destination, hdest, hrel, rfl⟩
    · exact .inr ⟨hnone, rfl⟩

end

end JitCompilerModel

end Aeneas.Sbpf
