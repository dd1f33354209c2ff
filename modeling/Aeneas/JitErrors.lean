import Aeneas.JitLayout

/-!
# Errors of the compiler

When `emit_jit_instruction` and `compile` return an error, and what the error leaves behind.
The register map and the operand sizes are checked before anything is emitted, but the
operand size is checked for `LoadImmediate` only, and the target of a conditional jump is
looked up after its compare was emitted.
-/

namespace Aeneas.Sbpf

open JitInstruction X86Instruction List

namespace JitInstruction

/-- The registers exist, and no check of the operand size fails: `LoadImmediate` returns an
error, and the others rely on the assertions of a debug build. -/
def Accepted (dbg : Bool) : JitInstruction → Prop
  | .loadImmediate size destination _ => destination < 11 ∧ (size = .s32 ∨ size = .s64)
  | .moveRegister size source destination | .aluRegister size _ source destination
  | .shiftRegister size _ source destination =>
    source < 11 ∧ destination < 11 ∧ (dbg = true → size = .s32 ∨ size = .s64)
  | .aluImmediate size _ destination _ | .shiftImmediate size _ destination _ =>
    destination < 11 ∧ (dbg = true → size = .s32 ∨ size = .s64)
  | .jumpImmediate size _ destination _ _ | .jumpTestImmediate size destination _ _ =>
    destination < 11 ∧ (dbg = true → size ≠ .s0)
  | .jumpRegister size _ source destination _ | .jumpTestRegister size source destination _ =>
    source < 11 ∧ destination < 11 ∧ (dbg = true → size ≠ .s0)
  | .jump _ | .ret => True

def BadLoad : JitInstruction → Prop
  | .loadImmediate size destination _ => destination < 11 ∧ size ≠ .s32 ∧ size ≠ .s64
  | _ => False

def blockLength (dbg : Bool) (J : JitInstruction) : Nat :=
  match J.straight dbg with
  | some l => (J.block (l.filterMap id) 0).length
  | none => 0

end JitInstruction

/-! ## Accepted instructions -/

section
variable {dbg : Bool} {size : OperandSize}

theorem excludeOperandSizes_eq_some {l : List OperandSize} :
    excludeOperandSizes dbg size l = some () ↔ (dbg = true → size ∉ l) := by
  simp only [excludeOperandSizes, debugAssert]
  cases dbg <;> by_cases h : size ∈ l <;> simp [h]

variable {i : X86Instruction}

theorem encode_of_register (hind : i.indirect = none) :
    i.encode dbg = some i.bytes ↔ (dbg = true → i.size ≠ .s0) := by
  simp only [encode, encodeAsserts, debugAssert, hind]
  cases dbg <;> by_cases h : i.size = .s0 <;> simp [h]

def Passes (dbg : Bool) (o : Option X86Instruction) : Prop := ∃ i, o = some i ∧ i.encode dbg = some i.bytes

theorem passes_some (hind : i.indirect = none) (hsize : i.size ≠ .s0) : Passes dbg (some i) :=
  ⟨i, rfl, (encode_of_register hind).mpr fun _ => hsize⟩

theorem passes_excluded {l : List OperandSize} (hzero : .s0 ∈ l) (hind : i.indirect = none)
    (hsize : i.size = size) : Passes dbg (do excludeOperandSizes dbg size l; some i) ↔ (dbg = true → size ∉ l) := by
  rw [← excludeOperandSizes_eq_some]
  constructor
  · rintro ⟨j, hj, -⟩
    obtain ⟨u, hu, -⟩ := Option.bind_eq_some_iff.mp hj
    exact hu
  · intro h
    refine ⟨i, by rw [h]; rfl, (encode_of_register hind).mpr ?_⟩
    intro hdbg hs0
    exact excludeOperandSizes_eq_some.mp h hdbg (by rwa [← hsize, hs0])

theorem not_mem_narrow : size ∉ [OperandSize.s0, .s8, .s16] ↔ size = .s32 ∨ size = .s64 := by
  cases size <;> decide

variable {o : Option X86Instruction}

theorem exists_ready_cons {l : List (Option X86Instruction)} :
    (∃ is, Ready dbg (o :: l) is) ↔ Passes dbg o ∧ ∃ is, Ready dbg l is := by
  simp only [ready_cons]
  constructor
  · rintro ⟨_, i, is, rfl, rfl, hi, hl⟩
    exact ⟨⟨i, rfl, hi⟩, is, hl⟩
  · rintro ⟨⟨i, rfl, hi⟩, is, hl⟩
    exact ⟨_, i, is, rfl, rfl, hi, hl⟩

theorem exists_ready_nil : ∃ is, Ready dbg [] is := ⟨[], rfl, by simp⟩

def CanEmit (dbg : Bool) (o : Option (List (Option X86Instruction))) : Prop := ∃ l, o = some l ∧ ∃ is, Ready dbg l is

theorem canEmit_one : CanEmit dbg (some [o]) ↔ Passes dbg o := by
  simp [CanEmit, exists_ready_cons, exists_ready_nil]

theorem canEmit_register {index : Nat} {g : X86Register → Option (List (Option X86Instruction))} {P : Prop}
    (h : ∀ r, CanEmit dbg (g r) ↔ P) :
    CanEmit dbg (do let r ← register index; g r) ↔ index < 11 ∧ P := by
  cases hindex : register index with
  | none =>
    have hlen : 11 ≤ index := getElem?_eq_none_iff.mp hindex
    constructor
    · rintro ⟨_, hnone, -⟩
      cases hnone
    · rintro ⟨hlt, -⟩
      omega
  | some r =>
    have hlen : index < 11 := (List.getElem?_eq_some_iff.mp hindex).1
    have hr : CanEmit dbg (g r) ↔ index < 11 ∧ P := (h r).trans (by simp [hlen])
    exact hr

variable {destination : X86Register}

theorem passes_aluImmediate {opcode extension : Byte} {value : BitVec 64} :
    Passes dbg (aluImmediate dbg size opcode extension destination value none) ↔
      (dbg = true → size = .s32 ∨ size = .s64) := by
  rw [← not_mem_narrow]
  exact passes_excluded (by simp) rfl rfl

variable {source : X86Register}

theorem passes_mov :
    Passes dbg (mov dbg size source destination) ↔ (dbg = true → size = .s32 ∨ size = .s64) := by
  rw [← not_mem_narrow]
  exact passes_excluded (by simp) rfl rfl

theorem passes_alu {opcode : Byte} :
    Passes dbg (alu dbg size opcode source destination none) ↔
      (dbg = true → size = .s32 ∨ size = .s64) := by
  rw [← not_mem_narrow]
  exact passes_excluded (by simp) rfl rfl

theorem passes_loadImmediate (destination : X86Register) (value : BitVec 64) :
    Passes dbg (some (loadImmediate destination value)) := by
  unfold X86Instruction.loadImmediate
  split_ifs <;> exact passes_some rfl nofun

theorem ready_shiftByRcx {extension : Byte} :
    (∃ is, Ready dbg (shiftByRcx dbg size extension source destination) is) ↔
      (dbg = true → size = .s32 ∨ size = .s64) := by
  have hpush : ∀ r, Passes dbg (some (push r none)) := fun r => passes_some rfl nofun
  have hpop : ∀ r, Passes dbg (some (pop r)) := fun r => passes_some rfl nofun
  have hxchg : ∀ r, Passes dbg (xchg dbg .s64 r .rcx none) := by
    intro r
    have hiff : Passes dbg (xchg dbg .s64 r .rcx none) ↔
        (dbg = true → OperandSize.s64 ∉ [OperandSize.s0, .s8, .s16, .s32]) := passes_excluded (by simp) rfl rfl
    exact hiff.mpr fun _ => by decide
  have hmov : ∀ r, Passes dbg (mov dbg .s64 r .rcx) := fun r => passes_mov.mpr fun _ => .inr rfl
  unfold shiftByRcx
  split_ifs <;>
    simp only [exists_ready_cons, exists_ready_nil, passes_aluImmediate, hpush, hpop, hxchg, hmov, true_and, and_true]

theorem ready_registerShift {operation : ShiftOperation} :
    (∃ is, Ready dbg (registerShift dbg size operation source destination) is) ↔
      (dbg = true → size = .s32 ∨ size = .s64) := by
  unfold registerShift
  dsimp only
  split
  · rw [exists_ready_cons, ready_shiftByRcx, passes_mov, and_self_iff]
  · exact ready_shiftByRcx

theorem not_mem_zero : size ∉ [OperandSize.s0] ↔ size ≠ .s0 := by simp

theorem accepted_iff (J : JitInstruction) : CanEmit dbg (J.straight dbg) ↔ J.Accepted dbg := by
  cases J with
  | loadImmediate size destination value =>
    refine canEmit_register fun r => ?_
    cases size with
    | s32 | s64 => simp [canEmit_one, passes_loadImmediate]
    | s0 | s8 | s16 => simp [CanEmit]
  | moveRegister size source destination =>
    exact canEmit_register fun r => canEmit_register fun r' => canEmit_one.trans passes_mov
  | aluImmediate size operation destination value =>
    refine canEmit_register fun r => ?_
    split
    · exact canEmit_one.trans passes_aluImmediate
    · simp [CanEmit, exists_ready_cons, exists_ready_nil, passes_loadImmediate, passes_alu]
  | aluRegister size operation source destination =>
    exact canEmit_register fun r => canEmit_register fun r' => canEmit_one.trans passes_alu
  | shiftImmediate size operation destination amount =>
    exact canEmit_register fun r => canEmit_one.trans passes_aluImmediate
  | shiftRegister size operation source destination =>
    exact canEmit_register fun r => canEmit_register fun r' => by simp [CanEmit, ready_registerShift]
  | jumpImmediate size c destination value t | jumpTestImmediate size destination value t =>
    refine canEmit_register fun r => canEmit_one.trans ?_
    rw [← not_mem_zero]
    exact passes_excluded (by simp) rfl rfl
  | jumpRegister size c source destination t | jumpTestRegister size source destination t =>
    refine canEmit_register fun r => canEmit_register fun r' => canEmit_one.trans ?_
    rw [← not_mem_zero]
    exact passes_excluded (by simp) rfl rfl
  | jump t => simp [CanEmit, straight, JitInstruction.Accepted, exists_ready_nil]
  | ret =>
    have hret : Passes dbg (some returnNear) := passes_some rfl (by decide)
    simp [straight, canEmit_one, JitInstruction.Accepted, hret]

end

/-! ## One instruction -/

namespace JitCompilerModel

/-- A jump that ends at `e` can be emitted: its target is in the pc table, and if its offset is
known then the displacement fits. -/
def Reaches (s : JitCompilerModel) (t e : Nat) : Prop :=
  ∃ slot, s.pcSection[t]? = some slot ∧ e ≤ usizeMax ∧
    ∀ destination, slot = some destination → -2 ^ 31 ≤ (destination : Int) - e ∧ (destination : Int) - e < 2 ^ 31

section
variable {dbg : Bool} {s s' : JitCompilerModel} {J : JitInstruction}

variable {α : Type}

theorem get_bind (f : JitCompilerModel → JitM α) : (do let self ← get; f self) s = f s s := rfl

variable {t len : Nat}

theorem relativeToTargetPc_known {destination : Nat} (hslot : s.pcSection[t]? = some (some destination))
    (hmax : s.textSection.length + len ≤ usizeMax) :
    relativeToTargetPc t len s = ofResult (relativeOffset destination (s.textSection.length + len)) s := by
  unfold relativeToTargetPc
  rw [get_bind, hslot, checkedAdd, if_pos hmax]
  rfl

theorem relativeToTargetPc_pending (hlen : 4 ≤ len) (hslot : s.pcSection[t]? = some none)
    (hmax : s.textSection.length + len ≤ usizeMax) :
    relativeToTargetPc t len s = .ok 0 (s.pend (s.textSection.length + len) t) := by
  have hsub : checkedSub (s.textSection.length + len) 4 = some (s.textSection.length + len - 4) := if_pos (by omega)
  unfold relativeToTargetPc
  rw [get_bind, hslot, checkedAdd, if_pos hmax]
  change (do let location ← okOr .invalidRelocation (checkedSub (s.textSection.length + len) 4); _) s = _
  rw [hsub]
  rfl

theorem relativeToTargetPc_reaches (hlen : 4 ≤ len) :
    (s.Reaches t (s.textSection.length + len) ∧ ∃ d s₁, relativeToTargetPc t len s = .ok d s₁) ∨
    (¬ s.Reaches t (s.textSection.length + len) ∧
      ∃ e, e ≠ .invalidOperandSize ∧ relativeToTargetPc t len s = .error (.err e) s) := by
  cases hslot : s.pcSection[t]? with
  | none =>
    refine .inr ⟨?_, .invalidProgramCounter, nofun, ?_⟩
    · rintro ⟨slot, h, -⟩
      rw [hslot] at h
      cases h
    · unfold relativeToTargetPc
      rw [get_bind, hslot]
      rfl
  | some slot =>
    by_cases hmax : s.textSection.length + len ≤ usizeMax
    · cases slot with
      | none => exact .inl ⟨⟨none, hslot, hmax, nofun⟩, _, _, relativeToTargetPc_pending hlen hslot hmax⟩
      | some destination =>
        rw [relativeToTargetPc_known hslot hmax]
        by_cases hfits : -2 ^ 31 ≤ (destination : Int) - ↑(s.textSection.length + len) ∧
            (destination : Int) - ↑(s.textSection.length + len) < 2 ^ 31
        · refine .inl ⟨⟨_, hslot, hmax, fun _ h => Option.some.inj h ▸ hfits⟩, ?_⟩
          rw [relativeOffset, if_pos hfits]
          exact ⟨_, _, rfl⟩
        · refine .inr ⟨?_, .relativeOffsetOutOfRange, nofun, ?_⟩
          · rintro ⟨slot, h, -, hd⟩
            rw [hslot, Option.some.injEq] at h
            exact hfits (hd destination h.symm)
          · rw [relativeOffset, if_neg hfits]
            rfl
    · refine .inr ⟨fun ⟨_, _, h, _⟩ => hmax h, .relativeOffsetOutOfRange, nofun, ?_⟩
      unfold relativeToTargetPc
      rw [get_bind, hslot, checkedAdd, if_neg hmax]
      rfl

theorem emitConditionalJump_of_ok {c : JumpCondition} {d : BitVec 32}
    (h : relativeToTargetPc t 6 s = .ok d s') : ∃ s₁, emitConditionalJump dbg c t s = .ok () s₁ := by
  refine ⟨_, (bind_of_ok h).trans (emitIns_of_encode ?_)⟩
  exact (encode_of_register rfl).mpr fun _ => nofun

variable (dbg) in
theorem emitJump_reaches (ht : J.target = some t) :
    (s.Reaches t (s.textSection.length + (J.jumpBytes.length + 4)) ∧ ∃ s₁, emitJump dbg J s = .ok () s₁) ∨
    (¬ s.Reaches t (s.textSection.length + (J.jumpBytes.length + 4)) ∧
      ∃ e, e ≠ .invalidOperandSize ∧ emitJump dbg J s = .error (.err e) s) := by
  have hreach := relativeToTargetPc_reaches (s := s) (t := t) (Nat.le_add_left 4 J.jumpBytes.length)
  cases J with
  | jump t' =>
    cases ht
    refine hreach.imp (fun h => ⟨h.1, ?_⟩) (fun h => ⟨h.1, ?_⟩)
    · obtain ⟨d, s₁, hd⟩ := h.2
      refine ⟨_, (bind_of_ok hd).trans (emitIns_of_encode ?_)⟩
      exact (encode_of_register rfl).mpr fun _ => nofun
    · obtain ⟨e, he, hx⟩ := h.2
      exact ⟨e, he, bind_of_error hx⟩
  | jumpImmediate | jumpRegister | jumpTestImmediate | jumpTestRegister =>
    cases ht
    refine hreach.imp (fun h => ⟨h.1, ?_⟩) (fun h => ⟨h.1, ?_⟩)
    · obtain ⟨d, s₁, hd⟩ := h.2
      exact emitConditionalJump_of_ok hd
    · obtain ⟨e, he, hx⟩ := h.2
      exact ⟨e, he, bind_of_error hx⟩
  | _ => cases ht

variable {is : List X86Instruction}

theorem blockLength_eq (hs : J.straight dbg = some (is.map some)) :
    J.blockLength dbg = (J.block is 0).length := by
  unfold blockLength
  rw [hs]
  simp [filterMap_map]

theorem blockLength_of_target (hs : J.straight dbg = some (is.map some))
    (ht : J.target = some t) : J.blockLength dbg = (bytesOf is).length + (J.jumpBytes.length + 4) := by
  rw [blockLength_eq hs, block, ht]
  simp

inductive Emission (dbg : Bool) (J : JitInstruction) (s : JitCompilerModel) : Prop
  | refuses (hJ : ¬ J.Accepted dbg) (hs : J.straight dbg = none)
      (hx : emitJitInstruction dbg J s = .error (.err (refusal J)) s)
  | panics (hJ : ¬ J.Accepted dbg) (l : List (Option X86Instruction)) (hs : J.straight dbg = some l)
      (s' : JitCompilerModel) (hx : emitJitInstruction dbg J s = .error .panic s')
  | misses (hJ : J.Accepted dbg) (is : List X86Instruction) (hs : J.straight dbg = some (is.map some)) (t : Nat)
      (ht : J.target = some t) (hreach : ¬ s.Reaches t (s.textSection.length + J.blockLength dbg)) (e : JitModelError)
      (he : e ≠ .invalidOperandSize) (hx : emitJitInstruction dbg J s = .error (.err e) (s.append (bytesOf is)))
  | returns (hJ : J.Accepted dbg) (hreach : ∀ t, J.target = some t →
      s.Reaches t (s.textSection.length + J.blockLength dbg)) (s' : JitCompilerModel)
      (hx : emitJitInstruction dbg J s = .ok () s')

theorem emission (dbg : Bool) (J : JitInstruction) (s : JitCompilerModel) : Emission dbg J s := by
  have hacc : CanEmit dbg (J.straight dbg) ↔ J.Accepted dbg := accepted_iff J
  rcases outcome_jitInstruction J s with ⟨ho, hx⟩ | ⟨l, ho, hl, s', hx⟩ | ⟨l, is, ho, hl, hx⟩
  · refine .refuses (fun h => ?_) ho hx
    obtain ⟨l, hl, -⟩ := hacc.mpr h
    rw [ho] at hl
    cases hl
  · refine .panics (fun h => ?_) l ho s' hx
    obtain ⟨l', hl', is, hready⟩ := hacc.mpr h
    rw [ho] at hl'
    cases hl'
    exact hl is hready
  · have hJ : J.Accepted dbg := hacc.mp ⟨l, ho, is, hl⟩
    have hs : J.straight dbg = some (is.map some) := by rw [ho, hl.1]
    cases ht : J.target with
    | none =>
      refine .returns hJ (fun t h => ?_) (s.append (bytesOf is)) ?_
      · rw [ht] at h
        cases h
      · rw [hx]
        cases J <;> first | rfl | cases ht
    | some t =>
      have hend : s.textSection.length + J.blockLength dbg =
          (s.append (bytesOf is)).textSection.length + (J.jumpBytes.length + 4) := by
        rw [blockLength_of_target hs ht, append, length_append]
        omega
      rcases emitJump_reaches dbg (s := s.append (bytesOf is)) ht with ⟨hr, s₁, hj⟩ | ⟨hr, e, he, hj⟩
      · refine .returns hJ (fun t' h => ?_) s₁ (hx.trans hj)
        rw [ht] at h
        cases h
        rw [hend]
        exact hr
      · exact .misses hJ is hs t ht (by rw [hend]; exact hr) e he (hx.trans hj)

/-- An error leaves the text, the pc table and the pending relocations as they were. -/
def Atomic (dbg : Bool) (J : JitInstruction) (s : JitCompilerModel) : Prop :=
  ∀ e s', emitJitInstruction dbg J s = .error (.err e) s' →
    s'.textSection = s.textSection ∧ s'.pcSection = s.pcSection ∧ s'.textSectionJumps = s.textSectionJumps

theorem bytes_ne_nil (i : X86Instruction) : i.bytes ≠ [] := by
  simp [bytes]

theorem bytesOf_eq_nil_iff (hs : J.straight dbg = some (is.map some))
    (ht : J.target = some t) : bytesOf is = [] ↔ J = .jump t := by
  have hcons : ∀ o : Option X86Instruction, is.map some = [o] → bytesOf is ≠ [] := by
    intro o h
    obtain ⟨i, is', rfl, -, -⟩ := map_eq_cons_iff.mp h
    simp [bytesOf, bytes_ne_nil]
  cases J with
  | jump t' =>
    cases ht
    obtain rfl : is = [] := map_eq_nil_iff.mp (Option.some.inj hs).symm
    simp [bytesOf]
  | jumpImmediate | jumpTestImmediate =>
    obtain ⟨r, -, h⟩ := Option.bind_eq_some_iff.mp hs
    simp [hcons _ (Option.some.inj h).symm]
  | jumpRegister | jumpTestRegister =>
    obtain ⟨r, -, h⟩ := Option.bind_eq_some_iff.mp hs
    obtain ⟨r', -, h'⟩ := Option.bind_eq_some_iff.mp h
    simp [hcons _ (Option.some.inj h').symm]
  | _ => cases ht

/-- Emission is atomic unless a conditional jump with valid operands misses its target. -/
theorem emitJitInstruction_atomic_iff (dbg : Bool) (J : JitInstruction) (s : JitCompilerModel) :
    Atomic dbg J s ↔ (J.Accepted dbg → ∀ t, J.target = some t → J ≠ .jump t →
      s.Reaches t (s.textSection.length + J.blockLength dbg)) := by
  unfold Atomic
  rcases emission dbg J s with ⟨hJ, -, hx⟩ | ⟨hJ, _, -, s', hx⟩ | ⟨hJ, is, hs, t, ht, hreach, e, -, hx⟩ | ⟨hJ, hreach,
    s', hx⟩
  · refine ⟨fun _ h => absurd h hJ, fun _ e s' h => ?_⟩
    rw [hx] at h
    cases h
    exact ⟨rfl, rfl, rfl⟩
  · refine ⟨fun _ h => absurd h hJ, fun _ e s' h => ?_⟩
    rw [hx] at h
    cases h
  · constructor
    · intro h _ t' ht' hne
      obtain ⟨htext, -, -⟩ := h e _ hx
      obtain rfl : t = t' := Option.some.inj (ht.symm.trans ht')
      have hnil : bytesOf is = [] := by simpa [append] using htext
      exact absurd ((bytesOf_eq_nil_iff hs ht).mp hnil) hne
    · intro h e' s' herr
      have hjump : J = .jump t := Classical.byContradiction fun hne => hreach (h hJ t ht hne)
      rw [hx, (bytesOf_eq_nil_iff hs ht).mpr hjump, append_nil] at herr
      cases herr
      exact ⟨rfl, rfl, rfl⟩
  · refine ⟨fun _ _ t ht _ => hreach t ht, fun _ e s' h => ?_⟩
    rw [hx] at h
    cases h

/-- With an empty pc table a conditional jump leaves its compare behind. -/
theorem emitJitInstruction_leaves_compare :
    emitJitInstruction true (.jumpImmediate .s64 .equal 0 5 0) (new 0 0) =
      .error (.err .invalidProgramCounter) ((new 0 0).append [0x48, 0x81, 0xf8, 5, 0, 0, 0]) := by
  rfl

/-! ## Relocation -/

variable {β : Type}

theorem bind_error {x : JitM α} {f : α → JitM β} {e : Failure} :
    (x >>= f) s = .error e s' ↔ x s = .error e s' ∨ ∃ a s₁, x s = .ok a s₁ ∧ f a s₁ = .error e s' := by
  change EStateM.bind x f s = _ ↔ _
  unfold EStateM.bind
  cases h : x s with
  | ok a s₁ => simp
  | error e₁ s₁ => simp

variable {x : Failure}

theorem error_of_okOr {e : JitModelError} {o : Option α} {f : α → JitM β}
    (h : (do let a ← okOr e o; f a) s = .error x s') : x = .err e ∧ s' = s ∨ ∃ a, o = some a ∧ f a s = .error x s' := by
  cases o with
  | none => cases h; exact .inl ⟨rfl, rfl⟩
  | some a => exact .inr ⟨a, rfl, h⟩

theorem error_of_relativeOffset {destination e : Nat} {f : BitVec 32 → JitM β}
    (h : (do let d ← ofResult (relativeOffset destination e); f d) s = .error x s') :
    x = .err .relativeOffsetOutOfRange ∧ s' = s ∨ ∃ d, f d s = .error x s' := by
  unfold relativeOffset at h
  dsimp only at h
  split at h
  · exact .inr ⟨_, h⟩
  · cases h
    exact .inl ⟨rfl, rfl⟩

variable {j : JumpModel}

theorem resolveJump_error (h : resolveJump j s = .error x s') :
    s' = s ∧ x ≠ .err .invalidOperandSize := by
  unfold resolveJump at h
  rw [get_bind] at h
  rcases error_of_okOr h with ⟨rfl, rfl⟩ | ⟨slot, -, h⟩
  · exact ⟨rfl, nofun⟩
  rcases error_of_okOr h with ⟨rfl, rfl⟩ | ⟨destination, -, h⟩
  · exact ⟨rfl, nofun⟩
  rcases error_of_okOr h with ⟨rfl, rfl⟩ | ⟨instructionEnd, -, h⟩
  · exact ⟨rfl, nofun⟩
  rcases error_of_relativeOffset h with ⟨rfl, rfl⟩ | ⟨displacement, h⟩
  · exact ⟨rfl, nofun⟩
  rcases error_of_okOr h with ⟨rfl, rfl⟩ | ⟨text, -, h⟩
  · exact ⟨rfl, nofun⟩
  · cases h

variable {jumps : List JumpModel}

theorem resolveEach_error {f : Failure} (h : resolveEach jumps s = .error f s') :
    ∃ done j rest, jumps = done ++ j :: rest ∧ resolveEach done s = .ok () s' ∧ resolveJump j s' = .error f s' := by
  induction jumps generalizing s with
  | nil => cases h
  | cons j jumps ih =>
    rcases bind_error.mp h with h | ⟨_, s₁, h₁, h⟩
    · obtain ⟨rfl, -⟩ := resolveJump_error h
      exact ⟨[], j, jumps, rfl, rfl, h⟩
    · obtain ⟨done, j', rest, rfl, hdone, hj⟩ := ih h
      exact ⟨j :: done, j', rest, rfl, (bind_of_ok h₁).trans hdone, hj⟩

theorem resolveJumps_error {f : Failure} :
    resolveJumps s = .error f s' ↔ resolveEach s.textSectionJumps s = .error f s' := by
  unfold resolveJumps
  rw [get_bind]
  constructor
  · intro h
    rcases bind_error.mp h with h | ⟨_, _, -, h⟩
    · exact h
    · cases h
  · exact bind_of_error

/-! ## Resolving again -/

def InSlot (j : JumpModel) (i : Nat) : Prop := j.location ≤ i ∧ i < j.location + 4

structure SameOutside (jumps : List JumpModel) (text text' : List Byte) : Prop where
  length_eq : text.length = text'.length
  get : ∀ i, (∀ j ∈ jumps, ¬ InSlot j i) → text[i]? = text'[i]?

theorem SameOutside.refl (jumps : List JumpModel) (text : List Byte) :
    SameOutside jumps text text := ⟨rfl, fun _ _ => rfl⟩

variable {text : List Byte}

theorem patch_eq_some {text' : List Byte} {location : Nat} {d : BitVec 32} (h : patch text location d = some text') :
    location + 4 ≤ text.length ∧ text'.length = text.length ∧ ∀ i, text'[i]? =
      if location ≤ i ∧ i < location + 4 then (leBytes 4 d.toNat)[i - location]? else text[i]? := by
  unfold patch at h
  split at h
  case isFalse => cases h
  rename_i hle
  obtain rfl := Option.some.inj h
  refine ⟨hle, ?_, fun i => ?_⟩
  · simp only [length_append, length_take, leBytes_length, length_drop]
    omega
  · have hlen : (text.take location ++ leBytes 4 d.toNat).length = location + 4 := by
      simp only [length_append, length_take, leBytes_length]
      omega
    have hpre : (text.take location).length = location := by
      rw [length_take]
      omega
    rcases Nat.lt_or_ge i location with hi | hi
    · rw [append_assoc, getElem?_append_left (by omega), getElem?_take_of_lt hi, if_neg (by omega)]
    · rcases Nat.lt_or_ge i (location + 4) with hi' | hi'
      · rw [getElem?_append_left (by omega), getElem?_append_right (by omega), hpre, if_pos ⟨hi, hi'⟩]
      · rw [getElem?_append_right (by omega), hlen, getElem?_drop, if_neg (by omega)]
        congr 1
        omega

def Completes (pcs pcs' : List (Option Nat)) : Prop :=
  ∀ pc destination : Nat, pcs[pc]? = some (some destination) → pcs'[pc]? = some (some destination)

variable {u : Unit}

theorem resolveJump_sameOutside (h : resolveJump j s = .ok u s') :
    SameOutside [j] s.textSection s'.textSection := by
  obtain ⟨_, d, text, -, -, -, hpatch, rfl⟩ := resolveJump_ok.mp h
  obtain ⟨-, hlen, hget⟩ := patch_eq_some hpatch
  refine ⟨hlen.symm, fun i hi => ?_⟩
  have hout : ¬ (j.location ≤ i ∧ i < j.location + 4) := hi j (by simp)
  rw [hget, if_neg hout]

variable {pcs : List (Option Nat)}

theorem resolveJump_again (h : resolveJump j s = .ok u s')
    (hpcs : Completes s.pcSection pcs)
    (htext : SameOutside (j :: jumps) s.textSection text) :
    ∃ text', resolveJump j { s with textSection := text, pcSection := pcs } =
        .ok () { s' with textSection := text', pcSection := pcs } ∧ SameOutside jumps s'.textSection text' := by
  obtain ⟨destination, d, patched, hslot, hmax, hd, hpatch, rfl⟩ := resolveJump_ok.mp h
  obtain ⟨hle, hlen, hget⟩ := patch_eq_some hpatch
  have hpatch' : ∃ text', patch text j.location d = some text' := ⟨_, if_pos (htext.length_eq ▸ hle)⟩
  obtain ⟨text', hpatch'⟩ := hpatch'
  obtain ⟨-, hlen', hget'⟩ := patch_eq_some hpatch'
  refine ⟨text', resolveJump_ok.mpr ⟨destination, d, text', hpcs _ _ hslot, hmax, hd, hpatch', rfl⟩, ?_, fun i hi => ?_⟩
  · rw [hlen', hlen, htext.length_eq]
  · rw [hget, hget']
    split
    · rfl
    · rename_i hout
      exact htext.get i fun j' hj' => (mem_cons.mp hj').elim (fun h => h ▸ hout) (hi j')

theorem resolveEach_sameOutside (h : resolveEach jumps s = .ok u s') :
    s' = { s with textSection := s'.textSection } ∧ SameOutside jumps s.textSection s'.textSection := by
  induction jumps generalizing s with
  | nil =>
    obtain ⟨-, rfl⟩ := pure_ok.mp h
    exact ⟨rfl, .refl _ _⟩
  | cons j jumps ih =>
    obtain ⟨_, s₁, h₁, h⟩ := bind_ok.mp h
    obtain ⟨heq, hsame⟩ := ih h
    have hj := resolveJump_sameOutside h₁
    obtain ⟨_, _, text, -, -, -, -, rfl⟩ := resolveJump_ok.mp h₁
    refine ⟨heq, hj.length_eq.trans hsame.length_eq, fun i hi => ?_⟩
    rw [hj.get i (by simpa using hi j (by simp)), hsame.get i fun j' hj' => hi j' (by simp [hj'])]

theorem resolveEach_again {done : List JumpModel} (h : resolveEach done s = .ok u s')
    (hpcs : Completes s.pcSection pcs) (htext : SameOutside done s.textSection text) :
    resolveEach done { s with textSection := text, pcSection := pcs } = .ok () { s' with pcSection := pcs } := by
  induction done generalizing s text with
  | nil =>
    obtain ⟨-, rfl⟩ := pure_ok.mp h
    obtain rfl : s'.textSection = text := ext_getElem? fun i => htext.get i (by simp)
    rfl
  | cons j done ih =>
    obtain ⟨_, s₁, h₁, h⟩ := bind_ok.mp h
    obtain ⟨text', hj, hsame⟩ := resolveJump_again h₁ hpcs htext
    obtain ⟨_, _, _, -, -, -, -, rfl⟩ := resolveJump_ok.mp h₁
    exact (bind_of_ok hj).trans (ih h hpcs hsame)

theorem resolveEach_append (l₁ l₂ : List JumpModel) :
    resolveEach (l₁ ++ l₂) = (do resolveEach l₁; resolveEach l₂) := by
  induction l₁ with
  | nil => rfl
  | cons j l₁ ih =>
    rw [cons_append, resolveEach, resolveEach, ih, bind_assoc]

theorem resolveJumps_of_done {done rest : List JumpModel} (hdone : resolveEach done s = .ok () s')
    (hjumps : s.textSectionJumps = done ++ rest) :
    resolveJumps s =
      (do resolveEach rest; modify fun self : JitCompilerModel => { self with textSectionJumps := [] }) s' := by
  unfold resolveJumps
  rw [get_bind, hjumps, resolveEach_append, bind_assoc, bind_of_ok hdone]

theorem resolveJumps_retry {x : Failure} (h : resolveJumps s = .error x s') :
    s'.textSectionJumps = s.textSectionJumps ∧ s'.pcSection = s.pcSection ∧
    SameOutside s.textSectionJumps s.textSection s'.textSection ∧
    ∀ pcs, Completes s.pcSection pcs →
      resolveJumps { s' with pcSection := pcs } = resolveJumps { s with pcSection := pcs } := by
  obtain ⟨done, j, rest, hjumps, hdone, -⟩ := resolveEach_error (resolveJumps_error.mp h)
  obtain ⟨heq, hsame⟩ := resolveEach_sameOutside hdone
  have hjumps' : s'.textSectionJumps = s.textSectionJumps := by rw [heq]
  have hpcs' : s'.pcSection = s.pcSection := by rw [heq]
  refine ⟨hjumps', hpcs', ⟨hsame.length_eq, fun i hi => hsame.get i fun j' hj' => hi j' ?_⟩, fun pcs hpcs => ?_⟩
  · rw [hjumps]
    exact mem_append_left _ hj'
  · have hsingle := resolveEach_again hdone hpcs (.refl _ _)
    have hagain := resolveEach_again hdone hpcs hsame
    have hstate : { s' with pcSection := pcs } = { s with textSection := s'.textSection, pcSection := pcs } := by
      rw [heq]
    rw [hstate, resolveJumps_of_done hagain hjumps]
    exact (resolveJumps_of_done hsingle hjumps).symm

/-- The second of two relocations fails; a retry with its offset fills both slots. -/
theorem resolveJumps_retry_two :
    let s : JitCompilerModel := { textSection := replicate 9 0x90, pcSection := [some 9, none],
                                  textSectionJumps := [⟨0, 0⟩, ⟨4, 1⟩], anchors := [] }
    ∃ s', resolveJumps s = .error (.err .programCounterNotSet) s' ∧
      s'.textSection = [5, 0, 0, 0, 0x90, 0x90, 0x90, 0x90, 0x90] ∧
      resolveJumps { s' with pcSection := [some 9, some 8] } = resolveJumps { s with pcSection :=
        [some 9, some 8] } := by
  intro s
  refine ⟨_, rfl, rfl, (resolveJumps_retry (s := s) rfl).2.2.2 _ ?_⟩
  intro pc destination h
  match pc with
  | 0 => exact h
  | 1 => cases h
  | _ + 2 => cases h

/-! ## Compilation -/

def offsetOf (dbg : Bool) (program : List JitInstruction) (pc : Nat) : Nat :=
  ((program.take pc).map (blockLength dbg)).sum

/-- The instruction is accepted, and if it jumps then the target is in the program and, if it
comes no later, near enough. -/
def Emittable (dbg : Bool) (program : List JitInstruction) (pc : Nat) (J : JitInstruction) : Prop :=
  J.Accepted dbg ∧ ∀ t, J.target = some t → t < program.length ∧ offsetOf dbg program (pc + 1) ≤ usizeMax ∧
    (t ≤ pc → offsetOf dbg program (pc + 1) ≤ offsetOf dbg program t + 2 ^ 31)

structure Before (dbg : Bool) (program : List JitInstruction) (pc : Nat) (s : JitCompilerModel) : Prop where
  text : s.textSection.length = offsetOf dbg program pc
  pcs : ∀ i : Nat, s.pcSection[i]? =
    if i < pc then some (some (offsetOf dbg program i)) else if i < program.length then some none else none

variable {program : List JitInstruction} {pc : Nat}

theorem offsetOf_succ (hJ : program[pc]? = some J) :
    offsetOf dbg program (pc + 1) = offsetOf dbg program pc + J.blockLength dbg := by
  rw [offsetOf, offsetOf, take_add_one, hJ]
  simp

theorem offsetOf_le {pc pc' : Nat} (h : pc ≤ pc') : offsetOf dbg program pc ≤ offsetOf dbg program pc' := by
  unfold offsetOf
  rw [show program.take pc = (program.take pc').take pc by rw [take_take, Nat.min_eq_left h]]
  have hsplit := congrArg sum (congrArg (map (blockLength dbg))
    (take_append_drop pc (program.take pc')))
  rw [map_append, sum_append] at hsplit
  omega

theorem before_new (dbg : Bool) (program : List JitInstruction) : Before dbg program 0 (new program.length 0) :=
  ⟨rfl, fun i => by simp [new, getElem?_replicate]⟩

theorem Before.enter (h : Before dbg program pc s) (hpc : pc < program.length) :
    ∃ s₁, setProgramCounter pc s = .ok () s₁ ∧ s₁.textSection = s.textSection ∧
      ∀ i : Nat, s₁.pcSection[i]? =
        if i < pc + 1 then some (some (offsetOf dbg program i)) else if i <
          program.length then some none else none := by
  have hlen : pc < s.pcSection.length := by
    have hsome := h.pcs pc
    rw [if_neg (Nat.lt_irrefl pc), if_pos hpc] at hsome
    exact (List.getElem?_eq_some_iff.mp hsome).1
  refine ⟨_, setProgramCounter_ok.mpr ⟨hlen, rfl⟩, rfl, fun i => ?_⟩
  rw [getElem?_set]
  rcases Nat.lt_trichotomy i pc with hi | rfl | hi
  · rw [if_neg (by omega), h.pcs, if_pos hi, if_pos (by omega)]
  · rw [if_pos rfl, if_pos hlen, if_pos (Nat.lt_succ_self _), h.text]
  · rw [if_neg (show ¬ pc = i by omega), h.pcs, if_neg (show ¬ i < pc by omega), if_neg (show ¬ i < pc + 1 by omega)]

theorem reaches_iff (hpc : pc < program.length)
    (hpcs : ∀ i : Nat, s.pcSection[i]? =
      if i < pc + 1 then some (some (offsetOf dbg program i)) else if i < program.length then some none else none) :
    s.Reaches t (offsetOf dbg program (pc + 1)) ↔ t < program.length ∧ offsetOf dbg program (pc + 1) ≤ usizeMax ∧
      (t ≤ pc → offsetOf dbg program (pc + 1) ≤ offsetOf dbg program t + 2 ^ 31) := by
  have hslot := hpcs t
  unfold Reaches
  rcases Nat.lt_or_ge pc t with hlt | hle
  · rw [if_neg (show ¬ t < pc + 1 by omega)] at hslot
    by_cases ht : t < program.length
    · rw [if_pos ht] at hslot
      simp [hslot, ht, show ¬ t ≤ pc by omega]
    · rw [if_neg ht] at hslot
      simp [hslot, ht]
  · rw [if_pos (show t < pc + 1 by omega)] at hslot
    have hmono : offsetOf dbg program t ≤ offsetOf dbg program (pc + 1) := offsetOf_le (by omega)
    have ht : t < program.length := by omega
    simp only [hslot, Option.some.injEq, exists_eq_left', forall_eq', ht, hle, true_and, forall_const]
    refine and_congr_right fun _ => ?_
    omega

def emitAt (dbg : Bool) (pc : Nat) (J : JitInstruction) : JitM Unit := do
  setProgramCounter pc
  emitJitInstruction dbg J

theorem emitFrom_cons (rest : List JitInstruction) :
    emitFrom dbg pc (J :: rest) = (do emitAt dbg pc J; emitFrom dbg (pc + 1) rest) := by
  rw [emitFrom, emitAt, bind_assoc]

theorem BadLoad.not_accepted (h : J.BadLoad) : ¬ J.Accepted dbg := by
  cases J with
  | loadImmediate size destination value => exact fun ha => ha.2.elim h.2.1 h.2.2
  | _ => cases h

theorem BadLoad.straight (h : J.BadLoad) : J.straight dbg = none := by
  cases J with
  | loadImmediate size destination value =>
    obtain ⟨hlt, h32, h64⟩ := h
    obtain ⟨r, hr⟩ : ∃ r, register destination = some r := ⟨_, getElem?_eq_getElem hlt⟩
    simp only [straight, hr]
    cases size with
    | s32 => exact absurd rfl h32
    | s64 => exact absurd rfl h64
    | s0 | s8 | s16 => rfl
  | _ => cases h

theorem refusal_eq_iff (hs : J.straight dbg = none) : refusal J = .invalidOperandSize ↔ J.BadLoad := by
  cases J with
  | loadImmediate size destination value =>
    cases hr : register destination with
    | none =>
      have hle : 11 ≤ destination := getElem?_eq_none_iff.mp hr
      simp [refusal, hr, JitInstruction.BadLoad, Nat.not_lt.mpr hle]
    | some r =>
      have hlt : destination < 11 := (List.getElem?_eq_some_iff.mp hr).1
      simp only [straight, hr, Option.bind_eq_bind, Option.bind_some] at hs
      simp only [refusal, hr, Option.isSome_some, if_true, JitInstruction.BadLoad, hlt, true_and, true_iff]
      cases size <;> simp_all
  | _ => simp [refusal, JitInstruction.BadLoad]

theorem emitJitInstruction_length (h : emitJitInstruction dbg J s = .ok u s') :
    s'.textSection.length = s.textSection.length + J.blockLength dbg ∧ s'.pcSection = s.pcSection := by
  obtain ⟨is, d, hs, hst⟩ := emitJitInstruction_ok h
  have happend : (s.append (J.block is d)).textSection.length = s.textSection.length + J.blockLength dbg := by
    rw [blockLength_eq hs, J.block_length is 0 d, append, length_append]
  cases ht : J.target with
  | none =>
    rw [ht] at hst
    subst hst
    exact ⟨happend, rfl⟩
  | some t =>
    rw [ht] at hst
    rcases hst with ⟨_, -, -, rfl⟩ | ⟨-, rfl⟩
    · exact ⟨happend, rfl⟩
    · exact ⟨happend, rfl⟩

theorem Before.emit (h : Before dbg program pc s) (hJ : program[pc]? = some J) :
    (J.BadLoad ∧ ∃ s', emitAt dbg pc J s = .error (.err .invalidOperandSize) s') ∨
    (¬ J.BadLoad ∧ ¬ Emittable dbg program pc J ∧
      ∃ x s', x ≠ .err .invalidOperandSize ∧ emitAt dbg pc J s = .error x s') ∨
    (¬ J.BadLoad ∧ Emittable dbg program pc J ∧
      ∃ s', emitAt dbg pc J s = .ok () s' ∧ Before dbg program (pc + 1) s') := by
  have hpc : pc < program.length := (List.getElem?_eq_some_iff.mp hJ).1
  obtain ⟨s₁, hset, htext, hpcs⟩ := h.enter hpc
  have hend : s₁.textSection.length + J.blockLength dbg = offsetOf dbg program (pc + 1) := by
    rw [htext, h.text, offsetOf_succ hJ]
  have hat : emitAt dbg pc J s = emitJitInstruction dbg J s₁ := bind_of_ok hset
  rw [hat]
  rcases emission dbg J s₁ with ⟨hacc, hs, hx⟩ | ⟨hacc, l, hs, s', hx⟩ | ⟨hacc, is, hs, t, ht, hreach, e, he, hx⟩ |
    ⟨hacc, hreach, s', hx⟩
  · by_cases hbad : J.BadLoad
    · refine .inl ⟨hbad, s₁, ?_⟩
      rw [hx, (refusal_eq_iff hs).mpr hbad]
    · refine .inr (.inl ⟨hbad, fun hem => hacc hem.1, _, s₁, ?_, hx⟩)
      intro hx'
      exact hbad ((refusal_eq_iff hs).mp (Failure.err.inj hx'))
  · refine .inr (.inl ⟨fun hbad => ?_, fun hem => hacc hem.1, .panic, s', nofun, hx⟩)
    rw [BadLoad.straight hbad] at hs
    cases hs
  · refine .inr (.inl ⟨fun hbad => BadLoad.not_accepted hbad hacc, fun hem => ?_, _, _, ?_, hx⟩)
    · rw [hend] at hreach
      exact hreach ((reaches_iff hpc hpcs).mpr (hem.2 t ht))
    · exact fun hx' => he (Failure.err.inj hx')
  · refine .inr (.inr ⟨fun hbad => BadLoad.not_accepted hbad hacc, ⟨hacc, fun t ht => ?_⟩, s', hx, ?_, ?_⟩)
    · have hr := hreach t ht
      rw [hend] at hr
      exact (reaches_iff hpc hpcs).mp hr
    · rw [(emitJitInstruction_length hx).1, hend]
    · rw [(emitJitInstruction_length hx).2]
      exact hpcs

theorem Before.emitFrom_error (h : Before dbg program pc s) {rest : List JitInstruction}
    (hrest : program.drop pc = rest) :
    (∃ s', emitFrom dbg pc rest s = .error (.err .invalidOperandSize) s') ↔
      ∃ k J, pc ≤ k ∧ program[k]? = some J ∧ J.BadLoad ∧
        ∀ j J', pc ≤ j → j < k → program[j]? = some J' → Emittable dbg program j J' := by
  induction rest generalizing pc s with
  | nil =>
    have hlen : program.length ≤ pc := drop_eq_nil_iff.mp hrest
    constructor
    · rintro ⟨_, h⟩
      cases h
    · rintro ⟨k, J, hk, hJ, -⟩
      have := (List.getElem?_eq_some_iff.mp hJ).1
      omega
  | cons J rest ih =>
    have hJ : program[pc]? = some J := by
      rw [← head?_drop, hrest]
      rfl
    have hdrop : program.drop (pc + 1) = rest := by
      rw [← drop_drop, hrest]
      rfl
    rw [emitFrom_cons]
    rcases h.emit hJ with ⟨hbad, s', hx⟩ | ⟨hbad, hem, x, s', hne, hx⟩ | ⟨hbad, hem, s', hx, hbefore⟩
    · refine iff_of_true ⟨s', bind_of_error hx⟩ ⟨pc, J, Nat.le_refl pc, hJ, hbad, fun j J' h₁ h₂ => ?_⟩
      omega
    · refine iff_of_false ?_ ?_
      · rintro ⟨s'', h⟩
        rw [bind_of_error hx] at h
        cases h
        exact hne rfl
      · rintro ⟨k, J', hk, hJ', hbad', hall⟩
        rcases Nat.eq_or_lt_of_le hk with rfl | hlt
        · rw [hJ] at hJ'
          cases hJ'
          exact hbad hbad'
        · exact hem (hall pc J (Nat.le_refl pc) hlt hJ)
    · rw [bind_of_ok hx, ih hbefore hdrop]
      constructor
      · rintro ⟨k, J', hk, hJ', hbad', hall⟩
        refine ⟨k, J', by omega, hJ', hbad', fun j J'' h₁ h₂ h₃ => ?_⟩
        rcases Nat.eq_or_lt_of_le h₁ with rfl | hlt
        · rw [hJ] at h₃
          cases h₃
          exact hem
        · exact hall j J'' hlt h₂ h₃
      · rintro ⟨k, J', hk, hJ', hbad', hall⟩
        rcases Nat.eq_or_lt_of_le hk with rfl | hlt
        · rw [hJ] at hJ'
          cases hJ'
          exact absurd hbad' hbad
        · exact ⟨k, J', hlt, hJ', hbad', fun j J'' h₁ => hall j J'' (by omega)⟩

theorem finish_error {count : Nat} {emit : JitM Unit} :
    finish count emit = .error x ↔ ∃ s', (do emit; resolveJumps) (new count 0) = .error x s' := by
  have hrun : (do emit; resolveJumps).run (new count 0) = (do emit; resolveJumps) (new count 0) := rfl
  unfold finish
  rw [hrun]
  cases (do emit; resolveJumps) (new count 0) with
  | ok u s => simp
  | error e s => simp

theorem compile_invalidOperandSize_iff (dbg : Bool) (program : List JitInstruction) :
    compile dbg program = .error (.err .invalidOperandSize) ↔
      ∃ k J, program[k]? = some J ∧ J.BadLoad ∧
        ∀ j J', j < k → program[j]? = some J' → Emittable dbg program j J' := by
  have hemit := (before_new dbg program).emitFrom_error rfl
  simp only [Nat.zero_le, true_and, forall_const] at hemit
  rw [← hemit, compile, finish_error]
  constructor
  · rintro ⟨s', h⟩
    rcases bind_error.mp h with h | ⟨_, s, -, h⟩
    · exact ⟨s', h⟩
    · obtain ⟨_, _, _, -, -, hj⟩ := resolveEach_error (resolveJumps_error.mp h)
      exact absurd rfl (resolveJump_error hj).2
  · rintro ⟨s', h⟩
    exact ⟨s', bind_of_error h⟩

/-- A move of 8 bits panics in a debug build, and compiles to a move of 32 bits without assertions. -/
theorem compile_narrow_move : compile true [.moveRegister .s8 0 1, .ret] = .error .panic ∧
    compile false [.moveRegister .s8 0 1, .ret] = .ok [0x89, 0xc6, 0xc3] := by
  exact ⟨rfl, rfl⟩

end

end JitCompilerModel

end Aeneas.Sbpf
