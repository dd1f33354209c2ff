import Aeneas.JitEmit

/-!
# Layout and relocation of compiled code

Emission appends one block per instruction and records where each block starts; a jump
to a block that does not exist yet gets displacement 0 and a pending relocation. The
invariant `Emitted` ties the pc table, the relocations and the text to the blocks emitted
so far, and resolving the relocations rewrites the last four bytes of forward jumps only.
-/

namespace Aeneas.Sbpf

open JitCompilerModel List

/-! ## Blocks -/

def blockStart (blocks : List (List Byte)) (pc : Nat) : Nat := (blocks.take pc).flatten.length

section
variable {blocks : List (List Byte)}

theorem blockStart_eq_sum (blocks : List (List Byte)) (pc : Nat) :
    blockStart blocks pc = ((blocks.map length).take pc).sum := by
  rw [blockStart, length_flatten, map_take]

variable {pc : Nat}

theorem blockStart_append (e : List Byte) (h : pc ≤ blocks.length) :
    blockStart (blocks ++ [e]) pc = blockStart blocks pc := by
  rw [blockStart, blockStart, take_append_of_le_length h]

theorem blockStart_length : blockStart blocks blocks.length = blocks.flatten.length := by
  rw [blockStart, take_length]

variable {b : List Byte}

theorem blockStart_succ (h : blocks[pc]? = some b) :
    blockStart blocks (pc + 1) = blockStart blocks pc + b.length := by
  rw [blockStart, blockStart, take_add_one, h]
  simp

theorem flatten_split (h : blocks[pc]? = some b) :
    blocks.flatten = (blocks.take pc).flatten ++ b ++ (blocks.drop (pc + 1)).flatten := by
  obtain ⟨hlt, rfl⟩ := List.getElem?_eq_some_iff.mp h
  have hsplit : blocks = blocks.take pc ++ blocks[pc] :: blocks.drop (pc + 1) := by
    rw [← drop_eq_getElem_cons hlt, take_append_drop]
  have := congrArg flatten hsplit
  rwa [flatten_append, flatten_cons, ← append_assoc] at this

theorem drop_blockStart (h : blocks[pc]? = some b) :
    blocks.flatten.drop (blockStart blocks pc) = b ++ (blocks.drop (pc + 1)).flatten := by
  rw [flatten_split h, blockStart, append_assoc, drop_left]

theorem blockStart_set {b' : List Byte} (h : blocks[pc]? = some b)
    (hlen : b'.length = b.length) (i : Nat) : blockStart (blocks.set pc b') i = blockStart blocks i := by
  rw [blockStart_eq_sum, blockStart_eq_sum, map_set, hlen]
  obtain ⟨hlt, rfl⟩ := List.getElem?_eq_some_iff.mp h
  rw [← getElem_map length, set_getElem_self]
  simpa using hlt

theorem patch_append (p b q : List Byte) (d : BitVec 32) (hb : b.length = 4) :
    patch (p ++ b ++ q) p.length d = some (p ++ leBytes 4 d.toNat ++ q) := by
  have hlen : p.length + 4 ≤ (p ++ b ++ q).length := by
    simp only [length_append]
    omega
  have hdrop : (p ++ b ++ q).drop (p.length + 4) = q := by
    rw [← hb, ← length_append, drop_left]
  rw [patch, if_pos hlen, hdrop, append_assoc p b q, take_left]

theorem patch_block {b₁ b₂ : List Byte} {d : BitVec 32} (h : blocks[pc]? = some (b₁ ++ b₂))
    (hlen : b₂.length = 4) :
    patch blocks.flatten (blockStart blocks (pc + 1) - 4) d =
      some (blocks.set pc (b₁ ++ leBytes 4 d.toNat)).flatten := by
  have hset : (blocks.set pc (b₁ ++ leBytes 4 d.toNat))[pc]? = some (b₁ ++ leBytes 4 d.toNat) := by
    have hlt := (List.getElem?_eq_some_iff.mp h).1
    simp [hlt]
  have hloc : blockStart blocks (pc + 1) - 4 = ((blocks.take pc).flatten ++ b₁).length := by
    rw [blockStart_succ h, blockStart, length_append, length_append, hlen]
    omega
  have hflat : blocks.flatten = ((blocks.take pc).flatten ++ b₁) ++ b₂ ++ (blocks.drop (pc + 1)).flatten := by
    rw [flatten_split h]
    simp
  rw [hloc, hflat, patch_append _ _ _ _ hlen, flatten_split hset, take_set_of_le (Nat.le_refl pc),
    drop_set_of_lt (Nat.lt_succ_self pc), append_assoc _ b₁]

end

/-! ## The invariant of emission and relocation -/

def IsBlock (dbg : Bool) (J : JitInstruction) (b : List Byte) (P : Nat → BitVec 32 → Prop) : Prop :=
  ∃ is d, J.straight dbg = some (is.map some) ∧ b = J.block is d ∧ ∀ t, J.target = some t → P t d

def relocation (blocks : List (List Byte)) (p : Nat × Nat) : JumpModel :=
  JumpModel.mk (blockStart blocks (p.1 + 1) - 4) p.2

def LinkedTo (blocks : List (List Byte)) (pc t : Nat) (d : BitVec 32) : Prop :=
  t < blocks.length ∧ relativeOffset (blockStart blocks t) (blockStart blocks (pc + 1)) = .ok d

structure Laid (dbg : Bool) (program : List JitInstruction) (blocks : List (List Byte))
    (pending : List (Nat × Nat)) (s : JitCompilerModel) : Prop where
  text : s.textSection = blocks.flatten
  pcs : ∀ pc, s.pcSection[pc]? =
    if pc < blocks.length then some (some (blockStart blocks pc))
    else if pc < program.length then some none else none
  jumps : ∀ p ∈ pending, p.1 < blocks.length ∧ ∃ J, program[p.1]? = some J ∧ J.target = some p.2
  block : ∀ pc J b, program[pc]? = some J → blocks[pc]? = some b →
    IsBlock dbg J b fun t d => LinkedTo blocks pc t d ∨ (pc, t) ∈ pending

section
variable {dbg : Bool} {program : List JitInstruction} {blocks : List (List Byte)} {pending : List (Nat × Nat)}
  {s s₁ s' : JitCompilerModel} {u : Unit}

variable {J : JitInstruction}

theorem IsBlock.imp {b : List Byte} {P Q : Nat → BitVec 32 → Prop}
    (h : IsBlock dbg J b P) (hpq : ∀ t d, J.target = some t → P t d → Q t d) : IsBlock dbg J b Q := by
  obtain ⟨is, d, hs, hb, hp⟩ := h
  exact ⟨is, d, hs, hb, fun t ht => hpq t d ht (hp t ht)⟩

theorem relocation_append (e : List Byte) (h : ∀ p ∈ pending, p.1 < blocks.length) :
    pending.map (relocation (blocks ++ [e])) = pending.map (relocation blocks) := by
  refine map_congr_left fun p hp => ?_
  rw [relocation, relocation, blockStart_append e (h p hp)]

theorem LinkedTo.append {pc t : Nat} {d : BitVec 32} (e : List Byte) (hpc : pc < blocks.length)
    (h : LinkedTo blocks pc t d) : LinkedTo (blocks ++ [e]) pc t d := by
  obtain ⟨ht, hrel⟩ := h
  refine ⟨by simp; omega, ?_⟩
  rwa [blockStart_append e (by omega), blockStart_append e hpc]

theorem Laid.setProgramCounter_pcs (h : Laid dbg program blocks pending s)
    (hset : setProgramCounter blocks.length s = .ok u s₁) (pc : Nat) :
    s₁.pcSection[pc]? = if pc ≤ blocks.length then some (some (blockStart blocks pc))
      else if pc < program.length then some none else none := by
  obtain ⟨hlt, rfl⟩ := setProgramCounter_ok.mp hset
  rw [getElem?_set, h.pcs pc]
  rcases Nat.lt_trichotomy pc blocks.length with hpc | rfl | hpc
  · rw [if_neg (by omega), if_pos hpc, if_pos (by omega)]
  · rw [if_pos rfl, if_pos hlt, if_pos (Nat.le_refl _), blockStart_length, h.text]
  · rw [if_neg (Nat.ne_of_lt hpc), if_neg (Nat.lt_asymm hpc), if_neg (Nat.not_le.mpr hpc)]

theorem Laid.snoc {e : List Byte} {pending' : List (Nat × Nat)}
    (h : Laid dbg program blocks pending s) (hJ : program[blocks.length]? = some J)
    (hset : setProgramCounter blocks.length s = .ok u s₁)
    (htext : s'.textSection = s.textSection ++ e) (hpcs : s'.pcSection = s₁.pcSection)
    (hsub : ∀ p ∈ pending, p ∈ pending')
    (hnew : ∀ p ∈ pending', p ∈ pending ∨ p.1 = blocks.length ∧ J.target = some p.2)
    (hblock : IsBlock dbg J e fun t d => LinkedTo (blocks ++ [e]) blocks.length t d ∨ (blocks.length, t) ∈ pending') :
    Laid dbg program (blocks ++ [e]) pending' s' where
  text := by rw [htext, h.text, flatten_append]; simp
  pcs pc := by
    rw [hpcs, h.setProgramCounter_pcs hset, length_append, length_singleton]
    by_cases hpc : pc ≤ blocks.length
    · rw [if_pos hpc, if_pos (Nat.lt_succ_of_le hpc), blockStart_append e hpc]
    · rw [if_neg hpc, if_neg (fun hlt => hpc (Nat.le_of_lt_succ hlt))]
  jumps p hp := by
    rw [length_append, length_singleton]
    rcases hnew p hp with hold | ⟨hpc, ht⟩
    · obtain ⟨hlt, hJ⟩ := h.jumps p hold
      exact ⟨by omega, hJ⟩
    · exact ⟨by omega, J, by rw [hpc, hJ], ht⟩
  block pc J' b hJ' hb := by
    rcases Nat.lt_or_ge pc blocks.length with hpc | hpc
    · rw [getElem?_append_left hpc] at hb
      refine (h.block pc J' b hJ' hb).imp fun t d _ hd => ?_
      exact hd.imp (LinkedTo.append e hpc) (hsub _)
    · obtain rfl : pc = blocks.length := by
        have := (List.getElem?_eq_some_iff.mp hb).1
        simp only [length_append, length_singleton] at this
        omega
      obtain rfl : J' = J := Option.some.inj (hJ'.symm.trans hJ)
      obtain rfl : b = e := by simpa using hb.symm
      exact hblock

theorem Laid.emit (h : Laid dbg program blocks pending s)
    (hjumps : s.textSectionJumps = pending.map (relocation blocks))
    (hJ : program[blocks.length]? = some J)
    (hset : setProgramCounter blocks.length s = .ok u s₁)
    (hemit : emitJitInstruction dbg J s₁ = .ok u s') :
    ∃ e pending', Laid dbg program (blocks ++ [e]) pending' s' ∧
      s'.textSectionJumps = pending'.map (relocation (blocks ++ [e])) := by
  have hpcs := h.setProgramCounter_pcs hset
  have hs₁ := (setProgramCounter_ok.mp hset).2
  have htext₁ : s₁.textSection = s.textSection := by rw [hs₁]
  have hjumps₁ : s₁.textSectionJumps = pending.map (relocation blocks) := by rw [hs₁]; exact hjumps
  have hlt : ∀ p ∈ pending, p.1 < blocks.length := fun p hp => (h.jumps p hp).1
  obtain ⟨is, d, hs, hst⟩ := emitJitInstruction_ok hemit
  -- the new block ends where the text does
  have hend : s₁.textSection.length + (J.block is d).length =
      blockStart (blocks ++ [J.block is d]) (blocks.length + 1) := by
    rw [blockStart_succ (b := J.block is d) (by simp), blockStart_append _ (Nat.le_refl _), blockStart_length,
      htext₁, h.text]
  refine ⟨J.block is d, ?_⟩
  cases ht : J.target with
  | none =>
    rw [ht] at hst
    subst hst
    refine ⟨pending, h.snoc hJ hset (by rw [← htext₁]; rfl) rfl (fun p hp => hp) (fun p hp => .inl hp)
      ⟨is, d, hs, rfl, fun t ht' => by rw [ht] at ht'; cases ht'⟩, ?_⟩
    rw [relocation_append _ hlt]
    exact hjumps₁
  | some t =>
    rw [ht] at hst
    rcases hst with ⟨destination, hdest, hrel, rfl⟩ | ⟨hnone, rfl⟩
    · refine ⟨pending, h.snoc hJ hset (by rw [← htext₁]; rfl) rfl (fun p hp => hp) (fun p hp => .inl hp)
        ⟨is, d, hs, rfl, fun t' ht' => .inl ?_⟩, ?_⟩
      · obtain rfl : t = t' := Option.some.inj (ht.symm.trans ht')
        rw [hpcs] at hdest
        have hle : t ≤ blocks.length := by
          by_contra hgt
          rw [if_neg hgt] at hdest
          split at hdest <;> cases hdest
        rw [if_pos hle] at hdest
        obtain rfl := Option.some.inj (Option.some.inj hdest)
        refine ⟨by simp; omega, ?_⟩
        rwa [blockStart_append _ hle, ← hend]
      · rw [relocation_append _ hlt]
        exact hjumps₁
    · refine ⟨pending ++ [(blocks.length, t)], h.snoc hJ hset (by rw [← htext₁]; rfl) rfl
        (fun p hp => mem_append_left _ hp) ?_ ⟨is, d, hs, rfl, fun t' ht' => .inr ?_⟩, ?_⟩
      · intro p hp
        rcases mem_append.mp hp with hp | hp
        · exact .inl hp
        · obtain rfl := mem_singleton.mp hp
          exact .inr ⟨rfl, ht⟩
      · obtain rfl : t = t' := Option.some.inj (ht.symm.trans ht')
        simp
      · rw [map_append, relocation_append _ hlt, ← hjumps₁, map_singleton, relocation, ← hend]
        rfl

theorem Laid.emitFrom (h : Laid dbg program blocks pending s)
    (hjumps : s.textSectionJumps = pending.map (relocation blocks)) {rest : List JitInstruction}
    (hrest : program.drop blocks.length = rest)
    (hemit : emitFrom dbg blocks.length rest s = .ok u s') :
    ∃ blocks' pending', blocks'.length = blocks.length + rest.length ∧ Laid dbg program blocks' pending' s' ∧
      s'.textSectionJumps = pending'.map (relocation blocks') := by
  induction rest generalizing blocks pending s with
  | nil =>
    obtain ⟨-, rfl⟩ := pure_ok.mp hemit
    exact ⟨blocks, pending, rfl, h, hjumps⟩
  | cons J rest ih =>
    obtain ⟨_, s₁, hset, hemit⟩ := bind_ok.mp hemit
    obtain ⟨_, s₂, hJ, hemit⟩ := bind_ok.mp hemit
    have hget : program[blocks.length]? = some J := by
      rw [← head?_drop, hrest]
      rfl
    obtain ⟨e, pending', h', hjumps'⟩ := h.emit hjumps hget hset hJ
    have hlen : (blocks ++ [e]).length = blocks.length + 1 := by simp
    have hdrop : program.drop (blocks ++ [e]).length = rest := by
      rw [hlen, ← drop_drop, hrest]
      rfl
    obtain ⟨blocks', pending'', hlen', h'', hj⟩ := ih h' hjumps' hdrop (by rw [hlen]; exact hemit)
    exact ⟨blocks', pending'', by rw [hlen', hlen, length_cons]; omega, h'', hj⟩

theorem laid_new (dbg : Bool) (program : List JitInstruction) :
    Laid dbg program [] [] (new program.length 0) where
  text := rfl
  pcs pc := by simp [new, getElem?_replicate]
  jumps p hp := by cases hp
  block pc J b _ hb := by simp at hb

/-! ## Relocation -/

theorem JitInstruction.block_length (J : JitInstruction) (is : List X86Instruction) (d d' : BitVec 32) :
    (J.block is d).length = (J.block is d').length := by
  unfold block
  cases J.target with
  | none => rfl
  | some t => simp

theorem JitCompilerModel.resolveJump_ok {j : JumpModel} :
    resolveJump j s = .ok u s' ↔ ∃ destination d text, s.pcSection[j.targetPc]? = some (some destination) ∧
      j.location + 4 ≤ usizeMax ∧ relativeOffset destination (j.location + 4) = .ok d ∧
      patch s.textSection j.location d = some text ∧ s' = { s with textSection := text } := by
  simp only [resolveJump, bind_ok, get_ok, okOr_ok, ofResult_ok, set_ok]
  constructor
  · rintro ⟨_, _, ⟨rfl, rfl⟩, slot, _, ⟨hslot, rfl⟩, destination, _, ⟨rfl, rfl⟩, e, _, ⟨he, rfl⟩, d, _, ⟨hd, rfl⟩,
      text, _, ⟨htext, rfl⟩, rfl⟩
    obtain rfl := checkedAdd_eq_some he
    exact ⟨destination, d, text, hslot, checkedAdd_le he, hd, htext, rfl⟩
  · rintro ⟨destination, d, text, hslot, hle, hd, htext, rfl⟩
    exact ⟨_, _, ⟨rfl, rfl⟩, _, _, ⟨hslot, rfl⟩, destination, _, ⟨rfl, rfl⟩, _, _, ⟨if_pos hle, rfl⟩, d, _, ⟨hd, rfl⟩,
      text, _, ⟨htext, rfl⟩, rfl⟩

theorem Laid.resolveJump {p : Nat × Nat} (h : Laid dbg program blocks (p :: pending) s)
    (hlen : blocks.length = program.length)
    (hres : resolveJump (relocation blocks p) s = .ok u s') :
    ∃ blocks', blocks'.length = program.length ∧ Laid dbg program blocks' pending s' ∧
      ∀ i, blockStart blocks' i = blockStart blocks i := by
  obtain ⟨pc, t⟩ := p
  obtain ⟨hpc, J, hJ, ht⟩ := h.jumps (pc, t) (by simp)
  obtain ⟨b, hb⟩ : ∃ b, blocks[pc]? = some b := ⟨_, getElem?_eq_getElem hpc⟩
  obtain ⟨is, d₀, hs, rfl, -⟩ := h.block pc J b hJ hb
  obtain ⟨destination, d, text, hslot, -, hd, hpatch, rfl⟩ := resolveJump_ok.mp hres
  -- the relocation points at the last four bytes of the block
  have hblock : ∀ d, J.block is d = (bytesOf is ++ J.jumpBytes) ++ leBytes 4 d.toNat := by
    intro d
    simp [JitInstruction.block, ht]
  have hend : (relocation blocks (pc, t)).location + 4 = blockStart blocks (pc + 1) := by
    rw [relocation, blockStart_succ hb, hblock]
    simp
    omega
  have hstart : ∀ i, blockStart (blocks.set pc (J.block is d)) i = blockStart blocks i :=
    blockStart_set hb (J.block_length is d d₀)
  have htext : text = (blocks.set pc (J.block is d)).flatten := by
    rw [hblock] at hb
    rw [h.text, relocation, patch_block hb (leBytes_length 4 _)] at hpatch
    rw [hblock]
    exact (Option.some.inj hpatch).symm
  refine ⟨blocks.set pc (J.block is d), by simpa using hlen, ⟨htext, ?_, ?_, ?_⟩, hstart⟩
  · intro i
    rw [length_set, hstart]
    exact h.pcs i
  · intro p hp
    rw [length_set]
    exact h.jumps p (by simp [hp])
  · intro pc' J' b' hJ' hb'
    by_cases heq : pc' = pc
    · subst heq
      obtain rfl : J' = J := Option.some.inj (hJ'.symm.trans hJ)
      have hb'' : b' = J'.block is d := by simpa [hpc] using hb'.symm
      refine ⟨is, d, hs, hb'', fun t' ht' => .inl ?_⟩
      obtain rfl : t = t' := Option.some.inj (ht.symm.trans ht')
      have htl : t < blocks.length := by
        have hp := h.pcs t
        by_contra hge
        rw [if_neg hge, if_neg (by omega)] at hp
        exact absurd (hslot.symm.trans hp) (by simp)
      have hdest : destination = blockStart blocks t := by
        have := hslot.symm.trans (h.pcs t)
        rw [if_pos htl] at this
        simpa using this
      refine ⟨by simpa using htl, ?_⟩
      rw [hstart, hstart, ← hdest, ← hend]
      exact hd
    · rw [getElem?_set_ne (Ne.symm heq)] at hb'
      refine (h.block pc' J' b' hJ' hb').imp fun t' d' _ hd' => ?_
      rcases hd' with ⟨hlt, hrel⟩ | hmem
      · exact .inl ⟨by simpa using hlt, by rwa [hstart, hstart]⟩
      · refine .inr ((mem_cons.mp hmem).resolve_left fun he => heq ?_)
        exact congrArg Prod.fst he

theorem Laid.resolveEach (h : Laid dbg program blocks pending s) (hlen : blocks.length = program.length)
    (hres : resolveEach (pending.map (relocation blocks)) s = .ok u s') :
    ∃ blocks', blocks'.length = program.length ∧ Laid dbg program blocks' [] s' := by
  induction pending generalizing blocks s with
  | nil =>
    obtain ⟨-, rfl⟩ := pure_ok.mp hres
    exact ⟨blocks, hlen, h⟩
  | cons p pending ih =>
    obtain ⟨_, s₁, hp, hres⟩ := bind_ok.mp hres
    obtain ⟨blocks₁, hlen₁, h₁, hstart⟩ := h.resolveJump hlen hp
    have hmap : pending.map (relocation blocks) = pending.map (relocation blocks₁) :=
      map_congr_left fun p _ => by rw [relocation, relocation, hstart]
    exact ih h₁ hlen₁ (hmap ▸ hres)

end

/-! ## Compiled code -/

/-- `blocks` are the blocks of `program`, and each jump goes to the start of its target's block. -/
structure Linked (dbg : Bool) (program : List JitInstruction) (blocks : List (List Byte)) : Prop where
  length_eq : blocks.length = program.length
  block : ∀ pc J b, program[pc]? = some J → blocks[pc]? = some b → IsBlock dbg J b (LinkedTo blocks pc)

theorem JitCompilerModel.finish_ok {count : Nat} {emit : JitM Unit} {code : List Byte}
    (h : finish count emit = .ok code) :
    ∃ s s', emit (new count 0) = .ok () s ∧ resolveEach s.textSectionJumps s = .ok () s' ∧ code = s'.textSection := by
  unfold finish at h
  split at h
  case h_1 _ u s'' hrun =>
    obtain ⟨_, s, hemit, hrest⟩ := bind_ok.mp hrun
    obtain ⟨_, _, hget, hrest'⟩ := bind_ok.mp hrest
    obtain ⟨rfl, rfl⟩ := get_ok.mp hget
    obtain ⟨_, s', hres, hclear⟩ := bind_ok.mp hrest'
    cases hclear
    exact ⟨_, s', hemit, hres, (Except.ok.inj h).symm⟩
  case h_2 => cases h

theorem linked_of_compile {dbg : Bool} {program : List JitInstruction} {code : List Byte}
    (h : compile dbg program = .ok code) :
    ∃ blocks, Linked dbg program blocks ∧ code = blocks.flatten := by
  obtain ⟨s, s', hemit, hres, rfl⟩ := finish_ok h
  obtain ⟨blocks, pending, hlen, hlaid, hjumps⟩ := (laid_new dbg program).emitFrom rfl rfl hemit
  have hlen : blocks.length = program.length := by simpa using hlen
  rw [hjumps] at hres
  obtain ⟨blocks', hlen', hlaid'⟩ := hlaid.resolveEach hlen hres
  refine ⟨blocks', ⟨hlen', fun pc J b hJ hb => ?_⟩, hlaid'.text⟩
  exact (hlaid'.block pc J b hJ hb).imp fun t d _ hd => hd.resolve_right (by simp)

theorem JitCompilerModel.emitFrom_append {dbg : Bool} {s s' : JitCompilerModel} {u : Unit} {l₁ l₂ : List JitInstruction}
    {pc : Nat} (h : emitFrom dbg pc (l₁ ++ l₂) s = .ok u s') :
    ∃ s₁, emitFrom dbg pc l₁ s = .ok () s₁ ∧ emitFrom dbg (pc + l₁.length) l₂ s₁ = .ok u s' := by
  induction l₁ generalizing pc s with
  | nil => exact ⟨s, rfl, h⟩
  | cons J l₁ ih =>
    obtain ⟨_, s₁, hset, h⟩ := bind_ok.mp h
    obtain ⟨_, s₂, hJ, h⟩ := bind_ok.mp h
    obtain ⟨s₃, h₁, h₂⟩ := ih h
    refine ⟨s₃, bind_ok.mpr ⟨_, s₁, hset, bind_ok.mpr ⟨_, s₂, hJ, h₁⟩⟩, ?_⟩
    rwa [length_cons, Nat.add_comm l₁.length 1, ← Nat.add_assoc]

/-- The code is one block per instruction. Each block is what `emit_jit_instruction` appends
when its turn comes, except for the last four bytes of a jump, which hold the distance from
the end of the block to the start of the target's block. -/
def HasLayout (dbg : Bool) (program : List JitInstruction) (code : List Byte) : Prop :=
  ∃ blocks : List (List Byte), code = blocks.flatten ∧ blocks.length = program.length ∧
    ∀ pc J, program[pc]? = some J → ∃ block emitted self self₁ self',
      blocks[pc]? = some block ∧
      emitFrom dbg 0 (program.take pc) (new program.length 0) = .ok () self ∧
      setProgramCounter pc self = .ok () self₁ ∧
      emitJitInstruction dbg J self₁ = .ok () self' ∧
      self'.textSection = self.textSection ++ emitted ∧
      match J.target with
      | none => block = emitted
      | some t =>
        let displacement : Int := blockStart blocks t - blockStart blocks (pc + 1)
        t < program.length ∧ 4 ≤ emitted.length ∧ -2 ^ 31 ≤ displacement ∧ displacement < 2 ^ 31 ∧
          block = emitted.take (emitted.length - 4) ++ leBytes 4 (BitVec.ofInt 32 displacement).toNat

theorem relativeOffset_ok {destination e : Nat} {d : BitVec 32} (h : relativeOffset destination e = .ok d) :
    -2 ^ 31 ≤ (destination : Int) - e ∧ (destination : Int) - e < 2 ^ 31 ∧
      d = BitVec.ofInt 32 (destination - e) := by
  unfold relativeOffset at h
  dsimp only at h
  split at h
  case isTrue hr => exact ⟨hr.1, hr.2, (Except.ok.inj h).symm⟩
  case isFalse => cases h

theorem compile_layout {dbg : Bool} {program : List JitInstruction} {code : List Byte}
    (h : compile dbg program = .ok code) : HasLayout dbg program code := by
  obtain ⟨blocks, hlinked, rfl⟩ := linked_of_compile h
  obtain ⟨s, _, hemit, -, -⟩ := finish_ok h
  refine ⟨blocks, rfl, hlinked.length_eq, fun pc J hJ => ?_⟩
  have hpc : pc < program.length := (List.getElem?_eq_some_iff.mp hJ).1
  obtain ⟨b, hb⟩ : ∃ b, blocks[pc]? = some b :=
    ⟨_, getElem?_eq_getElem (by rw [hlinked.length_eq]; exact hpc)⟩
  obtain ⟨is, d, hs, rfl, hlink⟩ := hlinked.block pc J b hJ hb
  -- the emission loop passes through a state in which block `pc` is next
  have hsplit : program = program.take pc ++ J :: program.drop (pc + 1) := by
    rw [← (List.getElem?_eq_some_iff.mp hJ).2, ← List.drop_eq_getElem_cons hpc, List.take_append_drop]
  rw [hsplit] at hemit
  obtain ⟨self, hself, hemit⟩ := emitFrom_append hemit
  rw [Nat.zero_add, length_take, Nat.min_eq_left (Nat.le_of_lt hpc)] at hemit
  obtain ⟨_, self₁, hset, hemit⟩ := bind_ok.mp hemit
  obtain ⟨_, self', hJ', -⟩ := bind_ok.mp hemit
  obtain ⟨is', d', hs', hst⟩ := emitJitInstruction_ok hJ'
  obtain rfl : is' = is := (map_inj_right fun _ _ => Option.some.inj).mp
    (Option.some.inj (hs'.symm.trans hs))
  have htext₁ : self₁.textSection = self.textSection := by
    rw [(setProgramCounter_ok.mp hset).2]
  have htext : self'.textSection = self.textSection ++ J.block is' d' := by
    rw [← htext₁]
    cases ht : J.target with
    | none => rw [ht] at hst; rw [hst]; rfl
    | some t =>
      rw [ht] at hst
      rcases hst with ⟨_, _, _, rfl⟩ | ⟨_, rfl⟩ <;> rfl
  rw [← hsplit] at hself
  refine ⟨_, _, self, self₁, self', hb, hself, hset, hJ', htext, ?_⟩
  cases ht : J.target with
  | none => simp [JitInstruction.block, ht]
  | some t =>
    obtain ⟨hlt, hrel⟩ := hlink t ht
    obtain ⟨hlo, hhi, rfl⟩ := relativeOffset_ok hrel
    refine ⟨hlinked.length_eq ▸ hlt, ?_, hlo, hhi, ?_⟩ <;>
      simp [JitInstruction.block, ht, ← append_assoc]

/-- A loop with a forward and a backward jump. -/
theorem compile_layout_loop :
    HasLayout true [.jumpImmediate .s64 .equal 0 5 2, .jump 0, .ret]
      [0x48, 0x81, 0xf8, 5, 0, 0, 0, 0x0f, 0x84, 5, 0, 0, 0, 0xe9, 0xee, 0xff, 0xff, 0xff, 0xc3] :=
  compile_layout (by rfl)

end Aeneas.Sbpf
