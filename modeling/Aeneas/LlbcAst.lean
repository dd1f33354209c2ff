import Aeneas.Collections

/-!
# The statements of LLBC

Function bodies are structured: blocks of statements, switches and loops, with
breaks and continues that count the loops they leave. What the basic statements
do to the state is left to an interpretation, as is the branch that a switch
takes. A run of a block is a derivation, so a block that diverges has none.
-/

namespace Aeneas.LlbcAst

/-- The rvalues, as far as the passes tell them apart. -/
inductive RvalueKind where
  | use | rvRef | rawPtr | nullaryOp | aggregate
  | binaryOp | unaryOp | discriminant | len | repeated
deriving DecidableEq, Repr

inductive BasicKind where
  | nop | storageLive | storageDead | placeMention | borrowck | drop
  | assign (rv : RvalueKind)
  | setDiscriminant | assertion | call
  -- a kind that the passes do not support, with the text which is shown for it
  | other (shown : String)
deriving DecidableEq, Repr

structure Basic (α : Type) where
  kind : BasicKind
  args : α
deriving DecidableEq, Repr

structure Info where
  span : Nat
  statementId : Nat
  commentsBefore : List String
deriving DecidableEq, Repr

/-- The blocks for the unwinding (`on_unwind`) of the calls and the assertions are left out, although the visitors
of the source enter them. -/
inductive Statement (α δ : Type) where
  | basic (info : Info) (b : Basic α)
  | abort (info : Info) (args : α)
  | ret (info : Info)
  | unwindResume (info : Info)
  | brk (info : Info) (i : Nat)
  | cont (info : Info) (i : Nat)
  | switch (info : Info) (data : δ) (branches : List (List (Statement α δ)))
  | loop (info : Info) (body : List (Statement α δ))

abbrev Block (α δ : Type) := List (Statement α δ)

inductive Body (α δ : Type) where
  | structuredBody (body : Block α δ)
  | errorBody (span : Nat) (msg : String)
  -- declared elsewhere, or dispatched over the targets
  | otherBody

/-- The passes update the structured bodies and return the others as they are. -/
def Body.update {α δ ε : Type} (pass : Block α δ → Except ε (Block α δ)) : Body α δ → Except ε (Body α δ)
  | .structuredBody body => do return .structuredBody (← pass body)
  | other => .ok other

/-! ## Occurrences -/

section
variable {α δ : Type}

def Statement.isReturn : Statement α δ → Bool
  | .ret _ => true
  | _ => false

def Statement.isBreak : Statement α δ → Bool
  | .brk _ _ => true
  | _ => false

def Statement.isContinue : Statement α δ → Bool
  | .cont _ _ => true
  | _ => false

def Statement.isFarJump : Statement α δ → Bool
  | .brk _ i => i ≠ 0
  | .cont _ i => i ≠ 0
  | _ => false

variable (deep : Bool) (p : Statement α δ → Bool)

mutual

def occurs : Block α δ → Bool
  | [] => false
  | st :: ls => occursIn st || occurs ls

def occursIn : Statement α δ → Bool
  | .switch _ _ branches => occursInBlocks branches
  | .loop _ body => deep && occurs body
  | st => p st

def occursInBlocks : List (Block α δ) → Bool
  | [] => false
  | b :: bs => occurs b || occursInBlocks bs

end

mutual

def inLoops : Block α δ → Bool
  | [] => false
  | st :: ls => inLoopsOf st || inLoops ls

def inLoopsOf : Statement α δ → Bool
  | .switch _ _ branches => inLoopsOfBlocks branches
  | .loop _ body => occurs true p body
  | _ => false

def inLoopsOfBlocks : List (Block α δ) → Bool
  | [] => false
  | b :: bs => inLoops b || inLoopsOfBlocks bs

end

variable {deep p}

theorem occurs_append (a b : Block α δ) : occurs deep p (a ++ b) = (occurs deep p a || occurs deep p b) := by
  induction a with
  | nil => simp [occurs]
  | cons st a ih => simp [occurs, ih, Bool.or_assoc]

variable {bs : List (Block α δ)}

theorem occursInBlocks_eq_false :
    occursInBlocks deep p bs = false ↔ ∀ b ∈ bs, occurs deep p b = false := by
  induction bs with
  | nil => simp [occursInBlocks]
  | cons b bs ih => simp [occursInBlocks, ih]

mutual

theorem occurs_true (p : Statement α δ → Bool) :
    ∀ ls : Block α δ, occurs true p ls = (occurs false p ls || inLoops p ls)
  | [] => rfl
  | st :: ls => by
    simp only [occurs, inLoops, occursIn_true p st, occurs_true p ls]
    cases occursIn false p st <;> cases inLoopsOf p st <;> simp

theorem occursIn_true (p : Statement α δ → Bool) : ∀ st : Statement α δ,
    occursIn true p st = (occursIn false p st || inLoopsOf p st)
  | .switch _ _ branches => by simp only [occursIn, inLoopsOf, occursInBlocks_true p branches]
  | .loop _ body | .basic _ _ | .abort _ _ | .ret _ | .unwindResume _ | .brk _ _
  | .cont _ _ => by simp [occursIn, inLoopsOf]

theorem occursInBlocks_true (p : Statement α δ → Bool) : ∀ bs : List (Block α δ),
    occursInBlocks true p bs = (occursInBlocks false p bs || inLoopsOfBlocks p bs)
  | [] => rfl
  | b :: bs => by
    simp only [occursInBlocks, inLoopsOfBlocks, occurs_true p b, occursInBlocks_true p bs]
    cases occurs false p b <;> cases inLoops p b <;> simp

end

end

/-! ## Runs -/

inductive Outcome where
  | normal | ret | panic
  | brk (i : Nat)
  | cont (i : Nat)
deriving DecidableEq, Repr

def Outcome.again : Outcome → Bool
  | .normal | .cont 0 => true
  | _ => false

def Outcome.leave : Outcome → Option Outcome
  | .ret => some .ret
  | .panic => some .panic
  | .brk (i + 1) => some (.brk i)
  | .cont (i + 1) => some (.cont i)
  | _ => none

structure Interp (α δ S : Type) where
  basic : Basic α → S → Outcome × S
  -- the branch, and the state after the scrutinee was evaluated
  branch : δ → S → Nat × S

/-- The basic statements go on or panic, the jumps are statements of their own. -/
def Interp.Plain {α δ S : Type} (I : Interp α δ S) : Prop :=
  ∀ b s, (I.basic b s).1 = .normal ∨ (I.basic b s).1 = .panic

section
variable {α δ S : Type}

/-- The runs of a block. A switch whose index is out of range has no run: there
the evaluation stops with an error of its own. -/
inductive Runs (I : Interp α δ S) : Block α δ → S → Outcome → S → Prop
  | nil {s} : Runs I [] s .normal s
  | basicNext {info b ls s t o u} :
      I.basic b s = (.normal, t) → Runs I ls t o u → Runs I (.basic info b :: ls) s o u
  | basicStop {info b ls s o t} : I.basic b s = (o, t) → o ≠ .normal → Runs I (.basic info b :: ls) s o t
  | abort {info args ls s} : Runs I (.abort info args :: ls) s .panic s
  | ret {info ls s} : Runs I (.ret info :: ls) s .ret s
  | unwindResume {info ls s} : Runs I (.unwindResume info :: ls) s .panic s
  | brk {info i ls s} : Runs I (.brk info i :: ls) s (.brk i) s
  | cont {info i ls s} : Runs I (.cont info i :: ls) s (.cont i) s
  | switchNext {info data bs b ls s n t u o v} :
      I.branch data s = (n, t) → bs[n]? = some b → Runs I b t .normal u → Runs I ls u o v →
        Runs I (.switch info data bs :: ls) s o v
  | switchStop {info data bs b ls s n t o u} :
      I.branch data s = (n, t) → bs[n]? = some b → Runs I b t o u → o ≠ .normal →
        Runs I (.switch info data bs :: ls) s o u
  | loopAgain {info body ls s o t o' u} :
      Runs I body s o t → o.again = true → Runs I (.loop info body :: ls) t o' u →
        Runs I (.loop info body :: ls) s o' u
  | loopBreak {info body ls s t o u} :
      Runs I body s (.brk 0) t → Runs I ls t o u → Runs I (.loop info body :: ls) s o u
  | loopLeave {info body ls s o t o'} :
      Runs I body s o t → o.leave = some o' → Runs I (.loop info body :: ls) s o' t

variable {I : Interp α δ S}

variable {o o' : Outcome}

theorem Outcome.leave_ne_normal (h : o.leave = some o') : o' ≠ .normal := by
  intro hn
  subst hn
  unfold Outcome.leave at h
  split at h <;> cases h

variable {s t : S}

theorem runs_nil : Runs I [] s o t ↔ o = .normal ∧ t = s := by
  constructor
  · intro h
    cases h
    exact ⟨rfl, rfl⟩
  · intro h
    obtain ⟨rfl, rfl⟩ := h
    exact .nil

theorem Outcome.leave_of_again (h : o.again = true) (hleave : o.leave = some o') : False := by
  unfold Outcome.again at h
  split at h <;> cases h <;> cases hleave

variable {a : Block α δ}

theorem Runs.det {t' : S} (h : Runs I a s o t) (h' : Runs I a s o' t') :
    o = o' ∧ t = t' := by
  induction h generalizing o' t' with
  | nil =>
    obtain ⟨rfl, rfl⟩ := runs_nil.mp h'
    exact ⟨rfl, rfl⟩
  | basicNext hstep _ ih =>
    cases h' with
    | basicNext hstep' hrest' =>
      rw [hstep] at hstep'
      cases hstep'
      exact ih hrest'
    | basicStop hstep' hne =>
      rw [hstep] at hstep'
      cases hstep'
      exact absurd rfl hne
  | basicStop hstep hne =>
    cases h' with
    | basicNext hstep' hrest' =>
      rw [hstep] at hstep'
      cases hstep'
      exact absurd rfl hne
    | basicStop hstep' hne =>
      rw [hstep] at hstep'
      cases hstep'
      exact ⟨rfl, rfl⟩
  | abort | ret | unwindResume | brk | cont =>
    cases h'
    exact ⟨rfl, rfl⟩
  | switchNext hbr hget _ _ ihb ih =>
    cases h' with
    | switchNext hbr' hget' hb' hrest' =>
      rw [hbr] at hbr'
      cases hbr'
      rw [hget] at hget'
      cases hget'
      obtain ⟨_, rfl⟩ := ihb hb'
      exact ih hrest'
    | switchStop hbr' hget' hb' hne =>
      rw [hbr] at hbr'
      cases hbr'
      rw [hget] at hget'
      cases hget'
      exact absurd (ihb hb').1.symm hne
  | switchStop hbr hget _ hne ihb =>
    cases h' with
    | switchNext hbr' hget' hb' hrest' =>
      rw [hbr] at hbr'
      cases hbr'
      rw [hget] at hget'
      cases hget'
      exact absurd (ihb hb').1 hne
    | switchStop hbr' hget' hb' _ =>
      rw [hbr] at hbr'
      cases hbr'
      rw [hget] at hget'
      cases hget'
      exact ihb hb'
  | loopAgain _ hagain _ ihb ih =>
    cases h' with
    | loopAgain hb' _ hrest' =>
      obtain ⟨_, rfl⟩ := ihb hb'
      exact ih hrest'
    | loopBreak hb' _ =>
      obtain ⟨rfl, _⟩ := ihb hb'
      cases hagain
    | loopLeave hb' hleave =>
      obtain ⟨rfl, _⟩ := ihb hb'
      exact (Outcome.leave_of_again hagain hleave).elim
  | loopBreak _ _ ihb ih =>
    cases h' with
    | loopAgain hb' hagain _ =>
      obtain ⟨rfl, _⟩ := ihb hb'
      cases hagain
    | loopBreak hb' hrest' =>
      obtain ⟨_, rfl⟩ := ihb hb'
      exact ih hrest'
    | loopLeave hb' hleave =>
      obtain ⟨rfl, _⟩ := ihb hb'
      cases hleave
  | loopLeave _ hleave ihb =>
    cases h' with
    | loopAgain hb' hagain _ =>
      obtain ⟨rfl, _⟩ := ihb hb'
      exact (Outcome.leave_of_again hagain hleave).elim
    | loopBreak hb' _ =>
      obtain ⟨rfl, _⟩ := ihb hb'
      cases hleave
    | loopLeave hb' hleave' =>
      obtain ⟨rfl, rfl⟩ := ihb hb'
      rw [hleave] at hleave'
      cases hleave'
      exact ⟨rfl, rfl⟩

variable {b : Block α δ} {u : S}

theorem Runs.append (ha : Runs I a s .normal t) (hb : Runs I b t o u) :
    Runs I (a ++ b) s o u := by
  generalize ho : Outcome.normal = n at ha
  induction ha with
  | nil => exact hb
  | basicNext hstep _ ih => exact .basicNext hstep (ih hb ho)
  | basicStop _ hne => exact absurd ho.symm hne
  | abort | ret | unwindResume | brk | cont => cases ho
  | switchNext hbr hget hrun _ _ ih => exact .switchNext hbr hget hrun (ih hb ho)
  | switchStop _ _ _ hne => exact absurd ho.symm hne
  | loopAgain hbody hagain _ _ ih => exact .loopAgain hbody hagain (ih hb ho)
  | loopBreak hbody _ _ ih => exact .loopBreak hbody (ih hb ho)
  | loopLeave _ hleave => exact absurd ho.symm (Outcome.leave_ne_normal hleave)

theorem Runs.append_stop (b : Block α δ) (ha : Runs I a s o t) (ho : o ≠ .normal) :
    Runs I (a ++ b) s o t := by
  induction ha with
  | nil => exact absurd rfl ho
  | basicNext hstep _ ih => exact .basicNext hstep (ih ho)
  | basicStop hstep hne => exact .basicStop hstep hne
  | abort => exact .abort
  | ret => exact .ret
  | unwindResume => exact .unwindResume
  | brk => exact .brk
  | cont => exact .cont
  | switchNext hbr hget hrun _ _ ih => exact .switchNext hbr hget hrun (ih ho)
  | switchStop hbr hget hrun hne => exact .switchStop hbr hget hrun hne
  | loopAgain hbody hagain _ _ ih => exact .loopAgain hbody hagain (ih ho)
  | loopBreak hbody _ _ ih => exact .loopBreak hbody (ih ho)
  | loopLeave hbody hleave => exact .loopLeave hbody hleave

variable {st : Statement α δ} {ls : Block α δ}

theorem Runs.cons_cases (h : Runs I (st :: ls) s o u) :
    (∃ t, Runs I [st] s .normal t ∧ Runs I ls t o u) ∨ (o ≠ .normal ∧ Runs I [st] s o u) := by
  generalize hl : st :: ls = l at h
  induction h with
  | nil => cases hl
  | basicNext hstep hrest =>
    cases hl
    exact .inl ⟨_, .basicNext hstep .nil, hrest⟩
  | basicStop hstep hne =>
    cases hl
    exact .inr ⟨hne, .basicStop hstep hne⟩
  | abort =>
    cases hl
    exact .inr ⟨by simp, .abort⟩
  | ret =>
    cases hl
    exact .inr ⟨by simp, .ret⟩
  | unwindResume =>
    cases hl
    exact .inr ⟨by simp, .unwindResume⟩
  | brk =>
    cases hl
    exact .inr ⟨by simp, .brk⟩
  | cont =>
    cases hl
    exact .inr ⟨by simp, .cont⟩
  | switchNext hbr hget hrun hrest =>
    cases hl
    exact .inl ⟨_, .switchNext hbr hget hrun .nil, hrest⟩
  | switchStop hbr hget hrun hne =>
    cases hl
    exact .inr ⟨hne, .switchStop hbr hget hrun hne⟩
  | loopAgain hbody hagain _ _ ih =>
    cases hl
    rcases ih rfl with ⟨t, hst, hls⟩ | ⟨ho, hst⟩
    · exact .inl ⟨t, .loopAgain hbody hagain hst, hls⟩
    · exact .inr ⟨ho, .loopAgain hbody hagain hst⟩
  | loopBreak hbody hrest =>
    cases hl
    exact .inl ⟨_, .loopBreak hbody .nil, hrest⟩
  | loopLeave hbody hleave =>
    cases hl
    exact .inr ⟨Outcome.leave_ne_normal hleave, .loopLeave hbody hleave⟩

theorem runs_append_iff :
    Runs I (a ++ b) s o u ↔
      (∃ t, Runs I a s .normal t ∧ Runs I b t o u) ∨ (o ≠ .normal ∧ Runs I a s o u) := by
  constructor
  · intro h
    induction a generalizing s with
    | nil => exact .inl ⟨s, .nil, h⟩
    | cons st a ih =>
      rcases h.cons_cases with ⟨t, hst, h⟩ | ⟨ho, hst⟩
      · rcases ih h with ⟨t', ha, hb⟩ | ⟨ho, ha⟩
        · exact .inl ⟨t', hst.append ha, hb⟩
        · exact .inr ⟨ho, hst.append ha⟩
      · exact .inr ⟨ho, hst.append_stop a ho⟩
  · intro h
    rcases h with ⟨t, ha, hb⟩ | ⟨ho, ha⟩
    · exact ha.append hb
    · exact ha.append_stop b ho

theorem runs_cons_iff :
    Runs I (st :: ls) s o u ↔
      (∃ t, Runs I [st] s .normal t ∧ Runs I ls t o u) ∨ (o ≠ .normal ∧ Runs I [st] s o u) :=
  runs_append_iff (a := [st])

variable {info : Info} {data : δ} {bs : List (Block α δ)}

theorem runs_switch_iff :
    Runs I [.switch info data bs] s o u ↔
      ∃ n t b, I.branch data s = (n, t) ∧ bs[n]? = some b ∧ Runs I b t o u := by
  constructor
  · intro h
    cases h with
    | switchNext hbr hget hrun hrest =>
      obtain ⟨rfl, rfl⟩ := runs_nil.mp hrest
      exact ⟨_, _, _, hbr, hget, hrun⟩
    | switchStop hbr hget hrun _ => exact ⟨_, _, _, hbr, hget, hrun⟩
  · intro h
    obtain ⟨n, t, b, hbr, hget, hrun⟩ := h
    by_cases ho : o = .normal
    · subst ho
      exact .switchNext hbr hget hrun .nil
    · exact .switchStop hbr hget hrun ho

/-! ## Simulation

The outcomes of two blocks are compared up to a relation, since a statement that
was moved may leave its block in another way. -/

def Sim (I : Interp α δ S) (R : Outcome → Outcome → Prop) (a b : Block α δ) : Prop :=
  ∀ s o t, Runs I a s o t → ∃ o', R o o' ∧ Runs I b s o' t

structure GoesOn (R : Outcome → Outcome → Prop) : Prop where
  normal : R .normal .normal
  iff : ∀ {o o'}, R o o' → (o = .normal ↔ o' = .normal)

theorem goesOn_eq : GoesOn Eq where
  normal := rfl
  iff h := by rw [h]

variable {R : Outcome → Outcome → Prop}

theorem sim_refl (hR : ∀ o, R o o) (a : Block α δ) : Sim I R a a := fun _ o _ h => ⟨o, hR o, h⟩

theorem Sim.append (hR : GoesOn R) {a' b' : Block α δ} (ha : Sim I R a a') (hb : Sim I R b b') :
    Sim I R (a ++ b) (a' ++ b') := by
  intro s o u h
  rcases runs_append_iff.mp h with ⟨t, hat, hbt⟩ | ⟨ho, hau⟩
  · obtain ⟨n, hn, hat'⟩ := ha _ _ _ hat
    obtain ⟨o', ho', hbt'⟩ := hb _ _ _ hbt
    obtain rfl := (hR.iff hn).mp rfl
    exact ⟨o', ho', hat'.append hbt'⟩
  · obtain ⟨o', ho', hau'⟩ := ha _ _ _ hau
    exact ⟨o', ho', hau'.append_stop _ fun hn => ho ((hR.iff ho').mpr hn)⟩

theorem Sim.cons (hR : GoesOn R) {st' : Statement α δ} {ls' : Block α δ} (hst : Sim I R [st] [st'])
    (hls : Sim I R ls ls') : Sim I R (st :: ls) (st' :: ls') :=
  Sim.append hR hst hls

variable {bs' : List (Block α δ)}

theorem Sim.switch (h : List.Forall₂ (Sim I R) bs bs') :
    Sim I R [.switch info data bs] [.switch info data bs'] := by
  intro s o u hrun
  obtain ⟨n, t, b, hbr, hget, hb⟩ := runs_switch_iff.mp hrun
  obtain ⟨b', hget', hsim⟩ : ∃ b', bs'[n]? = some b' ∧ Sim I R b b' := by
    obtain ⟨hn, rfl⟩ := List.getElem?_eq_some_iff.mp hget
    have hn' : n < bs'.length := h.length_eq ▸ hn
    exact ⟨bs'[n], List.getElem?_eq_getElem hn', h.get hn hn'⟩
  obtain ⟨o', ho', hb'⟩ := hsim _ _ _ hb
  exact ⟨o', ho', runs_switch_iff.mpr ⟨n, t, b', hbr, hget', hb'⟩⟩

theorem Sim.loop {body body' : Block α δ} (h : Sim I Eq body body') :
    Sim I Eq [.loop info body] [.loop info body'] := by
  intro s o u hrun
  refine ⟨o, rfl, ?_⟩
  have hbody : ∀ {s o t}, Runs I body s o t → Runs I body' s o t := by
    intro s o t hb
    obtain ⟨_, rfl, hb'⟩ := h _ _ _ hb
    exact hb'
  generalize hl : [Statement.loop info body] = l at hrun
  induction hrun with
  | loopAgain hb hagain _ _ ih =>
    cases hl
    exact .loopAgain (hbody hb) hagain (ih rfl)
  | loopBreak hb hrest _ _ =>
    cases hl
    exact .loopBreak (hbody hb) hrest
  | loopLeave hb hleave _ =>
    cases hl
    exact .loopLeave (hbody hb) hleave
  | _ => cases hl

/-- The blocks have the same runs, so they also diverge from the same states. -/
def Same (I : Interp α δ S) (a b : Block α δ) : Prop := ∀ s o t, Runs I a s o t ↔ Runs I b s o t

theorem same_iff_sim : Same I a b ↔ Sim I Eq a b ∧ Sim I Eq b a := by
  constructor
  · intro h
    exact ⟨fun s o t hr => ⟨o, rfl, (h s o t).mp hr⟩, fun s o t hr => ⟨o, rfl, (h s o t).mpr hr⟩⟩
  · intro h s o t
    constructor
    · intro hr
      obtain ⟨_, rfl, hr'⟩ := h.1 _ _ _ hr
      exact hr'
    · intro hr
      obtain ⟨_, rfl, hr'⟩ := h.2 _ _ _ hr
      exact hr'

theorem same_refl (a : Block α δ) : Same I a a := fun _ _ _ => Iff.rfl

theorem Same.trans {c : Block α δ} (hab : Same I a b) (hbc : Same I b c) : Same I a c :=
  fun s o t => (hab s o t).trans (hbc s o t)

theorem Same.cons {st' : Statement α δ} {ls' : Block α δ} (hst : Same I [st] [st']) (hls : Same I ls ls') :
    Same I (st :: ls) (st' :: ls') := by
  rw [same_iff_sim] at *
  exact ⟨hst.1.cons goesOn_eq hls.1, hst.2.cons goesOn_eq hls.2⟩

theorem Same.switch (h : List.Forall₂ (Same I) bs bs') :
    Same I [.switch info data bs] [.switch info data bs'] := by
  rw [same_iff_sim]
  refine ⟨Sim.switch (h.imp fun _ _ hb => (same_iff_sim.mp hb).1), Sim.switch ?_⟩
  exact List.Forall₂.flip (h.imp fun _ _ hb => (same_iff_sim.mp hb).2)

theorem Same.loop {body body' : Block α δ} (h : Same I body body') :
    Same I [.loop info body] [.loop info body'] := by
  rw [same_iff_sim] at *
  exact ⟨h.1.loop, h.2.loop⟩

theorem runs_dead_iff (hst : ∀ s t, ¬ Runs I [st] s .normal t) :
    Runs I (st :: ls) s o u ↔ o ≠ .normal ∧ Runs I [st] s o u := by
  rw [show st :: ls = [st] ++ ls from rfl, runs_append_iff]
  constructor
  · intro h
    rcases h with ⟨t, hnormal, _⟩ | hstop
    · exact absurd hnormal (hst s t)
    · exact hstop
  · exact .inr

theorem same_dead (ls ls' : Block α δ) (hst : ∀ s t, ¬ Runs I [st] s .normal t) :
    Same I (st :: ls) (st :: ls') := fun _ _ _ => (runs_dead_iff hst).trans (runs_dead_iff hst).symm

theorem same_switch_append (info : Info) (data : δ) (bs : List (Block α δ)) (ls : Block α δ) :
    Same I (.switch info data bs :: ls) [.switch info data (bs.map (· ++ ls))] := by
  intro s o u
  constructor
  · intro h
    rcases runs_cons_iff.mp h with ⟨v, hswitch, hls⟩ | ⟨ho, hswitch⟩
    · obtain ⟨n, t, b, hbr, hget, hb⟩ := runs_switch_iff.mp hswitch
      exact runs_switch_iff.mpr ⟨n, t, b ++ ls, hbr, by simp [hget], hb.append hls⟩
    · obtain ⟨n, t, b, hbr, hget, hb⟩ := runs_switch_iff.mp hswitch
      exact runs_switch_iff.mpr ⟨n, t, b ++ ls, hbr, by simp [hget], hb.append_stop ls ho⟩
  · intro h
    obtain ⟨n, t, b', hbr, hget', hb'⟩ := runs_switch_iff.mp h
    obtain ⟨b, hget, rfl⟩ : ∃ b, bs[n]? = some b ∧ b ++ ls = b' := by simpa using hget'
    rcases runs_append_iff.mp hb' with ⟨v, hb, hls⟩ | ⟨ho, hb⟩
    · exact runs_cons_iff.mpr (.inl ⟨v, runs_switch_iff.mpr ⟨n, t, b, hbr, hget, hb⟩, hls⟩)
    · exact runs_cons_iff.mpr (.inr ⟨ho, runs_switch_iff.mpr ⟨n, t, b, hbr, hget, hb⟩⟩)

end

end Aeneas.LlbcAst
