import Aeneas.LlbcAst

/-!
# The statements that a run can reach

What follows a jump is dead, and so is what follows a loop without a break. Where
the reachable statements jump to the innermost loop only, the outcome of a run
tells which jump was reached.
-/

namespace Aeneas.LlbcAst

open Bool

variable {α δ S : Type}

mutual

/-- A run of the block can reach a break that is not in an inner loop. -/
def breaks : Block α δ → Bool
  | [] => false
  | st :: ls => breaksIn st || (goesOn st && breaks ls)

def breaksIn : Statement α δ → Bool
  | .brk _ _ => true
  | .switch _ _ branches => breaksInBlocks branches
  | _ => false

def goesOn : Statement α δ → Bool
  | .basic _ _ => true
  | .switch _ _ _ => true
  | .loop _ body => breaks body
  | _ => false

def breaksInBlocks : List (Block α δ) → Bool
  | [] => false
  | b :: bs => breaks b || breaksInBlocks bs

end

def goesThrough : Block α δ → Bool
  | [] => true
  | st :: ls => goesOn st && goesThrough ls

section
variable (deep : Bool) (p : Statement α δ → Bool)

mutual

def live : Block α δ → Bool
  | [] => false
  | st :: ls => liveIn st || (goesOn st && live ls)

def liveIn : Statement α δ → Bool
  | .switch _ _ branches => liveInBlocks branches
  | .loop _ body => deep && live body
  | st => p st

def liveInBlocks : List (Block α δ) → Bool
  | [] => false
  | b :: bs => live b || liveInBlocks bs

end

end

section
variable {deep : Bool} {p : Statement α δ → Bool}

theorem live_append (a b : Block α δ) : live deep p (a ++ b) = (live deep p a || (goesThrough a && live deep p b)) := by
  induction a with
  | nil => simp [live, goesThrough]
  | cons st a ih =>
    rw [List.cons_append, live, ih, live, goesThrough]
    grind

variable {bs : List (Block α δ)}

theorem liveInBlocks_eq_false :
    liveInBlocks deep p bs = false ↔ ∀ b ∈ bs, live deep p b = false := by
  induction bs with
  | nil => simp [liveInBlocks]
  | cons b bs ih => simp [liveInBlocks, ih]

theorem liveInBlocks_of_mem {b : Block α δ} (hb : b ∈ bs) (h : live deep p b = true) :
    liveInBlocks deep p bs = true := by
  by_contra hnone
  rw [liveInBlocks_eq_false.mp (eq_false_iff.mpr hnone) b hb] at h
  cases h

theorem breaksInBlocks_of_mem {b : Block α δ} (hb : b ∈ bs) (h : breaks b = true) :
    breaksInBlocks bs = true := by
  induction bs with
  | nil => cases hb
  | cons b' bs ih =>
    rcases List.mem_cons.mp hb with rfl | hb
    · rw [breaksInBlocks, h, Bool.true_or]
    · rw [breaksInBlocks, ih hb, Bool.or_true]

mutual

theorem live_of_occurs : ∀ ls : Block α δ, occurs deep p ls = false → live deep p ls = false
  | [], _ => rfl
  | st :: ls, h => by
    obtain ⟨hst, hls⟩ := or_eq_false_iff.mp h
    rw [live, liveIn_of_occurs st hst, live_of_occurs ls hls, Bool.and_false, Bool.or_false]

theorem liveIn_of_occurs : ∀ st : Statement α δ, occursIn deep p st = false → liveIn deep p st = false
  | .switch _ _ branches, h => liveInBlocks_of_occurs branches h
  | .loop _ body, h => by
    rw [liveIn]
    rcases and_eq_false_iff.mp h with hdeep | hbody
    · rw [hdeep, Bool.false_and]
    · rw [live_of_occurs body hbody, Bool.and_false]
  | .basic _ _, h | .abort _ _, h | .ret _, h | .unwindResume _, h | .brk _ _, h | .cont _ _, h => h

theorem liveInBlocks_of_occurs : ∀ bs : List (Block α δ), occursInBlocks deep p bs = false →
    liveInBlocks deep p bs = false
  | [], _ => rfl
  | b :: bs, h => by
    obtain ⟨hb, hbs⟩ := or_eq_false_iff.mp h
    rw [liveInBlocks, live_of_occurs b hb, liveInBlocks_of_occurs bs hbs, Bool.or_false]

end

mutual

theorem breaks_of_occurs : ∀ ls : Block α δ, occurs deep Statement.isBreak ls = false → breaks ls = false
  | [], _ => rfl
  | st :: ls, h => by
    obtain ⟨hst, hls⟩ := or_eq_false_iff.mp h
    rw [breaks, breaksIn_of_occurs st hst, breaks_of_occurs ls hls, Bool.and_false, Bool.or_false]

theorem breaksIn_of_occurs : ∀ st : Statement α δ, occursIn deep Statement.isBreak st = false → breaksIn st = false
  | .switch _ _ branches, h => breaksInBlocks_of_occurs branches h
  | .brk _ _, h => by cases h
  | .loop _ _, _ | .basic _ _, _ | .abort _ _, _ | .ret _, _ | .unwindResume _, _ | .cont _ _, _ => rfl

theorem breaksInBlocks_of_occurs : ∀ bs : List (Block α δ), occursInBlocks deep Statement.isBreak bs = false →
    breaksInBlocks bs = false
  | [], _ => rfl
  | b :: bs, h => by
    obtain ⟨hb, hbs⟩ := or_eq_false_iff.mp h
    rw [breaksInBlocks, breaks_of_occurs b hb, breaksInBlocks_of_occurs bs hbs, Bool.or_false]

end

end

def Reaches (ls : Block α δ) : Outcome → Prop
  | .normal => goesThrough ls = true
  | .brk i => i = 0 ∧ breaks ls = true
  | .cont i => i = 0 ∧ live false Statement.isContinue ls = true
  | _ => True

variable {ls : Block α δ} {o : Outcome}

theorem Reaches.cons {st : Statement α δ} (hst : goesOn st = true) (h : Reaches ls o) :
    Reaches (st :: ls) o := by
  cases o with
  | normal => exact and_eq_true_iff.mpr ⟨hst, h⟩
  | brk i => exact ⟨h.1, by rw [breaks, hst, h.2]; simp⟩
  | cont i => exact ⟨h.1, by rw [live, hst, h.2]; simp⟩
  | _ => trivial

theorem Reaches.leave {o' : Outcome} (h : Reaches ls o) (ho : o.leave = some o') :
    (o = .ret ∧ o' = .ret) ∨ (o = .panic ∧ o' = .panic) := by
  cases o with
  | normal => cases ho
  | ret =>
    cases ho
    exact .inl ⟨rfl, rfl⟩
  | panic =>
    cases ho
    exact .inr ⟨rfl, rfl⟩
  | brk i | cont i =>
    obtain ⟨rfl, _⟩ := h
    cases ho

variable {I : Interp α δ S}

theorem runs_reaches (hI : I.Plain) {s t : S} (h : Runs I ls s o t)
    (hfar : live true Statement.isFarJump ls = false) : Reaches ls o := by
  induction h with
  | nil => rfl
  | basicNext _ _ ih => exact (ih (or_eq_false_iff.mp hfar).2).cons rfl
  | @basicStop info b ls s o t hstep hne =>
    rcases hI b s with hn | hp
    · rw [hstep] at hn
      exact absurd hn hne
    · rw [hstep] at hp
      cases hp
      trivial
  | abort | ret | unwindResume => trivial
  | brk | cont =>
    have hi := (or_eq_false_iff.mp hfar).1
    exact ⟨by simpa [liveIn, Statement.isFarJump] using hi, rfl⟩
  | switchNext _ _ _ _ _ ih => exact (ih (or_eq_false_iff.mp hfar).2).cons rfl
  | @switchStop info data bs b ls s n t o u _ hget _ hne ih =>
    have hb := List.mem_of_getElem? hget
    have hreach := ih (liveInBlocks_eq_false.mp (or_eq_false_iff.mp hfar).1 b hb)
    cases o with
    | normal => exact absurd rfl hne
    | brk i => exact ⟨hreach.1, by rw [breaks, breaksIn, breaksInBlocks_of_mem hb hreach.2, Bool.true_or]⟩
    | cont i => exact ⟨hreach.1, by rw [live, liveIn, liveInBlocks_of_mem hb hreach.2, Bool.true_or]⟩
    | _ => trivial
  | loopAgain _ _ _ _ ih => exact ih hfar
  | @loopBreak info body ls s t o u _ _ ihbody ih =>
    obtain ⟨hbody, hls⟩ := or_eq_false_iff.mp hfar
    have hbreaks : goesOn (Statement.loop info body) = true := (ihbody hbody).2
    rw [hbreaks] at hls
    exact (ih hls).cons hbreaks
  | loopLeave _ hleave ih =>
    rcases (ih (or_eq_false_iff.mp hfar).1).leave hleave with ⟨_, rfl⟩ | ⟨_, rfl⟩
    · trivial
    · trivial

end Aeneas.LlbcAst
