import Aeneas.LlbcReach
import Aeneas.UpdateLoopsShape

/-!
# The updated loops have the meaning of the loops

The statements after a loop are moved into its breaks, so their own breaks and
continues get another target. A break is one that stands for a return: the loop
around it was rewritten too, and a return follows that loop. A continue is not,
and the loops are required not to be followed by one.
-/

namespace Aeneas.UpdateLoops

open LlbcAst Bool List
open LlbcAst.Statement (isReturn isBreak isContinue isFarJump)

variable {α δ S : Type}

/-! ## The code after a loop -/

inductive Decomposed : Block α δ → Block α δ → Prop
  | ret {info rest} : Decomposed (.ret info :: rest) [.brk info 0]
  | abort {info args rest} : Decomposed (.abort info args :: rest) [.abort info args]
  | next {st ls after} : Decomposed ls after → Decomposed (st :: ls) (st :: after)

variable {ls after : Block α δ}

theorem decomposed_of_ok (h : decomposeAfter ls = .ok after) : Decomposed ls after := by
  induction ls generalizing after with
  | nil => cases h
  | cons st ls ih =>
    cases st with
    | ret =>
      cases h
      exact .ret
    | abort =>
      cases h
      exact .abort
    | _ =>
      obtain ⟨after', hafter, h⟩ := bind_eq_ok.mp h
      cases h
      exact .next (ih hafter)

theorem Decomposed.stops (h : Decomposed ls after) : goesThrough after = false := by
  induction h with
  | ret => rfl
  | abort => rfl
  | next _ ih => rw [goesThrough, ih, Bool.and_false]

theorem Decomposed.live {deep : Bool} {p : Statement α δ → Bool} (hret : ∀ info, p (.ret info) = false)
    (hbrk : ∀ info, p (.brk info 0) = false) (h : Decomposed ls after) :
    live deep p after = live deep p ls := by
  induction h with
  | ret => simp [LlbcAst.live, liveIn, goesOn, hret, hbrk]
  | abort => simp [LlbcAst.live, liveIn, goesOn]
  | next _ ih => rw [LlbcAst.live, ih, LlbcAst.live]

def Exits (o o' : Outcome) : Prop := o = o' ∨ (o = .ret ∧ o' = .brk 0)

theorem goesOn_exits : GoesOn Exits where
  normal := .inl rfl
  iff h := by
    rcases h with rfl | ⟨rfl, rfl⟩
    · exact Iff.rfl
    · simp

theorem goesOn_exits_symm : GoesOn fun o o' => Exits o' o where
  normal := .inl rfl
  iff h := (goesOn_exits.iff h).symm

theorem Decomposed.sim (I : Interp α δ S) (h : Decomposed ls after) :
    Sim I Exits ls after ∧ Sim I (fun o o' => Exits o' o) after ls := by
  induction h with
  | ret =>
    constructor
    · intro s o t hrun
      cases hrun
      exact ⟨_, .inr ⟨rfl, rfl⟩, .brk⟩
    · intro s o t hrun
      cases hrun
      exact ⟨_, .inr ⟨rfl, rfl⟩, .ret⟩
  | abort =>
    constructor
    · intro s o t hrun
      cases hrun
      exact ⟨_, .inl rfl, .abort⟩
    · intro s o t hrun
      cases hrun
      exact ⟨_, .inl rfl, .abort⟩
  | next _ ih =>
    exact ⟨Sim.cons goesOn_exits (sim_refl (fun _ => .inl rfl) _) ih.1,
      Sim.cons goesOn_exits_symm (sim_refl (fun _ => .inl rfl) _) ih.2⟩

/-! ## The loops that are not followed by a continue -/

def hasReturn : Statement α δ → Bool
  | .loop _ body => occurs false isReturn body
  | _ => false

mutual

/-- No continue can be reached after a loop that has a return of its own. -/
def steady : Block α δ → Bool
  | [] => true
  | st :: ls => steadyIn st && (!goesOn st || (steady ls && !(hasReturn st && live false isContinue ls)))

def steadyIn : Statement α δ → Bool
  | .switch _ _ branches => steadyBlocks branches
  | .loop _ body => steady body
  | _ => true

def steadyBlocks : List (Block α δ) → Bool
  | [] => true
  | b :: bs => steady b && steadyBlocks bs

end

variable {st : Statement α δ}

theorem steady_cons : steady (st :: ls) = true ↔ steadyIn st = true ∧
    (goesOn st = true → steady ls = true ∧ (hasReturn st = true → live false isContinue ls = false)) := by
  rw [steady]
  grind

theorem steadyBlocks_mem {bs : List (Block α δ)} (h : steadyBlocks bs = true) {b : Block α δ} (hb : b ∈ bs) :
    steady b = true := by
  induction bs with
  | nil => cases hb
  | cons b' bs ih =>
    obtain ⟨hb', hbs⟩ := and_eq_true_iff.mp h
    rcases mem_cons.mp hb with rfl | hb
    · exact hb'
    · exact ih hbs hb

theorem steady_append {a b : Block α δ} (ha : steady a = true) (hb : goesThrough a = true → steady b = true ∧
    ((∃ st ∈ a, hasReturn st = true) → live false isContinue b = false)) : steady (a ++ b) = true := by
  induction a with
  | nil => exact (hb rfl).1
  | cons st a ih =>
    rw [steady_cons] at ha
    rw [cons_append, steady_cons]
    refine ⟨ha.1, fun hst => ?_⟩
    have hthrough : goesThrough a = true → goesThrough (st :: a) = true := fun h => and_eq_true_iff.mpr ⟨hst, h⟩
    constructor
    · refine ih (ha.2 hst).1 fun h => ⟨(hb (hthrough h)).1, fun hret => (hb (hthrough h)).2 ?_⟩
      obtain ⟨st', hst', hret⟩ := hret
      exact ⟨st', mem_cons_of_mem st hst', hret⟩
    · intro hret
      rw [live_append, (ha.2 hst).2 hret, Bool.false_or, Bool.and_eq_false_iff]
      by_cases h : goesThrough a = true
      · exact .inr ((hb (hthrough h)).2 ⟨st, mem_cons_self, hret⟩)
      · exact .inl (eq_false_iff.mpr h)

theorem Decomposed.steady (h : Decomposed ls after) (hls : steady ls = true) :
    steady after = true := by
  induction h with
  | ret => rfl
  | abort => rfl
  | next hdec ih =>
    rw [steady_cons] at hls ⊢
    refine ⟨hls.1, fun hst => ⟨ih (hls.2 hst).1, fun hret => ?_⟩⟩
    rw [hdec.live (fun _ => rfl) (fun _ => rfl), (hls.2 hst).2 hret]

/-! ## What the substitution reaches -/

theorem goesThrough_replaced (hafter : breaksIn st = true → goesThrough after = false) :
    goesThrough (replacedStatement after st) = goesOn st := by
  cases st with
  | brk => exact hafter rfl
  | loop info body => exact and_true _
  | _ => rfl

mutual

theorem live_replaced {after : Block α δ} (hafter : goesThrough after = false) : ∀ ls : Block α δ,
    live false isContinue (replaced after ls) = (live false isContinue ls ||
      (breaks ls && live false isContinue after))
  | [] => rfl
  | st :: ls => by
    rw [replaced, live_append, goesThrough_replaced fun _ => hafter, liveIn_replaced hafter st, live_replaced hafter ls,
      live,
      breaks]
    grind

theorem liveIn_replaced {after : Block α δ} (hafter : goesThrough after = false) : ∀ st : Statement α δ,
    live false isContinue (replacedStatement after st) = (liveIn false isContinue st ||
      (breaksIn st && live false isContinue after))
  | .switch _ _ branches => by
    simp [replacedStatement, live, liveIn, breaksIn, liveInBlocks_replaced hafter branches]
  | .brk _ _ => by simp [replacedStatement, liveIn, breaksIn, isContinue]
  | .loop _ _ => by simp [replacedStatement, live, liveIn, breaksIn]
  | .ret _ | .basic _ _ | .abort _ _ | .unwindResume _ | .cont _ _ => rfl

theorem liveInBlocks_replaced {after : Block α δ} (hafter : goesThrough after = false) : ∀ bs : List (Block α δ),
    liveInBlocks false isContinue (replacedBlocks after bs) = (liveInBlocks false isContinue bs ||
      (breaksInBlocks bs && live false isContinue after))
  | [] => rfl
  | b :: bs => by
    rw [replacedBlocks, liveInBlocks, live_replaced hafter b, liveInBlocks_replaced hafter bs, liveInBlocks,
      breaksInBlocks]
    grind

end

theorem hasReturn_replaced (hst : goesOn st = true)
    (h : ∃ st' ∈ replacedStatement after st, hasReturn st' = true) : hasReturn st = true := by
  obtain ⟨st', hmem, hret⟩ := h
  cases st with
  | loop info body =>
    obtain rfl := mem_singleton.mp hmem
    exact hret
  | switch info data branches | basic info b =>
    obtain rfl := mem_singleton.mp hmem
    cases hret
  | _ => cases hst

mutual

theorem steady_replaced {after : Block α δ} (hafter : goesThrough after = false) : ∀ ls : Block α δ,
    steady ls = true → (breaks ls = true → steady after = true ∧ live false isContinue after = false) →
      steady (replaced after ls) = true
  | [], _, _ => rfl
  | st :: ls, h, hbrk => by
    rw [steady_cons] at h
    have hin := steadyIn_replaced hafter st h.1 fun hst => hbrk (by rw [breaks, hst, Bool.true_or])
    refine steady_append hin fun hst => ?_
    rw [goesThrough_replaced fun _ => hafter] at hst
    have hrest : breaks ls = true → steady after = true ∧ live false isContinue after = false :=
      fun hls => hbrk (by rw [breaks, hst, hls]; simp)
    refine ⟨steady_replaced hafter ls (h.2 hst).1 hrest, fun hret => ?_⟩
    rw [live_replaced hafter, (h.2 hst).2 (hasReturn_replaced hst hret), Bool.false_or, Bool.and_eq_false_iff]
    by_cases hls : breaks ls = true
    · exact .inr (hrest hls).2
    · exact .inl (eq_false_iff.mpr hls)

theorem steadyIn_replaced {after : Block α δ} (hafter : goesThrough after = false) : ∀ st : Statement α δ,
    steadyIn st = true → (breaksIn st = true → steady after = true ∧ live false isContinue after = false) →
      steady (replacedStatement after st) = true
  | .switch _ _ branches, h, hbrk =>
    steady_cons.mpr ⟨steadyBlocks_replaced hafter branches h hbrk, fun _ => ⟨rfl, fun hret => by cases hret⟩⟩
  | .brk _ _, _, hbrk => (hbrk rfl).1
  | .loop _ _, h, _ => steady_cons.mpr ⟨h, fun _ => ⟨rfl, fun _ => rfl⟩⟩
  | .ret _, _, _ | .basic _ _, _, _ | .abort _ _, _, _ | .unwindResume _, _, _ | .cont _ _, _, _ => rfl

theorem steadyBlocks_replaced {after : Block α δ} (hafter : goesThrough after = false) : ∀ bs : List (Block α δ),
    steadyBlocks bs = true →
      (breaksInBlocks bs = true → steady after = true ∧ live false isContinue after = false) →
      steadyBlocks (replacedBlocks after bs) = true
  | [], _, _ => rfl
  | b :: bs, h, hbrk => by
    obtain ⟨hb, hbs⟩ := and_eq_true_iff.mp h
    have hb' := steady_replaced hafter b hb fun hbrk' => hbrk (by rw [breaksInBlocks, hbrk', Bool.true_or])
    have hbs' := steadyBlocks_replaced hafter bs hbs fun hbrk' => hbrk (by rw [breaksInBlocks, hbrk', Bool.or_true])
    exact and_eq_true_iff.mpr ⟨hb', hbs'⟩

end

mutual

theorem far_replaced {after : Block α δ} : ∀ ls : Block α δ,
    (breaks ls = true → goesThrough after = false ∧ occurs false isFarBreak ls = false) →
    live true isFarJump (replaced after ls) = false →
      live true isFarJump ls = false ∧ (breaks ls = true → live true isFarJump after = false)
  | [], _, _ => ⟨rfl, fun h => by cases h⟩
  | st :: ls, hown, h => by
    have hown₁ : breaksIn st = true → goesThrough after = false ∧ occursIn false isFarBreak st = false := by
      intro hst
      have := hown (by rw [breaks, hst, Bool.true_or])
      exact ⟨this.1, (or_eq_false_iff.mp this.2).1⟩
    rw [replaced, live_append, goesThrough_replaced fun hst => (hown₁ hst).1, or_eq_false_iff] at h
    obtain ⟨hst, hbrk⟩ := farIn_replaced st hown₁ h.1
    rw [live, breaks, hst]
    by_cases hgo : goesOn st = true
    · have hown₂ : breaks ls = true → goesThrough after = false ∧ occurs false isFarBreak ls = false := by
        intro hls
        have := hown (by rw [breaks, hgo, hls]; simp)
        exact ⟨this.1, (or_eq_false_iff.mp this.2).2⟩
      have hls := h.2
      rw [hgo, Bool.true_and] at hls
      obtain ⟨hlive, hbrks⟩ := far_replaced ls hown₂ hls
      rw [hgo, hlive]
      refine ⟨rfl, fun hor => ?_⟩
      rcases or_eq_true_iff.mp hor with hin | hin
      · exact hbrk hin
      · exact hbrks hin
    · rw [eq_false_iff.mpr hgo]
      refine ⟨rfl, fun hor => hbrk ?_⟩
      simpa using hor

theorem farIn_replaced {after : Block α δ} : ∀ st : Statement α δ,
    (breaksIn st = true → goesThrough after = false ∧ occursIn false isFarBreak st = false) →
    live true isFarJump (replacedStatement after st) = false →
      liveIn true isFarJump st = false ∧ (breaksIn st = true → live true isFarJump after = false)
  | .switch _ _ branches, hown, h => farInBlocks_replaced branches hown (or_eq_false_iff.mp h).1
  | .brk _ _, hown, h => ⟨(hown rfl).2, fun _ => h⟩
  | .loop _ body, _, h | .cont _ _, _, h => ⟨(or_eq_false_iff.mp h).1, fun hbrk => by cases hbrk⟩
  | .ret _, _, _ | .basic _ _, _, _ | .abort _ _, _, _ | .unwindResume _, _, _ => ⟨rfl, fun hbrk => by cases hbrk⟩

theorem farInBlocks_replaced {after : Block α δ} : ∀ bs : List (Block α δ),
    (breaksInBlocks bs = true → goesThrough after = false ∧ occursInBlocks false isFarBreak bs = false) →
    liveInBlocks true isFarJump (replacedBlocks after bs) = false →
      liveInBlocks true isFarJump bs = false ∧
        (breaksInBlocks bs = true → live true isFarJump after = false)
  | [], _, _ => ⟨rfl, fun h => by cases h⟩
  | b :: bs, hown, h => by
    obtain ⟨h₁, h₂⟩ := or_eq_false_iff.mp h
    have hown₁ : breaks b = true → goesThrough after = false ∧ occurs false isFarBreak b = false := by
      intro hb
      have := hown (by rw [breaksInBlocks, hb, Bool.true_or])
      exact ⟨this.1, (or_eq_false_iff.mp this.2).1⟩
    have hown₂ : breaksInBlocks bs = true → goesThrough after = false ∧ occursInBlocks false isFarBreak bs = false := by
      intro hbs
      have := hown (by rw [breaksInBlocks, hbs, Bool.or_true])
      exact ⟨this.1, (or_eq_false_iff.mp this.2).2⟩
    obtain ⟨hb, hbrk₁⟩ := far_replaced b hown₁ h₁
    obtain ⟨hbs, hbrk₂⟩ := farInBlocks_replaced bs hown₂ h₂
    rw [liveInBlocks, breaksInBlocks, hb, hbs]
    refine ⟨rfl, fun hor => ?_⟩
    rcases or_eq_true_iff.mp hor with hin | hin
    · exact hbrk₁ hin
    · exact hbrk₂ hin

end

theorem replacedBlocks_eq_map (after : Block α δ) (bs : List (Block α δ)) :
    replacedBlocks after bs = bs.map (replaced after) := by
  induction bs with
  | nil => rfl
  | cons b bs ih => rw [replacedBlocks, ih, map_cons]

/-! ## The runs of the rewritten body -/

/-- What becomes of a run when its block is rewritten. The returns of the inner loops stay returns. -/
def Turns (I : Interp α δ S) (after : Block α δ) (ls : Block α δ) (s : S) : Outcome → S → Prop
  | .ret, t => Runs I ls s (.brk 0) t ∨ Runs I ls s .ret t
  | .brk _, t => ∀ o u, Runs I after t o u → o ≠ .normal → Runs I ls s o u
  | o, t => Runs I ls s o t

def Comes (I : Interp α δ S) (after : Block α δ) (ls : Block α δ) (s : S) (o : Outcome) (t : S) : Prop :=
  (Runs I ls s o t ∧ ∀ i, o ≠ .brk i) ∨ (o = .brk 0 ∧ Runs I ls s .ret t) ∨
    ∃ u, Runs I ls s (.brk 0) u ∧ Runs I after u o t

section
variable {I : Interp α δ S} {after : Block α δ}

variable {ls' : Block α δ} {s t : S} {o : Outcome}

theorem Turns.imp {ls : Block α δ} {s' : S} (h : Turns I after ls s o t)
    (hruns : ∀ o' u, (o' = .normal → o = .normal) → Runs I ls s o' u → Runs I ls' s' o' u) :
    Turns I after ls' s' o t := by
  cases o with
  | ret =>
    rcases h with h | h
    · exact .inl (hruns _ _ (by simp) h)
    · exact .inr (hruns _ _ (by simp) h)
  | brk i => exact fun o' u ha hne => hruns _ _ (fun hn => absurd hn hne) (h o' u ha hne)
  | normal => exact hruns _ _ (fun _ => rfl) h
  | panic | cont i => exact hruns _ _ (by simp) h

theorem Comes.imp {ls : Block α δ} {s' : S} (h : Comes I after ls s o t)
    (hruns : ∀ o' u, (o' = .normal → o = .normal) → Runs I ls s o' u → Runs I ls' s' o' u) :
    Comes I after ls' s' o t := by
  rcases h with ⟨h, hne⟩ | ⟨ho, h⟩ | ⟨u, h, ha⟩
  · exact .inl ⟨hruns _ _ id h, hne⟩
  · exact .inr (.inl ⟨ho, hruns _ _ (by simp) h⟩)
  · exact .inr (.inr ⟨u, hruns _ _ (by simp) h, ha⟩)

variable {st : Statement α δ}

theorem live_singleton (h : liveIn true isFarJump st = false) :
    live true isFarJump [st] = false := by
  rw [live, h, live, Bool.and_false, Bool.or_false]

theorem ne_brk_of_runs (hI : I.Plain) (h : Runs I [st] s o t)
    (hfar : liveIn true isFarJump st = false) (hst : breaksIn st = false) (i : Nat) : o ≠ .brk i := by
  intro ho
  rw [ho] at h
  have hbrk := (runs_reaches hI h (live_singleton hfar)).2
  rw [breaks, hst, breaks, Bool.and_false] at hbrk
  cases hbrk

mutual

theorem turns_block (hI : I.Plain) : ∀ (ls : Block α δ), live true isFarJump ls = false → ∀ {s o t}, Runs I ls s o t →
    Turns I after (replaced after ls) s o t
  | [], _, s, o, t, h => by
    obtain ⟨rfl, rfl⟩ := runs_nil.mp h
    exact .nil
  | st :: ls, hfar, s, o, t, h => by
    obtain ⟨hst, hls⟩ := or_eq_false_iff.mp hfar
    have hfar₁ := live_singleton hst
    rw [replaced]
    rcases runs_cons_iff.mp h with ⟨u, h₁, h₂⟩ | ⟨hne, h₁⟩
    · have hgo : goesOn st = true := (and_eq_true_iff.mp (runs_reaches hI h₁ hfar₁)).1
      rw [hgo, Bool.true_and] at hls
      have hrun : Runs I (replacedStatement after st) s .normal u := turns_statement hI st hst h₁
      exact (turns_block hI ls hls h₂).imp fun _ _ _ h => hrun.append h
    · exact (turns_statement hI st hst h₁).imp fun o' _ ho h => h.append_stop _ fun hn => hne (ho hn)

theorem turns_statement (hI : I.Plain) : ∀ (st : Statement α δ), liveIn true isFarJump st = false →
    ∀ {s o t}, Runs I [st] s o t → Turns I after (replacedStatement after st) s o t
  | .switch info data branches, hfar, s, o, t, h => by
    obtain ⟨n, u, b, hbr, hget, hb⟩ := runs_switch_iff.mp h
    have hget' : (replacedBlocks after branches)[n]? = some (replaced after b) := by
      rw [replacedBlocks_eq_map, getElem?_map, hget]
      rfl
    refine (turns_blocks hI branches hfar (mem_of_getElem? hget) hb).imp fun o' v _ h => ?_
    exact runs_switch_iff.mpr ⟨n, u, _, hbr, hget', h⟩
  | .brk _ _, _, s, o, t, h => by
    cases h
    exact fun _ _ h _ => h
  | .ret _, _, s, o, t, h => by
    cases h
    exact .inl .brk
  | .loop info body, hfar, s, o, t, h => by
    cases o with
    | ret => exact .inr h
    | brk i => exact absurd rfl (ne_brk_of_runs hI h hfar rfl i)
    | _ => exact h
  | .basic _ b, _, s, o, t, h => by
    cases h with
    | basicNext hstep hrest =>
      obtain ⟨rfl, rfl⟩ := runs_nil.mp hrest
      exact .basicNext hstep .nil
    | basicStop hstep hne =>
      rcases hI b s with hn | hp
      · rw [hstep] at hn
        exact absurd hn hne
      · rw [hstep] at hp
        cases hp
        exact .basicStop hstep hne
  | .abort _ _, _, s, o, t, h => by
    cases h
    exact .abort
  | .unwindResume _, _, s, o, t, h => by
    cases h
    exact .unwindResume
  | .cont _ _, _, s, o, t, h => by
    cases h
    exact .cont

theorem turns_blocks (hI : I.Plain) : ∀ (bs : List (Block α δ)), liveInBlocks true isFarJump bs = false →
    ∀ {b}, b ∈ bs → ∀ {s o t}, Runs I b s o t → Turns I after (replaced after b) s o t
  | b :: bs, hfar, b', hb, s, o, t, h => by
    obtain ⟨hfar₁, hfar₂⟩ := or_eq_false_iff.mp hfar
    by_cases hbb : b = b'
    · subst hbb
      exact turns_block hI b hfar₁ h
    · exact turns_blocks hI bs hfar₂ ((mem_cons.mp hb).resolve_left fun he => hbb he.symm) h

end

mutual

theorem comes_block (hI : I.Plain) : ∀ (ls : Block α δ), live true isFarJump ls = false →
    (breaks ls = true → ∀ s t, ¬ Runs I after s .normal t) → ∀ {s o t}, Runs I (replaced after ls) s o t →
    Comes I after ls s o t
  | [], _, _, s, o, t, h => by
    obtain ⟨rfl, rfl⟩ := runs_nil.mp h
    exact .inl ⟨.nil, by simp⟩
  | st :: ls, hfar, hstops, s, o, t, h => by
    obtain ⟨hst, hls⟩ := or_eq_false_iff.mp hfar
    have hfar₁ := live_singleton hst
    have hstops₁ : breaksIn st = true → ∀ s t, ¬ Runs I after s .normal t :=
      fun hbrk => hstops (by rw [breaks, hbrk, Bool.true_or])
    rw [replaced] at h
    rcases runs_append_iff.mp h with ⟨u, h₁, h₂⟩ | ⟨hne, h₁⟩
    · rcases comes_statement hI st hst hstops₁ h₁ with ⟨hrun, _⟩ | ⟨hn, _⟩ | ⟨v, hrun, hafter⟩
      · have hgo : goesOn st = true := (and_eq_true_iff.mp (runs_reaches hI hrun hfar₁)).1
        rw [hgo, Bool.true_and] at hls
        refine (comes_block hI ls hls (fun hbrk => hstops (by rw [breaks, hgo, hbrk]; simp)) h₂).imp fun _ _ _ h => ?_
        exact runs_cons_iff.mpr (.inl ⟨u, hrun, h⟩)
      · cases hn
      · -- the moved code never falls through
        have hbrk : breaksIn st = true := by simpa [breaks] using (runs_reaches hI hrun hfar₁).2
        exact absurd hafter (hstops₁ hbrk v u)
    · refine (comes_statement hI st hst hstops₁ h₁).imp fun o' _ ho h => ?_
      exact runs_cons_iff.mpr (.inr ⟨fun hn => hne (ho hn), h⟩)

theorem comes_statement (hI : I.Plain) : ∀ (st : Statement α δ), liveIn true isFarJump st = false →
    (breaksIn st = true → ∀ s t, ¬ Runs I after s .normal t) → ∀ {s o t}, Runs I (replacedStatement after st) s o t →
    Comes I after [st] s o t
  | .switch info data branches, hfar, hstops, s, o, t, h => by
    obtain ⟨n, u, b', hbr, hget', hb'⟩ := runs_switch_iff.mp h
    obtain ⟨b, hget, rfl⟩ : ∃ b, branches[n]? = some b ∧ replaced after b = b' := by
      rw [replacedBlocks_eq_map, getElem?_map, Option.map_eq_some_iff] at hget'
      exact hget'
    refine (comes_blocks hI branches hfar hstops (mem_of_getElem? hget) hb').imp fun o' v _ h => ?_
    exact runs_switch_iff.mpr ⟨n, u, b, hbr, hget, h⟩
  | .brk _ i, hfar, _, s, o, t, h => by
    obtain rfl : i = 0 := by simpa [liveIn, isFarJump] using hfar
    exact .inr (.inr ⟨s, .brk, h⟩)
  | .ret _, _, _, s, o, t, h => by
    cases h
    exact .inr (.inl ⟨rfl, .ret⟩)
  | .loop info body, hfar, _, s, o, t, h | .basic _ b, hfar, _, s, o, t, h => .inl ⟨h, ne_brk_of_runs hI h hfar rfl⟩
  | .abort _ _, _, _, s, o, t, h => by
    cases h
    exact .inl ⟨.abort, by simp⟩
  | .unwindResume _, _, _, s, o, t, h => by
    cases h
    exact .inl ⟨.unwindResume, by simp⟩
  | .cont _ _, _, _, s, o, t, h => by
    cases h
    exact .inl ⟨.cont, by simp⟩

theorem comes_blocks (hI : I.Plain) : ∀ (bs : List (Block α δ)), liveInBlocks true isFarJump bs = false →
    (breaksInBlocks bs = true → ∀ s t, ¬ Runs I after s .normal t) → ∀ {b}, b ∈ bs →
    ∀ {s o t}, Runs I (replaced after b) s o t → Comes I after b s o t
  | b :: bs, hfar, hstops, b', hb, s, o, t, h => by
    obtain ⟨hfar₁, hfar₂⟩ := or_eq_false_iff.mp hfar
    by_cases hbb : b = b'
    · subst hbb
      exact comes_block hI b hfar₁ (fun hbrk => hstops (by rw [breaksInBlocks, hbrk, Bool.true_or])) h
    · exact comes_blocks hI bs hfar₂ (fun hbrk => hstops (by rw [breaksInBlocks, hbrk, Bool.or_true]))
        ((mem_cons.mp hb).resolve_left fun he => hbb he.symm) h

end

/-! ## The rewritten loop -/

def Ends (o o' : Outcome) : Prop := o = o' ∨ (o = .ret ∨ o = .brk 0) ∧ (o' = .ret ∨ o' = .brk 0)

theorem Ends.eq {o' : Outcome} (h : Ends o o') (ho : o ≠ .brk 0) (ho' : o' ≠ .brk 0) : o = o' := by
  rcases h with rfl | ⟨hret, hret'⟩
  · rfl
  · rw [hret.resolve_right ho, hret'.resolve_right ho']

theorem goesOn_ends : GoesOn Ends where
  normal := .inl rfl
  iff h := by
    rcases h with rfl | ⟨rfl | rfl, rfl | rfl⟩
    · exact Iff.rfl
    all_goals simp

theorem Exits.ends {o' : Outcome} (h : Exits o o') (ho' : o' = .ret ∨ o' = .brk 0) : o = .ret ∨ o = .brk 0 := by
  rcases h with rfl | ⟨rfl, _⟩
  · exact ho'
  · exact .inl rfl

structure Handed (I : Interp α δ S) (ls after : Block α δ) : Prop where
  forth : Sim I Exits ls after
  back : Sim I (fun o o' => Exits o' o) after ls
  outcome : ∀ {s o t}, Runs I after s o t → o = .ret ∨ o = .panic ∨ o = .brk 0

theorem Outcome.again_cases (h : o.again = true) : o = .normal ∨ o = .cont 0 := by
  unfold Outcome.again at h
  split at h
  · exact .inl rfl
  · exact .inr rfl
  · cases h

variable {info returnInfo : Info} {body ls rest : Block α δ}

theorem runs_loop_ret (h : Runs I body s o t) (ho : o = .ret ∨ o = .brk 0) :
    Runs I (.loop info body :: .ret returnInfo :: rest) s .ret t := by
  rcases ho with rfl | rfl
  · exact .loopLeave h rfl
  · exact .loopBreak h .ret

theorem sim_rewritten (hI : I.Plain) (hfar : live true isFarJump body = false)
    (hand : breaks body = true → Handed I ls after) :
    Sim I Ends (.loop info body :: ls) (.loop info (replaced after body) :: .ret returnInfo :: rest) := by
  intro s o u h
  generalize hl : Statement.loop info body :: ls = l at h
  induction h with
  | @loopAgain _ _ _ _ o _ _ _ hbody hagain _ _ ih =>
    cases hl
    obtain ⟨o', ho', hrun⟩ := ih rfl
    have hturns : Turns I after _ _ _ _ := turns_block hI body hfar hbody
    rcases Outcome.again_cases hagain with rfl | rfl
    · exact ⟨o', ho', .loopAgain hturns rfl hrun⟩
    · exact ⟨o', ho', .loopAgain hturns rfl hrun⟩
  | loopBreak hbody hrest _ _ =>
    cases hl
    have hmoved := hand (runs_reaches hI hbody hfar).2
    obtain ⟨o', ho', hafter⟩ := hmoved.forth _ _ _ hrest
    have hturns : Turns I after _ _ _ _ := turns_block hI body hfar hbody
    have hturns := hturns _ _ hafter
    rcases hmoved.outcome hafter with rfl | rfl | rfl
    · exact ⟨.ret, .inr ⟨ho'.ends (.inl rfl), .inl rfl⟩, runs_loop_ret (hturns (by simp)) (.inl rfl)⟩
    · refine ⟨.panic, ?_, .loopLeave (hturns (by simp)) rfl⟩
      rcases ho' with rfl | ⟨_, hp⟩
      · exact .inl rfl
      · cases hp
    · exact ⟨.ret, .inr ⟨ho'.ends (.inr rfl), .inl rfl⟩, runs_loop_ret (hturns (by simp)) (.inr rfl)⟩
  | loopLeave hbody hleave _ =>
    cases hl
    have hturns : Turns I after _ _ _ _ := turns_block hI body hfar hbody
    rcases (runs_reaches hI hbody hfar).leave hleave with ⟨rfl, rfl⟩ | ⟨rfl, rfl⟩
    · rcases hturns with hbrk | hret
      · exact ⟨.ret, .inl rfl, runs_loop_ret hbrk (.inr rfl)⟩
      · exact ⟨.ret, .inl rfl, runs_loop_ret hret (.inl rfl)⟩
    · exact ⟨.panic, .inl rfl, .loopLeave hturns rfl⟩
  | _ => cases hl

theorem sim_rewritten_back (hI : I.Plain) (hfar : live true isFarJump body = false)
    (hand : breaks body = true → Handed I ls after) :
    Sim I Ends (.loop info (replaced after body) :: .ret returnInfo :: rest) (.loop info body :: ls) := by
  have hcomes : ∀ {s o t}, Runs I (replaced after body) s o t → Comes I after body s o t := by
    refine comes_block hI body hfar fun hbrk s t h => ?_
    rcases (hand hbrk).outcome h with hn | hn | hn
    all_goals cases hn
  -- a break is only taken by a loop whose code after it was moved
  have hbreaks : ∀ {s t}, Runs I body s (.brk 0) t → Handed I ls after :=
    fun h => hand (runs_reaches hI h hfar).2
  intro s o u h
  generalize hl : Statement.loop info (replaced after body) :: .ret returnInfo :: rest = l at h
  induction h with
  | loopAgain hbody hagain _ _ ih =>
    cases hl
    obtain ⟨o', ho', hrun⟩ := ih rfl
    rcases hcomes hbody with ⟨h, _⟩ | ⟨rfl, _⟩ | ⟨v, hbrk, hafter⟩
    · exact ⟨o', ho', .loopAgain h hagain hrun⟩
    · cases hagain
    · rcases (hbreaks hbrk).outcome hafter with rfl | rfl | rfl
      all_goals cases hagain
  | loopBreak hbody hrest _ _ =>
    cases hl
    cases hrest
    rcases hcomes hbody with ⟨_, hne⟩ | ⟨_, hret⟩ | ⟨v, hbrk, hafter⟩
    · exact absurd rfl (hne 0)
    · exact ⟨.ret, .inl rfl, .loopLeave hret rfl⟩
    · obtain ⟨o', ho', hls⟩ := (hbreaks hbrk).back _ _ _ hafter
      exact ⟨o', .inr ⟨.inl rfl, ho'.ends (.inr rfl)⟩, .loopBreak hbrk hls⟩
  | loopLeave hbody hleave _ =>
    cases hl
    rcases hcomes hbody with ⟨h, _⟩ | ⟨rfl, _⟩ | ⟨v, hbrk, hafter⟩
    · exact ⟨_, .inl rfl, .loopLeave h hleave⟩
    · cases hleave
    · obtain ⟨o', ho', hls⟩ := (hbreaks hbrk).back _ _ _ hafter
      refine ⟨o', ?_, .loopBreak hbrk hls⟩
      rcases (hbreaks hbrk).outcome hafter with rfl | rfl | rfl
      · cases hleave
        exact .inr ⟨.inl rfl, ho'.ends (.inl rfl)⟩
      · cases hleave
        rcases ho' with rfl | ⟨_, hp⟩
        · exact .inl rfl
        · cases hp
      · cases hleave
  | _ => cases hl

theorem sim_revisited {body' : Block α δ} (h : Sim I Ends body body') :
    Sim I Eq (.loop info body :: .ret returnInfo :: rest) (.loop info body' :: .ret returnInfo :: rest) := by
  intro s o u hrun
  refine ⟨o, rfl, ?_⟩
  generalize hl : Statement.loop info body :: .ret returnInfo :: rest = l at hrun
  induction hrun with
  | loopAgain hbody hagain _ _ ih =>
    cases hl
    obtain ⟨o', ho', hbody'⟩ := h _ _ _ hbody
    rcases ho' with rfl | ⟨rfl | rfl, _⟩
    · exact .loopAgain hbody' hagain (ih rfl)
    · cases hagain
    · cases hagain
  | loopBreak hbody hrest _ _ =>
    cases hl
    cases hrest
    obtain ⟨o', ho', hbody'⟩ := h _ _ _ hbody
    rcases ho' with rfl | ⟨_, ho'⟩
    · exact runs_loop_ret hbody' (.inr rfl)
    · exact runs_loop_ret hbody' ho'
  | loopLeave hbody hleave _ =>
    cases hl
    obtain ⟨o', ho', hbody'⟩ := h _ _ _ hbody
    rcases ho' with rfl | ⟨rfl | rfl, ho'⟩
    · exact .loopLeave hbody' hleave
    · cases hleave
      exact runs_loop_ret hbody' ho'
    · cases hleave
  | _ => cases hl

variable {R : Outcome → Outcome → Prop}

theorem sim_trans_eq {a b c : Block α δ} (hab : Sim I R a b) (hbc : Sim I Eq b c) :
    Sim I R a c := by
  intro s o t h
  obtain ⟨o', ho', hb⟩ := hab _ _ _ h
  obtain ⟨_, rfl, hc⟩ := hbc _ _ _ hb
  exact ⟨o', ho', hc⟩

theorem sim_eq_trans {a b c : Block α δ} (hab : Sim I Eq a b) (hbc : Sim I R b c) :
    Sim I R a c := by
  intro s o t h
  obtain ⟨_, rfl, hb⟩ := hab _ _ _ h
  exact hbc _ _ _ hb

theorem sim_cons_same (hI : I.Plain) (hfar : liveIn true isFarJump st = false)
    {ls : Block α δ} (h : goesOn st = true → Sim I Ends ls ls') : Sim I Ends (st :: ls) (st :: ls') := by
  intro s o u hrun
  rcases runs_cons_iff.mp hrun with ⟨t, hst, hls⟩ | ⟨hne, hst⟩
  · have hgo : goesOn st = true := (and_eq_true_iff.mp (runs_reaches hI hst (live_singleton hfar))).1
    obtain ⟨o', ho', hls'⟩ := h hgo _ _ _ hls
    exact ⟨o', ho', runs_cons_iff.mpr (.inl ⟨t, hst, hls'⟩)⟩
  · exact ⟨o, .inl rfl, runs_cons_iff.mpr (.inr ⟨hne, hst⟩)⟩

end

/-! ## The visitor -/

theorem breaks_of_noBreaks {body : Block α δ} (h : blockHasNoBreaks body = true) : breaks body = false := by
  have hocc : occurs true isBreak body = false := by simpa [blockHasNoBreaks] using h
  exact breaks_of_occurs body hocc

variable {ls' : Block α δ}

theorem Visited.far (h : Visited ls ls') : live true isFarJump ls = false := by
  induction h with
  | nil => rfl
  | @leaf st _ _ _ hscan _ ih =>
    have hst := scanStatement_scanned 0 st
    rw [hscan] at hst
    rw [live, liveIn_of_occurs st hst.2, ih, Bool.and_false, Bool.or_false]
  | @switch info data bs bs' ls ls' hlen _ _ ihbs ih =>
    have hbs : liveInBlocks true isFarJump bs = false := by
      refine liveInBlocks_eq_false.mpr fun b hb => ?_
      obtain ⟨i, rfl⟩ := mem_iff_get.mp hb
      exact ihbs i i.isLt (hlen ▸ i.isLt)
    rw [live, liveIn, hbs, ih, Bool.and_false, Bool.or_false]
  | loop hscan _ ih =>
    rw [live, liveIn, live_of_occurs _ (scan_ok hscan).2, ih, Bool.and_false, Bool.and_false, Bool.or_false]
  | @moved info body returnSt ls ls' hscan hbrk hloops hscan' _ ih =>
    have hnone := breaks_of_noBreaks hbrk
    have hbody := (far_replaced body (fun h => by rw [hnone] at h; cases h) (live_of_occurs _ (scan_ok hscan').2)).1
    rw [live, liveIn, hbody, ih, Bool.and_false, Bool.and_false, Bool.or_false]
  | @inlined info body body' returnSt ls after hscan hbrk hafter hrep hown hbody ih =>
    have hdec := decomposed_of_ok hafter
    obtain ⟨hfar, hmoved⟩ := far_replaced body (fun _ => ⟨hdec.stops, hown⟩) ih
    rw [live, liveIn, hfar, Bool.and_false, Bool.false_or, goesOn, Bool.and_eq_false_iff]
    by_cases h : breaks body = true
    · right
      rw [← hdec.live (fun _ => rfl) (fun _ => rfl)]
      exact hmoved h
    · exact .inl (eq_false_iff.mpr h)

theorem Visited.sim {I : Interp α δ S} (hI : I.Plain) (h : Visited ls ls')
    (hsteady : steady ls = true) : Sim I Ends ls ls' ∧ Sim I Ends ls' ls := by
  induction h with
  | nil => exact ⟨sim_refl (fun _ => .inl rfl) [], sim_refl (fun _ => .inl rfl) []⟩
  | @leaf st ls ls' hleaf hscan _ ih =>
    have hfar : liveIn true isFarJump st = false := by
      have hst := scanStatement_scanned 0 st
      rw [hscan] at hst
      exact liveIn_of_occurs st hst.2
    have hrest := fun hgo => ih ((steady_cons.mp hsteady).2 hgo).1
    exact ⟨sim_cons_same hI hfar fun hgo => (hrest hgo).1, sim_cons_same hI hfar fun hgo => (hrest hgo).2⟩
  | @switch info data bs bs' ls ls' hlen _ _ ihbs ih =>
    obtain ⟨hbs, hls⟩ := steady_cons.mp hsteady
    obtain ⟨hto, hback⟩ := ih (hls rfl).1
    have hbranch := fun i hi hi' => ihbs i hi hi' (steadyBlocks_mem hbs (get_mem bs ⟨i, hi⟩))
    have hforth : List.Forall₂ (Sim I Ends) bs bs' :=
      forall₂_iff_get.mpr ⟨hlen, fun i hi hi' => (hbranch i hi hi').1⟩
    have hrev : List.Forall₂ (Sim I Ends) bs' bs :=
      forall₂_iff_get.mpr ⟨hlen.symm, fun i hi' hi => (hbranch i hi hi').2⟩
    exact ⟨Sim.cons goesOn_ends (Sim.switch hforth) hto, Sim.cons goesOn_ends (Sim.switch hrev) hback⟩
  | @loop info body ls ls' hscan _ ih =>
    have hfar : liveIn true isFarJump (.loop info body) = false := live_of_occurs body (scan_ok hscan).2
    have hrest := fun hgo => ih ((steady_cons.mp hsteady).2 hgo).1
    exact ⟨sim_cons_same hI hfar fun hgo => (hrest hgo).1, sim_cons_same hI hfar fun hgo => (hrest hgo).2⟩
  | @moved info body returnSt ls ls' hscan hbrk hloops hscan' _ ih =>
    have hnone := breaks_of_noBreaks hbrk
    have hbody := (far_replaced body (fun h => by rw [hnone] at h; cases h) (live_of_occurs _ (scan_ok hscan').2)).1
    have hand : breaks body = true → Handed I ls [] := fun h => by rw [hnone] at h; cases h
    exact ⟨sim_rewritten hI hbody hand, sim_rewritten_back hI hbody hand⟩
  | @inlined info body body' returnSt ls after hscan hbrk hafter hrep hown hbody ih =>
    obtain ⟨_, ⟨returnInfo, rfl⟩, hret⟩ := scan_found hscan
    have hdec := decomposed_of_ok hafter
    obtain ⟨hbodySteady, hls⟩ := steady_cons.mp hsteady
    obtain ⟨hfar, hmoved⟩ := far_replaced body (fun _ => ⟨hdec.stops, hown⟩) hbody.far
    -- no continue is moved
    have hcont : breaks body = true → live false isContinue after = false := fun h => by
      rw [hdec.live (fun _ => rfl) (fun _ => rfl)]
      exact (hls h).2 (hret rfl)
    have hand : breaks body = true → Handed I ls after := by
      intro h
      refine ⟨(hdec.sim I).1, (hdec.sim I).2, fun {s o t} hrun => ?_⟩
      have hreach := runs_reaches hI hrun (hmoved h)
      cases o with
      | normal =>
        have hthrough : goesThrough after = true := hreach
        rw [hdec.stops] at hthrough
        cases hthrough
      | ret => exact .inl rfl
      | panic => exact .inr (.inl rfl)
      | brk i =>
        obtain ⟨rfl, _⟩ := hreach
        exact .inr (.inr rfl)
      | cont i =>
        have hlive := hreach.2
        rw [hcont h] at hlive
        cases hlive
    have hbody' := ih (steady_replaced hdec.stops body hbodySteady fun h => ⟨hdec.steady (hls h).1, hcont h⟩)
    exact ⟨sim_trans_eq (sim_rewritten hI hfar hand) (sim_revisited hbody'.1),
      sim_eq_trans (sim_revisited hbody'.2) (sim_rewritten_back hI hfar hand)⟩

theorem Visited.occurs_break (h : Visited ls ls') (hbrk : occurs false isBreak ls = false) :
    occurs false isBreak ls' = false := by
  induction h with
  | nil => rfl
  | leaf _ _ _ ih =>
    obtain ⟨hst, hls⟩ := or_eq_false_iff.mp hbrk
    rw [occurs, hst, ih hls, Bool.or_false]
  | @switch info data bs bs' ls ls' hlen _ _ ihbs ih =>
    obtain ⟨hbs, hls⟩ := or_eq_false_iff.mp hbrk
    have hbs' : occursInBlocks false isBreak bs' = false := by
      refine occursInBlocks_eq_false.mpr fun b hb => ?_
      obtain ⟨i, rfl⟩ := mem_iff_get.mp hb
      have hi : (i : Nat) < bs.length := by rw [hlen]; exact i.isLt
      exact ihbs i hi i.isLt (occursInBlocks_eq_false.mp hbs _ (get_mem bs ⟨i, hi⟩))
    rw [occurs, occursIn, hbs', ih hls, Bool.or_false]
  | loop _ _ ih | moved _ _ _ _ _ ih => exact ih hbrk
  | inlined hscan =>
    obtain ⟨_, ⟨info, rfl⟩, _⟩ := scan_found hscan
    rfl

/-- The updated body of a function, whose breaks are in loops, has the runs of
the body, if no continue follows a loop that is rewritten. -/
theorem updateLoops_same {I : Interp α δ S} (hI : I.Plain) {n : Nat} {body body' : Block α δ}
    (h : updateLoops n (.structuredBody body) = .ok (.structuredBody body'))
    (hscoped : occurs false isBreak body = false) (hsteady : steady body = true) : Same I body body' := by
  have hvisited := visited_of_ok (updateLoops_ok h)
  obtain ⟨hforth, hback⟩ := hvisited.sim hI hsteady
  have hne : ∀ {s o t}, Runs I body s o t → o ≠ .brk 0 := by
    intro s o t hrun ho
    rw [ho] at hrun
    have hbrk := (runs_reaches hI hrun hvisited.far).2
    rw [breaks_of_occurs body hscoped] at hbrk
    cases hbrk
  have hne' : ∀ {s o t}, Runs I body' s o t → o ≠ .brk 0 := by
    intro s o t hrun ho
    rw [ho] at hrun
    have hbrk := (runs_reaches hI hrun (live_of_occurs body' hvisited.shape.1)).2
    rw [breaks_of_occurs body' (hvisited.occurs_break hscoped)] at hbrk
    cases hbrk
  intro s o t
  constructor
  · intro hrun
    obtain ⟨o', ho', hrun'⟩ := hforth _ _ _ hrun
    obtain rfl := ho'.eq (hne hrun) (hne' hrun')
    exact hrun'
  · intro hrun'
    obtain ⟨o', ho', hrun⟩ := hback _ _ _ hrun'
    obtain rfl := ho'.eq (hne' hrun') (hne hrun)
    exact hrun

/-- The state is a script, from which the branches are read. -/
def scripted : Interp Unit Nat (List Nat) where
  basic _ s := (.normal, s)
  branch _ s := (s.headD 0, s.tail)

theorem scripted_plain : scripted.Plain := fun _ _ => .inl rfl

/-- `loop { if _ { exit } else { loop { if _ { continue } else { break } }; continue } }; return`, where the
loop is left with `exit`. -/
def nestedLoop (exit : Statement Unit Nat) : Block Unit Nat :=
  let info : Info := ⟨0, 0, []⟩
  let inner : Block Unit Nat := [.switch info 1 [[.cont info 0], [.brk info 0]]]
  [.loop info [.switch info 0 [[exit], [.loop info inner, .cont info 0]]], .ret info]

theorem updateLoops_same_nestedLoop : Same scripted (nestedLoop (.ret ⟨0, 0, []⟩)) (nestedLoop (.brk ⟨0, 0, []⟩ 0)) :=
  updateLoops_same (n := 20) scripted_plain rfl rfl rfl

/-- `loop { if _ { return } else {}; loop { if _ { return } else { break } }; if _ { continue } else {}; panic
}; return` -/
def movedContinue : Block Unit Nat :=
  let info : Info := ⟨0, 0, []⟩
  [.loop info [.switch info 0 [[.ret info], []], .loop info [.switch info 1 [[.ret info], [.brk info 0]]],
    .switch info 2 [[.cont info 0], []], .abort info ()], .ret info]

/-- The continue of the outer loop becomes one of the inner loop, where the next choice is another one. -/
theorem updateLoops_not_same : ∃ body', updateLoops 30 (.structuredBody movedContinue) = .ok (.structuredBody body') ∧
    occurs false isBreak movedContinue = false ∧ scripted.Plain ∧ ¬ Same scripted movedContinue body' := by
  let info : Info := ⟨0, 0, []⟩
  let inner : Block Unit Nat :=
    [.switch info 1 [[.brk info 0], [.switch info 2 [[.cont info 0], []], .abort info ()]]]
  let body' : Block Unit Nat :=
    [.loop info [.switch info 0 [[.brk info 0], []], .loop info inner, .ret info], .ret info]
  refine ⟨body', rfl, rfl, scripted_plain, fun h => ?_⟩
  let outer : Block Unit Nat :=
    [.switch info 0 [[.ret info], []], .loop info [.switch info 1 [[.ret info], [.brk info 0]]],
      .switch info 2 [[.cont info 0], []], .abort info ()]
  have hround : ∀ s, Runs scripted outer (1 :: 1 :: 0 :: s) (.cont 0) s := fun s =>
    .switchNext rfl rfl .nil
      (.loopBreak (.switchStop rfl rfl .brk (by simp)) (.switchStop rfl rfl .cont (by simp)))
  have hlast : Runs scripted outer [0] .ret [] := .switchStop rfl rfl .ret (by simp)
  have hret : Runs scripted movedContinue [1, 1, 0, 1, 1, 0, 0] .ret [] :=
    .loopAgain (hround _) rfl (.loopAgain (hround _) rfl (.loopLeave hlast rfl))
  have hcont : Runs scripted inner [1, 0, 1, 1, 0, 0] (.cont 0) [1, 1, 0, 0] :=
    .switchStop rfl rfl (.switchStop rfl rfl .cont (by simp)) (by simp)
  have habort : Runs scripted inner [1, 1, 0, 0] .panic [0, 0] :=
    .switchStop rfl rfl (.switchNext rfl rfl .nil .abort) (by simp)
  have hbody : Runs scripted [.switch info 0 [[.brk info 0], []], .loop info inner, .ret info]
      [1, 1, 0, 1, 1, 0, 0] .panic [0, 0] :=
    .switchNext rfl rfl .nil (.loopAgain hcont rfl (.loopLeave habort rfl))
  have hpanic : Runs scripted body' [1, 1, 0, 1, 1, 0, 0] .panic [0, 0] := .loopLeave hbody rfl
  cases (((h _ _ _).mp hret).det hpanic).1

end Aeneas.UpdateLoops
