import Aeneas.Result
import Mathlib.Logic.Relation
import Mathlib.Order.OmegaCompletePartialOrder

/-!
# Loops in the Isabelle prelude

A loop is the least fixed point of its unfolding, in the flat order whose bottom
element is divergence. The order is complete and the unfolding is continuous, so
the least fixed point exists; it is the outcome of the chain of the states through
which the loop continues.
-/

namespace Aeneas

/-! ## The flat order -/

namespace Result
variable {α β : Type}

instance : PartialOrder (Result α) where
  le x y := x = .diverge ∨ x = y
  le_refl x := .inr rfl
  le_trans x y z hxy hyz := by
    rcases hxy with rfl | rfl
    · exact .inl rfl
    · exact hyz
  le_antisymm x y hxy hyx := by
    rcases hxy with rfl | rfl
    · rcases hyx with rfl | rfl <;> rfl
    · rfl

instance : OrderBot (Result α) where
  bot := .diverge
  bot_le _ := .inl rfl

theorem eq_of_le {x y : Result α} (h : x ≤ y) (hx : x ≠ .diverge) : x = y := h.resolve_left hx

open OmegaCompletePartialOrder

theorem chain_eq (c : Chain (Result α)) {m n : Nat} (hm : c m ≠ .diverge) (hn : c n ≠ .diverge) : c m = c n := by
  rcases Nat.le_total m n with h | h
  · exact eq_of_le (c.monotone h) hm
  · exact (eq_of_le (c.monotone h) hn).symm

open Classical in
noncomputable instance : OmegaCompletePartialOrder (Result α) where
  ωSup c := if h : ∃ n, c n ≠ .diverge then c h.choose else .diverge
  le_ωSup c n := by
    by_cases hn : c n = .diverge
    · exact .inl hn
    · have h : ∃ n, c n ≠ .diverge := ⟨n, hn⟩
      rw [dif_pos h]
      exact .inr (chain_eq c hn h.choose_spec)
  ωSup_le c x hx := by
    split
    · exact hx _
    · exact .inl rfl

end Result

end Aeneas

namespace Aeneas.Isabelle
variable {σ β : Type}

open OmegaCompletePartialOrder

inductive ControlFlow (σ β : Type) where
  | loopContinue (next : σ)
  | loopBreak (value : β)

def loopStep (body : σ → Result (ControlFlow σ β)) (loop : σ → Result β) (state : σ) : Result β :=
  body state >>= fun r =>
    match r with
    | .loopContinue next => loop next
    | .loopBreak value => .ok value

section
variable {body : σ → Result (ControlFlow σ β)} {loop : σ → Result β} {s t : σ}

theorem loopStep_continue (h : body s = .ok (.loopContinue t)) : loopStep body loop s = loop t := by
  simp [loopStep, h]

theorem loopStep_break {v : β} (h : body s = .ok (.loopBreak v)) : loopStep body loop s = .ok v := by
  simp [loopStep, h]

theorem loopStep_fail {e : Error} (h : body s = .fail e) : loopStep body loop s = .fail e := by
  simp [loopStep, h]

theorem loopStep_diverge (h : body s = .diverge) : loopStep body loop s = .diverge := by
  simp [loopStep, h]

theorem loopStep_cases (body : σ → Result (ControlFlow σ β)) (s : σ) :
    (∃ t, body s = .ok (.loopContinue t)) ∨ ∃ r, ∀ loop, loopStep body loop s = r := by
  cases h : body s with
  | ok r =>
    cases r with
    | loopContinue t => exact .inl ⟨t, rfl⟩
    | loopBreak v => exact .inr ⟨.ok v, fun _ => loopStep_break h⟩
  | fail e => exact .inr ⟨.fail e, fun _ => loopStep_fail h⟩
  | diverge => exact .inr ⟨.diverge, fun _ => loopStep_diverge h⟩

end

theorem loopStep_continuous (body : σ → Result (ControlFlow σ β)) : ωScottContinuous (loopStep body) := by
  apply ωScottContinuous.of_apply₂
  intro s
  rcases loopStep_cases body s with ⟨t, ht⟩ | ⟨r, hr⟩
  · have heq : (fun loop => loopStep body loop s) = fun loop => loop t := by
      funext loop
      exact loopStep_continue ht
    rw [heq]
    exact ωScottContinuous.apply t
  · have heq : (fun loop => loopStep body loop s) = Function.const _ r := funext hr
    rw [heq]
    exact ωScottContinuous.const

theorem exists_isLeast_loopStep (body : σ → Result (ControlFlow σ β)) :
    ∃ f, IsLeast {f | loopStep body f = f} f := by
  let F := ContinuousHom.ofFun (loopStep body) (loopStep_continuous body)
  refine ⟨ωSup (fixedPoints.iterateChain F ⊥ bot_le), ?_, ?_⟩
  · exact fixedPoints.ωSup_iterate_mem_fixedPoint F ⊥ bot_le
  · intro g hg
    exact fixedPoints.ωSup_iterate_le_fixedPoint F ⊥ bot_le hg bot_le

noncomputable def loop (body : σ → Result (ControlFlow σ β)) : σ → Result β := (exists_isLeast_loopStep body).choose

theorem loop_isLeast (body : σ → Result (ControlFlow σ β)) : IsLeast {f | loopStep body f = f} (loop body) :=
  (exists_isLeast_loopStep body).choose_spec

theorem loop_unfold (body : σ → Result (ControlFlow σ β)) (s : σ) : loop body s = loopStep body (loop body) s :=
  (congrFun (loop_isLeast body).1 s).symm

/-! ## Chains of states -/

def Continues (body : σ → Result (ControlFlow σ β)) (s t : σ) : Prop := body s = .ok (.loopContinue t)

def Endless (body : σ → Result (ControlFlow σ β)) (s : σ) : Prop :=
  ∃ states : Nat → σ, states 0 = s ∧ ∀ n, Continues body (states n) (states (n + 1))

section
variable {body : σ → Result (ControlFlow σ β)} {s t : σ}

theorem loop_eq_of_chain (h : Relation.ReflTransGen (Continues body) s t) : loop body s = loop body t := by
  induction h with
  | refl => rfl
  | tail _ hstep ih => rw [ih, loop_unfold, loopStep_continue hstep]

theorem Endless.tail (h : Endless body s) (hst : Continues body s t) : Endless body t := by
  obtain ⟨states, rfl, hstates⟩ := h
  have hnext : states 1 = t := by
    have := (hstates 0).symm.trans hst
    simpa using this
  exact ⟨fun n => states (n + 1), hnext, fun n => hstates (n + 1)⟩

theorem Endless.head (hst : Continues body s t) (h : Endless body t) : Endless body s := by
  obtain ⟨states, rfl, hstates⟩ := h
  refine ⟨fun n => n.casesOn s states, rfl, ?_⟩
  intro n
  cases n with
  | zero => exact hst
  | succ n => exact hstates n

theorem loop_eq_diverge_of_endless (h : Endless body s) : loop body s = .diverge := by
  classical
  let g : σ → Result β := fun s => if Endless body s then .diverge else loop body s
  have hfixed : loopStep body g = g := by
    funext s
    by_cases hs : Endless body s
    · obtain ⟨states, rfl, hstates⟩ := id hs
      rw [loopStep_continue (hstates 0)]
      simp [g, hs, hs.tail (hstates 0)]
    · have hg : g s = loop body s := if_neg hs
      rw [hg, loop_unfold]
      rcases loopStep_cases body s with ⟨t, ht⟩ | ⟨r, hr⟩
      · rw [loopStep_continue ht, loopStep_continue ht]
        exact if_neg fun hend => hs (Endless.head ht hend)
      · rw [hr, hr]
  have hle : loop body s ≤ g s := (loop_isLeast body).2 hfixed s
  have hg : g s = .diverge := if_pos h
  rw [hg] at hle
  exact hle.elim id id

theorem endless_or_stops (body : σ → Result (ControlFlow σ β)) (s : σ) :
    Endless body s ∨ ∃ t, Relation.ReflTransGen (Continues body) s t ∧ ∀ u, ¬ Continues body t u := by
  by_cases h : ∃ t, Relation.ReflTransGen (Continues body) s t ∧ ∀ u, ¬ Continues body t u
  · exact .inr h
  · simp only [not_exists, not_and, not_forall, not_not] at h
    choose! next hnext using h
    have hreach : ∀ n, Relation.ReflTransGen (Continues body) s (next^[n] s) := by
      intro n
      induction n with
      | zero => exact .refl
      | succ n ih =>
        rw [Function.iterate_succ_apply']
        exact ih.tail (hnext _ ih)
    refine .inl ⟨fun n => next^[n] s, rfl, fun n => ?_⟩
    simp only [Function.iterate_succ_apply']
    exact hnext _ (hreach n)

theorem loop_eq_break {r : β} (hchain : Relation.ReflTransGen (Continues body) s t)
    (h : body t = .ok (.loopBreak r)) : loop body s = .ok r := by
  rw [loop_eq_of_chain hchain, loop_unfold, loopStep_break h]

theorem loop_eq_fail {e : Error} (hchain : Relation.ReflTransGen (Continues body) s t) (h : body t = .fail e) :
    loop body s = .fail e := by
  rw [loop_eq_of_chain hchain, loop_unfold, loopStep_fail h]

theorem loop_eq_diverge (hchain : Relation.ReflTransGen (Continues body) s t) (h : body t = .diverge) :
    loop body s = .diverge := by
  rw [loop_eq_of_chain hchain, loop_unfold, loopStep_diverge h]

theorem loop_outcome (body : σ → Result (ControlFlow σ β)) (s : σ) :
    (Endless body s ∧ loop body s = .diverge) ∨
    ∃ t, Relation.ReflTransGen (Continues body) s t ∧
      ((∃ r, body t = .ok (.loopBreak r) ∧ loop body s = .ok r) ∨
        (∃ e, body t = .fail e ∧ loop body s = .fail e) ∨ (body t = .diverge ∧ loop body s = .diverge)) := by
  rcases endless_or_stops body s with hend | ⟨t, hchain, hstop⟩
  · exact .inl ⟨hend, loop_eq_diverge_of_endless hend⟩
  · refine .inr ⟨t, hchain, ?_⟩
    cases ht : body t with
    | ok r =>
      cases r with
      | loopContinue u => exact absurd ht (hstop u)
      | loopBreak r => exact .inl ⟨r, rfl, loop_eq_break hchain ht⟩
    | fail e => exact .inr (.inl ⟨e, rfl, loop_eq_fail hchain ht⟩)
    | diverge => exact .inr (.inr ⟨rfl, loop_eq_diverge hchain ht⟩)

end

theorem loop_adequate {σ β : Type} (body : σ → Result (ControlFlow σ β)) (s : σ) :
    (∀ r, loop body s = .ok r ↔ ∃ t, Relation.ReflTransGen (Continues body) s t ∧ body t = .ok (.loopBreak r)) ∧
    (∀ e, loop body s = .fail e ↔ ∃ t, Relation.ReflTransGen (Continues body) s t ∧ body t = .fail e) ∧
    (loop body s = .diverge ↔
      Endless body s ∨ ∃ t, Relation.ReflTransGen (Continues body) s t ∧ body t = .diverge) := by
  have houtcome := loop_outcome body s
  refine ⟨fun r => ⟨fun h => ?_, fun h => ?_⟩, fun e => ⟨fun h => ?_, fun h => ?_⟩, fun h => ?_, fun h => ?_⟩
  · simp only [h, reduceCtorEq, and_false, false_or, or_false, exists_false, Result.ok.injEq] at houtcome
    obtain ⟨t, hchain, r', ht, rfl⟩ := houtcome
    exact ⟨t, hchain, ht⟩
  · obtain ⟨t, hchain, ht⟩ := h
    exact loop_eq_break hchain ht
  · simp only [h, reduceCtorEq, and_false, false_or, or_false, exists_false, Result.fail.injEq] at houtcome
    obtain ⟨t, hchain, e', ht, rfl⟩ := houtcome
    exact ⟨t, hchain, ht⟩
  · obtain ⟨t, hchain, ht⟩ := h
    exact loop_eq_fail hchain ht
  · simp only [h, reduceCtorEq, and_false, and_true, false_or, exists_false] at houtcome
    exact houtcome
  · rcases h with hend | ⟨t, hchain, ht⟩
    · exact loop_eq_diverge_of_endless hend
    · exact loop_eq_diverge hchain ht

end Aeneas.Isabelle
