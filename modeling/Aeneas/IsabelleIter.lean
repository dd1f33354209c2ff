import Aeneas.IsabelleVec

/-!
# Iterators in the Isabelle prelude

The adapter `step_by` advances the iterator it wraps past the elements which it
leaves out, right after each element it returns. On a range this stops at the end,
so that no element after the end is ever computed.
-/

namespace Aeneas.Isabelle
variable {ι α : Type}

/-! ## The prelude -/

/-- The dictionary of the trait `PartialOrd`, with the one comparison the iterators use. -/
structure PartialOrd (α : Type) where
  lt : α → α → Result Bool

structure Step (α : Type) where
  cloneInst : Clone α
  partialOrdInst : PartialOrd α
  forwardChecked : α → Int → Result (Option α)

structure StepBy (ι : Type) where
  iter : ι
  stepBy : Int
deriving DecidableEq

structure Iterator (ι α : Type) where
  next : ι → Result (Option α × ι)
  stepBy : ι → Int → Result (StepBy ι)

def scalarForwardChecked (ty : ScalarTy) (a n : Int) : Result (Option Int) :=
  .ok (if scalarInBounds ty (a + n) then some (a + n) else none)

def stepInst (ty : ScalarTy) : Step Int where
  cloneInst := { clone := .ok }
  partialOrdInst := { lt := fun x y => .ok (decide (x < y)) }
  forwardChecked := scalarForwardChecked ty

def stepByDefaultBody (self : ι) (n : Int) : Result (StepBy ι) :=
  if n = 0 then .fail .failure else .ok { iter := self, stepBy := n }

namespace IteratorRange

def next (inst : Step α) (r : Range α) : Result (Option α × Range α) := do
  let lt ← inst.partialOrdInst.lt r.start r.end'
  if lt then
    let s ← inst.cloneInst.clone r.start
    let n ← inst.forwardChecked s 1
    n.elim (.fail .failure) fun n => .ok (some s, { r with start := n })
  else .ok (none, r)

def inst (step : Step α) : Iterator (Range α) α where
  next := next step
  stepBy := stepByDefaultBody

end IteratorRange

def stepBySkip (next : ι → Result (Option α × ι)) (it : ι) : Nat → Result ι
  | 0 => .ok it
  | n + 1 => do
    let p ← next it
    p.1.elim (.ok p.2) fun _ => stepBySkip next p.2 n

namespace IteratorStepBy

def next (inst : Iterator ι α) (self : StepBy ι) : Result (Option α × StepBy ι) := do
  let p ← inst.next self.iter
  p.1.elim (.ok (none, { self with iter := p.2 })) fun x => do
    let it ← stepBySkip inst.next p.2 (self.stepBy.toNat - 1)
    .ok (some x, { self with iter := it })

def inst (inner : Iterator ι α) : Iterator (StepBy ι) α where
  next := next inner
  stepBy := stepByDefaultBody

end IteratorStepBy

/-! ## Calling an iterator -/

def calls (next : ι → Result (Option α × ι)) : Nat → ι → Result (List (Option α))
  | 0, _ => .ok []
  | n + 1, it => do
    let p ← next it
    let rest ← calls next n p.2
    .ok (p.1 :: rest)

/-- The element the `i`-th call returns if the elements are `s`, `s + k`, … below `e`. -/
def nthBelow (s e k : Int) (i : Nat) : Option Int := if s + i * k < e then some (s + i * k) else none

section
variable {ty : ScalarTy} {s e k : Int}

theorem rangeNext_lt (hs : scalarMin ty ≤ s) (he : e ≤ scalarMax ty) (h : s < e) :
    (IteratorRange.inst (stepInst ty)).next ⟨s, e⟩ = .ok (some s, ⟨s + 1, e⟩) := by
  have hin : scalarInBounds ty (s + 1) = true := by
    rw [scalarInBounds_iff]
    omega
  simp [IteratorRange.inst, IteratorRange.next, stepInst, scalarForwardChecked, h, hin]

theorem rangeNext_ge (h : e ≤ s) : (IteratorRange.inst (stepInst ty)).next ⟨s, e⟩ = .ok (none, ⟨s, e⟩) := by
  simp [IteratorRange.inst, IteratorRange.next, stepInst, not_lt.mpr h]

theorem stepBySkip_range (hs : scalarMin ty ≤ s) (he : e ≤ scalarMax ty) (hse : s ≤ e) (n : Nat) :
    stepBySkip (IteratorRange.inst (stepInst ty)).next ⟨s, e⟩ n = .ok ⟨min (s + n) e, e⟩ := by
  induction n generalizing s with
  | zero => simp [stepBySkip, hse]
  | succ n ih =>
    rw [stepBySkip]
    by_cases h : s < e
    · rw [rangeNext_lt hs he h, Result.bind_ok]
      simp only [Option.elim_some]
      rw [ih (by omega) (by omega)]
      congr 2
      push_cast
      omega
    · rw [rangeNext_ge (by omega), Result.bind_ok]
      simp only [Option.elim_none]
      congr 2
      omega

theorem stepByNext_lt (hs : scalarMin ty ≤ s) (he : e ≤ scalarMax ty) (hk : 1 ≤ k) (h : s < e) :
    (IteratorStepBy.inst (IteratorRange.inst (stepInst ty))).next ⟨⟨s, e⟩, k⟩ =
      .ok (some s, ⟨⟨min (s + k) e, e⟩, k⟩) := by
  have hskip : s + 1 + ((k.toNat - 1 : Nat) : Int) = s + k := by omega
  simp only [IteratorStepBy.inst, IteratorStepBy.next, rangeNext_lt hs he h, Result.bind_ok, Option.elim_some]
  rw [stepBySkip_range (by omega) he (by omega), hskip, Result.bind_ok]

theorem stepByNext_ge (h : e ≤ s) :
    (IteratorStepBy.inst (IteratorRange.inst (stepInst ty))).next ⟨⟨s, e⟩, k⟩ = .ok (none, ⟨⟨s, e⟩, k⟩) := by
  simp only [IteratorStepBy.inst, IteratorStepBy.next, rangeNext_ge h, Result.bind_ok, Option.elim_none]

theorem nthBelow_zero : nthBelow s e k 0 = if s < e then some s else none := by
  simp [nthBelow]

theorem nthBelow_succ (i : Nat) : nthBelow s e k (i + 1) = nthBelow (s + k) e k i := by
  have : s + ((i + 1 : Nat) : Int) * k = s + k + i * k := by push_cast; rw [Int.add_mul]; omega
  rw [nthBelow, nthBelow, this]

theorem nthBelow_ge (hk : 1 ≤ k) (h : e ≤ s) (i : Nat) : nthBelow s e k i = none := by
  have : 0 ≤ (i : Int) * k := Int.mul_nonneg (by omega) (by omega)
  rw [nthBelow, if_neg (by omega)]

theorem nthBelow_min (hk : 1 ≤ k) (i : Nat) : nthBelow (min (s + k) e) e k i = nthBelow s e k (i + 1) := by
  rw [nthBelow_succ]
  rcases le_total (s + k) e with h | h
  · rw [min_eq_left h]
  · rw [min_eq_right h, nthBelow_ge hk le_rfl, nthBelow_ge hk h]

theorem calls_of_next {next : ι → Result (Option Int × ι)} (state : Int → ι) {lo : Int} (hk : 1 ≤ k)
    (hlt : ∀ s, lo ≤ s → s < e → next (state s) = .ok (some s, state (min (s + k) e)))
    (hge : ∀ s, e ≤ s → next (state s) = .ok (none, state s)) (hs : lo ≤ s) (n : Nat) :
    calls next n (state s) = .ok ((List.range n).map (nthBelow s e k)) := by
  induction n generalizing s with
  | zero => rfl
  | succ n ih =>
    rw [calls, List.range_succ_eq_map, List.map_cons, List.map_map, nthBelow_zero]
    by_cases h : s < e
    · have htail : nthBelow s e k ∘ Nat.succ = nthBelow (min (s + k) e) e k := by
        funext i
        exact (nthBelow_min hk i).symm
      rw [hlt s hs h, Result.bind_ok, ih (by omega), Result.bind_ok, htail, if_pos h]
    · have htail : nthBelow s e k ∘ Nat.succ = nthBelow s e k := by
        funext i
        simp only [Function.comp, nthBelow_ge hk (not_lt.mp h)]
      rw [hge s (not_lt.mp h), Result.bind_ok, ih hs, Result.bind_ok, htail, if_neg h]

theorem calls_stepBy (hs : scalarMin ty ≤ s) (he : e ≤ scalarMax ty) (hk : 1 ≤ k) (n : Nat) :
    calls (IteratorStepBy.inst (IteratorRange.inst (stepInst ty))).next n ⟨⟨s, e⟩, k⟩ =
      .ok ((List.range n).map (nthBelow s e k)) :=
  calls_of_next (fun s => (⟨⟨s, e⟩, k⟩ : StepBy (Range Int))) hk (fun _ hs h => stepByNext_lt hs he hk h)
    (fun _ h => stepByNext_ge h) hs n

theorem calls_range (hs : scalarMin ty ≤ s) (he : e ≤ scalarMax ty) (n : Nat) :
    calls (IteratorRange.inst (stepInst ty)).next n ⟨s, e⟩ = .ok ((List.range n).map (nthBelow s e 1)) := by
  refine calls_of_next (fun s => (⟨s, e⟩ : Range Int)) le_rfl (fun s hs h => ?_) (fun _ h => rangeNext_ge h) hs n
  rw [rangeNext_lt hs he h, min_eq_left (by omega)]

end

theorem stepBy_range_yields (ty : ScalarTy) (start end' k : Int) (hstart : scalarInBounds ty start = true)
    (hend : scalarInBounds ty end' = true) (hk : 1 ≤ k) :
    ∃ it, (IteratorRange.inst (stepInst ty)).stepBy ⟨start, end'⟩ k = .ok it ∧
      (∀ n, calls (IteratorStepBy.inst (IteratorRange.inst (stepInst ty))).next n it =
        .ok ((List.range n).map fun i : Nat => if start + i * k < end' then some (start + i * k) else none)) ∧
      (k = 1 → ∀ n, calls (IteratorStepBy.inst (IteratorRange.inst (stepInst ty))).next n it =
        calls (IteratorRange.inst (stepInst ty)).next n ⟨start, end'⟩) := by
  have hmin := (scalarInBounds_iff.mp hstart).1
  have hmax := (scalarInBounds_iff.mp hend).2
  refine ⟨⟨⟨start, end'⟩, k⟩, ?_, fun n => calls_stepBy hmin hmax hk n, ?_⟩
  · simp only [IteratorRange.inst, stepByDefaultBody]
    rw [if_neg (by omega)]
  · rintro rfl n
    rw [calls_stepBy hmin hmax hk, calls_range hmin hmax]

/-- Up to the maximum of `u8`. -/
theorem stepBy_range_yields_u8 :
    ∃ it, (IteratorRange.inst (stepInst .u8)).stepBy ⟨250, 255⟩ 3 = .ok it ∧
      calls (IteratorStepBy.inst (IteratorRange.inst (stepInst .u8))).next 4 it =
        .ok [some 250, some 253, none, none] := by
  obtain ⟨it, hit, hcalls, -⟩ := stepBy_range_yields .u8 250 255 3 (by decide) (by decide) (by decide)
  exact ⟨it, hit, hcalls 4⟩

end Aeneas.Isabelle
