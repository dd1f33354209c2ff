import Aeneas.PureLets
import Aeneas.SimplifyLetBranching

/-!
# The outputs which are picked

A branching returns at its tails, in branches where some variables were tested.
The exploration gathers what the tails return; an output is picked if it is
equal, in every branch which returns, to what the branch returns.
-/

namespace Aeneas.Pure

open List

attribute [local simp] Expr.children SwitchBody.children

/-! ## Constructors -/

section
variable {e : Texpr} {adtId : TypeId} {variantIds : List VariantId} {n : Nat}

theorem Texpr.consId_eq_some {id : AdtConsId} (h : e.consId = some id) :
    ∃ q ty, (destructApps e).1 = .mk (.qualif q) ty ∧ q.id = .adtCons id := by
  unfold consId at h
  generalize (destructApps e).1 = head at h
  obtain ⟨head, ty⟩ := head
  simp only [Texpr.e] at h
  split at h
  · rename_i q
    split at h
    · rename_i id' hq
      obtain rfl := Option.some.inj h
      exact ⟨q, ty, rfl, hq⟩
    · cases h
  · cases h

theorem Texpr.isConsOf_iff (h : e.isConsOf adtId variantIds = true) : ∃ q v x ty ty',
    e = .mk (.app (.mk (.qualif q) ty') x) ty ∧ q.id = .adtCons { adtId, variantId := some v } ∧ v ∈ variantIds ∧
      destructApps e = (.mk (.qualif q) ty', [x]) := by
  unfold isConsOf at h
  split at h
  · rename_i id hid
    obtain ⟨q, ty', hhead, hq⟩ := consId_eq_some hid
    simp only [Bool.and_eq_true, beq_iff_eq, Option.any_eq_true, contains_iff_mem] at h
    obtain ⟨⟨hadt, v, hv, hmem⟩, hlen⟩ := h
    obtain ⟨x, hx⟩ := length_eq_one_iff.mp hlen
    have happs := (isApps_destructApps e).2
    rw [hhead, hx] at happs
    cases happs with
    | cons ty happs =>
      cases happs
      refine ⟨q, v, x, ty, ty', rfl, ?_, hmem, Prod.ext hhead hx⟩
      rw [hq, ← hadt, ← hv]
  · cases h

theorem getTupleSize_eq_some (h : getTupleSize e = some n) : ∃ q variantId ty args,
    destructApps e = (.mk (.qualif q) ty, args) ∧ q.id = .adtCons { adtId := .tuple, variantId } ∧ args.length = n ∧
      IsApps (.mk (.qualif q) ty) args e := by
  unfold getTupleSize at h
  split at h
  · rename_i id hid
    obtain ⟨q, ty, hhead, hq⟩ := Texpr.consId_eq_some hid
    split at h
    · rename_i hadt
      obtain ⟨adtId, variantId⟩ := id
      subst hadt
      refine ⟨q, variantId, ty, (destructApps e).2, Prod.ext hhead rfl, hq, Option.some.inj h, ?_⟩
      rw [← hhead]
      exact (isApps_destructApps e).2
    · cases h
  · cases h

theorem destructTupleTexpr_eq_ok {args : List Texpr} (h : destructTupleTexpr e = .ok args) :
    args = (destructApps e).2 := by
  unfold destructTupleTexpr at h
  split at h
  · obtain ⟨_, -, h⟩ := bind_eq_ok.mp h
    obtain ⟨_, -, h⟩ := bind_eq_ok.mp h
    exact (Except.ok.inj h).symm
  · cases h

end

namespace SimplifyLetBranching

/-! ## The tails of a branching -/

abbrev Tests := List (FVarId × Texpr)

inductive Outcome where
  | exit
  | values (args : List Texpr)
  | unknown

def outcome (numOuts : Nat) (e : Texpr) : Outcome :=
  match e.e with
  | .app _ _ =>
    if isResultFail e || isLoopResultFailBreakContinue e then .exit
    else if getTupleSize e = some numOuts then .values (destructApps e).2 else .unknown
  | .loop _ => .unknown
  | .eError _ _ => .exit
  | _ => .values [e]

section
variable (cfg : FuelConfig) (boundFVars : List FVarId)

def valueTests (scrut e : Texpr) : Tests := (boundBeforeFVar boundFVars scrut).toList.map fun id => (id, e)

def patTests (scrut : Texpr) (pat : TPat) : Tests :=
  match boundBeforeFVar boundFVars scrut, tpatToTexpr cfg pat with
  | some id, .ok (some e) => [(id, e)]
  | _, _ => []

mutual

def tails (tests : Tests) : Texpr → List (Tests × Texpr)
  | .mk (.app f x) ty =>
    if isResultOk (.mk (.app f x) ty) then tails tests x else [(tests, .mk (.app f x) ty)]
  | .mk (.letE _ _ _ next) _ => tails tests next
  | .mk (.switch scrut (.ite thn els)) _ =>
    tails (valueTests boundFVars scrut mkTrue ++ tests) thn ++ tails (valueTests boundFVars scrut mkFalse ++ tests) els
  | .mk (.switch scrut (.matchE branches)) _ => tailsBranches tests scrut branches
  | .mk (.emeta _ e) _ => tails tests e
  | e => [(tests, e)]

def tailsBranches (tests : Tests) (scrut : Texpr) : List (MatchBranch Texpr) → List (Tests × Texpr)
  | [] => []
  | b :: branches => tailsBranch tests scrut b ++ tailsBranches tests scrut branches

def tailsBranch (tests : Tests) (scrut : Texpr) : MatchBranch Texpr → List (Tests × Texpr)
  | ⟨pat, branch⟩ => tails (patTests cfg boundFVars scrut pat ++ tests) branch

end

end

def IsEqual (tests : Tests) (arg out : Texpr) : Prop :=
  out = arg ∨ ∃ id, (id, arg) ∈ tests ∧ out = .mk (.fvar id) arg.ty

section
variable (numOuts : Nat)

def Returns (t : Tests × Texpr) : Prop := outcome numOuts t.2 ≠ .exit

def Allows (i : Nat) (t : Tests × Texpr) (out : Texpr) : Prop :=
  match outcome numOuts t.2 with
  | .exit => True
  | .values args => ∃ arg, args[i]? = some arg ∧ IsEqual t.1 arg out
  | .unknown => False

variable (cfg : FuelConfig)

/-- All the branches which return give this value to the component, and there are some. -/
structure SharedValue (bound : Texpr) (i : Nat) (out : Texpr) : Prop where
  returns : ∃ t ∈ tails cfg bound.binderIds [] bound, Returns numOuts t
  allows : ∀ t ∈ tails cfg bound.binderIds [] bound, Allows numOuts i t out

end

theorem isResultOk_of_exit {e : Texpr} (h : (isResultFail e || isLoopResultFailBreakContinue e) = true) :
    isResultOk e = false := by
  rw [Bool.eq_false_iff]
  intro hok
  obtain ⟨q, v, x, ty, ty', rfl, hq, hv, -⟩ := Texpr.isConsOf_iff hok
  rcases Bool.or_eq_true_iff.mp h with h | h <;>
    obtain ⟨q', v', x', ty₁, ty₁', he, hq', hv', -⟩ := Texpr.isConsOf_iff h <;> cases he <;> rw [hq] at hq' <;>
    simp at hq' hv hv'
  rw [hv, hv'] at hq'
  cases hq'

theorem outcome_exit {f x : Texpr} {ty : Ty} (numOuts : Nat)
    (h : (isResultFail (.mk (.app f x) ty) || isLoopResultFailBreakContinue (.mk (.app f x) ty)) = true) :
    outcome numOuts (.mk (.app f x) ty) = .exit := by
  simp only [outcome, Texpr.e]
  rw [if_pos h]

/-! ## The exploration -/

section
variable [Ord Texpr]

section
variable {α : Type} (index : α → Nat) (el : α → List Texpr)

theorem length_foldl_push (l : List α) : ∀ outs : Outs,
    (l.foldl (fun outs a => pushToOuts (index a) (el a) outs) outs).length = outs.length := by
  induction l with
  | nil => simp
  | cons a l ih =>
    intro outs
    rw [foldl_cons, ih, pushToOuts, length_modify]

theorem getD_pushToOuts {outs : Outs} (i j : Nat) (el : List Texpr) (hj : j < outs.length) :
    ((pushToOuts i el outs)[j]?).getD [] =
      if i = j then Std.ExtTreeSet.ofList el :: (outs[j]?).getD [] else (outs[j]?).getD [] := by
  rw [pushToOuts, getElem?_modify, getElem?_eq_getElem hj]
  by_cases hij : i = j <;> simp [hij]

theorem getD_foldl_push_of_not_mem {j : Nat} (l : List α) : ∀ outs : Outs, j ∉ l.map index → j < outs.length →
    ((l.foldl (fun outs a => pushToOuts (index a) (el a) outs) outs)[j]?).getD [] = (outs[j]?).getD [] := by
  induction l with
  | nil => simp
  | cons a l ih =>
    intro outs hj hlt
    have hj' : index a ≠ j ∧ j ∉ l.map index := by
      simp only [map_cons, mem_cons, not_or] at hj
      exact ⟨Ne.symm hj.1, hj.2⟩
    rw [foldl_cons, ih _ hj'.2 (by rwa [pushToOuts, length_modify]), getD_pushToOuts _ _ _ hlt, if_neg hj'.1]

theorem getD_foldl_push (l : List α) : ∀ outs : Outs, (l.map index).Nodup → ∀ a ∈ l, index a < outs.length →
    ((l.foldl (fun outs a => pushToOuts (index a) (el a) outs) outs)[index a]?).getD [] =
      .ofList (el a) :: (outs[index a]?).getD [] := by
  induction l with
  | nil => simp
  | cons b l ih =>
    intro outs hnodup a ha hlt
    obtain ⟨hb, hnodup⟩ := nodup_cons.mp hnodup
    have hlen : index a < (pushToOuts (index b) (el b) outs).length := by rwa [pushToOuts, length_modify]
    rw [foldl_cons]
    rcases mem_cons.mp ha with rfl | ha
    · rw [getD_foldl_push_of_not_mem index el l _ hb hlen, getD_pushToOuts _ _ _ hlt, if_pos rfl]
    · have hne : index b ≠ index a := fun h => hb (h ▸ mem_map.mpr ⟨a, ha, rfl⟩)
      rw [ih _ hnodup a ha hlen, getD_pushToOuts _ _ _ hlt, if_neg hne]

end

variable [Std.TransOrd Texpr]

def Remembers (branchings : Branchings) (tests : Tests) : Prop :=
  ∀ e id, id ∈ (branchings[e]?).getD [] ↔ (id, e) ∈ tests

def Covers (outs : Outs) (i : Nat) (out : Texpr) : Prop := ∀ s ∈ (outs[i]?).getD [], out ∈ s

def Reached (outs : Outs) (i : Nat) : Prop := (outs[i]?).getD [] ≠ []

structure Explored (numOuts : Nat) (ts : List (Tests × Texpr)) (outs outs' : Outs) : Prop where
  length : outs'.length = outs.length
  reached : ∀ i < outs.length, Reached outs' i ↔ Reached outs i ∨ ∃ t ∈ ts, Returns numOuts t
  covers : ∀ i < outs.length, ∀ out, Covers outs' i out ↔ Covers outs i out ∧ ∀ t ∈ ts, Allows numOuts i t out
  values : ∀ t ∈ ts, ∀ args, outcome numOuts t.2 = .values args → args.length = numOuts

variable {cfg : FuelConfig} {numOuts : Nat} {boundFVars : List FVarId} {ts ts' : List (Tests × Texpr)}
  {outs outs₁ outs' : Outs} {branchings : Branchings} {tests : Tests} {e : Texpr}

theorem Explored.refl (numOuts : Nat) (outs : Outs) : Explored numOuts [] outs outs := ⟨rfl, by simp, by simp, by simp⟩

theorem Explored.trans (h : Explored numOuts ts outs outs₁) (h' : Explored numOuts ts' outs₁ outs') :
    Explored numOuts (ts ++ ts') outs outs' := by
  refine ⟨h'.length.trans h.length, fun i hi => ?_, fun i hi out => ?_, forall_mem_append.mpr ⟨h.values, h'.values⟩⟩
  · rw [h'.reached i (h.length ▸ hi), h.reached i hi]
    simp only [mem_append, or_and_right, exists_or, or_assoc]
  · rw [h'.covers i (h.length ▸ hi), h.covers i hi, forall_mem_append, and_assoc]

variable {t : Tests × Texpr}

theorem explored_exit (h : outcome numOuts t.2 = .exit) : Explored numOuts [t] outs outs := by
  refine ⟨rfl, fun i _ => ?_, fun i _ out => ?_, ?_⟩
  · simp [Returns, h]
  · simp [Allows, h]
  · simp [h]

theorem explored_push (sets : Nat → IdSet Texpr) (hlen : outs'.length = outs.length)
    (hpush : ∀ i < outs.length, (outs'[i]?).getD [] = sets i :: (outs[i]?).getD []) (hreturns : Returns numOuts t)
    (hsets : ∀ i < outs.length, ∀ out, out ∈ sets i ↔ Allows numOuts i t out)
    (hvalues : ∀ args, outcome numOuts t.2 = .values args → args.length = numOuts) :
    Explored numOuts [t] outs outs' := by
  refine ⟨hlen, fun i hi => ?_, fun i hi out => ?_, by simpa using hvalues⟩
  · simp [Reached, hpush i hi, hreturns]
  · simp [Covers, hpush i hi, hsets i hi, and_comm]

theorem explored_empty (h : outcome numOuts t.2 = .unknown) (hlen : outs.length = numOuts) :
    Explored numOuts [t] outs (pushEmptyPossibilities numOuts outs) := by
  refine explored_push (fun _ => ∅) (length_foldl_push id (fun _ => []) _ outs) (fun i hi => ?_) (by simp [Returns, h])
    (fun i _ out => by simp [Allows, h]) (by simp [h])
  have hmem : i ∈ range numOuts := mem_range.mpr (hlen ▸ hi)
  exact getD_foldl_push id (fun _ => []) _ outs (by simpa using nodup_range) i hmem hi

theorem remembers_empty : Remembers (∅ : Branchings) [] := by
  intro e id
  simp

variable [Std.LawfulEqOrd Texpr]

theorem mem_values_iff (hb : Remembers branchings tests) (arg out : Texpr) :
    out ∈ (Std.ExtTreeSet.ofList (arg :: getEqualValues branchings arg) : IdSet Texpr) ↔ IsEqual tests arg out := by
  rw [mem_ofList_iff, mem_cons, getEqualValues, mem_map]
  simp only [hb arg, IsEqual, eq_comm]

theorem explored_values {args : List Texpr} (h : outcome numOuts e = .values args) (hargs : args.length = outs.length)
    (hlen : outs.length = numOuts) (hb : Remembers branchings tests) : Explored numOuts [(tests, e)] outs
      (args.zipIdx.foldl (fun outs x => pushToOuts x.2 (x.1 :: getEqualValues branchings x.1) outs) outs) := by
  let el : Texpr × Nat → List Texpr := fun x => x.1 :: getEqualValues branchings x.1
  refine explored_push (fun i => (args[i]?).elim ∅ fun arg => .ofList (arg :: getEqualValues branchings arg))
    (length_foldl_push Prod.snd el _ outs) (fun i hi => ?_) (by simp [Returns, h]) (fun i hi out => ?_) ?_
  · have hi' : i < args.length := hargs ▸ hi
    have hmem : (args[i], i) ∈ args.zipIdx := by simp [mem_zipIdx_iff_getElem?]
    have hpush := getD_foldl_push Prod.snd el args.zipIdx outs (by simpa using nodup_range') _ hmem hi
    simpa [hi', el] using hpush
  · have hi' : i < args.length := hargs ▸ hi
    simp [Allows, h, hi', mem_values_iff hb]
  · simp [h, hargs, hlen]

theorem Remembers.addToList (hb : Remembers branchings tests) (e : Texpr) (id : FVarId) :
    Remembers (addToList e id branchings) ((id, e) :: tests) := by
  classical
  intro e' id'
  rw [SimplifyLetBranching.addToList, getElem?_insert_eq]
  by_cases he : e = e'
  · subst he
    simp [hb e id']
  · simp [he, Ne.symm he, hb e' id']

theorem Remembers.value (hb : Remembers branchings tests) (scrut e : Texpr) :
    Remembers (rememberValue (boundBeforeFVar boundFVars scrut) e branchings)
      (valueTests boundFVars scrut e ++ tests) := by
  unfold rememberValue valueTests
  cases boundBeforeFVar boundFVars scrut with
  | none => exact hb
  | some id => exact hb.addToList e id

theorem Remembers.pat {branchings' : Branchings} {scrut : Texpr} {pat : TPat} (hb : Remembers branchings tests)
    (h : rememberPat cfg (boundBeforeFVar boundFVars scrut) pat branchings = .ok branchings') :
    Remembers branchings' (patTests cfg boundFVars scrut pat ++ tests) := by
  unfold rememberPat at h
  unfold patTests
  split at h
  · rename_i hid
    obtain rfl := Except.ok.inj h
    rw [hid]
    exact hb
  · rename_i id hid
    obtain ⟨e, he, h⟩ := bind_eq_ok.mp h
    obtain rfl := Except.ok.inj h
    rw [hid, he]
    cases e with
    | none => exact hb
    | some e => exact hb.addToList e id

theorem pushValue_explored (h : pushValue numOuts branchings e outs = .ok outs') (hb : Remembers branchings tests)
    (hlen : outs.length = numOuts) (he : outcome numOuts e = .values [e]) :
    Explored numOuts [(tests, e)] outs outs' := by
  obtain ⟨_, hone, h⟩ := bind_eq_ok.mp h
  have hone : numOuts = 1 := by simpa using sanityCheck_eq_ok.mp hone
  obtain rfl := Except.ok.inj h
  exact explored_values he (by simp [hlen, hone]) hlen hb

theorem pushTuple_explored {f x : Texpr} {ty : Ty}
    (h : pushTuple numOuts branchings (.mk (.app f x) ty) outs = .ok outs') (hb : Remembers branchings tests)
    (hlen : outs.length = numOuts)
    (hexit : ¬ (isResultFail (.mk (.app f x) ty) || isLoopResultFailBreakContinue (.mk (.app f x) ty)) = true) :
    Explored numOuts [(tests, .mk (.app f x) ty)] outs outs' := by
  unfold pushTuple at h
  split at h
  · rename_i hsize
    obtain ⟨args, hargs, h⟩ := bind_eq_ok.mp h
    obtain rfl := Except.ok.inj h
    obtain rfl := destructTupleTexpr_eq_ok hargs
    obtain ⟨q, variantId, ty', args, hdestruct, -, hargs, -⟩ := getTupleSize_eq_some hsize
    exact explored_values (by simp [outcome, Texpr.e, hexit, hsize]) (by rw [hdestruct, hlen, hargs]) hlen hb
  · rename_i hsize
    obtain rfl := Except.ok.inj h
    exact explored_empty (by simp [outcome, Texpr.e, hexit, hsize]) hlen

def Explores (cfg : FuelConfig) (numOuts : Nat) (boundFVars : List FVarId) (e : Texpr) : Prop :=
  ∀ {branchings tests outs outs'}, explore cfg numOuts boundFVars branchings e outs = .ok outs' →
    Remembers branchings tests → outs.length = numOuts →
    Explored numOuts (tails cfg boundFVars tests e) outs outs'

theorem exploreBranches_explored {scrut : Texpr} (hb : Remembers branchings tests) :
    ∀ {branches : List (MatchBranch Texpr)} {outs outs' : Outs},
      (∀ b ∈ branches, Explores cfg numOuts boundFVars b.branch) →
      exploreBranches cfg numOuts boundFVars branchings (boundBeforeFVar boundFVars scrut) branches outs = .ok outs' →
      outs.length = numOuts → Explored numOuts (tailsBranches cfg boundFVars tests scrut branches) outs outs'
  | [], outs, outs', _, h, _ => by
    rw [exploreBranches] at h
    obtain rfl := Except.ok.inj h
    rw [tailsBranches]
    exact .refl _ _
  | ⟨pat, branch⟩ :: branches, outs, outs', hbranches, h, hlen => by
    obtain ⟨hbranch, hbranches⟩ := forall_mem_cons.mp hbranches
    rw [exploreBranches] at h
    obtain ⟨outs₁, h₁, h⟩ := bind_eq_ok.mp h
    rw [exploreBranch] at h₁
    obtain ⟨branchings', hremember, h₁⟩ := bind_eq_ok.mp h₁
    have hfirst := hbranch h₁ (hb.pat hremember) hlen
    rw [tailsBranches, tailsBranch]
    exact hfirst.trans (exploreBranches_explored hb hbranches h (hfirst.length.trans hlen))

theorem explore_explored (e : Texpr) : Explores cfg numOuts boundFVars e := by
  induction e using Texpr.induct with
  | h e ty ih =>
    intro branchings tests outs outs' h hb hlen
    cases e with
    | bvar v =>
      rw [explore] at h
      cases h
    | app f x =>
      simp only [explore] at h
      rw [tails]
      split at h
      · rename_i hexit
        obtain rfl := Except.ok.inj h
        rw [isResultOk_of_exit hexit]
        exact explored_exit (outcome_exit numOuts hexit)
      · rename_i hexit
        split at h
        · rename_i hok
          rw [if_pos hok]
          exact ih (.none, x) (by simp) h hb hlen
        · rename_i hok
          rw [if_neg hok]
          exact pushTuple_explored h hb hlen hexit
    | letE monadic pat bound next =>
      rw [explore] at h
      rw [tails]
      exact ih (.one pat, next) (by simp) h hb hlen
    | switch scrut body =>
      cases body with
      | ite thn els =>
        rw [explore] at h
        obtain ⟨outs₁, h₁, h⟩ := bind_eq_ok.mp h
        have hfirst := ih (.none, thn) (by simp) h₁ (hb.value scrut mkTrue) hlen
        rw [tails]
        exact hfirst.trans (ih (.none, els) (by simp) h (hb.value scrut mkFalse)
          (hfirst.length.trans hlen))
      | matchE branches =>
        rw [explore] at h
        rw [tails]
        refine exploreBranches_explored hb (fun b hmem => ?_) h hlen
        exact ih (.one b.pat, b.branch) (mem_cons_of_mem _ (mem_map.mpr ⟨b, hmem, rfl⟩))
    | loop l =>
      rw [explore] at h
      obtain rfl := Except.ok.inj h
      simp only [tails]
      exact explored_empty rfl hlen
    | emeta m e =>
      rw [explore] at h
      rw [tails]
      exact ih (.none, e) (by simp) h hb hlen
    | eError span message =>
      rw [explore] at h
      obtain rfl := Except.ok.inj h
      simp only [tails]
      exact explored_exit rfl
    | _ =>
      simp only [explore] at h
      simp only [tails]
      exact pushValue_explored h hb hlen rfl

/-! ## The choice -/

/-- The first of the expressions with the property, in the order of the expressions. -/
def IsFirst (P : Texpr → Prop) (out : Texpr) : Prop := P out ∧ ∀ out', P out' → compare out out' ≠ .gt

variable {out : Texpr}

omit [Std.LawfulEqOrd Texpr] in
theorem mem_foldl_inter : ∀ {ls : List (IdSet Texpr)} {s : IdSet Texpr},
    out ∈ ls.foldl (fun s s' => s ∩ s') s ↔ out ∈ s ∧ ∀ s' ∈ ls, out ∈ s'
  | [], s => by simp
  | s' :: ls, s => by
    rw [foldl_cons, mem_foldl_inter, Std.ExtTreeSet.mem_inter_iff, forall_mem_cons, and_assoc]

variable {ls : List (IdSet Texpr)}

omit [Std.LawfulEqOrd Texpr] in
theorem mem_possibleOutputs :
    out ∈ possibleOutputs ls ↔ ls ≠ [] ∧ ∀ s ∈ ls, out ∈ s := by
  cases ls with
  | nil => simp [possibleOutputs]
  | cons s ls => simp [possibleOutputs, mem_foldl_inter]

theorem pickOutput_eq_some :
    pickOutput ls = some out ↔ IsFirst (· ∈ possibleOutputs ls) out := by
  have hmem : ∀ out, out ∈ possibleOutputs ls ↔ out ∈ (possibleOutputs ls).toList :=
    fun out => Std.ExtTreeSet.mem_toList.symm
  have hordered := Std.ExtTreeSet.ordered_toList (t := possibleOutputs ls)
  simp only [IsFirst, hmem, pickOutput]
  cases htl : (possibleOutputs ls).toList with
  | nil => simp
  | cons a l =>
    rw [htl] at hordered
    have hlt : ∀ b ∈ l, compare a b = .lt := (pairwise_cons.mp hordered).1
    simp only [head?_cons, Option.some.injEq]
    constructor
    · rintro rfl
      refine ⟨mem_cons_self .., fun out' hout => ?_⟩
      rcases mem_cons.mp hout with rfl | hout
      · simp
      · simp [hlt out' hout]
    · rintro ⟨hout, hfirst⟩
      rcases mem_cons.mp hout with rfl | hout
      · rfl
      · have hgt : compare out a = .gt := Std.OrientedCmp.gt_of_lt (hlt out hout)
        exact absurd hgt (hfirst a (mem_cons_self ..))

theorem pickOutput_eq_none (h : pickOutput ls = none) (out : Texpr) :
    out ∉ possibleOutputs ls := by
  rw [pickOutput, head?_eq_none_iff] at h
  rw [← Std.ExtTreeSet.mem_toList, h]
  exact not_mem_nil

structure Picked (cfg : FuelConfig) (numOuts : Nat) (bound : Texpr) (outputs : List (Option Texpr)) : Prop where
  length : outputs.length = numOuts
  first : ∀ i out, outputs[i]? = some (some out) ↔ i < numOuts ∧ IsFirst (SharedValue numOuts cfg bound i) out
  none : ∀ i, outputs[i]? = some none → ∀ out, ¬ SharedValue numOuts cfg bound i out
  values : ∀ t ∈ tails cfg bound.binderIds [] bound, ∀ args, outcome numOuts t.2 = .values args → args.length = numOuts

theorem chooseOutputs_ok {bound : Texpr} {outputs : List (Option Texpr)}
    (h : chooseOutputs cfg numOuts bound = .ok outputs) : Picked cfg numOuts bound outputs := by
  obtain ⟨outs, hexplore, h⟩ := bind_eq_ok.mp h
  obtain rfl := Except.ok.inj h
  have hinit : (replicate numOuts ([] : List (IdSet Texpr))).length = numOuts := by simp
  have hexplored := explore_explored bound hexplore remembers_empty hinit
  have hlen : outs.length = numOuts := hexplored.length.trans hinit
  have hshared : ∀ (i : Nat) (hi : i < outs.length) out,
      out ∈ possibleOutputs outs[i] ↔ SharedValue numOuts cfg bound i out := by
    intro i hi out
    have hi' : i < numOuts := hlen ▸ hi
    have hreached := hexplored.reached i (by simpa using hi')
    have hcovers := hexplored.covers i (by simpa using hi') out
    simp only [Reached, Covers, getElem?_eq_getElem hi, Option.getD_some, getElem?_replicate, hi', if_true,
      ne_eq, not_true_eq_false, false_or, not_mem_nil, false_implies, implies_true, true_and] at hreached hcovers
    rw [mem_possibleOutputs, ne_eq, hreached, hcovers]
    exact ⟨fun h => ⟨h.1, h.2⟩, fun h => ⟨h.1, h.2⟩⟩
  refine ⟨by simp [hlen], fun i out => ?_, fun i hi out hout => ?_, hexplored.values⟩
  · by_cases hi : i < outs.length
    · simp [hi, hlen ▸ hi, pickOutput_eq_some, IsFirst, hshared i hi]
    · simp [hi, hlen ▸ hi]
  · rw [getElem?_map, Option.map_eq_some_iff] at hi
    obtain ⟨ls, hls, hpick⟩ := hi
    obtain ⟨hi, rfl⟩ := List.getElem?_eq_some_iff.mp hls
    exact pickOutput_eq_none hpick out ((hshared i hi out).mpr hout)

end

/-! ## The update -/

def IsValue (e : Texpr) : Prop := ∀ numOuts, outcome numOuts e = .values [e]

inductive Updated (cfg : FuelConfig) (outputs : List (Option Texpr)) (newTy : Ty) : Texpr → Texpr → Prop
  | value {e : Texpr} {out : Option Texpr} (he : IsValue e) (hout : outputs = [out]) :
    Updated cfg outputs newTy e (out.getD e)
  | exit {x e' : Texpr} {q : Qualif} {ty ty' : Ty}
    (hexit : (isResultFail (.mk (.app (.mk (.qualif q) ty') x) ty) ||
      isLoopResultFailBreakContinue (.mk (.app (.mk (.qualif q) ty') x) ty)) = true)
    (he' : mkQualifApps cfg q [x] newTy = .ok e') :
    Updated cfg outputs newTy (.mk (.app (.mk (.qualif q) ty') x) ty) e'
  | ok {f x x' e' : Texpr} {ty : Ty} (hok : isResultOk (.mk (.app f x) ty) = true) (hx : Updated cfg outputs newTy x x')
    (he' : mkResultOkTexpr cfg x' = .ok e') : Updated cfg outputs newTy (.mk (.app f x) ty) e'
  | tuple {f x e' : Texpr} {q : Qualif} {variantId : Option VariantId} {ty ty' : Ty} {args : List Texpr}
    (hq : q.id = .adtCons { adtId := .tuple, variantId }) (hargs : args.length = outputs.length)
    (he : IsApps (.mk (.qualif q) ty') args (.mk (.app f x) ty))
    (houtcome : outcome outputs.length (.mk (.app f x) ty) = .values args)
    (hok : isResultOk (.mk (.app f x) ty) = false) (he' : mkSimplTupleTexpr cfg (kept outputs args) = .ok e') :
    Updated cfg outputs newTy (.mk (.app f x) ty) e'
  | letE {monadic : Bool} {pat : TPat} {bound next next' : Texpr} {ty : Ty} (hnext :
    Updated cfg outputs newTy next next') :
    Updated cfg outputs newTy (.mk (.letE monadic pat bound next) ty) (mkOpenedLet monadic pat bound next')
  | ite {scrut thn els thn' els' : Texpr} {ty : Ty} (hthn : Updated cfg outputs newTy thn thn')
    (hels : Updated cfg outputs newTy els els') :
    Updated cfg outputs newTy (.mk (.switch scrut (.ite thn els)) ty) (.mk (.switch scrut (.ite thn' els')) newTy)
  | matchE {scrut : Texpr} {branches branches' : List (MatchBranch Texpr)} {ty : Ty}
    (hpats : branches'.map MatchBranch.pat = branches.map MatchBranch.pat)
    (hbranches : ∀ b ∈ branches.zip branches', Updated cfg outputs newTy b.1.branch b.2.branch) :
    Updated cfg outputs newTy (.mk (.switch scrut (.matchE branches)) ty)
      (.mk (.switch scrut (.matchE branches')) newTy)
  | emeta {m : EMeta Texpr} {e e' : Texpr} {ty : Ty} (he : Updated cfg outputs newTy e e') :
    Updated cfg outputs newTy (.mk (.emeta m e) ty) (mkEMeta m e')
  | eError {span : Option Span} {message : String} {ty : Ty} :
    Updated cfg outputs newTy (.mk (.eError span message) ty) (.mk (.eError span message) newTy)

section
variable {cfg : FuelConfig} {outputs : List (Option Texpr)} {newTy : Ty}

theorem updateValue_updated {e e' : Texpr} (h : updateValue outputs e = .ok e') (he : IsValue e) :
    Updated cfg outputs newTy e e' := by
  obtain ⟨_, hlen, h⟩ := bind_eq_ok.mp h
  obtain ⟨out, hout⟩ := length_eq_one_iff.mp (by simpa using sanityCheck_eq_ok.mp hlen : outputs.length = 1)
  rw [hout] at h
  obtain rfl := Except.ok.inj h
  exact .value he hout

theorem updateBranches_updated : ∀ {branches branches' : List (MatchBranch Texpr)},
    (∀ b ∈ branches, ∀ e', update cfg outputs newTy b.branch = .ok e' → Updated cfg outputs newTy b.branch e') →
    updateBranches cfg outputs newTy branches = .ok branches' →
    branches'.map MatchBranch.pat = branches.map MatchBranch.pat ∧
      ∀ b ∈ branches.zip branches', Updated cfg outputs newTy b.1.branch b.2.branch
  | [], _, _, h => by
    rw [updateBranches] at h
    obtain rfl := Except.ok.inj h
    exact ⟨rfl, by simp⟩
  | ⟨pat, branch⟩ :: branches, _, hbranches, h => by
    obtain ⟨hbranch, hbranches⟩ := forall_mem_cons.mp hbranches
    rw [updateBranches, updateBranch] at h
    obtain ⟨b, hb, h⟩ := bind_eq_ok.mp h
    obtain ⟨branch', hbranch', hb⟩ := bind_eq_ok.mp hb
    obtain rfl := Except.ok.inj hb
    obtain ⟨branches', hbranches', h⟩ := bind_eq_ok.mp h
    obtain rfl := Except.ok.inj h
    obtain ⟨hpats, hrest⟩ := updateBranches_updated hbranches hbranches'
    exact ⟨by simp [hpats], forall_mem_cons.mpr ⟨hbranch _ hbranch', hrest⟩⟩

theorem update_updated (e : Texpr) : ∀ e', update cfg outputs newTy e = .ok e' → Updated cfg outputs newTy e e' := by
  induction e using Texpr.induct with
  | h e ty ih =>
    intro e' h
    cases e with
    | bvar v =>
      rw [update] at h
      cases h
    | app f x =>
      simp only [update] at h
      obtain ⟨_, -, h⟩ := bind_eq_ok.mp h
      split at h
      · rename_i hexit
        have hcons : ∃ q x' ty' ty'', (Texpr.mk (.app f x) ty) = .mk (.app (.mk (.qualif q) ty'') x') ty' ∧
            destructApps (.mk (.app f x) ty) = (.mk (.qualif q) ty'', [x']) := by
          rcases Bool.or_eq_true_iff.mp hexit with hcons | hcons <;>
            obtain ⟨q, v, x', ty', ty'', he, -, -, hdestruct⟩ := Texpr.isConsOf_iff hcons <;>
            exact ⟨q, x', ty', ty'', he, hdestruct⟩
        obtain ⟨q, x', ty', ty'', he, hdestruct⟩ := hcons
        rw [updateExit, hdestruct] at h
        cases he
        exact .exit hexit h
      · rename_i hexit
        split at h
        · rename_i hok
          obtain ⟨x', hx, h⟩ := bind_eq_ok.mp h
          exact .ok hok (ih (.none, x) (by simp) x' hx) h
        · rename_i hok
          unfold updateTuple at h
          split at h
          · rename_i hsize
            obtain ⟨args, hargs, h⟩ := bind_eq_ok.mp h
            obtain rfl := destructTupleTexpr_eq_ok hargs
            obtain ⟨q, variantId, ty', args, hdestruct, hq, hlen, happs⟩ := getTupleSize_eq_some hsize
            rw [hdestruct] at h
            refine .tuple hq hlen happs ?_ (by simpa using hok) h
            simp [outcome, Texpr.e, hexit, hsize, hdestruct]
          · cases h
    | letE monadic pat bound next =>
      rw [update] at h
      obtain ⟨next', hnext, h⟩ := bind_eq_ok.mp h
      obtain rfl := Except.ok.inj h
      exact .letE (ih (.one pat, next) (by simp) next' hnext)
    | switch scrut body =>
      cases body with
      | ite thn els =>
        rw [update] at h
        obtain ⟨thn', hthn, h⟩ := bind_eq_ok.mp h
        obtain ⟨els', hels, h⟩ := bind_eq_ok.mp h
        obtain rfl := Except.ok.inj h
        exact .ite (ih (.none, thn) (by simp) thn' hthn)
          (ih (.none, els) (by simp) els' hels)
      | matchE branches =>
        rw [update] at h
        obtain ⟨branches', hbranches, h⟩ := bind_eq_ok.mp h
        obtain rfl := Except.ok.inj h
        obtain ⟨hpats, hupdated⟩ := updateBranches_updated (fun b hmem =>
          ih (.one b.pat, b.branch) (mem_cons_of_mem _ (mem_map.mpr ⟨b, hmem, rfl⟩))) hbranches
        exact .matchE hpats hupdated
    | loop l =>
      rw [update] at h
      cases h
    | emeta m e =>
      rw [update] at h
      obtain ⟨e'', he, h⟩ := bind_eq_ok.mp h
      obtain rfl := Except.ok.inj h
      exact .emeta (ih (.none, e) (by simp) e'' he)
    | eError span message =>
      rw [update] at h
      obtain rfl := Except.ok.inj h
      exact .eError
    | _ =>
      simp only [update] at h
      exact updateValue_updated h fun _ => rfl

end

end SimplifyLetBranching

end Aeneas.Pure
