import Aeneas.AddFuel
import Aeneas.PurePass

/-!
# The filter of the inputs and outputs of the loops

The breaks and the continues of a loop return one value for each output and for
each input of the loop. When inputs and outputs are filtered, the tails of the
body are updated to return the values of the other ones only. The bound variables
are open, as in the pass which filters the inputs (`opened_vars`); the pass which
filters the outputs opens and closes the binders around the same updates.
-/

namespace Aeneas.Pure

open List

namespace LoopFilter

/-! ## Loop results -/

def isUnitTy : Ty → Bool
  | .adt .tuple (.mk [] [] []) => true
  | _ => false

def mkLoopResultTy (continueTy breakTy : Ty) : Ty :=
  .adt (.builtin .loopResult) (mkGenericArgsFromTypes [continueTy, breakTy])

section
variable (cfg : FuelConfig)

def mkAdtTexpr (ty : Ty) (variantId : Option VariantId) (fields : List Texpr) : Except Exn Texpr := do
  let adt ← tyAsAdt ty
  mkQualifApps cfg { id := .adtCons { adtId := adt.1, variantId }, generics := adt.2 } fields ty

def mkLoopResultFailTexpr (continueTy breakTy : Ty) (error : Texpr) : Except Exn Texpr :=
  mkAdtTexpr cfg (mkLoopResultTy continueTy breakTy) (some loopResultFailId) [error]

def mkContinueTexpr (input : Texpr) (breakTy : Ty) : Except Exn Texpr :=
  mkAdtTexpr cfg (mkLoopResultTy input.ty breakTy) (some loopResultContinueId) [input]

def mkBreakTexpr (continueTy : Ty) (output : Texpr) : Except Exn Texpr :=
  mkAdtTexpr cfg (mkLoopResultTy continueTy output.ty) (some loopResultBreakId) [output]

end

def loopResultArg (e : Texpr) : Except Exn (Option (VariantId × Texpr)) :=
  match (destructApps e).1.e with
  | .qualif q =>
    match q.id with
    | .adtCons { adtId := .builtin .loopResult, variantId := some variantId } =>
      match (destructApps e).2, q.generics with
      | [arg], .mk [_, _] [] [] => .ok (some (variantId, arg))
      | _, _ => internalError
    | _ => .ok none
  | _ => .ok none

/-- The components of a tuple: its fields, or new variables if it is not a constructor. -/
inductive Components where
  | fields (l : List Texpr)
  | named (types : List Ty)

def components (e : Texpr) : Except Exn Components :=
  match e.ty with
  | .adt .tuple generics => do
    sanityCheck generics.onlyTypes
    match getTupleSize e with
    | some size => do
      sanityCheck (generics.types.length == size)
      .ok (.fields (destructApps e).2)
    | none => .ok (.named generics.types)
  | _ => .ok (.fields [e])

def freshFVars : List Ty → EnvM FVarId (List FVar)
  | [] => pure []
  | ty :: types => do
    let id ← freshFVar
    let fvars ← freshFVars types
    pure ({ id, basename := none, ty } :: fvars)

def nameComponents (e : Texpr) : Components → EnvM FVarId (List Texpr × (Texpr → Texpr))
  | .fields l => pure (l, id)
  | .named types => do
    let fvars ← freshFVars types
    pure (fvars.map mkTexprFromFVar, mkOpenedLet false (mkSimplTuplePat (fvars.map mkTPatFromFVar)) e)

/-! ## The update -/

def selected {α : Type} : List Bool → List α → List α
  | true :: keep, a :: l => a :: selected keep l
  | false :: keep, _ :: l => selected keep l
  | _, _ => []

structure Filter where
  inputs : List TPat
  keepOutputs : List Bool
  keepInputs : List Bool
  continueTy : Ty
  breakTy : Ty

def Filter.isSingleUnit (F : Filter) : Bool :=
  match F.inputs with
  | [pat] => isUnitTy pat.ty
  | _ => false

section
variable (cfg : FuelConfig) (F : Filter)

/-- The special case of the single unit input is for the inputs and for the outputs. -/
def filterArgs (keep : List Bool) (args : List Texpr) : Except Exn Texpr :=
  if F.isSingleUnit then mkSimplTupleTexpr cfg []
  else do
    sanityCheck (keep.length == args.length)
    mkSimplTupleTexpr cfg (selected keep args)

def updateLoopResult (variantId : VariantId) (args : List Texpr) : Except Exn Texpr :=
  if variantId = loopResultBreakId then do
    let outputs ← filterArgs cfg F F.keepOutputs args
    mkBreakTexpr cfg F.continueTy outputs
  else if variantId = loopResultContinueId then do
    let inputs ← filterArgs cfg F F.keepInputs args
    mkContinueTexpr cfg inputs F.breakTy
  else do
    sanityCheck (variantId == loopResultFailId)
    let arg ← mkSimplTupleTexpr cfg args
    mkLoopResultFailTexpr cfg F.continueTy F.breakTy arg

/-- Only the arguments of the breaks and of the continues are decomposed. -/
def resultComponents (variantId : VariantId) (arg : Texpr) : Except Exn Components :=
  if variantId = loopResultBreakId ∨ variantId = loopResultContinueId then components arg else .ok (.fields [arg])

def updateTail (e : Texpr) : EnvM FVarId Texpr := do
  match ← liftM (loopResultArg e) with
  | none => pure e
  | some r => do
    let c ← liftM (resultComponents r.1 r.2)
    let x ← nameComponents r.2 c
    let e ← liftM (updateLoopResult cfg F r.1 x.1)
    pure (x.2 e)

def mkMatch (scrut : Texpr) : List (MatchBranch Texpr) → Except Exn Texpr
  | [] => craise "Unexpected: match with no branches"
  | b :: branches => .ok (.mk (.switch scrut (.matchE (b :: branches))) b.branch.ty)

mutual

def update : Texpr → EnvM FVarId Texpr
  | .mk (.app f x) ty => updateTail cfg F (.mk (.app f x) ty)
  | .mk (.qualif q) ty => updateTail cfg F (.mk (.qualif q) ty)
  | .mk (.eError span message) ty => pure (.mk (.eError span message) ty)
  | .mk (.letE monadic pat bound next) _ => do
    let next ← update next
    pure (mkOpenedLet monadic pat bound next)
  | .mk (.switch scrut (.ite thn els)) _ => do
    let thn ← update thn
    let els ← update els
    pure (.mk (.switch scrut (.ite thn els)) thn.ty)
  | .mk (.switch scrut (.matchE branches)) _ => do
    let branches ← updateBranches branches
    liftM (mkMatch scrut branches)
  | .mk (.emeta m e) _ => do
    let e ← update e
    pure (mkEMeta m e)
  | _ => liftM (internalError : Except Exn Texpr)

def updateBranches : List (MatchBranch Texpr) → EnvM FVarId (List (MatchBranch Texpr))
  | [] => pure []
  | b :: branches => do
    let b ← updateBranch b
    let branches ← updateBranches branches
    pure (b :: branches)

def updateBranch : MatchBranch Texpr → EnvM FVarId (MatchBranch Texpr)
  | ⟨pat, branch⟩ => do
    let branch ← update branch
    pure ⟨pat, branch⟩

end

def updateContinueBreak (body : Texpr) : EnvM FVarId (LoopBody Texpr) := do
  liftM (if F.keepInputs.length = F.inputs.length then .ok () else .error (.invalidArgument "List.combine") :
    Except Exn Unit)
  let loopBody ← update cfg F body
  pure { inputs := selected F.keepInputs F.inputs, loopBody }

end

/-! ## Tails -/

mutual

def tails : Texpr → List Texpr
  | .mk (.letE _ _ _ next) _ => tails next
  | .mk (.switch _ (.ite thn els)) _ => tails thn ++ tails els
  | .mk (.switch _ (.matchE branches)) _ => tailsBranches branches
  | .mk (.emeta _ e) _ => tails e
  | e => [e]

def tailsBranches : List (MatchBranch Texpr) → List Texpr
  | [] => []
  | b :: branches => tailsBranch b ++ tailsBranches branches

def tailsBranch : MatchBranch Texpr → List Texpr
  | ⟨_, branch⟩ => tails branch

end

section
variable (R : Texpr → Texpr → Prop)

mutual

/-- The expressions differ by their tails only, which are related. -/
def Along : Texpr → Texpr → Prop
  | .mk (.letE monadic pat bound next) _, e' =>
    ∃ next' ty', e' = .mk (.letE monadic pat bound next') ty' ∧ Along next next'
  | .mk (.switch scrut (.ite thn els)) _, e' =>
    ∃ thn' els' ty', e' = .mk (.switch scrut (.ite thn' els')) ty' ∧ Along thn thn' ∧ Along els els'
  | .mk (.switch scrut (.matchE branches)) _, e' =>
    ∃ branches' ty', e' = .mk (.switch scrut (.matchE branches')) ty' ∧ AlongBranches branches branches'
  | .mk (.emeta m e) _, e' => ∃ x ty', e' = .mk (.emeta m x) ty' ∧ Along e x
  | e, e' => R e e'

def AlongBranches : List (MatchBranch Texpr) → List (MatchBranch Texpr) → Prop
  | [], branches' => branches' = []
  | b :: branches, branches' => ∃ b' bs', branches' = b' :: bs' ∧ AlongBranch b b' ∧ AlongBranches branches bs'

def AlongBranch : MatchBranch Texpr → MatchBranch Texpr → Prop
  | ⟨pat, branch⟩, b' => b'.pat = pat ∧ Along branch b'.branch

end

end

def BreaksWith (e arg : Texpr) (c : Components) : Prop :=
  loopResultArg e = .ok (some (loopResultBreakId, arg)) ∧ components arg = .ok c

section
variable (cfg : FuelConfig) (F : Filter)

def ReturnsKept (e e' : Texpr) : Prop := ∀ arg c, BreaksWith e arg c → ∃ s x s' out b,
  nameComponents arg c s = .ok (x, s') ∧ mkSimplTupleTexpr cfg (selected F.keepOutputs x.1) = .ok out ∧
    mkBreakTexpr cfg F.continueTy out = .ok b ∧ e' = x.2 b

end

def mkUnitTexpr : Texpr :=
  .mk (.qualif { id := .adtCons { adtId := .tuple, variantId := none }, generics := mkGenericArgsFromTypes [] })
    (.adt .tuple (mkGenericArgsFromTypes []))

def Components.OnlyUnit (keep : List Bool) : Components → Prop
  | .fields l => selected keep l = [] ∨ selected keep l = [mkUnitTexpr]
  | .named types => selected keep types = []

def BreaksUnit (keep : List Bool) (e : Texpr) : Prop := ∀ arg c, BreaksWith e arg c → c.OnlyUnit keep

section
variable {cfg : FuelConfig} {F : Filter} {s s' : FVarId}

theorem isApps_cons {f x e : Texpr} {args : List Texpr} (h : IsApps f (x :: args) e) :
    ∃ g y ty, e = .mk (.app g y) ty := by
  induction args generalizing f x with
  | nil =>
    cases h with
    | cons ty h =>
      cases h
      exact ⟨f, x, ty, rfl⟩
  | cons y args ih =>
    cases h with
    | cons ty h => exact ih h

theorem mkSimplTupleTexpr_eq_unit {l : List Texpr} :
    mkSimplTupleTexpr cfg l = .ok mkUnitTexpr ↔ l = [] ∨ l = [mkUnitTexpr] := by
  constructor
  · intro h
    match l with
    | [] => exact .inl rfl
    | [x] =>
      obtain rfl : x = mkUnitTexpr := Except.ok.inj h
      exact .inr rfl
    | x :: y :: l =>
      obtain ⟨g, z, ty, heq⟩ := isApps_cons (isApps_mkApps (show mkApps cfg _ (x :: y :: l) = .ok mkUnitTexpr from h))
      cases heq
  · rintro (rfl | rfl) <;> rfl

theorem selected_map {α β : Type} (f : α → β) : ∀ (keep : List Bool) (l : List α),
    selected keep (l.map f) = (selected keep l).map f
  | true :: keep, a :: l => congrArg (f a :: ·) (selected_map f keep l)
  | false :: keep, _ :: l => selected_map f keep l
  | [], _ | true :: _, [] | false :: _, [] => rfl

theorem freshFVars_types : ∀ {types : List Ty} {s s' : FVarId} {fvars : List FVar},
    freshFVars types s = .ok (fvars, s') → fvars.map FVar.ty = types
  | [], _, _, _, h => by
    cases h
    rfl
  | ty :: types, s, s', fvars, h => by
    obtain ⟨id, s₁, -, h⟩ := run_bind_eq_ok h
    obtain ⟨l, s₂, hl, h⟩ := run_bind_eq_ok h
    cases h
    exact congrArg (ty :: ·) (freshFVars_types hl)

theorem mkBreakTexpr_eq (cfg : FuelConfig) (continueTy : Ty) (out : Texpr) : ∃ q fty ty,
    mkBreakTexpr cfg continueTy out = .ok (.mk (.app (.mk (.qualif q) fty) out) ty) := ⟨_, _, _, rfl⟩

theorem mkBreakTexpr_inj {continueTy : Ty} {out out' b : Texpr} (h : mkBreakTexpr cfg continueTy out = .ok b)
    (h' : mkBreakTexpr cfg continueTy out' = .ok b) : out = out' := by
  obtain ⟨q, fty, ty, heq⟩ := mkBreakTexpr_eq cfg continueTy out
  obtain ⟨q', fty', ty', heq'⟩ := mkBreakTexpr_eq cfg continueTy out'
  cases (Except.ok.inj (heq.symm.trans h)).trans (Except.ok.inj (heq'.symm.trans h')).symm
  rfl

section
variable {arg : Texpr} {c : Components} {x x' : List Texpr × (Texpr → Texpr)}

theorem nameComponents_inj {s₁ s₁' : FVarId} {b b' : Texpr} (h : nameComponents arg c s = .ok (x, s'))
    (h' : nameComponents arg c s₁ = .ok (x', s₁')) (hb : x.2 b = x'.2 b') : b = b' := by
  cases c with
  | fields l =>
    cases h
    cases h'
    exact hb
  | named types =>
    obtain ⟨fvars, s₂, -, h⟩ := run_bind_eq_ok h
    obtain ⟨fvars', s₂', -, h'⟩ := run_bind_eq_ok h'
    cases h
    cases h'
    exact (Expr.letE.inj (Texpr.mk.inj hb).1).2.2.2

theorem onlyUnit_iff {keep : List Bool} (h : nameComponents arg c s = .ok (x, s')) :
    c.OnlyUnit keep ↔ selected keep x.1 = [] ∨ selected keep x.1 = [mkUnitTexpr] := by
  cases c with
  | fields l =>
    cases h
    exact Iff.rfl
  | named types =>
    obtain ⟨fvars, s₁, hfvars, h⟩ := run_bind_eq_ok h
    cases h
    rw [Components.OnlyUnit, ← freshFVars_types hfvars, selected_map, selected_map, map_eq_nil_iff,
      map_eq_nil_iff]
    refine ⟨.inl, fun h => h.elim (fun h => h) fun h => ?_⟩
    -- a variable is not the unit value
    obtain ⟨v, -, hv⟩ := mem_map.mp (h.symm ▸ mem_singleton_self mkUnitTexpr)
    cases hv

end

theorem updateTail_break {e e' arg : Texpr} {c : Components} (hunit : F.isSingleUnit = true)
    (hbreak : BreaksWith e arg c) (h : updateTail cfg F e s = .ok (e', s')) :
    ∃ x b, nameComponents arg c s = .ok (x, s') ∧
      mkBreakTexpr cfg F.continueTy mkUnitTexpr = .ok b ∧ e' = x.2 b := by
  obtain ⟨r, s₁, hrun, h⟩ := run_bind_eq_ok h
  obtain ⟨hr, rfl⟩ := run_liftM hrun
  cases hr.symm.trans hbreak.1
  obtain ⟨c', s₂, hrun, h⟩ := run_bind_eq_ok h
  obtain ⟨hc, rfl⟩ := run_liftM hrun
  have hcomponents : resultComponents loopResultBreakId arg = .ok c := (if_pos (.inl rfl)).trans hbreak.2
  cases hc.symm.trans hcomponents
  obtain ⟨x, s₃, hx, h⟩ := run_bind_eq_ok h
  obtain ⟨b, s₄, hrun, hpure⟩ := run_bind_eq_ok h
  obtain ⟨hb, rfl⟩ := run_liftM hrun
  cases hpure
  have hfilter : filterArgs cfg F F.keepOutputs x.1 = .ok mkUnitTexpr := if_pos hunit
  refine ⟨x, b, hx, ?_, rfl⟩
  obtain ⟨out, hout, hb⟩ := bind_eq_ok.mp hb
  cases hfilter.symm.trans hout
  exact hb

theorem updateTail_iff {e e' : Texpr} (hunit : F.isSingleUnit = true) (h : updateTail cfg F e s = .ok (e', s')) :
    ReturnsKept cfg F e e' ↔ BreaksUnit F.keepOutputs e := by
  refine forall_congr' fun arg => forall_congr' fun c => forall_congr' fun hbreak => ?_
  obtain ⟨x, b, hx, hb, rfl⟩ := updateTail_break hunit hbreak h
  constructor
  · rintro ⟨s₁, x₁, s₁', out, b₁, hx₁, hout, hb₁, heq⟩
    obtain rfl := nameComponents_inj hx hx₁ heq
    obtain rfl := mkBreakTexpr_inj hb hb₁
    exact (onlyUnit_iff hx₁).mpr (mkSimplTupleTexpr_eq_unit.mp hout)
  · intro hunit
    exact ⟨s, x, s', mkUnitTexpr, b, hx, mkSimplTupleTexpr_eq_unit.mpr ((onlyUnit_iff hx).mp hunit), hb, rfl⟩

theorem updateBranches_iff : ∀ {branches branches' : List (MatchBranch Texpr)} {s s' : FVarId},
    (∀ b ∈ branches, ∀ {e' s s'}, update cfg F b.branch s = .ok (e', s') →
      (Along (ReturnsKept cfg F) b.branch e' ↔ ∀ l ∈ tails b.branch, BreaksUnit F.keepOutputs l)) →
    updateBranches cfg F branches s = .ok (branches', s') →
    (AlongBranches (ReturnsKept cfg F) branches branches' ↔ ∀ l ∈ tailsBranches branches, BreaksUnit F.keepOutputs l)
  | [], _, _, _, _, h => by
    cases h
    exact ⟨fun _ l hl => (not_mem_nil hl).elim, fun _ => rfl⟩
  | ⟨pat, branch⟩ :: branches, branches', s, s', hupdate, h => by
    obtain ⟨hb, hbranches⟩ := forall_mem_cons.mp hupdate
    obtain ⟨b', s₁, hrun, h⟩ := run_bind_eq_ok h
    obtain ⟨bs', s₂, hbs, h⟩ := run_bind_eq_ok h
    cases h
    obtain ⟨branch', s₃, hbranch, hrun⟩ := run_bind_eq_ok hrun
    cases hrun
    have hiff := updateBranches_iff hbranches hbs
    rw [show tailsBranches (⟨pat, branch⟩ :: branches) = tails branch ++ tailsBranches branches from rfl,
      forall_mem_append, ← hb hbranch, ← hiff]
    constructor
    · rintro ⟨b', bs', heq, ⟨-, hx⟩, hxs⟩
      cases heq
      exact ⟨hx, hxs⟩
    · rintro ⟨hx, hxs⟩
      exact ⟨_, _, rfl, ⟨rfl, hx⟩, hxs⟩

theorem update_iff (hunit : F.isSingleUnit = true) (e : Texpr) :
    ∀ {e' : Texpr} {s s' : FVarId}, update cfg F e s = .ok (e', s') →
    (Along (ReturnsKept cfg F) e e' ↔ ∀ l ∈ tails e, BreaksUnit F.keepOutputs l) := by
  induction e using Texpr.induct with
  | h e ty ih =>
    intro e' s s' h
    -- an expression of another kind is an error, or it is not a break
    have hleaf : ∀ {x x' : Texpr}, loopResultArg x = .ok none →
      (ReturnsKept cfg F x x' ↔ BreaksUnit F.keepOutputs x) := by
      intro x x' hx
      refine forall_congr' fun arg => forall_congr' fun c => forall_congr' fun hbreak => ?_
      cases hx.symm.trans hbreak.1
    cases e with
    | app f x | qualif q => exact (updateTail_iff hunit h).trans forall_mem_singleton.symm
    | eError span message =>
      cases h
      exact (hleaf rfl).trans forall_mem_singleton.symm
    | letE monadic pat bound next =>
      obtain ⟨next', s₁, hnext, h⟩ := run_bind_eq_ok h
      cases h
      have hiff := ih (.one pat, next) (by simp [Expr.children]) hnext
      refine Iff.trans ?_ hiff
      constructor
      · rintro ⟨x, ty', heq, hx⟩
        cases heq
        exact hx
      · exact fun hx => ⟨next', _, rfl, hx⟩
    | emeta m x =>
      obtain ⟨x', s₁, hx, h⟩ := run_bind_eq_ok h
      cases h
      have hiff := ih (.none, x) (by simp [Expr.children]) hx
      refine Iff.trans ?_ hiff
      constructor
      · rintro ⟨x, ty', heq, hx⟩
        cases heq
        exact hx
      · exact fun hx => ⟨x', _, rfl, hx⟩
    | switch scrut body =>
      cases body with
      | ite thn els =>
        obtain ⟨thn', s₁, hthn, h⟩ := run_bind_eq_ok h
        obtain ⟨els', s₂, hels, h⟩ := run_bind_eq_ok h
        cases h
        have hiff := ih (.none, thn) (by simp [Expr.children, SwitchBody.children]) hthn
        have hiff' := ih (.none, els) (by simp [Expr.children, SwitchBody.children]) hels
        refine Iff.trans ?_ ((and_congr hiff hiff').trans forall_mem_append.symm)
        constructor
        · rintro ⟨x, y, ty', heq, hx, hy⟩
          cases heq
          exact ⟨hx, hy⟩
        · exact fun hx => ⟨thn', els', _, rfl, hx.1, hx.2⟩
      | matchE branches =>
        obtain ⟨branches', s₁, hbranches, h⟩ := run_bind_eq_ok h
        obtain ⟨h, rfl⟩ := run_liftM h
        have hiff := updateBranches_iff (fun b hb => ih (.one b.pat, b.branch) (by
          simpa [Expr.children, SwitchBody.children] using ⟨b, hb, rfl, rfl⟩)) hbranches
        refine Iff.trans ?_ hiff
        cases branches' with
        | nil => cases h
        | cons b bs =>
          cases h
          constructor
          · rintro ⟨x, ty', heq, hx⟩
            cases heq
            exact hx
          · exact fun hx => ⟨_, _, rfl, hx⟩
    | _ => cases h

end

/-! ## Loops with one input of type unit -/

/-- When the only input has type unit, each break returns exactly the kept outputs if and only if each break
keeps nothing but a unit value. -/
theorem updateContinueBreak_single_unit_iff {cfg : FuelConfig} {F : Filter} {pat : TPat} {body : Texpr}
    {body' : LoopBody Texpr} {s s' : FVarId} (hinputs : F.inputs = [pat]) (hunit : isUnitTy pat.ty = true)
    (h : updateContinueBreak cfg F body s = .ok (body', s')) :
    Along (ReturnsKept cfg F) body body'.loopBody ↔ ∀ l ∈ tails body, BreaksUnit F.keepOutputs l := by
  have hsingle : F.isSingleUnit = true := by
    unfold Filter.isSingleUnit
    rwa [hinputs]
  obtain ⟨-, s₁, -, h⟩ := run_bind_eq_ok h
  obtain ⟨e', s₂, he, h⟩ := run_bind_eq_ok h
  cases h
  exact update_iff hsingle body he

/-- A loop with the ignored input of type unit, and one output which is kept. -/
def unitFilter (output : Texpr) : Filter where
  inputs := [.mk .ignored mkUnitTexpr.ty]
  keepOutputs := [true]
  keepInputs := [false]
  continueTy := mkUnitTexpr.ty
  breakTy := output.ty

/-- `break output` -/
def breakBody (output : Texpr) : Texpr :=
  let generics := mkGenericArgsFromTypes [mkUnitTexpr.ty, output.ty]
  let ty := .adt (.builtin .loopResult) generics
  .mk (.app
    (.mk (.qualif { id := .adtCons { adtId := .builtin .loopResult, variantId := some loopResultBreakId }, generics })
    (.arrow output.ty ty)) output) ty

/-- `if true { break output } else { let _ = true; break output }` -/
def branchingBody (output : Texpr) : Texpr :=
  let brk := breakBody output
  .mk (.switch mkTrue (.ite brk (mkOpenedLet false (.mk .ignored mkTrue.ty) mkTrue brk))) brk.ty

/-- The output of the loop is dropped. -/
def dropFilter : Filter := { unitFilter mkTrue with keepOutputs := [false] }

theorem updateContinueBreak_single_unit_iff_branches : ∃ body',
    updateContinueBreak leanConfig dropFilter (branchingBody mkTrue) 0 = .ok (body', 0) ∧
      Along (ReturnsKept leanConfig dropFilter) (branchingBody mkTrue) body'.loopBody := by
  have hrun : updateContinueBreak leanConfig dropFilter (branchingBody mkTrue) 0 =
      .ok ({ inputs := [], loopBody := branchingBody mkUnitTexpr }, 0) := rfl
  refine ⟨_, hrun, (updateContinueBreak_single_unit_iff rfl rfl hrun).mpr ?_⟩
  intro l hl arg c hbreak
  have hl : l = breakBody mkTrue := by simpa [branchingBody, tails, mkOpenedLet, breakBody] using hl
  subst hl
  cases hbreak.1
  cases hbreak.2
  exact .inl rfl

/-- The break returned `true` and returns the unit value. -/
theorem updateContinueBreak_drops_output :
    updateContinueBreak leanConfig (unitFilter mkTrue) (breakBody mkTrue) 0 =
      .ok ({ inputs := [], loopBody := breakBody mkUnitTexpr }, 0) ∧
    ¬ Along (ReturnsKept leanConfig (unitFilter mkTrue)) (breakBody mkTrue) (breakBody mkUnitTexpr) := by
  refine ⟨rfl, fun h => ?_⟩
  obtain ⟨s, x, s', out, b, hx, hout, hb, heq⟩ := h mkTrue (.fields [mkTrue]) ⟨rfl, rfl⟩
  cases hx
  cases hout
  cases hb
  cases heq

end LoopFilter

end Aeneas.Pure
