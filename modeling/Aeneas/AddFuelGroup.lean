import Aeneas.AddFuelBody
import Aeneas.DecomposeLets

/-!
# Fuel adequacy of a group of functions

The pass opens the bodies and closes them again, which does not change their
meaning, and decomposes the monadic let-bindings if the backend asks for it. The
functions of a group with fuel are then the unfoldings with fuel of the original
functions.
-/

namespace Aeneas.Pure

open Fuel

section
variable {D X : Type} {I : Interp D X} {isCall : FunKey → Bool}

theorem fuelledEval_close {fbody : FunBody} (h : fbody.WellScoped) (isRec : Bool) (call : FunCalls D X) (d : D)
    (args : List (Value X)) (n : Nat) :
    fuelledEval I isCall isRec fbody.close call d args n = fuelledEval I isCall isRec fbody call d args n := by
  have hinputs : (matchTPats fbody.close.inputs args).map (fun _ => (.outOfFuel : Value X)) =
      (matchTPats fbody.inputs args).map fun _ => .outOfFuel := by
    rw [FunBody.close, closeTPats, (envSim_closes I fun _ => false).match_mapVars]
    cases matchTPats fbody.inputs args <;> rfl
  cases n <;> simp only [fuelledEval, h.eval_close, hinputs]

end

/-! ## Running the pass -/

theorem mkFreshFuelVar_ok {needed : Bool} {fresh fresh' : FVarId} {v : Option FVar}
    (h : mkFreshFuelVar needed fresh = .ok (v, fresh')) :
    if needed then v = some (mkFuelFVar fresh) ∧ fresh' = fresh + 1 else v = none := by
  cases needed <;> cases h
  · rfl
  · exact ⟨rfl, rfl⟩

section
variable {D X : Type} (I : Interp D X) {isCall : FunKey → Bool} {cfg : FuelConfig} {ctx : PassCtx}
  {loops : IdMap LoopId FunDef} {def_ def' : FunDef} {fresh fresh' : FVarId}

structure FuelledBody (isCall : FunKey → Bool) (effect : FunEffectInfo) (fbody fbody' : FunBody) : Prop where
  closed : fbody'.IsClosed fun _ => false
  fuelled : Fuelled I isCall effect fbody fbody'

structure FuelledDef (isCall : FunKey → Bool) (def_ def' : FunDef) : Prop where
  key : def'.key = def_.key
  body : Option.Rel (FuelledBody I isCall def_.signature.effectInfo) def_.body def'.body

theorem addFuelOne_ok (hadds : AddsFuel cfg ctx loops def_.defId isCall)
    (hclosed : ∀ fbody ∈ def_.body, fbody.IsClosed fun _ => false)
    (hready : ∀ fbody ∈ def_.body, fbody.body.ready isCall = true)
    (h : addFuelOne cfg ctx loops def_ fresh = .ok (def', fresh')) : FuelledDef I isCall def_ def' := by
  unfold addFuelOne at h
  obtain ⟨body, s₁, hopen, h⟩ := run_bind_eq_ok h
  obtain ⟨fuel0, s₂, hfuel0, h⟩ := run_bind_eq_ok h
  obtain ⟨fuel, s₃, hfuel, h⟩ := run_bind_eq_ok h
  obtain ⟨body', s₄, hbody, h⟩ := run_bind_eq_ok h
  obtain ⟨body'', s₅, hclose, h⟩ := run_bind_eq_ok h
  obtain ⟨rfl, rfl⟩ := Prod.mk.inj (Except.ok.inj h)
  refine ⟨rfl, ?_⟩
  cases hdef : def_.body with
  | none =>
    rw [hdef] at hopen
    cases hopen
    cases hbody
    cases hclose
    exact .none
  | some fbody =>
    rw [hdef] at hopen
    obtain ⟨fvars, b, k, hopen', rfl, hb, hids⟩ := openAllFunBody_closed (hclosed fbody (by simp [hdef])) fresh
    have hready' : b.body.ready isCall = true := by
      rw [← b.body.ready_closeIn [tpatsIds b.inputs]]
      exact hready b.close (by simp [hdef])
    obtain ⟨r, hr, hopen⟩ := bind_eq_ok.mp hopen
    obtain rfl := Except.ok.inj (hopen'.symm.trans hr)
    cases hopen
    obtain ⟨⟨⟩, -⟩ | ⟨b₀, b', hb₀, hbody, rfl⟩ := run_optionMapM hbody
    obtain rfl := Option.some.inj hb₀
    obtain ⟨hadd, rfl⟩ := run_liftM hbody
    obtain ⟨⟨⟩, -⟩ | ⟨b₁, c, hb₁, hclose, rfl⟩ := run_optionMapM hclose
    obtain rfl := Option.some.inj hb₁
    obtain ⟨hclose, -⟩ := run_liftM hclose
    have hfuel0' := mkFreshFuelVar_ok hfuel0
    have hfuel' := mkFreshFuelVar_ok hfuel
    refine .some ?_
    cases hdiv : def_.signature.effectInfo.canDiverge with
    | false =>
      simp only [hdiv, Bool.false_and, Bool.false_eq_true, if_false] at hfuel0' hfuel'
      subst hfuel0' hfuel'
      obtain ⟨hb', heval⟩ := addFuelBody_terminates (I := I) hadds hb hready' hadd
      obtain rfl := Except.ok.inj (hb'.close.symm.trans hclose)
      refine ⟨hb'.isClosed, ⟨fun h => by simp [hdiv] at h, fun _ call call' d args => ?_⟩⟩
      rw [hb'.eval_close, hb.eval_close]
      exact heval call call' d args
    | true =>
      simp only [hdiv, hadds.use, Bool.and_true, if_true] at hfuel0' hfuel'
      obtain ⟨rfl, rfl⟩ := hfuel0'
      obtain ⟨rfl, -⟩ := hfuel'
      have hnot : ∀ i, (mkFuelFVar (fresh + k + i)).id ∉ b.binderIds := by
        intro i
        simp only [hids, mkFuelFVar, List.mem_range'_1]
        omega
      obtain ⟨hb', heval⟩ := addFuelBody_diverges (I := I) hadds hb hready' (hnot 0) (hnot 1)
        (Nat.ne_of_lt (Nat.lt_succ_self _)) hadd
      obtain rfl := Except.ok.inj (hb'.close.symm.trans hclose)
      refine ⟨hb'.isClosed, ⟨fun _ call d args n => ?_, fun h => by simp [hdiv] at h⟩⟩
      rw [hb'.eval_close, fuelledEval_close hb]
      exact heval call d args n

theorem FuelledBody.trans {effect : FunEffectInfo} {fbody fbody' fbody'' : FunBody}
    (h : FuelledBody I isCall effect fbody fbody') (h' : SameBody I isCall fbody' fbody'') :
    FuelledBody I isCall effect fbody fbody'' := by
  refine ⟨h'.closed, ⟨fun hdiv call d args n => ?_, fun hdiv call call' d args => ?_⟩⟩
  · rw [h'.eval, h.fuelled.diverges hdiv]
  · rw [h'.eval, h.fuelled.terminates hdiv call]

theorem decompose_fuelledDef {depth : Nat} {def'' : FunDef} (h : FuelledDef I isCall def_ def')
    (hdecompose : decomposeMonadicLetBindings depth def' fresh = .ok (def'', fresh')) :
    FuelledDef I isCall def_ def'' := by
  obtain ⟨key, hbody⟩ := h
  unfold decomposeMonadicLetBindings at hdecompose
  obtain ⟨body, s, hrun, hdecompose⟩ := run_bind_eq_ok hdecompose
  cases hdecompose
  refine ⟨key, ?_⟩
  obtain ⟨hnone, rfl, -⟩ | ⟨b, c, hb, hc, rfl⟩ := run_optionMapM hrun
  · rwa [hnone] at hbody
  · rw [hb] at hbody
    show Option.Rel _ _ (some c)
    cases hdef : def_.body with
    | none =>
      rw [hdef] at hbody
      cases hbody
    | some a =>
      rw [hdef] at hbody
      cases hbody with
      | some hab => exact .some (hab.trans I (decomposeBody_ok I isCall hab.closed hc))

/-! ## The pass on a translation -/

theorem mapM_forall₂ {σ α β : Type} {f : α → EnvM σ β} {R : α → β → Prop} :
    ∀ {l : List α} {r : List β} {s s' : σ}, (∀ a ∈ l, ∀ b s s', f a s = .ok (b, s') → R a b) →
      l.mapM f s = .ok (r, s') → List.Forall₂ R l r
  | [], _, _, _, _, h => by
    cases h
    exact .nil
  | a :: l, _, _, _, hR, h => by
    rw [List.mapM_cons] at h
    obtain ⟨b, s₁, hb, h⟩ := run_bind_eq_ok h
    obtain ⟨bs, s₂, hbs, h⟩ := run_bind_eq_ok h
    cases h
    exact .cons (hR a (by simp) b _ _ hb) (mapM_forall₂ (fun a ha => hR a (by simp [ha])) hbs)

end

theorem forall₂_trans {α β γ : Type} {R : α → β → Prop} {S : β → γ → Prop} {T : α → γ → Prop}
    (hRST : ∀ a b c, R a b → S b c → T a c) : ∀ {l : List α} {l' : List β} {l'' : List γ},
      List.Forall₂ R l l' → List.Forall₂ S l' l'' → List.Forall₂ T l l''
  | _, _, _, .nil, .nil => .nil
  | _, _, _, .cons hR h, .cons hS h' => .cons (hRST _ _ _ hR hS) (forall₂_trans hRST h h')

def PureFunTranslation.funs (trans : PureFunTranslation) : List FunDef := trans.f :: (trans.loops ++ trans.bodies)

section
variable {D X : Type} (I : Interp D X)

/-- What the pass assumes of the functions of a translation: the flags are the ones of the functions which may
diverge, and the bodies are closed and ready for the fuel. -/
structure FuelReady (ctx : PassCtx) (isCall : FunKey → Bool) (trans : PureFunTranslation) : Prop where
  flags : ∀ loops, loopsMap trans.loops = .ok loops → ∀ def_ ∈ trans.funs, ∀ key def',
    lookupDecl ctx loops def_.defId key = .ok def' → def'.signature.effectInfo.canDiverge = isCall key
  effects : ∀ def_ ∈ trans.funs, def_.signature.effectInfo.canDiverge = isCall def_.key
  closed : ∀ def_ ∈ trans.funs, ∀ fbody ∈ def_.body, fbody.IsClosed fun _ => false
  ready : ∀ def_ ∈ trans.funs, ∀ fbody ∈ def_.body, fbody.body.ready isCall = true

theorem addFuel_ok {cfg : FuelConfig} {ctx : PassCtx} {isCall : FunKey → Bool} {depth : Nat}
    {trans trans' : PureFunTranslation} {fresh fresh' : FVarId} (huse : cfg.useFuel = true)
    (hready : FuelReady ctx isCall trans) (h : addFuel cfg ctx depth trans fresh = .ok (trans', fresh')) :
    List.Forall₂ (FuelledDef I isCall) trans.funs trans'.funs := by
  unfold addFuel at h
  obtain ⟨loops, s₁, hlift, h⟩ := run_bind_eq_ok h
  obtain ⟨hloops, -⟩ := run_liftM hlift
  obtain ⟨f, s₂, hf, h⟩ := run_bind_eq_ok h
  obtain ⟨fLoops, s₃, hfLoops, h⟩ := run_bind_eq_ok h
  obtain ⟨bodies, s₄, hbodies, h⟩ := run_bind_eq_ok h
  have hone : ∀ def_ ∈ trans.funs, ∀ def' s s', addFuelOne cfg ctx loops def_ s = .ok (def', s') →
      FuelledDef I isCall def_ def' := by
    intro def_ hdef def' s s' h
    exact addFuelOne_ok I ⟨huse, hready.flags loops hloops def_ hdef⟩ (hready.closed def_ hdef)
      (hready.ready def_ hdef) h
  have hf₁ := hone trans.f (by simp [PureFunTranslation.funs]) _ _ _ hf
  have hloops₁ := mapM_forall₂ (fun a ha => hone a (by simp [PureFunTranslation.funs, ha])) hfLoops
  have hbodies₁ := mapM_forall₂ (fun a ha => hone a (by simp [PureFunTranslation.funs, ha])) hbodies
  split at h
  · obtain ⟨f', s₅, hf', h⟩ := run_bind_eq_ok h
    obtain ⟨fLoops', s₆, hfLoops', h⟩ := run_bind_eq_ok h
    obtain ⟨bodies', s₇, hbodies', h⟩ := run_bind_eq_ok h
    cases h
    have hdecompose : ∀ a b c, FuelledDef I isCall a b →
        (∃ s s', decomposeMonadicLetBindings depth b s = .ok (c, s')) → FuelledDef I isCall a c := by
      rintro a b c hab ⟨s, s', hbc⟩
      exact decompose_fuelledDef I hab hbc
    have hloops₂ := mapM_forall₂ (R := fun b c => ∃ s s', decomposeMonadicLetBindings depth b s = .ok (c, s'))
      (fun _ _ _ s s' h => ⟨s, s', h⟩) hfLoops'
    have hbodies₂ := mapM_forall₂ (R := fun b c => ∃ s s', decomposeMonadicLetBindings depth b s = .ok (c, s'))
      (fun _ _ _ s s' h => ⟨s, s', h⟩) hbodies'
    exact .cons (decompose_fuelledDef I hf₁ hf') (List.rel_append (forall₂_trans hdecompose hloops₁ hloops₂)
      (forall₂_trans hdecompose hbodies₁ hbodies₂))
  · cases h
    exact .cons hf₁ (List.rel_append hloops₁ hbodies₁)

end

/-! ## The functions of a group -/

def lookupDef (defs : List FunDef) (key : FunKey) : Option FunDef := defs.find? fun def_ => def_.key = key

section
variable {D X : Type} (I : Interp D X) (isCall : FunKey → Bool) (defs : List FunDef)

def divergentBody (key : FunKey) : Option FunBody :=
  if isCall key then (lookupDef defs key).bind fun def_ => def_.body else none

def bodyCalls (call : FunCalls D X) : FunCalls D X := fun key a =>
  (divergentBody isCall defs key).bind fun fbody => fbody.eval I isCall call a.1 a.2

/-- The calls of the functions of a group, from the recursive calls; the other functions which may diverge
are given. -/
def groupCalls (ext : FunCalls D X) : FunCalls D X → FunCalls D X :=
  groupStep (fun key => (divergentBody isCall defs key).isSome) (bodyCalls I isCall defs) ext

def isRecIn (key : FunKey) : Bool := (lookupDef defs key).any fun def_ => def_.signature.effectInfo.isRec

def emptyCalls : FunCalls D X := fun key a =>
  (divergentBody isCall defs key).bind fun fbody => (matchTPats fbody.inputs a.2).map fun _ => .outOfFuel

variable {I isCall defs}

theorem groupCalls_none {ext L : FunCalls D X} {key : FunKey} (h : divergentBody isCall defs key = none)
    (a : D × List (Value X)) : groupCalls I isCall defs ext L key a = ext key a := by
  simp [groupCalls, groupStep, choose, h]

theorem groupCalls_some {ext L : FunCalls D X} {key : FunKey} {fbody : FunBody}
    (h : divergentBody isCall defs key = some fbody) (a : D × List (Value X)) :
    groupCalls I isCall defs ext L key a = fbody.eval I isCall L a.1 a.2 := by
  simp [groupCalls, groupStep, choose, bodyCalls, h]

theorem tame_bodyCalls {bad : Value X → Prop} (hbad : PassedOn bad)
    (hready : ∀ key fbody, divergentBody isCall defs key = some fbody → fbody.body.ready isCall = true) :
    Tame bad (bodyCalls I isCall defs) := by
  intro ι l L F h key a
  simp only [bodyCalls]
  cases hbody : divergentBody isCall defs key with
  | none => exact .const none
  | some fbody =>
    simp only [Option.bind_some, FunBody.eval]
    cases Env.bind { generics := a.1, fvars := fun _ => none, stack := [] } fbody.inputs a.2 with
    | none => exact .const none
    | some env => exact (fbody.body.eval_follows hbad h).2 (hready key fbody hbody) env

variable (isCall defs) in
theorem emptyCalls_outOfFuel (key : FunKey) (a : D × List (Value X)) (v : Value X)
    (h : emptyCalls isCall defs key a = some v) : v = .outOfFuel := by
  obtain ⟨fbody, -, h⟩ := Option.bind_eq_some_iff.mp h
  obtain ⟨l, -, h⟩ := Option.map_eq_some_iff.mp h
  exact h.symm

theorem lookupDef_eq_some {key : FunKey} {def_ : FunDef} (h : lookupDef defs key = some def_) :
    def_ ∈ defs ∧ def_.key = key :=
  ⟨List.mem_of_find?_eq_some h, by simpa using List.find?_some h⟩

theorem lookupDef_rel {R : FunDef → FunDef → Prop} (hkey : ∀ {def_ def'}, R def_ def' → def'.key = def_.key)
    {defs' : List FunDef} (h : List.Forall₂ R defs defs') (key : FunKey) :
    Option.Rel R (lookupDef defs key) (lookupDef defs' key) := by
  induction h with
  | nil => exact .none
  | cons hR _ ih =>
    rename_i def_ def' _ _ _
    by_cases hk : def_.key = key
    · simpa [lookupDef, hk, hkey hR] using Option.Rel.some hR
    · simpa [lookupDef, hk, hkey hR] using ih

section
variable {defs' : List FunDef} (h : List.Forall₂ (FuelledDef I isCall) defs defs')

include h

theorem divergentBody_rel (key : FunKey) :
    (divergentBody isCall defs key = none ∧ divergentBody isCall defs' key = none) ∨
      ∃ def_ fbody fbody', isCall key = true ∧ lookupDef defs key = some def_ ∧
        divergentBody isCall defs key = some fbody ∧ divergentBody isCall defs' key = some fbody' ∧
        FuelledBody I isCall def_.signature.effectInfo fbody fbody' := by
  have hrel := lookupDef_rel FuelledDef.key h key
  unfold divergentBody
  cases hcall : isCall key with
  | false => exact .inl ⟨rfl, rfl⟩
  | true =>
    simp only [if_true]
    generalize lookupDef defs key = o, lookupDef defs' key = o' at hrel
    cases hrel with
    | none => exact .inl ⟨rfl, rfl⟩
    | @some def_ def' hdef =>
      have hbody := hdef.body
      simp only [Option.bind_some]
      generalize def_.body = b, def'.body = b' at hbody
      cases hbody with
      | none => exact .inl ⟨rfl, rfl⟩
      | some hb => exact .inr ⟨def_, _, _, trivial, rfl, rfl, rfl, hb⟩

theorem supply_unfold (ext' : FunCalls D X)
    (heffects : ∀ def_ ∈ defs, def_.signature.effectInfo.canDiverge = isCall def_.key) : ∀ k n,
    supply n (unfold (groupCalls I isCall defs' ext') k) =
      fuelUnfold (fun key => (divergentBody isCall defs key).isSome) (isRecIn defs) (emptyCalls isCall defs)
        (bodyCalls I isCall defs) (fun n => supply n ext') k n
  | 0, n => rfl
  | k + 1, n => by
    have ih := supply_unfold ext' heffects k
    funext key a
    show groupCalls I isCall defs' ext' (unfold (groupCalls I isCall defs' ext') k) key (a.1, .fuel n :: a.2) = _
    rw [fuelUnfold]
    obtain ⟨hnone, hnone'⟩ | ⟨def_, fbody, fbody', hcall, hdef, hbody, hbody', hfuelled⟩ := divergentBody_rel h key
    · rw [groupCalls_none hnone']
      simp only [supply, choose, hnone, Option.isSome_none, Bool.false_eq_true, if_false]
    · obtain ⟨hmem, hkey⟩ := lookupDef_eq_some hdef
      have hdiv : def_.signature.effectInfo.canDiverge = true := by rw [heffects def_ hmem, hkey, hcall]
      have hrec : isRecIn defs key = def_.signature.effectInfo.isRec := by simp [isRecIn, hdef]
      rw [groupCalls_some hbody', hfuelled.fuelled.diverges hdiv]
      simp only [choose, hbody, Option.isSome_some, if_true]
      cases n with
      | zero => simp only [fuelledEval, decrease, hrec, emptyCalls, bodyCalls, hbody, Option.bind_some, ih]
      | succ n => simp only [fuelledEval, decrease, hrec, bodyCalls, hbody, Option.bind_some, ih]

end

/-- The functions of a group after the pass return what the ones before the pass return. -/
structure FuelAdequate (I : Interp D X) (isCall : FunKey → Bool) (defs defs' : List FunDef) (ext ext' : FunCalls D X) :
    Prop where
  sound : ∀ key d args n v, Returns (groupCalls I isCall defs' ext') key (d, .fuel n :: args) v → v ≠ .outOfFuel →
    Returns (groupCalls I isCall defs ext) key (d, args) v
  mono : ∀ key d args n v, Returns (groupCalls I isCall defs' ext') key (d, .fuel n :: args) v → v ≠ .outOfFuel →
    ∀ m, n ≤ m → ∀ w, Returns (groupCalls I isCall defs' ext') key (d, .fuel m :: args) w ↔ w = v
  complete : ∀ key d args v, Returns (groupCalls I isCall defs ext) key (d, args) v →
    ∃ n, Returns (groupCalls I isCall defs' ext') key (d, .fuel n :: args) v
  /-- The functions which do not diverge. -/
  total : ∀ key, isCall key = false → Option.Rel (fun fbody fbody' => ∀ (call call' : FunCalls D X) d args,
      fbody'.eval I isCall call' d args = fbody.eval I isCall call d args)
    ((lookupDef defs key).bind fun def_ => def_.body) ((lookupDef defs' key).bind fun def_ => def_.body)

theorem fuelAdequate_of_forall₂ {defs' : List FunDef} {ext ext' : FunCalls D X}
    (h : List.Forall₂ (FuelledDef I isCall) defs defs')
    (heffects : ∀ def_ ∈ defs, def_.signature.effectInfo.canDiverge = isCall def_.key)
    (hready : ∀ def_ ∈ defs, ∀ fbody ∈ def_.body, fbody.body.ready isCall = true)
    (hext : Adequate (· = .outOfFuel) ext fun n => supply n ext') : FuelAdequate I isCall defs defs' ext ext' := by
  have hready' : ∀ key fbody, divergentBody isCall defs key = some fbody → fbody.body.ready isCall = true := by
    intro key fbody hbody
    unfold divergentBody at hbody
    split at hbody
    · obtain ⟨def_, hdef, hbody⟩ := Option.bind_eq_some_iff.mp hbody
      exact hready def_ (lookupDef_eq_some hdef).1 fbody hbody
    · cases hbody
  have hreturns : ∀ key d args n v, Returns (groupCalls I isCall defs' ext') key (d, .fuel n :: args) v ↔
      ∃ k, fuelUnfold (fun key => (divergentBody isCall defs key).isSome) (isRecIn defs) (emptyCalls isCall defs)
        (bodyCalls I isCall defs) (fun n => supply n ext') k n key (d, args) = some v := by
    intro key d args n v
    simp only [← supply_unfold h ext' heffects]
    rfl
  have hadequate := fuel_adequate (fun key => (divergentBody isCall defs key).isSome) (isRecIn defs)
    (tame_bodyCalls (I := I) passedOn_outOfFuel hready') (tame_bodyCalls passedOn_false hready')
    (emptyCalls_outOfFuel isCall defs) hext
  refine ⟨fun key d args n v hv hne => ?_, fun key d args n v hv hne m hnm w => ?_, fun key d args v hv => ?_,
    fun key hkey => ?_⟩
  · exact ((hadequate key (d, args)).1 n v ((hreturns ..).mp hv) hne).1
  · rw [hreturns]
    exact ((hadequate key (d, args)).1 n v ((hreturns ..).mp hv) hne).2 m hnm w
  · obtain ⟨n, hn⟩ := (hadequate key (d, args)).2 v hv
    exact ⟨n, (hreturns ..).mpr hn⟩
  · have hrel := lookupDef_rel FuelledDef.key h key
    have hdiv : ∀ def_, lookupDef defs key = some def_ → def_.signature.effectInfo.canDiverge = false := by
      intro def_ hdef
      obtain ⟨hmem, hkey'⟩ := lookupDef_eq_some hdef
      rw [heffects def_ hmem, hkey', hkey]
    generalize lookupDef defs key = o, lookupDef defs' key = o' at hrel hdiv
    cases hrel with
    | none => exact .none
    | @some def_ def' hdef =>
      have hbody := hdef.body
      simp only [Option.bind_some]
      generalize def_.body = b, def'.body = b' at hbody
      cases hbody with
      | none => exact .none
      | some hb => exact .some (hb.fuelled.terminates (hdiv def_ rfl))

theorem forall₂_flatMap {α β γ δ : Type} {R : α → β → Prop} {S : γ → δ → Prop} {f : α → List γ} {g : β → List δ} :
    ∀ {l : List α} {l' : List β}, List.Forall₂ R l l' → (∀ a ∈ l, ∀ b, R a b → List.Forall₂ S (f a) (g b)) →
      List.Forall₂ S (l.flatMap f) (l'.flatMap g)
  | _, _, .nil, _ => .nil
  | _, _, .cons hR h, hS => by
    rw [List.flatMap_cons, List.flatMap_cons]
    exact List.rel_append (hS _ (by simp) _ hR) (forall₂_flatMap h fun a ha => hS a (by simp [ha]))

theorem addFuel_adequate {cfg : FuelConfig} {ctx : PassCtx} {group group' : List PureFunTranslation}
    {ext ext' : FunCalls D X} (huse : cfg.useFuel = true) (hready : ∀ trans ∈ group, FuelReady ctx isCall trans)
    (hpass : List.Forall₂ (fun trans trans' => ∃ depth fresh fresh',
      addFuel cfg ctx depth trans fresh = .ok (trans', fresh')) group group')
    (hext : Adequate (· = .outOfFuel) ext fun n => supply n ext') :
    FuelAdequate I isCall (group.flatMap PureFunTranslation.funs) (group'.flatMap PureFunTranslation.funs) ext
      ext' := by
  refine fuelAdequate_of_forall₂ (forall₂_flatMap hpass ?_) ?_ ?_ hext
  · rintro trans htrans trans' ⟨depth, fresh, fresh', h⟩
    exact addFuel_ok I huse (hready trans htrans) h
  · intro def_ hdef
    obtain ⟨trans, htrans, hdef⟩ := List.mem_flatMap.mp hdef
    exact (hready trans htrans).effects def_ hdef
  · intro def_ hdef
    obtain ⟨trans, htrans, hdef⟩ := List.mem_flatMap.mp hdef
    exact (hready trans htrans).ready def_ hdef

end

/-! ## A recursive function -/

def argVar (id : BVarId) : Texpr := .mk (.bvar { scope := 0, id }) mkBoolTy

def argPat : TPat := .mk (.bound { basename := some "b", ty := mkBoolTy } none) mkBoolTy

def callBool (loopId : Option (LoopId × Bool)) (output : Ty) (arg : Texpr) : Texpr :=
  .mk (.app (.mk (.qualif { id := .funOrOp (.funE (.fromLlbc (.funId 0) loopId)), generics := emptyGenericArgs })
    (.arrow mkBoolTy output)) arg) output

def boolFun (loopId : Option (LoopId × Bool)) (isRec : Bool) (body : Texpr) : FunDef where
  defId := 0
  loopId
  signature := { inputs := [mkBoolTy], output := body.ty, effectInfo := { canDiverge := true, isRec } }
  body := some { inputs := [argPat], body }

/-- `fun b => if b then Ok b else retry true`. -/
def retry : FunDef :=
  boolFun none true (.mk (.switch (argVar 0)
    (.ite (mkOk (argVar 0)) (callBool none (mkResultTy mkBoolTy) mkTrue))) (mkResultTy mkBoolTy))

def retryTrans : PureFunTranslation := { f := retry, loops := [], bodies := [] }

def funCtx (f : FunDef) : PassCtx := { funDecls := (∅ : IdMap FunDeclId FunDef).insert 0 f }

def isRetry (key : FunKey) : Bool := key = (0, none)

def coqConfig (decompose : Bool) : FuelConfig :=
  { backend := .coq, useFuel := true, failHard := true, decomposeMonadicLetBindings := decompose }

theorem retry_fuelReady : FuelReady (funCtx retry) isRetry retryTrans where
  flags loops hloops def_ hdef key def' h := by
    obtain rfl : ∅ = loops := Except.ok.inj hloops
    obtain ⟨fid, lpId⟩ := key
    cases lpId with
    | none =>
      have h' : (funCtx retry).funDecls[fid]? = some def' := find_eq_ok.mp h
      rw [funCtx, Std.ExtTreeMap.getElem?_insert] at h'
      split at h'
      · rename_i hfid
        obtain rfl := Option.some.inj h'
        obtain rfl : 0 = fid := by simpa using hfid
        rfl
      · simp at h'
    | some lp =>
      obtain ⟨_, -, h'⟩ := bind_eq_ok.mp h
      rw [find_eq_ok] at h'
      simp at h'
  effects def_ hdef := by
    obtain rfl := List.mem_singleton.mp hdef
    rfl
  closed def_ hdef fbody hbody := by
    obtain rfl := List.mem_singleton.mp hdef
    obtain rfl := Option.some.inj hbody
    exact ⟨rfl, rfl⟩
  ready def_ hdef fbody hbody := by
    obtain rfl := List.mem_singleton.mp hdef
    obtain rfl := Option.some.inj hbody
    rfl

theorem addFuel_adequate_retry : ∃ trans' fresh',
    addFuel (coqConfig true) (funCtx retry) 5 retryTrans 0 = .ok (trans', fresh') ∧
    ∃ n, Returns (groupCalls noInterp isRetry trans'.funs noCalls) (0, none) ((), [.fuel n, .lit (.bool false)])
      (.ok (.lit (.bool true))) := by
  have hsome : (addFuel (coqConfig true) (funCtx retry) 5 retryTrans 0).toOption.isSome = true := by decide +kernel
  cases hpass : addFuel (coqConfig true) (funCtx retry) 5 retryTrans 0 with
  | error e =>
    rw [hpass] at hsome
    cases hsome
  | ok r =>
    have hready : ∀ trans ∈ [retryTrans], FuelReady (funCtx retry) isRetry trans := by simpa using retry_fuelReady
    have hadequate : FuelAdequate noInterp isRetry ([retryTrans].flatMap PureFunTranslation.funs)
        ([r.1].flatMap PureFunTranslation.funs) noCalls noCalls :=
      addFuel_adequate rfl hready (.cons ⟨5, 0, r.2, hpass⟩ .nil) adequate_none
    refine ⟨r.1, r.2, rfl, ?_⟩
    have h := hadequate.complete (0, none) () [.lit (.bool false)] (.ok (.lit (.bool true))) ⟨2, rfl⟩
    simpa using h

/-! ## A loop which is a fixed point -/

def stepTy : Ty := mkResultTy (.adt (.builtin .loopResult) (.mk [mkBoolTy, mkBoolTy] [] []))

/-- `loop (fun c => body c) b`, where `body` is the function of the body of the loop. -/
def spinLoop (pat : TPat) (c b : Texpr) : Texpr :=
  let loopOp : Texpr := .mk (.qualif { id := .loopOp, generics := .mk [mkBoolTy, mkBoolTy] [] [] })
    (mkArrows [.arrow mkBoolTy stepTy, mkBoolTy] (mkResultTy mkBoolTy))
  let body : Texpr := .mk (.lambda pat (callBool (some (0, true)) stepTy c)) (.arrow mkBoolTy stepTy)
  .mk (.app (.mk (.app loopOp body) (.arrow mkBoolTy (mkResultTy mkBoolTy))) b) (mkResultTy mkBoolTy)

def spinBody (b : Texpr) : Texpr :=
  .mk (.switch b (.ite (mkOk (mkCons (.builtin .loopResult) loopResultBreakId [mkBoolTy, mkBoolTy] b))
    (mkOk (mkCons (.builtin .loopResult) loopResultContinueId [mkBoolTy, mkBoolTy] mkTrue)))) stepTy

/-- `while !b { b = true }`, followed by `b`. -/
def spinTrans : PureFunTranslation where
  f := boolFun none false (callBool (some (0, false)) (mkResultTy mkBoolTy) (argVar 0))
  loops := [boolFun (some (0, false)) false (spinLoop argPat (argVar 0) (argVar 0))]
  bodies := [boolFun (some (0, true)) false (spinBody (argVar 0))]

def withFuel (f : FunDef) (body : Texpr) : FunDef :=
  { f with
    signature := { f.signature with inputs := mkFuelTy :: f.signature.inputs }
    body := some { inputs := [.mk (.bound { basename := some "n", ty := mkFuelTy } none) mkFuelTy, argPat], body } }

/-- The call of the function of the body of the loop is as before. -/
def spinFuelTrans : PureFunTranslation where
  f := withFuel spinTrans.f (.mk (.app (.mk (.app (.mk (.qualif
    { id := .funOrOp (.funE (.fromLlbc (.funId 0) (some (0, false)))), generics := emptyGenericArgs })
      (mkArrows [mkFuelTy, mkBoolTy] (mkResultTy mkBoolTy))) (.mk (.bvar { scope := 0, id := 0 }) mkFuelTy))
    (.arrow mkBoolTy (mkResultTy mkBoolTy))) (argVar 1)) (mkResultTy mkBoolTy))
  loops := [withFuel (boolFun (some (0, false)) false (spinLoop argPat (argVar 0) (argVar 0)))
    (spinLoop argPat (argVar 0) (argVar 1))]
  bodies := [withFuel (boolFun (some (0, true)) false (spinBody (argVar 0))) (spinBody (argVar 1))]

theorem addFuelOne_eq {cfg : FuelConfig} {ctx : PassCtx} {loops : IdMap LoopId FunDef} {f : FunDef}
    {fresh fresh' : FVarId} {opened updated closed : FunBody} (huse : cfg.useFuel = true)
    (hdiv : f.signature.effectInfo.canDiverge = true) (hopen : openBody f.body fresh = .ok (some opened, fresh'))
    (hupdate : addFuelBody cfg ctx loops f (some (mkFuelFVar fresh')) (some (mkFuelFVar (fresh' + 1))) opened =
      .ok updated)
    (hclose : closeAllFunBody updated = .ok closed) :
    addFuelOne cfg ctx loops f fresh = .ok ({ f with
      body := some closed
      signature := { f.signature with inputs := mkFuelTy :: f.signature.inputs } }, fresh' + 2) := by
  have hfuel : ∀ k, mkFreshFuelVar true k = .ok (some (mkFuelFVar k), k + 1) := fun _ => rfl
  simp only [addFuelOne, huse, hdiv, Bool.and_true]
  rw [run_bind hopen, run_bind (hfuel _), run_bind (hfuel _)]
  simp only [Option.mapM_some, map_eq_pure_bind, bind_assoc, pure_bind]
  rw [run_bind (run_liftM_ok hupdate _), run_bind (run_liftM_ok hclose _)]
  rfl

theorem addFuel_spin : addFuel (coqConfig false) (funCtx spinTrans.f) 0 spinTrans 0 = .ok (spinFuelTrans, 10) := by
  let b (id : FVarId) : FVar := { id, basename := some "b", ty := mkBoolTy }
  let opened := spinLoop (mkTPatFromFVar (b 4)) (mkTexprFromFVar (b 4)) (mkTexprFromFVar (b 3))
  let loop := boolFun (some (0, false)) false (spinLoop argPat (argVar 0) (argVar 0))
  let loops : IdMap LoopId FunDef := (∅ : IdMap LoopId FunDef).insert 0 loop
  have hloops : loopsMap spinTrans.loops = .ok loops := rfl
  have hopen : openBody loop.body 3 = .ok (some { inputs := [mkTPatFromFVar (b 3)], body := opened }, 5) := rfl
  have hupdate : addFuelBody (coqConfig false) (funCtx spinTrans.f) loops loop (some (mkFuelFVar 5))
      (some (mkFuelFVar 6)) { inputs := [mkTPatFromFVar (b 3)], body := opened } =
    .ok { inputs := [mkTPatFromFVar (mkFuelFVar 6), mkTPatFromFVar (b 3)], body := opened } := rfl
  have hloop : addFuelOne (coqConfig false) (funCtx spinTrans.f) loops loop 3 =
      .ok (withFuel loop (spinLoop argPat (argVar 0) (argVar 1)), 7) := addFuelOne_eq rfl rfl hopen hupdate rfl
  have hmain : addFuelOne (coqConfig false) (funCtx spinTrans.f) loops spinTrans.f 0 = .ok (spinFuelTrans.f, 3) := rfl
  unfold addFuel
  rw [run_bind (run_liftM_ok hloops _), run_bind hmain, spinTrans, List.mapM_cons, run_bind (run_bind hloop _)]
  rfl

def isSpin (key : FunKey) : Bool := key.1 = 0

/-- A lambda is its function on the booleans, which gives a variant and a boolean. -/
abbrev LoopFun := Bool → Option (VariantId × Bool)

def LoopFun.iterate (g : LoopFun) : Nat → Bool → Option Bool
  | 0, _ => none
  | n + 1, b => (g b).bind fun r => if r.1 = loopResultBreakId then some r.2 else g.iterate n r.2

/-- The loops have at most two iterations. -/
def loopInterp : Interp Unit LoopFun where
  generics _ _ := ()
  qualif
    | _, ⟨.loopOp, _⟩, [.ext g, .lit (.bool b)] => (g.iterate 2 b).map fun b => .ok (.lit (.bool b))
    | _, _, _ => none
  cvar _ _ := none
  apply _ _ := none
  lambda f := some (.ext fun b =>
    match f (.lit (.bool b)) with
    | some (.adt _ _ [.adt _ (some variantId) [.lit (.bool b)]]) => some (variantId, b)
    | _ => none)
  struct _ _ _ _ := none
  loop _ _ := none

/-- The function before the pass returns, but not the one after the pass, whatever its fuel: the function of the
body of the loop is not given any. -/
theorem addFuel_spin_inadequate :
    addFuel (coqConfig false) (funCtx spinTrans.f) 0 spinTrans 0 = .ok (spinFuelTrans, 10) ∧
    (∀ def_ ∈ spinTrans.funs, ∀ fbody ∈ def_.body, fbody.IsClosed fun _ => false) ∧
    Returns (groupCalls loopInterp isSpin spinTrans.funs fun _ _ => none) (0, none) ((), [.lit (.bool false)])
      (.ok (.lit (.bool true))) ∧
    ∀ n, ¬ Returns (groupCalls loopInterp isSpin spinFuelTrans.funs fun _ _ => none) (0, none)
      ((), [.fuel n, .lit (.bool false)]) (.ok (.lit (.bool true))) := by
  refine ⟨addFuel_spin, ?_, ⟨3, rfl⟩, ?_⟩
  · intro def_ hdef fbody hbody
    simp only [PureFunTranslation.funs, spinTrans, List.mem_cons, List.mem_append, List.not_mem_nil, or_false] at hdef
    rcases hdef with rfl | rfl | rfl <;> obtain rfl := Option.some.inj hbody <;> exact ⟨rfl, rfl⟩
  · rintro n ⟨k, hk⟩
    -- The call in the lambda has one argument, and the function now takes two of them
    rcases k with _ | _ | _ | _ | k <;> cases hk

end Aeneas.Pure
