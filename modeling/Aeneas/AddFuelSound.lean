import Aeneas.AddFuel
import Aeneas.PureEvalCalls

/-!
# The fuel is adequate

The body with fuel has the value of the original body, where each call of a
function which may diverge gets the fuel which is left. The functions with fuel
are then the unfoldings with fuel of the original functions.
-/

namespace Aeneas.Pure

open Fuel Texpr List

attribute [local simp] Expr.children SwitchBody.children

/-! ## Applications -/

variable {isCall : FunKey → Bool} {args : List Texpr}

theorem IsApps.spine {f e : Texpr} (h : IsApps f args e) (he : (e.shape isCall).spine = true) :
    (f.shape isCall).spine = true ∧ ∀ x ∈ args, x.callFree isCall = true := by
  induction h with
  | nil f => exact ⟨he, by simp⟩
  | cons ty _ ih =>
    obtain ⟨happ, hargs⟩ := ih he
    obtain ⟨hf, hx⟩ := Bool.and_eq_true_iff.mp happ
    exact ⟨hf, forall_mem_cons.mpr ⟨hx, hargs⟩⟩

/-! ## What the update does -/

inductive Expr.Untouched : Expr → Prop
  | fvar (f : FVarId) : Untouched (.fvar f)
  | bvar (v : BVar) : Untouched (.bvar v)
  | cvar (id : ConstGenericVarId) : Untouched (.cvar id)
  | const (l : Literal) : Untouched (.const l)
  | lambda (pat : TPat) (inner : Texpr) : Untouched (.lambda pat inner)
  | structUpdate (s : StructUpdate Texpr) : Untouched (.structUpdate s)
  | emeta (m : EMeta Texpr) (e : Texpr) : Untouched (.emeta m e)
  | eError (span : Option Span) (message : String) : Untouched (.eError span message)

def fuelArg (isCall : FunKey → Bool) (fuel : Option FVar) (key : FunKey) : List Texpr :=
  if isCall key then (fuel.map mkTexprFromFVar).toList else []

structure UpdateRule (isCall : FunKey → Bool) (P : Option FVar → Texpr → Texpr → Prop) : Prop where
  same : ∀ {fuel e} (ty ty' : Ty), e.Untouched → P fuel (.mk e ty) (.mk e ty')
  apps : ∀ {fuel f e e' args args'}, f.callee = none → f.IsHead → (e.shape isCall).spine = e.ready isCall →
    IsApps f args e → IsApps f args' e' → List.Forall₂ (P none) args args' → P fuel e e'
  call : ∀ {fuel f e e' args args' key ty}, f.callee = some key → (isCall key = true → fuel.isSome) →
    IsApps f args e → IsApps (.mk f.e ty) (fuelArg isCall fuel key ++ args') e' →
    List.Forall₂ (P none) args args' → P fuel e e'
  letCall : ∀ {fuel f re re' next next' args key ty ty'} (monadic : Bool) (lv : TPat), f.callee = some key →
    (isCall key = true → fuel.isSome) → IsApps f args re → IsApps (.mk f.e ty) (fuelArg isCall fuel key ++ args) re' →
    P fuel next next' → P fuel (.mk (.letE monadic lv re next) ty') (mkOpenedLet monadic lv re' next')
  letE : ∀ {fuel re re' next next' ty} (monadic : Bool) (lv : TPat), P fuel re re' → P fuel next next' →
    P fuel (.mk (.letE monadic lv re next) ty) (mkOpenedLet monadic lv re' next')
  ite : ∀ {fuel scrut scrut' e1 e1' e2 e2' ty}, P none scrut scrut' → P fuel e1 e1' → P fuel e2 e2' →
    P fuel (.mk (.switch scrut (.ite e1 e2)) ty) (.mk (.switch scrut' (.ite e1' e2')) e1'.ty)
  matchE : ∀ {fuel scrut scrut' branches branches'} (ty ty' : Ty), P none scrut scrut' →
    List.Forall₂ (fun b b' => b'.pat = b.pat ∧ P fuel b.branch b'.branch) branches branches' →
    P fuel (.mk (.switch scrut (.matchE branches)) ty) (.mk (.switch scrut' (.matchE branches')) ty')

/-- The pass adds fuel, and the flags it looks up are the ones of the calls. -/
structure AddsFuel (cfg : FuelConfig) (ctx : PassCtx) (loops : IdMap LoopId FunDef) (defId : FunDeclId)
    (isCall : FunKey → Bool) : Prop where
  use : cfg.useFuel = true
  flags : ∀ key def', lookupDecl ctx loops defId key = .ok def' → def'.signature.effectInfo.canDiverge = isCall key

section
variable {cfg : FuelConfig} {ctx : PassCtx} {loops : IdMap LoopId FunDef} {defId : FunDeclId} {isCall : FunKey → Bool}
  {fuel : Option FVar} {e' : Texpr} {P : Option FVar → Texpr → Texpr → Prop}

theorem updateFunCall_ok (hadds : AddsFuel cfg ctx loops defId isCall) {f : Texpr} {key : FunKey} {args : List Texpr}
    (h : updateFunCall cfg ctx loops defId (fuel.map mkTexprFromFVar) f key args = .ok e') :
    (isCall key = true → fuel.isSome) ∧ ∃ ty, IsApps (.mk f.e ty) (fuelArg isCall fuel key ++ args) e' := by
  obtain ⟨def', hdef, h⟩ := bind_eq_ok.mp h
  obtain ⟨_, -, h⟩ := bind_eq_ok.mp h
  obtain ⟨_, hcheck, h⟩ := bind_eq_ok.mp h
  have hflag := hadds.flags key def' hdef
  rw [sanityCheck_eq_ok, hflag, hadds.use] at hcheck
  have harg : (if def'.signature.effectInfo.canDiverge then fuel.map mkTexprFromFVar else none).toList =
      fuelArg isCall fuel key := by
    rw [hflag, fuelArg]
    cases isCall key <;> rfl
  refine ⟨fun hk => by simpa [hk] using hcheck, ?_⟩
  rw [← harg]
  exact ⟨_, isApps_mkApps h⟩

theorem update_same (hP : UpdateRule isCall P) {e : Expr} {ty : Ty} (he : e.Untouched)
    (h : update cfg ctx loops defId (fuel.map mkTexprFromFVar) (.mk e ty) = .ok e') : P fuel (.mk e ty) e' := by
  have hsame : ∃ ty', update cfg ctx loops defId (fuel.map mkTexprFromFVar) (.mk e ty) = .ok (.mk e ty') := by
    cases he <;> exact ⟨_, rfl⟩
  obtain ⟨ty', hty'⟩ := hsame
  obtain rfl := Except.ok.inj (hty'.symm.trans h)
  exact hP.same ty ty' he

theorem updateApps_rule (hadds : AddsFuel cfg ctx loops defId isCall) (hP : UpdateRule isCall P) {f e : Texpr}
    {args args' : List Texpr} (hf : f.IsHead) (hready : (e.shape isCall).spine = e.ready isCall)
    (he : IsApps f args e) (hargs : List.Forall₂ (P none) args args')
    (h : updateApps cfg ctx loops defId (fuel.map mkTexprFromFVar) f args' = .ok e') :
    P fuel e e' := by
  unfold updateApps at h
  split at h
  · rename_i key hkey
    obtain ⟨hsome, ty, happs⟩ := updateFunCall_ok hadds h
    exact hP.call hkey hsome he happs hargs
  · rename_i hkey
    exact hP.apps hkey hf hready he (isApps_mkApps h) hargs

mutual

theorem update_rule (hadds : AddsFuel cfg ctx loops defId isCall) (hP : UpdateRule isCall P) :
    ∀ (e : Texpr) {fuel : Option FVar} {e' : Texpr},
    update cfg ctx loops defId (fuel.map mkTexprFromFVar) e = .ok e' → P fuel e e'
  | .mk (.app f x) ty, fuel, e', h => by
    rw [update] at h
    obtain ⟨args', hargs, h⟩ := bind_eq_ok.mp h
    obtain ⟨x', hx, h⟩ := bind_eq_ok.mp h
    have hx' : List.Forall₂ (P none) [x] [x'] := .cons (update_rule hadds hP x hx) .nil
    obtain ⟨hhead, happs⟩ := isApps_destructApps f
    exact updateApps_rule hadds hP hhead rfl (happs.snoc ty) (rel_append (updateArgs_rule hadds hP f hargs) hx') h
  | .mk (.qualif q) ty, fuel, e', h => by
    rw [update] at h
    exact updateApps_rule hadds hP (f := .mk (.qualif q) ty) nofun rfl (.nil _) .nil h
  | .mk (.letE monadic lv re next) ty, fuel, e', h => by
    rw [update] at h
    split at h
    · rename_i key hkey
      obtain ⟨re', hre, h⟩ := bind_eq_ok.mp h
      obtain ⟨next', hnext, h⟩ := bind_eq_ok.mp h
      obtain rfl := Except.ok.inj h
      obtain ⟨hsome, ty', happs⟩ := updateFunCall_ok hadds hre
      exact hP.letCall monadic lv hkey hsome (isApps_destructApps re).2 happs (update_rule hadds hP next hnext)
    · obtain ⟨re', hre, h⟩ := bind_eq_ok.mp h
      obtain ⟨next', hnext, h⟩ := bind_eq_ok.mp h
      obtain rfl := Except.ok.inj h
      exact hP.letE monadic lv (update_rule hadds hP re hre) (update_rule hadds hP next hnext)
  | .mk (.switch scrut (.ite e1 e2)) ty, fuel, e', h => by
    rw [update] at h
    obtain ⟨scrut', hscrut, h⟩ := bind_eq_ok.mp h
    obtain ⟨e1', h1, h⟩ := bind_eq_ok.mp h
    obtain ⟨e2', h2, h⟩ := bind_eq_ok.mp h
    obtain rfl := Except.ok.inj h
    exact hP.ite (update_rule hadds hP scrut hscrut) (update_rule hadds hP e1 h1) (update_rule hadds hP e2 h2)
  | .mk (.switch scrut (.matchE branches)) ty, fuel, e', h => by
    rw [update] at h
    obtain ⟨scrut', hscrut, h⟩ := bind_eq_ok.mp h
    obtain ⟨branches', hbranches, h⟩ := bind_eq_ok.mp h
    split at h
    · cases h
    · obtain rfl := Except.ok.inj h
      exact hP.matchE ty _ (update_rule hadds hP scrut hscrut) (updateBranches_rule hadds hP branches hbranches)
  | .mk (.loop l) ty, fuel, e', h => by
    rw [update] at h
    cases h
  | .mk (.emeta m e) _, _, _, h => update_same hP (.emeta m e) h
  | .mk (.fvar f) _, _, _, h => update_same hP (.fvar f) h
  | .mk (.bvar v) _, _, _, h => update_same hP (.bvar v) h
  | .mk (.cvar id) _, _, _, h => update_same hP (.cvar id) h
  | .mk (.const l) _, _, _, h => update_same hP (.const l) h
  | .mk (.lambda pat inner) _, _, _, h => update_same hP (.lambda pat inner) h
  | .mk (.structUpdate s) _, _, _, h => update_same hP (.structUpdate s) h
  | .mk (.eError span message) _, _, _, h => update_same hP (.eError span message) h

theorem updateArgs_rule (hadds : AddsFuel cfg ctx loops defId isCall) (hP : UpdateRule isCall P) :
    ∀ (e : Texpr) {args' : List Texpr}, updateArgs cfg ctx loops defId e = .ok args' →
    List.Forall₂ (P none) (destructApps e).2 args'
  | .mk (.app f x) ty, args', h => by
    rw [updateArgs] at h
    obtain ⟨args, hargs, h⟩ := bind_eq_ok.mp h
    obtain ⟨x', hx, h⟩ := bind_eq_ok.mp h
    obtain rfl := Except.ok.inj h
    have hx' : List.Forall₂ (P none) [x] [x'] := .cons (update_rule hadds hP x hx) .nil
    rw [destructApps_app]
    exact rel_append (updateArgs_rule hadds hP f hargs) hx'
  | .mk (.fvar _) _, _, h | .mk (.bvar _) _, _, h | .mk (.cvar _) _, _, h | .mk (.const _) _, _, h
  | .mk (.lambda _ _) _, _, h | .mk (.qualif _) _, _, h | .mk (.letE _ _ _ _) _, _, h | .mk (.switch _ _) _, _, h
  | .mk (.loop _) _, _, h | .mk (.structUpdate _) _, _, h | .mk (.emeta _ _) _, _, h
  | .mk (.eError _ _) _, _, h => by cases h; exact .nil

theorem updateBranches_rule (hadds : AddsFuel cfg ctx loops defId isCall) (hP : UpdateRule isCall P) :
    ∀ (branches : List (MatchBranch Texpr)) {fuel : Option FVar}
    {branches' : List (MatchBranch Texpr)},
    updateBranches cfg ctx loops defId (fuel.map mkTexprFromFVar) branches = .ok branches' →
    List.Forall₂ (fun b b' => b'.pat = b.pat ∧ P fuel b.branch b'.branch) branches branches'
  | [], fuel, branches', h => by
    rw [updateBranches] at h
    obtain rfl := Except.ok.inj h
    exact .nil
  | ⟨pat, branch⟩ :: branches, fuel, branches', h => by
    rw [updateBranches] at h
    obtain ⟨b', hb, h⟩ := bind_eq_ok.mp h
    obtain ⟨l, hl, h⟩ := bind_eq_ok.mp h
    obtain rfl := Except.ok.inj h
    rw [updateBranch] at hb
    obtain ⟨branch', hbranch, hb⟩ := bind_eq_ok.mp hb
    obtain rfl := Except.ok.inj hb
    exact .cons ⟨rfl, update_rule hadds hP branch hbranch⟩ (updateBranches_rule hadds hP branches hl)

end

end

/-! ## The update keeps the scopes -/

def ScopeKept (free : FVarId → Bool) (fuel : Option FVar) (e e' : Texpr) : Prop :=
  (∀ v ∈ fuel, free v.id = true) → ∀ ctx, e.OpenedIn free ctx → e'.OpenedIn free ctx ∧ e'.binderIds = e.binderIds

variable {fuel : Option FVar} {free : FVarId → Bool}

theorem fuelArg_openedIn (isCall : FunKey → Bool)
    (hfuel : ∀ v ∈ fuel, free v.id = true) (key : FunKey) (ctx : Ctx) :
    (∀ x ∈ fuelArg isCall fuel key, x.OpenedIn free ctx) ∧ (fuelArg isCall fuel key).flatMap binderIds = [] := by
  unfold fuelArg
  split
  · cases fuel with
    | none => simp
    | some v => exact ⟨by simpa [mkTexprFromFVar] using openedIn_fvar.mpr (.inl (hfuel v rfl)), rfl⟩
  · simp

variable {ctx : Ctx}

theorem scopeKept_args {args' : List Texpr}
    (h : List.Forall₂ (ScopeKept free none) args args') (hargs : ∀ x ∈ args, x.OpenedIn free ctx) :
    (∀ x ∈ args', x.OpenedIn free ctx) ∧ args'.flatMap binderIds = args.flatMap binderIds := by
  induction h with
  | nil => exact ⟨by simp, rfl⟩
  | cons hx _ ih =>
    obtain ⟨hx', hargs⟩ := forall_mem_cons.mp hargs
    obtain ⟨ho, hb⟩ := hx (by simp) ctx hx'
    obtain ⟨hos, hbs⟩ := ih hargs
    exact ⟨forall_mem_cons.mpr ⟨ho, hos⟩, by rw [flatMap_cons, flatMap_cons, hb, hbs]⟩

theorem scopeKept_call {f e e' : Texpr} {args' : List Texpr} {key : FunKey} {ty : Ty}
    (hfuel : ∀ v ∈ fuel, free v.id = true)
    (he : IsApps f args e) (he' : IsApps (.mk f.e ty) (fuelArg isCall fuel key ++ args') e')
    (h : e.OpenedIn free ctx) (hargs : (∀ x ∈ args, x.OpenedIn free ctx) →
      (∀ x ∈ args', x.OpenedIn free ctx) ∧ args'.flatMap binderIds = args.flatMap binderIds) :
    e'.OpenedIn free ctx ∧ e'.binderIds = e.binderIds := by
  obtain ⟨hf, hxs⟩ := he.openedIn.mp h
  obtain ⟨hxs', hids⟩ := hargs hxs
  obtain ⟨hfo, hfb⟩ := fuelArg_openedIn isCall hfuel key ctx
  obtain ⟨e₀, ty₀⟩ := f
  refine ⟨he'.openedIn.mpr ⟨hf, fun x hx => ?_⟩, ?_⟩
  · rcases mem_append.mp hx with hx | hx
    · exact hfo x hx
    · exact hxs' x hx
  · rw [he'.binderIds, he.binderIds, flatMap_append, hfb, hids]
    rfl

theorem scopeKept_letE {re re' next next' : Texpr} {lv : TPat} {monadic : Bool}
    {ty ty' : Ty} (h : (mk (.letE monadic lv re next) ty).OpenedIn free ctx)
    (hre : re.OpenedIn free ctx → re'.OpenedIn free ctx ∧ re'.binderIds = re.binderIds)
    (hnext : ∀ ctx, next.OpenedIn free ctx → next'.OpenedIn free ctx ∧ next'.binderIds = next.binderIds) :
    (mk (.letE monadic lv re' next') ty').OpenedIn free ctx ∧
      (mk (.letE monadic lv re' next') ty').binderIds = (mk (.letE monadic lv re next) ty).binderIds := by
  rw [openedIn_letE] at h ⊢
  rw [binderIds_letE, binderIds_letE]
  obtain ⟨hre', hids⟩ := hre h.1
  obtain ⟨hnext', hids'⟩ := hnext _ h.2.2
  exact ⟨⟨hre', h.2.1, hnext'⟩, by rw [hids, hids']⟩

theorem scopeKept_branches (hfuel : ∀ v ∈ fuel, free v.id = true)
    {branches branches' : List (MatchBranch Texpr)}
    (h : List.Forall₂ (fun b b' => b'.pat = b.pat ∧ ScopeKept free fuel b.branch b'.branch) branches branches')
    (hbs : ∀ b ∈ branches, tpatsBound [b.pat] = [] ∧ b.branch.OpenedIn free (Ctx.push [b.pat] ctx)) :
    (∀ b ∈ branches', tpatsBound [b.pat] = [] ∧ b.branch.OpenedIn free (Ctx.push [b.pat] ctx)) ∧
      (branches'.flatMap fun b => tpatsIds [b.pat] ++ b.branch.binderIds) =
        branches.flatMap fun b => tpatsIds [b.pat] ++ b.branch.binderIds := by
  induction h with
  | nil => exact ⟨by simp, rfl⟩
  | cons hb _ ih =>
    obtain ⟨⟨hbound, hopened⟩, hbs⟩ := forall_mem_cons.mp hbs
    obtain ⟨hopened', hids⟩ := hb.2 hfuel _ hopened
    obtain ⟨hos, hidss⟩ := ih hbs
    refine ⟨forall_mem_cons.mpr ⟨?_, hos⟩, ?_⟩
    · rw [hb.1]
      exact ⟨hbound, hopened'⟩
    · rw [flatMap_cons, flatMap_cons, hb.1, hids, hidss]

theorem updateRule_scopeKept (isCall : FunKey → Bool) (free : FVarId → Bool) : UpdateRule isCall (ScopeKept free) where
  same ty ty' he _ ctx h := ⟨h, rfl⟩
  apps hf hhead _ he he' hargs hfuel ctx h := by
    obtain ⟨hfo, hxs⟩ := he.openedIn.mp h
    obtain ⟨hxs', hids⟩ := scopeKept_args hargs hxs
    exact ⟨he'.openedIn.mpr ⟨hfo, hxs'⟩, by rw [he'.binderIds, he.binderIds, hids]⟩
  call hf hsome he he' hargs hfuel ctx h := scopeKept_call hfuel he he' h (scopeKept_args hargs)
  letCall monadic lv hf hsome he he' hnext hfuel ctx h :=
    scopeKept_letE h (fun hre => scopeKept_call hfuel he he' hre fun hargs => ⟨hargs, rfl⟩) (hnext hfuel)
  letE monadic lv hre hnext hfuel ctx h := scopeKept_letE h (hre hfuel ctx) (hnext hfuel)
  ite hscrut h1 h2 hfuel ctx h := by
    rw [openedIn_ite] at h ⊢
    rw [binderIds_ite, binderIds_ite]
    obtain ⟨hs, hids⟩ := hscrut (by simp) ctx h.1
    obtain ⟨h1', hids1⟩ := h1 hfuel ctx h.2.1
    obtain ⟨h2', hids2⟩ := h2 hfuel ctx h.2.2
    exact ⟨⟨hs, h1', h2'⟩, by rw [hids, hids1, hids2]⟩
  matchE ty ty' hscrut hbranches hfuel ctx h := by
    rw [openedIn_matchE] at h ⊢
    rw [binderIds_matchE, binderIds_matchE]
    obtain ⟨hs, hids⟩ := hscrut (by simp) ctx h.1
    obtain ⟨hbs, hidss⟩ := scopeKept_branches hfuel hbranches h.2
    exact ⟨⟨hs, hbs⟩, by rw [hids, hidss]⟩

/-! ## The update gives the fuel to the calls -/

section
variable {D X : Type}

def supply (n : Nat) (call : FunCalls D X) : FunCalls D X := fun k a => call k (a.1, .fuel n :: a.2)

variable {I : Interp D X} {isCall : FunKey → Bool} {call : FunCalls D X} {free : FVarId → Bool} {n : Nat}

structure FuelEnv (free : FVarId → Bool) (n : Nat) (fuel : Option FVar) (ctx : Ctx) (env env' : Env D X) : Prop where
  agrees : env.Agrees free ctx env'
  fuel : ∀ v ∈ fuel, env'.fvars v.id = some (.fuel n)

variable {fuel : Option FVar} {ctx : Ctx} {env env' : Env D X}

theorem FuelEnv.none (h : FuelEnv free n fuel ctx env env') :
    FuelEnv free n none ctx env env' :=
  ⟨h.agrees, by simp⟩

theorem FuelEnv.bind (h : FuelEnv free n fuel ctx env env')
    {ps : List TPat} (hb : tpatsBound ps = []) (hfuel : ∀ v ∈ fuel, v.id ∉ tpatsIds ps) (vs : List (Value X)) :
    Option.Rel (FuelEnv free n fuel (Ctx.push ps ctx)) (env.bind ps vs) (env'.bind ps vs) := by
  unfold Env.bind
  cases hl : matchTPats ps vs with
  | none => exact .none
  | some l =>
    have hids := matchTPats_ids ps hb hl
    refine .some ⟨⟨h.agrees.generics, fun f hf => ?_⟩, fun v hv => ?_⟩
    · refine Env.setFVar_congr fun hmem => h.agrees.fvars f (hf.imp_right fun hf => ?_)
      rw [hids] at hmem
      exact (mem_append.mp hf).resolve_left fun hf => hmem (mem_map.mpr ⟨f, hf, rfl⟩)
    · have hnot : some v.id ∉ l.map Prod.fst := by
        rw [hids]
        simpa using hfuel v hv
      exact (Env.setFVar_not_mem hnot).trans (h.fuel v hv)

def EvalKept (I : Interp D X) (isCall : FunKey → Bool) (call : FunCalls D X) (free : FVarId → Bool) (n : Nat)
    (fuel : Option FVar) (e e' : Texpr) : Prop :=
  ∀ {ctx env env'}, e.WellScoped free ctx → FuelEnv free n fuel ctx env env' → (∀ v ∈ fuel, v.id ∉ e.binderIds) →
    e.ready isCall = true → e'.eval I isCall call env' [] = e.eval I isCall (supply n call) env []

variable {e : Texpr}

theorem eval_callFree_agrees (he : e.callFree isCall = true)
    (hscoped : e.WellScoped free ctx) (henv : env.Agrees free ctx env') (args : List (Value X)) :
    e.eval I isCall call env' args = e.eval I isCall (supply n call) env args := by
  rw [eval_agrees hscoped henv, e.eval_callFree call (supply n call) he]

variable {f : Texpr} {args : List Texpr}

theorem IsApps.wellScoped (h : IsApps f args e)
    (he : e.WellScoped free ctx) : f.WellScoped free ctx ∧ ∀ x ∈ args, x.WellScoped free ctx := by
  obtain ⟨hf, hargs⟩ := h.openedIn.mp he.opened
  have hnodup := he.nodup
  rw [h.binderIds, nodup_append, nodup_flatMap] at hnodup
  exact ⟨⟨hf, hnodup.1⟩, fun x hx => ⟨hargs x hx, hnodup.2.1.1 x hx⟩⟩

theorem callFree_of_head (hcallee : f.callee = none) (hhead : f.IsHead)
    (hspine : (f.shape isCall).spine = true) : f.callFree isCall = true := by
  obtain ⟨e, ty⟩ := f
  have hplain : e.IsPlain → (mk e ty).callFree isCall = true := by
    intro he
    rw [shape_plain he] at hspine
    rw [callFree, shape_plain he]
    exact hspine
  cases e with
  | app f x => exact absurd rfl (hhead f x ty)
  | qualif q =>
    have hq : q.callee = none := hcallee
    simp [callFree, shape, Expr.visit, callShape, hq]
  | fvar f => rfl
  | bvar v => rfl
  | letE monadic pat bound next => exact hspine
  | switch scrut body =>
    rw [shape_switch] at hspine
    rw [callFree, shape_switch]
    exact hspine
  | _ => exact hplain (by constructor)

theorem evalArgs_append (ys : List Texpr) : ∀ {xs : List Texpr} {vs : List (Value X)},
    evalArgs I isCall call env xs = some vs → evalArgs I isCall call env (xs ++ ys) =
      (evalArgs I isCall call env ys).bind fun ws => some (vs ++ ws)
  | [], vs, h => by
    obtain rfl : [] = vs := by simpa [evalArgs] using h
    simp
  | x :: xs, vs, h => by
    obtain ⟨v, hv, h⟩ := Option.bind_eq_some_iff.mp h
    obtain ⟨vs', hvs, h⟩ := Option.bind_eq_some_iff.mp h
    obtain rfl := Option.some.inj h
    simp only [cons_append, evalArgs, hv, Option.bind_some, evalArgs_append ys hvs]
    cases evalArgs I isCall call env ys <;> rfl

theorem evalArgs_kept {args' : List Texpr}
    (h : List.Forall₂ (EvalKept I isCall call free n none) args args')
    (hscoped : ∀ x ∈ args, x.WellScoped free ctx) (henv : FuelEnv free n none ctx env env')
    (hfree : ∀ x ∈ args, x.callFree isCall = true) :
    evalArgs I isCall call env' args' = evalArgs I isCall (supply n call) env args := by
  induction h with
  | nil => rfl
  | cons hx _ ih =>
    obtain ⟨hs, hscoped⟩ := forall_mem_cons.mp hscoped
    obtain ⟨hf, hfree⟩ := forall_mem_cons.mp hfree
    simp only [evalArgs, hx hs henv (by simp) (ready_of_callFree _ hf).2, ih hscoped hfree]

theorem evalArgs_callFree (henv : env.Agrees free ctx env') : ∀ {args : List Texpr},
    (∀ x ∈ args, x.WellScoped free ctx) → (∀ x ∈ args, x.callFree isCall = true) →
    evalArgs I isCall call env' args = evalArgs I isCall (supply n call) env args
  | [], _, _ => rfl
  | x :: args, hscoped, hfree => by
    obtain ⟨hs, hscoped⟩ := forall_mem_cons.mp hscoped
    obtain ⟨hf, hfree⟩ := forall_mem_cons.mp hfree
    simp only [evalArgs, eval_callFree_agrees (n := n) hf hs henv, evalArgs_callFree henv hscoped hfree]

variable {ty : Ty}

theorem eval_call {e' : Texpr} {args' : List Texpr} {key : FunKey}
    (hf : f.callee = some key) (hsome : isCall key = true → fuel.isSome) (he : IsApps f args e)
    (he' : IsApps (.mk f.e ty) (fuelArg isCall fuel key ++ args') e') (henv : FuelEnv free n fuel ctx env env')
    (hargs : evalArgs I isCall call env' args' = evalArgs I isCall (supply n call) env args) :
    e'.eval I isCall call env' [] = e.eval I isCall (supply n call) env [] := by
  obtain ⟨e₀, ty₀⟩ := f
  cases e₀ with
  | qualif q =>
    have hq : q.callee = some key := hf
    rw [he.eval, he'.eval, Texpr.e]
    simp only [append_nil, eval_qualif, henv.agrees.generics]
    cases hk : isCall key with
    | false =>
      have hany : q.callee.any isCall = false := by simp [hq, hk]
      simp only [fuelArg, hk, Bool.false_eq_true, if_false, nil_append, hargs,
        evalQualif_callFree hany call (supply n call)]
    | true =>
      obtain ⟨v, rfl⟩ := Option.isSome_iff_exists.mp (hsome hk)
      have hv : evalArgs I isCall call env' [mkTexprFromFVar v] = some [.fuel n] := by
        simp [evalArgs, mkTexprFromFVar, henv.fuel v rfl, Interp.applyTo]
      have happend := evalArgs_append args' hv
      simp only [fuelArg, hk, if_true, Option.map_some, Option.toList_some, happend, hargs]
      cases evalArgs I isCall (supply n call) env args with
      | none => rfl
      | some vs => simp only [Option.bind_some, evalQualif_call hq hk, supply, singleton_append]
  | _ => cases hf

theorem ready_eq_spine {key : FunKey} (he : IsApps f args e)
    (hf : f.callee = some key) : (e.shape isCall).spine = e.ready isCall := by
  have happ : ∀ {f e : Texpr} {args : List Texpr}, IsApps f args e → (f.shape isCall).spine = f.ready isCall →
      (e.shape isCall).spine = e.ready isCall := by
    intro f e args h
    induction h with
    | nil f => exact id
    | cons ty _ ih => exact fun _ => ih rfl
  refine happ he ?_
  obtain ⟨e₀, ty⟩ := f
  cases e₀ with
  | qualif q => rfl
  | _ => cases hf

theorem mem_binderIds_child {e : Expr} (he : e.IsNode) {c : Scoped Texpr} (hc : c ∈ e.children) {f : FVarId}
    (hf : f ∉ (mk e ty).binderIds) : f ∉ tpatsIds c.1.pats ∧ f ∉ c.2.binderIds := by
  rw [binderIds_node he, mem_flatMap] at hf
  exact ⟨fun h => hf ⟨c, hc, mem_append_left _ h⟩, fun h => hf ⟨c, hc, mem_append_right _ h⟩⟩

theorem evalKept_letE {re re' next next' : Texpr} {lv : TPat}
    {monadic : Bool} {ty' : Ty} (hscoped : (mk (.letE monadic lv re next) ty).WellScoped free ctx)
    (henv : FuelEnv free n fuel ctx env env')
    (hfuel : ∀ v ∈ fuel, v.id ∉ (mk (.letE monadic lv re next) ty).binderIds)
    (hre : re'.eval I isCall call env' [] = re.eval I isCall (supply n call) env [])
    (hnext : EvalKept I isCall call free n fuel next next') (hready : next.ready isCall = true) :
    (mk (.letE monadic lv re' next') ty').eval I isCall call env' [] =
      (mk (.letE monadic lv re next) ty).eval I isCall (supply n call) env [] := by
  have hmem : (Group.one lv, next) ∈ (Expr.letE monadic lv re next).children := by simp
  have hnode := Expr.isNode_letE monadic lv re next
  obtain ⟨hb, -, hs⟩ := hscoped.child hnode hmem
  have hbind : ∀ v, (env'.bind [lv] [v]).bind (fun env => next'.eval I isCall call env []) =
      (env.bind [lv] [v]).bind fun env => next.eval I isCall (supply n call) env [] := by
    intro v
    have hrel := henv.bind hb (fun v hv => (mem_binderIds_child hnode hmem (hfuel v hv)).1) [v]
    refine bind_eq_of_rel hrel fun env₁ env₁' henv₁ => ?_
    exact hnext hs henv₁ (fun v hv => (mem_binderIds_child hnode hmem (hfuel v hv)).2) hready
  rw [eval_letE, eval_letE, hre]
  congr 1
  funext v
  simp only [evalLet, hbind]

theorem evalBranches_kept (v : Value X)
    (henv : FuelEnv free n fuel ctx env env') {branches branches' : List (MatchBranch Texpr)}
    (h : List.Forall₂ (fun b b' => b'.pat = b.pat ∧ EvalKept I isCall call free n fuel b.branch b'.branch)
      branches branches')
    (hbranches : ∀ b ∈ branches, tpatsBound [b.pat] = [] ∧ b.branch.WellScoped free (Ctx.push [b.pat] ctx) ∧
      b.branch.ready isCall = true ∧ ∀ x ∈ fuel, x.id ∉ tpatsIds [b.pat] ∧ x.id ∉ b.branch.binderIds) :
    evalBranches env' [] v (branches'.map (MatchBranch.map (eval I isCall call))) =
      evalBranches env [] v (branches.map (MatchBranch.map (eval I isCall (supply n call)))) := by
  induction h with
  | nil => rfl
  | cons hb _ ih =>
    rename_i b b' _ _ _
    obtain ⟨⟨hbound, hs, hready, hfuel⟩, hbs⟩ := forall_mem_cons.mp hbranches
    have hrel := henv.bind hbound (fun x hx => (hfuel x hx).1) [v]
    simp only [map_cons, evalBranches, MatchBranch.map, hb.1]
    generalize env'.bind [b.pat] [v] = x at hrel ⊢
    generalize env.bind [b.pat] [v] = y at hrel ⊢
    cases hrel with
    | none => exact ih hbs
    | some henv₁ => exact hb.2 hs henv₁ (fun x hx => (hfuel x hx).2) hready

theorem updateRule_evalKept (I : Interp D X) (isCall : FunKey → Bool) (call : FunCalls D X) (free : FVarId → Bool)
    (n : Nat) : UpdateRule isCall (EvalKept I isCall call free n) where
  same {fuel e} ty ty' he {ctx env env'} hscoped henv _ hready := by
    have hfree : (mk e ty).callFree isCall = true := by
      cases he with
      | fvar f => rfl
      | bvar v => rfl
      | _ =>
        rw [ready, shape_plain (by constructor)] at hready
        rw [callFree, shape_plain (by constructor)]
        exact hready
    rw [eval_retype e ty' ty]
    exact eval_callFree_agrees hfree hscoped henv.agrees []
  apps {fuel f e e' args args'} hf hhead hspine he he' hargs {ctx env env'} hscoped henv _ hready := by
    obtain ⟨hfs, hxs⟩ := he.wellScoped hscoped
    obtain ⟨hf', hfree⟩ := he.spine (hspine.trans hready)
    have hcallFree := callFree_of_head hf hhead hf'
    rw [he.eval, he'.eval, evalArgs_kept hargs hxs henv.none hfree]
    simp only [eval_callFree_agrees (n := n) hcallFree hfs henv.agrees]
  call {fuel f e e' args args' key ty} hf hsome he he' hargs {ctx env env'} hscoped henv _ hready := by
    obtain ⟨-, hxs⟩ := he.wellScoped hscoped
    obtain ⟨-, hfree⟩ := he.spine ((ready_eq_spine he hf).trans hready)
    exact eval_call hf hsome he he' henv (evalArgs_kept hargs hxs henv.none hfree)
  letCall {fuel f re re' next next' args key ty ty'} monadic lv hf hsome he he' hnext {ctx env env'} hscoped henv hfuel
      hready := by
    obtain ⟨hre, hnready⟩ := Bool.and_eq_true_iff.mp hready
    have hreready : re.ready isCall = true := by
      cases monadic with
      | true => exact hre
      | false => exact (re.ready_of_callFree hre).2
    have hrescoped := (hscoped.child (Expr.isNode_letE monadic lv re next) (c := (.none, re)) (by simp)).2.2
    obtain ⟨-, hxs⟩ := he.wellScoped hrescoped
    obtain ⟨-, hfree⟩ := he.spine ((ready_eq_spine he hf).trans hreready)
    exact evalKept_letE hscoped henv hfuel
      (eval_call hf hsome he he' henv (evalArgs_callFree henv.agrees hxs hfree)) hnext hnready
  letE {fuel re re' next next' ty} monadic lv hre hnext {ctx env env'} hscoped henv hfuel hready := by
    obtain ⟨hrer, hnready⟩ := Bool.and_eq_true_iff.mp hready
    have hreready : re.ready isCall = true := by
      cases monadic with
      | true => exact hrer
      | false => exact (re.ready_of_callFree hrer).2
    have hmem : (Group.none, re) ∈ (Expr.letE monadic lv re next).children := by simp
    have hrescoped := (hscoped.child (Expr.isNode_letE monadic lv re next) hmem).2.2
    refine evalKept_letE hscoped henv hfuel (hre hrescoped henv (fun v hv => ?_) hreready) hnext hnready
    exact (mem_binderIds_child (Expr.isNode_letE monadic lv re next) hmem (hfuel v hv)).2
  ite {fuel scrut scrut' e1 e1' e2 e2' ty} hscrut h1 h2 {ctx env env'} hscoped henv hfuel hready := by
    have hnode := Expr.isNode_switch scrut (.ite e1 e2)
    have hchild := fun c hc => (hscoped.child hnode (c := c) hc).2.2
    have hids := fun c hc v hv => (mem_binderIds_child hnode (c := c) hc (hfuel v hv)).2
    rw [ready, shape_switch] at hready
    simp only [Bool.and_eq_true, all_eq_true, SwitchBody.children, forall_mem_cons] at hready
    have hs := hscrut (hchild (.none, scrut) (by simp)) henv.none (by simp)
      (scrut.ready_of_callFree hready.1).2
    have he1 := h1 (hchild (.none, e1) (by simp)) henv
      (hids (.none, e1) (by simp)) hready.2.1
    have he2 := h2 (hchild (.none, e2) (by simp)) henv
      (hids (.none, e2) (by simp)) hready.2.2.1
    rw [eval_switch, eval_switch, hs]
    congr 1
    funext v
    simp only [SwitchBody.map, evalSwitch, he1, he2]
  matchE {fuel scrut scrut' branches branches'} ty ty' hscrut hbranches {ctx env env'} hscoped henv hfuel hready := by
    have hnode := Expr.isNode_switch scrut (.matchE branches)
    have hmem : ∀ b ∈ branches, (Group.one b.pat, b.branch) ∈ (Expr.switch scrut (.matchE branches)).children :=
      fun b hb => mem_cons_of_mem _ (mem_map.mpr ⟨b, hb, rfl⟩)
    rw [ready, shape_switch] at hready
    simp only [Bool.and_eq_true, all_eq_true, SwitchBody.children, forall_mem_map] at hready
    have hs := hscrut (hscoped.child hnode (c := (.none, scrut)) (by simp)).2.2 henv.none (by simp)
      (scrut.ready_of_callFree hready.1).2
    rw [eval_switch, eval_switch, hs]
    congr 1
    funext v
    refine evalBranches_kept v henv hbranches fun b hb => ?_
    obtain ⟨hbound, -, hb'⟩ := hscoped.child hnode (hmem b hb)
    exact ⟨hbound, hb', hready.2 b hb, fun x hx => mem_binderIds_child hnode (hmem b hb) (hfuel x hx)⟩

end

end Aeneas.Pure
