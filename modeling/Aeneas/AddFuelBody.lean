import Aeneas.AddFuelSound

/-!
# The bodies with fuel

The body of a recursive function with fuel fails if there is no fuel left, and
has the value of the original body with the rest of the fuel otherwise.
-/

namespace Aeneas.Pure

open Fuel Texpr List

/-! ## The match on the fuel -/

section
variable {D X : Type} {I : Interp D X} {isCall : FunKey → Bool} {call : FunCalls D X}

variable {cfg : FuelConfig}

theorem mkResultFail_outOfFuel {ty : Ty} {fail : Texpr}
    (h : mkResultFailTexpr cfg (mkError errorOutOfFuelId) ty = .ok fail) (env : Env D X) :
    fail.eval I isCall call env [] = some .outOfFuel := by
  obtain rfl := Except.ok.inj h
  rfl

variable {fuel0 fuel : FVarId} {body e' : Texpr}

theorem wrapInMatchFuel_eq (h : wrapInMatchFuel cfg fuel0 fuel body = .ok e') : ∃ fail ty ty',
    mkResultFailTexpr cfg (mkError errorOutOfFuelId) body.ty = .ok fail ∧
    (e' = .mk (.switch (.mk (.app (mkPureFun .fuelEqZero ty) (.mk (.fvar fuel0) mkFuelTy)) mkBoolTy)
        (.ite fail (mkOpenedLet false (mkTPatFromFVar (mkFuelFVar fuel))
          (.mk (.app (mkPureFun .fuelDecrease ty') (.mk (.fvar fuel0) mkFuelTy)) mkFuelTy) body))) body.ty ∨
      e' = .mk (.switch (.mk (.fvar fuel0) mkFuelTy) (.matchE
        [{ pat := .mk (.adt (some fuelZeroId) []) mkFuelTy, branch := fail },
          { pat := .mk (.adt (some fuelSuccId) [mkTPatFromFVar (mkFuelFVar fuel)]) mkFuelTy, branch := body }]))
        body.ty) := by
  unfold wrapInMatchFuel at h
  obtain ⟨fail, hfail, h⟩ := bind_eq_ok.mp h
  refine ⟨fail, .arrow mkFuelTy mkBoolTy, .arrow mkFuelTy mkFuelTy, hfail, ?_⟩
  split at h
  · exact .inl (Except.ok.inj h).symm
  · exact .inr (Except.ok.inj h).symm
  · cases h

variable (I isCall call) in
theorem wrapInMatchFuel_eval (h : wrapInMatchFuel cfg fuel0 fuel body = .ok e') (env : Env D X) :
    (env.fvars fuel0 = some (.fuel 0) → e'.eval I isCall call env [] = some .outOfFuel) ∧
    ∀ n, env.fvars fuel0 = some (.fuel (n + 1)) →
      e'.eval I isCall call env [] = body.eval I isCall call (env.push [(some fuel, .fuel n)]) [] := by
  obtain ⟨fail, ty, ty', hfail, he'⟩ := wrapInMatchFuel_eq h
  have heval : ∀ env, fail.eval I isCall call env [] = some .outOfFuel := mkResultFail_outOfFuel hfail
  obtain rfl | rfl := he'
  · refine ⟨fun h0 => ?_, fun n hn => ?_⟩
    · simp [h0, evalSwitch, SwitchBody.map, mkPureFun, evalQualif, Interp.applyTo, Value.fuel, Value.fuelEqZero, heval]
    · simp [hn, evalSwitch, SwitchBody.map, mkPureFun, evalQualif, Interp.applyTo, Value.fuel, Value.fuelEqZero,
        Value.fuelDecrease, mkOpenedLet, evalLet, Env.bind, matchTPats, TPat.matches, Pat.matches, mkTPatFromFVar,
        mkFuelFVar, fuelZeroId, fuelSuccId]
  · refine ⟨fun h0 => ?_, fun n hn => ?_⟩
    · simp [h0, evalSwitch, SwitchBody.map, MatchBranch.map, evalBranches, Interp.applyTo, Value.fuel, Env.bind,
        matchTPats, TPat.matches, Pat.matches, Ty.adtId, mkFuelTy, heval]
    · simp [hn, evalSwitch, SwitchBody.map, MatchBranch.map, evalBranches, Interp.applyTo, Value.fuel, Env.bind,
        matchTPats, TPat.matches, Pat.matches, Ty.adtId, mkFuelTy, mkTPatFromFVar, mkFuelFVar, fuelZeroId, fuelSuccId]

theorem wrapInMatchFuel_scope (h : wrapInMatchFuel cfg fuel0 fuel body = .ok e') {free : FVarId → Bool} {ctx : Ctx}
    (h0 : free fuel0 = true ∨ fuel0 ∈ ctx.flatten) (hbody : body.OpenedIn free ([fuel] :: ctx)) :
    e'.OpenedIn free ctx ∧ e'.binderIds = fuel :: body.binderIds := by
  obtain ⟨fail, ty, ty', hfail, he'⟩ := wrapInMatchFuel_eq h
  have hopened : ∀ ctx, fail.OpenedIn free ctx := by
    obtain rfl := Except.ok.inj hfail
    exact fun ctx => ⟨rfl, rfl⟩
  have hids : fail.binderIds = [] := by
    obtain rfl := Except.ok.inj hfail
    rfl
  have hvar : (mk (.fvar fuel0) mkFuelTy).OpenedIn free ctx := openedIn_fvar.mpr h0
  have hqualif : ∀ id ty, (mkPureFun id ty).OpenedIn free ctx := fun _ _ => ⟨rfl, rfl⟩
  obtain rfl | rfl := he'
  · rw [openedIn_ite, openedIn_app, mkOpenedLet, openedIn_letE, openedIn_app,
      binderIds_ite, binderIds_app, binderIds_letE, binderIds_app, hids]
    exact ⟨⟨⟨hqualif _ _, hvar⟩, hopened _, ⟨hqualif _ _, hvar⟩, rfl, hbody⟩, rfl⟩
  · rw [openedIn_matchE, binderIds_matchE]
    refine ⟨⟨hvar, forall_mem_cons.mpr ⟨⟨rfl, hopened _⟩, forall_mem_cons.mpr ⟨⟨rfl, hbody⟩, by simp⟩⟩⟩, ?_⟩
    simp only [flatMap_cons, flatMap_nil, hids, append_nil]
    rfl

end

/-! ## The functions which do not diverge -/

variable {isCall : FunKey → Bool}

theorem IsApps.callFree {f e : Texpr} {args : List Texpr} (h : IsApps f args e)
    (hf : f.callFree isCall = true) (hargs : ∀ x ∈ args, x.callFree isCall = true) : e.callFree isCall = true := by
  induction h with
  | nil f => exact hf
  | cons ty _ ih =>
    obtain ⟨hx, hargs⟩ := forall_mem_cons.mp hargs
    refine ih ?_ hargs
    rw [Texpr.callFree, Texpr.shape_app, hf, hx]
    rfl

def CallFreeKept (isCall : FunKey → Bool) (fuel : Option FVar) (e _e' : Texpr) : Prop :=
  fuel = none → e.ready isCall = true → e.callFree isCall = true

theorem callee_callFree {f : Texpr} {key : FunKey} (hf : f.callee = some key)
    (hkey : ¬ isCall key = true) : f.callFree isCall = true := by
  obtain ⟨e, ty⟩ := f
  cases e with
  | qualif q =>
    have hq : q.callee = some key := hf
    simp [callFree, shape, Expr.visit, callShape, hq, hkey]
  | _ => cases hf

theorem updateRule_callFreeKept (isCall : FunKey → Bool) : UpdateRule isCall (CallFreeKept isCall) where
  same {fuel e} ty ty' he _ hready := by
    cases he with
    | fvar f => rfl
    | bvar v => rfl
    | _ =>
      rw [ready, shape_plain (by constructor)] at hready
      rw [callFree, shape_plain (by constructor)]
      exact hready
  apps hf hhead hspine he _ _ _ hready := by
    obtain ⟨hspine', hargs⟩ := he.spine (hspine.trans hready)
    exact he.callFree (callFree_of_head hf hhead hspine') hargs
  call hf hsome he _ _ hfuel hready := by
    have hkey := fun h => Option.isSome_iff_ne_none.mp (hsome h) hfuel
    exact he.callFree (callee_callFree hf hkey) (he.spine ((ready_eq_spine he hf).trans hready)).2
  letCall {fuel f re re' next next' args key ty ty'} monadic lv hf hsome he _ hnext hfuel hready := by
    obtain ⟨hre, hn⟩ := Bool.and_eq_true_iff.mp hready
    have hkey := fun h => Option.isSome_iff_ne_none.mp (hsome h) hfuel
    have hre' : re.callFree isCall = true := by
      cases monadic with
      | true => exact he.callFree (callee_callFree hf hkey) (he.spine ((ready_eq_spine he hf).trans hre)).2
      | false => exact hre
    rw [callFree, shape_letE, hre', hnext hfuel hn]
    rfl
  letE {fuel re re' next next' ty} monadic lv hre hnext hfuel hready := by
    obtain ⟨hrer, hn⟩ := Bool.and_eq_true_iff.mp hready
    have hre' : re.callFree isCall = true := by
      cases monadic with
      | true => exact hre hfuel hrer
      | false => exact hrer
    rw [callFree, shape_letE, hre', hnext hfuel hn]
    rfl
  ite hscrut h1 h2 hfuel hready := by
    rw [ready, shape_switch] at hready
    simp only [Bool.and_eq_true, all_eq_true, SwitchBody.children, forall_mem_cons] at hready
    rw [callFree, shape_switch]
    simp only [Bool.and_eq_true, all_eq_true, SwitchBody.children, forall_mem_cons]
    exact ⟨hready.1, h1 hfuel hready.2.1, h2 hfuel hready.2.2.1, by simp⟩
  matchE {fuel scrut scrut' branches branches'} ty ty' hscrut hbranches hfuel hready := by
    rw [ready, shape_switch] at hready
    simp only [Bool.and_eq_true, all_eq_true, SwitchBody.children, forall_mem_map] at hready
    rw [callFree, shape_switch]
    simp only [Bool.and_eq_true, all_eq_true, SwitchBody.children, forall_mem_map]
    refine ⟨hready.1, ?_⟩
    replace hready := hready.2
    induction hbranches with
    | nil => simp
    | cons hb _ ih =>
      obtain ⟨hbr, hready⟩ := forall_mem_cons.mp hready
      exact forall_mem_cons.mpr ⟨hb.2 hfuel hbr, ih hready⟩

/-! ## Function bodies -/

section
variable {D X : Type} (I : Interp D X) (isCall : FunKey → Bool)

def fuelledEval (isRec : Bool) (fbody : FunBody) (call : FunCalls D X) (d : D) (args : List (Value X)) :
    Nat → Option (Value X)
  | 0 => if isRec then (matchTPats fbody.inputs args).map fun _ => .outOfFuel
    else fbody.eval I isCall (supply 0 call) d args
  | n + 1 => if isRec then fbody.eval I isCall (supply n call) d args
    else fbody.eval I isCall (supply (n + 1) call) d args

/-- The body `fbody'` has the value of the body `fbody` with fuel, if the function may diverge, and
its value otherwise. -/
structure Fuelled (effect : FunEffectInfo) (fbody fbody' : FunBody) : Prop where
  diverges : effect.canDiverge = true → ∀ call d args n,
    fbody'.eval I isCall call d (.fuel n :: args) = fuelledEval I isCall effect.isRec fbody call d args n
  terminates : effect.canDiverge = false → ∀ call call' d args,
    fbody'.eval I isCall call' d args = fbody.eval I isCall call d args

variable {I isCall} {cfg : FuelConfig} {ctx : PassCtx} {loops : IdMap LoopId FunDef} {def_ : FunDef}
  {v : FVar}

theorem addFuelBody_terminates (hadds : AddsFuel cfg ctx loops def_.defId isCall) {fbody fbody' : FunBody}
    (hfbody : fbody.WellScoped) (hready : fbody.body.ready isCall = true)
    (h : addFuelBody cfg ctx loops def_ none none fbody = .ok fbody') :
    fbody'.WellScoped ∧ ∀ call call' d args,
      fbody'.eval I isCall call' d args = fbody.eval I isCall call d args := by
  unfold addFuelBody at h
  obtain ⟨body, hbody, h⟩ := bind_eq_ok.mp h
  split at h
  · cases h
  · obtain rfl := Except.ok.inj h
    obtain ⟨hopened, hids⟩ := update_rule hadds (updateRule_scopeKept isCall fun _ => false) fbody.body hbody
      (by simp) _ hfbody.opened
    have hfree := update_rule hadds (updateRule_callFreeKept isCall) fbody.body hbody rfl hready
    refine ⟨⟨hfbody.bound, hopened, ?_⟩, fun call call' d args => ?_⟩
    · simpa [FunBody.binderIds, hids] using hfbody.nodup
    · show (Env.bind _ fbody.inputs args).bind _ = (Env.bind _ fbody.inputs args).bind _
      congr 1
      funext env
      have henv : FuelEnv (fun _ => false) 0 none [tpatsIds fbody.inputs] env env := ⟨⟨rfl, fun _ _ => rfl⟩, by simp⟩
      rw [update_rule hadds (updateRule_evalKept I isCall call' (fun _ => false) 0) fbody.body hbody
        hfbody.body henv (by simp) hready]
      rw [fbody.body.eval_callFree (supply 0 call') call hfree]

theorem matchTPats_fvar (v : FVar) (ps : List TPat) (x : Value X) (vs : List (Value X)) :
    matchTPats (mkTPatFromFVar v :: ps) (x :: vs) = (matchTPats ps vs).map fun l => (some v.id, x) :: l := by
  cases hl : matchTPats ps vs <;> simp [matchTPats, mkTPatFromFVar, TPat.matches, Pat.matches, hl]

theorem fuelEnv_inputs {ids : List FVarId} {l : List (Option FVarId × Value X)} (hids : l.map Prod.fst = ids.map some)
    (hv : v.id ∉ ids) (env : Env D X) (n : Nat) :
    FuelEnv (fun _ => false) n (some v) [ids] (env.push l) (env.push ((some v.id, .fuel n) :: l)) := by
  refine ⟨⟨rfl, fun f hf => ?_⟩, ?_⟩
  · have hf' : f ∈ ids := by simpa using hf
    show l.foldl Env.setFVar (Env.setFVar env.fvars (some v.id, .fuel n)) f = l.foldl Env.setFVar env.fvars f
    refine Env.setFVar_congr fun hmem => absurd ?_ hmem
    rw [hids]
    exact mem_map.mpr ⟨f, hf', rfl⟩
  · rintro w ⟨⟩
    have hnot : some v.id ∉ l.map Prod.fst := by
      rw [hids]
      simpa using hv
    exact (Env.setFVar_not_mem hnot).trans (by simp [Env.setFVar])

theorem fuelEnv_push {fuel : Option FVar} {ids : List FVarId} {env env' : Env D X} {m n : Nat}
    (h : FuelEnv (fun _ => false) m fuel [ids] env env') (hv : v.id ∉ ids) :
    FuelEnv (fun _ => false) n (some v) [ids] env (env'.push [(some v.id, .fuel n)]) := by
  refine ⟨⟨h.agrees.generics, fun f hf => ?_⟩, ?_⟩
  · have hf' : f ≠ v.id := fun hfv => hv (by simpa [hfv] using hf)
    exact (by simp [Env.push, Env.setFVar, hf'] : (env'.push [(some v.id, .fuel n)]).fvars f = env'.fvars f).trans
      (h.agrees.fvars f hf)
  · rintro w ⟨⟩
    simp [Env.push, Env.setFVar]

theorem addFuelBody_diverges (hadds : AddsFuel cfg ctx loops def_.defId isCall) {fbody fbody' : FunBody} {v0 : FVar}
    (hfbody : fbody.WellScoped) (hready : fbody.body.ready isCall = true) (hv0 : v0.id ∉ fbody.binderIds)
    (hv : v.id ∉ fbody.binderIds) (hne : v0.id ≠ v.id)
    (h : addFuelBody cfg ctx loops def_ (some v0) (some v) fbody = .ok fbody') :
    fbody'.WellScoped ∧ ∀ call d args n, fbody'.eval I isCall call d (.fuel n :: args) =
      fuelledEval I isCall def_.signature.effectInfo.isRec fbody call d args n := by
  unfold addFuelBody at h
  obtain ⟨body, hbody, h⟩ := bind_eq_ok.mp h
  simp only [FunBody.binderIds, mem_append, not_or] at hv0 hv
  have hopened : fbody.body.OpenedIn (fun f => f == v.id) [tpatsIds fbody.inputs] :=
    fbody.body.openedIn_mono (fun f hf => .inr (by simpa using hf)) hfbody.opened
  obtain ⟨hopened', hids⟩ := update_rule hadds (updateRule_scopeKept isCall fun f => f == v.id) fbody.body hbody
    (by rintro w ⟨⟩; simp) _ hopened
  have heval := fun call n {env env' : Env D X} (henv : FuelEnv (fun _ => false) n (some v) _ env env') =>
    update_rule hadds (updateRule_evalKept I isCall call (fun _ => false) n) fbody.body hbody
      hfbody.body henv (by rintro w ⟨⟩; exact hv.2) hready
  rw [hadds.use, Bool.and_true] at h
  cases hrec : def_.signature.effectInfo.isRec with
  | false =>
    rw [hrec] at h
    obtain rfl := Except.ok.inj h
    refine ⟨⟨hfbody.bound, ?_, ?_⟩, fun call d args n => ?_⟩
    · refine body.openedIn_mono (fun f hf => .inr ?_) hopened'
      show f ∈ [v.id :: tpatsIds fbody.inputs].flatten
      simpa using hf
    · show (v.id :: (tpatsIds fbody.inputs ++ body.binderIds)).Nodup
      rw [hids, nodup_cons, mem_append, not_or]
      exact ⟨hv, hfbody.nodup⟩
    · have hfuelled : fuelledEval I isCall false fbody call d args n = fbody.eval I isCall (supply n call) d args := by
        cases n <;> simp [fuelledEval]
      rw [hfuelled]
      unfold FunBody.eval Env.bind
      show ((matchTPats (mkTPatFromFVar v :: fbody.inputs) (.fuel n :: args)).map _).bind _ = _
      rw [matchTPats_fvar]
      cases hl : matchTPats fbody.inputs args with
      | none => rfl
      | some l => exact heval call n (fuelEnv_inputs (matchTPats_ids _ hfbody.bound hl) hv.1 _ n)
  | true =>
    rw [hrec] at h
    obtain ⟨w0, hw0, h⟩ := bind_eq_ok.mp h
    obtain rfl := Except.ok.inj hw0
    obtain ⟨w, hw, h⟩ := bind_eq_ok.mp h
    obtain rfl := Except.ok.inj hw
    obtain ⟨body', hwrap, h⟩ := bind_eq_ok.mp h
    obtain rfl := Except.ok.inj h
    have hbody' : body.OpenedIn (fun _ => false) ([v.id] :: [v0.id :: tpatsIds fbody.inputs]) := by
      refine body.openedIn_mono (fun f hf => .inr ?_) hopened'
      have hf' : f = v.id ∨ f ∈ tpatsIds fbody.inputs := by simpa using hf
      simp only [List.flatten_cons, mem_append, mem_cons]
      tauto
    obtain ⟨hscope, hids'⟩ := wrapInMatchFuel_scope hwrap (.inr (by simp)) hbody'
    refine ⟨⟨hfbody.bound, hscope, ?_⟩, fun call d args n => ?_⟩
    · show (v0.id :: (tpatsIds fbody.inputs ++ body'.binderIds)).Nodup
      rw [hids', hids, nodup_cons, perm_middle.nodup_iff, nodup_cons, mem_append, mem_append,
        mem_cons, not_or, not_or, not_or]
      exact ⟨⟨hv0.1, hne, hv0.2⟩, hv, hfbody.nodup⟩
    · unfold FunBody.eval Env.bind
      show ((matchTPats (mkTPatFromFVar v0 :: fbody.inputs) (.fuel n :: args)).map _).bind _ = _
      rw [matchTPats_fvar]
      cases hl : matchTPats fbody.inputs args with
      | none => cases n <;> simp [fuelledEval, FunBody.eval, Env.bind, hl]
      | some l =>
        have hl' := matchTPats_ids _ hfbody.bound hl
        have henv := fuelEnv_inputs (v := v0) hl' hv0.1 { generics := d, fvars := fun _ => none, stack := [] } n
        have hfuel0 := henv.fuel v0 rfl
        obtain ⟨hzero, hsucc⟩ := wrapInMatchFuel_eval I isCall call hwrap
          (Env.push { generics := d, fvars := fun _ => none, stack := [] } ((some v0.id, .fuel n) :: l))
        cases n with
        | zero => simpa [fuelledEval, hl] using hzero hfuel0
        | succ n =>
          have hb : fuelledEval I isCall true fbody call d args (n + 1) = fbody.body.eval I isCall (supply n call)
              (Env.push { generics := d, fvars := fun _ => none, stack := [] } l) [] := by
            simp [fuelledEval, FunBody.eval, Env.bind, hl]
          rw [hb]
          exact (hsucc n hfuel0).trans (heval call n (fuelEnv_push henv hv.1))

end

end Aeneas.Pure
