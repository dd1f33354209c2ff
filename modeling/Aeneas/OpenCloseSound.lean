import Aeneas.OpenCloseVisit

/-!
# Opening and closing are inverse

Closing computes `closeIn` of an opened expression, if the identifiers of its
binders are distinct and every variable is used in the scope of its binder.
Opening undoes it: the identifiers of the binders become the next ones of the
generator. And every closed expression is the closed form of an opened one.
-/

namespace Aeneas.Pure

open List

/-! ## Closing -/

/-- No pattern is being visited. Nothing is known of the variables of the groups which were left. -/
structure CloseAllEnv.Idle (free : FVarId → Bool) (ctx : Ctx) (env : CloseAllEnv) : Prop where
  scope : env.scope = ctx.length
  bvarId : env.bvarId = none
  get : ∀ f, free f = true ∨ f ∈ ctx.flatten → closeAllEnvGetVar env f = ctx.position f

structure CloseAllEnv.InGroup (env₀ : CloseAllEnv) (ids : List FVarId) (env : CloseAllEnv) : Prop where
  scope : env.scope = env₀.scope
  bvarId : env.bvarId = some ids.length
  fenv : ∀ f, env.fenv[f]? = if f ∈ ids then some { scope := env₀.scope, id := ids.idxOf f } else env₀.fenv[f]?

variable {env : CloseAllEnv} {ids : List FVarId}

theorem closePushVar_ok {env₀ : CloseAllEnv} (h : env₀.InGroup ids env) {v : FVar}
    (hv : v.id ∉ ids) (mp : Option MPlace) :
    ∃ env', closeAllVisitor.visitPOpen v mp env = .ok (closeBinder v mp, env') ∧ env₀.InGroup (ids ++ [v.id]) env' := by
  obtain ⟨fenv, scope, bvarId⟩ := env
  obtain ⟨hscope, hbvarId, hfenv⟩ := h
  simp only at hscope hbvarId hfenv
  subst hbvarId
  refine ⟨⟨fenv.insert v.id { scope, id := ids.length }, scope, some (ids.length + 1)⟩, rfl, hscope, by simp, ?_⟩
  intro f
  simp only [getElem?_insert_eq, hfenv, mem_append, mem_singleton]
  by_cases hf : v.id = f
  · subst hf
    simp [hv, List.idxOf_append, hscope]
  · have hf' : f ≠ v.id := fun h => hf h.symm
    by_cases hmem : f ∈ ids
    · simp [hf, hmem, List.idxOf_append]
    · simp [hf, hf', hmem]

theorem closeTPats_ok {env₀ : CloseAllEnv} (ps : List TPat) : tpatsBound ps = [] → ∀ {ids env},
    env₀.InGroup ids env → (ids ++ tpatsIds ps).Nodup →
    ∃ env', closeAllVisitor.visitTPats ps env = .ok (closeTPats ps, env') ∧ env₀.InGroup (ids ++ tpatsIds ps) env' := by
  induction ps using tpats_induct with
  | nil =>
    intro _ ids env h _
    exact ⟨env, rfl, by simpa using h⟩
  | constant l ty ps ih =>
    intro hps ids env h hnodup
    obtain ⟨env', hrun, h'⟩ := ih hps h hnodup
    exact ⟨env', visitTPats_cons (visitTPat_mk ty rfl) hrun, h'⟩
  | bound v mp ty ps ih =>
    intro hps
    simp [tpatsBound, tpatsVars, TPat.vars, Pat.vars] at hps
  | ignored ty ps ih =>
    intro hps ids env h hnodup
    obtain ⟨env', hrun, h'⟩ := ih hps h hnodup
    exact ⟨env', visitTPats_cons (visitTPat_mk ty rfl) hrun, h'⟩
  | opened v mp ty ps ih =>
    intro hps ids env h hnodup
    have hids : tpatsIds (.mk (.opened v mp) ty :: ps) = v.id :: tpatsIds ps := rfl
    rw [hids] at hnodup ⊢
    have hv : v.id ∉ ids := fun hmem => (nodup_append.mp hnodup).2.2 _ hmem _ mem_cons_self rfl
    rw [append_cons] at hnodup ⊢
    obtain ⟨env₁, hpush, h₁⟩ := closePushVar_ok h hv mp
    obtain ⟨env', hrun, h'⟩ := ih hps h₁ hnodup
    exact ⟨env', visitTPats_cons (visitTPat_mk ty hpush) hrun, h'⟩
  | adt variantId fields ty ps ihf ih =>
    intro hps ids env h hnodup
    have hids : tpatsIds (.mk (.adt variantId fields) ty :: ps) = tpatsIds fields ++ tpatsIds ps := rfl
    have hbound : tpatsBound fields ++ tpatsBound ps = [] := hps
    rw [append_eq_nil_iff] at hbound
    rw [hids, ← append_assoc] at hnodup ⊢
    obtain ⟨env₁, hrun₁, h₁⟩ := ihf hbound.1 h hnodup.of_append_left
    obtain ⟨env', hrun, h'⟩ := ih hbound.2 h₁ hnodup
    exact ⟨env', visitTPats_cons (visitTPat_mk ty (visitPat_adt variantId hrun₁)) hrun, h'⟩

variable {f : FVarId}

theorem closeAllEnvGetVar_shift {env' : CloseAllEnv} {k : Int} (hscope : env'.scope = env.scope + k)
    (hfenv : env'.fenv[f]? = env.fenv[f]?) :
    closeAllEnvGetVar env' f = (closeAllEnvGetVar env f).map fun v => { v with scope := v.scope + k } := by
  simp only [closeAllEnvGetVar, hfenv, hscope]
  cases env.fenv[f]? with
  | none => rfl
  | some v =>
    simp only [Option.map_some, Option.some.injEq, BVar.mk.injEq, and_true]
    omega

variable {free : FVarId → Bool} {ctx : Ctx} {ps : List TPat}

theorem closePushScope_ok {env' : CloseAllEnv}
    (h : env.Idle free ctx) (h' : env.InGroup (tpatsIds ps) env') :
    (closeAllEnvPushScope env').Idle free (ctx.push ps) := by
  refine ⟨by simp [closeAllEnvPushScope, h'.scope, h.scope, Ctx.push], rfl, ?_⟩
  intro f hf
  by_cases hmem : f ∈ tpatsIds ps
  · simp only [closeAllEnvGetVar, closeAllEnvPushScope, h'.fenv, hmem, h'.scope, if_true, Ctx.push, Ctx.position,
      Option.some.injEq, BVar.mk.injEq, and_true]
    omega
  · have hf' : free f = true ∨ f ∈ ctx.flatten := by simpa [Ctx.push, hmem] using hf
    have hshift : closeAllEnvGetVar (closeAllEnvPushScope env') f =
        (closeAllEnvGetVar env f).map fun v => { v with scope := v.scope + 1 } :=
      closeAllEnvGetVar_shift (by simp [closeAllEnvPushScope, h'.scope]) (by simp [closeAllEnvPushScope, h'.fenv, hmem])
    simp [hshift, h.get f hf', Ctx.push, Ctx.position, hmem]

theorem closePopScope_ok (hnodup : ((ctx.push ps).flatten).Nodup) (hfree : ∀ f ∈ tpatsIds ps, free f = false)
    (h : env.Idle free (ctx.push ps)) : ∃ env', closeAllEnvPopScope env = .ok env' ∧ env'.Idle free ctx := by
  have hscope : env.scope = ctx.length + 1 := by simpa [Ctx.push] using h.scope
  have hpos : decide (env.scope > 0) = true := decide_eq_true (by omega)
  refine ⟨{ env with scope := env.scope - 1 }, ?_, by simp [hscope], h.bvarId, ?_⟩
  · simp only [closeAllEnvPopScope, hpos, h.bvarId]
    rfl
  · intro f hf
    have hmem : f ∉ tpatsIds ps := by
      intro hmem
      rcases hf with hf | hf
      · simp [hfree f hmem] at hf
      · exact (nodup_append.mp hnodup).2.2 f hmem f hf rfl
    have hget := h.get f (hf.imp id fun hf => mem_append_right _ hf)
    have hshift : closeAllEnvGetVar { env with scope := env.scope - 1 } f =
        (closeAllEnvGetVar env f).map fun v => { v with scope := v.scope + -1 } :=
      closeAllEnvGetVar_shift (by simp only; omega) rfl
    rw [hshift, hget]
    simp only [Ctx.push, Ctx.position, hmem, if_false, Option.map_map]
    cases ctx.position f with
    | none => rfl
    | some v => simp [Int.add_neg_cancel_right]

theorem closeScope_ok {inner : EnvM CloseAllEnv Texpr}
    {e : Texpr} (h : env.Idle free ctx) (hbound : tpatsBound ps = []) (hnodup : ((ctx.push ps).flatten).Nodup)
    (hfree : ∀ f ∈ tpatsIds ps, free f = false)
    (hinner : ∀ env₁, env₁.Idle free (ctx.push ps) →
      ∃ env₂, inner env₁ = .ok (e, env₂) ∧ env₂.Idle free (ctx.push ps)) :
    ∃ env', closeAllVisitor.visitScope ps inner env = .ok ((closeTPats ps, e), env') ∧ env'.Idle free ctx := by
  have hstart : env.InGroup [] (closeAllEnvStartScope env) := ⟨rfl, rfl, fun f => by simp [closeAllEnvStartScope]⟩
  obtain ⟨env₁, hpats, h₁⟩ := closeTPats_ok ps hbound hstart (nodup_append.mp hnodup).1
  obtain ⟨env₂, hrun, h₂⟩ := hinner _ (closePushScope_ok h h₁)
  obtain ⟨env', hpop, h'⟩ := closePopScope_ok hnodup hfree h₂
  have hpop' : closeAllVisitor.popScope env₂ = .ok ((), env') := by
    simp only [closeAllVisitor, hpop]
    rfl
  exact ⟨env', visitScope_run rfl hpats rfl hrun hpop', h'⟩

/-- The same, if binders which are not in scopes of each other have the same identifier. -/
def Texpr.ClosesUnshadowed (e : Texpr) : Prop := ∀ {free ctx env}, CloseAllEnv.Idle free ctx env →
  e.OpenedIn free ctx → ctx.flatten.Nodup → e.Unshadowed ctx → (∀ f ∈ e.binderIds, free f = false) →
  ∃ env', e.visit closeAllVisitor.visitor env = .ok (e.closeIn ctx, env') ∧ env'.Idle free ctx

theorem closeScoped_ok {c : Scoped Texpr} (hc : c.2.ClosesUnshadowed)
    (h : env.Idle free ctx) (hopened : ScopedOpenedIn free ctx c) (hctx : ctx.flatten.Nodup)
    (hnodup : (tpatsIds c.1.pats).Nodup) (hapart : ∀ f ∈ tpatsIds c.1.pats, f ∉ ctx.flatten)
    (hinner : c.2.Unshadowed (c.1.under Ctx.push ctx)) (hfree : ∀ f ∈ scopedBinderIds c, free f = false) :
    ∃ env', closeAllVisitor.visitScoped c env = .ok (closeScoped ctx c, env') ∧ env'.Idle free ctx := by
  obtain ⟨g, e⟩ := c
  have hfree' : ∀ f ∈ e.binderIds, free f = false := fun f hf => hfree f (mem_append_right _ hf)
  by_cases hg : g = .none
  · subst hg
    obtain ⟨env', hrun, h'⟩ := hc h hopened.2 hctx hinner hfree'
    exact ⟨env', run_bind hrun _, h'⟩
  · have hunder : g.under Ctx.push ctx = ctx.push g.pats := Group.under_eq hg ctx
    have hopened' : e.OpenedIn free (ctx.push g.pats) := hunder ▸ hopened.2
    have hctx' : (ctx.push g.pats).flatten.Nodup :=
      nodup_append.mpr ⟨hnodup, hctx, fun f hf f' hf' heq => hapart f hf (heq ▸ hf')⟩
    obtain ⟨env', hrun, h'⟩ := closeScope_ok h hopened.1 hctx' (fun f hf => hfree f (mem_append_left _ hf))
      fun env₁ h₁ => hc h₁ hopened' hctx' (hunder ▸ hinner) hfree'
    refine ⟨env', ?_, h'⟩
    rw [closeTPats, ← Group.pats_mapVars] at hrun
    rw [closeScoped, hunder]
    exact visitScoped_run (g.like_mapVars _ _) hg hrun

theorem Texpr.closesUnshadowed (e : Texpr) : e.ClosesUnshadowed := by
  induction e using Texpr.induct with
  | h e ty ih =>
    intro free ctx env h hopened hctx hunshadowed hfree
    rcases e.var_or_node with ⟨f, rfl⟩ | ⟨v, rfl⟩ | he
    · have hget := h.get f (openedIn_fvar.mp hopened)
      refine ⟨env, ?_, h⟩
      have hrun : closeAllVisitor.getFVar f env = .ok (ctx.position f, env) := by
        rw [← hget]
        rfl
      have hvar : (Expr.fvar f).visit closeAllVisitor.visitor env = .ok (closeVar ctx f, env) := by
        simp only [Expr.visit, OpenCloseAllVisitor.visitor, closeVar]
        rw [run_bind hrun]
        cases ctx.position f <;> rfl
      rw [closeIn_fvar]
      exact run_bind hvar _
    · exact absurd hopened not_openedIn_bvar
    · rw [binderIds_node he] at hfree
      have hstep : ∀ pre c post, [] ++ e.children = pre ++ c :: post → ∀ env, env.Idle free ctx →
          ∃ env', closeAllVisitor.visitScoped c env = .ok (closeScoped ctx c, env') ∧ env'.Idle free ctx := by
        intro pre c post heq env h
        have hc : c ∈ e.children := by simp [show e.children = _ from heq]
        obtain ⟨hnodup, hapart, hinner⟩ := hunshadowed.child hc
        exact closeScoped_ok (ih c hc) h ((openedIn_node he ty).mp hopened c hc) hctx hnodup hapart hinner
          fun f hf => hfree f (mem_flatMap.mpr ⟨c, hc, hf⟩)
      obtain ⟨env', hrun, h'⟩ := run_mapM (I := fun _ => CloseAllEnv.Idle free ctx) hstep h
      exact ⟨env', (closeIn_node ctx he ty).symm ▸ visit_run_node he ty hrun, h'⟩

/-! ## Opening -/

def Numbers (r : FVarId → FVarId) (n : FVarId) (ids : List FVarId) : Prop := ids.map r = List.range' n ids.length

variable {r : FVarId → FVarId} {n : FVarId}

theorem Numbers.append {xs ys : List FVarId} (h : Numbers r n (xs ++ ys)) :
    Numbers r n xs ∧ Numbers r (n + xs.length) ys := by
  unfold Numbers at h
  rw [map_append, length_append, ← List.range'_append_1] at h
  exact append_inj h (by simp)

def groupMap (ids : List FVarId) : IdMap BVarId FVarId := .ofList (ids.mapIdx fun i f => (i, f))

theorem getElem?_groupMap (ids : List FVarId) (i : BVarId) : (groupMap ids)[i]? = ids[i]? := by
  rw [groupMap, getElem?_ofList_mapIdx ids fun _ f => f]
  simp

theorem groupMap_append (ids : List FVarId) (f : FVarId) :
    (groupMap ids).insert ids.length f = groupMap (ids ++ [f]) := by
  refine Std.ExtTreeMap.ext_getElem? fun (i : Nat) => ?_
  rw [getElem?_insert_eq, getElem?_groupMap, getElem?_groupMap, getElem?_append]
  by_cases h : ids.length = i
  · subst h; simp
  · by_cases hlt : i < ids.length
    · simp [h, hlt]
    · obtain ⟨k, rfl⟩ : ∃ k, i = ids.length + (k + 1) := ⟨i - ids.length - 1, by omega⟩
      simp

def OpenState.Fresh (s : OpenState) : Prop := ∀ f, s.fresh ≤ f → s.env.fvars.contains f = false

structure OpenState.Idle (ctx : Ctx) (n : FVarId) (s : OpenState) : Prop where
  benv : s.env.benv = ctx.map groupMap
  penv : s.env.penv = none
  fresh : s.fresh = n
  ahead : s.Fresh

structure OpenState.InGroup (ctx : Ctx) (ids : List FVarId) (n : FVarId) (s : OpenState) : Prop where
  benv : s.env.benv = ctx.map groupMap
  penv : s.env.penv = some (groupMap ids)
  pvarid : s.env.pvarid = ids.length
  fresh : s.fresh = n
  ahead : s.Fresh

variable {s : OpenState}

theorem openPushVar_ok (h : s.InGroup ctx ids n)
    (v : Var) : ∃ s', openAllEnvPushVar s v = .ok (n, s') ∧ s'.InGroup ctx (ids ++ [n]) (n + 1) := by
  obtain ⟨⟨benv, penv, pvarid, fvars⟩, fresh⟩ := s
  obtain ⟨hbenv, hpenv, hpvarid, rfl, ahead⟩ := h
  simp only at hbenv hpenv hpvarid
  subst hpenv hpvarid
  have hfresh : fvars.contains fresh = false := ahead fresh (Nat.le_refl _)
  refine ⟨⟨⟨benv, some ((groupMap ids).insert ids.length fresh), ids.length + 1,
    fvars.insert fresh { id := fresh, basename := v.basename, ty := v.ty }⟩, fresh + 1⟩, ?_, hbenv, ?_, ?_, rfl, ?_⟩
  · simp [openAllEnvPushVar, optionGet, assert, hfresh, bind, Except.bind]
  · simp [groupMap_append]
  · simp
  · intro (f : Nat) hf
    have hlt : (fresh : Nat) < f := hf
    have hne : fresh ≠ f := Nat.ne_of_lt hlt
    have hf' : fvars.contains f = false := ahead f (Nat.le_of_lt hlt)
    simp [Std.ExtTreeMap.contains_insert, hne, hf']

theorem openTPats_ok (ps : List TPat) : tpatsBound ps = [] → ∀ {ids n s},
    OpenState.InGroup ctx ids n s → Numbers r n (tpatsIds ps) →
    ∃ s', openAllVisitor.visitTPats (closeTPats ps) s = .ok (renameTPats r ps, s') ∧
      s'.InGroup ctx (ids ++ (tpatsIds ps).map r) (n + (tpatsIds ps).length) := by
  induction ps using tpats_induct with
  | nil =>
    intro _ ids n s h _
    exact ⟨s, rfl, by simpa using h⟩
  | constant l ty ps ih =>
    intro hps ids n s h hr
    obtain ⟨s', hrun, h'⟩ := ih hps h hr
    exact ⟨s', visitTPats_cons (visitTPat_mk ty rfl) hrun, h'⟩
  | bound v mp ty ps ih =>
    intro hps
    simp [tpatsBound, tpatsVars, TPat.vars, Pat.vars] at hps
  | ignored ty ps ih =>
    intro hps ids n s h hr
    obtain ⟨s', hrun, h'⟩ := ih hps h hr
    exact ⟨s', visitTPats_cons (visitTPat_mk ty rfl) hrun, h'⟩
  | opened v mp ty ps ih =>
    intro hps ids n s h hr
    have hids : tpatsIds (.mk (.opened v mp) ty :: ps) = [v.id] ++ tpatsIds ps := rfl
    rw [hids] at hr ⊢
    obtain ⟨hv, hr'⟩ := hr.append
    have hv' : r v.id = n := by simpa [Numbers] using hv
    obtain ⟨s₁, hpush, h₁⟩ := openPushVar_ok h { basename := v.basename, ty := v.ty }
    obtain ⟨s', hrun, h'⟩ := ih hps h₁ hr'
    have hp : openAllVisitor.visitPat (closeBinder v mp) s = .ok (renameBinder r v mp, s₁) := by
      rw [renameBinder, hv']
      exact run_bind hpush _
    refine ⟨s', visitTPats_cons (visitTPat_mk ty hp) hrun, ?_⟩
    simpa [hv', Nat.add_assoc, Nat.add_comm] using h'
  | adt variantId fields ty ps ihf ih =>
    intro hps ids n s h hr
    have hids : tpatsIds (.mk (.adt variantId fields) ty :: ps) = tpatsIds fields ++ tpatsIds ps := rfl
    have hbound : tpatsBound fields ++ tpatsBound ps = [] := hps
    rw [append_eq_nil_iff] at hbound
    rw [hids] at hr ⊢
    obtain ⟨hrf, hr'⟩ := hr.append
    obtain ⟨s₁, hrun₁, h₁⟩ := ihf hbound.1 h hrf
    obtain ⟨s', hrun, h'⟩ := ih hbound.2 h₁ hr'
    refine ⟨s', visitTPats_cons (visitTPat_mk ty (visitPat_adt variantId hrun₁)) hrun, ?_⟩
    simpa [Nat.add_assoc] using h'

theorem openScope_ok {m : FVarId}
    {inner : EnvM OpenState Texpr} {e : Texpr} (h : s.Idle ctx n) (hbound : tpatsBound ps = [])
    (hr : Numbers r n (tpatsIds ps))
    (hinner : ∀ s₁, OpenState.Idle ((tpatsIds ps).map r :: ctx) (n + (tpatsIds ps).length) s₁ →
      ∃ s₂, inner s₁ = .ok (e, s₂) ∧ s₂.Idle ((tpatsIds ps).map r :: ctx) m) :
    ∃ s', openAllVisitor.visitScope (closeTPats ps) inner s = .ok ((renameTPats r ps, e), s') ∧ s'.Idle ctx m := by
  obtain ⟨⟨benv, penv, pvarid, fvars⟩, fresh⟩ := s
  obtain ⟨hbenv, hpenv, hfresh, ahead⟩ := h
  simp only at hbenv hpenv hfresh
  subst hpenv
  have hstart : OpenState.InGroup ctx [] n ⟨⟨benv, some ∅, 0, fvars⟩, fresh⟩ := ⟨hbenv, rfl, rfl, hfresh, ahead⟩
  obtain ⟨⟨⟨benv₁, penv₁, pvarid₁, fvars₁⟩, fresh₁⟩, hpats, h₁⟩ := openTPats_ok ps hbound hstart hr
  obtain ⟨hbenv₁, hpenv₁, _, hfresh₁, ahead₁⟩ := h₁
  simp only at hbenv₁ hpenv₁ hfresh₁
  subst hpenv₁
  obtain ⟨⟨⟨benv₂, penv₂, pvarid₂, fvars₂⟩, fresh₂⟩, hrun, h₂⟩ :=
    hinner ⟨⟨groupMap ([] ++ (tpatsIds ps).map r) :: benv₁, none, 0, fvars₁⟩, fresh₁⟩
      ⟨by simp [hbenv₁], rfl, hfresh₁, ahead₁⟩
  obtain ⟨hbenv₂, hpenv₂, hfresh₂, ahead₂⟩ := h₂
  simp only at hbenv₂ hpenv₂ hfresh₂
  subst hpenv₂ hbenv₂
  exact ⟨⟨⟨ctx.map groupMap, none, pvarid₂, fvars₂⟩, fresh₂⟩, visitScope_run rfl hpats rfl hrun rfl,
    rfl, rfl, hfresh₂, ahead₂⟩

def Texpr.Opens (r : FVarId → FVarId) (e : Texpr) : Prop := ∀ {free ctx n s},
  OpenState.Idle (ctx.map (List.map r)) n s → e.OpenedIn free ctx → Numbers r n e.binderIds →
  (∀ f, free f = true → r f = f) →
  ∃ s', (e.closeIn ctx).visit openAllVisitor.visitor s = .ok (e.rename r, s') ∧
    s'.Idle (ctx.map (List.map r)) (n + e.binderIds.length)

theorem openScoped_ok {c : Scoped Texpr} (hc : c.2.Opens r)
    (h : s.Idle (ctx.map (List.map r)) n) (hopened : ScopedOpenedIn free ctx c)
    (hr : Numbers r n (scopedBinderIds c)) (hfree : ∀ f, free f = true → r f = f) :
    ∃ s', openAllVisitor.visitScoped (closeScoped ctx c) s = .ok (renameScoped r c, s') ∧
      s'.Idle (ctx.map (List.map r)) (n + (scopedBinderIds c).length) := by
  obtain ⟨g, e⟩ := c
  by_cases hg : g = .none
  · subst hg
    obtain ⟨s', hrun, h'⟩ := hc h hopened.2 hr hfree
    exact ⟨s', run_bind hrun _, h'⟩
  · have hunder : g.under Ctx.push ctx = ctx.push g.pats := Group.under_eq hg ctx
    have hopened' : e.OpenedIn free (ctx.push g.pats) := hunder ▸ hopened.2
    obtain ⟨hrg, hre⟩ := hr.append
    have hinner : ∀ s₁, OpenState.Idle ((ctx.push g.pats).map (List.map r)) (n + (tpatsIds g.pats).length) s₁ → _ :=
      fun s₁ h₁ => hc h₁ hopened' hre hfree
    obtain ⟨s', hrun, h'⟩ := openScope_ok h hopened.1 hrg hinner
    refine ⟨s', ?_, by simpa [scopedBinderIds, Nat.add_assoc] using h'⟩
    rw [closeTPats, renameTPats, ← Group.pats_mapVars, ← Group.pats_mapVars] at hrun
    rw [closeScoped, hunder]
    exact visitScoped_run (g.like_mapVars₂ _ _ _ _) (g.mapVars_ne_none hg) hrun

theorem openAllEnvGetVar_ok (h : s.Idle (ctx.map (List.map r)) n) {k : Nat} {i : BVarId}
    (hctx : ctx[k]? = some ids) (hids : ids[i]? = some f) :
    openAllEnvGetVar s.env { scope := k, id := i } = .ok (some (r f)) := by
  have hnth : nthOpt s.env.benv k = .ok (some (groupMap (ids.map r))) := by
    have hk : ¬ (k : Int) < 0 := by omega
    simp [nthOpt, hk, h.benv, hctx]
  have hget : (groupMap (ids.map r))[i]? = some (r f) := by simp [getElem?_groupMap, hids]
  simp only [openAllEnvGetVar, h.penv, hnth]
  exact congrArg Except.ok hget

theorem Texpr.opens (r : FVarId → FVarId) (e : Texpr) : e.Opens r := by
  induction e using Texpr.induct with
  | h e ty ih =>
    intro free ctx n s h hopened hr hfree
    rcases e.var_or_node with ⟨f, rfl⟩ | ⟨v, rfl⟩ | he
    · refine ⟨s, ?_, h⟩
      rw [closeIn_fvar, rename_fvar, closeVar]
      by_cases hf : f ∈ ctx.flatten
      · obtain ⟨k, i, ids, hpos, hctx, hids⟩ := Ctx.exists_position hf
        have hrun : openAllVisitor.getBVar { scope := k, id := i } s = .ok (some (r f), s) := by
          simp only [openAllVisitor, openAllEnvGetVar_ok h hctx hids]
          rfl
        have hvar : (Expr.bvar { scope := k, id := i }).visit openAllVisitor.visitor s = .ok (.fvar (r f), s) := by
          simp only [Expr.visit, OpenCloseAllVisitor.visitor]
          rw [run_bind hrun]
          rfl
        rw [hpos]
        exact run_bind hvar _
      · have hff : free f = true := (openedIn_fvar.mp hopened).resolve_right hf
        rw [Ctx.position_eq_none hf, hfree f hff]
        rfl
    · exact absurd hopened not_openedIn_bvar
    · have hnode : (e.rebuild (e.children.map (closeScoped ctx))).IsNode := he.rebuild _
      obtain ⟨hchildren, hrebuild⟩ := Expr.children_rebuild (fits_close ctx e.children) (fits_rename r e.children)
      rw [binderIds_node he] at hr ⊢
      have hstep : ∀ pre c post, [] ++ e.children = pre ++ c :: post → ∀ s,
          OpenState.Idle (ctx.map (List.map r)) (n + (pre.flatMap scopedBinderIds).length) s →
          ∃ s', openAllVisitor.visitScoped (closeScoped ctx c) s = .ok (renameScoped r c, s') ∧
            s'.Idle (ctx.map (List.map r)) (n + ((pre ++ [c]).flatMap scopedBinderIds).length) := by
        intro pre c post heq s h
        have hc : c ∈ e.children := by simp [show e.children = _ from heq]
        rw [show e.children = pre ++ c :: post from heq, flatMap_append, flatMap_cons] at hr
        obtain ⟨s', hrun, h'⟩ := openScoped_ok (ih c hc) h ((openedIn_node he ty).mp hopened c hc)
          hr.append.2.append.1 hfree
        exact ⟨s', hrun, by simpa [Nat.add_assoc] using h'⟩
      obtain ⟨s', hrun, h'⟩ := run_mapM
        (I := fun pre => OpenState.Idle (ctx.map (List.map r)) (n + (pre.flatMap scopedBinderIds).length)) hstep h
      refine ⟨s', ?_, h'⟩
      rw [closeIn_node ctx he, rename_node r he.1, ← hrebuild]
      exact visit_run_node hnode ty (by rw [hchildren, mapM_map]; exact hrun)

/-! ## Function bodies -/

/-- There is no opened binder, every bound variable designates a binder around it, and the free
variables satisfy `free`. -/
def FunBody.IsClosed (free : FVarId → Bool) (fbody : FunBody) : Prop :=
  tpatsIds fbody.inputs = [] ∧ fbody.body.isClosedIn free [(tpatsBound fbody.inputs).length] = true

def FunBody.IsOpened (fbody : FunBody) : Prop := tpatsBound fbody.inputs = [] ∧ fbody.body.isOpened = true

/-- The variables are used in the scope of their binders, or satisfy `free`. -/
def FunBody.IsScoped (free : FVarId → Bool) (fbody : FunBody) : Prop :=
  fbody.body.isScopedIn free [tpatsIds fbody.inputs] = true

def FunBody.binderIds (fbody : FunBody) : List FVarId := tpatsIds fbody.inputs ++ fbody.body.binderIds

def FunBody.rename (r : FVarId → FVarId) (fbody : FunBody) : FunBody :=
  { inputs := renameTPats r fbody.inputs, body := fbody.body.rename r }

def FunBody.close (fbody : FunBody) : FunBody :=
  { inputs := closeTPats fbody.inputs, body := fbody.body.closeIn [tpatsIds fbody.inputs] }

variable {fbody : FunBody}

theorem closeAllFunBody_unshadowed (hopened : fbody.IsOpened)
    (hscoped : fbody.IsScoped free) (hnodup : (tpatsIds fbody.inputs).Nodup)
    (hunshadowed : fbody.body.Unshadowed [tpatsIds fbody.inputs]) (hfree : ∀ f ∈ fbody.binderIds, free f = false) :
    closeAllFunBody fbody = .ok fbody.close := by
  have hidle : CloseAllEnv.Idle free [] emptyCloseAllEnv := ⟨rfl, rfl, fun f _ => by
    simp [closeAllEnvGetVar, emptyCloseAllEnv, Ctx.position]⟩
  have hctx : (Ctx.push fbody.inputs []).flatten.Nodup := by simpa [Ctx.push] using hnodup
  obtain ⟨env', hrun, _⟩ := closeScope_ok hidle hopened.1 hctx (fun f hf => hfree f (mem_append_left _ hf))
    fun env₁ h₁ => fbody.body.closesUnshadowed h₁ ⟨hopened.2, hscoped⟩ hctx hunshadowed
      fun f hf => hfree f (mem_append_right _ hf)
  have hbody : closeAllVisitor.visitFunBody fbody emptyCloseAllEnv = .ok (fbody.close, env') := run_bind hrun _
  simp only [closeAllFunBody, hbody]
  rfl

theorem closeAllFunBody_eq (hopened : fbody.IsOpened)
    (hscoped : fbody.IsScoped free) (hnodup : fbody.binderIds.Nodup)
    (hfree : ∀ f ∈ fbody.binderIds, free f = false) : closeAllFunBody fbody = .ok fbody.close :=
  closeAllFunBody_unshadowed hopened hscoped (nodup_append.mp hnodup).1
    (fbody.body.unshadowed_of_nodup (by simpa [FunBody.binderIds] using hnodup)) hfree

theorem openAllFunBody_eq {fresh : FVarId}
    (hopened : fbody.IsOpened) (hscoped : fbody.IsScoped free) (hr : Numbers r fresh fbody.binderIds)
    (hfree : ∀ f, free f = true → r f = f) :
    ∃ fvars, openAllFunBody fresh fbody.close =
      .ok ((fvars, fbody.rename r), fresh + fbody.binderIds.length) := by
  have hidle : OpenState.Idle (List.map (List.map r) []) fresh { env := emptyOpenAllEnv, fresh } :=
    ⟨rfl, rfl, rfl, fun f _ => by simp [emptyOpenAllEnv]⟩
  obtain ⟨hri, hrb⟩ := hr.append
  have hinner : ∀ s₁, OpenState.Idle (List.map (List.map r) [tpatsIds fbody.inputs])
      (fresh + (tpatsIds fbody.inputs).length) s₁ → _ :=
    fun s₁ h₁ => fbody.body.opens r h₁ ⟨hopened.2, hscoped⟩ hrb hfree
  obtain ⟨s', hrun, h'⟩ := openScope_ok hidle hopened.1 hri hinner
  have hbody : openAllVisitor.visitFunBody fbody.close { env := emptyOpenAllEnv, fresh } =
      .ok (fbody.rename r, s') := run_bind hrun _
  have hfresh : s'.fresh = fresh + fbody.binderIds.length := by
    rw [h'.fresh, FunBody.binderIds, length_append, Nat.add_assoc]
  refine ⟨s'.env.fvars, ?_⟩
  simp only [openAllFunBody, hbody]
  rw [← hfresh]
  rfl

theorem FunBody.exists_opened (fresh : FVarId)
    (hclosed : fbody.IsClosed free) (hfree : ∀ f, free f = true → f < fresh) :
    ∃ (b : FunBody) (k : Nat), b.close = fbody ∧ b.IsOpened ∧ b.IsScoped free ∧ b.binderIds = List.range' fresh k := by
  have hahead : Ctx.Ahead free [] fresh := ⟨by simp, by simp, by simp, hfree⟩
  have hscoped : ScopedClosedIn free (List.map List.length ([] : Ctx)) (.many fbody.inputs, fbody.body) := hclosed
  obtain ⟨⟨g, e⟩, k, hclose, hopened, hids⟩ := exists_openScoped fbody.body.hasOpened hahead hscoped
  obtain ⟨inputs, body⟩ := fbody
  cases g with
  | many ps =>
    simp only [closeScoped, Group.mapVars, Prod.mk.injEq, Group.many.injEq] at hclose
    refine ⟨{ inputs := ps, body := e }, k, ?_, ⟨hopened.1, hopened.2.1⟩, hopened.2.2, hids⟩
    exact congrArg₂ FunBody.mk hclose.1 hclose.2
  | _ => cases (Prod.mk.inj hclose).1

/-- The renaming which opening computes: the binders get consecutive identifiers. -/
def renumber (ids : List FVarId) (n f : FVarId) : FVarId := if f ∈ ids then n + ids.idxOf f else f

theorem renumber_numbers (hnodup : ids.Nodup) (n : FVarId) : Numbers (renumber ids n) n ids := by
  refine ext_getElem (by simp) fun i hi _ => ?_
  have hi' : i < ids.length := by simpa using hi
  simp [renumber, hnodup.idxOf_getElem i hi']

theorem renumber_inj {g : FVarId} (hf : f ∈ ids ∨ f < n) (hg : g ∈ ids ∨ g < n)
    (h : renumber ids n f = renumber ids n g) : f = g := by
  unfold renumber at h
  split at h <;> split at h
  · rename_i hf' hg'
    exact (List.idxOf_inj hf').mp (Nat.add_left_cancel h)
  · rename_i hf' hg'
    have hlt := hg.resolve_left hg'
    exact absurd (h ▸ hlt) (Nat.not_lt.mpr (Nat.le_add_right _ _))
  · rename_i hf' hg'
    have hlt := hf.resolve_left hf'
    exact absurd (h ▸ hlt) (Nat.not_lt.mpr (Nat.le_add_right _ _))
  · exact h

theorem openAll_closeAll_inverse (fresh : FVarId) :
    (∀ fbody : FunBody, fbody.IsClosed (fun f => decide (f < fresh)) → ∃ fvars fbody' fresh',
      openAllFunBody fresh fbody = .ok ((fvars, fbody'), fresh') ∧ fbody'.IsOpened ∧ fbody'.binderIds.Nodup ∧
      closeAllFunBody fbody' = .ok fbody) ∧
    (∀ fbody : FunBody, fbody.IsOpened → fbody.binderIds.Nodup →
      fbody.IsScoped (fun f => decide (f < fresh) && !fbody.binderIds.contains f) → ∃ closed fvars fresh' r,
      closeAllFunBody fbody = .ok closed ∧
      openAllFunBody fresh closed = .ok ((fvars, fbody.rename r), fresh') ∧
      (∀ f, f ∉ fbody.binderIds → r f = f) ∧
      ∀ f g, f ∈ fbody.binderIds ∨ f < fresh → g ∈ fbody.binderIds ∨ g < fresh → r f = r g → f = g) := by
  constructor
  · intro fbody hclosed
    obtain ⟨b, k, hclose, hopened, hscoped, hids⟩ :=
      FunBody.exists_opened fresh hclosed fun f hf => by simpa using hf
    have hnodup : b.binderIds.Nodup := hids ▸ nodup_range'
    have hr : Numbers id fresh b.binderIds := by simp [Numbers, hids]
    obtain ⟨fvars, hopen⟩ := openAllFunBody_eq hopened hscoped hr fun f _ => rfl
    have hrename : b.rename id = b := by simp [FunBody.rename, renameTPats_id, Texpr.rename_id]
    rw [hclose, hrename] at hopen
    refine ⟨fvars, b, _, hopen, hopened, hnodup, ?_⟩
    rw [closeAllFunBody_eq hopened hscoped hnodup, hclose]
    intro f hf
    rw [hids] at hf
    simpa using (mem_range'_1.mp hf).1
  · intro fbody hopened hnodup hscoped
    have hclose := closeAllFunBody_eq hopened hscoped hnodup fun f hf => by simp [hf]
    obtain ⟨fvars, hopen⟩ := openAllFunBody_eq hopened hscoped (renumber_numbers hnodup fresh) fun f hf => by
      simp at hf
      simp [renumber, hf.2]
    exact ⟨fbody.close, fvars, _, renumber fbody.binderIds fresh, hclose, hopen, fun f hf => by simp [renumber, hf],
      fun f g hf hg h => renumber_inj hf hg h⟩

/-- `fun x => let (y, z) = x in x z`, closed. -/
def closedPair : FunBody where
  inputs := [.mk (.bound { basename := some "x", ty := .error } none) .error]
  body := .mk (.letE false
    (.mk (.adt none [.mk (.bound { basename := some "y", ty := .error } none) .error,
      .mk (.bound { basename := some "z", ty := .error } none) .error]) .error)
    (.mk (.bvar { scope := 0, id := 0 }) .error)
    (.mk (.app (.mk (.bvar { scope := 1, id := 0 }) .error) (.mk (.bvar { scope := 0, id := 1 }) .error)) .error))
      .error

/-- The same function, opened with the variables 5, 3 and 8. -/
def openedPair : FunBody where
  inputs := [.mk (.opened { id := 5, basename := some "x", ty := .error } none) .error]
  body := .mk (.letE false
    (.mk (.adt none [.mk (.opened { id := 3, basename := some "y", ty := .error } none) .error,
      .mk (.opened { id := 8, basename := some "z", ty := .error } none) .error]) .error)
    (.mk (.fvar 5) .error) (.mk (.app (.mk (.fvar 5) .error) (.mk (.fvar 8) .error)) .error)) .error

theorem openAll_closeAll_pair :
    (∃ fvars fbody' fresh', openAllFunBody 0 closedPair = .ok ((fvars, fbody'), fresh') ∧
      closeAllFunBody fbody' = .ok closedPair) ∧
    ∃ closed fvars fresh' r, closeAllFunBody openedPair = .ok closed ∧
      openAllFunBody 0 closed = .ok ((fvars, openedPair.rename r), fresh') := by
  obtain ⟨hclosed, hopened⟩ := openAll_closeAll_inverse 0
  obtain ⟨fvars, fbody', fresh', hopen, -, -, hclose⟩ := hclosed closedPair ⟨rfl, rfl⟩
  obtain ⟨closed, fvars', fresh'', r, hclose', hopen', -, -⟩ := hopened openedPair ⟨rfl, rfl⟩ (by decide) rfl
  exact ⟨⟨fvars, fbody', fresh', hopen, hclose⟩, closed, fvars', fresh'', r, hclose', hopen'⟩

/-- `(let x = true in x) x`, whose last variable is out of the scope of its binder. -/
def escapingVar : FunBody where
  inputs := []
  body := .mk (.app
    (.mk (.letE false (.mk (.opened { id := 0, basename := some "x", ty := .error } none) .error)
      (.mk (.const (.bool true)) .error) (.mk (.fvar 0) .error)) .error)
    (.mk (.fvar 0) .error)) .error

/-- Closing `escapingVar` gives it a negative scope, and opening it again fails. -/
theorem escapingVar_not_reopened : escapingVar.IsOpened ∧ escapingVar.binderIds.Nodup ∧
    ∃ closed, closeAllFunBody escapingVar = .ok closed ∧
      ∀ fresh, openAllFunBody fresh closed = .error (.invalidArgument "List.nth") := by
  refine ⟨⟨rfl, rfl⟩, by decide, _, rfl, fun fresh => rfl⟩

end Aeneas.Pure
