import Aeneas.PureEvalRel
import Aeneas.OpenCloseSound

/-!
# Evaluation and scopes

Replacing the variables of an expression, and the environments accordingly, does
not change what it evaluates to. In particular an expression only depends on the
variables in its scope, and it has the value of its closed form.
-/

namespace Aeneas.Pure

open Texpr List

attribute [local simp] Expr.children SwitchBody.children Group.pats Pat.matches TPat.matches

/-! ## Replacing the variables of a node -/

section
variable {γ : Type} {onFVar : γ → FVarId → Expr} {onBound : Var → Option MPlace → Pat}
  {onOpened : FVar → Option MPlace → Pat} {push : List TPat → γ → γ} {x : γ} {ty : Ty}

theorem Texpr.mapIn_app (f a : Texpr) : (mk (.app f a) ty).mapIn onFVar onBound onOpened push x =
    .mk (.app (f.mapIn onFVar onBound onOpened push x) (a.mapIn onFVar onBound onOpened push x)) ty :=
  mapIn_node (Expr.isNode_app f a).1 ty

theorem Texpr.mapIn_letE (monadic : Bool) (pat : TPat) (bound next : Texpr) :
    (mk (.letE monadic pat bound next) ty).mapIn onFVar onBound onOpened push x =
      .mk (.letE monadic (pat.mapVars onBound onOpened) (bound.mapIn onFVar onBound onOpened push x)
        (next.mapIn onFVar onBound onOpened push (push [pat] x))) ty :=
  mapIn_node (Expr.isNode_letE monadic pat bound next).1 ty

theorem Texpr.mapIn_ite (scrut thn els : Texpr) :
    (mk (.switch scrut (.ite thn els)) ty).mapIn onFVar onBound onOpened push x =
      .mk (.switch (scrut.mapIn onFVar onBound onOpened push x)
        (.ite (thn.mapIn onFVar onBound onOpened push x) (els.mapIn onFVar onBound onOpened push x))) ty :=
  mapIn_node (Expr.isNode_switch scrut _).1 ty

theorem Texpr.mapIn_matchE (scrut : Texpr) (branches : List (MatchBranch Texpr)) :
    (mk (.switch scrut (.matchE branches)) ty).mapIn onFVar onBound onOpened push x =
      .mk (.switch (scrut.mapIn onFVar onBound onOpened push x) (.matchE (branches.map fun b =>
        { pat := b.pat.mapVars onBound onOpened,
          branch := b.branch.mapIn onFVar onBound onOpened push (push [b.pat] x) }))) ty := by
  have hbranches : zipWith MatchBranch.rebuild branches (branches.map fun b =>
      ((Group.one (b.pat.mapVars onBound onOpened) : Group),
        b.branch.mapIn onFVar onBound onOpened push (push [b.pat] x))) = branches.map fun b =>
      { pat := b.pat.mapVars onBound onOpened,
        branch := b.branch.mapIn onFVar onBound onOpened push (push [b.pat] x) } := by
    induction branches with
    | nil => rfl
    | cons b branches ih => simp [MatchBranch.rebuild, ih]
  rw [mapIn_node (Expr.isNode_switch scrut (.matchE branches)).1, ← hbranches]
  simp [Expr.rebuild, SwitchBody.rebuild, Function.comp_def, Group.mapVars, Group.under]

end

/-! ## Opened expressions with distinct binders -/

section
variable {free : FVarId → Bool} {ctx : Ctx} {ty : Ty}

theorem Texpr.openedIn_app (f x : Texpr) :
    (mk (.app f x) ty).OpenedIn free ctx ↔ f.OpenedIn free ctx ∧ x.OpenedIn free ctx := by
  rw [openedIn_node (Expr.isNode_app f x)]
  simp [ScopedOpenedIn, Group.under, tpatsBound, tpatsVars]

theorem Texpr.openedIn_letE (monadic : Bool) (pat : TPat) (bound next : Texpr) :
    (mk (.letE monadic pat bound next) ty).OpenedIn free ctx ↔
      bound.OpenedIn free ctx ∧ tpatsBound [pat] = [] ∧ next.OpenedIn free (Ctx.push [pat] ctx) := by
  rw [openedIn_node (Expr.isNode_letE monadic pat bound next)]
  simp [ScopedOpenedIn, Group.under, tpatsBound, tpatsVars]

theorem Texpr.openedIn_ite (scrut thn els : Texpr) :
    (mk (.switch scrut (.ite thn els)) ty).OpenedIn free ctx ↔
      scrut.OpenedIn free ctx ∧ thn.OpenedIn free ctx ∧ els.OpenedIn free ctx := by
  rw [openedIn_node (Expr.isNode_switch scrut (.ite thn els))]
  simp [ScopedOpenedIn, Group.under, tpatsBound, tpatsVars]

theorem Texpr.openedIn_matchE (scrut : Texpr) (branches : List (MatchBranch Texpr)) :
    (mk (.switch scrut (.matchE branches)) ty).OpenedIn free ctx ↔ scrut.OpenedIn free ctx ∧
      ∀ b ∈ branches, tpatsBound [b.pat] = [] ∧ b.branch.OpenedIn free (Ctx.push [b.pat] ctx) := by
  rw [openedIn_node (Expr.isNode_switch scrut (.matchE branches))]
  simp [ScopedOpenedIn, Group.under, tpatsBound, tpatsVars]

theorem Texpr.binderIds_app (f x : Texpr) : (mk (.app f x) ty).binderIds = f.binderIds ++ x.binderIds := by
  rw [binderIds_node (Expr.isNode_app f x)]
  simp [scopedBinderIds]

theorem Texpr.binderIds_letE (monadic : Bool) (pat : TPat) (bound next : Texpr) :
    (mk (.letE monadic pat bound next) ty).binderIds =
      bound.binderIds ++ (tpatsIds [pat] ++ next.binderIds) := by
  rw [binderIds_node (Expr.isNode_letE monadic pat bound next)]
  simp [scopedBinderIds]

theorem Texpr.binderIds_ite (scrut thn els : Texpr) :
    (mk (.switch scrut (.ite thn els)) ty).binderIds = scrut.binderIds ++ (thn.binderIds ++ els.binderIds) := by
  rw [binderIds_node (Expr.isNode_switch scrut (.ite thn els))]
  simp [scopedBinderIds]

theorem Texpr.binderIds_matchE (scrut : Texpr) (branches : List (MatchBranch Texpr)) :
    (mk (.switch scrut (.matchE branches)) ty).binderIds =
      scrut.binderIds ++ branches.flatMap fun b => tpatsIds [b.pat] ++ b.branch.binderIds := by
  rw [binderIds_node (Expr.isNode_switch scrut (.matchE branches))]
  simp [scopedBinderIds, flatMap_map]

end

variable {free : FVarId → Bool}

theorem Texpr.openedIn_mono {free' : FVarId → Bool} (e : Texpr) : ∀ {ctx ctx' : Ctx},
    (∀ f, free f = true ∨ f ∈ ctx.flatten → free' f = true ∨ f ∈ ctx'.flatten) →
      e.OpenedIn free ctx → e.OpenedIn free' ctx' := by
  induction e using induct with
  | h e ty ih =>
    intro ctx ctx' hsub h
    rcases e.var_or_node with ⟨f, rfl⟩ | ⟨v, rfl⟩ | he
    · exact openedIn_fvar.mpr (hsub f (openedIn_fvar.mp h))
    · exact absurd h not_openedIn_bvar
    · rw [openedIn_node he] at h ⊢
      intro c hc
      refine ⟨(h c hc).1, ih c hc (fun f => ?_) (h c hc).2⟩
      cases hg : c.1 with
      | none => exact hsub f
      | _ =>
        simp only [Group.under, Ctx.push, flatten_cons, mem_append]
        intro hf
        have := hsub f
        tauto

structure Texpr.WellScoped (free : FVarId → Bool) (ctx : Ctx) (e : Texpr) : Prop where
  opened : e.OpenedIn free ctx
  nodup : e.binderIds.Nodup

theorem Texpr.WellScoped.child {ctx : Ctx} {e : Expr} {ty : Ty}
    (h : (Texpr.mk e ty).WellScoped free ctx) (he : e.IsNode) {c : Scoped Texpr} (hc : c ∈ e.children) :
    tpatsBound c.1.pats = [] ∧ (tpatsIds c.1.pats).Nodup ∧ c.2.WellScoped free (c.1.under Ctx.push ctx) := by
  have hopened := (openedIn_node he ty).mp h.opened c hc
  have hnodup := h.nodup
  rw [binderIds_node he, nodup_flatMap] at hnodup
  have hc' := nodup_append.mp (hnodup.1 c hc)
  exact ⟨hopened.1, hc'.1, hopened.2, hc'.2.1⟩

/-! ## Matching -/

section
variable {X : Type} {onOpened : FVar → Option MPlace → Pat} {rebind : Option FVarId → Option FVarId}

theorem matchTPats_cons {p : TPat} {ps : List TPat} {vs : List (Value X)} {l : List (Option FVarId × Value X)} :
    matchTPats (p :: ps) vs = some l ↔ ∃ v vs' l₁ l₂, vs = v :: vs' ∧ p.matches v = some l₁ ∧
      matchTPats ps vs' = some l₂ ∧ l₁ ++ l₂ = l := by
  cases vs with
  | nil => simp [matchTPats]
  | cons v vs => simp [matchTPats, Option.bind_eq_some_iff]

theorem matchTPats_cons_map {f : Option FVarId × Value X → Option FVarId × Value X} {p p' : TPat} {ps ps' : List TPat}
    (hp : ∀ v, p'.matches v = (p.matches v).map (map f))
    (hps : ∀ vs, matchTPats ps' vs = (matchTPats ps vs).map (map f)) (vs : List (Value X)) :
    matchTPats (p' :: ps') vs = (matchTPats (p :: ps) vs).map (map f) := by
  cases vs with
  | nil => simp [matchTPats]
  | cons v vs =>
    simp only [matchTPats, hp, hps]
    cases p.matches v with
    | none => rfl
    | some l => cases matchTPats ps vs <;> simp

theorem matchTPats_mapVars (hnone : rebind none = none)
    (hopened : ∀ v mp ty (x : Value X), (onOpened v mp).matches ty x = some [(rebind (some v.id), x)])
    (ps : List TPat) :
    ∀ vs : List (Value X), matchTPats (mapVarsTPats .bound onOpened ps) vs =
      (matchTPats ps vs).map (map fun b => (rebind b.1, b.2)) := by
  induction ps using tpats_induct with
  | nil => intro vs; cases vs <;> simp [mapVarsTPats, matchTPats]
  | constant l ty ps ih =>
    refine matchTPats_cons_map (fun v => ?_) ih
    cases v with
    | lit l' => by_cases h : l = l' <;> simp [TPat.mapVars, Pat.mapVars, h]
    | _ => simp [TPat.mapVars, Pat.mapVars]
  | bound v mp ty ps ih =>
    refine matchTPats_cons_map (fun v => ?_) ih
    simp [TPat.mapVars, Pat.mapVars, hnone]
  | ignored ty ps ih =>
    refine matchTPats_cons_map (fun v => ?_) ih
    simp [TPat.mapVars, Pat.mapVars]
  | opened v mp ty ps ih =>
    refine matchTPats_cons_map (fun v => ?_) ih
    simp [TPat.mapVars, Pat.mapVars, hopened]
  | adt variantId fields ty ps ihf ih =>
    refine matchTPats_cons_map (fun v => ?_) ih
    cases v with
    | adt id variantId' fs =>
      by_cases h : ty.adtId = some id ∧ variantId = variantId' <;>
        simp [TPat.mapVars, Pat.mapVars, h, ihf]
    | _ => simp [TPat.mapVars, Pat.mapVars]

theorem matchTPats_ids (ps : List TPat) : tpatsBound ps = [] → ∀ {vs : List (Value X)} {l},
    matchTPats ps vs = some l → l.map Prod.fst = (tpatsIds ps).map some := by
  induction ps using tpats_induct with
  | nil =>
    intro _ vs l h
    cases vs with
    | nil =>
      obtain rfl : [] = l := by simpa [matchTPats] using h
      rfl
    | cons v vs => simp [matchTPats] at h
  | constant c ty ps ih =>
    intro hb vs l h
    obtain ⟨v, vs, l₁, l₂, rfl, hp, hps, rfl⟩ := matchTPats_cons.mp h
    have hl₁ : l₁ = [] := by
      cases v with
      | lit c' => exact (by simpa using hp : c = c' ∧ [] = l₁).2.symm
      | _ => simp at hp
    rw [hl₁]
    exact ih hb hps
  | bound v mp ty ps ih =>
    intro hb
    simp [tpatsBound, tpatsVars, TPat.vars, Pat.vars] at hb
  | ignored ty ps ih =>
    intro hb vs l h
    obtain ⟨v, vs, l₁, l₂, rfl, hp, hps, rfl⟩ := matchTPats_cons.mp h
    obtain rfl : [] = l₁ := by simpa using hp
    exact ih hb hps
  | opened x mp ty ps ih =>
    intro hb vs l h
    obtain ⟨v, vs, l₁, l₂, rfl, hp, hps, rfl⟩ := matchTPats_cons.mp h
    obtain rfl : [(some x.id, v)] = l₁ := by simpa using hp
    exact congrArg (cons (some x.id)) (ih hb hps)
  | adt variantId fields ty ps ihf ih =>
    intro hb vs l h
    have hb' := append_eq_nil_iff.mp (show tpatsBound fields ++ tpatsBound ps = [] from hb)
    obtain ⟨v, vs, l₁, l₂, rfl, hp, hps, rfl⟩ := matchTPats_cons.mp h
    cases v with
    | adt id variantId' fs =>
      have hf : (ty.adtId = some id ∧ variantId = variantId') ∧ matchTPats fields fs = some l₁ := by
        simpa using hp
      have hids : tpatsIds (.mk (.adt variantId fields) ty :: ps) = tpatsIds fields ++ tpatsIds ps := rfl
      rw [map_append, ihf hb'.1 hf.2, ih hb'.2 hps, hids, map_append]
    | _ => simp at hp

end

/-! ## Environments which simulate each other -/

section
variable {D X : Type}

/-- Replacing the variables by `onFVar` and the binders by `onOpened` goes with the relation `R` between the
environments. -/
structure EnvSim (I : Interp D X) (free : FVarId → Bool) (onFVar : Ctx → FVarId → Expr)
    (onOpened : FVar → Option MPlace → Pat) (rebind : Option FVarId → Option FVarId)
    (R : Ctx → Env D X → Env D X → Prop) : Prop where
  rebind_none : rebind none = none
  opened : ∀ v mp ty (x : Value X), (onOpened v mp).matches ty x = some [(rebind (some v.id), x)]
  generics : ∀ {ctx env env'}, R ctx env env' → env'.generics = env.generics
  var : ∀ {ctx env env'} isCall call ty args f, R ctx env env' → free f = true ∨ f ∈ ctx.flatten →
    (mk (onFVar ctx f) ty).eval I isCall call env' args = (env.fvars f).bind fun v => I.applyTo v args
  push : ∀ {ctx env env'} (ps : List TPat) (l : List (Option FVarId × Value X)), R ctx env env' →
    (tpatsIds ps).Nodup → l.map Prod.fst = (tpatsIds ps).map some →
      R (Ctx.push ps ctx) (env.push l) (env'.push (l.map fun b => (rebind b.1, b.2)))

variable {I : Interp D X} {isCall : FunKey → Bool} {call : FunCalls D X} {free : FVarId → Bool}
  {onFVar : Ctx → FVarId → Expr} {onOpened : FVar → Option MPlace → Pat} {rebind : Option FVarId → Option FVarId}
  {R : Ctx → Env D X → Env D X → Prop} {ctx : Ctx} {env env' : Env D X}

theorem EnvSim.match_mapVars (h : EnvSim I free onFVar onOpened rebind R) (ps : List TPat) (vs : List (Value X)) :
    matchTPats (mapVarsTPats .bound onOpened ps) vs = (matchTPats ps vs).map (map fun b => (rebind b.1, b.2)) :=
  matchTPats_mapVars h.rebind_none h.opened ps vs

variable {ps : List TPat}

theorem EnvSim.bind (h : EnvSim I free onFVar onOpened rebind R) (hR : R ctx env env')
    (hb : tpatsBound ps = []) (hn : (tpatsIds ps).Nodup) (vs : List (Value X)) :
    Option.Rel (R (Ctx.push ps ctx)) (env.bind ps vs) (env'.bind (mapVarsTPats .bound onOpened ps) vs) := by
  simp only [Env.bind, h.match_mapVars]
  cases hl : matchTPats ps vs with
  | none => exact .none
  | some l => exact .some (h.push ps l hR hn (matchTPats_ids ps hb hl))

theorem bind_eq_of_rel {α β γ : Type} {P : α → β → Prop} {x : Option α} {y : Option β} (h : Option.Rel P x y)
    {k : α → Option γ} {k' : β → Option γ} (hk : ∀ a b, P a b → k' b = k a) : y.bind k' = x.bind k := by
  cases h with
  | none => rfl
  | some hab => exact hk _ _ hab

theorem EnvSim.relatedScoped (h : EnvSim I free onFVar onOpened rebind R) (hR : R ctx env env') {c : Scoped Texpr}
    (hopened : ScopedOpenedIn free ctx c) (hnodup : (tpatsIds c.1.pats).Nodup)
    (hsim : ∀ {env₁ env₁'}, R (c.1.under Ctx.push ctx) env₁ env₁' → ∀ args,
      (c.2.mapIn onFVar .bound onOpened Ctx.push (c.1.under Ctx.push ctx)).eval I isCall call env₁' args =
        c.2.eval I isCall call env₁ args) :
    RelatedScoped sameOutcome I isCall call (fun _ _ => True) env env' c
      (c.1.mapVars .bound onOpened, c.2.mapIn onFVar .bound onOpened Ctx.push (c.1.under Ctx.push ctx)) where
  like := c.1.like_mapVars _ _
  binds vs := by
    rw [Group.pats_mapVars]
    have hrel := h.bind hR hopened.1 hnodup vs
    generalize env'.bind (mapVarsTPats .bound onOpened c.1.pats) vs = x at hrel ⊢
    generalize env.bind c.1.pats vs = y at hrel ⊢
    cases hrel <;> rfl
  eval := by
    intro env₁ env₁' hentered args _
    refine (hsim ?_ args).symm
    obtain ⟨g, e⟩ := c
    cases g with
    | none =>
      cases hentered with
      | none => exact hR
      | pats hg => exact absurd rfl hg
    | one pat | many pats =>
      cases hentered with
      | pats hg vs h₁ h₁' =>
        rw [Group.pats_mapVars] at h₁'
        have hrel := h.bind hR hopened.1 hnodup vs
        rw [h₁, h₁'] at hrel
        cases hrel with
        | some hR₁ => exact hR₁

theorem eval_mapIn_groups (h : EnvSim I free onFVar onOpened rebind R) (e : Texpr) : ∀ {ctx env env'},
    R ctx env env' → e.OpenedIn free ctx → e.GroupsNodup → ∀ args,
    (e.mapIn onFVar .bound onOpened Ctx.push ctx).eval I isCall call env' args = e.eval I isCall call env args := by
  induction e using induct with
  | h e ty ih =>
    intro ctx env env' hR hopened hgroups args
    rcases e.var_or_node with ⟨f, rfl⟩ | ⟨v, rfl⟩ | he
    · rw [mapIn_fvar, eval_fvar]
      exact h.var isCall call ty args f hR (openedIn_fvar.mp hopened)
    · exact absurd hopened not_openedIn_bvar
    · rw [mapIn_node he.1]
      refine (eval_related I.respects_same he (h.generics hR) ?_ args).symm
      rw [forall₂_map_right_iff]
      refine forall₂_same.mpr fun c hc => ?_
      have hchild := (openedIn_node he ty).mp hopened c hc
      exact h.relatedScoped hR hchild (hgroups.child hc).1 fun hR₁ args =>
        ih c hc hR₁ hchild.2 (hgroups.child hc).2 args

/-! ## The variables in scope -/

structure Env.Agrees (free : FVarId → Bool) (ctx : Ctx) (env env' : Env D X) : Prop where
  generics : env'.generics = env.generics
  fvars : ∀ f, free f = true ∨ f ∈ ctx.flatten → env'.fvars f = env.fvars f

theorem Env.setFVar_congr {fvars fvars' : FVarId → Option (Value X)} {f : FVarId} :
    ∀ {l : List (Option FVarId × Value X)}, (some f ∉ l.map Prod.fst → fvars' f = fvars f) →
      l.foldl setFVar fvars' f = l.foldl setFVar fvars f
  | [], h => h (by simp)
  | b :: l, h => by
    obtain ⟨x, v⟩ := b
    rw [foldl_cons, foldl_cons]
    refine setFVar_congr fun hf => ?_
    cases x with
    | none => exact h (by simpa using hf)
    | some g =>
      by_cases hfg : f = g
      · simp [setFVar, hfg]
      · simp [setFVar, hfg, h (by simpa [hfg] using hf)]

theorem Env.setFVar_not_mem {fvars : FVarId → Option (Value X)} {f : FVarId} :
    ∀ {l : List (Option FVarId × Value X)}, some f ∉ l.map Prod.fst → l.foldl setFVar fvars f = fvars f
  | [], _ => rfl
  | b :: l, h => by
    obtain ⟨x, v⟩ := b
    have h' : some f ≠ x ∧ some f ∉ l.map Prod.fst := by simpa using h
    rw [foldl_cons, setFVar_not_mem h'.2]
    cases x with
    | none => rfl
    | some g =>
      have hfg : f ≠ g := fun hfg => h'.1 (congrArg some hfg)
      simp [setFVar, hfg]

theorem Env.Agrees.push (h : env.Agrees free ctx env') {l : List (Option FVarId × Value X)}
    (hids : l.map Prod.fst = (tpatsIds ps).map some) : (env.push l).Agrees free (Ctx.push ps ctx) (env'.push l) := by
  refine ⟨h.generics, fun f hf => Env.setFVar_congr fun hmem => h.fvars f ?_⟩
  rw [hids] at hmem
  refine hf.imp_right fun hf => ?_
  exact (mem_append.mp hf).resolve_left fun hf => hmem (mem_map.mpr ⟨f, hf, rfl⟩)

theorem Env.Agrees.bind (h : env.Agrees free ctx env') (hbound : tpatsBound ps = [])
    (vs : List (Value X)) :
    Option.Rel (Env.Agrees free (Ctx.push ps ctx)) (env.bind ps vs) (env'.bind ps vs) := by
  simp only [Env.bind]
  cases hl : matchTPats ps vs with
  | none => exact .none
  | some l => exact .some (h.push (matchTPats_ids ps hbound hl))

theorem Entered.keep {R : Ctx → Env D X → Env D X → Prop} {g : Group} {env₁ env₁' : Env D X}
    (h : Entered env env' g g env₁ env₁') (hbound : tpatsBound g.pats = []) (hR : R ctx env env')
    (hpush : ∀ l : List (Option FVarId × Value X), l.map Prod.fst = (tpatsIds g.pats).map some →
      R (Ctx.push g.pats ctx) (env.push l) (env'.push l)) : R (g.under Ctx.push ctx) env₁ env₁' := by
  cases h with
  | none => exact hR
  | pats hg vs h h' =>
    obtain ⟨l, hl, rfl⟩ := Option.map_eq_some_iff.mp h
    obtain ⟨l', hl', rfl⟩ := Option.map_eq_some_iff.mp h'
    obtain rfl := Option.some.inj (hl.symm.trans hl')
    rw [Group.under_eq hg]
    exact hpush l (matchTPats_ids g.pats hbound hl)

theorem Texpr.eval_agrees_opened (e : Texpr) : ∀ {ctx : Ctx} {env env' : Env D X}, e.OpenedIn free ctx →
    env.Agrees free ctx env' → ∀ args : List (Value X),
    e.eval I isCall call env' args = e.eval I isCall call env args := by
  induction e using induct with
  | h e ty ih =>
    intro ctx env env' hopened h args
    rcases e.var_or_node with ⟨f, rfl⟩ | ⟨v, rfl⟩ | he
    · rw [eval_fvar, eval_fvar, h.fvars f (openedIn_fvar.mp hopened)]
    · exact absurd hopened not_openedIn_bvar
    · have hchildren :
        List.Forall₂ (RelatedScoped sameOutcome I isCall call (fun _ _ => True) env env') e.children e.children := by
        refine forall₂_same.mpr fun c hc => relatedScoped_same rfl fun hentered args _ => ?_
        obtain ⟨hbound, hopened'⟩ := (openedIn_node he ty).mp hopened c hc
        have hagrees := hentered.keep (R := Env.Agrees free) hbound h fun l hl => h.push hl
        exact (ih c hc hopened' hagrees args).symm
      have hrel : sameOutcome.Rel ((mk e ty).eval I isCall call env args)
          ((mk (e.rebuild e.children) ty).eval I isCall call env' args) :=
        eval_related I.respects_same he h.generics hchildren args
      rw [e.rebuild_children] at hrel
      exact Eq.symm hrel

theorem Texpr.eval_agrees {e : Texpr} (hscoped : e.WellScoped free ctx) (h : env.Agrees free ctx env')
    (args : List (Value X)) : e.eval I isCall call env' args = e.eval I isCall call env args :=
  e.eval_agrees_opened hscoped.opened h args

/-! ## Closing -/

structure Env.Closes (ctx : Ctx) (env env' : Env D X) : Prop where
  generics : env'.generics = env.generics
  fvars : ∀ f, env.fvars f = match ctx.position f with
    | some v => env'.lookup v
    | none => env'.fvars f

theorem Ctx.position_scope_nonneg {f : FVarId} : ∀ {ctx : Ctx} {v : BVar}, ctx.position f = some v → 0 ≤ v.scope
  | [], _, h => by simp [position] at h
  | ids :: ctx, v, h => by
    by_cases hf : f ∈ ids
    · obtain rfl : { scope := 0, id := ids.idxOf f } = v := by simpa [position, hf] using h
      exact Int.le_refl 0
    · obtain ⟨w, hw, rfl⟩ : ∃ w, position ctx f = some w ∧ { w with scope := w.scope + 1 } = v := by
        simpa [position, hf] using h
      have := position_scope_nonneg hw
      simp only
      omega

theorem Env.lookup_push_succ (env : Env D X) (l : List (Option FVarId × Value X)) {v : BVar} (hv : 0 ≤ v.scope) :
    (env.push l).lookup { v with scope := v.scope + 1 } = env.lookup v := by
  have h₁ : ¬ v.scope + 1 < 0 := by omega
  have h₂ : ¬ v.scope < 0 := by omega
  have h₃ : (v.scope + 1).toNat = v.scope.toNat + 1 := by omega
  simp [lookup, push, h₁, h₂, h₃]

theorem Env.setFVar_idxOf {fvars : FVarId → Option (Value X)} {f : FVarId} :
    ∀ {ids : List FVarId} {l : List (Option FVarId × Value X)}, ids.Nodup → l.map Prod.fst = ids.map some → f ∈ ids →
      l.foldl setFVar fvars f = (l.map Prod.snd)[ids.idxOf f]?
  | g :: ids, b :: l, hn, hl, hf => by
    obtain ⟨hg, hn'⟩ := nodup_cons.mp hn
    obtain ⟨hb, hl'⟩ := cons.inj hl
    by_cases hfg : f = g
    · subst hfg
      have hnot : some f ∉ l.map Prod.fst := by
        rw [hl']
        simpa using hg
      rw [foldl_cons, setFVar_not_mem hnot]
      simp [setFVar, hb]
    · have hf' : f ∈ ids := by simpa [hfg] using hf
      rw [foldl_cons, setFVar_idxOf hn' hl' hf', idxOf_cons_ne _ (Ne.symm hfg)]
      simp

theorem envSim_closes (I : Interp D X) (free : FVarId → Bool) :
    EnvSim I free closeVar closeBinder (fun _ => none) (Env.Closes (D := D) (X := X)) where
  rebind_none := rfl
  opened _ _ _ _ := rfl
  generics h := h.generics
  var {ctx _ _} _ _ _ _ f h _ := by
    rw [h.fvars f, closeVar]
    cases ctx.position f <;> rfl
  push {ctx env env'} ps l h hn hids := by
    refine ⟨h.generics, fun f => ?_⟩
    have hfvars : (l.map fun b => ((none : Option FVarId), b.2)).foldl Env.setFVar env'.fvars = env'.fvars := by
      clear hids
      induction l with
      | nil => rfl
      | cons b l ih => exact ih
    by_cases hf : f ∈ tpatsIds ps
    · simp [Ctx.push, Ctx.position, hf, Env.push, Env.lookup, Env.setFVar_idxOf hn hids hf]
    · have hnot : some f ∉ l.map Prod.fst := by
        rw [hids]
        simpa using hf
      have henv : (env.push l).fvars f = env.fvars f := Env.setFVar_not_mem hnot
      rw [henv, h.fvars f]
      cases hpos : ctx.position f with
      | none => simp [Ctx.push, Ctx.position, hf, hpos, Env.push, hfvars]
      | some v =>
        simp only [Ctx.push, Ctx.position, hf, hpos, if_false, Option.map_some]
        exact (env'.lookup_push_succ _ (Ctx.position_scope_nonneg hpos)).symm

theorem FunBody.eval_close_groups {fbody : FunBody} (hbound : tpatsBound fbody.inputs = [])
    (hnodup : (tpatsIds fbody.inputs).Nodup) (hopened : fbody.body.OpenedIn free [tpatsIds fbody.inputs])
    (hgroups : fbody.body.GroupsNodup) (d : D) (args : List (Value X)) :
    fbody.close.eval I isCall call d args = fbody.eval I isCall call d args := by
  have hR : Env.Closes [] { generics := d, fvars := fun _ => none, stack := [] }
      ({ generics := d, fvars := fun _ => none, stack := [] } : Env D X) := ⟨rfl, fun _ => rfl⟩
  refine bind_eq_of_rel ((envSim_closes I free).bind hR hbound hnodup args) fun env₁ env₁' hR₁ => ?_
  exact eval_mapIn_groups (envSim_closes I free) fbody.body hR₁ hopened hgroups []

end

/-! ## Function bodies -/

/-- The binders are opened and not in the scope of binders with the same identifier; there are no other variables. -/
structure FunBody.Unshadowed (fbody : FunBody) : Prop where
  bound : tpatsBound fbody.inputs = []
  inputs : (tpatsIds fbody.inputs).Nodup
  opened : fbody.body.OpenedIn (fun _ => false) [tpatsIds fbody.inputs]
  body : fbody.body.Unshadowed [tpatsIds fbody.inputs]

/-- The binders are opened and distinct, and there are no other variables. -/
structure FunBody.WellScoped (fbody : FunBody) : Prop where
  bound : tpatsBound fbody.inputs = []
  opened : fbody.body.OpenedIn (fun _ => false) [tpatsIds fbody.inputs]
  nodup : fbody.binderIds.Nodup

variable {fbody : FunBody}

theorem FunBody.WellScoped.inputs (h : fbody.WellScoped) : (tpatsIds fbody.inputs).Nodup :=
  (nodup_append.mp h.nodup).1

theorem FunBody.WellScoped.body (h : fbody.WellScoped) :
    fbody.body.WellScoped (fun _ => false) [tpatsIds fbody.inputs] :=
  ⟨h.opened, (nodup_append.mp h.nodup).2.1⟩

theorem FunBody.WellScoped.unshadowed (h : fbody.WellScoped) : fbody.Unshadowed :=
  ⟨h.bound, h.inputs, h.opened, fbody.body.unshadowed_of_nodup (by simpa [FunBody.binderIds] using h.nodup)⟩

theorem FunBody.Unshadowed.close (h : fbody.Unshadowed) : closeAllFunBody fbody = .ok fbody.close :=
  closeAllFunBody_unshadowed ⟨h.bound, h.opened.1⟩ h.opened.2 h.inputs h.body fun _ _ => rfl

theorem FunBody.WellScoped.close (h : fbody.WellScoped) :
    closeAllFunBody fbody = .ok fbody.close := h.unshadowed.close

theorem closeTPats_closed (ps : List TPat) : tpatsBound ps = [] →
    tpatsIds (closeTPats ps) = [] ∧ (tpatsBound (closeTPats ps)).length = (tpatsIds ps).length := by
  induction ps using tpats_induct with
  | nil => exact fun _ => ⟨rfl, rfl⟩
  | constant l ty ps ih => exact ih
  | bound v mp ty ps ih =>
    intro h
    simp [tpatsBound, tpatsVars, TPat.vars, Pat.vars] at h
  | ignored ty ps ih => exact ih
  | opened v mp ty ps ih =>
    intro h
    obtain ⟨hids, hlen⟩ := ih h
    exact ⟨hids, congrArg (· + 1) hlen⟩
  | adt variantId fields ty ps ihf ih =>
    intro h
    have h' := append_eq_nil_iff.mp (show tpatsBound fields ++ tpatsBound ps = [] from h)
    obtain ⟨hidsf, hlenf⟩ := ihf h'.1
    obtain ⟨hids, hlen⟩ := ih h'.2
    refine ⟨append_eq_nil_iff.mpr ⟨hidsf, hids⟩, ?_⟩
    show (tpatsBound (closeTPats fields) ++ tpatsBound (closeTPats ps)).length =
      (tpatsIds fields ++ tpatsIds ps).length
    rw [length_append, length_append, hlenf, hlen]

theorem Texpr.isClosedIn_closeIn (e : Texpr) : ∀ {ctx : Ctx}, e.OpenedIn free ctx →
    (e.closeIn ctx).isClosedIn free (ctx.map length) = true := by
  induction e using induct with
  | h e ty ih =>
    intro ctx h
    rcases e.var_or_node with ⟨f, rfl⟩ | ⟨v, rfl⟩ | he
    · rw [closeIn_fvar, closeVar]
      by_cases hf : f ∈ ctx.flatten
      · obtain ⟨k, i, ids, hpos, hctx, hids⟩ := Ctx.exists_position hf
        obtain ⟨hi, -⟩ := List.getElem?_eq_some_iff.mp hids
        rw [hpos]
        show (decide (0 ≤ (k : Int)) && ((ctx.map length)[(k : Int).toNat]?).any fun n => decide (i < n)) = true
        simp [hctx, hi]
      · rw [Ctx.position_eq_none hf]
        exact (openedIn_fvar.mp h).resolve_right hf
    · exact absurd h not_openedIn_bvar
    · obtain ⟨hchildren, -⟩ := Expr.children_rebuild (fits_close ctx e.children) (fits_close ctx e.children)
      rw [closeIn_node ctx he, isClosedIn_node (he.rebuild _), hchildren, forall_mem_map]
      intro c hc
      obtain ⟨hbound, hopened⟩ := (openedIn_node he ty).mp h c hc
      obtain ⟨hids, hlen⟩ := closeTPats_closed c.1.pats hbound
      have hclosed := ih c hc hopened
      obtain ⟨g, e⟩ := c
      refine ⟨by rw [closeScoped, Group.pats_mapVars]; exact hids, ?_⟩
      cases g with
      | none => exact hclosed
      | one pat =>
        have hlen' : (tpatsBound [pat.mapVars .bound closeBinder]).length = (tpatsIds [pat]).length := hlen
        simpa [closeScoped, Group.mapVars, Group.under, Ctx.push, hlen'] using hclosed
      | many pats =>
        have hlen' : (tpatsBound (mapVarsTPats .bound closeBinder pats)).length = (tpatsIds pats).length := hlen
        simpa [closeScoped, Group.mapVars, Group.under, Ctx.push, hlen'] using hclosed

theorem FunBody.Unshadowed.isClosed (h : fbody.Unshadowed) :
    fbody.close.IsClosed fun _ => false := by
  obtain ⟨hids, hlen⟩ := closeTPats_closed fbody.inputs h.bound
  refine ⟨hids, ?_⟩
  have hclosed := fbody.body.isClosedIn_closeIn h.opened
  rw [show (tpatsBound fbody.close.inputs).length = (tpatsIds fbody.inputs).length from hlen]
  exact hclosed

theorem FunBody.WellScoped.isClosed (h : fbody.WellScoped) :
    fbody.close.IsClosed fun _ => false := h.unshadowed.isClosed

theorem FunBody.WellScoped.open_close {b : FunBody} (h : b.WellScoped) {fresh : FVarId} {k : Nat}
    (hids : b.binderIds = range' fresh k) : ∃ fvars, openAllFunBody fresh b.close = .ok ((fvars, b), fresh + k) := by
  have hr : Numbers id fresh b.binderIds := by simp [Numbers, hids]
  obtain ⟨fvars, hopen⟩ := openAllFunBody_eq ⟨h.bound, h.opened.1⟩ h.opened.2 hr fun f _ => rfl
  have hrename : b.rename id = b := by simp [FunBody.rename, renameTPats_id, rename_id]
  have hlen : b.binderIds.length = k := by rw [hids, length_range']
  rw [hrename, hlen] at hopen
  exact ⟨fvars, hopen⟩

theorem openAllFunBody_closed (h : fbody.IsClosed fun _ => false) (fresh : FVarId) :
    ∃ fvars b k, openAllFunBody fresh fbody = .ok ((fvars, b), fresh + k) ∧ b.close = fbody ∧ b.WellScoped ∧
      b.binderIds = range' fresh k := by
  obtain ⟨b, k, rfl, hopened, hscoped, hids⟩ := FunBody.exists_opened fresh h (by simp)
  have hb : b.WellScoped := ⟨hopened.1, ⟨hopened.2, hscoped⟩, hids ▸ nodup_range'⟩
  obtain ⟨fvars, hopen⟩ := hb.open_close hids
  exact ⟨fvars, b, k, hopen, rfl, hb, hids⟩

section
variable {D X : Type} {I : Interp D X} {isCall : FunKey → Bool}

theorem FunBody.Unshadowed.eval_close {fbody : FunBody} (h : fbody.Unshadowed) (call : FunCalls D X) (d : D)
    (args : List (Value X)) : fbody.close.eval I isCall call d args = fbody.eval I isCall call d args :=
  FunBody.eval_close_groups h.bound h.inputs h.opened h.body.groupsNodup d args

theorem FunBody.WellScoped.eval_close {fbody : FunBody} (h : fbody.WellScoped) (call : FunCalls D X) (d : D)
    (args : List (Value X)) : fbody.close.eval I isCall call d args = fbody.eval I isCall call d args :=
  h.unshadowed.eval_close call d args

end

/-! ## Replacing the subexpressions -/

section
variable {D X : Type} {I : Interp D X} {isCall : FunKey → Bool} {call : FunCalls D X} {ty : Ty}

def SameScoped (I : Interp D X) (isCall : FunKey → Bool) (call : FunCalls D X) (c c' : Scoped Texpr) : Prop :=
  c'.1 = c.1 ∧ c'.2.eval I isCall call = c.2.eval I isCall call

theorem SameScoped.related {c c' : Scoped Texpr} (h : SameScoped I isCall call c c') (env : Env D X) :
    RelatedScoped sameOutcome I isCall call (fun _ _ => True) env env c c' where
  like := h.1 ▸ c.1.like_refl
  binds vs := by rw [h.1]
  eval {env₁ env₁'} hentered args _ := by
    rw [h.1] at hentered
    rw [hentered.eq, h.2]
    rfl

theorem Texpr.eval_rebuild {e : Expr} {cs : List (Scoped Texpr)}
    (h : List.Forall₂ (SameScoped I isCall call) e.children cs) :
    (mk (e.rebuild cs) ty).eval I isCall call = (mk e ty).eval I isCall call := by
  funext env args
  rcases e.var_or_node with ⟨f, rfl⟩ | ⟨v, rfl⟩ | he
  · rfl
  · rfl
  · exact (eval_related I.respects_same he rfl (h.imp fun _ _ h => h.related env) args).symm

end

/-! ## Passes over the function bodies -/

section
variable {D X : Type} (I : Interp D X) (isCall : FunKey → Bool)

structure SameBody (fbody fbody' : FunBody) : Prop where
  closed : fbody'.IsClosed fun _ => false
  inputs : ∀ args : List (Value X), (matchTPats fbody'.inputs args).isSome = (matchTPats fbody.inputs args).isSome
  eval : ∀ (call : FunCalls D X) d args, fbody'.eval I isCall call d args = fbody.eval I isCall call d args

end

end Aeneas.Pure
