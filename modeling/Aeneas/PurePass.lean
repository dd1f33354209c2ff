import Aeneas.PureLets
import Aeneas.PureTyping

/-!
# Micro-passes

A micro-pass opens the binders of a body, maps a visitor over it and closes the
binders again. By default a visitor goes through the subexpressions of a node and
rebuilds it: a node keeps its scopes and its value if its subexpressions do.
-/

namespace Aeneas.Pure

open Texpr List

/-! ## Visitors -/

def mapChildren {m : Type → Type} [Monad m] (visit : Texpr → m Texpr) (e : Expr) : m Expr := do
  let cs ← e.children.mapM fun c => do
    let e ← visit c.2
    pure (c.1, e)
  pure (e.rebuild cs)

def onTexpr {m : Type → Type} [Monad m] (visit : Expr → m Expr) (e : Texpr) : m Texpr := do
  let e' ← visit e.e
  pure (.mk e' e.ty)

def liftExprMap (visit : Texpr → EnvM FVarId Texpr) (fbody : FunBody) : EnvM FVarId FunBody := fun fresh => do
  let r ← openAllFunBody fresh fbody
  let x ← visit r.1.2.body r.2
  let fbody ← closeAllFunBody { r.1.2 with body := x.1 }
  .ok (fbody, x.2)

def liftExprMapVisitor (visit : Texpr → EnvM FVarId Texpr) (def_ : FunDecl) : EnvM FVarId FunDecl := do
  let body ← def_.body.mapM (liftExprMap visit)
  pure { def_ with body }

theorem Texpr.mk_e_ty : ∀ e : Texpr, .mk e.e e.ty = e
  | .mk _ _ => rfl

theorem exists_mapChildren {visit : Texpr → Except Exn Texpr} {P : Scoped Texpr → Texpr → Prop} {e : Expr}
    (h : ∀ c ∈ e.children, ∃ x, visit c.2 = .ok x ∧ P c x) : ∃ cs, mapChildren visit e = .ok (e.rebuild cs) ∧
      List.Forall₂ (fun c c' : Scoped Texpr => c'.1 = c.1 ∧ P c c'.2) e.children cs := by
  have hmapM : ∀ cs : List (Scoped Texpr), (∀ c ∈ cs, ∃ x, visit c.2 = .ok x ∧ P c x) →
      ∃ cs', (cs.mapM (m := Except Exn) fun c => do
        let e ← visit c.2
        pure (c.1, e)) = .ok cs' ∧ List.Forall₂ (fun c c' : Scoped Texpr => c'.1 = c.1 ∧ P c c'.2) cs cs' := by
    intro cs h
    induction cs with
    | nil => exact ⟨[], rfl, .nil⟩
    | cons c cs ih =>
      obtain ⟨⟨x, hx, hP⟩, h⟩ := forall_mem_cons.mp h
      obtain ⟨cs', hcs, hPs⟩ := ih h
      refine ⟨(c.1, x) :: cs', ?_, .cons ⟨rfl, hP⟩ hPs⟩
      rw [mapM_cons, hx, hcs]
      rfl
  obtain ⟨cs, hcs, hP⟩ := hmapM e.children h
  refine ⟨cs, ?_, hP⟩
  rw [mapChildren, hcs]
  rfl

theorem mapChildren_ok {visit : Texpr → Except Exn Texpr} {e e' : Expr} (h : mapChildren visit e = .ok e') :
    ∃ cs, e' = e.rebuild cs ∧
      List.Forall₂ (fun c c' : Scoped Texpr => c'.1 = c.1 ∧ visit c.2 = .ok c'.2) e.children cs := by
  obtain ⟨cs, hcs, h⟩ := bind_eq_ok.mp h
  refine ⟨cs, (Except.ok.inj h).symm, (mapM_eq_ok_iff.mp hcs).imp fun c c' hc => ?_⟩
  obtain ⟨x, hx, hc⟩ := bind_eq_ok.mp hc
  obtain rfl := Except.ok.inj hc
  exact ⟨rfl, hx⟩

theorem mapChildren_mono {visit visit' : Texpr → Except Exn Texpr}
    (hvisit : ∀ {x x'}, visit x = .ok x' → visit' x = .ok x') {e e' : Expr} (h : mapChildren visit e = .ok e') :
    mapChildren visit' e = .ok e' := by
  obtain ⟨cs, rfl, hcs⟩ := mapChildren_ok h
  refine bind_eq_ok.mpr ⟨cs, mapM_eq_ok_iff.mpr (hcs.imp fun c c' hc => ?_), rfl⟩
  exact bind_eq_ok.mpr ⟨c'.2, hvisit hc.2, by rw [← hc.1]; rfl⟩

/-! ## Scopes -/

structure Texpr.Keeps (ctx : Ctx) (e e' : Texpr) : Prop where
  opened : e'.OpenedIn (fun _ => false) ctx
  count : ∀ f, e'.binderIds.count f ≤ e.binderIds.count f

section
variable {ctx : Ctx} {e e' e'' : Texpr}

theorem Texpr.keeps_refl (h : e.OpenedIn (fun _ => false) ctx) : e.Keeps ctx e := ⟨h, fun _ => Nat.le_refl _⟩

theorem Texpr.Keeps.trans (h : e.Keeps ctx e') (h' : e'.Keeps ctx e'') : e.Keeps ctx e'' :=
  ⟨h'.opened, fun f => Nat.le_trans (h'.count f) (h.count f)⟩

theorem Texpr.Keeps.separated (h : e.Keeps ctx e') (he : e.Separated ctx) :
    e'.Separated ctx := he.of_count h.opened h.count

theorem Texpr.openedIn_retype {free : FVarId → Bool} {e : Expr} {ty : Ty} (ty' : Ty)
    (h : (mk e ty).OpenedIn free ctx) : (mk e ty').OpenedIn free ctx := by
  rw [openedIn_iff] at h ⊢
  rwa [isOpened_retype e ty' ty, freeVars_retype e ty' ty]

theorem Texpr.Keeps.retype {e e' : Expr} {ty ty₁ : Ty} (h : (Texpr.mk e ty).Keeps ctx (.mk e' ty₁)) (ty' ty₁' : Ty) :
    (Texpr.mk e ty').Keeps ctx (.mk e' ty₁') := by
  refine ⟨openedIn_retype ty₁' h.opened, fun f => ?_⟩
  rw [binderIds_retype e' ty₁' ty₁, binderIds_retype e ty' ty]
  exact h.count f

theorem count_scoped {f : FVarId} {cs cs' : List (Scoped Texpr)} (h : List.Forall₂ (fun c c' : Scoped Texpr =>
    c'.1 = c.1 ∧ c'.2.binderIds.count f ≤ c.2.binderIds.count f) cs cs') :
    (cs'.flatMap scopedBinderIds).count f ≤ (cs.flatMap scopedBinderIds).count f := by
  induction h with
  | nil => exact Nat.le_refl _
  | cons hc _ ih =>
    simp only [flatMap_cons, scopedBinderIds, count_append, hc.1]
    omega

theorem Texpr.keeps_node {e : Expr} {ty : Ty} {cs : List (Scoped Texpr)} (he : e.IsNode)
    (hopened : (mk e ty).OpenedIn (fun _ => false) ctx)
    (h : List.Forall₂ (fun c c' : Scoped Texpr => c'.1 = c.1 ∧ c.2.Keeps (c.1.under Ctx.push ctx) c'.2) e.children cs)
    (ty' : Ty) : (mk e ty).Keeps ctx (.mk (e.rebuild cs) ty') := by
  have hfits : Fits e.children cs := h.imp fun c c' hc => hc.1 ▸ c.1.like_refl
  obtain ⟨hchildren, -⟩ := Expr.children_rebuild hfits hfits
  constructor
  · rw [openedIn_node (he.rebuild cs), hchildren]
    intro c' hc'
    obtain ⟨c, hc, hgroup, hkeeps⟩ := exists_of_forall₂ h hc'
    have hscope := ((openedIn_node he ty).mp hopened c hc).1
    rw [← hgroup] at hscope hkeeps
    exact ⟨hscope, hkeeps.opened⟩
  · intro f
    rw [binderIds_node (he.rebuild cs), hchildren, binderIds_node he]
    exact count_scoped (h.imp fun c c' hc => ⟨hc.1, hc.2.count f⟩)

theorem FunBody.WellScoped.of_keeps {b : FunBody} (h : b.WellScoped) (hkeeps : b.body.Keeps [tpatsIds b.inputs] e') :
    FunBody.WellScoped { b with body := e' } := by
  refine ⟨h.bound, hkeeps.opened, nodup_iff_count_le_one.mpr fun f => ?_⟩
  have hnodup := nodup_iff_count_le_one.mp h.nodup f
  have := hkeeps.count f
  simp only [FunBody.binderIds, count_append] at hnodup ⊢
  omega

end

/-! ## Nodes -/

def Texpr.AllNodes (P : Expr → Prop) (e : Texpr) : Prop := ∀ d : Texpr, d.Within e → P d.e

section
variable {P : Expr → Prop} {e : Expr} {ty : Ty}

theorem Texpr.allNodes_mk : (mk e ty).AllNodes P ↔ P e ∧ ∀ c ∈ e.children, c.2.AllNodes P := by
  constructor
  · exact fun h => ⟨h _ .refl, fun c hc d hd => h d (.child hc hd)⟩
  · rintro ⟨he, hchildren⟩ d hd
    rcases within_mk.mp hd with rfl | ⟨c, hc, hd⟩
    · exact he
    · exact hchildren c hc d hd

theorem Texpr.allNodes_retype (ty' : Ty) (h : (mk e ty).AllNodes P) : (mk e ty').AllNodes P :=
  allNodes_mk.mpr (allNodes_mk.mp h)

theorem Texpr.keeps_child {ctx : Ctx} {x : Texpr} (h : (mk e ty).OpenedIn (fun _ => false) ctx)
    (hx : (.none, x) ∈ e.children) : (mk e ty).Keeps ctx x :=
  ⟨((openedIn_node (Expr.isNode_of_child hx) ty).mp h _ hx).2, (Within.child hx .refl).count⟩

end

/-! ## Let-bindings -/

inductive Texpr.AllLets (P : Bool → TPat → Texpr → Prop) : Texpr → Prop
  | mk {e : Expr} {ty : Ty} (lets : ∀ monadic pat bound next, e = .letE monadic pat bound next → P monadic pat bound)
    (children : ∀ c ∈ e.children, c.2.AllLets P) : AllLets P (.mk e ty)

section
variable {P : Bool → TPat → Texpr → Prop} {e : Expr} {ty : Ty} {monadic : Bool} {pat : TPat} {bound next : Texpr}

theorem Texpr.AllLets.child (h : (Texpr.mk e ty).AllLets P) {c : Scoped Texpr} (hc : c ∈ e.children) :
    c.2.AllLets P := by
  cases h with
  | mk _ children => exact children c hc

theorem Texpr.Within.allLets {d e : Texpr} (h : d.Within e) (he : e.AllLets P) : d.AllLets P := by
  induction h with
  | refl => exact he
  | child hc _ ih => exact ih (he.child hc)

theorem Texpr.allLets_letE : (mk (.letE monadic pat bound next) ty).AllLets P ↔
    P monadic pat bound ∧ bound.AllLets P ∧ next.AllLets P := by
  constructor
  · intro h
    cases h with
    | mk lets children =>
      exact ⟨lets _ _ _ _ rfl, children (.none, bound) (by simp [Expr.children]),
        children (.one pat, next) (by simp [Expr.children])⟩
  · rintro ⟨hlet, hbound, hnext⟩
    refine .mk (fun _ _ _ _ heq => ?_) ?_
    · cases heq
      exact hlet
    · simpa [Expr.children] using ⟨hbound, hnext⟩

theorem Texpr.allLets_leaf (he : e.children = []) : (mk e ty).AllLets P := by
  refine .mk (fun _ _ _ _ heq => ?_) (by simp [he])
  rw [heq] at he
  cases he

theorem Texpr.allLets_app {f x : Texpr} (hf : f.AllLets P) (hx : x.AllLets P) : (mk (.app f x) ty).AllLets P :=
  .mk nofun (by simpa [Expr.children] using ⟨hf, hx⟩)

theorem allLets_mkCons {adtId : TypeId} {variantId : VariantId} {types : List Ty} {x : Texpr} (hx : x.AllLets P) :
    (mkCons adtId variantId types x).AllLets P := allLets_app (allLets_leaf rfl) hx

end

/-! ## Values -/

/-- The arguments which an expression may have: the values of the error monad are not applied. -/
def TypedArgs {X : Type} (e : Texpr) (args : List (Value X)) : Prop := args = [] ∨ ¬ e.ty.IsMonadic

section
variable {D X : Type} {I : Interp D X} {isCall : FunKey → Bool} {call : FunCalls D X} {env env' : Env D X}
  {tc : TypingCtx} {e : Expr} {ty : Ty}

theorem passesArgs_typed {args : List (Value X)} (he : e.TypedAs tc ty) (h : TypedArgs (.mk e ty) args) :
    PassesArgs TypedArgs e args where
  none _ _ := .inl rfl
  app f x heq _ := by
    subst heq
    refine .inr fun hmonadic => ?_
    rw [show f.ty = .arrow x.ty ty from he] at hmonadic
    simp [Ty.IsMonadic, Ty.adtId] at hmonadic
  letE _ _ _ _ heq := by
    subst heq
    rw [TypedArgs, he.2.1]
    exact h
  switch scrut body heq c hc := by
    subst heq
    suffices c.2.ty = ty by
      rw [TypedArgs, this]
      exact h
    cases body with
    | ite thn els =>
      simp only [SwitchBody.children, mem_cons, not_mem_nil, or_false] at hc
      rcases hc with rfl | rfl
      · exact he.2.1
      · exact he.2.2
    | matchE branches =>
      obtain ⟨b, hb, rfl⟩ := mem_map.mp hc
      exact (he b hb).2
  emeta _ _ heq := by
    subst heq
    rw [TypedArgs, show _ = ty from he]
    exact h

theorem evalLet_agrees {free : FVarId → Bool} {ctx : Ctx} {monadic : Bool} {pat : TPat} {next : Texpr}
    (h : env.Agrees free ctx env') (hbound : tpatsBound [pat] = []) (hnext : next.OpenedIn free (Ctx.push [pat] ctx))
    (args : List (Value X)) (v : Value X) :
    evalLet I monadic pat (next.eval I isCall call) env' args v = evalLet I monadic pat (next.eval I isCall call) env
      args v := by
  have hbind : ∀ w, ((env'.bind [pat] [w]).bind fun env => next.eval I isCall call env args) =
      (env.bind [pat] [w]).bind fun env => next.eval I isCall call env args := fun w =>
    bind_eq_of_rel (h.bind hbound [w]) fun env₁ env₂ h => next.eval_agrees_opened hnext h args
  cases monadic with
  | false => exact hbind v
  | true =>
    simp only [evalLet, if_true]
    cases v.result with
    | none => rfl
    | some r =>
      cases r with
      | ok w => exact hbind w
      | error e => rfl

end

/-! ## Bodies -/

section
variable {visit : Texpr → EnvM FVarId Texpr} {def_ : FunDecl} {fbody b : FunBody} {fvars : IdMap FVarId FVar}
  {fresh s s' : FVarId}

theorem openAllFunBody_wellScoped (hclosed : fbody.IsClosed fun _ => false)
    (hopen : openAllFunBody fresh fbody = .ok ((fvars, b), s)) : b.close = fbody ∧ b.WellScoped := by
  obtain ⟨fvars', b', k, hopen', rfl, hb, -⟩ := openAllFunBody_closed hclosed fresh
  cases hopen.symm.trans hopen'
  exact ⟨rfl, hb⟩

theorem liftExprMapVisitor_eq {body' : Texpr} (hbody : def_.body = some fbody)
    (hopen : openAllFunBody fresh fbody = .ok ((fvars, b), s)) (hvisit : visit b.body s = .ok (body', s'))
    (hscoped : FunBody.Unshadowed { b with body := body' }) :
    liftExprMapVisitor visit def_ fresh = .ok ({ def_ with body := some (FunBody.close { b with body := body' }) },
      s') := by
  have hlift : liftExprMap visit fbody fresh = .ok (FunBody.close { b with body := body' }, s') := by
    refine bind_eq_ok.mpr ⟨_, hopen, bind_eq_ok.mpr ⟨_, hvisit, bind_eq_ok.mpr ⟨_, hscoped.close, rfl⟩⟩⟩
  have hmapM :
    (some fbody).mapM (liftExprMap visit) fresh = .ok (some (FunBody.close { b with body := body' }), s') := by
    rw [Option.mapM_some, map_eq_pure_bind, run_bind hlift]
    rfl
  rw [liftExprMapVisitor, hbody, run_bind hmapM]
  rfl

theorem liftExprMapVisitor_ok {def' : FunDecl} (hbody : def_.body = some fbody)
    (hopen : openAllFunBody fresh fbody = .ok ((fvars, b), s))
    (h : liftExprMapVisitor visit def_ fresh = .ok (def', s')) :
    ∃ body' fbody', visit b.body s = .ok (body', s') ∧ closeAllFunBody { b with body := body' } = .ok fbody' ∧
      def' = { def_ with body := some fbody' } := by
  obtain ⟨r, s₁, hr, h⟩ := run_bind_eq_ok h
  cases h
  rw [hbody] at hr
  rcases run_optionMapM hr with ⟨hnone, -⟩ | ⟨_, fbody', heq, hlift, rfl⟩
  · cases hnone
  · cases heq
    obtain ⟨x, hx, hlift⟩ := bind_eq_ok.mp hlift
    cases hopen.symm.trans hx
    obtain ⟨⟨body', s₂⟩, hvisit, hlift⟩ := bind_eq_ok.mp hlift
    obtain ⟨y, hclose, hlift⟩ := bind_eq_ok.mp hlift
    cases hlift
    exact ⟨body', _, hvisit, hclose, rfl⟩

theorem liftExprMapVisitor_error {err : Exn} (hbody : def_.body = some fbody)
    (hopen : openAllFunBody fresh fbody = .ok ((fvars, b), s)) (hvisit : visit b.body s = .error err) :
    liftExprMapVisitor visit def_ fresh = .error err := by
  have hlift : liftExprMap visit fbody fresh = .error err := by
    unfold liftExprMap
    rw [bind_eq_of_ok hopen]
    change Except.bind (visit b.body s) _ = _
    rw [hvisit]
    rfl
  have hmapM : (some fbody).mapM (liftExprMap visit) fresh = .error err := by
    rw [Option.mapM_some, map_eq_pure_bind]
    change Except.bind (liftExprMap visit fbody fresh) _ = _
    rw [hlift]
    rfl
  rw [liftExprMapVisitor, hbody]
  change Except.bind ((some fbody).mapM (liftExprMap visit) fresh) _ = _
  rw [hmapM]
  rfl

theorem liftExprMapVisitor_liftM {visit : Texpr → Except Exn Texpr} (hbody : def_.body = some fbody)
    (hopen : openAllFunBody fresh fbody = .ok ((fvars, b), s))
    (hscoped : ∀ body', visit b.body = .ok body' → FunBody.Unshadowed { b with body := body' }) :
    liftExprMapVisitor (fun e => liftM (visit e)) def_ fresh = (visit b.body).map fun body' =>
      ({ def_ with body := some (FunBody.close { b with body := body' }) }, s) := by
  cases hvisit : visit b.body with
  | ok body' => exact liftExprMapVisitor_eq hbody hopen (run_liftM_ok hvisit s) (hscoped body' hvisit)
  | error err =>
    refine liftExprMapVisitor_error hbody hopen ?_
    rw [hvisit]
    rfl

theorem sameBody_of_eval {D X : Type} {I : Interp D X} {isCall : FunKey → Bool} {body' : Texpr} (hb : b.WellScoped)
    (hb' : FunBody.Unshadowed { b with body := body' })
    (h : ∀ call env, body'.eval I isCall call env [] = b.body.eval I isCall call env []) :
    SameBody I isCall b.close (FunBody.close { b with body := body' }) := by
  refine ⟨hb'.isClosed, fun _ => rfl, fun call d args => ?_⟩
  rw [hb'.eval_close, hb.eval_close]
  simp only [FunBody.eval, h]

def closedDecl (b : FunBody) : FunDecl where
  defId := 0
  loopId := none
  body := some b.close

theorem closedDecl_body (b : FunBody) : (closedDecl b).body = some b.close := rfl

end

end Aeneas.Pure
