import Aeneas.FlattenStructUpdatesTyping

/-!
# The projections of the constructors

The visit is meant to replace the projection of a constructor application by the
argument, but it tests the head of the projection and not the one of its argument.
So these projections are kept, the ones of the input as well as the ones which the
other simplifications introduce.
-/

namespace Aeneas.Pure

open List

namespace FlattenStructUpdates

/-! ## The projections which are kept -/

def IsConsApp (e : Texpr) : Prop :=
  (∃ f x, e.e = .app f x) ∧ isAdtCons (destructApps e).1 = true ∧ ∃ id generics, e.ty = .adt id generics

def ProjFree : Expr → Prop
  | .app f x => (projField f).isSome = true → ¬ IsConsApp x
  | _ => True

def Clean (e : Texpr) : Prop := e.AllNodes ProjFree

/-- The projection of a constructor application, or of an update of one which does not update the field. -/
inductive Stuck (f : Texpr) : Texpr → Prop
  | cons {arg : Texpr} (hf : (projField f).isSome = true) (harg : IsConsApp arg) : Stuck f arg
  | base {arg init : Texpr} {fid : FieldId} {s : StructUpdate Texpr} (hf : projField f = some fid) (harg :
    arg.e = .structUpdate s)
    (hu : s.updates.find? (isField fid) = none) (hinit : s.init = some init) (hcons : IsConsApp init) : Stuck f arg

theorem isConsApp_update {e : Texpr} {s : StructUpdate Texpr} (h : e.e = .structUpdate s) : ¬ IsConsApp e := by
  rintro ⟨⟨f, x, hx⟩, -⟩
  cases h.symm.trans hx

theorem clean_app {f x : Texpr} {ty : Ty} : Clean (.mk (.app f x) ty) ↔
    ((projField f).isSome = true → ¬ IsConsApp x) ∧ Clean f ∧ Clean x := by
  refine Texpr.allNodes_mk.trans (and_congr_right fun _ => ?_)
  simp [Expr.children, Clean]

theorem clean_update {s : StructUpdate Texpr} {ty : Ty} : Clean (.mk (.structUpdate s) ty) ↔
    (∀ x, s.init = some x → Clean x) ∧ ∀ u ∈ s.updates, Clean u.2 := by
  refine Texpr.allNodes_mk.trans ((and_iff_right trivial).trans ?_)
  simp only [Expr.children, StructUpdate.children, forall_mem_append, forall_mem_map, Option.mem_toList]
  exact Iff.rfl

theorem Reduced.clean_iff {f arg : Texpr} {e : Expr} (h : Reduced f arg e) (hf : Clean f) (harg : Clean arg) (ty : Ty) :
    Clean (.mk e ty) ↔ ¬ Stuck f arg := by
  obtain ⟨arg, aty⟩ := arg
  cases h with
  | app hproj =>
    rw [clean_app]
    constructor
    · rintro ⟨hfree, -⟩ hstuck
      cases hstuck with
      | cons hf harg => exact hfree hf harg
      | base hf harg => exact hproj (by rw [hf]; rfl) ⟨_, harg⟩
    · intro hstuck
      exact ⟨fun hf hcons => hstuck (.cons hf hcons), hf, harg⟩
  | @field fid s u hproj heq hu =>
    obtain rfl : arg = .structUpdate s := heq
    have hfield := (clean_update.mp harg).2 u (mem_of_find?_eq_some hu)
    rw [← u.2.mk_e_ty] at hfield
    refine iff_of_true (Texpr.allNodes_retype ty hfield) fun hstuck => ?_
    cases hstuck with
    | cons _ hcons => exact isConsApp_update rfl hcons
    | base hf harg hnone =>
      cases harg
      obtain rfl := Option.some.inj (hproj.symm.trans hf)
      cases hu.symm.trans hnone
  | @base fid s init hproj heq hu hinit =>
    obtain rfl : arg = .structUpdate s := heq
    have hbase := (clean_update.mp harg).1 init hinit
    rw [clean_app]
    constructor
    · rintro ⟨hfree, -⟩ hstuck
      cases hstuck with
      | cons _ hcons => exact isConsApp_update rfl hcons
      | base hf harg hnone hinit' hcons =>
        cases harg
        obtain rfl := Option.some.inj (hinit.symm.trans hinit')
        exact hfree (by rw [hproj]; rfl) hcons
    · intro hstuck
      exact ⟨fun _ hcons => hstuck (.base hproj rfl hu hinit hcons), hf, hbase⟩

/-! ## Runs -/

section
variable {cfg : FuelConfig}

variable (cfg) in
/-- The visit of an expression meets the application of `f` to `arg`, after their visits. -/
inductive Meets : Nat → Texpr → Texpr → Texpr → Prop
  | here {n : Nat} {f arg f' arg' : Texpr} {ty : Ty} (hf : onTexpr (visitExpr cfg n) f = .ok f')
    (harg : onTexpr (visitExpr cfg n) arg = .ok arg') : Meets (n + 1) (.mk (.app f arg) ty) f' arg'
  | child {n : Nat} {e : Expr} {ty : Ty} {c : Scoped Texpr} {f arg : Texpr} (hc : c ∈ e.children) (h :
    Meets n c.2 f arg) :
    Meets (n + 1) (.mk e ty) f arg

theorem projFree_rebuild {e : Expr} {cs : List (Scoped Texpr)} (happ : ∀ f x, e ≠ .app f x) :
    ProjFree (e.rebuild cs) := by
  have hidx := e.rebuild_ctorIdx cs
  cases hr : e.rebuild cs with
  | app f x =>
    rw [hr] at hidx
    cases e with
    | app g y => exact absurd rfl (happ g y)
    | _ => cases hidx
  | _ => trivial

theorem VisitedUpdates.clean {n : Nat} {us us' : List (FieldId × Texpr)}
    (h : VisitedUpdates (onTexpr (visitExpr cfg n)) us us')
    (hus : ∀ u ∈ us, ∀ {x}, onTexpr (visitExpr cfg n) u.2 = .ok x → Clean x) :
    ∀ u ∈ us', Clean u.2 := by
  intro u' hu'
  obtain ⟨u, hu, -, hv⟩ := exists_of_forall₂ h hu'
  exact hus u hu hv

theorem visit_clean : ∀ {n : Nat} {x x' : Texpr}, onTexpr (visitExpr cfg n) x = .ok x' →
    (∀ f arg, Meets cfg n x f arg → ¬ Stuck f arg) → Clean x'
  | 0, x, x', h, _ => by cases h
  | n + 1, .mk e ty, x', h, hmeets => by
    obtain ⟨e', he', h⟩ := bind_eq_ok.mp h
    obtain rfl := Except.ok.inj h
    change visitExpr cfg (n + 1) e = .ok e' at he'
    change Clean (.mk e' ty)
    have ih : ∀ c ∈ e.children, ∀ {x}, onTexpr (visitExpr cfg n) c.2 = .ok x → Clean x := fun c hc _ hx =>
      visit_clean hx fun f arg hmeet => hmeets f arg (.child hc hmeet)
    cases visitExpr_visited he' with
    | node happ hupdate hcs =>
      have hfits : Fits e.children _ := hcs.imp fun c c' hc => hc.1 ▸ c.1.like_refl
      refine Texpr.allNodes_mk.mpr ⟨projFree_rebuild happ, ?_⟩
      rw [(Expr.children_rebuild hfits hfits).1]
      intro c' hc'
      obtain ⟨c, hc, -, hv⟩ := exists_of_forall₂ hcs hc'
      exact ih c hc hv
    | @app f arg f' arg' _ hf harg hreduced =>
      have hfC := ih (.none, f) (by simp [Expr.children]) hf
      have hargC := ih (.none, arg) (by simp [Expr.children]) harg
      exact (hreduced.clean_iff hfC hargC ty).mpr (hmeets _ _ (.here hf harg))
    | @update structId init init' us us' hinit hus hbase =>
      refine clean_update.mpr ⟨fun x hx => ?_, hus.clean fun u hu => ?_⟩
      · obtain rfl := Option.some.inj hx
        exact ih (.none, init) (mem_append_left _ (mem_singleton_self _)) hinit
      · exact ih (.none, u.2) (mem_append_right _ (mem_map.mpr ⟨u, hu, rfl⟩))
    | @flatten structId init base bty us us' vs vs' hinit hus hvs =>
      have hinit' := ih (.none, init) (mem_append_left _ (mem_singleton_self _)) hinit
      have husC := hus.clean fun u hu => ih (.none, u.2) (mem_append_right _ (mem_map.mpr ⟨u, hu, rfl⟩))
      obtain ⟨hbase, hvsC⟩ := clean_update.mp hinit'
      refine clean_update.mpr ⟨hbase, forall_mem_append.mpr ⟨hvs.clean fun u hu x hx => ?_, husC⟩⟩
      -- the second visit of the updates of the base does not change them
      have hnormal := (normal_update.mp (visit_normal hinit)).2 u (mem_of_mem_filter hu)
      rw [visit_eq hx hnormal]
      exact hvsC u (mem_of_mem_filter hu)

end

/-- The projections of constructors are not reduced: one is left by an application exactly if the projection is stuck,
and none is left by the pass if none which it meets is stuck. The converse does not hold for the pass: an update may
drop a field which has a stuck projection. -/
theorem flattenStructUpdates_projections_iff (cfg : FuelConfig) :
    (∀ {f arg : Texpr} {e : Expr} (ty : Ty), Clean f → Clean arg → visitApp cfg f arg = .ok e →
      (Clean (.mk e ty) ↔ ¬ Stuck f arg)) ∧
    ∀ {def_ def' : FunDecl} {fbody b : FunBody} {fvars : IdMap FVarId FVar} {fresh s s' : FVarId} {depth : Nat},
      def_.body = some fbody → fbody.IsClosed (fun _ => false) → openAllFunBody fresh fbody = .ok ((fvars, b), s) →
      flattenStructUpdates cfg depth def_ fresh = .ok (def', s') →
      (∀ f arg, Meets cfg depth b.body f arg → ¬ Stuck f arg) →
      ∃ body', def'.body = some (FunBody.close { b with body := body' }) ∧ Clean body' := by
  refine ⟨fun ty hf harg h => (visitApp_reduced h).clean_iff hf harg ty, ?_⟩
  intro def_ def' fbody b fvars fresh s s' depth hbody hclosed hopen hrun hmeets
  rw [flattenStructUpdates_eq cfg hbody hclosed hopen] at hrun
  cases hvisit : onTexpr (visitExpr cfg depth) b.body with
  | error err => rw [hvisit] at hrun; cases hrun
  | ok body' =>
    rw [hvisit] at hrun
    cases hrun
    exact ⟨body', rfl, visit_clean hvisit hmeets⟩

theorem meets_leaf {cfg : FuelConfig} {n : Nat} {e : Expr} {ty : Ty} {f arg : Texpr} (he : e.children = []) :
    ¬ Meets cfg n (.mk e ty) f arg := by
  intro h
  cases h with
  | here => cases he
  | child hc => rw [he] at hc; cases hc

theorem meets_pairUpdate {cfg : FuelConfig} {n : Nat} {x f arg : Texpr} {fid : FieldId}
    (hx : ∀ n, ¬ Meets cfg n x f arg) :
    ¬ Meets cfg n (pairUpdate x fid mkTrue) f arg := by
  intro h
  cases h with
  | child hc h =>
    rcases mem_cons.mp hc with rfl | hc
    · exact hx _ h
    · obtain rfl := mem_singleton.mp hc
      exact meets_leaf rfl h

theorem flattenStructUpdates_projections_iff_updated : ∃ def' body',
    flattenStructUpdates leanConfig 10 (closedDecl updatedBody) 0 = .ok (def', 1) ∧
    def'.body = some (FunBody.close { updatedBody with body := body' }) ∧ Clean body' := by
  have hscoped : updatedBody.WellScoped := ⟨rfl, ⟨rfl, rfl⟩, by decide⟩
  obtain ⟨fvars, hopen⟩ : ∃ fvars, openAllFunBody 0 updatedBody.close = .ok ((fvars, updatedBody), 0 + 1) :=
    hscoped.open_close rfl
  have hvisit : onTexpr (visitExpr leanConfig 10) updatedBody.body = .ok mkTrue := rfl
  have hrun := flattenStructUpdates_eq leanConfig (closedDecl_body _) hscoped.isClosed hopen 10
  rw [hvisit] at hrun
  -- the only projection is the one of the flattened update, which has the field
  have hfree : ∀ f arg, Meets leanConfig 10 updatedBody.body f arg → ¬ Stuck f arg := by
    intro f arg hmeets hstuck
    cases hmeets with
    | here hf harg =>
      cases hf
      cases harg
      cases hstuck with
      | cons _ hcons => exact isConsApp_update rfl hcons
      | base hproj heq hnone =>
        cases hproj
        cases heq
        cases hnone
    | child hc hmeets =>
      rcases mem_cons.mp hc with rfl | hc
      · exact meets_leaf rfl hmeets
      · obtain rfl := mem_singleton.mp hc
        exact meets_pairUpdate (fun _ => meets_pairUpdate fun _ => meets_leaf rfl) hmeets
  obtain ⟨-, hclean⟩ := flattenStructUpdates_projections_iff leanConfig
  obtain ⟨body', hbody', hcleanBody⟩ := hclean (closedDecl_body _) hscoped.isClosed hopen hrun hfree
  exact ⟨_, body', hrun, hbody', hcleanBody⟩

/-! ## A constructor -/

def mkPair (x y : Texpr) : Texpr :=
  .mk (.app
    (.mk (.app (.mk (.qualif { id := .adtCons { adtId := .adtId 0, variantId := none }, generics := emptyGenericArgs })
    (.arrow mkBoolTy (.arrow mkBoolTy pairTy))) x) (.arrow mkBoolTy pairTy)) y) pairTy

/-- `fun x0 => (Pair true true).0` -/
def consBody : FunBody where
  inputs := updatedBody.inputs
  body := pairProj 0 (mkPair mkTrue mkTrue)

/-- The projection is kept. -/
theorem flattenStructUpdates_keeps_projection :
    consBody.close.IsClosed (fun _ => false) ∧ Regular pairCtx consBody.body ∧
    flattenStructUpdates leanConfig 10 (closedDecl consBody) 0 = .ok (closedDecl consBody, 1) ∧
    IsConsApp (mkPair mkTrue mkTrue) ∧ ¬ Clean consBody.body := by
  have hscoped : consBody.WellScoped := ⟨rfl, ⟨rfl, rfl⟩, by decide⟩
  obtain ⟨fvars, hopen⟩ : ∃ fvars, openAllFunBody 0 consBody.close = .ok ((fvars, consBody), 0 + 1) :=
    hscoped.open_close rfl
  have hvisit : onTexpr (visitExpr leanConfig 10) consBody.body = .ok consBody.body := rfl
  have hcons : IsConsApp (mkPair mkTrue mkTrue) := ⟨⟨_, _, rfl⟩, rfl, _, _, rfl⟩
  refine ⟨hscoped.isClosed, ?_, ?_, hcons, fun hclean => (clean_app.mp hclean).1 rfl hcons⟩
  · have htrue : Regular pairCtx mkTrue := regular_mk mkTrue_typed nofun nofun
    have hpair : Regular pairCtx (mkPair mkTrue mkTrue) := by
      refine regular_app.mpr ⟨rfl, regular_app.mpr ⟨rfl, ?_, htrue⟩, htrue⟩
      exact regular_mk (.mk ⟨[mkBoolTy, mkBoolTy], rfl, rfl⟩ nofun nofun) nofun nofun
    exact regular_app.mpr ⟨rfl, regular_mk (.mk ⟨_, mkBoolTy, rfl, rfl, rfl⟩ nofun nofun) nofun nofun, hpair⟩
  · rw [flattenStructUpdates_eq leanConfig (closedDecl_body _) hscoped.isClosed hopen, hvisit]
    rfl

end FlattenStructUpdates

end Aeneas.Pure
