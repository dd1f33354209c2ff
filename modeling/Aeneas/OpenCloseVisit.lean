import Aeneas.OpenClose
import Aeneas.PureScope

/-!
# The visits of the open/close visitors

Visiting a node amounts to visiting its subexpressions one after the other, each
in the scope of its binder group, and rebuilding the node with the results.
-/

namespace Aeneas.Pure

open List

namespace OpenCloseAllVisitor
variable {m : Type → Type} [Monad m] (v : OpenCloseAllVisitor m)

def visitScoped (c : Scoped Texpr) : m (Scoped Texpr) :=
  match c.1 with
  | .none => do
    let e ← c.2.visit v.visitor
    pure (.none, e)
  | .one pat => do
    let r ← v.visitScope1 pat (c.2.visit v.visitor)
    pure (.one r.1, r.2)
  | .many pats => do
    let r ← v.visitScope pats (c.2.visit v.visitor)
    pure (.many r.1, r.2)

variable [LawfulMonad m] {β : Type}

theorem visitBranches_bind : ∀ (branches : List (MatchBranch Texpr)) (k : List (MatchBranch Texpr) → m β),
    ((branches.map (MatchBranch.map (Texpr.visit v.visitor))).mapM (fun b => do
        let r ← v.visitScope1 b.pat b.branch
        pure { pat := r.1, branch := r.2 }) >>= k) =
      ((branches.map fun b => (.one b.pat, b.branch)).mapM v.visitScoped >>= fun cs =>
        k (List.zipWith MatchBranch.rebuild branches cs))
  | [], k => by simp
  | b :: branches, k => by
    simp only [map_cons, mapM_cons, visitScoped, MatchBranch.map, bind_assoc, pure_bind,
      zipWith_cons_cons, MatchBranch.rebuild, visitBranches_bind branches]

theorem visitTexprs_bind : ∀ (l : List Texpr) (k : List Texpr → m β),
    ((l.map (Texpr.visit v.visitor)).mapM id >>= k) =
      ((l.map fun e => (.none, e)).mapM v.visitScoped >>= fun cs => k (cs.map Prod.snd))
  | [], k => by simp
  | e :: l, k => by
    simp only [map_cons, mapM_cons, visitScoped, bind_assoc, pure_bind, id_eq, visitTexprs_bind l]

theorem visitUpdates_bind : ∀ (l : List (FieldId × Texpr)) (k : List (FieldId × Texpr) → m β),
    ((l.map fun u => (u.1, u.2.visit v.visitor)).mapM (fun u => do
        let e ← u.2
        pure (u.1, e)) >>= k) =
      ((l.map fun u => (.none, u.2)).mapM v.visitScoped >>= fun cs => k (List.zipWith (fun u c => (u.1, c.2)) l cs))
  | [], k => by simp
  | u :: l, k => by
    simp only [map_cons, mapM_cons, visitScoped, bind_assoc, pure_bind, zipWith_cons_cons,
      visitUpdates_bind l]

theorem visitAssignments_bind : ∀ (l : List (Texpr × Texpr)) (k : List (Texpr × Texpr) → m β),
    ((l.map fun a => (a.1.visit v.visitor, a.2.visit v.visitor)).mapM (fun a => do
        let x ← a.1
        let value ← a.2
        pure (x, value)) >>= k) =
      ((l.flatMap fun a => [(.none, a.1), (.none, a.2)]).mapM v.visitScoped >>= fun cs => k (pairUp cs))
  | [], k => by simp [pairUp]
  | a :: l, k => by
    simp only [map_cons, flatMap_cons, cons_append, nil_append, mapM_cons, visitScoped,
      bind_assoc, pure_bind, pairUp, visitAssignments_bind l]

theorem visitPlaces_bind : ∀ (l : List (Texpr × String)) (k : List (Texpr × String) → m β),
    ((l.map fun a => (a.1.visit v.visitor, a.2)).mapM (fun a => do
        let x ← a.1
        pure (x, a.2)) >>= k) =
      ((l.map fun a => (.none, a.1)).mapM v.visitScoped >>= fun cs => k (List.zipWith (fun a c => (c.2, a.2)) l cs))
  | [], k => by simp
  | a :: l, k => by
    simp only [map_cons, mapM_cons, visitScoped, bind_assoc, pure_bind, zipWith_cons_cons,
      visitPlaces_bind l]

theorem visitEMeta_bind (mt : EMeta Texpr) (k : EMeta Texpr → m β) :
    (visitEMeta (mt.map (Texpr.visit v.visitor)) >>= k) =
      (mt.children.mapM v.visitScoped >>= fun cs => k (mt.rebuild cs)) := by
  cases mt with
  | assignment dest value origin => simp [visitEMeta, EMeta.map, EMeta.children, EMeta.rebuild, visitScoped]
  | symbolicAssignments l =>
    simp only [visitEMeta, EMeta.map, EMeta.children, EMeta.rebuild, bind_assoc, pure_bind, visitAssignments_bind]
  | symbolicPlaces l =>
    simp only [visitEMeta, EMeta.map, EMeta.children, EMeta.rebuild, bind_assoc, pure_bind, visitPlaces_bind]
  | _ => simp [visitEMeta, EMeta.map, EMeta.children, EMeta.rebuild]

theorem visitSwitchBody_bind (b : SwitchBody Texpr) (k : SwitchBody Texpr → m β) :
    (v.visitSwitchBody (b.map (Texpr.visit v.visitor)) >>= k) =
      (b.children.mapM v.visitScoped >>= fun cs => k (b.rebuild cs)) := by
  cases b with
  | ite thn els => simp [visitSwitchBody, SwitchBody.map, SwitchBody.children, SwitchBody.rebuild, visitScoped]
  | matchE branches =>
    simp only [visitSwitchBody, SwitchBody.map, SwitchBody.children, SwitchBody.rebuild, bind_assoc, pure_bind,
      visitBranches_bind]

theorem visit_node {e : Expr} (h : e.IsNode) :
    e.visit v.visitor = (do
      let cs ← e.children.mapM v.visitScoped
      pure (e.rebuild cs)) := by
  cases e with
  | fvar f => exact absurd rfl (h.1 f)
  | bvar x => exact absurd rfl (h.2 x)
  | app f x | lambda pat inner
  | letE monadic pat bound next => simp [Expr.visit, visitor, Expr.children, Expr.rebuild, visitScoped]
  | switch scrut body =>
    rw [Expr.visit_switch]
    show (do
      let scrut ← scrut.visit v.visitor
      let body ← v.visitSwitchBody (body.map (Texpr.visit v.visitor))
      pure (Expr.switch scrut body)) = _
    simp only [visitSwitchBody_bind, Expr.children, mapM_cons, visitScoped, bind_assoc, pure_bind, Expr.rebuild]
  | loop l =>
    rw [Expr.visit_loop]
    show (do
      let inputs ← (l.inputs.map (Texpr.visit v.visitor)).mapM id
      let r ← v.visitScope l.loopBody.inputs (l.loopBody.loopBody.visit v.visitor)
      pure (Expr.loop { l with inputs, loopBody := { inputs := r.1, loopBody := r.2 } })) = _
    simp only [visitTexprs_bind, Expr.children, Loop.children, mapM_append, mapM_cons, mapM_nil,
      visitScoped, bind_assoc, pure_bind, Expr.rebuild]
    refine mapM_bind_congr fun cs hcs => ?_
    have hlen : l.inputs.length = cs.length := by simpa using hcs.symm
    simp [Loop.rebuild, hlen]
  | structUpdate s =>
    rw [Expr.visit_structUpdate]
    obtain ⟨structId, init, updates⟩ := s
    show (do
      let init ← (init.map (Texpr.visit v.visitor)).mapM id
      let updates ← (updates.map fun (u : FieldId × Texpr) => (u.1, u.2.visit v.visitor)).mapM fun (u :
        FieldId × m Texpr) => do
        let e ← u.2
        pure (u.1, e)
      pure (Expr.structUpdate { structId, init, updates })) = _
    simp only [visitUpdates_bind, Expr.children, StructUpdate.children, Expr.rebuild, mapM_append, bind_assoc]
    cases init with
    | none => simp [StructUpdate.rebuild]
    | some e => simp [StructUpdate.rebuild, visitScoped]
  | emeta mt e =>
    rw [Expr.visit_emeta]
    show (do
      let mt ← visitEMeta (mt.map (Texpr.visit v.visitor))
      let e ← e.visit v.visitor
      pure (Expr.emeta mt e)) = _
    simp only [visitEMeta_bind, Expr.children, mapM_append, mapM_cons, mapM_nil, visitScoped, bind_assoc,
      pure_bind, Expr.rebuild]
    refine mapM_bind_congr fun cs hcs => ?_
    simp [← hcs]
  | _ => simp [Expr.visit, visitor, Expr.children, Expr.rebuild]

end OpenCloseAllVisitor

/-! ## Running a visitor -/

section
variable {σ : Type} {v : OpenCloseAllVisitor (EnvM σ)} {s s₁ s₂ : σ}

variable {p p' : TPat} {ps ps' : List TPat}

theorem visitTPats_cons (hp : v.visitTPat p s = .ok (p', s₁))
    (hps : v.visitTPats ps s₁ = .ok (ps', s₂)) : v.visitTPats (p :: ps) s = .ok (p' :: ps', s₂) := by
  simp only [OpenCloseAllVisitor.visitTPats]
  rw [run_bind hp, run_bind hps, run_pure]

theorem visitTPat_mk {p p' : Pat} (ty : Ty) (hp : v.visitPat p s = .ok (p', s₁)) :
    v.visitTPat (.mk p ty) s = .ok (.mk p' ty, s₁) := by
  simp only [OpenCloseAllVisitor.visitTPat]
  rw [run_bind hp, run_pure]

theorem visitPat_adt (variantId : Option VariantId) (hps : v.visitTPats ps s = .ok (ps', s₁)) :
    v.visitPat (.adt variantId ps) s = .ok (.adt variantId ps', s₁) := by
  simp only [OpenCloseAllVisitor.visitPat]
  rw [run_bind hps, run_pure]

theorem visitTPats_singleton (h : v.visitTPats [p] s = .ok ([p'], s₁)) :
    v.visitTPat p s = .ok (p', s₁) := by
  simp only [OpenCloseAllVisitor.visitTPats, pure_bind] at h
  obtain ⟨q, s₂, hq, h'⟩ := run_bind_eq_ok h
  cases h'
  exact hq

variable {e : Texpr}

theorem visitScope_run {inner : EnvM σ Texpr} {t₁ t₂ t₃ t₄ : σ}
    (h₁ : v.startScope s = .ok ((), t₁)) (h₂ : v.visitTPats ps t₁ = .ok (ps', t₂))
    (h₃ : v.pushScope t₂ = .ok ((), t₃)) (h₄ : inner t₃ = .ok (e, t₄)) (h₅ : v.popScope t₄ = .ok ((), s₁)) :
    v.visitScope ps inner s = .ok ((ps', e), s₁) := by
  simp only [OpenCloseAllVisitor.visitScope]
  rw [run_bind h₁, run_bind h₂, run_bind h₃, run_bind h₄, run_bind h₅, run_pure]

theorem visitScope1_of_visitScope {inner : EnvM σ Texpr}
    (h : v.visitScope [p] inner s = .ok (([p'], e), s₁)) : v.visitScope1 p inner s = .ok ((p', e), s₁) := by
  obtain ⟨_, t₁, h₁, h⟩ := run_bind_eq_ok h
  obtain ⟨ps, t₂, h₂, h⟩ := run_bind_eq_ok h
  obtain ⟨_, t₃, h₃, h⟩ := run_bind_eq_ok h
  obtain ⟨e', t₄, h₄, h⟩ := run_bind_eq_ok h
  obtain ⟨_, t₅, h₅, h⟩ := run_bind_eq_ok h
  cases h
  have hp := visitTPats_singleton h₂
  simp only [OpenCloseAllVisitor.visitScope1]
  rw [run_bind h₁, run_bind hp, run_bind h₃, run_bind h₄, run_bind h₅, run_pure]

theorem visitScoped_run {g g' : Group} {e' : Texpr} (hlike : g.Like g') (hg : g ≠ .none)
    (h : v.visitScope g.pats (e.visit v.visitor) s = .ok ((g'.pats, e'), s₁)) :
    v.visitScoped (g, e) s = .ok ((g', e'), s₁) := by
  cases g with
  | none => exact absurd rfl hg
  | one p =>
    cases g' with
    | one p' => exact run_bind (visitScope1_of_visitScope h) _
    | _ => exact hlike.elim
  | many ps =>
    cases g' with
    | many ps' => exact run_bind h _
    | _ => exact hlike.elim

theorem visit_run_node {e : Expr} (he : e.IsNode) (ty : Ty) {cs : List (Scoped Texpr)}
    (h : e.children.mapM v.visitScoped s = .ok (cs, s₁)) :
    (Texpr.mk e ty).visit v.visitor s = .ok (.mk (e.rebuild cs) ty, s₁) := by
  have hnode : e.visit v.visitor s = .ok (e.rebuild cs, s₁) := by
    rw [v.visit_node he, run_bind h, run_pure]
  rw [Texpr.visit_mk]
  exact run_bind hnode _

end

end Aeneas.Pure
