import Aeneas.SimplifyLetBindingsScope

/-!
# Identity functions in the let-bindings

The visit records the parameter of an identity function, not the variable the
function is bound to. The parameter is out of scope in the rest of the body, so no
application is simplified: an application of a variable bound to an identity
function is in the result exactly when the visit meets one.
-/

namespace Aeneas.Pure

namespace SimplifyLetBindings

/-! ## What the visit meets -/

def Kept (e : Expr) :
    Prop := ∀ monadic lv rv next, e = .letE monadic lv rv next → rewriteLet monadic lv rv next = .ok none

inductive Meets (d : Texpr) : Texpr → Prop
  | here (h : Kept d.e) : Meets d d
  | child {e : Expr} {ty : Ty} {c : Scoped Texpr} (h : Kept e) (hc : c ∈ e.children) (hd : Meets d c.2) :
    Meets d (.mk e ty)
  | rewrite {monadic : Bool} {lv : TPat} {rv next : Texpr} {e : Expr} {ty : Ty}
    (h : rewriteLet monadic lv rv next = .ok (some e)) (hd : Meets d (.mk e ty)) :
    Meets d (.mk (.letE monadic lv rv next) ty)

def IsAppOf (f : FVarId) (d : Texpr) : Prop := ∃ x ty ty', d = .mk (.app (.mk (.fvar f) ty') x) ty

section
variable (In : Texpr → Texpr → Prop)

def Applies (f : FVarId) (e : Texpr) : Prop := ∃ d, In d e ∧ IsAppOf f d

/-- The variable is bound to an identity function and applied in its scope. -/
def AppliesIdentity (e : Expr) : Prop :=
  ∃ monadic v mp pty rv next, e = .letE monadic (.mk (.opened v mp) pty) rv next ∧ (identityVar rv).isSome = true ∧
    Applies In v.id next

/-- No application of a variable is in the scope of a let-binding which binds it to an identity function. -/
def IdentitiesUnapplied (e : Texpr) : Prop := ∀ d, In d e → ¬ AppliesIdentity In d.e

end

section
variable {e : Expr} {ty : Ty} {cs : List (Scoped Texpr)} {d : Texpr}

theorem meets_kept (hkept : Kept e) : Meets d (.mk e ty) ↔ d = .mk e ty ∨ ∃ c ∈ e.children, Meets d c.2 := by
  constructor
  · intro h
    cases h with
    | here => exact .inl rfl
    | child _ hc h => exact .inr ⟨_, hc, h⟩
    | rewrite h => cases (hkept _ _ _ _ rfl).symm.trans h
  · rintro (rfl | ⟨c, hc, h⟩)
    · exact .here hkept
    · exact .child hkept hc h

theorem meets_rewrite {monadic : Bool} {lv : TPat} {rv next : Texpr}
    (h : rewriteLet monadic lv rv next = .ok (some e)) :
    Meets d (.mk (.letE monadic lv rv next) ty) ↔ Meets d (.mk e ty) := by
  constructor
  · intro hd
    cases hd with
    | here hkept | child hkept => cases (hkept _ _ _ _ rfl).symm.trans h
    | rewrite h' hd =>
      cases h.symm.trans h'
      exact hd
  · exact .rewrite h

section
variable {In : Texpr → Texpr → Prop} (hIn : ∀ d, In d (.mk e ty) ↔ d = .mk e ty ∨ ∃ c ∈ e.children, In d c.2)
include hIn

theorem applies_mk {f : FVarId} :
    Applies In f (.mk e ty) ↔ IsAppOf f (.mk e ty) ∨ ∃ c ∈ e.children, Applies In f c.2 := by
  constructor
  · rintro ⟨d, hd, hf⟩
    rcases (hIn d).mp hd with rfl | ⟨c, hc, hd⟩
    · exact .inl hf
    · exact .inr ⟨c, hc, d, hd, hf⟩
  · rintro (hf | ⟨c, hc, d, hd, hf⟩)
    · exact ⟨_, (hIn _).mpr (.inl rfl), hf⟩
    · exact ⟨d, (hIn d).mpr (.inr ⟨c, hc, hd⟩), hf⟩

theorem identitiesUnapplied_mk : IdentitiesUnapplied In (.mk e ty) ↔
    ¬ (AppliesIdentity In e ∨ ∃ c ∈ e.children, ¬ IdentitiesUnapplied In c.2) := by
  constructor
  · rintro h (hself | ⟨c, hc, hchild⟩)
    · exact h _ ((hIn _).mpr (.inl rfl)) hself
    · exact hchild fun d hd => h d ((hIn d).mpr (.inr ⟨c, hc, hd⟩))
  · intro h d hd hself
    rcases (hIn d).mp hd with rfl | ⟨c, hc, hd⟩
    · exact h (.inl hself)
    · exact h (.inr ⟨c, hc, fun hchild => hchild d hd hself⟩)

end

structure Traced (e e' : Texpr) : Prop where
  fvar : ∀ f, e'.e = .fvar f ↔ e.e = .fvar f
  identity : (identityVar e').isSome = (identityVar e).isSome
  applies : ∀ f, Applies Texpr.Within f e' ↔ Applies Meets f e
  unapplied : IdentitiesUnapplied Texpr.Within e' ↔ IdentitiesUnapplied Meets e

theorem identityVar_isSome {rv : Texpr} : (identityVar rv).isSome = true ↔
    ∃ fv mp pty inner, rv.e = .lambda (.mk (.opened fv mp) pty) inner ∧ inner.e = .fvar fv.id := by
  constructor
  · intro h
    obtain ⟨fid, hfid⟩ := Option.isSome_iff_exists.mp h
    obtain ⟨fv, mp, pty, bty, rty, rfl, rfl⟩ := identityVar_eq_some hfid
    exact ⟨fv, mp, pty, _, rfl, rfl⟩
  · rintro ⟨fv, mp, pty, inner, hrv, hinner⟩
    obtain ⟨inner, ity⟩ := inner
    obtain rfl : inner = .fvar fv.id := hinner
    unfold identityVar
    rw [hrv]
    exact (congrArg Option.isSome (if_pos rfl)).trans rfl

theorem exists_mem_forall₂ {α β : Type} {R : α → β → Prop} {P : β → Prop} {Q : α → Prop} {l : List α} {l' : List β}
    (h : List.Forall₂ R l l') (hR : ∀ a b, R a b → (P b ↔ Q a)) : (∃ b ∈ l', P b) ↔ ∃ a ∈ l, Q a := by
  induction h with
  | nil => simp
  | cons hab _ ih => rw [List.exists_mem_cons_iff, List.exists_mem_cons_iff, hR _ _ hab, ih]

theorem rebuild_eq_fvar {f : FVarId} : e.rebuild cs = .fvar f ↔ e = .fvar f := by
  constructor
  · intro h
    have hidx := Expr.rebuild_ctorIdx e cs
    rw [h] at hidx
    cases e with
    | fvar g => exact h
    | _ => cases hidx
  · intro h
    subst h
    rfl

variable (hfits : List.Forall₂ (fun c c' : Scoped Texpr => c'.1 = c.1 ∧ Traced c.2 c'.2) e.children cs)
include hfits

theorem identityVar_rebuild : (identityVar (.mk (e.rebuild cs) ty)).isSome = (identityVar (.mk e ty)).isSome := by
  rw [Bool.eq_iff_iff, identityVar_isSome, identityVar_isSome]
  have hidx := Expr.rebuild_ctorIdx e cs
  cases e with
  | lambda pat inner =>
    obtain ⟨c, _, ⟨hc, htraced⟩, hnil, rfl⟩ := List.forall₂_cons_left_iff.mp hfits
    obtain rfl := List.forall₂_nil_left_iff.mp hnil
    obtain ⟨g, inner'⟩ := c
    obtain rfl : g = .one pat := hc
    constructor
    · rintro ⟨fv, mp, pty, x, hlambda, hx⟩
      cases hlambda
      exact ⟨fv, mp, pty, inner, rfl, (htraced.fvar _).mp hx⟩
    · rintro ⟨fv, mp, pty, x, hlambda, hx⟩
      cases hlambda
      exact ⟨fv, mp, pty, inner', rfl, (htraced.fvar _).mpr hx⟩
  | _ =>
    constructor
    · rintro ⟨fv, mp, pty, x, hlambda, -⟩
      cases hidx.symm.trans (congrArg Expr.ctorIdx hlambda)
    · rintro ⟨fv, mp, pty, x, hlambda, -⟩
      cases hlambda

theorem isAppOf_rebuild {f : FVarId} : IsAppOf f (.mk (e.rebuild cs) ty) ↔ IsAppOf f (.mk e ty) := by
  have hidx := Expr.rebuild_ctorIdx e cs
  cases e with
  | app g x =>
    obtain ⟨c, _, ⟨-, htraced⟩, hrest, rfl⟩ := List.forall₂_cons_left_iff.mp hfits
    obtain ⟨c₂, _, -, hnil, rfl⟩ := List.forall₂_cons_left_iff.mp hrest
    obtain rfl := List.forall₂_nil_left_iff.mp hnil
    obtain ⟨k, g', gty'⟩ := c
    obtain ⟨g, gty⟩ := g
    have hg : g' = .fvar f ↔ g = .fvar f := htraced.fvar f
    constructor
    · rintro ⟨y, ty₁, ty₂, h⟩
      cases h
      obtain rfl := hg.mp rfl
      exact ⟨x, ty, gty, rfl⟩
    · rintro ⟨y, ty₁, ty₂, h⟩
      cases h
      obtain rfl := hg.mpr rfl
      exact ⟨c₂.2, ty, gty', rfl⟩
  | _ =>
    constructor
    · rintro ⟨y, ty₁, ty₂, h⟩
      cases hidx.symm.trans (congrArg (fun d => d.e.ctorIdx) h)
    · rintro ⟨y, ty₁, ty₂, h⟩
      cases h

theorem appliesIdentity_rebuild : AppliesIdentity Texpr.Within (e.rebuild cs) ↔ AppliesIdentity Meets e := by
  have hidx := Expr.rebuild_ctorIdx e cs
  cases e with
  | letE monadic lv rv next =>
    obtain ⟨c, _, ⟨-, hrv⟩, hrest, rfl⟩ := List.forall₂_cons_left_iff.mp hfits
    obtain ⟨c₂, _, ⟨hc₂, hnext⟩, hnil, rfl⟩ := List.forall₂_cons_left_iff.mp hrest
    obtain rfl := List.forall₂_nil_left_iff.mp hnil
    obtain ⟨g, next'⟩ := c₂
    obtain rfl : g = .one lv := hc₂
    constructor
    · rintro ⟨m, v, mp, pty, rv₁, next₁, h, hid, happlies⟩
      cases h
      exact ⟨_, v, mp, pty, rv, next, rfl, hrv.identity ▸ hid, (hnext.applies v.id).mp happlies⟩
    · rintro ⟨m, v, mp, pty, rv₁, next₁, h, hid, happlies⟩
      cases h
      exact ⟨_, v, mp, pty, c.2, next', rfl, hrv.identity.symm ▸ hid, (hnext.applies v.id).mpr happlies⟩
  | _ =>
    constructor
    · rintro ⟨m, v, mp, pty, rv₁, next₁, h, -⟩
      cases hidx.symm.trans (congrArg Expr.ctorIdx h)
    · rintro ⟨m, v, mp, pty, rv₁, next₁, h, -⟩
      cases h

theorem traced_node (hkept : Kept e) : Traced (.mk e ty) (.mk (e.rebuild cs) ty) := by
  have hlike : Fits e.children cs := hfits.imp fun c c' hc => hc.1 ▸ c.1.like_refl
  obtain ⟨hchildren, -⟩ := Expr.children_rebuild hlike hlike
  refine ⟨fun f => rebuild_eq_fvar, identityVar_rebuild hfits, fun f => ?_, ?_⟩
  · rw [applies_mk fun d => Texpr.within_mk, applies_mk fun d => meets_kept hkept, hchildren, isAppOf_rebuild hfits,
      exists_mem_forall₂ hfits fun c c' hc => hc.2.applies f]
  · rw [identitiesUnapplied_mk fun d => Texpr.within_mk, identitiesUnapplied_mk fun d => meets_kept hkept, hchildren,
      appliesIdentity_rebuild hfits, exists_mem_forall₂ hfits fun c c' hc => not_congr hc.2.unapplied]

end

/-! ## The visit -/

section
variable {env : IdSet FVarId} {ctx : Ctx}

theorem Rewrites.ctorIdx {monadic : Bool} {lv : TPat} {rv next : Texpr} {e : Expr} (h : Rewrites next monadic lv rv e) :
    (∃ m p x y, e = .letE m p x y) ∨ ∃ f x, e = .app f x := by
  cases h with
  | flatten | ok => exact .inl ⟨_, _, _, _, rfl⟩
  | fail => exact .inr ⟨_, _, rfl⟩
  | @tuple pats pty q fty vals _ hq hrv hne hlen =>
    cases vals with
    | nil => exact absurd rfl hne
    | cons v vals =>
      cases pats with
      | nil => cases hlen
      | cons p pats => exact .inl ⟨_, _, _, _, rfl⟩

theorem traced_rewrite {monadic : Bool} {lv : TPat} {rv next : Texpr} {e : Expr} {ty : Ty} {e' : Texpr}
    (h : rewriteLet monadic lv rv next = .ok (some e)) (htraced : Traced (.mk e ty) e') :
    Traced (.mk (.letE monadic lv rv next) ty) e' := by
  have hshape := (rewriteLet_cases h).ctorIdx
  refine ⟨fun f => ?_, htraced.identity.trans ?_, fun f => (htraced.applies f).trans ?_, htraced.unapplied.trans ?_⟩
  · rw [htraced.fvar f]
    rcases hshape with ⟨_, _, _, _, rfl⟩ | ⟨_, _, rfl⟩ <;> simp [Texpr.e]
  · rcases hshape with ⟨_, _, _, _, rfl⟩ | ⟨_, _, rfl⟩ <;> rfl
  · exact exists_congr fun d => and_congr_left fun _ => (meets_rewrite h).symm
  · exact forall_congr' fun d => imp_congr_left (meets_rewrite h).symm

theorem traced_identity {rv : Texpr} {fid : FVarId} (h : identityVar rv = some fid) : Traced rv rv := by
  obtain ⟨fv, mp, pty, bty, rty, rfl, rfl⟩ := identityVar_eq_some h
  have hvar : Traced (.mk (.fvar fv.id) bty) (.mk (.fvar fv.id) bty) := traced_node .nil fun _ _ _ _ heq => by cases heq
  exact traced_node (e := .lambda _ _) (.cons (b := (.one _, _)) ⟨rfl, hvar⟩ .nil) fun _ _ _ _ heq => by cases heq

theorem visitExpr_traced : ∀ {n : Nat} {env : IdSet FVarId} {ctx : Ctx} {e e' : Expr} {ty : Ty},
    visitExpr n env e = .ok e' → Visitable env ctx (.mk e ty) → Traced (.mk e ty) (.mk e' ty)
  | 0, _, _, _, _, _, h, _ => by cases h
  | n + 1, env, ctx, e, e', ty, h, hvisitable => by
    have hchild : ∀ {env' : IdSet FVarId} {g : Group} {x x' : Texpr}, onTexpr (visitExpr n env') x = .ok x' →
        Visitable env' (g.under Ctx.push ctx) x → Traced x x' := by
      intro env' g x x' hx hvisitable
      obtain ⟨x, xty⟩ := x
      obtain ⟨y, hy, hx⟩ := bind_eq_ok.mp hx
      obtain rfl := Except.ok.inj hx
      exact visitExpr_traced hy hvisitable
    have hnode : Kept e → mapChildren (onTexpr (visitExpr n env)) e = .ok e' → Traced (.mk e ty) (.mk e' ty) := by
      intro hkept hmap
      obtain ⟨cs, rfl, hcs⟩ := mapChildren_ok hmap
      have hcs' := (List.forall₂_and_left _ _).mpr ⟨fun c hc => hvisitable.child hc, hcs⟩
      exact traced_node (hcs'.imp fun c c' hc => ⟨hc.2.1, hchild hc.2.2 hc.1⟩) hkept
    cases e with
    | letE monadic lv rv next =>
      obtain ⟨r, hr, h⟩ := bind_eq_ok.mp (show visitLet (visitExpr n) env monadic lv rv next = .ok e' from h)
      cases r with
      | some e₁ =>
        have hkeeps := (rewriteLet_cases hr).keeps hvisitable.opened ty
        exact traced_rewrite hr (visitExpr_traced h (hvisitable.of_keeps hkeeps))
      | none =>
        have hkept : Kept (.letE monadic lv rv next) := by
          intro m p x y heq
          cases heq
          exact hr
        cases hid : identityVar rv with
        | none =>
          rw [hid] at h
          exact hnode hkept h
        | some fid =>
          rw [hid] at h
          obtain ⟨x, hx, h⟩ := bind_eq_ok.mp h
          obtain rfl := Except.ok.inj h
          have hnext : Traced next x := hchild (g := .one lv) hx (hvisitable.next_of_identity hid)
          exact traced_node (.cons (b := (.none, rv)) ⟨rfl, traced_identity hid⟩
            (.cons (b := (.one lv, x)) ⟨rfl, hnext⟩ .nil)) hkept
    | app f arg =>
      change visitApp (visitExpr n) env f arg = .ok e' at h
      rw [visitApp, if_neg hvisitable.not_isIdentity] at h
      exact hnode (fun _ _ _ _ heq => by cases heq) h
    | _ => exact hnode (fun _ _ _ _ heq => by cases heq) h

end

/-! ## Function bodies -/

/-- No application of an identity function is left exactly when the visit meets none. -/
theorem simplifyLetBindings_identities_iff {def_ def' : FunDecl} {fbody b : FunBody} {fvars : IdMap FVarId FVar}
    {fresh s s' : FVarId} {depth : Nat} (hbody : def_.body = some fbody) (hclosed : fbody.IsClosed fun _ => false)
    (hopen : openAllFunBody fresh fbody = .ok ((fvars, b), s))
    (hrun : simplifyLetBindings depth def_ fresh = .ok (def', s')) :
    ∃ body' fbody', closeAllFunBody { b with body := body' } = .ok fbody' ∧ def' = { def_ with body := some fbody' } ∧
      (IdentitiesUnapplied Texpr.Within body' ↔ IdentitiesUnapplied Meets b.body) := by
  obtain ⟨-, hb⟩ := openAllFunBody_wellScoped hclosed hopen
  obtain ⟨body', fbody', hvisit, hclose, rfl⟩ := liftExprMapVisitor_ok hbody hopen hrun
  obtain ⟨e', he', hvisit⟩ := bind_eq_ok.mp (run_liftM hvisit).1
  obtain rfl := Except.ok.inj hvisit
  have htraced := visitExpr_traced he' ((Texpr.mk_e_ty b.body).symm ▸ visitable_body hb)
  rw [Texpr.mk_e_ty] at htraced
  exact ⟨_, fbody', hclose, rfl, htraced.unapplied⟩

/-- `fun x0 => let x2 = fun x1 => x1 in next` -/
def identityBody (next : Texpr) : FunBody where
  inputs := [boolPat 0]
  body :=
    let ty := Ty.arrow mkBoolTy mkBoolTy
    .mk (.letE false (.mk (.opened { id := 2, basename := none, ty } none) ty)
      (.mk (.lambda (boolPat 1) (boolVar 1)) ty) next)
      mkBoolTy

/-- `x2 x0` -/
def identityCall : Texpr := .mk (.app (.mk (.fvar 2) (.arrow mkBoolTy mkBoolTy)) (boolVar 0)) mkBoolTy

theorem identitiesUnapplied_leaf {e : Expr} {ty : Ty} (h : e.children = []) : IdentitiesUnapplied Meets (.mk e ty) := by
  have hkept : Kept e := by
    intro m p x y heq
    subst heq
    cases h
  refine (identitiesUnapplied_mk fun d => meets_kept hkept).mpr ?_
  rintro (⟨m, v, mp, pty, rv, next, rfl, -⟩ | ⟨c, hc, -⟩)
  · cases h
  · rw [h] at hc
    cases hc

theorem identityBody_unapplied : IdentitiesUnapplied Meets (identityBody (boolVar 0)).body := by
  have hlambda : IdentitiesUnapplied Meets (.mk (.lambda (boolPat 1) (boolVar 1)) (.arrow mkBoolTy mkBoolTy)) := by
    refine (identitiesUnapplied_mk fun d => meets_kept fun _ _ _ _ heq => by cases heq).mpr ?_
    rintro (⟨m, v, mp, pty, rv, next, heq, -⟩ | ⟨c, hc, hchild⟩)
    · cases heq
    · obtain rfl := List.mem_singleton.mp hc
      exact hchild (identitiesUnapplied_leaf rfl)
  have hkept : Kept (identityBody (boolVar 0)).body.e := by
    intro m p x y heq
    cases heq
    rfl
  refine (identitiesUnapplied_mk fun d => meets_kept hkept).mpr ?_
  rintro (⟨m, v, mp, pty, rv, next, heq, -, d, hd, x, ty, ty', hd'⟩ | ⟨c, hc, hchild⟩)
  · cases heq
    subst hd'
    cases hd with
    | child _ hc _ => cases hc
  · rcases List.mem_pair.mp hc with rfl | rfl
    · exact hchild hlambda
    · exact hchild (identitiesUnapplied_leaf rfl)

theorem simplifyLetBindings_identities_iff_unapplied : ∃ def' s' body' fbody',
    simplifyLetBindings 10 (closedDecl (identityBody (boolVar 0))) 0 = .ok (def', s') ∧ def'.body = some fbody' ∧
      closeAllFunBody { identityBody (boolVar 0) with body := body' } = .ok fbody' ∧
      IdentitiesUnapplied Texpr.Within body' := by
  have hscoped : (identityBody (boolVar 0)).WellScoped := ⟨rfl, ⟨rfl, rfl⟩, by decide⟩
  obtain ⟨fvars, hopen⟩ : ∃ fvars, openAllFunBody 0 (identityBody (boolVar 0)).close =
      .ok ((fvars, identityBody (boolVar 0)), 0 + 3) := hscoped.open_close rfl
  have hvisit : onTexpr (visitExpr 10 ∅) (identityBody (boolVar 0)).body = .ok (identityBody (boolVar 0)).body := rfl
  have hrun : simplifyLetBindings 10 (closedDecl (identityBody (boolVar 0))) 0 =
    .ok (closedDecl (identityBody (boolVar 0)), 3) :=
    liftExprMapVisitor_eq (closedDecl_body _) hopen (run_liftM_ok hvisit _) hscoped.unshadowed
  obtain ⟨body', fbody', hclose, hdef, hiff⟩ :=
    simplifyLetBindings_identities_iff (closedDecl_body _) hscoped.isClosed hopen hrun
  exact ⟨_, _, body', fbody', hrun, congrArg FunDecl.body hdef, hclose, hiff.mpr identityBody_unapplied⟩

/-- The application is in the scope of the identity function and stays. -/
theorem simplifyLetBindings_identity_applied : (identityBody identityCall).close.IsClosed (fun _ => false) ∧ ∃ def' s',
    simplifyLetBindings 10 (closedDecl (identityBody identityCall)) 0 = .ok (def', s') ∧
      def'.body = some (identityBody identityCall).close ∧
      ¬ IdentitiesUnapplied Texpr.Within (identityBody identityCall).body := by
  have hscoped : (identityBody identityCall).WellScoped := ⟨rfl, ⟨rfl, rfl⟩, by decide⟩
  obtain ⟨fvars, hopen⟩ : ∃ fvars, openAllFunBody 0 (identityBody identityCall).close =
      .ok ((fvars, identityBody identityCall), 0 + 3) := hscoped.open_close rfl
  have hvisit : onTexpr (visitExpr 10 ∅) (identityBody identityCall).body = .ok (identityBody identityCall).body := rfl
  refine ⟨hscoped.isClosed, _, _, liftExprMapVisitor_eq (closedDecl_body _) hopen (run_liftM_ok hvisit _)
    hscoped.unshadowed,
    rfl, fun h => h _ .refl ?_⟩
  exact ⟨_, _, _, _, _, _, rfl, rfl, identityCall, .refl, _, _, _, rfl⟩

end SimplifyLetBindings

end Aeneas.Pure
