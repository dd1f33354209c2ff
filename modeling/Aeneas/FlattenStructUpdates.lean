import Aeneas.PureRecords

/-!
# The flattening of the structure updates

An update of an update becomes one update, and the projection of an update is the
field, or the projection of the base. The visit is bottom-up, but the updates of
the base are visited twice.
-/

namespace Aeneas.Pure

namespace FlattenStructUpdates

/-! ## The visit -/

def projField (f : Texpr) : Option FieldId :=
  match f.e with
  | .qualif q =>
    match q.id with
    | .proj p => some p.fieldId
    | _ => none
  | _ => none

def isAdtCons (e : Texpr) : Bool :=
  match e.e with
  | .qualif q =>
    match q.id with
    | .adtCons _ => true
    | _ => false
  | _ => false

section
variable (cfg : FuelConfig)

def mkAppExpr (f arg : Texpr) : Except Exn Expr := do
  let e ← mkApp cfg f arg
  .ok e.e

def projUpdate (fid : FieldId) (f : Texpr) (s : StructUpdate Texpr) : Except Exn Expr :=
  match s.updates.find? (isField fid) with
  | some u => .ok u.2.e
  | none =>
    match s.init with
    | none => internalError
    | some init => mkAppExpr cfg f init

/-- The projection of an application. The head which is tested is the one of the projection. -/
def projApp (fid : FieldId) (f arg : Texpr) : Except Exn Expr :=
  if isAdtCons (destructApps f).1 then
    match (destructApps f).2[fid]? with
    | some e => .ok e.e
    | none => internalError
  else mkAppExpr cfg (destructApps f).1 arg

def visitApp (f arg : Texpr) : Except Exn Expr :=
  match projField f with
  | none => mkAppExpr cfg f arg
  | some fid =>
    match arg.e with
    | .structUpdate s => projUpdate cfg fid f s
    | .app _ _ => projApp cfg fid f arg
    | _ => mkAppExpr cfg f arg

section
variable (visit : Texpr → Except Exn Texpr)

def visitUpdates (l : List (FieldId × Texpr)) : Except Exn (List (FieldId × Texpr)) := l.mapM fun u => do
  let e ← visit u.2
  pure (u.1, e)

def flattenInit (structId : TypeId) (init : Texpr) (updates : List (FieldId × Texpr)) : Except Exn Expr :=
  match init.e with
  | .structUpdate s => do
    sanityCheck (structId == s.structId)
    let updates' ← visitUpdates visit (notUpdated updates s.updates)
    .ok (.structUpdate { structId, init := s.init, updates := updates' ++ updates })
  | _ => .ok (.structUpdate { structId, init := some init, updates })

def visitStructUpdate (s : StructUpdate Texpr) : Except Exn Expr :=
  match s.init with
  | none => mapChildren visit (.structUpdate s)
  | some init => do
    let init ← visit init
    let updates ← visitUpdates visit s.updates
    flattenInit visit s.structId init updates

end

def visitExpr : Nat → Expr → Except Exn Expr
  | 0, _ => .error .outOfFuel
  | n + 1, .structUpdate s => visitStructUpdate (onTexpr (visitExpr n)) s
  | n + 1, .app f arg => do
    let f ← onTexpr (visitExpr n) f
    let arg ← onTexpr (visitExpr n) arg
    visitApp cfg f arg
  | n + 1, e => mapChildren (onTexpr (visitExpr n)) e

def flattenStructUpdates (depth : Nat) (def_ : FunDecl) : EnvM FVarId FunDecl :=
  liftExprMapVisitor (fun e => liftM (onTexpr (visitExpr cfg depth) e)) def_

end

/-! ## What a visit does -/

def IsUpdate (e : Texpr) : Prop := ∃ s, e.e = .structUpdate s

inductive Reduced (f arg : Texpr) : Expr → Prop
  | app (h : (projField f).isSome = true → ¬ IsUpdate arg) : Reduced f arg (.app f arg)
  | field {fid : FieldId} {s : StructUpdate Texpr} {u : FieldId × Texpr} (hf : projField f = some fid)
    (harg : arg.e = .structUpdate s) (hu : s.updates.find? (isField fid) = some u) : Reduced f arg u.2.e
  | base {fid : FieldId} {s : StructUpdate Texpr} {init : Texpr} (hf : projField f = some fid)
    (harg : arg.e = .structUpdate s) (hu : s.updates.find? (isField fid) = none) (hinit : s.init = some init) :
    Reduced f arg (.app f init)

def VisitedUpdates (visit : Texpr → Except Exn Texpr) : List (FieldId × Texpr) → List (FieldId × Texpr) → Prop :=
  List.Forall₂ fun u u' => u'.1 = u.1 ∧ visit u.2 = .ok u'.2

inductive Visited (visit : Texpr → Except Exn Texpr) : Expr → Expr → Prop
  | node {e : Expr} {cs : List (Scoped Texpr)} (happ : ∀ f x, e ≠ .app f x) (hupdate : ∀ s, e = .structUpdate s →
    s.init = none)
    (h : List.Forall₂ (fun c c' : Scoped Texpr => c'.1 = c.1 ∧ visit c.2 = .ok c'.2) e.children cs) :
    Visited visit e (e.rebuild cs)
  | app {f arg f' arg' : Texpr} {e' : Expr} (hf : visit f = .ok f') (harg : visit arg = .ok arg') (h :
    Reduced f' arg' e') :
    Visited visit (.app f arg) e'
  | update {structId : TypeId} {init init' : Texpr} {us us' : List (FieldId × Texpr)} (hinit : visit init = .ok init')
    (hus : VisitedUpdates visit us us') (hbase : ¬ IsUpdate init') :
    Visited visit (.structUpdate { structId, init := some init, updates := us })
      (.structUpdate { structId, init := some init', updates := us' })
  | flatten {structId : TypeId} {init : Texpr} {base : Option Texpr} {ty : Ty} {us us' vs vs' : List (FieldId × Texpr)}
    (hinit : visit init = .ok (.mk (.structUpdate { structId, init := base, updates := vs }) ty))
    (hus : VisitedUpdates visit us us') (hvs : VisitedUpdates visit (notUpdated us' vs) vs') :
    Visited visit (.structUpdate { structId, init := some init, updates := us })
      (.structUpdate { structId, init := base, updates := vs' ++ us' })

section
variable {cfg : FuelConfig} {visit : Texpr → Except Exn Texpr}

theorem mkAppExpr_eq_ok {f x : Texpr} {e : Expr} (h : mkAppExpr cfg f x = .ok e) : e = .app f x := by
  obtain ⟨a, ha, h⟩ := bind_eq_ok.mp h
  obtain ⟨ty, rfl⟩ := mkApp_eq_ok ha
  exact (Except.ok.inj h).symm

theorem projField_eq_some {f : Texpr} {fid : FieldId} (h : projField f = some fid) :
    ∃ q p ty, f = .mk (.qualif q) ty ∧ q.id = .proj p ∧ p.fieldId = fid := by
  obtain ⟨f, ty⟩ := f
  unfold projField at h
  split at h
  · rename_i q heq
    obtain rfl : f = .qualif q := heq
    split at h
    · rename_i p hp
      exact ⟨q, p, ty, rfl, hp, Option.some.inj h⟩
    · cases h
  · cases h

theorem visitApp_reduced {f arg : Texpr} {e : Expr} (h : visitApp cfg f arg = .ok e) : Reduced f arg e := by
  unfold visitApp at h
  split at h
  · rename_i hf
    rw [mkAppExpr_eq_ok h]
    exact .app fun hsome => by rw [hf] at hsome; cases hsome
  · rename_i fid hf
    split at h
    · rename_i s harg
      unfold projUpdate at h
      split at h
      · rename_i u hu
        cases h
        exact .field hf harg hu
      · rename_i hu
        split at h
        · cases h
        · rename_i init hinit
          rw [mkAppExpr_eq_ok h]
          exact .base hf harg hu hinit
    · rename_i g x harg
      -- the head of a projection is not a constructor
      obtain ⟨q, p, ty, rfl, hq, -⟩ := projField_eq_some hf
      have hcons : isAdtCons (.mk (.qualif q) ty) = false := by simp [isAdtCons, Texpr.e, hq]
      have happ : mkAppExpr cfg (.mk (.qualif q) ty) arg = .ok e := by
        have hhead : (destructApps (.mk (.qualif q) ty)).1 = .mk (.qualif q) ty := rfl
        unfold projApp at h
        rwa [if_neg (by rw [hhead, hcons]; simp)] at h
      rw [mkAppExpr_eq_ok happ]
      refine .app fun _ hs => ?_
      obtain ⟨s, hs⟩ := hs
      cases harg.symm.trans hs
    · rename_i hupdate _
      rw [mkAppExpr_eq_ok h]
      refine .app fun _ hs => ?_
      obtain ⟨s, hs⟩ := hs
      exact hupdate s hs

theorem visitUpdates_ok {l l' : List (FieldId × Texpr)} (h : visitUpdates visit l = .ok l') :
    VisitedUpdates visit l l' := by
  refine (mapM_eq_ok_iff.mp h).imp fun u u' hu => ?_
  obtain ⟨e, he, hu⟩ := bind_eq_ok.mp hu
  obtain rfl := Except.ok.inj hu
  exact ⟨rfl, he⟩

theorem visitStructUpdate_visited {s : StructUpdate Texpr} {e : Expr} (h : visitStructUpdate visit s = .ok e) :
    Visited visit (.structUpdate s) e := by
  obtain ⟨structId, init, us⟩ := s
  cases init with
  | none =>
    obtain ⟨cs, rfl, hcs⟩ := mapChildren_ok h
    refine .node nofun (fun s heq => ?_) hcs
    cases heq
    rfl
  | some init =>
    obtain ⟨init', hinit, hrest⟩ := bind_eq_ok.mp h
    obtain ⟨us', hus, hflatten⟩ := bind_eq_ok.mp hrest
    obtain ⟨e', ty'⟩ := init'
    unfold flattenInit at hflatten
    split at hflatten
    · rename_i s' heq
      obtain rfl : e' = .structUpdate s' := heq
      obtain ⟨_, hcheck, hvisit⟩ := bind_eq_ok.mp hflatten
      obtain ⟨vs', hvs, hpure⟩ := bind_eq_ok.mp hvisit
      obtain ⟨structId', base, vs⟩ := s'
      obtain rfl : structId = structId' := by
        unfold sanityCheck cassert at hcheck
        split at hcheck
        · rename_i hid
          exact eq_of_beq hid
        · cases hcheck
      cases hpure
      exact .flatten hinit (visitUpdates_ok hus) (visitUpdates_ok hvs)
    · rename_i hupdate
      cases hflatten
      exact .update hinit (visitUpdates_ok hus) fun ⟨s, hs⟩ => hupdate s hs

theorem visitExpr_visited {n : Nat} {e e' : Expr} (h : visitExpr cfg (n + 1) e = .ok e') :
    Visited (onTexpr (visitExpr cfg n)) e e' := by
  have hnode : (∀ f x, e ≠ .app f x) → (∀ s, e ≠ .structUpdate s) → mapChildren (onTexpr (visitExpr cfg n)) e = .ok e' →
      Visited (onTexpr (visitExpr cfg n)) e e' := by
    intro happ hupdate h
    obtain ⟨cs, rfl, hcs⟩ := mapChildren_ok h
    exact .node happ (fun s heq => absurd heq (hupdate s)) hcs
  cases e with
  | structUpdate s => exact visitStructUpdate_visited h
  | app f arg =>
    obtain ⟨f', hf, h⟩ := bind_eq_ok.mp h
    obtain ⟨arg', harg, h⟩ := bind_eq_ok.mp h
    exact .app hf harg (visitApp_reduced h)
  | _ => exact hnode nofun nofun h

theorem visit_induct {R : Texpr → Texpr → Prop}
    (hstep : ∀ {visit : Texpr → Except Exn Texpr}, (∀ {x x'}, visit x = .ok x' → R x x') →
      ∀ {e e'} (ty : Ty), Visited visit e e' → R (.mk e ty) (.mk e' ty)) :
    ∀ {n : Nat} {x x' : Texpr}, onTexpr (visitExpr cfg n) x = .ok x' → R x x'
  | 0, x, x', h => by cases h
  | n + 1, .mk e ty, x', h => by
    obtain ⟨e', he', h⟩ := bind_eq_ok.mp h
    obtain rfl := Except.ok.inj h
    exact hstep (fun h => visit_induct hstep h) ty (visitExpr_visited he')

end

end FlattenStructUpdates

end Aeneas.Pure
