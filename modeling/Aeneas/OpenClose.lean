import Aeneas.PureRebuild

/-!
# Opening and closing all the binders

The two passes are visitors of one class, which enters and leaves the scopes of
the binder groups. Opening replaces the bound variables by fresh free variables,
in the patterns and in the expressions; closing replaces the free variables by
bound ones, whose scopes it counts from the outermost binder group.
-/

namespace Aeneas.Pure

structure OpenCloseAllVisitor (m : Type → Type) [Monad m] where
  startScope : m Unit
  pushScope : m Unit
  popScope : m Unit
  pushVar : Var → m FVarId
  pushFVar : FVar → m Var
  getBVar : BVar → m (Option FVarId)
  getFVar : FVarId → m (Option BVar)
  visitPOpen : FVar → Option MPlace → m Pat := fun v mp => do
    let _ ← pushFVar v
    pure (.bound { basename := v.basename, ty := v.ty } mp)
  visitPBound : Var → Option MPlace → m Pat := fun v mp => do
    let fid ← pushVar v
    pure (.opened { id := fid, basename := v.basename, ty := v.ty } mp)

namespace OpenCloseAllVisitor
variable {m : Type → Type} [Monad m] (v : OpenCloseAllVisitor m)

mutual

def visitPat : Pat → m Pat
  | .constant l => pure (.constant l)
  | .bound x mp => v.visitPBound x mp
  | .ignored => pure .ignored
  | .opened x mp => v.visitPOpen x mp
  | .adt variantId fields => do
    let fields ← visitTPats fields
    pure (.adt variantId fields)

def visitTPat : TPat → m TPat
  | .mk pat ty => do
    let pat ← visitPat pat
    pure (.mk pat ty)

def visitTPats : List TPat → m (List TPat)
  | [] => pure []
  | p :: l => do
    let p ← visitTPat p
    let l ← visitTPats l
    pure (p :: l)

end

def visitScope (pats : List TPat) (inner : m Texpr) : m (List TPat × Texpr) := do
  v.startScope
  let pats ← v.visitTPats pats
  v.pushScope
  let inner ← inner
  v.popScope
  pure (pats, inner)

def visitScope1 (pat : TPat) (inner : m Texpr) : m (TPat × Texpr) := do
  v.startScope
  let pat ← v.visitTPat pat
  v.pushScope
  let inner ← inner
  v.popScope
  pure (pat, inner)

def visitEMeta : EMeta (m Texpr) → m (EMeta Texpr)
  | .assignment dest value origin => do
    let value ← value
    pure (.assignment dest value origin)
  | .symbolicAssignments l => do
    let l ← l.mapM fun a => do
      let x ← a.1
      let value ← a.2
      pure (x, value)
    pure (.symbolicAssignments l)
  | .symbolicPlaces l => do
    let l ← l.mapM fun a => do
      let x ← a.1
      pure (x, a.2)
    pure (.symbolicPlaces l)
  | .mPlace mp => pure (.mPlace mp)
  | .tag message => pure (.tag message)
  | .typeAnnot => pure .typeAnnot

def visitSwitchBody : SwitchBody (m Texpr) → m (SwitchBody Texpr)
  | .ite thn els => do
    let thn ← thn
    let els ← els
    pure (.ite thn els)
  | .matchE branches => do
    let branches ← branches.mapM fun b => do
      let (pat, branch) ← v.visitScope1 b.pat b.branch
      pure { pat, branch }
    pure (.matchE branches)

def visitor : Visitor (m Expr) (m Texpr) where
  visitFVar id := do
    match ← v.getFVar id with
    | none => pure (.fvar id)
    | some bv => pure (.bvar bv)
  visitBVar x := do
    match ← v.getBVar x with
    | none => pure (.bvar x)
    | some fv => pure (.fvar fv)
  visitCVar id := pure (.cvar id)
  visitConst l := pure (.const l)
  visitApp f x := do
    let f ← f
    let x ← x
    pure (.app f x)
  visitLambda pat inner := do
    let (pat, inner) ← v.visitScope1 pat inner
    pure (.lambda pat inner)
  visitQualif q := pure (.qualif q)
  visitLet monadic pat bound next := do
    let bound ← bound
    let (pat, next) ← v.visitScope1 pat next
    pure (.letE monadic pat bound next)
  visitSwitch scrut body := do
    let scrut ← scrut
    let body ← v.visitSwitchBody body
    pure (.switch scrut body)
  visitLoop l := do
    let inputs ← l.inputs.mapM id
    let (bodyInputs, loopBody) ← v.visitScope l.loopBody.inputs l.loopBody.loopBody
    pure (.loop { l with inputs, loopBody := { inputs := bodyInputs, loopBody } })
  visitStructUpdate s := do
    let init ← s.init.mapM id
    let updates ← s.updates.mapM fun u => do
      let e ← u.2
      pure (u.1, e)
    pure (.structUpdate { s with init, updates })
  visitMeta mt e := do
    let mt ← visitEMeta mt
    let e ← e
    pure (.emeta mt e)
  visitEError span message := pure (.eError span message)
  visitTexpr e ty := do
    let e ← e
    pure (.mk e ty)

def visitFunBody (fbody : FunBody) : m FunBody := do
  let (inputs, body) ← v.visitScope fbody.inputs (fbody.body.visit v.visitor)
  pure { inputs, body }

end OpenCloseAllVisitor

/-! ## Opening -/

structure OpenAllEnv where
  benv : List (IdMap BVarId FVarId)
  /-- Partial map of the binder group whose patterns are being visited. -/
  penv : Option (IdMap BVarId FVarId)
  pvarid : BVarId
  fvars : IdMap FVarId FVar

def emptyOpenAllEnv : OpenAllEnv := { benv := [], penv := none, pvarid := 0, fvars := ∅ }

structure OpenState where
  env : OpenAllEnv
  fresh : FVarId

def optionGet {α : Type} : Option α → Except Exn α
  | some x => .ok x
  | none => .error (.invalidArgument "option is None")

def openAllEnvStartScope (env : OpenAllEnv) : Except Exn OpenAllEnv := do
  assert env.penv.isNone
  .ok { env with penv := some ∅, pvarid := 0 }

def openAllEnvPushScope (env : OpenAllEnv) : Except Exn OpenAllEnv := do
  let penv ← optionGet env.penv
  .ok { benv := penv :: env.benv, penv := none, pvarid := 0, fvars := env.fvars }

def openAllEnvPopScope (env : OpenAllEnv) : Except Exn OpenAllEnv := do
  assert env.penv.isNone
  match env.benv with
  | [] => .error (.failure "tl")
  | _ :: benv => .ok { env with benv }

def openAllEnvPushVar (s : OpenState) (v : Var) : Except Exn (FVarId × OpenState) := do
  let penv ← optionGet s.env.penv
  let fvarId := s.fresh
  -- `add_strict`
  assert (!s.env.fvars.contains fvarId)
  .ok (fvarId,
    { env := { s.env with
        penv := some (penv.insert s.env.pvarid fvarId)
        pvarid := s.env.pvarid + 1
        fvars := s.env.fvars.insert fvarId { id := fvarId, basename := v.basename, ty := v.ty } }
      fresh := fvarId + 1 })

/-- `List.nth_opt` raises an exception on a negative index. -/
def nthOpt {α : Type} (l : List α) (n : Int) : Except Exn (Option α) :=
  if n < 0 then .error (.invalidArgument "List.nth") else .ok l[n.toNat]?

def openAllEnvGetVar (env : OpenAllEnv) (v : BVar) : Except Exn (Option FVarId) := do
  sanityCheck env.penv.isNone
  match ← nthOpt env.benv v.scope with
  | some scope => .ok scope[v.id]?
  | none => .ok none

def OpenState.modify (f : OpenAllEnv → Except Exn OpenAllEnv) : EnvM OpenState Unit := fun s => do
  let env ← f s.env
  .ok ((), { s with env })

def openAllVisitor : OpenCloseAllVisitor (EnvM OpenState) where
  startScope := OpenState.modify openAllEnvStartScope
  pushScope := OpenState.modify openAllEnvPushScope
  popScope := OpenState.modify openAllEnvPopScope
  pushVar v := fun s => openAllEnvPushVar s v
  pushFVar _ := fun _ => internalError
  getBVar v := fun s => do
    let r ← openAllEnvGetVar s.env v
    .ok (r, s)
  getFVar _ := pure none
  -- Leave it unchanged (it is already open)
  visitPOpen fv mp := pure (.opened fv mp)

def openAllFunBody (fresh : FVarId) (fbody : FunBody) : Except Exn ((IdMap FVarId FVar × FunBody) × FVarId) := do
  let (fbody, s) ← openAllVisitor.visitFunBody fbody { env := emptyOpenAllEnv, fresh }
  .ok ((s.env.fvars, fbody), s.fresh)

/-! ## Closing -/

structure CloseAllEnv where
  /-- The scopes are counted from the outer ones. -/
  fenv : IdMap FVarId BVar
  /-- The next scope. -/
  scope : Int
  /-- The next index, while the patterns of a group are visited. -/
  bvarId : Option BVarId

def emptyCloseAllEnv : CloseAllEnv := { fenv := ∅, scope := 0, bvarId := none }

def closeAllEnvStartScope (env : CloseAllEnv) : CloseAllEnv := { env with bvarId := some 0 }

def closeAllEnvPushScope (env : CloseAllEnv) : CloseAllEnv := { env with scope := env.scope + 1, bvarId := none }

def closeAllEnvPopScope (env : CloseAllEnv) : Except Exn CloseAllEnv := do
  sanityCheck (decide (env.scope > 0))
  sanityCheck env.bvarId.isNone
  .ok { env with scope := env.scope - 1 }

def closeAllEnvPushVar (env : CloseAllEnv) (fid : FVarId) : Except Exn (CloseAllEnv × BVarId) := do
  let bvarId ← optionGet env.bvarId
  let fenv := env.fenv.insert fid { scope := env.scope, id := bvarId }
  .ok ({ env with fenv, bvarId := some (bvarId + 1) }, bvarId)

def closeAllEnvGetVar (env : CloseAllEnv) (fid : FVarId) : Option BVar :=
  match env.fenv[fid]? with
  | none => none
  | some v => some { v with scope := env.scope - v.scope - 1 }

def closeAllVisitor : OpenCloseAllVisitor (EnvM CloseAllEnv) where
  startScope := fun env => .ok ((), closeAllEnvStartScope env)
  pushScope := fun env => .ok ((), closeAllEnvPushScope env)
  popScope := fun env => do
    let env ← closeAllEnvPopScope env
    .ok ((), env)
  pushVar _ := fun _ => internalError
  pushFVar v := fun env => do
    let (env, _) ← closeAllEnvPushVar env v.id
    .ok ({ basename := v.basename, ty := v.ty }, env)
  getBVar _ := pure none
  getFVar id := fun env => .ok (closeAllEnvGetVar env id, env)
  -- Leave it unchanged: it is already bound
  visitPBound v mp := pure (.bound v mp)

def closeAllFunBody (fbody : FunBody) : Except Exn FunBody := do
  let (fbody, _) ← closeAllVisitor.visitFunBody fbody emptyCloseAllEnv
  .ok fbody

end Aeneas.Pure
