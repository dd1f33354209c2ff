import Aeneas.PureUtils

/-!
# The micro-pass which adds the fuel

For the backends without general recursion, the functions which may diverge take
a fuel parameter, which they give to the functions they call. The recursive ones
first match on it: they fail if there is no fuel left, and decrease it for their
bodies otherwise.
-/

namespace Aeneas.Pure

/-! ## Declarations -/

structure FunEffectInfo where
  canDiverge : Bool
  isRec : Bool

structure FunSig where
  inputs : List Ty
  output : Ty
  effectInfo : FunEffectInfo

structure FunDef extends FunDecl where
  signature : FunSig

def FunDef.key (def_ : FunDef) : FunKey := (def_.defId, def_.loopId)

structure PassCtx where
  funDecls : IdMap FunDeclId FunDef

/-- The function, the ones of its loops and the ones of the bodies of its loops. -/
structure PureFunTranslation where
  f : FunDef
  loops : List FunDef
  bodies : List FunDef

/-! ## Expressions -/

def mkFuelTy : Ty := .adt (.builtin .fuel) emptyGenericArgs

def mkFuelFVar (id : FVarId) : FVar := { id, basename := some "n", ty := mkFuelTy }

def mkPureFun (id : PureBuiltinFunId) (ty : Ty) : Texpr :=
  .mk (.qualif { id := .funOrOp (.funE (.pure id)), generics := emptyGenericArgs }) ty

def Texpr.callee : Texpr → Option FunKey
  | .mk (.qualif q) _ => q.callee
  | _ => none

/-! ## The match on the fuel -/

def wrapInMatchFuel (cfg : FuelConfig) (fuel0 fuel : FVarId) (body : Texpr) : Except Exn Texpr := do
  let fuel0 := mkTexprFromFVar (mkFuelFVar fuel0)
  let nfuelPat := mkTPatFromFVar (mkFuelFVar fuel)
  let failBranch ← mkResultFailTexpr cfg (mkError errorOutOfFuelId) body.ty
  match cfg.backend with
  | .fStar => do
    let checkFuel ← mkApp cfg (mkPureFun .fuelEqZero (.arrow mkFuelTy mkBoolTy)) fuel0
    let decreaseFuel ← mkApp cfg (mkPureFun .fuelDecrease (.arrow mkFuelTy mkFuelTy)) fuel0
    let successBranch := mkOpenedLet false nfuelPat decreaseFuel body
    .ok (.mk (.switch checkFuel (.ite failBranch successBranch)) body.ty)
  | .coq =>
    let failPat := .mk (.adt (some fuelZeroId) []) mkFuelTy
    let successPat := .mk (.adt (some fuelSuccId) [nfuelPat]) mkFuelTy
    .ok (.mk (.switch fuel0 (.matchE
      [{ pat := failPat, branch := failBranch }, { pat := successPat, branch := body }])) body.ty)
  | _ => .error (.failure "Unexpected")

/-! ## The calls -/

section
variable (cfg : FuelConfig) (ctx : PassCtx) (loops : IdMap LoopId FunDef) (defId : FunDeclId)

def lookupDecl : FunKey → Except Exn FunDef
  | (fid, none) => find ctx.funDecls fid
  | (fid, some (lpId, _)) => do
    sanityCheck (fid == defId)
    find loops lpId

def updateCall (f : Texpr) (args : List Texpr) (fuel : Option Texpr) : Except Exn Texpr :=
  let inputs := fuel.toList.map Texpr.ty ++ (destructArrows f.ty).1
  mkApps cfg (.mk f.e (mkArrows inputs (destructArrows f.ty).2)) (fuel.toList ++ args)

def updateFunCall (fuel : Option Texpr) (f : Texpr) (key : FunKey) (args : List Texpr) : Except Exn Texpr := do
  let def' ← lookupDecl ctx loops defId key
  sanityCheck (args.length == def'.signature.inputs.length)
  let effect' := def'.signature.effectInfo
  sanityCheck (!effect'.canDiverge || !cfg.useFuel || fuel.isSome)
  updateCall cfg f args (if effect'.canDiverge then fuel else none)

def updateApps (fuel : Option Texpr) (f : Texpr) (args : List Texpr) : Except Exn Texpr :=
  match f.callee with
  | some key => updateFunCall cfg ctx loops defId fuel f key args
  | none => mkApps cfg f args

/-! ## The bodies -/

mutual

def update (fuel : Option Texpr) : Texpr → Except Exn Texpr
  -- The arguments must be pure: they can not be divergent
  | .mk (.app f x) _ => do
    let args ← updateArgs f
    let x ← update none x
    updateApps cfg ctx loops defId fuel (destructApps f).1 (args ++ [x])
  | .mk (.qualif q) ty => updateApps cfg ctx loops defId fuel (.mk (.qualif q) ty) []
  | .mk (.letE monadic lv re next) _ =>
    match (destructApps re).1.callee with
    | some key => do
      let call ← updateFunCall cfg ctx loops defId fuel (destructApps re).1 key (destructApps re).2
      let next ← update fuel next
      .ok (mkOpenedLet monadic lv call next)
    | none => do
      let re ← update fuel re
      let next ← update fuel next
      .ok (mkOpenedLet monadic lv re next)
  -- The scrutinee must be pure
  | .mk (.switch scrut (.ite e1 e2)) _ => do
    let scrut ← update none scrut
    let e1 ← update fuel e1
    let e2 ← update fuel e2
    .ok (.mk (.switch scrut (.ite e1 e2)) e1.ty)
  | .mk (.switch scrut (.matchE branches)) _ => do
    let scrut ← update none scrut
    let branches ← updateBranches fuel branches
    match branches with
    | [] => .error (.failure "hd")
    | b :: _ => .ok (.mk (.switch scrut (.matchE branches)) b.branch.ty)
  -- Loops should have been eliminated by then
  | .mk (.loop _) _ => internalError
  | .mk (.emeta m e) _ => .ok (.mk (.emeta m e) e.ty)
  | e => .ok e

def updateArgs : Texpr → Except Exn (List Texpr)
  | .mk (.app f x) _ => do
    let args ← updateArgs f
    let x ← update none x
    .ok (args ++ [x])
  | _ => .ok []

def updateBranches (fuel : Option Texpr) : List (MatchBranch Texpr) → Except Exn (List (MatchBranch Texpr))
  | [] => .ok []
  | b :: branches => do
    let b ← updateBranch fuel b
    let branches ← updateBranches fuel branches
    .ok (b :: branches)

def updateBranch (fuel : Option Texpr) : MatchBranch Texpr → Except Exn (MatchBranch Texpr)
  | ⟨pat, branch⟩ => do
    let branch ← update fuel branch
    .ok ⟨pat, branch⟩

end

end

section
variable (cfg : FuelConfig) (ctx : PassCtx)

def mkFreshFuelVar (needed : Bool) : EnvM FVarId (Option FVar) := fun fresh =>
  if needed then .ok (some (mkFuelFVar fresh), fresh + 1) else .ok (none, fresh)

def addFuelBody (loops : IdMap LoopId FunDef) (def_ : FunDef) (fuel0 fuel : Option FVar) (fbody : FunBody) :
    Except Exn FunBody := do
  let body ← update cfg ctx loops def_.defId (fuel.map mkTexprFromFVar) fbody.body
  if def_.signature.effectInfo.isRec && cfg.useFuel then
    let v0 ← optionGet fuel0
    let v ← optionGet fuel
    let body ← wrapInMatchFuel cfg v0.id v.id body
    .ok { inputs := (fuel0.map mkTPatFromFVar).toList ++ fbody.inputs, body }
  else .ok { inputs := (fuel.map mkTPatFromFVar).toList ++ fbody.inputs, body }

def openBody : Option FunBody → EnvM FVarId (Option FunBody)
  | none => pure none
  | some fbody => fun fresh => do
    let r ← openAllFunBody fresh fbody
    .ok (some r.1.2, r.2)

def addFuelOne (loops : IdMap LoopId FunDef) (def_ : FunDef) : EnvM FVarId FunDef := do
  let body ← openBody def_.body
  let effect := def_.signature.effectInfo
  let fuel0 ← mkFreshFuelVar (effect.canDiverge && cfg.useFuel)
  let fuel ← mkFreshFuelVar (effect.canDiverge && cfg.useFuel)
  let signature := { def_.signature with inputs := (fuel.map FVar.ty).toList ++ def_.signature.inputs }
  let body ← body.mapM fun fbody => (addFuelBody cfg ctx loops def_ fuel0 fuel fbody : Except Exn FunBody)
  let body ← body.mapM fun fbody => (closeAllFunBody fbody : Except Exn FunBody)
  pure { def_ with body, signature }

/-! ## The decomposition of the monadic let-bindings -/

def TPat.needsTmp : TPat → Except Exn Bool
  | .mk (.opened _ _) _ => .ok false
  | .mk .ignored _ => .ok false
  | .mk (.bound _ _) _ => internalError
  | _ => .ok true

def freshFVar : EnvM FVarId FVarId := fun fresh => .ok (fresh, fresh + 1)

/-- The visits of the subexpressions; the depth of the recursion is bounded because the rest of a decomposed
let-binding is visited twice. -/
def decomposeLets : Nat → Texpr → EnvM FVarId Texpr
  | 0, _ => fun _ => .error .outOfFuel
  | n + 1, .mk e ty => do
    let visitChildren : EnvM FVarId Texpr := do
      let cs ← e.children.mapM fun c => do
        let e ← decomposeLets n c.2
        pure (c.1, e)
      pure (.mk (e.rebuild cs) ty)
    match e with
    | .letE true lv re next =>
      if ← (lv.needsTmp : Except Exn Bool) then do
        let id ← freshFVar
        let tmp : FVar := { id, basename := none, ty := lv.ty }
        let next ← decomposeLets n next
        let re ← decomposeLets n re
        let rest ← decomposeLets n (mkOpenedLet false lv (mkTexprFromFVar tmp) next)
        pure (.mk (.letE true (mkTPatFromFVar tmp) re rest) ty)
      else visitChildren
    | _ => visitChildren

def decomposeBody (depth : Nat) (fbody : FunBody) : EnvM FVarId FunBody := fun fresh => do
  let r ← openAllFunBody fresh fbody
  let r' ← decomposeLets depth r.1.2.body r.2
  let fbody ← closeAllFunBody { r.1.2 with body := r'.1 }
  .ok (fbody, r'.2)

def decomposeMonadicLetBindings (depth : Nat) (def_ : FunDef) : EnvM FVarId FunDef := do
  let body ← def_.body.mapM (decomposeBody depth)
  pure { def_ with body }

/-! ## The functions of a translation -/

def loopsMap (loops : List FunDef) : Except Exn (IdMap LoopId FunDef) :=
  loops.foldlM (fun m f => do
    let id ← optionGet f.loopId
    .ok (m.insert id.1 f)) ∅

def addFuel (depth : Nat) (trans : PureFunTranslation) : EnvM FVarId PureFunTranslation := do
  let loops ← (loopsMap trans.loops : Except Exn (IdMap LoopId FunDef))
  let f ← addFuelOne cfg ctx loops trans.f
  let fLoops ← trans.loops.mapM (addFuelOne cfg ctx loops)
  let bodies ← trans.bodies.mapM (addFuelOne cfg ctx loops)
  if cfg.decomposeMonadicLetBindings then do
    let f ← decomposeMonadicLetBindings depth f
    let fLoops ← fLoops.mapM (decomposeMonadicLetBindings depth)
    let bodies ← bodies.mapM (decomposeMonadicLetBindings depth)
    pure { f, loops := fLoops, bodies }
  else pure { f, loops := fLoops, bodies }

end

end Aeneas.Pure
