import Aeneas.PureUtils

/-!
# The micro-pass which simplifies the let-bindings over branchings

When all the branches of a let-bound branching return the same value for a
component of a tuple, the component is bound outside of the branching:
```
let (b', x) := if b then (true, 1) else (false, 0) in ...
  ~~>
let x := if b then 1 else 0 in
let b' := b in ...
```
The values of a component are kept in sets of expressions, which are ordered by
the comparison of the expressions; only its laws matter.
-/

namespace Aeneas.Pure

namespace SimplifyLetBranching

/-! ## The exploration -/

section
variable [Ord Texpr] [Std.TransOrd Texpr]

/-- The variables which were tested, by the expressions they are equal to in the current branch. -/
abbrev Branchings := IdMap Texpr (List FVarId)

/-- For each output, the sets of values it may have, one per branch. -/
abbrev Outs := List (List (IdSet Texpr))

def addToList (e : Texpr) (id : FVarId) (branchings : Branchings) : Branchings :=
  branchings.insert e (id :: (branchings[e]?).getD [])

def getEqualValues (branchings : Branchings) (e : Texpr) : List Texpr :=
  ((branchings[e]?).getD []).map fun id => .mk (.fvar id) e.ty

def pushToOuts (i : Nat) (el : List Texpr) (outs : Outs) : Outs := outs.modify i (.ofList el :: ·)

def pushEmptyPossibilities (numOuts : Nat) (outs : Outs) : Outs :=
  (List.range numOuts).foldl (fun outs i => pushToOuts i [] outs) outs

variable (cfg : FuelConfig) (numOuts : Nat) (boundFVars : List FVarId)

def boundBeforeFVar (scrut : Texpr) : Option FVarId :=
  match scrut.e with
  | .fvar id => if boundFVars.contains id then none else some id
  | _ => none

def pushValue (branchings : Branchings) (e : Texpr) (outs : Outs) : Except Exn Outs := do
  sanityCheck (numOuts == 1)
  .ok (pushToOuts 0 (e :: getEqualValues branchings e) outs)

def pushTuple (branchings : Branchings) (e : Texpr) (outs : Outs) : Except Exn Outs :=
  if getTupleSize e = some numOuts then do
    let args ← destructTupleTexpr e
    .ok (args.zipIdx.foldl (fun outs x => pushToOuts x.2 (x.1 :: getEqualValues branchings x.1) outs) outs)
  else .ok (pushEmptyPossibilities numOuts outs)

def rememberValue (scrutId : Option FVarId) (e : Texpr) (branchings : Branchings) : Branchings :=
  scrutId.elim branchings fun id => addToList e id branchings

def rememberPat (scrutId : Option FVarId) (pat : TPat) (branchings : Branchings) : Except Exn Branchings :=
  match scrutId with
  | none => .ok branchings
  | some id => do
    let e ← tpatToTexpr cfg pat
    .ok (e.elim branchings fun e => addToList e id branchings)

mutual

def explore (branchings : Branchings) : Texpr → Outs → Except Exn Outs
  | .mk (.bvar _) _, _ => internalError
  | .mk (.app f x) ty, outs =>
    let e := .mk (.app f x) ty
    if isResultFail e || isLoopResultFailBreakContinue e then .ok outs
    else if isResultOk e then explore branchings x outs
    else pushTuple numOuts branchings e outs
  | .mk (.letE _ _ _ next) _, outs => explore branchings next outs
  | .mk (.switch scrut (.ite thn els)) _, outs => do
    let scrutId := boundBeforeFVar boundFVars scrut
    let outs ← explore (rememberValue scrutId mkTrue branchings) thn outs
    explore (rememberValue scrutId mkFalse branchings) els outs
  | .mk (.switch scrut (.matchE branches)) _, outs =>
    exploreBranches branchings (boundBeforeFVar boundFVars scrut) branches outs
  | .mk (.loop _) _, outs => .ok (pushEmptyPossibilities numOuts outs)
  | .mk (.emeta _ e) _, outs => explore branchings e outs
  | .mk (.eError _ _) _, outs => .ok outs
  | e, outs => pushValue numOuts branchings e outs

def exploreBranches (branchings : Branchings) (scrutId : Option FVarId) :
    List (MatchBranch Texpr) → Outs → Except Exn Outs
  | [], outs => .ok outs
  | b :: branches, outs => do
    let outs ← exploreBranch branchings scrutId b outs
    exploreBranches branchings scrutId branches outs

def exploreBranch (branchings : Branchings) (scrutId : Option FVarId) : MatchBranch Texpr → Outs → Except Exn Outs
  | ⟨pat, branch⟩, outs => do
    let branchings ← rememberPat cfg scrutId pat branchings
    explore branchings branch outs

end

def possibleOutputs : List (IdSet Texpr) → IdSet Texpr
  | [] => ∅
  | s :: ls => ls.foldl (fun s s' => s ∩ s') s

def pickOutput (ls : List (IdSet Texpr)) : Option Texpr := (possibleOutputs ls).toList.head?

end

/-! ## The update -/

def kept {α : Type} : List (Option Texpr) → List α → List α
  | none :: outputs, a :: l => a :: kept outputs l
  | some _ :: outputs, _ :: l => kept outputs l
  | _, _ => []

def removed {α : Type} : List (Option Texpr) → List α → List (α × Texpr)
  | none :: outputs, _ :: l => removed outputs l
  | some out :: outputs, a :: l => (a, out) :: removed outputs l
  | _, _ => []

section
variable (cfg : FuelConfig) (outputs : List (Option Texpr)) (newTy : Ty)

def updateValue (e : Texpr) : Except Exn Texpr := do
  sanityCheck (outputs.length == 1)
  match outputs with
  | [] => .error (.failure "hd")
  | out :: _ => .ok (out.getD e)

def updateExit (e : Texpr) : Except Exn Texpr :=
  match (destructApps e).1.e with
  | .qualif q => mkQualifApps cfg q (destructApps e).2 newTy
  | _ => .error (.invalidArgument "option is None")

def updateTuple (e : Texpr) : Except Exn Texpr :=
  if getTupleSize e = some outputs.length then do
    let args ← destructTupleTexpr e
    mkSimplTupleTexpr cfg (kept outputs args)
  else internalError

mutual

def update : Texpr → Except Exn Texpr
  | .mk (.bvar _) _ => internalError
  | .mk (.app f x) ty => do
    let e := .mk (.app f x) ty
    sanityCheck ((getTupleSize e).all (· == outputs.length))
    if isResultFail e || isLoopResultFailBreakContinue e then updateExit cfg newTy e
    else if isResultOk e then do
      let x ← update x
      mkResultOkTexpr cfg x
    else updateTuple cfg outputs e
  | .mk (.letE monadic pat bound next) _ => do
    let next ← update next
    .ok (mkOpenedLet monadic pat bound next)
  | .mk (.switch scrut (.ite thn els)) _ => do
    let thn ← update thn
    let els ← update els
    .ok (.mk (.switch scrut (.ite thn els)) newTy)
  | .mk (.switch scrut (.matchE branches)) _ => do
    let branches ← updateBranches branches
    .ok (.mk (.switch scrut (.matchE branches)) newTy)
  | .mk (.loop _) _ => internalError
  | .mk (.emeta m e) _ => do
    let e ← update e
    .ok (mkEMeta m e)
  | .mk (.eError span message) _ => .ok (.mk (.eError span message) newTy)
  | e => updateValue outputs e

def updateBranches : List (MatchBranch Texpr) → Except Exn (List (MatchBranch Texpr))
  | [] => .ok []
  | b :: branches => do
    let b ← updateBranch b
    let branches ← updateBranches branches
    .ok (b :: branches)

def updateBranch : MatchBranch Texpr → Except Exn (MatchBranch Texpr)
  | ⟨pat, branch⟩ => do
    let branch ← update branch
    .ok ⟨pat, branch⟩

end

end

/-! ## The pass -/

section
variable [Ord Texpr] [Std.TransOrd Texpr] (cfg : FuelConfig)

def chooseOutputs (numOuts : Nat) (bound : Texpr) : Except Exn (List (Option Texpr)) := do
  let outs ← explore cfg numOuts bound.binderIds ∅ bound (List.replicate numOuts [])
  .ok (outs.map pickOutput)

def mkNewTy (monadic : Bool) (outputs : List (Option Texpr)) : Ty :=
  let newTy := mkSimplTupleTy ((outputs.filterMap id).map Texpr.ty)
  if monadic then mkResultTy newTy else newTy

def updateBound (monadic : Bool) (outputs : List (Option Texpr)) (bound : Texpr) : Except Exn Texpr :=
  if outputs.any Option.isSome then update cfg outputs (mkNewTy monadic outputs) bound else .ok bound

def simplifyAux (monadic : Bool) (pats : List TPat) (bound next : Texpr) : Except Exn (TPat × Texpr × Texpr) := do
  let outputs ← chooseOutputs cfg pats.length bound
  let bound ← updateBound cfg monadic outputs bound
  .ok (mkSimplTuplePat (kept outputs pats), bound, mkOpenedLets false (removed outputs pats) next)

def simplify (monadic : Bool) (pat : TPat) (bound next : Texpr) : Except Exn (TPat × Texpr × Texpr) := do
  match ← optDestructTupleTPat pat with
  | none => .ok (pat, bound, next)
  | some pats => simplifyAux cfg monadic pats bound next

def isSwitch (e : Texpr) : Bool :=
  match e.e with
  | .switch _ _ => true
  | _ => false

/-- What is done with a node before its subexpressions are visited. -/
def simplifyNode : Expr → Except Exn Expr
  | .letE monadic pat bound next =>
    if isSwitch bound then do
      let r ← simplify cfg monadic pat bound next
      .ok (.letE monadic r.1 r.2.1 r.2.2)
    else .ok (.letE monadic pat bound next)
  | e => .ok e

/-- The visits of the subexpressions; the depth of the recursion is bounded because the outputs move out of
the branchings. -/
def visitTexpr : Nat → Texpr → Except Exn Texpr
  | 0, _ => .error .outOfFuel
  | n + 1, .mk e ty => do
    let e ← simplifyNode cfg e
    let cs ← e.children.mapM fun c => do
      let e ← visitTexpr n c.2
      .ok (c.1, e)
    .ok (.mk (e.rebuild cs) ty)

def simplifyBody (depth : Nat) (fbody : FunBody) : EnvM FVarId FunBody := fun fresh => do
  let r ← openAllFunBody fresh fbody
  let body ← visitTexpr cfg depth r.1.2.body
  let fbody ← closeAllFunBody { r.1.2 with body }
  .ok (fbody, r.2)

def simplifyLetBranching (depth : Nat) (def_ : FunDecl) : EnvM FVarId FunDecl := do
  let body ← def_.body.mapM (simplifyBody cfg depth)
  pure { def_ with body }

end

end SimplifyLetBranching

end Aeneas.Pure
