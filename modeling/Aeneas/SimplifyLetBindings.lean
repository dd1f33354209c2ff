import Aeneas.PurePass

/-!
# The micro-pass which simplifies the let-bindings

The inner let-bindings move outside, the bindings of the error monad are resolved
when their result is known, and the tuples are bound component by component:
```
let x := (let y := a in b) in ...   ~~>   let y := a in let x := b in ...
let x <- ok y in ...                ~~>   let x := y in ...
let x <- fail e in ...              ~~>   fail e
let (x, y) := (a, b) in ...         ~~>   let x := a in let y := b in ...
```
A let-binding is visited again after it was rewritten. The applications of the
identity functions are meant to be simplified, with a set of variables.
-/

namespace Aeneas.Pure

def optDestTupleTexpr (e : Texpr) : Option (List Texpr) :=
  match e.consId with
  | some { adtId := .tuple, variantId := none } => some (destructApps e).2
  | _ => none

def optDestStructPat : TPat → Option (List TPat)
  | .mk (.adt none fields) _ => some fields
  | _ => none

namespace SimplifyLetBindings

/-! ## The rewritings -/

def combine {α β : Type} (l : List α) (l' : List β) : Except Exn (List (α × β)) :=
  if l.length = l'.length then .ok (l.zip l') else .error (.invalidArgument "List.combine")

def resultVariant (f : Texpr) : Option VariantId :=
  match f.e with
  | .qualif q =>
    match q.id with
    | .adtCons id => if id.adtId = .builtin .result then id.variantId else none
    | _ => none
  | _ => none

/-- What is visited instead of the let-binding, if it is rewritten. -/
def rewriteLet (monadic : Bool) (lv : TPat) (rv next : Texpr) : Except Exn (Option Expr) :=
  match rv.e with
  | .letE rmonadic rlv rrv rnext => .ok (some (.letE rmonadic rlv rrv (mkOpenedLet monadic lv rnext next)))
  | .app f x =>
    match resultVariant f with
    | some variantId =>
      if variantId = resultOkId then .ok (some (.letE false lv x next))
      else if variantId = resultFailId then .ok (some rv.e)
      else craise "Unexpected"
    | none =>
      if monadic then .ok none
      else
        match optDestStructPat lv, optDestTupleTexpr rv with
        | some pats, some vals => do
          let patVals ← combine pats vals
          .ok (some (mkOpenedLets false patVals next).e)
        | _, _ => .ok none
  | _ => .ok none

def identityVar (rv : Texpr) : Option FVarId :=
  match rv.e with
  | .lambda (.mk (.opened fv _) _) (.mk (.fvar fid) _) => if fv.id = fid then some fid else none
  | _ => none

/-- The variables of the environment are the ones of the identity functions. -/
def isIdentity (env : IdSet FVarId) (f : Texpr) : Bool :=
  match f.e with
  | .fvar fid => env.contains fid
  | _ => false

/-! ## The visit -/

section
variable (visit : IdSet FVarId → Expr → Except Exn Expr)

def visitLet (env : IdSet FVarId) (monadic : Bool) (lv : TPat) (rv next : Texpr) : Except Exn Expr := do
  match ← rewriteLet monadic lv rv next with
  | some e => visit env e
  | none =>
    match identityVar rv with
    | some fid => do
      let next ← onTexpr (visit (env.insert fid)) next
      .ok (mkOpenedLet monadic lv rv next).e
    | none => mapChildren (onTexpr (visit env)) (.letE monadic lv rv next)

def visitApp (env : IdSet FVarId) (f arg : Texpr) : Except Exn Expr :=
  if isIdentity env f then .ok arg.e else mapChildren (onTexpr (visit env)) (.app f arg)

end

/-- The depth of the recursion is bounded because the let-bindings are visited again. -/
def visitExpr : Nat → IdSet FVarId → Expr → Except Exn Expr
  | 0, _, _ => .error .outOfFuel
  | n + 1, env, .letE monadic lv rv next => visitLet (visitExpr n) env monadic lv rv next
  | n + 1, env, .app f arg => visitApp (visitExpr n) env f arg
  | n + 1, env, e => mapChildren (onTexpr (visitExpr n env)) e

def simplifyLetBindings (depth : Nat) (def_ : FunDecl) : EnvM FVarId FunDecl :=
  liftExprMapVisitor (fun e => liftM (onTexpr (visitExpr depth ∅) e)) def_

end SimplifyLetBindings

end Aeneas.Pure
