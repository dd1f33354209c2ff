import Aeneas.PureScope
import Aeneas.Fuel

/-!
# Evaluation of the pure AST

An expression is evaluated in an environment, with the values of the arguments
it is applied to. The functions which may diverge are given by their calls; the
other ones, like the primitive operations, are given by an interpretation. The
variables are looked up by name if they are free and by position if they are
bound, so closed and opened expressions are evaluated alike.
-/

namespace Aeneas.Pure

open Fuel

def resultOkId : VariantId := 0
def resultFailId : VariantId := 1
def errorOutOfFuelId : VariantId := 1
def fuelZeroId : VariantId := 0
def fuelSuccId : VariantId := 1

abbrev FunKey := FunDeclId × Option (LoopId × Bool)

def Qualif.callee (q : Qualif) : Option FunKey :=
  match q.id with
  | .funOrOp (.funE (.fromLlbc (.funId fid) lpId)) => some (fid, lpId)
  | _ => none

/-! ## Values -/

inductive Value (X : Type) where
  | lit (l : Literal)
  | adt (id : TypeId) (variantId : Option VariantId) (fields : List (Value X))
  | ext (x : X)

namespace Value
variable {X : Type}

def ok (v : Value X) : Value X := .adt (.builtin .result) (some resultOkId) [v]

def fail (error : Value X) : Value X := .adt (.builtin .result) (some resultFailId) [error]

def outOfFuel : Value X := fail (.adt (.builtin .error) (some errorOutOfFuelId) [])

def fuel : Nat → Value X
  | 0 => .adt (.builtin .fuel) (some fuelZeroId) []
  | n + 1 => .adt (.builtin .fuel) (some fuelSuccId) [fuel n]

def result : Value X → Option (Except (Value X) (Value X))
  | .adt (.builtin .result) (some variantId) [v] =>
    if variantId = resultOkId then some (.ok v)
    else if variantId = resultFailId then some (.error v) else none
  | _ => none

def fuelEqZero : Value X → Option (Value X)
  | .adt (.builtin .fuel) (some variantId) _ => some (.lit (.bool (variantId = fuelZeroId)))
  | _ => none

def fuelDecrease : Value X → Option (Value X)
  | .adt (.builtin .fuel) _ [v] => some v
  | _ => none

@[simp] theorem result_ok (v : Value X) : (ok v).result = some (.ok v) := rfl

@[simp] theorem result_fail (e : Value X) : (fail e).result = some (.error e) := rfl

end Value

/-! ## Patterns -/

section
variable {X : Type}

def Ty.adtId : Ty → Option TypeId
  | .adt id _ => some id
  | _ => none

mutual

/-- The values of the variables which a pattern binds, with their identifiers if they are opened. The
pattern of a constructor is for the values of its type. -/
def Pat.matches : Pat → Ty → Value X → Option (List (Option FVarId × Value X))
  | .constant l, _, .lit l' => if l = l' then some [] else none
  | .bound _ _, _, v => some [(none, v)]
  | .ignored, _, _ => some []
  | .opened x _, _, v => some [(some x.id, v)]
  | .adt variantId fields, ty, .adt id variantId' vs =>
    if ty.adtId = some id ∧ variantId = variantId' then matchTPats fields vs else none
  | _, _, _ => none

def TPat.matches : TPat → Value X → Option (List (Option FVarId × Value X))
  | .mk pat ty, v => pat.matches ty v

def matchTPats : List TPat → List (Value X) → Option (List (Option FVarId × Value X))
  | [], [] => some []
  | p :: ps, v :: vs => (p.matches v).bind fun l => (matchTPats ps vs).bind fun l' => some (l ++ l')
  | _, _ => none

end

end

/-! ## Environments -/

structure Env (D X : Type) where
  /-- The arguments of the function for its generic parameters. -/
  generics : D
  fvars : FVarId → Option (Value X)
  /-- The values of the closed binders, from the innermost group. -/
  stack : List (List (Value X))

namespace Env
variable {D X : Type}

def setFVar (fvars : FVarId → Option (Value X)) (b : Option FVarId × Value X) : FVarId → Option (Value X) :=
  match b.1 with
  | some f => Function.update fvars f (some b.2)
  | none => fvars

def push (env : Env D X) (l : List (Option FVarId × Value X)) : Env D X :=
  { env with
    fvars := l.foldl setFVar env.fvars
    stack := (l.filterMap fun b => if b.1.isNone then some b.2 else none) :: env.stack }

/-- Enter the scope of a group of binders, if the patterns match. -/
def bind (env : Env D X) (ps : List TPat) (vs : List (Value X)) : Option (Env D X) := (matchTPats ps vs).map env.push

def lookup (env : Env D X) (v : BVar) : Option (Value X) :=
  if v.scope < 0 then none else (env.stack[v.scope.toNat]?).bind fun group => group[v.id]?

end Env

/-! ## Expressions -/

/-- What the calls do not say: the meaning of the functions which do not diverge and of the other
qualifiers, of the generic arguments, of the values which are functions or structures, and of the
loops, from what their bodies compute. -/
structure Interp (D X : Type) where
  generics : D → GenericArgs → D
  qualif : D → Qualif → List (Value X) → Option (Value X)
  cvar : D → ConstGenericVarId → Option (Value X)
  apply : Value X → List (Value X) → Option (Value X)
  lambda : (Value X → Option (Value X)) → Option (Value X)
  struct : D → TypeId → Option (Value X) → List (FieldId × Value X) → Option (Value X)
  loop : (List (Value X) → Option (Value X)) → List (Value X) → Option (Value X)

abbrev FunCalls (D X : Type) := Calls FunKey (D × List (Value X)) (Value X)

abbrev Eval (D X : Type) := Env D X → List (Value X) → Option (Value X)

section
variable {D X : Type} (I : Interp D X) (isCall : FunKey → Bool) (call : FunCalls D X)

def Interp.applyTo (v : Value X) : List (Value X) → Option (Value X)
  | [] => some v
  | args => I.apply v args

def evalQualif (q : Qualif) (d : D) (args : List (Value X)) : Option (Value X) :=
  match q.id with
  | .funOrOp (.funE (.fromLlbc (.funId fid) lpId)) =>
    if isCall (fid, lpId) then call (fid, lpId) (I.generics d q.generics, args) else I.qualif d q args
  | .adtCons id => some (.adt id.adtId id.variantId args)
  | .funOrOp (.funE (.pure .fuelEqZero)) =>
    match args with
    | [v] => v.fuelEqZero
    | _ => none
  | .funOrOp (.funE (.pure .fuelDecrease)) =>
    match args with
    | [v] => v.fuelDecrease
    | _ => none
  | _ => I.qualif d q args

def evalLet (monadic : Bool) (pat : TPat) (next : Eval D X) (env : Env D X) (args : List (Value X)) (v : Value X) :
    Option (Value X) :=
  if monadic then
    match v.result with
    | some (.ok w) => (env.bind [pat] [w]).bind fun env => next env args
    | some (.error e) => I.applyTo (.fail e) args
    | none => none
  else (env.bind [pat] [v]).bind fun env => next env args

def evalBranches (env : Env D X) (args : List (Value X)) (v : Value X) :
    List (MatchBranch (Eval D X)) → Option (Value X)
  | [] => none
  | b :: branches =>
    match env.bind [b.pat] [v] with
    | some env' => b.branch env' args
    | none => evalBranches env args v branches

def evalSwitch (body : SwitchBody (Eval D X)) (env : Env D X) (args : List (Value X)) (v : Value X) :
    Option (Value X) :=
  match body with
  | .ite thn els =>
    match v with
    | .lit (.bool b) => if b then thn env args else els env args
    | _ => none
  | .matchE branches => evalBranches env args v branches

def evalInit (init : Option (Eval D X)) (env : Env D X) : Option (Option (Value X)) :=
  match init with
  | none => some none
  | some e => (e env []).map some

def evalUpdates (env : Env D X) : List (FieldId × Eval D X) → Option (List (FieldId × Value X))
  | [] => some []
  | u :: l => (u.2 env []).bind fun v => (evalUpdates env l).bind fun vs => some ((u.1, v) :: vs)

def evalInputs (env : Env D X) : List (Eval D X) → Option (List (Value X))
  | [] => some []
  | e :: l => (e env []).bind fun v => (evalInputs env l).bind fun vs => some (v :: vs)

def evalLoopBody (body : LoopBody (Eval D X)) (env : Env D X) (vs : List (Value X)) : Option (Value X) :=
  (env.bind body.inputs vs).bind fun env => body.loopBody env []

def evaluator : Visitor (Eval D X) (Eval D X) where
  visitFVar f env args := (env.fvars f).bind fun v => I.applyTo v args
  visitBVar v env args := (env.lookup v).bind fun v => I.applyTo v args
  visitCVar id env args := (I.cvar env.generics id).bind fun v => I.applyTo v args
  visitConst l _ args := I.applyTo (.lit l) args
  visitApp f x env args := (x env []).bind fun v => f env (v :: args)
  visitLambda pat inner env args :=
    (I.lambda fun v => (env.bind [pat] [v]).bind fun env => inner env []).bind fun v => I.applyTo v args
  visitQualif q env args := evalQualif I isCall call q env.generics args
  visitLet monadic pat bound next env args := (bound env []).bind (evalLet I monadic pat next env args)
  visitSwitch scrut body env args := (scrut env []).bind (evalSwitch body env args)
  visitLoop l env args :=
    (evalInputs env l.inputs).bind fun vs => (I.loop (evalLoopBody l.loopBody env) vs).bind fun v => I.applyTo v args
  visitStructUpdate s env args :=
    (evalInit s.init env).bind fun init => (evalUpdates env s.updates).bind fun updates =>
      (I.struct env.generics s.structId init updates).bind fun v => I.applyTo v args
  visitMeta _ e := e
  visitEError _ _ _ _ := none
  visitTexpr e _ := e

def Texpr.eval (e : Texpr) : Eval D X := e.visit (evaluator I isCall call)

def FunBody.eval (fbody : FunBody) (d : D) (args : List (Value X)) : Option (Value X) :=
  (Env.bind { generics := d, fvars := fun _ => none, stack := [] } fbody.inputs args).bind fun env =>
    fbody.body.eval I isCall call env []

end

/-- Only the constructors, the patterns and the error monad have a meaning. -/
def noInterp : Interp Unit Empty where
  generics _ _ := ()
  qualif _ _ _ := none
  cvar _ _ := none
  apply _ _ := none
  lambda _ := none
  struct _ _ _ _ := none
  loop _ _ := none

def noCalls : FunCalls Unit Empty := fun _ _ => none

/-! ## Equations -/

section
variable {D X : Type} {I : Interp D X} {isCall : FunKey → Bool} {call : FunCalls D X} {env : Env D X}
  {args : List (Value X)} {ty : Ty}

@[simp] theorem Texpr.eval_fvar (f : FVarId) :
    (Texpr.mk (.fvar f) ty).eval I isCall call env args = (env.fvars f).bind fun v => I.applyTo v args := rfl

@[simp] theorem Texpr.eval_app (f x : Texpr) :
    (Texpr.mk (.app f x) ty).eval I isCall call env args =
      (x.eval I isCall call env []).bind fun v => f.eval I isCall call env (v :: args) := rfl

@[simp] theorem Texpr.eval_qualif (q : Qualif) :
    (Texpr.mk (.qualif q) ty).eval I isCall call env args = evalQualif I isCall call q env.generics args := rfl

@[simp] theorem Texpr.eval_lambda (pat : TPat) (inner : Texpr) :
    (Texpr.mk (.lambda pat inner) ty).eval I isCall call env args =
      (I.lambda fun v => (env.bind [pat] [v]).bind fun env => inner.eval I isCall call env []).bind
        fun v => I.applyTo v args := rfl

@[simp] theorem Texpr.eval_letE (monadic : Bool) (pat : TPat) (bound next : Texpr) :
    (Texpr.mk (.letE monadic pat bound next) ty).eval I isCall call env args =
      (bound.eval I isCall call env []).bind (evalLet I monadic pat (next.eval I isCall call) env args) := rfl

@[simp] theorem Texpr.eval_switch (scrut : Texpr) (body : SwitchBody Texpr) :
    (Texpr.mk (.switch scrut body) ty).eval I isCall call env args =
      (scrut.eval I isCall call env []).bind (evalSwitch (body.map (Texpr.eval I isCall call)) env args) := by
  simp only [eval, visit_mk, Expr.visit_switch]
  rfl

@[simp] theorem Texpr.eval_structUpdate (s : StructUpdate Texpr) :
    (Texpr.mk (.structUpdate s) ty).eval I isCall call env args =
      (evalInit (s.init.map (Texpr.eval I isCall call)) env).bind fun init =>
        (evalUpdates env (s.updates.map fun u => (u.1, u.2.eval I isCall call))).bind fun updates =>
          (I.struct env.generics s.structId init updates).bind fun v => I.applyTo v args := by
  simp only [eval, visit_mk, Expr.visit_structUpdate]
  rfl

@[simp] theorem Texpr.eval_emeta (m : EMeta Texpr) (e : Texpr) :
    (Texpr.mk (.emeta m e) ty).eval I isCall call env args = e.eval I isCall call env args := by
  simp only [eval, visit_mk, Expr.visit_emeta]
  rfl

@[simp] theorem Texpr.eval_loop (l : Loop Texpr) : (Texpr.mk (.loop l) ty).eval I isCall call env args =
    (evalInputs env (l.inputs.map (Texpr.eval I isCall call))).bind fun vs =>
      (I.loop (evalLoopBody (l.loopBody.map (Texpr.eval I isCall call)) env) vs).bind fun v => I.applyTo v args := by
  simp only [eval, visit_mk, Expr.visit_loop]
  rfl

theorem Texpr.eval_retype (e : Expr) (ty ty' : Ty) :
    (Texpr.mk e ty).eval I isCall call = (Texpr.mk e ty').eval I isCall call := by
  simp only [eval, visit_mk]
  rfl

end

end Aeneas.Pure
