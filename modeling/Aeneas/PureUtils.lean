import Aeneas.PureEvalScope

/-!
# Constructors and destructors of the pure AST

The helpers which the micro-passes share. An application is a chain of nodes,
and it evaluates its arguments before its head.
-/

namespace Aeneas.Pure

/-! ## Configuration -/

inductive Backend where
  | fStar | coq | lean | hol4 | isabelle
deriving DecidableEq

structure FuelConfig where
  backend : Backend
  useFuel : Bool
  failHard : Bool
  decomposeMonadicLetBindings : Bool

/-! ## Types and expressions -/

def emptyGenericArgs : GenericArgs := .mk [] [] []

def mkErrorTy : Ty := .adt (.builtin .error) emptyGenericArgs

def mkBoolTy : Ty := .literal .bool

def mkArrows (inputs : List Ty) (output : Ty) : Ty := inputs.foldr .arrow output

def destructArrows : Ty → List Ty × Ty
  | .arrow ty0 ty1 => (ty0 :: (destructArrows ty1).1, (destructArrows ty1).2)
  | ty => ([], ty)

def destructAppsAux : Texpr → List Texpr → Texpr × List Texpr
  | .mk (.app f x) _, args => destructAppsAux f (x :: args)
  | e, args => (e, args)

def destructApps (e : Texpr) : Texpr × List Texpr := destructAppsAux e []

/-- The error on a type which is not an arrow is registered; it is raised if the errors are not deferred. -/
def mkApp (cfg : FuelConfig) (app arg : Texpr) : Except Exn Texpr :=
  match app.ty with
  | .arrow _ ty1 => .ok (.mk (.app app arg) ty1)
  | ty => if cfg.failHard then craise "Expected an arrow type" else .ok (.mk (.app app arg) ty)

def mkApps (cfg : FuelConfig) (app : Texpr) (args : List Texpr) : Except Exn Texpr := args.foldlM (mkApp cfg) app

def mkTexprFromFVar (v : FVar) : Texpr := .mk (.fvar v.id) v.ty

def mkTPatFromFVar (v : FVar) : TPat := .mk (.opened v none) v.ty

def mkOpenedLet (monadic : Bool) (lv : TPat) (re next : Texpr) : Texpr := .mk (.letE monadic lv re next) next.ty

def mkError (error : VariantId) : Texpr :=
  .mk (.qualif { id := .adtCons { adtId := .builtin .error, variantId := some error }, generics := emptyGenericArgs })
    mkErrorTy

def mkResultFailTexpr (cfg : FuelConfig) (error : Texpr) (ty : Ty) : Except Exn Texpr :=
  let generics := .mk [ty] [] []
  let cons := .mk (.qualif { id := .adtCons { adtId := .builtin .result, variantId := some resultFailId }, generics })
    (.arrow error.ty (.adt (.builtin .result) generics))
  mkApp cfg cons error

def TPat.ty : TPat → Ty
  | .mk _ ty => ty

/-! ## Tuples and results -/

def loopResultContinueId : VariantId := 0
def loopResultBreakId : VariantId := 1
def loopResultFailId : VariantId := 2

def mkGenericArgsFromTypes (types : List Ty) : GenericArgs := .mk types [] []

def mkSimplTupleTy : List Ty → Ty
  | [ty] => ty
  | tys => .adt .tuple (mkGenericArgsFromTypes tys)

def mkResultTy (ty : Ty) : Ty := .adt (.builtin .result) (mkGenericArgsFromTypes [ty])

def mkTrue : Texpr := .mk (.const (.bool true)) mkBoolTy

def mkFalse : Texpr := .mk (.const (.bool false)) mkBoolTy

def mkSimplTuplePat : List TPat → TPat
  | [v] => v
  | vl => .mk (.adt none vl) (.adt .tuple (mkGenericArgsFromTypes (vl.map TPat.ty)))

def mkQualifApps (cfg : FuelConfig) (app : Qualif) (args : List Texpr) (ty : Ty) : Except Exn Texpr :=
  mkApps cfg (.mk (.qualif app) (mkArrows (args.map Texpr.ty) ty)) args

def mkSimplTupleTexpr (cfg : FuelConfig) : List Texpr → Except Exn Texpr
  | [v] => .ok v
  | vl =>
    let generics := mkGenericArgsFromTypes (vl.map Texpr.ty)
    mkQualifApps cfg { id := .adtCons { adtId := .tuple, variantId := none }, generics } vl (.adt .tuple generics)

def mkResultOkTexpr (cfg : FuelConfig) (v : Texpr) : Except Exn Texpr :=
  let generics := mkGenericArgsFromTypes [v.ty]
  mkQualifApps cfg { id := .adtCons { adtId := .builtin .result, variantId := some resultOkId }, generics } [v]
    (.adt (.builtin .result) generics)

def mkCons (adtId : TypeId) (variantId : VariantId) (types : List Ty) (x : Texpr) : Texpr :=
  let generics := mkGenericArgsFromTypes types
  .mk (.app (.mk (.qualif { id := .adtCons { adtId, variantId := some variantId }, generics })
    (.arrow x.ty (.adt adtId generics))) x) (.adt adtId generics)

def mkOk (x : Texpr) : Texpr := mkCons (.builtin .result) resultOkId [x.ty] x

def mkEMeta (m : EMeta Texpr) (e : Texpr) : Texpr := .mk (.emeta m e) e.ty

def mkOpenedLets (monadic : Bool) (lets : List (TPat × Texpr)) (next : Texpr) : Texpr :=
  lets.foldr (fun x e => mkOpenedLet monadic x.1 x.2 e) next

def Texpr.consId (e : Texpr) : Option AdtConsId :=
  match (destructApps e).1.e with
  | .qualif q =>
    match q.id with
    | .adtCons id => some id
    | _ => none
  | _ => none

def Texpr.isConsOf (adtId : TypeId) (variantIds : List VariantId) (e : Texpr) : Bool :=
  match e.consId with
  | some id => id.adtId == adtId && id.variantId.any variantIds.contains && (destructApps e).2.length == 1
  | none => false

def isResultFail : Texpr → Bool := Texpr.isConsOf (.builtin .result) [resultFailId]

def isResultOk : Texpr → Bool := Texpr.isConsOf (.builtin .result) [resultOkId]

def isLoopResultFailBreakContinue : Texpr → Bool :=
  Texpr.isConsOf (.builtin .loopResult) [loopResultBreakId, loopResultContinueId, loopResultFailId]

def getTupleSize (e : Texpr) : Option Nat :=
  match e.consId with
  | some id => if id.adtId = .tuple then some (destructApps e).2.length else none
  | none => none

def GenericArgs.types : GenericArgs → List Ty
  | .mk types _ _ => types

def GenericArgs.onlyTypes : GenericArgs → Bool
  | .mk _ constGenerics traitRefs => constGenerics.isEmpty && traitRefs.isEmpty

def destructTupleTexpr (e : Texpr) : Except Exn (List Texpr) :=
  match e.ty with
  | .adt .tuple generics => do
    sanityCheck generics.onlyTypes
    sanityCheck ((getTupleSize e).all (· == generics.types.length))
    .ok (destructApps e).2
  | _ => internalError

def optDestructTupleTPat : TPat → Except Exn (Option (List TPat))
  | .mk pat (.adt .tuple generics) => do
    sanityCheck generics.onlyTypes
    match pat with
    | .adt _ fields => .ok (some fields)
    | _ => .ok none
  | _ => .ok none

def tyAsAdt : Ty → Except Exn (TypeId × GenericArgs)
  | .adt id generics => .ok (id, generics)
  | _ => craise "Not an ADT"

section
variable (cfg : FuelConfig)

mutual

def tpatToTexpr : TPat → Except Exn (Option Texpr)
  | .mk (.constant l) ty => .ok (some (.mk (.const l) ty))
  | .mk (.opened v _) ty => .ok (some (.mk (.fvar v.id) ty))
  | .mk (.bound _ _) _ => internalError
  | .mk .ignored _ => .ok none
  | .mk (.adt variantId fields) ty => do
    match ← tpatsToTexprs fields with
    | none => .ok none
    | some fields => do
      let (adtId, generics) ← tyAsAdt ty
      let e ← mkQualifApps cfg { id := .adtCons { adtId, variantId }, generics } fields ty
      .ok (some (.mk e.e ty))

def tpatsToTexprs : List TPat → Except Exn (Option (List Texpr))
  | [] => .ok (some [])
  | p :: ps => do
    let e ← tpatToTexpr p
    let es ← tpatsToTexprs ps
    .ok (e.bind fun e => es.map (e :: ·))

end

end

/-! ## Applications -/

inductive IsApps : Texpr → List Texpr → Texpr → Prop
  | nil (f : Texpr) : IsApps f [] f
  | cons {f x e : Texpr} {args : List Texpr} (ty : Ty) (h : IsApps (.mk (.app f x) ty) args e) : IsApps f (x :: args) e

theorem IsApps.snoc {f x e : Texpr} {args : List Texpr} (h : IsApps f args e) (ty : Ty) :
    IsApps f (args ++ [x]) (.mk (.app e x) ty) := by
  induction h with
  | nil f => exact .cons ty (.nil _)
  | cons ty' _ ih => exact .cons ty' ih

theorem destructAppsAux_eq : ∀ (e : Texpr) (args : List Texpr),
    destructAppsAux e args = ((destructApps e).1, (destructApps e).2 ++ args)
  | .mk e ty, args => by
    cases e with
    | app f x =>
      have h := destructAppsAux_eq f
      show destructAppsAux f (x :: args) = ((destructAppsAux f [x]).1, (destructAppsAux f [x]).2 ++ args)
      rw [h, h [x], List.append_assoc, List.singleton_append]
    | _ => rfl

theorem destructApps_app (f x : Texpr) (ty : Ty) :
    destructApps (.mk (.app f x) ty) = ((destructApps f).1, (destructApps f).2 ++ [x]) :=
  destructAppsAux_eq f [x]

def Texpr.IsHead (e : Texpr) : Prop := ∀ f x ty, e ≠ .mk (.app f x) ty

theorem isApps_destructApps : ∀ e : Texpr, (destructApps e).1.IsHead ∧ IsApps (destructApps e).1 (destructApps e).2 e
  | .mk e ty => by
    cases e with
    | app f x =>
      rw [destructApps_app]
      exact ⟨(isApps_destructApps f).1, (isApps_destructApps f).2.snoc ty⟩
    | _ => exact ⟨nofun, .nil _⟩

theorem mkApp_eq_ok {cfg : FuelConfig} {f x e : Texpr} (h : mkApp cfg f x = .ok e) : ∃ ty, e = .mk (.app f x) ty := by
  unfold mkApp at h
  split at h
  · exact ⟨_, (Except.ok.inj h).symm⟩
  · split at h
    · cases h
    · exact ⟨_, (Except.ok.inj h).symm⟩

theorem isApps_mkApps {cfg : FuelConfig} : ∀ {args : List Texpr} {f e : Texpr}, mkApps cfg f args = .ok e →
    IsApps f args e
  | [], f, e, h => by
    obtain rfl : f = e := Except.ok.inj h
    exact .nil f
  | x :: args, f, e, h => by
    rw [mkApps, List.foldlM_cons, bind_eq_ok] at h
    obtain ⟨g, hg, h⟩ := h
    obtain ⟨ty, rfl⟩ := mkApp_eq_ok hg
    exact .cons ty (isApps_mkApps h)

section
variable {free : FVarId → Bool} {ctx : Ctx} {f e : Texpr} {args : List Texpr}

theorem IsApps.openedIn (h : IsApps f args e) :
    e.OpenedIn free ctx ↔ f.OpenedIn free ctx ∧ ∀ x ∈ args, x.OpenedIn free ctx := by
  induction h with
  | nil f => simp
  | cons ty _ ih =>
    rw [ih, Texpr.openedIn_app, List.forall_mem_cons, and_assoc]

theorem IsApps.binderIds (h : IsApps f args e) : e.binderIds = f.binderIds ++ args.flatMap Texpr.binderIds := by
  induction h with
  | nil f => simp
  | cons ty _ ih => rw [ih, Texpr.binderIds_app, List.flatMap_cons, List.append_assoc]

variable {D X : Type} {I : Interp D X} {isCall : FunKey → Bool} {call : FunCalls D X} {env : Env D X}

def evalArgs (I : Interp D X) (isCall : FunKey → Bool) (call : FunCalls D X) (env : Env D X) :
    List Texpr → Option (List (Value X))
  | [] => some []
  | x :: args => (x.eval I isCall call env []).bind fun v => (evalArgs I isCall call env args).bind fun vs =>
    some (v :: vs)

theorem IsApps.eval (h : IsApps f args e) (rest : List (Value X)) : e.eval I isCall call env rest =
    (evalArgs I isCall call env args).bind fun vs => f.eval I isCall call env (vs ++ rest) := by
  induction h with
  | nil f => rfl
  | cons ty _ ih =>
    rename_i f x e args _
    rw [ih]
    simp only [Texpr.eval_app, evalArgs]
    cases x.eval I isCall call env [] <;> cases evalArgs I isCall call env args <;> rfl

end

end Aeneas.Pure
