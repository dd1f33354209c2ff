import Aeneas.Llbc

/-!
# The types of the interpreter

The types that the values of the symbolic execution carry. A type whose regions
are erased is the type of a value; one with regions is projected. The constant
expressions and the trait references are only compared.
-/

namespace Aeneas.Interp

open Llbc (Region RegionId RefKind BuiltinTy DeBruijnVar TypeDeclId)

inductive IntSize where
  | word | b8 | b16 | b32 | b64 | b128
deriving DecidableEq

inductive FloatTy where
  | f16 | f32 | f64 | f128
deriving DecidableEq

inductive LiteralTy where
  | tInt (size : IntSize)
  | tUInt (size : IntSize)
  | tFloat (ty : FloatTy)
  | tBool
  | tChar
deriving DecidableEq

abbrev ConstantExpr := Nat
abbrev TraitRef := Nat

inductive Ty where
  | tAdt (id : TypeDeclId) (builtin : Option BuiltinTy) (regions : List Region) (types : List Ty)
      (constGenerics : List ConstantExpr) (traitRefs : List TraitRef)
  | tVar (v : DeBruijnVar)
  | tScalar (lit : LiteralTy)
  | tNever
  | tRef (r : Region) (ty : Ty) (kind : RefKind)
  | tRawPtr (ty : Ty) (kind : RefKind)
  | tTraitType (ref : TraitRef) (item generics : Nat)
  | tFnPtr (binderRegions : List RegionId) (isUnsafe : Bool) (inputs : List Ty) (output : Ty) (abi : Nat)
      (isVariadic : Bool)
  | tDynTrait
  | tArray (ty : Ty) (len : ConstantExpr) (annot : Option Nat)
  | tSlice (ty : Ty) (annot : Option Nat)
  -- the types that the interpreter does not support
  | tOther (shown : String)

/-! ## The regions of a type -/

mutual

def Ty.regions : Ty → List Region
  | .tAdt _ _ regions types _ _ => regions ++ regionsOfTys types
  | .tRef r ty _ => r :: ty.regions
  | .tRawPtr ty _ => ty.regions
  | .tFnPtr _ _ inputs output _ _ => regionsOfTys inputs ++ output.regions
  | .tArray ty _ _ => ty.regions
  | .tSlice ty _ => ty.regions
  | _ => []

def regionsOfTys : List Ty → List Region
  | [] => []
  | ty :: tys => ty.regions ++ regionsOfTys tys

end

section
variable (f : Region → Region)

mutual

def Ty.mapRegions : Ty → Ty
  | .tAdt id builtin regions types cgs refs => .tAdt id builtin (regions.map f) (mapRegionsOfTys types) cgs refs
  | .tRef r ty kind => .tRef (f r) ty.mapRegions kind
  | .tRawPtr ty kind => .tRawPtr ty.mapRegions kind
  | .tFnPtr rs isUnsafe inputs output abi isVariadic =>
    .tFnPtr rs isUnsafe (mapRegionsOfTys inputs) output.mapRegions abi isVariadic
  | .tArray ty len annot => .tArray ty.mapRegions len annot
  | .tSlice ty annot => .tSlice ty.mapRegions annot
  | ty => ty

def mapRegionsOfTys : List Ty → List Ty
  | [] => []
  | ty :: tys => ty.mapRegions :: mapRegionsOfTys tys

end

end

section
variable (f : Region → Except Exn Region)

mutual

def Ty.mapRegionsM : Ty → Except Exn Ty
  | .tAdt id builtin regions types cgs refs => do
    let regions ← regions.mapM f
    return .tAdt id builtin regions (← mapRegionsOfTysM types) cgs refs
  | .tRef r ty kind => do
    let r ← f r
    return .tRef r (← ty.mapRegionsM) kind
  | .tRawPtr ty kind => do return .tRawPtr (← ty.mapRegionsM) kind
  | .tFnPtr rs isUnsafe inputs output abi isVariadic => do
    let inputs ← mapRegionsOfTysM inputs
    return .tFnPtr rs isUnsafe inputs (← output.mapRegionsM) abi isVariadic
  | .tArray ty len annot => do return .tArray (← ty.mapRegionsM) len annot
  | .tSlice ty annot => do return .tSlice (← ty.mapRegionsM) annot
  | ty => .ok ty

def mapRegionsOfTysM : List Ty → Except Exn (List Ty)
  | [] => .ok []
  | ty :: tys => do
    let ty ← ty.mapRegionsM
    return ty :: (← mapRegionsOfTysM tys)

end

end

/-- A visitor that looks for a region stops at the first one which it rejects, and fails on those of a body. -/
def regionsAll (accepts : Region → Bool) : List Region → Except Exn Bool
  | [] => .ok true
  | .rBody _ :: _ => craise "unsupported: Body region"
  | r :: rs => if accepts r then regionsAll accepts rs else .ok false

/-- A type with regions: they are not erased, and not bound. -/
def tyIsRty (ty : Ty) : Except Exn Bool :=
  regionsAll (fun | .rVar .bound | .rErased => false | _ => true) ty.regions

end Aeneas.Interp
