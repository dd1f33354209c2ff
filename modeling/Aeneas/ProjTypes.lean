import Aeneas.InterpTypes

/-!
# Projection types

A projection type is normalised to one that only tells which regions are
projected. The union, the intersection and the inclusion of two projections are
recursions over pairs of types.
-/

namespace Aeneas.Interp

open Llbc (Region RegionId RefKind BuiltinTy DeBruijnVar TypeDeclId)

def normalizeRegion (regions : IdSet Nat) : Region → Except Exn Region
  | .rVar (.free r) => .ok (if r ∈ regions then .rVar (.free 0) else .rErased)
  | .rBody _ => craise "unsupported: Body region"
  | r => .ok r

def normalizeProjTy (regions : IdSet Nat) (ty : Ty) : Except Exn Ty := ty.mapRegionsM (normalizeRegion regions)

/-! ## The union -/

def map2 {α β γ : Type} (f : α → β → Except Exn γ) : List α → List β → Except Exn (List γ)
  | [], [] => .ok []
  | a :: as, b :: bs => do
    let c ← f a b
    return c :: (← map2 f as bs)
  | _, _ => .error (.invalidArgument "List.map2")

def normProjRegionsUnion (strict : Bool) : Region → Region → Except Exn Region
  | .rVar (.free r1), .rVar (.free _) => do
    cassert (!strict) "Unexpected region intersection"
    return .rVar (.free r1)
  | .rVar (.free rid), .rErased => do
    sanityCheck (rid = 0)
    return .rVar (.free rid)
  | .rErased, .rVar (.free rid) => do
    sanityCheck (rid = 0)
    return .rVar (.free rid)
  | .rErased, .rErased => .ok .rErased
  | _, _ => internalError

def normProjTraitRefsUnion (tr1 tr2 : TraitRef) : Except Exn TraitRef := do
  sanityCheck (tr1 = tr2)
  return tr1

def normProjConstGenericsUnion (cg1 cg2 : ConstantExpr) : Except Exn ConstantExpr := do
  sanityCheck (cg1 = cg2)
  return cg1

section
variable (strict : Bool)

mutual

/-- The annotations of the arrays and of the slices are dropped. -/
def normProjTysUnion : Ty → Ty → Except Exn Ty
  | .tAdt id1 builtin regions1 types1 cgs1 refs1, .tAdt id2 _ regions2 types2 cgs2 refs2 => do
    sanityCheck (id1 = id2)
    let regions ← map2 (normProjRegionsUnion strict) regions1 regions2
    let types ← normProjTysUnions types1 types2
    let cgs ← map2 normProjConstGenericsUnion cgs1 cgs2
    return .tAdt id1 builtin regions types cgs (← map2 normProjTraitRefsUnion refs1 refs2)
  | .tVar id1, .tVar id2 => do
    sanityCheck (id1 = id2)
    return .tVar id1
  | .tScalar lit1, .tScalar lit2 => do
    sanityCheck (lit1 = lit2)
    return .tScalar lit1
  | .tNever, .tNever => .ok .tNever
  | .tRef r1 ty1 rk1, .tRef r2 ty2 rk2 => do
    sanityCheck (rk1 = rk2)
    let r ← normProjRegionsUnion strict r1 r2
    return .tRef r (← normProjTysUnion ty1 ty2) rk1
  | .tRawPtr ty1 rk1, .tRawPtr ty2 rk2 => do
    sanityCheck (rk1 = rk2)
    return .tRawPtr (← normProjTysUnion ty1 ty2) rk1
  | .tTraitType tr1 item1 generics1, .tTraitType tr2 item2 generics2 => do
    sanityCheck (item1 = item2)
    sanityCheck (generics1 = generics2)
    return .tTraitType (← normProjTraitRefsUnion tr1 tr2) item1 generics1
  | .tFnPtr rs1 false inputs1 output1 abi1 isVariadic1, .tFnPtr rs2 false inputs2 output2 abi2 isVariadic2 =>
    if abi1 = abi2 && isVariadic1 = isVariadic2 then do
      sanityCheck (rs1 = [])
      sanityCheck (rs2 = [])
      let inputs ← normProjTysUnions inputs1 inputs2
      return .tFnPtr [] false inputs (← normProjTysUnion output1 output2) abi1 isVariadic1
    else internalError
  | .tArray ty1 len1 _, .tArray ty2 len2 _ => do
    sanityCheck (len1 = len2)
    return .tArray (← normProjTysUnion ty1 ty2) len1 none
  | .tSlice ty1 _, .tSlice ty2 _ => do return .tSlice (← normProjTysUnion ty1 ty2) none
  | _, _ => internalError

def normProjTysUnions : List Ty → List Ty → Except Exn (List Ty)
  | [], [] => .ok []
  | ty1 :: tys1, ty2 :: tys2 => do
    let ty ← normProjTysUnion ty1 ty2
    return ty :: (← normProjTysUnions tys1 tys2)
  | _, _ => .error (.invalidArgument "List.map2")

end

end

/-! ## The comparison -/

section
-- the printer of the types
variable (tyToString : Ty → String)

def unexpectedInputs (ty1 ty2 : Ty) : String :=
  "Internal error, please report an issue.\n\nUnexpected inputs:\n- ty1: " ++ tyToString ty1 ++ "\n- ty2: " ++
    tyToString ty2

section
variable (allowErased dflt : Bool) (combine : Bool → Bool → Bool) (compareRegions : Region → Region → Except Exn Bool)

def checkRtys (ty1 ty2 : Ty) : Except Exn Unit := do
  if allowErased then return
  let b ← if ← tyIsRty ty1 then tyIsRty ty2 else pure false
  sanityCheck b

/-- The arguments are compared two by two, after the check that they have the same length. -/
def foldRegions : Bool → List Region → List Region → Except Exn Bool
  | b, r1 :: rs1, r2 :: rs2 => do
    let br ← compareRegions r1 r2
    foldRegions (combine b br) rs1 rs2
  | b, _, _ => .ok b

def checkCombine {α β : Type} (as : List α) (bs : List β) : Except Exn Unit :=
  if as.length = bs.length then .ok () else .error (.invalidArgument "List.combine")

mutual

def compareRtys (ty1 ty2 : Ty) : Except Exn Bool := do
  checkRtys allowErased ty1 ty2
  match ty1, ty2 with
  | .tScalar lit1, .tScalar lit2 =>
    sanityCheck (lit1 = lit2)
    return dflt
  | .tAdt id1 _ regions1 types1 cgs1 _, .tAdt id2 _ regions2 types2 cgs2 _ =>
    sanityCheck (id1 = id2)
    sanityCheck (cgs1 = cgs2)
    checkCombine regions1 regions2
    let paramsB ← foldRegions combine compareRegions dflt regions1 regions2
    checkCombine types1 types2
    let tysB ← compareRtysAll dflt types1 types2
    return combine paramsB tysB
  | .tArray ty1 len1 _, .tArray ty2 len2 _ =>
    sanityCheck (len1 = len2)
    compareRtys ty1 ty2
  | .tSlice ty1 _, .tSlice ty2 _ => compareRtys ty1 ty2
  | .tRef r1 ty1 kind1, .tRef r2 ty2 kind2 =>
    sanityCheck (kind1 = kind2)
    let regionsB ← compareRegions r1 r2
    let tysB ← compareRtys ty1 ty2
    return combine regionsB tysB
  | .tVar id1, .tVar id2 =>
    sanityCheck (id1 = id2)
    return dflt
  | .tTraitType ref1 item1 generics1, .tTraitType ref2 item2 generics2 =>
    sanityCheck (ref1 = ref2 && item1 = item2 && generics1 = generics2)
    return dflt
  | .tDynTrait, .tDynTrait => return dflt
  | ty1, ty2 => craise (unexpectedInputs tyToString ty1 ty2)

def compareRtysAll (b : Bool) (tys1 tys2 : List Ty) : Except Exn Bool :=
  match tys1, tys2 with
  | ty1 :: tys1, ty2 :: tys2 => do
    let bt ← compareRtys ty1 ty2
    compareRtysAll (combine b bt) tys1 tys2
  | _, _ => .ok b

end

end

-- whether a region is in a set, an erased region being in none if it is allowed
variable (regionInSet : Bool → Region → IdSet Nat → Except Exn Bool)

def projectionsIntersect (allowErased : Bool) (rset1 : IdSet Nat) (ty1 : Ty) (rset2 : IdSet Nat) (ty2 : Ty) :
    Except Exn Bool :=
  compareRtys tyToString allowErased false (· || ·)
    (fun r1 r2 => do if ← regionInSet allowErased r1 rset1 then regionInSet allowErased r2 rset2 else return false)
    ty1 ty2

def projectionContains (allowErased : Bool) (rset1 : IdSet Nat) (ty1 : Ty) (rset2 : IdSet Nat) (ty2 : Ty) :
    Except Exn Bool :=
  compareRtys tyToString allowErased true (· && ·)
    (fun r1 r2 => do
      if ← regionInSet allowErased r1 rset1 then return true else return !(← regionInSet allowErased r2 rset2))
    ty1 ty2

/-- The projected regions of a normalised type are those with the id 0. -/
def zeroSet : IdSet Nat := (∅ : IdSet Nat).insert 0

def normProjTyContains (ty1 ty2 : Ty) : Except Exn Bool :=
  projectionContains tyToString regionInSet true zeroSet ty1 zeroSet ty2

def normProjTysIntersect (ty1 ty2 : Ty) : Except Exn Bool :=
  projectionsIntersect tyToString regionInSet true zeroSet ty1 zeroSet ty2

end

end Aeneas.Interp
