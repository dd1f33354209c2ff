import Aeneas.Llbc

/-!
# The analysis of the types

For each type declaration, the analysis computes which borrows its values contain,
which of its type parameters are below borrows and which of its region parameters
label mutable borrows. The declarations of a recursive group are explored again as
long as an exploration reports an update.
-/

namespace Aeneas.Llbc

/-! ## Information about the types -/

structure SubtypeInfo where
  underBorrow : Bool
  underMutBorrow : Bool
deriving DecidableEq

abbrev TypeParamInfo := SubtypeInfo
abbrev ExplInfo := SubtypeInfo

structure TypeBorrowsInfo where
  containsStatic : Bool
  containsBorrow : Bool
  containsMutBorrow : Bool
  containsNestedBorrows : Bool
  containsBorrowUnderMut : Bool
  containsNestedMut : Bool
deriving DecidableEq

structure GTypeInfo (π : Type) where
  borrowsInfo : TypeBorrowsInfo
  paramInfos : π
  hasRegions : Bool
  mutRegions : IdSet RegionId

abbrev TypeDeclInfo := GTypeInfo (List TypeParamInfo)
abbrev TyInfo := TypeBorrowsInfo
abbrev PartialTypeInfo := GTypeInfo (Option (List TypeParamInfo))
abbrev TypeInfos := IdMap TypeDeclId TypeDeclInfo

def explInfoInit : ExplInfo := ⟨false, false⟩

def typeBorrowsInfoInit : TypeBorrowsInfo := ⟨false, false, false, false, false, false⟩

def initializeGTypeInfo {π : Type} (hasRegions : Bool) (mutRegions : IdSet RegionId) (paramInfos : π) : GTypeInfo π :=
  { borrowsInfo := typeBorrowsInfoInit, paramInfos, hasRegions, mutRegions }

/-- What is known of the opaque types: the positions of the mutable regions of the builtin ones, and
what to do with the regions whose mutability was not computed. -/
structure AnalysisConfig where
  builtinMutRegions : TypeDeclId → Option (List Nat)
  opaqueTypesHaveMutRegionsByDefault : Bool

def opaqueMutRegions (cfg : AnalysisConfig) (def_ : TypeDecl) : IdSet RegionId :=
  match cfg.builtinMutRegions def_.defId with
  | some positions =>
    if positions.all (· < def_.generics.regions.length) then
      .ofList (positions.filterMap fun i => def_.generics.regions[i]?.map RegionParam.index)
    else ∅
  | none =>
    .ofList (def_.generics.regions.filterMap fun r =>
      match r.mutability with
      | .ltMutable => some r.index
      | .ltUnknown => if cfg.opaqueTypesHaveMutRegionsByDefault then some r.index else none
      | .ltShared => none)

def typeDeclIsOpaque (d : TypeDecl) : Bool :=
  match d.kind with
  | .opaqueDecl => true
  | _ => false

def initializeTypeDeclInfo (cfg : AnalysisConfig) (def_ : TypeDecl) : TypeDeclInfo :=
  initializeGTypeInfo (def_.generics.regions.length > 0)
    (if typeDeclIsOpaque def_ then opaqueMutRegions cfg def_ else ∅)
    (def_.generics.types.map fun _ => ⟨false, false⟩)

def typeDeclInfoToPartialTypeInfo (info : TypeDeclInfo) : PartialTypeInfo :=
  { info with paramInfos := some info.paramInfos }

def partialTypeInfoToTypeDeclInfo (info : PartialTypeInfo) : Except Exn TypeDeclInfo :=
  match info.paramInfos with
  | some paramInfos => .ok { info with paramInfos }
  | none => .error (.invalidArgument "option is None")

def partialTypeInfoToTyInfo (info : PartialTypeInfo) : TyInfo := info.borrowsInfo

def TraitRefKind.reducible : TraitRefKind → Except Exn Bool
  | .builtinOrAuto => .ok true
  | .traitImpl => .ok true
  | .self => .ok false
  | .clause _ => .ok false
  | .parentClause ref => ref.reducible
  | .dyn => craise "Unreachable"
  | .itemClause _ => .ok false
  | .unknownTrait => .ok false

/-! ## The regions of a type -/

mutual

def Ty.regions : Ty → List Region
  | .tAdt _ _ ⟨regions, types, refs⟩ => regions ++ (regionsTys types ++ regionsRefs refs)
  | .tRef r ty _ => r :: ty.regions
  | .tRawPtr ty => ty.regions
  | .tArray ty => ty.regions
  | .tSlice ty => ty.regions
  | .tTraitType ⟨_, regions, types⟩ => regions ++ regionsTys types
  | .tFnPtr _ inputs output => regionsTys inputs ++ output.regions
  | .tFnDef _ ⟨regions, types, refs⟩ => regions ++ (regionsTys types ++ regionsRefs refs)
  | .tVar _ => []
  | .tScalar => []
  | .tNever => []
  | .tDynTrait => []
  | .tError => []
  | .unsupported => []

def regionsTys : List Ty → List Region
  | [] => []
  | ty :: tys => ty.regions ++ regionsTys tys

def regionsRefs : List (TraitRef Ty) → List Region
  | [] => []
  | ⟨_, regions, types⟩ :: refs => regions ++ (regionsTys types ++ regionsRefs refs)

end

def GenericArgs.hasRegions (g : GenericArgs Ty) : Bool :=
  !(g.regions ++ (regionsTys g.types ++ regionsRefs g.traitRefs)).isEmpty

section
variable {σ : Type} (f : Region → StateM σ Region)

mutual

def Ty.mapRegions : Ty → StateM σ Ty
  | .tAdt id builtin ⟨regions, types, refs⟩ => do
    let regions ← regions.mapM f
    let types ← mapRegionsTys types
    let refs ← mapRegionsRefs refs
    pure (.tAdt id builtin ⟨regions, types, refs⟩)
  | .tRef r ty kind => do
    let r ← f r
    let ty ← ty.mapRegions
    pure (.tRef r ty kind)
  | .tRawPtr ty => do
    let ty ← ty.mapRegions
    pure (.tRawPtr ty)
  | .tArray ty => do
    let ty ← ty.mapRegions
    pure (.tArray ty)
  | .tSlice ty => do
    let ty ← ty.mapRegions
    pure (.tSlice ty)
  | .tTraitType ⟨kind, regions, types⟩ => do
    let regions ← regions.mapM f
    let types ← mapRegionsTys types
    pure (.tTraitType ⟨kind, regions, types⟩)
  | .tFnPtr binderRegions inputs output => do
    let inputs ← mapRegionsTys inputs
    let output ← output.mapRegions
    pure (.tFnPtr binderRegions inputs output)
  | .tFnDef binderRegions ⟨regions, types, refs⟩ => do
    let regions ← regions.mapM f
    let types ← mapRegionsTys types
    let refs ← mapRegionsRefs refs
    pure (.tFnDef binderRegions ⟨regions, types, refs⟩)
  | .tVar v => pure (.tVar v)
  | .tScalar => pure .tScalar
  | .tNever => pure .tNever
  | .tDynTrait => pure .tDynTrait
  | .tError => pure .tError
  | .unsupported => pure .unsupported

def mapRegionsTys : List Ty → StateM σ (List Ty)
  | [] => pure []
  | ty :: tys => do
    let ty ← ty.mapRegions
    let tys ← mapRegionsTys tys
    pure (ty :: tys)

def mapRegionsRefs : List (TraitRef Ty) → StateM σ (List (TraitRef Ty))
  | [] => pure []
  | ⟨kind, regions, types⟩ :: refs => do
    let regions ← regions.mapM f
    let types ← mapRegionsTys types
    let refs ← mapRegionsRefs refs
    pure (⟨kind, regions, types⟩ :: refs)

end

end

/-! ## The exploration of a type -/

abbrev UpdateM := StateT Bool (Except Exn)

def checkUpdateBool (original nv : Bool) : UpdateM Bool :=
  if nv && !original then do
    set true
    pure nv
  else pure original

def Region.isStatic : Region → Bool
  | .rStatic => true
  | _ => false

section
variable (infos : TypeInfos) (tyInfo₀ : PartialTypeInfo)

/-- If the region is known, the regions returned are those of the start of the exploration. -/
def updateMutRegionsWithRid (mutRegions : IdSet RegionId) (rid : RegionId) : UpdateM (IdSet RegionId) :=
  if rid ∈ mutRegions then pure tyInfo₀.mutRegions
  else do
    set true
    pure (mutRegions.insert rid)

def updateMutRegions (mutRegions : IdSet RegionId) : Region → UpdateM (IdSet RegionId)
  | .rStatic => pure mutRegions
  | .rVar .bound => pure mutRegions
  | .rErased => internalError
  | .rVar (.free rid) => updateMutRegionsWithRid tyInfo₀ mutRegions rid
  | .rBody _ => craise (β := IdSet RegionId) "unsupported: Body region"

def updateTyInfo (tyInfo : PartialTypeInfo) (mutRegion : Option Region) (info : TypeBorrowsInfo) :
    UpdateM PartialTypeInfo := do
  let original := tyInfo.borrowsInfo
  let containsStatic ← checkUpdateBool original.containsStatic info.containsStatic
  let containsBorrow ← checkUpdateBool original.containsBorrow info.containsBorrow
  let containsMutBorrow ← checkUpdateBool original.containsMutBorrow info.containsMutBorrow
  let containsNestedBorrows ← checkUpdateBool original.containsNestedBorrows info.containsNestedBorrows
  let containsBorrowUnderMut ← checkUpdateBool original.containsBorrowUnderMut info.containsBorrowUnderMut
  let containsNestedMut ← checkUpdateBool original.containsNestedMut info.containsNestedMut
  let borrowsInfo : TypeBorrowsInfo :=
    { containsStatic, containsBorrow, containsMutBorrow, containsNestedBorrows, containsBorrowUnderMut,
      containsNestedMut }
  let mutRegions ←
    match mutRegion with
    | none => pure tyInfo.mutRegions
    | some mutRegion => updateMutRegions tyInfo₀ tyInfo.mutRegions mutRegion
  pure { tyInfo with borrowsInfo, mutRegions }

def expectFreeVar : DeBruijnVar → Except Exn TypeVarId
  | .free id => .ok id
  | .bound => craise "Found a bound variable"

def nth {α : Type} (l : List α) (i : Nat) : Except Exn α :=
  match l[i]? with
  | some a => .ok a
  | none => .error (.failure "nth")

def analyzeVar (explInfo : ExplInfo) (tyInfo : PartialTypeInfo) (v : DeBruijnVar) : UpdateM PartialTypeInfo :=
  match tyInfo.paramInfos with
  | none => pure tyInfo
  | some paramInfos => do
    let id ← expectFreeVar v
    let paramInfo ← nth paramInfos id
    let underBorrow ← checkUpdateBool paramInfo.underBorrow explInfo.underBorrow
    let underMutBorrow ← checkUpdateBool paramInfo.underMutBorrow explInfo.underMutBorrow
    pure { tyInfo with paramInfos := some (paramInfos.set id { underBorrow, underMutBorrow }) }

def SubtypeInfo.enter (explInfo : ExplInfo) (kind : RefKind) : ExplInfo :=
  { underBorrow := true, underMutBorrow := explInfo.underMutBorrow || decide (kind = .rMut) }

def refBorrowsInfo (explInfo : ExplInfo) (r : Region) (kind : RefKind) : TypeBorrowsInfo where
  containsStatic := r.isStatic
  containsBorrow := true
  containsMutBorrow := decide (kind = .rMut)
  containsNestedBorrows := explInfo.underBorrow
  containsBorrowUnderMut := explInfo.underMutBorrow
  containsNestedMut := explInfo.underMutBorrow && decide (kind = .rMut)

def analyzeRef (explInfo : ExplInfo) (tyInfo : PartialTypeInfo) (r : Region) (kind : RefKind) :
    UpdateM PartialTypeInfo :=
  updateTyInfo tyInfo₀ tyInfo (if kind = .rMut then some r else none) (refBorrowsInfo explInfo r kind)

/-- A declaration with region parameters is taken to contain borrows; this update is not reported. -/
def analyzeAdt (adtInfo : TypeDeclInfo) (tyInfo : PartialTypeInfo) (regions : List Region) :
    UpdateM PartialTypeInfo := do
  let tyInfo ← updateTyInfo tyInfo₀ tyInfo none adtInfo.borrowsInfo
  let borrowsInfo := tyInfo.borrowsInfo
  let containsStatic ← checkUpdateBool borrowsInfo.containsStatic (regions.any Region.isStatic)
  pure { tyInfo with
    borrowsInfo := { borrowsInfo with
      containsBorrow := borrowsInfo.containsBorrow || adtInfo.hasRegions
      containsStatic } }

def paramBorrowsInfo (explInfo : ExplInfo) (paramInfo : TypeParamInfo) : TypeBorrowsInfo where
  containsStatic := false
  containsBorrow := paramInfo.underBorrow
  containsMutBorrow := paramInfo.underMutBorrow
  containsNestedBorrows := explInfo.underBorrow && paramInfo.underBorrow
  containsBorrowUnderMut := explInfo.underMutBorrow && paramInfo.underBorrow
  containsNestedMut := explInfo.underMutBorrow && paramInfo.underMutBorrow

def SubtypeInfo.join (explInfo : ExplInfo) (paramInfo : TypeParamInfo) : ExplInfo where
  underBorrow := explInfo.underBorrow || paramInfo.underBorrow
  underMutBorrow := explInfo.underMutBorrow || paramInfo.underMutBorrow

def analyzeRegions (adtInfo : TypeDeclInfo) (adtRid : RegionId) (mutRegions : IdSet RegionId) :
    List Region → UpdateM (IdSet RegionId)
  | [] => pure mutRegions
  | r :: regions => do
    let mutRegions ←
      match r with
      | .rStatic => pure mutRegions
      | .rVar .bound => pure mutRegions
      | .rErased => pure mutRegions
      | .rVar (.free rid) =>
        if adtRid ∈ adtInfo.mutRegions then updateMutRegionsWithRid tyInfo₀ mutRegions rid else pure mutRegions
      | .rBody _ => craise (β := IdSet RegionId) "unsupported: Body region"
    analyzeRegions adtInfo (adtRid + 1) mutRegions regions

mutual

def analyze (explInfo : ExplInfo) (tyInfo : PartialTypeInfo) : Ty → UpdateM PartialTypeInfo
  | .tScalar => pure tyInfo
  | .tNever => pure tyInfo
  | .tDynTrait => pure tyInfo
  | .tTraitType ⟨kind, _, _⟩ => do
    let _ ← kind.reducible
    pure tyInfo
  | .tVar v => analyzeVar explInfo tyInfo v
  | .tRef r ty kind => do
    let tyInfo ← analyzeRef tyInfo₀ explInfo tyInfo r kind
    analyze (explInfo.enter kind) tyInfo ty
  | .tRawPtr ty => analyze explInfo tyInfo ty
  | .tArray ty => analyze explInfo tyInfo ty
  | .tSlice ty => analyze explInfo tyInfo ty
  | .tAdt _ (some _) ⟨_, types, _⟩ => analyzeTys explInfo tyInfo types
  | .tAdt id none ⟨regions, types, _⟩ => do
    let adtInfo ← find infos id
    let tyInfo ← analyzeAdt tyInfo₀ adtInfo tyInfo regions
    if adtInfo.paramInfos.length = types.length then do
      let tyInfo ← analyzeParams explInfo tyInfo adtInfo.paramInfos types
      let mutRegions ← analyzeRegions tyInfo₀ adtInfo 0 tyInfo.mutRegions regions
      pure { tyInfo with mutRegions }
    else throw (.invalidArgument "List.combine")
  | .tFnPtr _ inputs output => do
    let tyInfo ← analyzeTys explInfo tyInfo inputs
    analyze explInfo tyInfo output
  | .tFnDef binderRegions generics => do
    cassert binderRegions.isEmpty "Unimplemented"
    cassert (!generics.hasRegions) "Unimplemented"
    pure tyInfo
  | .tError => craise (β := PartialTypeInfo) "Found type error in the output of charon"
  | .unsupported => craise (β := PartialTypeInfo) "unsupported type"

def analyzeTys (explInfo : ExplInfo) (tyInfo : PartialTypeInfo) : List Ty → UpdateM PartialTypeInfo
  | [] => pure tyInfo
  | ty :: tys => do
    let tyInfo ← analyze explInfo tyInfo ty
    analyzeTys explInfo tyInfo tys

def analyzeParams (explInfo : ExplInfo) (tyInfo : PartialTypeInfo) (paramInfos : List TypeParamInfo) :
    List Ty → UpdateM PartialTypeInfo
  | [] => pure tyInfo
  | ty :: tys =>
    match paramInfos with
    | [] => pure tyInfo
    | paramInfo :: paramInfos => do
      let tyInfo ← updateTyInfo tyInfo₀ tyInfo none (paramBorrowsInfo explInfo paramInfo)
      let tyInfo ← analyze (explInfo.join paramInfo) tyInfo ty
      analyzeParams explInfo tyInfo paramInfos tys

end

end

def analyzeFullTy (infos : TypeInfos) (tyInfo : PartialTypeInfo) (ty : Ty) : UpdateM PartialTypeInfo :=
  analyze infos tyInfo explInfoInit tyInfo ty

/-! ## The declarations -/

def TypeDecl.fieldsTys (def_ : TypeDecl) : Except Exn (List Ty) :=
  match def_.kind with
  | .struct fields => .ok (fields.map Field.fieldTy)
  | .enum variants => .ok (variants.flatMap fun v => v.fields.map Field.fieldTy)
  | .alias _ => craise "type aliases should have been removed earlier"
  | .union _ => craise "unions are not supported"
  | .opaqueDecl => craise "unreachable"
  | .tDeclError => craise "unreachable"

def analyzeFields (infos : TypeInfos) (tyInfo : PartialTypeInfo) : List Ty → UpdateM PartialTypeInfo
  | [] => pure tyInfo
  | ty :: tys => do
    let tyInfo ← analyzeFullTy infos tyInfo ty
    analyzeFields infos tyInfo tys

def analyzeTypeDecl (infos : TypeInfos) (def_ : TypeDecl) : UpdateM TypeInfos :=
  if typeDeclIsOpaque def_ then pure infos
  else do
    let fieldsTys ← def_.fieldsTys
    let info ← find infos def_.defId
    let info ← analyzeFields infos (typeDeclInfoToPartialTypeInfo info) fieldsTys
    let info ← partialTypeInfoToTypeDeclInfo info
    pure (infos.insert def_.defId info)

def analyzeTypeDecls (infos : TypeInfos) : List TypeDecl → UpdateM TypeInfos
  | [] => pure infos
  | def_ :: defs => do
    let infos ← analyzeTypeDecl infos def_
    analyzeTypeDecls infos defs

def analyzeRounds (defs : List TypeDecl) : Nat → TypeInfos → Except Exn TypeInfos
  | 0, _ => .error .outOfFuel
  | depth + 1, infos => do
    let (infos, updated) ← (analyzeTypeDecls infos defs).run false
    if updated then analyzeRounds defs depth infos else .ok infos

def lookupDecls (crate : Crate) (ids : List TypeDeclId) : Except Exn (List TypeDecl) :=
  ids.mapM fun id =>
    match crate.typeDecls[id]? with
    | some def_ => .ok def_
    | none => craise "Internal error: please report an issue. Missing type declaration"

def initializeTypeDecls (cfg : AnalysisConfig) (infos : TypeInfos) (defs : List TypeDecl) : TypeInfos :=
  defs.foldl (fun infos def_ => infos.insert def_.defId (initializeTypeDeclInfo cfg def_)) infos

def analyzeTypeDeclarationGroup (cfg : AnalysisConfig) (crate : Crate) (depth : Nat) (infos : TypeInfos)
    (decl : TypeDeclarationGroup) : Except Exn TypeInfos := do
  let defs ← lookupDecls crate decl.ids
  analyzeRounds defs depth (initializeTypeDecls cfg infos defs)

/-! ## The types -/

def Region.freeId : Region → Option RegionId
  | .rVar (.free rid) => some rid
  | _ => none

def firstFreshRegion (ty : Ty) : RegionId :=
  (ty.regions.filterMap Region.freeId).foldl (fun next rid => max next (rid + 1)) 0

/-- The next fresh identifier, and the regions which were met before. The identifier drawn for a
region is used from its second occurrence on. -/
def replaceBodyRegion : Region → StateM (RegionId × IdMap RegionId RegionId) Region
  | .rBody rid => do
    let (next, map) ← get
    match map[rid]? with
    | none => do
      set (next + 1, map.insert rid next)
      pure (.rVar (.free rid))
    | some rid => pure (.rVar (.free rid))
  | r => pure r

def tyReplaceBodyRegionsWithFreeRegions (ty : Ty) : Ty :=
  ((ty.mapRegions replaceBodyRegion).run (firstFreshRegion ty, ∅)).1

def analyzeTy (infos : TypeInfos) (ty : Ty) : Except Exn TyInfo := do
  let ty := tyReplaceBodyRegionsWithFreeRegions ty
  let (tyInfo, _) ← (analyzeFullTy infos (initializeGTypeInfo false ∅ none) ty).run false
  .ok (partialTypeInfoToTyInfo tyInfo)

end Aeneas.Llbc
