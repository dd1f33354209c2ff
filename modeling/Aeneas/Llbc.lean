import Aeneas.Collections

/-!
# Types of the low-level borrow calculus

The types, generics and type declarations which the analyses of the types read. A
variable is free if it is bound by an item: its identifier is then the position of
the parameter. Which binder inside of a type a bound variable belongs to is never
looked at.
-/

namespace Aeneas.Llbc

open List

abbrev RegionId := Nat
abbrev TypeVarId := Nat
abbrev TraitClauseId := Nat
abbrev TypeDeclId := Nat

inductive DeBruijnVar where
  | bound
  | free (id : Nat)
deriving DecidableEq

inductive Region where
  | rStatic
  | rVar (v : DeBruijnVar)
  | rBody (id : RegionId)
  | rErased
deriving DecidableEq

inductive RefKind where
  | rMut | rShared
deriving DecidableEq

inductive BuiltinTy where
  | tTuple | tBox | tStr
deriving DecidableEq

inductive TraitRefKind where
  | self
  | clause (v : DeBruijnVar)
  | parentClause (ref : TraitRefKind)
  | itemClause (ref : TraitRefKind)
  | traitImpl
  | builtinOrAuto
  | dyn
  | unknownTrait
deriving DecidableEq

/-- The regions and the types of the arguments of the trait. The trait references among these arguments, and the
regions and types in the kind, are left out, although the visitors of the source enter them. -/
structure TraitRef (α : Type) where
  kind : TraitRefKind
  regions : List Region
  types : List α

structure GenericArgs (α : Type) where
  regions : List Region
  types : List α
  traitRefs : List (TraitRef α)

inductive Ty where
  | tAdt (id : TypeDeclId) (builtin : Option BuiltinTy) (generics : GenericArgs Ty)
  | tVar (v : DeBruijnVar)
  | tScalar
  | tNever
  | tRef (r : Region) (ty : Ty) (kind : RefKind)
  | tRawPtr (ty : Ty)
  | tArray (ty : Ty)
  | tSlice (ty : Ty)
  | tTraitType (ref : TraitRef Ty)
  | tFnPtr (binderRegions : List RegionId) (inputs : List Ty) (output : Ty)
  | tFnDef (binderRegions : List RegionId) (generics : GenericArgs Ty)
  -- without its predicate, which the analyses ignore (`type_analysis_ignore_dyn`) but other visitors enter
  | tDynTrait
  | tError
  | unsupported

/-! ## Subterms -/

/-- The types which an exploration of the type goes on with; the trait references are not explored. -/
def Ty.parts : Ty → List Ty
  | .tAdt _ _ generics => generics.types
  | .tRef _ ty _ => [ty]
  | .tRawPtr ty => [ty]
  | .tArray ty => [ty]
  | .tSlice ty => [ty]
  | .tFnPtr _ inputs output => inputs ++ [output]
  | _ => []

theorem GenericArgs.sizeOf_lt {g : GenericArgs Ty} {ty : Ty} (h : ty ∈ g.types) : sizeOf ty < sizeOf g := by
  obtain ⟨regions, types, refs⟩ := g
  have hlt : sizeOf ty < sizeOf types := List.sizeOf_lt_of_mem h
  simp only [GenericArgs.mk.sizeOf_spec]
  omega

theorem Ty.sizeOf_parts {ty part : Ty} (h : part ∈ ty.parts) : sizeOf part < sizeOf ty := by
  cases ty with
  | tAdt id builtin g =>
    have hlt := GenericArgs.sizeOf_lt h
    simp only [tAdt.sizeOf_spec]
    omega
  | tFnPtr binder inputs output =>
    simp only [tFnPtr.sizeOf_spec]
    rcases mem_append.mp h with hin | hout
    · have hlt := List.sizeOf_lt_of_mem hin
      omega
    · obtain rfl := mem_singleton.mp hout
      omega
  | tRef r ty kind =>
    obtain rfl := mem_singleton.mp h
    simp only [tRef.sizeOf_spec]
    omega
  | tRawPtr ty =>
    obtain rfl := mem_singleton.mp h
    simp only [tRawPtr.sizeOf_spec]
    omega
  | tArray ty =>
    obtain rfl := mem_singleton.mp h
    simp only [tArray.sizeOf_spec]
    omega
  | tSlice ty =>
    obtain rfl := mem_singleton.mp h
    simp only [tSlice.sizeOf_spec]
    omega
  | _ => cases h

theorem Ty.parts_induct {P : Ty → Prop} (step : ∀ ty, (∀ part ∈ ty.parts, P part) → P ty) (ty : Ty) : P ty :=
  step ty fun part _ => Ty.parts_induct step part
termination_by sizeOf ty
decreasing_by exact Ty.sizeOf_parts ‹_›

/-! ## Substitution -/

structure Subst where
  region : RegionId → Region
  ty : TypeVarId → Ty
  clause : TraitClauseId → TraitRefKind

def Region.substitute (subst : Subst) : Region → Region
  | .rVar (.free id) => subst.region id
  | r => r

def TraitRefKind.substitute (subst : Subst) : TraitRefKind → TraitRefKind
  | .clause (.free id) => subst.clause id
  | .parentClause ref => .parentClause (ref.substitute subst)
  | .itemClause ref => .itemClause (ref.substitute subst)
  | kind => kind

section
variable (subst : Subst)

mutual

def Ty.substitute : Ty → Ty
  | .tAdt id builtin ⟨regions, types, refs⟩ =>
    .tAdt id builtin ⟨regions.map (Region.substitute subst), substituteTys types, substituteRefs refs⟩
  | .tVar (.free id) => subst.ty id
  | .tVar .bound => .tVar .bound
  | .tRef r ty kind => .tRef (r.substitute subst) ty.substitute kind
  | .tRawPtr ty => .tRawPtr ty.substitute
  | .tArray ty => .tArray ty.substitute
  | .tSlice ty => .tSlice ty.substitute
  | .tTraitType ⟨kind, regions, types⟩ =>
    .tTraitType ⟨kind.substitute subst, regions.map (Region.substitute subst), substituteTys types⟩
  | .tFnPtr binderRegions inputs output => .tFnPtr binderRegions (substituteTys inputs) output.substitute
  | .tFnDef binderRegions ⟨regions, types, refs⟩ =>
    .tFnDef binderRegions ⟨regions.map (Region.substitute subst), substituteTys types, substituteRefs refs⟩
  | .tScalar => .tScalar
  | .tNever => .tNever
  | .tDynTrait => .tDynTrait
  | .tError => .tError
  | .unsupported => .unsupported

def substituteTys : List Ty → List Ty
  | [] => []
  | ty :: tys => ty.substitute :: substituteTys tys

def substituteRefs : List (TraitRef Ty) → List (TraitRef Ty)
  | [] => []
  | ⟨kind, regions, types⟩ :: refs =>
    ⟨kind.substitute subst, regions.map (Region.substitute subst), substituteTys types⟩ :: substituteRefs refs

end

theorem substituteTys_eq : ∀ tys : List Ty, substituteTys subst tys = tys.map (Ty.substitute subst)
  | [] => rfl
  | ty :: tys => by rw [substituteTys, map_cons, substituteTys_eq tys]

end

/-! ## Declarations -/

inductive LifetimeMutability where
  | ltMutable | ltShared | ltUnknown
deriving DecidableEq

structure RegionParam where
  index : RegionId
  mutability : LifetimeMutability

structure GenericParams where
  regions : List RegionParam
  types : List TypeVarId

structure Field where
  fieldTy : Ty

structure Variant where
  fields : List Field

inductive TypeDeclKind where
  | struct (fields : List Field)
  | enum (variants : List Variant)
  | opaqueDecl
  | alias (ty : Ty)
  | union (fields : List Field)
  | tDeclError

structure TypeDecl where
  defId : TypeDeclId
  generics : GenericParams
  kind : TypeDeclKind

structure Crate where
  typeDecls : IdMap TypeDeclId TypeDecl
  defId_eq : ∀ (id : TypeDeclId) (d : TypeDecl), typeDecls[id]? = some d → d.defId = id

def Crate.ofDecls (decls : List TypeDecl) : Crate where
  typeDecls := decls.foldl (fun map d => map.insert d.defId d) ∅
  defId_eq := by
    suffices h : ∀ (decls : List TypeDecl) (map : IdMap TypeDeclId TypeDecl),
        (∀ (id : TypeDeclId) (d : TypeDecl), map[id]? = some d → d.defId = id) →
        ∀ (id : TypeDeclId) (d : TypeDecl),
          (decls.foldl (fun map d => map.insert d.defId d) map)[id]? = some d → d.defId = id from
      h decls ∅ (by simp)
    intro decls
    induction decls with
    | nil => exact fun _ h => h
    | cons d decls ih =>
      intro map hmap
      refine ih (map.insert d.defId d) fun id d' hd' => ?_
      rw [getElem?_insert_eq] at hd'
      by_cases hid : d.defId = id
      · rw [if_pos hid] at hd'
        rw [← Option.some.inj hd', hid]
      · rw [if_neg hid] at hd'
        exact hmap id d' hd'

inductive TypeDeclarationGroup where
  | nonRecGroup (id : TypeDeclId)
  | recGroup (ids : List TypeDeclId)

def TypeDeclarationGroup.ids : TypeDeclarationGroup → List TypeDeclId
  | .nonRecGroup id => [id]
  | .recGroup ids => ids

/-! ## Unfolding -/

/-- The types of the fields of all the variants; there are none if the declaration is not known. -/
def TypeDecl.fieldTys (d : TypeDecl) : List Ty :=
  match d.kind with
  | .struct fields => fields.map Field.fieldTy
  | .enum variants => variants.flatMap fun v => v.fields.map Field.fieldTy
  | _ => []

/-- The parameters of a declaration are replaced by its arguments; the list of the regions may have
been erased. -/
def GenericArgs.subst (g : GenericArgs Ty) : Subst where
  region id := (g.regions[id]?).getD .rErased
  ty id := (g.types[id]?).getD .tError
  clause id := (g.traitRefs[id]?.map TraitRef.kind).getD .unknownTrait

/-- The types which are explored as the type itself: they are in it, below no borrow and not the
arguments of a declaration. -/
def Ty.pieces : Ty → List Ty
  | .tRawPtr ty => [ty]
  | .tArray ty => [ty]
  | .tSlice ty => [ty]
  | .tAdt _ (some _) g => g.types
  | .tFnPtr _ inputs output => inputs ++ [output]
  | _ => []

/-- In a number of steps, unfolding the ADTs of a type exposes another one, which is below borrows of
the given kinds, from the outermost to the innermost one. -/
inductive ExposesIn (crate : Crate) : Nat → Ty → List RefKind → Ty → Prop where
  | here {ty : Ty} : ExposesIn crate 0 ty [] ty
  | ref {n : Nat} {r : Region} {ty ty' : Ty} {kind : RefKind} {kinds : List RefKind}
    (h : ExposesIn crate n ty kinds ty') : ExposesIn crate (n + 1) (.tRef r ty kind) (kind :: kinds) ty'
  | piece {n : Nat} {ty piece ty' : Ty} {kinds : List RefKind} (hpiece : piece ∈ ty.pieces)
    (h : ExposesIn crate n piece kinds ty') : ExposesIn crate (n + 1) ty kinds ty'
  | unfold {n : Nat} {id : TypeDeclId} {g : GenericArgs Ty} {d : TypeDecl} {field ty' : Ty} {kinds : List RefKind}
    (hd : crate.typeDecls[id]? = some d) (hfield : field ∈ d.fieldTys)
    (h : ExposesIn crate n (field.substitute g.subst) kinds ty') : ExposesIn crate (n + 1) (.tAdt id none g) kinds ty'

def Exposes (crate : Crate) (ty : Ty) (kinds : List RefKind) (ty' : Ty) : Prop := ∃ n, ExposesIn crate n ty kinds ty'

def TypeDecl.Exposes (crate : Crate) (d : TypeDecl) (kinds : List RefKind) (ty : Ty) : Prop :=
  ∃ field ∈ d.fieldTys, Llbc.Exposes crate field kinds ty

/-! ## Unfolding and substitution -/

def Subst.comp (τ σ : Subst) : Subst where
  region id := (τ.region id).substitute σ
  ty id := (τ.ty id).substitute σ
  clause id := (τ.clause id).substitute σ

section
variable (τ σ : Subst)

theorem Region.substitute_comp (r : Region) : (r.substitute τ).substitute σ = r.substitute (τ.comp σ) := by
  rcases r with _ | (_ | id) | _ | _ <;> rfl

theorem Region.substitute_map_comp (regions : List Region) :
    (regions.map (Region.substitute τ)).map (Region.substitute σ) = regions.map (Region.substitute (τ.comp σ)) := by
  rw [map_map]
  exact map_congr_left fun r _ => r.substitute_comp τ σ

theorem TraitRefKind.substitute_comp : ∀ kind : TraitRefKind,
    (kind.substitute τ).substitute σ = kind.substitute (τ.comp σ)
  | .clause (.free _) => rfl
  | .clause .bound => rfl
  | .parentClause ref | .itemClause ref => congrArg _ (ref.substitute_comp)
  | .self | .traitImpl | .builtinOrAuto | .dyn | .unknownTrait => rfl

mutual

theorem Ty.substitute_comp : ∀ ty : Ty, (ty.substitute τ).substitute σ = ty.substitute (τ.comp σ)
  | .tAdt _ _ ⟨regions, types, refs⟩ => by
    simp only [Ty.substitute, Region.substitute_map_comp, substituteTys_comp types, substituteRefs_comp refs]
  | .tVar (.free _) => rfl
  | .tVar .bound => rfl
  | .tRef r ty _ => by simp only [Ty.substitute, Region.substitute_comp, ty.substitute_comp]
  | .tRawPtr ty | .tArray ty | .tSlice ty => by simp only [Ty.substitute, ty.substitute_comp]
  | .tTraitType ⟨kind, regions, types⟩ => by
    simp only [Ty.substitute, TraitRefKind.substitute_comp, Region.substitute_map_comp, substituteTys_comp types]
  | .tFnPtr _ inputs output => by simp only [Ty.substitute, substituteTys_comp inputs, output.substitute_comp]
  | .tFnDef _ ⟨regions, types, refs⟩ => by
    simp only [Ty.substitute, Region.substitute_map_comp, substituteTys_comp types, substituteRefs_comp refs]
  | .tScalar | .tNever | .tDynTrait | .tError | .unsupported => rfl

theorem substituteTys_comp : ∀ tys : List Ty,
    substituteTys σ (substituteTys τ tys) = substituteTys (τ.comp σ) tys
  | [] => rfl
  | ty :: tys => by simp only [substituteTys, ty.substitute_comp, substituteTys_comp tys]

theorem substituteRefs_comp : ∀ refs : List (TraitRef Ty),
    substituteRefs σ (substituteRefs τ refs) = substituteRefs (τ.comp σ) refs
  | [] => rfl
  | ⟨kind, regions, types⟩ :: refs => by
    simp only [substituteRefs, TraitRefKind.substitute_comp, Region.substitute_map_comp, substituteTys_comp types,
      substituteRefs_comp refs]

end

theorem substituteRefs_kinds : ∀ refs : List (TraitRef Ty),
    (substituteRefs σ refs).map TraitRef.kind = refs.map fun ref => ref.kind.substitute σ
  | [] => rfl
  | ⟨_, _, _⟩ :: refs => by simp only [substituteRefs, map_cons, substituteRefs_kinds refs]

def GenericArgs.substitute (g : GenericArgs Ty) : GenericArgs Ty :=
  ⟨g.regions.map (Region.substitute σ), substituteTys σ g.types, substituteRefs σ g.traitRefs⟩

theorem Ty.substitute_tAdt (id : TypeDeclId) (builtin : Option BuiltinTy) (g : GenericArgs Ty) :
    (Ty.tAdt id builtin g).substitute σ = .tAdt id builtin (g.substitute σ) := rfl

theorem GenericArgs.subst_substitute (g : GenericArgs Ty) : (g.substitute σ).subst = g.subst.comp σ := by
  have hclause : ∀ id : TraitClauseId, ((g.substitute σ).traitRefs[id]?.map TraitRef.kind).getD .unknownTrait =
      ((g.traitRefs[id]?.map TraitRef.kind).getD .unknownTrait).substitute σ := by
    intro id
    rw [← getElem?_map, GenericArgs.substitute, substituteRefs_kinds, getElem?_map]
    cases g.traitRefs[id]? <;> rfl
  unfold GenericArgs.subst Subst.comp
  simp only [hclause]
  congr 1
  · funext id
    simp only [GenericArgs.substitute, getElem?_map]
    cases g.regions[id]? <;> rfl
  · funext id
    simp only [GenericArgs.substitute, substituteTys_eq, getElem?_map]
    cases g.types[id]? <;> rfl

theorem Ty.pieces_substitute {ty : Ty} (h : ∀ id, ty ≠ .tVar (.free id)) :
    (ty.substitute σ).pieces = ty.pieces.map (Ty.substitute σ) := by
  cases ty with
  | tAdt id builtin g =>
    cases builtin with
    | none => rfl
    | some b => exact substituteTys_eq σ g.types
  | tVar v =>
    cases v with
    | bound => rfl
    | free id => exact absurd rfl (h id)
  | tFnPtr binder inputs output =>
    simp only [Ty.substitute, Ty.pieces, substituteTys_eq, map_append, map_cons, map_nil]
  | _ => rfl

end

section
variable {crate : Crate} {σ : Subst}

theorem Ty.substitute_eq_tRef {ty ty' : Ty} {r : Region} {kind : RefKind} (hvar : ∀ id, ty ≠ .tVar (.free id))
    (h : ty.substitute σ = .tRef r ty' kind) :
    ∃ r₀ ty₀, ty = .tRef r₀ ty₀ kind ∧ r₀.substitute σ = r ∧ ty₀.substitute σ = ty' := by
  cases ty with
  | tRef r₀ ty₀ kind₀ =>
    obtain ⟨rfl, rfl, rfl⟩ := Ty.tRef.inj h
    exact ⟨r₀, ty₀, rfl, rfl, rfl⟩
  | tVar v =>
    cases v with
    | bound => cases h
    | free id => exact absurd rfl (hvar id)
  | tAdt id builtin g => rw [Ty.substitute_tAdt] at h; cases h
  | tTraitType ref => obtain ⟨kind, regions, types⟩ := ref; cases h
  | tFnDef binder g => obtain ⟨regions, types, refs⟩ := g; cases h
  | _ => cases h

theorem Ty.substitute_eq_tAdt {ty : Ty} {id : TypeDeclId} {builtin : Option BuiltinTy} {g : GenericArgs Ty}
    (hvar : ∀ id, ty ≠ .tVar (.free id)) (h : ty.substitute σ = .tAdt id builtin g) :
    ∃ g₀, ty = .tAdt id builtin g₀ ∧ g₀.substitute σ = g := by
  cases ty with
  | tAdt id₀ builtin₀ g₀ =>
    rw [Ty.substitute_tAdt] at h
    obtain ⟨rfl, rfl, rfl⟩ := Ty.tAdt.inj h
    exact ⟨g₀, rfl, rfl⟩
  | tVar v =>
    cases v with
    | bound => cases h
    | free id => exact absurd rfl (hvar id)
  | tTraitType ref => obtain ⟨kind, regions, types⟩ := ref; cases h
  | tFnDef binder g => obtain ⟨regions, types, refs⟩ := g; cases h
  | _ => cases h

theorem Ty.substitute_ne_tVar {ty : Ty} {i : TypeVarId} (hvar : ∀ id, ty ≠ .tVar (.free id)) :
    ty.substitute σ ≠ .tVar (.free i) := by
  intro h
  cases ty with
  | tAdt id₀ builtin₀ g₀ => rw [Ty.substitute_tAdt] at h; cases h
  | tVar v =>
    cases v with
    | bound => cases h
    | free id => exact absurd rfl (hvar id)
  | tTraitType ref => obtain ⟨kind, regions, types⟩ := ref; cases h
  | tFnDef binder g => obtain ⟨regions, types, refs⟩ := g; cases h
  | _ => cases h

theorem Region.substitute_eq_free {g : GenericArgs Ty} {r : Region} {rid : RegionId}
    (h : r.substitute g.subst = .rVar (.free rid)) :
    ∃ j : Nat, r = .rVar (.free j) ∧ g.regions[j]? = some (.rVar (.free rid)) := by
  rcases r with _ | (_ | j) | _ | _
  · cases h
  · cases h
  · refine ⟨j, rfl, ?_⟩
    change (g.regions[j]?).getD .rErased = _ at h
    cases hj : g.regions[j]? with
    | none => rw [hj] at h; cases h
    | some r => rw [hj] at h; exact congrArg some h
  · cases h
  · cases h

theorem ExposesIn.of_substitute {n : Nat} {ty ty' : Ty} {kinds : List RefKind}
    (h : ExposesIn crate n (ty.substitute σ) kinds ty') :
    (∃ ty₀, ExposesIn crate n ty kinds ty₀ ∧ (∀ id, ty₀ ≠ .tVar (.free id)) ∧ ty₀.substitute σ = ty') ∨
    ∃ n₁ n₂ kinds₁ kinds₂ id, n₁ ≤ n ∧ n₂ ≤ n ∧ kinds = kinds₁ ++ kinds₂ ∧
      ExposesIn crate n₁ ty kinds₁ (.tVar (.free id)) ∧ ExposesIn crate n₂ (σ.ty id) kinds₂ ty' := by
  by_cases hvar : ∃ id, ty = .tVar (.free id)
  · obtain ⟨id, rfl⟩ := hvar
    exact .inr ⟨0, n, [], kinds, id, Nat.zero_le n, le_rfl, rfl, .here, h⟩
  have hvar' : ∀ id, ty ≠ .tVar (.free id) := fun id hid => hvar ⟨id, hid⟩
  induction n generalizing ty kinds with
  | zero =>
    generalize hs : ty.substitute σ = s at h
    cases h with
    | here => exact .inl ⟨ty, .here, hvar', hs⟩
  | succ n ih =>
    -- one step of the substituted type is a step of the type, and the rest is as long as before
    have hrest : ∀ {rest : Ty} {kinds₀ : List RefKind}, ExposesIn crate n (rest.substitute σ) kinds₀ ty' →
        (∃ ty₀, ExposesIn crate n rest kinds₀ ty₀ ∧ (∀ id, ty₀ ≠ .tVar (.free id)) ∧ ty₀.substitute σ = ty') ∨
        ∃ n₁ n₂ kinds₁ kinds₂ id, n₁ ≤ n ∧ n₂ ≤ n ∧ kinds₀ = kinds₁ ++ kinds₂ ∧
          ExposesIn crate n₁ rest kinds₁ (.tVar (.free id)) ∧ ExposesIn crate n₂ (σ.ty id) kinds₂ ty' := by
      intro rest kinds₀ hrest
      by_cases hfree : ∃ id, rest = .tVar (.free id)
      · obtain ⟨id, rfl⟩ := hfree
        exact .inr ⟨0, n, [], kinds₀, id, Nat.zero_le n, le_rfl, rfl, .here, hrest⟩
      · exact ih hrest hfree fun id hid => hfree ⟨id, hid⟩
    generalize hs : ty.substitute σ = s at h
    cases h with
    | ref h =>
      obtain ⟨r₀, ty₀, rfl, -, rfl⟩ := Ty.substitute_eq_tRef hvar' hs
      rcases hrest h with ⟨ty₁, hty₁, hnot, heq⟩ | ⟨n₁, n₂, kinds₁, kinds₂, id, hn₁, hn₂, rfl, h₁, h₂⟩
      · exact .inl ⟨ty₁, .ref hty₁, hnot, heq⟩
      · exact .inr ⟨n₁ + 1, n₂, _ :: kinds₁, kinds₂, id, by omega, by omega, rfl, .ref h₁, h₂⟩
    | piece hpiece h =>
      rw [← hs, Ty.pieces_substitute σ hvar', mem_map] at hpiece
      obtain ⟨piece₀, hpiece₀, rfl⟩ := hpiece
      rcases hrest h with ⟨ty₁, hty₁, hnot, heq⟩ | ⟨n₁, n₂, kinds₁, kinds₂, id, hn₁, hn₂, rfl, h₁, h₂⟩
      · exact .inl ⟨ty₁, .piece hpiece₀ hty₁, hnot, heq⟩
      · exact .inr ⟨n₁ + 1, n₂, kinds₁, kinds₂, id, by omega, by omega, rfl, .piece hpiece₀ h₁, h₂⟩
    | unfold hd hfield h =>
      obtain ⟨g₀, rfl, rfl⟩ := Ty.substitute_eq_tAdt hvar' hs
      rw [GenericArgs.subst_substitute, ← Ty.substitute_comp] at h
      rcases hrest h with ⟨ty₁, hty₁, hnot, heq⟩ | ⟨n₁, n₂, kinds₁, kinds₂, id, hn₁, hn₂, rfl, h₁, h₂⟩
      · exact .inl ⟨ty₁, .unfold hd hfield hty₁, hnot, heq⟩
      · exact .inr ⟨n₁ + 1, n₂, kinds₁, kinds₂, id, by omega, by omega, rfl, .unfold hd hfield h₁, h₂⟩

end

end Aeneas.Llbc
