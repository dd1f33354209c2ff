import Aeneas.TypesAnalysisSound

/-!
# The mutable regions of a type

A mutable borrow below a shared one is effectively shared. The walk over a type
stops at the shared borrows of the type, but it does not look inside of the
declarations: it takes their mutable regions as they are, and it enters all the
arguments.
-/

namespace Aeneas.Llbc

open List

/-! ## The walk -/

def addRegion (owned result : IdSet RegionId) : Region → IdSet RegionId
  | .rVar (.free rid) => if rid ∈ owned then result.insert rid else result
  | _ => result

def addMutRegions (owned : IdSet RegionId) (info : TypeDeclInfo) :
    RegionId → List Region → IdSet RegionId → IdSet RegionId
  | _, [], result => result
  | adtRid, r :: regions, result =>
    addMutRegions owned info (adtRid + 1) regions
      (if adtRid ∈ info.mutRegions then addRegion owned result r else result)

section
variable (infos : TypeInfos) (owned : IdSet RegionId)

mutual

def walkTy (result : IdSet RegionId) : Ty → Except Exn (IdSet RegionId)
  | .tRef r ty kind =>
    match kind with
    | .rMut => walkTy (addRegion owned result r) ty
    | .rShared => .ok result
  | .tAdt _ (some _) ⟨_, types, refs⟩ => do
    let result ← walkTys result types
    walkRefs result refs
  | .tAdt id none ⟨regions, types, refs⟩ => do
    let info ← find infos id
    let result ← walkTys (addMutRegions owned info 0 regions result) types
    walkRefs result refs
  | .tRawPtr ty => walkTy result ty
  | .tArray ty => walkTy result ty
  | .tSlice ty => walkTy result ty
  | .tTraitType ⟨_, _, types⟩ => walkTys result types
  | .tFnPtr _ inputs output => do
    let result ← walkTys result inputs
    walkTy result output
  | .tFnDef _ ⟨_, types, refs⟩ => do
    let result ← walkTys result types
    walkRefs result refs
  | .tVar _ => .ok result
  | .tScalar => .ok result
  | .tNever => .ok result
  | .tDynTrait => .ok result
  | .tError => .ok result
  | .unsupported => .ok result

def walkTys (result : IdSet RegionId) : List Ty → Except Exn (IdSet RegionId)
  | [] => .ok result
  | ty :: tys => do
    let result ← walkTy result ty
    walkTys result tys

def walkRefs (result : IdSet RegionId) : List (TraitRef Ty) → Except Exn (IdSet RegionId)
  | [] => .ok result
  | ⟨_, _, types⟩ :: refs => do
    let result ← walkTys result types
    walkRefs result refs

end

end

def tyGetMutableRegions (infos : TypeInfos) (ownedRegions : IdSet RegionId) (ty : Ty) : Except Exn (IdSet RegionId) :=
  walkTy infos ownedRegions ∅ ty

/-! ## What the walk meets -/

def GenericArgs.components (g : GenericArgs Ty) : List Ty := g.types ++ g.traitRefs.flatMap TraitRef.types

/-- The types which the walk enters, but for those below the borrows. -/
def Ty.components : Ty → List Ty
  | .tAdt _ _ g => g.components
  | .tRawPtr ty => [ty]
  | .tArray ty => [ty]
  | .tSlice ty => [ty]
  | .tTraitType ref => ref.types
  | .tFnPtr _ inputs output => inputs ++ [output]
  | .tFnDef _ g => g.components
  | _ => []

/-- The walk meets a mutable borrow with the region as its label: in the type itself, or in the
unfolding of a declaration whose region parameter the region is the argument for. -/
inductive MeetsMut (crate : Crate) (rid : RegionId) : Ty → Prop where
  | here {ty : Ty} : MeetsMut crate rid (.tRef (.rVar (.free rid)) ty .rMut)
  | inside {r : Region} {ty : Ty} (h : MeetsMut crate rid ty) : MeetsMut crate rid (.tRef r ty .rMut)
  | component {ty part : Ty} (hpart : part ∈ ty.components) (h : MeetsMut crate rid part) : MeetsMut crate rid ty
  | declared {id : TypeDeclId} {g : GenericArgs Ty} {d : TypeDecl} {kinds : List RefKind} {j : RegionId} {ty : Ty}
    (hd : crate.typeDecls[id]? = some d) (h : d.Exposes crate kinds (.tRef (.rVar (.free j)) ty .rMut))
    (hr : g.regions[j]? = some (.rVar (.free rid))) : MeetsMut crate rid (.tAdt id none g)

/-- After unfolding, a mutable borrow which is not below a shared one has the region as its label. -/
def ExposesMut (crate : Crate) (rid : RegionId) (ty : Ty) : Prop :=
  ∃ kinds ty', Exposes crate ty kinds (.tRef (.rVar (.free rid)) ty' .rMut) ∧ .rShared ∉ kinds

/-- The mutable regions of each declaration are those of the mutable borrows in its unfolding. -/
def ExactMutRegions (crate : Crate) (infos : TypeInfos) : Prop :=
  ∀ (id : TypeDeclId) (info : TypeDeclInfo), infos[id]? = some info → ∃ d, crate.typeDecls[id]? = some d ∧
    ∀ j, j ∈ info.mutRegions ↔ ∃ kinds ty, d.Exposes crate kinds (.tRef (.rVar (.free j)) ty .rMut)

section
variable {crate : Crate} {infos : TypeInfos} {owned result result' : IdSet RegionId} {rid : RegionId}

variable {r : Region}

theorem mem_addRegion : rid ∈ addRegion owned result r ↔ rid ∈ result ∨ (rid ∈ owned ∧ r = .rVar (.free rid)) := by
  cases r with
  | rVar v =>
    cases v with
    | bound => simp [addRegion]
    | free rid' =>
      show rid ∈ (if rid' ∈ owned then result.insert rid' else result) ↔ _
      by_cases howned : rid' ∈ owned
      · rw [if_pos howned, mem_insert_iff]
        by_cases heq : rid' = rid
        · subst heq
          simp [howned]
        · simp [heq]
      · rw [if_neg howned]
        by_cases heq : rid' = rid
        · subst heq
          simp [howned]
        · simp [heq]
  | _ => simp [addRegion]

theorem mem_addMutRegions {info : TypeDeclInfo} : ∀ {regions : List Region} {j : Nat} {result : IdSet RegionId},
    rid ∈ addMutRegions owned info j regions result ↔
      rid ∈ result ∨ (rid ∈ owned ∧ ∃ i : Nat, j + i ∈ info.mutRegions ∧ regions[i]? = some (.rVar (.free rid)))
  | [], _, _ => by simp [addMutRegions]
  | r :: regions, j, result => by
    rw [addMutRegions, mem_addMutRegions]
    have hhead : rid ∈ (if j ∈ info.mutRegions then addRegion owned result r else result) ↔
        rid ∈ result ∨ (rid ∈ owned ∧ j ∈ info.mutRegions ∧ r = .rVar (.free rid)) := by
      by_cases hmut : j ∈ info.mutRegions
      · rw [if_pos hmut, mem_addRegion]
        simp [hmut]
      · rw [if_neg hmut]
        simp [hmut]
    rw [hhead, or_assoc, ← and_or_left]
    refine or_congr_right (and_congr_right fun _ => ?_)
    constructor
    · rintro (⟨hmut, rfl⟩ | ⟨i, hmut, hr⟩)
      · exact ⟨0, hmut, rfl⟩
      · exact ⟨i + 1, by rwa [show j + (i + 1) = j + 1 + i by omega], hr⟩
    · rintro ⟨i, hmut, hr⟩
      cases i with
      | zero => exact .inl ⟨hmut, Option.some.inj hr⟩
      | succ i => exact .inr ⟨i, by rwa [show j + 1 + i = j + (i + 1) by omega], hr⟩

/-! ## One constructor of the type -/

variable {ty : Ty}

theorem meetsMut_ref :
    MeetsMut crate rid (.tRef r ty .rMut) ↔ r = .rVar (.free rid) ∨ MeetsMut crate rid ty := by
  constructor
  · intro h
    cases h with
    | here => exact .inl rfl
    | inside h => exact .inr h
    | component hpart _ => cases hpart
  · intro h
    rcases h with rfl | h
    · exact .here
    · exact .inside h

theorem not_meetsMut_shared : ¬ MeetsMut crate rid (.tRef r ty .rShared) := by
  intro h
  cases h with
  | component hpart _ => cases hpart

theorem meetsMut_components (href : ∀ r ty' kind, ty ≠ .tRef r ty' kind) (hadt : ∀ id g, ty ≠ .tAdt id none g) :
    MeetsMut crate rid ty ↔ ∃ part ∈ ty.components, MeetsMut crate rid part := by
  refine ⟨fun h => ?_, fun ⟨part, hpart, h⟩ => .component hpart h⟩
  cases h with
  | here | inside _ => exact absurd rfl (href _ _ _)
  | component hpart h => exact ⟨_, hpart, h⟩
  | declared _ _ _ => exact absurd rfl (hadt _ _)

theorem not_meetsMut_leaf (hleaf : ty.components = []) (href : ∀ r ty' kind, ty ≠ .tRef r ty' kind)
    (hadt : ∀ id g, ty ≠ .tAdt id none g) : ¬ MeetsMut crate rid ty := by
  rw [meetsMut_components href hadt, hleaf]
  simp

variable {g : GenericArgs Ty}

theorem meetsMut_adt (hexact : ExactMutRegions crate infos) {id : TypeDeclId} {info : TypeDeclInfo}
    (hinfo : infos[id]? = some info) :
    MeetsMut crate rid (.tAdt id none g) ↔
      (∃ i : Nat, 0 + i ∈ info.mutRegions ∧ g.regions[i]? = some (.rVar (.free rid))) ∨
        ∃ part ∈ g.components, MeetsMut crate rid part := by
  obtain ⟨d, hd, hmut⟩ := hexact id info hinfo
  constructor
  · intro h
    cases h with
    | component hpart h => exact .inr ⟨_, hpart, h⟩
    | declared hd' h hr =>
      obtain rfl := Option.some.inj (hd.symm.trans hd')
      exact .inl ⟨_, by rw [Nat.zero_add]; exact (hmut _).mpr ⟨_, _, h⟩, hr⟩
  · rintro (⟨i, hi, hr⟩ | ⟨part, hpart, h⟩)
    · rw [Nat.zero_add] at hi
      obtain ⟨kinds, ty, h⟩ := (hmut i).mp hi
      exact .declared hd h hr
    · exact .component hpart h

/-! ## The whole walk -/

theorem exists_mem_components {P : Ty → Prop} :
    (∃ part ∈ g.components, P part) ↔ (∃ ty ∈ g.types, P ty) ∨ ∃ ref ∈ g.traitRefs, ∃ ty ∈ ref.types, P ty := by
  constructor
  · rintro ⟨part, hpart, h⟩
    rcases mem_append.mp hpart with hmem | hmem
    · exact .inl ⟨part, hmem, h⟩
    · obtain ⟨ref, href, hty⟩ := mem_flatMap.mp hmem
      exact .inr ⟨ref, href, part, hty, h⟩
  · rintro (⟨ty, hty, h⟩ | ⟨ref, href, ty, hty, h⟩)
    · exact ⟨ty, mem_append_left _ hty, h⟩
    · exact ⟨ty, mem_append_right _ (mem_flatMap.mpr ⟨ref, href, hty⟩), h⟩

def Adds (owned : IdSet RegionId) (rid : RegionId) (result result' : IdSet RegionId) (P : Prop) : Prop :=
  rid ∈ result' ↔ rid ∈ result ∨ (rid ∈ owned ∧ P)

variable {P : Prop}

theorem Adds.same (h : ¬ P) : Adds owned rid result result P := by
  simp [Adds, h]

theorem Adds.trans {result₁ result₂ : IdSet RegionId} {Q : Prop} (h₁ : Adds owned rid result result₁ P)
    (h₂ : Adds owned rid result₁ result₂ Q) : Adds owned rid result result₂ (P ∨ Q) := by
  unfold Adds at *
  rw [h₂, h₁, or_assoc, ← and_or_left]

theorem Adds.congr {Q : Prop} (h : Adds owned rid result result' P) (hiff : Q ↔ P) :
    Adds owned rid result result' Q := by
  unfold Adds at *
  rw [h, hiff]

mutual

theorem adds_walkTy (hexact : ExactMutRegions crate infos) :
    ∀ (ty : Ty) {result result' : IdSet RegionId}, walkTy infos owned result ty = .ok result' →
    Adds owned rid result result' (MeetsMut crate rid ty)
  | .tRef r ty .rMut, _, _, h => by
    rw [walkTy] at h
    exact (Adds.trans mem_addRegion (adds_walkTy hexact ty h)).congr meetsMut_ref
  | .tRef r ty .rShared, _, _, h => by
    rw [walkTy] at h
    cases h
    exact .same not_meetsMut_shared
  | .tAdt id (some _) ⟨regions, types, refs⟩, _, _, h => by
    rw [walkTy] at h
    obtain ⟨result₁, h₁, h₂⟩ := bind_eq_ok.mp h
    refine ((adds_walkTys hexact types h₁).trans (adds_walkRefs hexact refs h₂)).congr ?_
    rw [meetsMut_components (fun _ _ _ => Ty.noConfusion) (by simp)]
    exact exists_mem_components
  | .tAdt id none ⟨regions, types, refs⟩, _, _, h => by
    rw [walkTy] at h
    obtain ⟨info, hinfo, h⟩ := bind_eq_ok.mp h
    obtain ⟨result₁, h₁, h₂⟩ := bind_eq_ok.mp h
    refine (Adds.trans mem_addMutRegions ((adds_walkTys hexact types h₁).trans (adds_walkRefs hexact refs h₂))).congr ?_
    rw [meetsMut_adt hexact (find_eq_ok.mp hinfo), exists_mem_components]
  | .tRawPtr ty, _, _, h | .tArray ty, _, _, h | .tSlice ty, _, _, h => by
    rw [walkTy] at h
    exact (adds_walkTy hexact ty h).congr ((meetsMut_components (by simp) (by simp)).trans (by simp [Ty.components]))
  | .tTraitType ⟨kind, regions, types⟩, _, _, h => by
    rw [walkTy] at h
    exact (adds_walkTys hexact types h).congr (meetsMut_components (by simp) (by simp))
  | .tFnPtr binder inputs output, _, _, h => by
    rw [walkTy] at h
    obtain ⟨result₁, h₁, h₂⟩ := bind_eq_ok.mp h
    refine ((adds_walkTys hexact inputs h₁).trans (adds_walkTy hexact output h₂)).congr ?_
    rw [meetsMut_components (by simp) (by simp), Ty.components]
    simp [or_and_right, exists_or]
  | .tFnDef binder ⟨regions, types, refs⟩, _, _, h => by
    rw [walkTy] at h
    obtain ⟨result₁, h₁, h₂⟩ := bind_eq_ok.mp h
    refine ((adds_walkTys hexact types h₁).trans (adds_walkRefs hexact refs h₂)).congr ?_
    rw [meetsMut_components (by simp) (by simp)]
    exact exists_mem_components
  | .tVar _, _, _, h | .tScalar, _, _, h | .tNever, _, _, h | .tDynTrait, _, _, h | .tError, _, _, h
  | .unsupported, _, _, h => by
    cases h
    exact .same (not_meetsMut_leaf rfl (by simp) (by simp))

theorem adds_walkTys (hexact : ExactMutRegions crate infos) :
    ∀ (tys : List Ty) {result result' : IdSet RegionId}, walkTys infos owned result tys = .ok result' →
    Adds owned rid result result' (∃ ty ∈ tys, MeetsMut crate rid ty)
  | [], _, _, h => by
    cases h
    exact .same (by simp)
  | ty :: tys, _, _, h => by
    rw [walkTys] at h
    obtain ⟨result₁, h₁, h₂⟩ := bind_eq_ok.mp h
    refine ((adds_walkTy hexact ty h₁).trans (adds_walkTys hexact tys h₂)).congr ?_
    simp

theorem adds_walkRefs (hexact : ExactMutRegions crate infos) :
    ∀ (refs : List (TraitRef Ty)) {result result' : IdSet RegionId},
    walkRefs infos owned result refs = .ok result' →
    Adds owned rid result result' (∃ ref ∈ refs, ∃ ty ∈ ref.types, MeetsMut crate rid ty)
  | [], _, _, h => by
    cases h
    exact .same (by simp)
  | ⟨kind, regions, types⟩ :: refs, _, _, h => by
    rw [walkRefs] at h
    obtain ⟨result₁, h₁, h₂⟩ := bind_eq_ok.mp h
    refine ((adds_walkTys hexact types h₁).trans (adds_walkRefs hexact refs h₂)).congr ?_
    simp

end

theorem mem_tyGetMutableRegions (hexact : ExactMutRegions crate infos) {ty : Ty}
    (h : tyGetMutableRegions infos owned ty = .ok result) :
    rid ∈ result ↔ rid ∈ owned ∧ MeetsMut crate rid ty := by
  have hadds : Adds owned rid ∅ result (MeetsMut crate rid ty) := adds_walkTy hexact ty h
  unfold Adds at hadds
  rw [hadds]
  simp

/-! ## What is exposed is met -/

theorem Ty.pieces_subset_components {piece : Ty} (h : piece ∈ ty.pieces) : piece ∈ ty.components := by
  cases ty with
  | tAdt id builtin g =>
    cases builtin with
    | none => cases h
    | some b => exact mem_append_left _ h
  | tRawPtr ty | tArray ty | tSlice ty | tFnPtr binder inputs output => exact h
  | _ => cases h

theorem ExposesIn.of_argument {id : TypeVarId} {n : Nat} {kinds : List RefKind}
    {kind : RefKind} (h : ExposesIn crate n (g.subst.ty id) kinds (.tRef r ty kind)) :
    ∃ arg ∈ g.types, ExposesIn crate n arg kinds (.tRef r ty kind) := by
  change ExposesIn crate n ((g.types[id]?).getD .tError) _ _ at h
  cases harg : g.types[id]? with
  | some arg =>
    rw [harg] at h
    exact ⟨arg, mem_of_getElem? harg, h⟩
  | none =>
    rw [harg] at h
    cases h with
    | piece hpiece _ => cases hpiece

theorem meetsMut_of_exposesIn {n : Nat} {ty' : Ty} {kinds : List RefKind}
    (h : ExposesIn crate n ty kinds (.tRef (.rVar (.free rid)) ty' .rMut)) (hshared : .rShared ∉ kinds) :
    MeetsMut crate rid ty := by
  induction n using Nat.strongRecOn generalizing ty kinds with
  | ind n ih =>
    cases h with
    | here => exact .here
    | @ref n r ty ty' kind kinds h =>
      have hmut := ih n (Nat.lt_succ_self n) h fun hmem => hshared (mem_cons_of_mem _ hmem)
      cases kind with
      | rMut => exact .inside hmut
      | rShared => exact absurd mem_cons_self hshared
    | @piece n ty piece ty' kinds hpiece h =>
      exact .component (Ty.pieces_subset_components hpiece) (ih n (Nat.lt_succ_self n) h hshared)
    | @unfold n id g d field ty' kinds hd hfield h =>
      rcases ExposesIn.of_substitute h with ⟨ty₀, h₀, hvar, heq⟩ | ⟨n₁, n₂, kinds₁, kinds₂, i, -, hn₂, rfl, -, h₂⟩
      · -- the borrow is one of the declaration: its region is a region parameter
        obtain ⟨r₀, ty₁, rfl, hr, -⟩ := Ty.substitute_eq_tRef hvar heq
        obtain ⟨j, rfl, hj⟩ := Region.substitute_eq_free hr
        exact .declared hd ⟨field, hfield, n, h₀⟩ hj
      · -- the borrow is one of an argument, wherever the declaration uses it
        obtain ⟨arg, harg, h⟩ := ExposesIn.of_argument h₂
        have hmem : arg ∈ g.components := mem_append_left _ harg
        exact .component hmem (ih n₂ (Nat.lt_succ_of_le hn₂) h fun hmem => hshared (mem_append_right _ hmem))

theorem ExposesMut.meetsMut (h : ExposesMut crate rid ty) : MeetsMut crate rid ty := by
  obtain ⟨kinds, ty', ⟨n, h⟩, hshared⟩ := h
  exact meetsMut_of_exposesIn h hshared

/-! ## Exactness -/

/-- The result is exact when what the walk meets is below no shared borrow after unfolding: the walk
cannot see that a declaration puts a region parameter or a type parameter below a shared borrow. -/
theorem tyGetMutableRegions_exact_iff (hexact : ExactMutRegions crate infos) {ty : Ty}
    (h : tyGetMutableRegions infos owned ty = .ok result) :
    (∀ rid, rid ∈ result ↔ rid ∈ owned ∧ ExposesMut crate rid ty) ↔
      ∀ rid ∈ owned, MeetsMut crate rid ty → ExposesMut crate rid ty := by
  constructor
  · intro hall rid howned hmeets
    exact ((hall rid).mp ((mem_tyGetMutableRegions hexact h).mpr ⟨howned, hmeets⟩)).2
  · intro hall rid
    rw [mem_tyGetMutableRegions hexact h]
    exact and_congr_right fun howned => ⟨hall rid howned, ExposesMut.meetsMut⟩

end

/-- The declaration `struct Wrapper<'a, T> { x : &'a T }`. -/
def wrapperDecl : TypeDecl :=
  ⟨0, ⟨[⟨0, .ltShared⟩], [0]⟩, .struct [⟨.tRef (.rVar (.free 0)) (.tVar (.free 0)) .rShared⟩]⟩

def wrapperCrate : Crate := .ofDecls [wrapperDecl]

def wrapperInfos : TypeInfos := (∅ : TypeInfos).insert 0
  { borrowsInfo := ⟨false, true, false, false, false, false⟩, paramInfos := [⟨true, false⟩], hasRegions := true,
    mutRegions := ∅ }

/-- The type `Wrapper<'0, &'1 mut u32>`. -/
def wrappedMut : Ty := .tAdt 0 none ⟨[.rVar (.free 0)], [.tRef (.rVar (.free 1)) .tScalar .rMut], []⟩

theorem exactMutRegions_singleton {crate : Crate} {d : TypeDecl} {info : TypeDeclInfo}
    (hd : crate.typeDecls[0]? = some d)
    (h : ∀ j, j ∈ info.mutRegions ↔ ∃ kinds ty, d.Exposes crate kinds (.tRef (.rVar (.free j)) ty .rMut)) :
    ExactMutRegions crate ((∅ : TypeInfos).insert 0 info) := by
  intro id info' hinfo
  rw [getElem?_insert_eq] at hinfo
  by_cases hid : 0 = id
  · subst hid
    cases hinfo
    exact ⟨d, hd, h⟩
  · rw [if_neg hid] at hinfo
    simp at hinfo

theorem wrapperInfos_exact : ExactMutRegions wrapperCrate wrapperInfos := by
  refine exactMutRegions_singleton (d := wrapperDecl) rfl fun j => ⟨fun h => absurd h (by simp), ?_⟩
  -- the only borrow of the declaration is a shared one
  rintro ⟨kinds, ty, field, hfield, n, h⟩
  obtain rfl := mem_singleton.mp hfield
  cases h with
  | piece hpiece _ => cases hpiece
  | ref h =>
    cases h with
    | piece hpiece _ => cases hpiece

/-- The mutable borrow of the argument is below the shared borrow of the declaration, and its region is
returned. -/
theorem tyGetMutableRegions_below_shared : ∃ result,
    analyzeTypeDeclarationGroup noBuiltins wrapperCrate 2 ∅ (.nonRecGroup 0) = .ok wrapperInfos ∧
    ExactMutRegions wrapperCrate wrapperInfos ∧
    tyGetMutableRegions wrapperInfos (.ofList [1]) wrappedMut = .ok result ∧ 1 ∈ result ∧
    ¬ ExposesMut wrapperCrate 1 wrappedMut := by
  refine ⟨_, rfl, wrapperInfos_exact, rfl, by decide, ?_⟩
  rintro ⟨kinds, ty, ⟨n, h⟩, hshared⟩
  cases h with
  | piece hpiece _ => cases hpiece
  | unfold hd hfield h =>
    obtain rfl : wrapperDecl = _ := Option.some.inj hd
    obtain rfl := mem_singleton.mp hfield
    cases h with
    | piece hpiece _ => cases hpiece
    | ref h => exact hshared mem_cons_self

/-- The declaration `struct Holder<'a> { x : &'a mut u32 }`. -/
def holderDecl : TypeDecl := ⟨0, ⟨[⟨0, .ltMutable⟩], []⟩, .struct [⟨.tRef (.rVar (.free 0)) .tScalar .rMut⟩]⟩

def holderCrate : Crate := .ofDecls [holderDecl]

def holderInfos : TypeInfos := (∅ : TypeInfos).insert 0
  { borrowsInfo := ⟨false, true, true, false, false, false⟩, paramInfos := [], hasRegions := true,
    mutRegions := .ofList [0] }

theorem holderInfos_exact : ExactMutRegions holderCrate holderInfos := by
  refine exactMutRegions_singleton (d := holderDecl) rfl fun j => ⟨fun h => ?_, ?_⟩
  · obtain rfl : 0 = j := by simpa using h
    exact ⟨[], .tScalar, _, mem_cons_self, 0, .here⟩
  · rintro ⟨kinds, ty, field, hfield, n, h⟩
    obtain rfl := mem_singleton.mp hfield
    cases h with
    | piece hpiece _ => cases hpiece
    | here => simp
    | ref h =>
      cases h with
      | piece hpiece _ => cases hpiece

/-- The type `Holder<'1>`: the region is the argument for a region parameter. -/
theorem tyGetMutableRegions_exact_iff_adt : ∃ result,
    tyGetMutableRegions holderInfos (.ofList [1]) (adtTy 0 [.rVar (.free 1)]) = .ok result ∧ 1 ∈ result ∧
    ((∀ rid, rid ∈ result ↔
        rid ∈ (.ofList [1] : IdSet RegionId) ∧ ExposesMut holderCrate rid (adtTy 0 [.rVar (.free 1)])) ↔
      ∀ rid ∈ (.ofList [1] : IdSet RegionId), MeetsMut holderCrate rid (adtTy 0 [.rVar (.free 1)]) →
        ExposesMut holderCrate rid (adtTy 0 [.rVar (.free 1)])) :=
  ⟨_, rfl, by decide, tyGetMutableRegions_exact_iff holderInfos_exact rfl⟩

end Aeneas.Llbc
