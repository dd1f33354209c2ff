import Aeneas.TypesAnalysisNested

/-!
# The analysis of a type

The flags of the nested borrows which the analysis of a type computes are exactly
those which the exploration of the type meets. Which regions label the borrows does
not matter, so it does not matter either that the regions of bodies are replaced.
-/

namespace Aeneas.Llbc

open List

/-! ## Types up to their regions -/

mutual

/-- The type without its regions, and without what the exploration ignores. -/
def Ty.erase : Ty → Ty
  | .tAdt id builtin ⟨_, types, _⟩ => .tAdt id builtin ⟨[], eraseTys types, []⟩
  | .tRef _ ty kind => .tRef .rErased ty.erase kind
  | .tRawPtr ty => .tRawPtr ty.erase
  | .tArray ty => .tArray ty.erase
  | .tSlice ty => .tSlice ty.erase
  | .tTraitType _ => .tTraitType ⟨.self, [], []⟩
  | .tFnPtr _ inputs output => .tFnPtr [] (eraseTys inputs) output.erase
  | .tFnDef _ _ => .tFnDef [] ⟨[], [], []⟩
  | .tVar v => .tVar v
  | .tScalar => .tScalar
  | .tNever => .tNever
  | .tDynTrait => .tDynTrait
  | .tError => .tError
  | .unsupported => .unsupported

def eraseTys : List Ty → List Ty
  | [] => []
  | ty :: tys => ty.erase :: eraseTys tys

end

theorem eraseTys_eq (tys : List Ty) : eraseTys tys = tys.map Ty.erase := by
  induction tys with
  | nil => rfl
  | cons ty tys ih => rw [eraseTys, map_cons, ih]

theorem Ty.erase_tAdt (id : TypeDeclId) (builtin : Option BuiltinTy) (g : GenericArgs Ty) :
    (Ty.tAdt id builtin g).erase = .tAdt id builtin ⟨[], g.types.map Ty.erase, []⟩ := by
  rw [← eraseTys_eq]
  rfl

section
variable {σ : Type} (f : Region → StateM σ Region)

mutual

theorem Ty.erase_mapRegions : ∀ (ty : Ty) (s : σ), ((ty.mapRegions f).run s).1.erase = ty.erase
  | .tAdt id builtin ⟨regions, types, refs⟩, s =>
    congrArg (fun types => Ty.tAdt id builtin ⟨[], types, []⟩) (eraseTys_mapRegionsTys types _)
  | .tRef _ ty kind, s => congrArg (Ty.tRef .rErased · kind) (ty.erase_mapRegions _)
  | .tRawPtr ty, s => congrArg Ty.tRawPtr (ty.erase_mapRegions s)
  | .tArray ty, s => congrArg Ty.tArray (ty.erase_mapRegions s)
  | .tSlice ty, s => congrArg Ty.tSlice (ty.erase_mapRegions s)
  | .tTraitType ⟨_, _, _⟩, _ => rfl
  | .tFnPtr _ inputs output, s => by
    have hinputs := eraseTys_mapRegionsTys inputs s
    have houtput := output.erase_mapRegions ((mapRegionsTys f inputs).run s).2
    have hboth := congrArg₂ (Ty.tFnPtr []) hinputs houtput
    exact hboth
  | .tFnDef _ ⟨_, _, _⟩, _ | .tVar _, _ | .tScalar, _ | .tNever, _ | .tDynTrait, _ | .tError, _ | .unsupported, _ => rfl

theorem eraseTys_mapRegionsTys : ∀ (tys : List Ty) (s : σ), eraseTys ((mapRegionsTys f tys).run s).1 = eraseTys tys
  | [], _ => rfl
  | ty :: tys, s => by
    have hty := ty.erase_mapRegions s
    have htys := eraseTys_mapRegionsTys tys ((ty.mapRegions f).run s).2
    have hboth := congrArg₂ List.cons hty htys
    exact hboth

end

end

theorem erase_tyReplaceBodyRegions (ty : Ty) : (tyReplaceBodyRegionsWithFreeRegions ty).erase = ty.erase :=
  ty.erase_mapRegions _ _

/-! ## Substitution and regions -/

section
variable {crate : Crate} {ty ty' ty₂ : Ty} {kinds : List RefKind}

theorem Ty.erase_eq_tRef {r : Region} {kind : RefKind} (h : ty.erase = .tRef r ty' kind) :
    ∃ r₀ ty₀, ty = .tRef r₀ ty₀ kind ∧ ty₀.erase = ty' := by
  cases ty with
  | tRef r₀ ty₀ kind₀ =>
    obtain ⟨-, rfl, rfl⟩ := Ty.tRef.inj h
    exact ⟨r₀, ty₀, rfl, rfl⟩
  | tAdt id builtin g => rw [Ty.erase_tAdt] at h; cases h
  | _ => cases h

theorem Ty.erase_eq_tAdt {id : TypeDeclId} {builtin : Option BuiltinTy} {g : GenericArgs Ty}
    (h : ty.erase = .tAdt id builtin g) :
    ∃ g₀, ty = .tAdt id builtin g₀ ∧ g₀.types.map Ty.erase = g.types := by
  cases ty with
  | tAdt id₀ builtin₀ g₀ =>
    rw [Ty.erase_tAdt] at h
    obtain ⟨rfl, rfl, rfl⟩ := Ty.tAdt.inj h
    exact ⟨g₀, rfl, rfl⟩
  | _ => cases h

theorem Ty.pieces_erase (ty : Ty) : ty.erase.pieces = ty.pieces.map Ty.erase := by
  cases ty with
  | tAdt id builtin g =>
    rw [Ty.erase_tAdt]
    cases builtin <;> rfl
  | tFnPtr binder inputs output =>
    simp only [Ty.erase, Ty.pieces, eraseTys_eq, map_append, map_cons, map_nil]
  | _ => rfl

theorem Ty.piece_of_erase {piece : Ty} (heq : ty.erase = ty₂.erase) (hpiece : piece ∈ ty.pieces) :
    ∃ piece₂ ∈ ty₂.pieces, piece.erase = piece₂.erase := by
  have hmem : piece.erase ∈ ty₂.pieces.map Ty.erase := by
    rw [← Ty.pieces_erase, ← heq, Ty.pieces_erase]
    exact mem_map.mpr ⟨piece, hpiece, rfl⟩
  obtain ⟨piece₂, hpiece₂, heq₂⟩ := mem_map.mp hmem
  exact ⟨piece₂, hpiece₂, heq₂.symm⟩

theorem arg_of_erase {types types₂ : List Ty} {i : Nat} {arg : Ty} (heq : types.map Ty.erase = types₂.map Ty.erase)
    (harg : types[i]? = some arg) : ∃ arg₂, types₂[i]? = some arg₂ ∧ arg.erase = arg₂.erase := by
  have hget : (types₂.map Ty.erase)[i]? = some arg.erase := by
    rw [← heq, getElem?_map, harg]
    rfl
  rw [getElem?_map] at hget
  cases h : types₂[i]? with
  | none => rw [h] at hget; cases hget
  | some arg₂ =>
    rw [h] at hget
    exact ⟨arg₂, rfl, (Option.some.inj hget).symm⟩

theorem Meets.of_erase (h : Meets crate ty kinds ty') (heq : ty.erase = ty₂.erase) :
    ∃ ty₂', Meets crate ty₂ kinds ty₂' ∧ ty'.erase = ty₂'.erase := by
  induction h generalizing ty₂ with
  | here => exact ⟨ty₂, .here, heq⟩
  | ref _ ih =>
    obtain ⟨r₂, inner₂, rfl, hinner⟩ := Ty.erase_eq_tRef heq.symm
    obtain ⟨ty₂', h₂, heq'⟩ := ih hinner.symm
    exact ⟨ty₂', .ref h₂, heq'⟩
  | piece hpiece _ ih =>
    obtain ⟨piece₂, hpiece₂, hinner⟩ := Ty.piece_of_erase heq hpiece
    obtain ⟨ty₂', h₂, heq'⟩ := ih hinner
    exact ⟨ty₂', .piece hpiece₂ h₂, heq'⟩
  | arg harg _ ih =>
    rw [Ty.erase_tAdt] at heq
    obtain ⟨g₂, rfl, htypes⟩ := Ty.erase_eq_tAdt heq.symm
    obtain ⟨arg₂, harg₂, hinner⟩ := arg_of_erase htypes.symm harg
    obtain ⟨ty₂', h₂, heq'⟩ := ih hinner
    exact ⟨ty₂', .arg harg₂ h₂, heq'⟩
  | argBelow hd hfield hparam harg _ _ ih =>
    rw [Ty.erase_tAdt] at heq
    obtain ⟨g₂, rfl, htypes⟩ := Ty.erase_eq_tAdt heq.symm
    obtain ⟨arg₂, harg₂, hinner⟩ := arg_of_erase htypes.symm harg
    obtain ⟨ty₂', h₂, heq'⟩ := ih hinner
    exact ⟨ty₂', .argBelow hd hfield hparam harg₂ h₂, heq'⟩

theorem ShowsNested.of_erase {k : Nesting} (heq : ty.erase = ty₂.erase) (h : ShowsNested crate k ty) :
    ShowsNested crate k ty₂ := by
  cases h with
  | borrow hmeets habove hinner =>
    obtain ⟨ty₂', h₂, heq'⟩ := hmeets.of_erase heq
    obtain ⟨r₂, inner₂, rfl, -⟩ := Ty.erase_eq_tRef heq'.symm
    exact .borrow h₂ habove hinner
  | param hmeets habove hd hfield hparam harg hinner =>
    obtain ⟨ty₂', h₂, heq'⟩ := hmeets.of_erase heq
    rw [Ty.erase_tAdt] at heq'
    obtain ⟨g₂, rfl, htypes⟩ := Ty.erase_eq_tAdt heq'.symm
    obtain ⟨arg₂, harg₂, -⟩ := arg_of_erase htypes.symm harg
    exact .param h₂ habove hd hfield hparam harg₂ hinner
  | declared hmeets hd hfield hshows =>
    obtain ⟨ty₂', h₂, heq'⟩ := hmeets.of_erase heq
    rw [Ty.erase_tAdt] at heq'
    obtain ⟨g₂, rfl, -⟩ := Ty.erase_eq_tAdt heq'.symm
    exact .declared h₂ hd hfield hshows

end

/-! ## The flags of a type -/

section
variable {cfg : AnalysisConfig} {crate : Crate} {infos : TypeInfos} {ty : Ty} {info : TyInfo}

theorem analyzeTy_shows (hinfos : Analysed cfg crate infos) (h : analyzeTy infos ty = .ok info) (k : Nesting) :
    info.get k.flag = true ↔ ShowsNested crate k ty := by
  obtain ⟨hclosed, hjust⟩ := hinfos.closed_justified
  obtain ⟨⟨i, u⟩, hanalyze, hinfo⟩ := bind_eq_ok.mp h
  obtain rfl : i.borrowsInfo = info := Except.ok.inj hinfo
  have hexplored : Explored infos (tyReplaceBodyRegionsWithFreeRegions ty) :=
    Analyzed.explored ⟨_, _, _, _, _, hanalyze⟩
  have hsteps : Steps (fun rid => (initializeGTypeInfo false ∅ none : PartialTypeInfo).known (.region rid)) _ _ _ i u :=
    steps_analyze (fun _ => rfl) _ hanalyze
  have hflag : i.borrowsInfo.get k.flag = true ↔
      .fact (.flag k.flag) ∈ wants infos explInfoInit (tyReplaceBodyRegionsWithFreeRegions ty) := by
    have hknown : i.borrowsInfo.get k.flag = _ := congrFun (congrArg Prod.fst hsteps.known) (.flag k.flag)
    rw [hknown]
    constructor
    · intro hrun
      rcases runWants_only _ (fun rid hrid => by exact hrid) hrun with hinit | hwant | ⟨hborrow, -⟩
      · cases k <;> cases hinit
      · exact hwant
      · cases k <;> cases hborrow
    · exact runWants_wanted (fun rid heq => by cases heq) _
  rw [hflag]
  have herase := erase_tyReplaceBodyRegions ty
  constructor
  · exact fun hwant => (hjust.shows hwant).of_erase herase
  · exact fun hshows => (hshows.of_erase herase.symm).wanted hclosed hexplored

/-- A nested borrow is reported exactly if the exploration meets one. -/
theorem analyzeTy_nested_iff (hinfos : Analysed cfg crate infos) (h : analyzeTy infos ty = .ok info) (k : Nesting) :
    (ExposesNested crate k ty → info.get k.flag = true) ↔ (ExposesNested crate k ty → ShowsNested crate k ty) :=
  imp_congr_right fun _ => analyzeTy_shows hinfos h k

end

/-- The declaration `struct Mutable<'a> { x : &'a mut u32 }` -/
def mutableDecl : TypeDecl := ⟨0, ⟨[⟨0, .ltMutable⟩], []⟩, .struct [⟨.tRef (.rVar (.free 0)) .tScalar .rMut⟩]⟩

def mutableCrate : Crate := .ofDecls [mutableDecl]

/-- In `&'a mut Mutable<'b>` the inner borrow comes from the region parameter of the ADT. -/
theorem analyzeTy_misses_nested : ∃ infos info, Analysed noBuiltins mutableCrate infos ∧
    analyzeTy infos (.tRef (.rVar (.free 0)) (adtTy 0 [.rVar (.free 1)]) .rMut) = .ok info ∧
    ∀ k : Nesting, ExposesNested mutableCrate k (.tRef (.rVar (.free 0)) (adtTy 0 [.rVar (.free 1)]) .rMut) ∧
      info.get k.flag = false := by
  obtain ⟨infos, hgroup⟩ : ∃ infos, analyzeTypeDeclarationGroup noBuiltins mutableCrate 2 ∅ (.nonRecGroup 0) =
    .ok infos :=
    ⟨_, rfl⟩
  have hinfos : Analysed noBuiltins mutableCrate infos := .group .nil (fun id _ => by simp) hgroup
  have hexposes : Exposes mutableCrate (.tRef (.rVar (.free 0)) (adtTy 0 [.rVar (.free 1)]) .rMut) [.rMut]
      (.tRef (.rVar (.free 1)) .tScalar .rMut) := ⟨2, .ref (.unfold (d := mutableDecl) rfl mem_cons_self .here)⟩
  obtain rfl := Except.ok.inj hgroup
  refine ⟨_, _, hinfos, rfl, fun k => ⟨⟨_, _, _, _, hexposes, ?_, ?_⟩, ?_⟩⟩
  · cases k <;> simp [Nesting.Above]
  · cases k <;> simp [Nesting.Inner]
  · cases k <;> rfl

/-- The declaration `struct Nested<'a, 'b> { x : &'a mut &'b mut u32 }` -/
def nestedDecl : TypeDecl :=
  ⟨0, ⟨[⟨0, .ltMutable⟩, ⟨1, .ltMutable⟩], []⟩,
    .struct [⟨.tRef (.rVar (.free 0)) (.tRef (.rVar (.free 1)) .tScalar .rMut) .rMut⟩]⟩

def nestedCrate : Crate := .ofDecls [nestedDecl]

/-- The type `Nested<'a, 'b>`: the exploration reaches the fields of the ADT from below no borrow. -/
theorem analyzeTy_nested_iff_adt : ∃ infos info, Analysed noBuiltins nestedCrate infos ∧
    analyzeTy infos (adtTy 0 [.rVar (.free 0), .rVar (.free 1)]) = .ok info ∧
    info.get Nesting.nestedMut.flag = true ∧
    ((ExposesNested nestedCrate .nestedMut (adtTy 0 [.rVar (.free 0), .rVar (.free 1)]) →
        info.get Nesting.nestedMut.flag = true) ↔
      (ExposesNested nestedCrate .nestedMut (adtTy 0 [.rVar (.free 0), .rVar (.free 1)]) →
        ShowsNested nestedCrate .nestedMut (adtTy 0 [.rVar (.free 0), .rVar (.free 1)]))) := by
  obtain ⟨infos, hgroup⟩ : ∃ infos, analyzeTypeDeclarationGroup noBuiltins nestedCrate 2 ∅ (.nonRecGroup 0) =
    .ok infos :=
    ⟨_, rfl⟩
  have hinfos : Analysed noBuiltins nestedCrate infos := .group .nil (fun id _ => by simp) hgroup
  obtain rfl := Except.ok.inj hgroup
  exact ⟨_, _, hinfos, rfl, rfl, analyzeTy_nested_iff hinfos rfl .nestedMut⟩

end Aeneas.Llbc
