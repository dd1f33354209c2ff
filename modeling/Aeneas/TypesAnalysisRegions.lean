import Aeneas.TypesAnalysisTermination
import Aeneas.TypesAnalysisTy

/-!
# The mutable regions of the declarations

When the analysis of a group returns, the mutable regions of a declaration are those
which its fields meet: on their mutable borrows, or as the arguments of declarations.
All of them are exposed by unfolding the fields, unless an argument of a declaration
has a mutable borrow and the declaration does not expose the parameter.
-/

namespace Aeneas.Llbc

open List

/-- A mutable borrow with the region as its label. The content of an opaque type is not known, the
regions which are declared to be mutable stand for it. -/
inductive HasLabel (cfg : AnalysisConfig) (crate : Crate) (rid : RegionId) : Ty → Prop where
  | ref {ty : Ty} : HasLabel cfg crate rid (.tRef (.rVar (.free rid)) ty .rMut)
  | opaqueAdt {id : TypeDeclId} {g : GenericArgs Ty} {d : TypeDecl} {i : RegionId} (hd : crate.typeDecls[id]? = some d)
    (hkind : typeDeclIsOpaque d = true) (hi : i ∈ opaqueMutRegions cfg d) (hr :
      g.regions[i]? = some (.rVar (.free rid))) :
    HasLabel cfg crate rid (.tAdt id none g)

/-- Unfolding the declaration any number of times exposes a mutable borrow with the region as its label. -/
def TypeDecl.Labels (cfg : AnalysisConfig) (crate : Crate) (d : TypeDecl) (rid : RegionId) : Prop :=
  (typeDeclIsOpaque d = true ∧ rid ∈ opaqueMutRegions cfg d) ∨
    ∃ kinds ty, d.Exposes crate kinds ty ∧ HasLabel cfg crate rid ty

/-- The mutable regions of the information are exactly those which the declaration exposes. -/
def ExactLabels (cfg : AnalysisConfig) (crate : Crate) (d : TypeDecl) (info : TypeDeclInfo) : Prop :=
  ∀ rid, rid ∈ info.mutRegions ↔ d.Labels cfg crate rid

/-- The type has a mutable borrow with the region as its label, in its arguments as well, or an ADT with the
region as the argument for a region which the declaration exposes. -/
inductive MeetsLabel (cfg : AnalysisConfig) (crate : Crate) (rid : RegionId) : Ty → Prop where
  | ref {ty : Ty} : MeetsLabel cfg crate rid (.tRef (.rVar (.free rid)) ty .rMut)
  | part {ty part : Ty} (hpart : part ∈ ty.parts) (h : MeetsLabel cfg crate rid part) : MeetsLabel cfg crate rid ty
  | arg {id : TypeDeclId} {g : GenericArgs Ty} {d : TypeDecl} {i : RegionId} (hd : crate.typeDecls[id]? = some d)
    (hi : d.Labels cfg crate i) (hr : g.regions[i]? = some (.rVar (.free rid))) :
      MeetsLabel cfg crate rid (.tAdt id none g)

section
variable {cfg : AnalysisConfig} {crate : Crate} {infos infos' : TypeInfos} {rid : RegionId} {e e' : ExplInfo} {ty ty' :
    Ty}

theorem HasLabel.of_substitute {g : GenericArgs Ty} (hvar : ∀ id, ty ≠ .tVar (.free id))
    (h : HasLabel cfg crate rid (ty.substitute g.subst)) :
    ∃ j : Nat, HasLabel cfg crate j ty ∧ g.regions[j]? = some (.rVar (.free rid)) := by
  generalize hs : ty.substitute g.subst = s at h
  cases h with
  | ref =>
    obtain ⟨r₀, ty₀, rfl, hr, -⟩ := Ty.substitute_eq_tRef hvar hs
    obtain ⟨j, rfl, hj⟩ := Region.substitute_eq_free hr
    exact ⟨j, .ref, hj⟩
  | @opaqueAdt id g₁ d i hd hkind hi hr =>
    obtain ⟨g₀, rfl, rfl⟩ := Ty.substitute_eq_tAdt hvar hs
    obtain ⟨r₀, hr₀, hsub⟩ : ∃ r₀ : Region, g₀.regions[i]? = some r₀ ∧ r₀.substitute g.subst = .rVar (.free rid) := by
      simpa [GenericArgs.substitute] using hr
    obtain ⟨j, rfl, hj⟩ := Region.substitute_eq_free hsub
    exact ⟨j, .opaqueAdt hd hkind hi hr₀, hj⟩

/-! ## The wanted regions -/

theorem mem_wants_argument {id : TypeDeclId} {g : GenericArgs Ty} {info : TypeDeclInfo} {i : Nat}
    (hinfo : infos[id]? = some info) (hi : i ∈ info.mutRegions) (hr : g.regions[i]? = some (.rVar (.free rid))) :
    .fact (.region rid) ∈ wants infos e (.tAdt id none g) := by
  refine (mem_wants_adt hinfo).mpr (.inr (.inr (mem_regionsWants.mpr ⟨i, _, hr, ?_, mem_regionWants.mpr rfl⟩)))
  rwa [Nat.zero_add]

def JustifiedLabels (cfg : AnalysisConfig) (crate : Crate) (infos : TypeInfos) : Prop :=
  ∀ (id : TypeDeclId) (info : TypeDeclInfo), infos[id]? = some info →
    ∃ d, crate.typeDecls[id]? = some d ∧ ∀ rid ∈ info.mutRegions, d.Labels cfg crate rid

def CoversLabels (cfg : AnalysisConfig) (crate : Crate) (infos : TypeInfos) : Prop :=
  ∀ (id : TypeDeclId) (info : TypeDeclInfo) (d : TypeDecl), infos[id]? = some info → crate.typeDecls[id]? = some d →
    ∀ rid, d.Labels cfg crate rid → rid ∈ info.mutRegions

theorem Visits.meetsLabel (h : Visits infos e ty e' ty') (hlabel : MeetsLabel cfg crate rid ty') :
    MeetsLabel cfg crate rid ty := by
  induction h with
  | here => exact hlabel
  | ref _ ih => exact .part mem_cons_self (ih hlabel)
  | piece hpiece _ ih => exact .part (Ty.pieces_subset_parts hpiece) (ih hlabel)
  | @arg e e' id g info i p ty ty' _ _ hty _ ih =>
    have hpart : ty ∈ (Ty.tAdt id none g).parts := mem_of_getElem? hty
    exact .part hpart (ih hlabel)

theorem JustifiedLabels.meetsLabel (h : JustifiedLabels cfg crate infos)
    (hwant : .fact (.region rid) ∈ wants infos e ty) :
    MeetsLabel cfg crate rid ty := by
  obtain ⟨e', ty', hvisit, hask⟩ := visits_of_mem_wants hwant
  refine hvisit.meetsLabel ?_
  rcases hask.of_region with ⟨inner, rfl⟩ | ⟨id, g, info, i, rfl, hinfo, hi, hr⟩
  · exact .ref
  · obtain ⟨d, hd, hlabels⟩ := h id info hinfo
    exact .arg hd (hlabels i hi) hr

theorem mem_wants_part {w : Want} {part : Ty} (hexplored : Explored infos ty) (hpart : part ∈ ty.parts)
    (h : ∀ e, w ∈ wants infos e part) (e : ExplInfo) : w ∈ wants infos e ty := by
  cases ty with
  | tRef r inner kind =>
    obtain rfl := mem_singleton.mp hpart
    exact mem_append_right _ (h _)
  | tAdt id builtin g =>
    cases builtin with
    | some b => exact mem_wants_piece hpart (h e)
    | none =>
      obtain ⟨i, hi, harg⟩ := getElem_of_mem hpart
      obtain ⟨info, p, hinfo, hp, -⟩ := hexplored.param (List.getElem?_eq_some_iff.mpr ⟨hi, harg⟩)
      exact (mem_wants_adt hinfo).mpr (.inr (.inl (mem_wantsParams.mpr
        ⟨i, p, part, hp, List.getElem?_eq_some_iff.mpr ⟨hi, harg⟩, .inr (h _)⟩)))
  | tRawPtr inner | tArray inner | tSlice inner | tFnPtr binder inputs output => exact mem_wants_piece hpart (h e)
  | _ => cases hpart

theorem MeetsLabel.mem_wants (hcovers : CoversLabels cfg crate infos) (h : MeetsLabel cfg crate rid ty)
    (hexplored : Explored infos ty) : ∀ e, .fact (.region rid) ∈ wants infos e ty := by
  induction h with
  | ref => exact fun e => Shows.region.mem_wants
  | part hpart _ ih => exact mem_wants_part hexplored hpart (ih (hexplored.part hpart))
  | arg hd hi hr =>
    intro e
    obtain ⟨info, hinfo, -⟩ := hexplored.adt
    exact mem_wants_argument hinfo (hcovers _ info _ hinfo hd _ hi) hr

/-! ## Everything that is exposed is known -/

def CoversLabelsIn (cfg : AnalysisConfig) (crate : Crate) (infos : TypeInfos) (n : Nat) : Prop :=
  ∀ (id : TypeDeclId) (info : TypeDeclInfo) (d : TypeDecl), infos[id]? = some info → crate.typeDecls[id]? = some d →
    ∀ field ∈ d.fieldTys, ∀ kinds ty rid, ExposesIn crate n field kinds ty → HasLabel cfg crate rid ty →
      rid ∈ info.mutRegions

def CoversOpaque (cfg : AnalysisConfig) (crate : Crate) (infos : TypeInfos) : Prop :=
  ∀ (id : TypeDeclId) (info : TypeDeclInfo) (d : TypeDecl), infos[id]? = some info → crate.typeDecls[id]? = some d →
    typeDeclIsOpaque d = true → ∀ rid ∈ opaqueMutRegions cfg d, rid ∈ info.mutRegions

theorem region_mem_wants (hopaqueKind : CoversOpaque cfg crate infos) :
    ∀ (n : Nat) {ty ty' : Ty} {kinds : List RefKind},
    (∀ m < n, CoversLabelsIn cfg crate infos m) → Explored infos ty → ExposesIn crate n ty kinds ty' →
    HasLabel cfg crate rid ty' → ∀ e, .fact (.region rid) ∈ wants infos e ty := by
  intro n
  induction n using Nat.strong_induction_on with
  | _ n ih =>
    intro ty ty' kinds hcovers hexplored hexposes hlabel e
    cases hexposes with
    | here =>
      cases hlabel with
      | ref => exact Shows.region.mem_wants
      | opaqueAdt hd hkind hi hr =>
        obtain ⟨info, hinfo, -⟩ := hexplored.adt
        exact mem_wants_argument hinfo (hopaqueKind _ info _ hinfo hd hkind _ hi) hr
    | @ref n r inner _ kind kinds h =>
      refine mem_append_right _ (ih n (Nat.lt_succ_self n) (fun m hm => hcovers m (by omega)) ?_ h hlabel _)
      exact hexplored.part mem_cons_self
    | @piece n _ piece _ _ hpiece h =>
      refine mem_wants_piece hpiece (ih n (Nat.lt_succ_self n) (fun m hm => hcovers m (by omega)) ?_ h hlabel e)
      exact hexplored.part (Ty.pieces_subset_parts hpiece)
    | @unfold n id g d field _ _ hd hfield h =>
      obtain ⟨info, hinfo, -⟩ := hexplored.adt
      rcases h.of_substitute with ⟨ty₀, h₀, hvar, rfl⟩ | ⟨n₁, n₂, kinds₁, kinds₂, i, -, hn₂, rfl, -, h₂⟩
      · -- exposed by the declaration itself
        obtain ⟨j, hj, hr⟩ := hlabel.of_substitute hvar
        exact mem_wants_argument hinfo (hcovers n (Nat.lt_succ_self n) id info d hinfo hd field hfield _ ty₀ j h₀ hj) hr
      · -- exposed by the argument for a parameter of the declaration
        have harg : g.subst.ty i = (g.types[i]?).getD .tError := rfl
        rw [harg] at h₂
        cases hget : g.types[i]? with
        | none =>
          rw [hget] at h₂
          cases h₂ with
          | here => cases hlabel
          | piece hpiece _ => cases hpiece
        | some arg =>
          rw [hget, Option.getD_some] at h₂
          have hpart : arg ∈ (Ty.tAdt id none g).parts := mem_of_getElem? hget
          exact mem_wants_part hexplored hpart
            (ih n₂ (by omega) (fun m hm => hcovers m (by omega)) (hexplored.part hpart) h₂ hlabel) e

/-! ## The end of the analysis of a group -/

variable {depth : Nat} {decl : TypeDeclarationGroup} {defs : List TypeDecl}

theorem declKnown_region {info : TypeDeclInfo} : declKnown info (.region rid) = true ↔ rid ∈ info.mutRegions :=
  decide_eq_true_iff

def PriorExact (cfg : AnalysisConfig) (crate : Crate) (infos : TypeInfos) : Prop :=
  ∀ (id : TypeDeclId) (info : TypeDeclInfo), infos[id]? = some info →
    ∃ d, crate.typeDecls[id]? = some d ∧ ExactLabels cfg crate d info

/-- The mutable borrows which the fields have in the arguments of the declarations are exposed. -/
def ExposesArguments (cfg : AnalysisConfig) (crate : Crate) (d : TypeDecl) : Prop :=
  ∀ field ∈ d.fieldTys, ∀ rid, MeetsLabel cfg crate rid field → d.Labels cfg crate rid

section
variable (hprior : PriorExact cfg crate infos) (hdefs : lookupDecls crate decl.ids = .ok defs)
  (hkind : ∀ d ∈ defs, typeDeclIsOpaque d = false)
  (hrounds : analyzeRounds defs depth (initializeTypeDecls cfg infos defs) = .ok infos')

include hrounds in
theorem region_stable {d : TypeDecl} (hd : d ∈ defs) : Stable (· ≠ .flag .borrow) infos' d := by
  rcases (analyzeRounds_ok hrounds).2 with ⟨hquiet, heq⟩ | ⟨-, hstable⟩
  · exact heq ▸ hquiet.stable d hd
  · exact fun info hinfo x _ => hstable d hd info hinfo x trivial

include hrounds in
theorem mutRegions_of_wanted {d : TypeDecl} {info : TypeDeclInfo} {field : Ty} (hd : d ∈ defs)
    (hinfo : infos'[d.defId]? = some info) (hfield : field ∈ d.fieldTys)
    (hwant : .fact (.region rid) ∈ wants infos' explInfoInit field) : rid ∈ info.mutRegions := by
  refine declKnown_region.mp (region_stable hrounds hd info hinfo (.region rid) (by simp) ?_)
  exact mem_flatten.mpr ⟨_, mem_map.mpr ⟨field, hfield, rfl⟩, hwant⟩

include hdefs

include hrounds in
theorem of_rounds {id : TypeDeclId} {info : TypeDeclInfo} {d : TypeDecl} (hinfo : infos'[id]? = some info)
    (hd : crate.typeDecls[id]? = some d) : (d ∈ defs ∧ d.defId = id) ∨ infos[id]? = some info := by
  by_cases hin : ∃ d' ∈ defs, d'.defId = id
  · obtain ⟨d', hd', rfl⟩ := hin
    obtain rfl : d' = d := Option.some.inj ((lookupDecls_mem hdefs hd').symm.trans hd)
    exact .inl ⟨hd', rfl⟩
  · have hout : ∀ d' ∈ defs, d'.defId ≠ id := fun d' hd' heq => hin ⟨d', hd', heq⟩
    rw [analyzeRounds_frame hout hrounds, initializeTypeDecls_frame hout] at hinfo
    exact .inr hinfo

include hprior hkind hrounds in
theorem coversOpaque_rounds : CoversOpaque cfg crate infos' := by
  intro id info d hinfo hd hopaqueDecl i hi
  rcases of_rounds hdefs hrounds hinfo hd with ⟨hmem, -⟩ | hbefore
  · rw [hkind d hmem] at hopaqueDecl
    cases hopaqueDecl
  · obtain ⟨d', hd', hexact⟩ := hprior id info hbefore
    obtain rfl : d = d' := Option.some.inj (hd.symm.trans hd')
    exact (hexact i).mpr (.inl ⟨hopaqueDecl, hi⟩)

include hprior hkind hrounds in
theorem coversLabelsIn_rounds (n : Nat) : CoversLabelsIn cfg crate infos' n := by
  have hopaqueKind := coversOpaque_rounds hprior hdefs hkind hrounds
  induction n using Nat.strong_induction_on with
  | _ n ih =>
    intro id info d hinfo hd field hfield kinds ty i hexposes hlabel
    rcases of_rounds hdefs hrounds hinfo hd with ⟨hmem, rfl⟩ | hbefore
    · have hexplored := analyzeRounds_explored hrounds d hmem field hfield
      have hwant := region_mem_wants hopaqueKind n ih hexplored hexposes hlabel explInfoInit
      exact mutRegions_of_wanted hrounds hmem hinfo hfield hwant
    · obtain ⟨d', hd', hexact⟩ := hprior id info hbefore
      obtain rfl : d = d' := Option.some.inj (hd.symm.trans hd')
      exact (hexact i).mpr (.inr ⟨kinds, ty, ⟨field, hfield, n, hexposes⟩, hlabel⟩)

include hprior hkind hrounds in
theorem coversLabels_rounds : CoversLabels cfg crate infos' := by
  intro id info d hinfo hd i hlabels
  rcases hlabels with ⟨hopaqueDecl, hi⟩ | ⟨kinds, ty, ⟨field, hfield, n, hexposes⟩, hlabel⟩
  · exact coversOpaque_rounds hprior hdefs hkind hrounds id info d hinfo hd hopaqueDecl i hi
  · exact coversLabelsIn_rounds hprior hdefs hkind hrounds n id info d hinfo hd field hfield kinds ty i hexposes hlabel

include hprior hkind hrounds in
theorem justifiedLabels_rounds (hargs : ∀ d ∈ defs, ExposesArguments cfg crate d) :
    JustifiedLabels cfg crate infos' := by
  have hmem : ∀ d ∈ defs, crate.typeDecls[d.defId]? = some d := fun d hd => lookupDecls_mem hdefs hd
  have hlabels : ∀ {infos : TypeInfos}, KnownBy crate (fun d x => ∀ rid, x = .region rid →
    d.Labels cfg crate rid) infos →
      JustifiedLabels cfg crate infos := by
    intro infos hknown id info hinfo
    obtain ⟨d, hd, hfacts⟩ := hknown id info hinfo
    exact ⟨d, hd, fun rid hrid => hfacts _ (declKnown_region.mpr hrid) rid rfl⟩
  refine hlabels (KnownBy.analyzeRounds hmem (fun infos hknown d hd field hfield x hx rid heq => ?_)
    (fun d _ rid heq => by cases heq) ?_ hrounds)
  · subst heq
    exact hargs d hd field hfield rid ((hlabels hknown).meetsLabel hx)
  · refine KnownBy.initial (fun id info hinfo => ?_) hmem fun d hd x hx rid heq => ?_
    · obtain ⟨d, hd, hexact⟩ := hprior id info hinfo
      refine ⟨d, hd, fun x hx rid heq => ?_⟩
      subst heq
      exact (hexact rid).mp (declKnown_region.mp hx)
    · subst heq
      have hregion := declKnown_region.mp hx
      simp [initializeTypeDeclInfo, initializeGTypeInfo, hkind d hd] at hregion

include hprior hkind hrounds in
theorem exactLabels_rounds_iff : (∀ d ∈ defs, ∃ info, infos'[d.defId]? = some info ∧ ExactLabels cfg crate d info) ↔
    ∀ d ∈ defs, ExposesArguments cfg crate d := by
  have hcovers := coversLabels_rounds hprior hdefs hkind hrounds
  have hmem : ∀ d ∈ defs, crate.typeDecls[d.defId]? = some d := fun d hd => lookupDecls_mem hdefs hd
  constructor
  · intro hexact d hd field hfield rid hmeets
    obtain ⟨info, hinfo, hlabels⟩ := hexact d hd
    have hwant := hmeets.mem_wants hcovers (analyzeRounds_explored hrounds d hd field hfield) explInfoInit
    exact (hlabels rid).mp (mutRegions_of_wanted hrounds hd hinfo hfield hwant)
  · intro hargs d hd
    have hjust := justifiedLabels_rounds hprior hdefs hkind hrounds hargs
    have hstart : (initializeTypeDecls cfg infos defs)[d.defId]? = some (initializeTypeDeclInfo cfg d) :=
      borrowAt_initial hdefs hd
    have hrel := (analyzeRounds_ok hrounds).1 d.defId
    rw [hstart] at hrel
    generalize hinfo : infos'[d.defId]? = o at hrel
    cases hrel with
    | @some _ info _ =>
      refine ⟨info, rfl, fun rid => ⟨fun hrid => ?_, fun hlabel => hcovers d.defId info d hinfo (hmem d hd) rid hlabel⟩⟩
      obtain ⟨d', hd', hlabels⟩ := hjust d.defId info hinfo
      obtain rfl : d = d' := Option.some.inj ((hmem d hd).symm.trans hd')
      exact hlabels rid hrid

end

/-- In every run which loses no region the analysis of a group of structures and enumerations ends, unless the
first exploration raises an error; its mutable regions are exact if and only if the mutable borrows
of the arguments are exposed. -/
theorem analyzeTypeDeclarationGroup_regions (hprior : PriorExact cfg crate infos)
    (hdefs : lookupDecls crate decl.ids = .ok defs) (hkind : ∀ d ∈ defs, typeDeclIsOpaque d = false)
    (hlossless : LosslessRun defs (initializeTypeDecls cfg infos defs)) :
    (∃ exn, analyzeTypeDecls (initializeTypeDecls cfg infos defs) defs false = .error exn) ∨
    ∃ infos', (∃ N, ∀ depth, N ≤ depth → analyzeTypeDeclarationGroup cfg crate depth infos decl = .ok infos') ∧
      ((∀ d ∈ defs, ∃ info, infos'[d.defId]? = some info ∧ ExactLabels cfg crate d info) ↔
        ∀ d ∈ defs, ExposesArguments cfg crate d) := by
  cases hfirst : analyzeTypeDecls (initializeTypeDecls cfg infos defs) defs false with
  | error exn => exact .inl ⟨exn, rfl⟩
  | ok p =>
    obtain ⟨infos', N, hfinish⟩ := analyzeRounds_finishes hlossless ⟨p, hfirst⟩
    refine .inr ⟨infos', ⟨N, fun depth hdepth => ?_⟩, exactLabels_rounds_iff hprior hdefs hkind (hfinish N le_rfl)⟩
    show Except.bind (lookupDecls crate decl.ids) _ = _
    rw [hdefs]
    exact hfinish depth hdepth

end

/-- The declaration `struct Pair<'a> { x : (&'a mut u32, &'a mut u32) }`. -/
def pairDecl : TypeDecl :=
  ⟨0, ⟨[⟨0, .ltMutable⟩], []⟩, .struct [⟨.tAdt 0 (some .tTuple)
    ⟨[], [.tRef (.rVar (.free 0)) .tScalar .rMut, .tRef (.rVar (.free 0)) .tScalar .rMut], []⟩⟩]⟩

def pairCrate : Crate := .ofDecls [pairDecl]

def pairInfos : TypeInfos := (∅ : TypeInfos).insert 0
  { borrowsInfo := ⟨false, true, true, false, false, false⟩, paramInfos := [], hasRegions := true, mutRegions := ∅ }

/-- The second borrow makes the exploration forget the region which the first one has added, and the region
is new again in the next exploration. -/
theorem analyzeTypeDeclarationGroup_never_ends :
    pairCrate.typeDecls[0]? = some pairDecl ∧ typeDeclIsOpaque pairDecl = false ∧
    ∀ depth, analyzeTypeDeclarationGroup noBuiltins pairCrate depth ∅ (.nonRecGroup 0) = .error .outOfFuel := by
  refine ⟨rfl, rfl, fun depth => ?_⟩
  have hloop : ∀ depth, analyzeRounds [pairDecl] depth pairInfos = .error .outOfFuel := by
    intro depth
    induction depth with
    | zero => rfl
    | succ depth ih =>
      have hround : analyzeTypeDecls pairInfos [pairDecl] false = .ok (pairInfos, true) := rfl
      rw [analyzeRounds]
      show Except.bind (analyzeTypeDecls pairInfos [pairDecl] false) _ = _
      rw [hround]
      exact ih
  cases depth with
  | zero => rfl
  | succ depth =>
    have hround : analyzeTypeDecls (initializeTypeDecls noBuiltins ∅ [pairDecl]) [pairDecl] false =
      .ok (pairInfos, true) := rfl
    show analyzeRounds [pairDecl] (depth + 1) (initializeTypeDecls noBuiltins ∅ [pairDecl]) = _
    rw [analyzeRounds]
    show Except.bind (analyzeTypeDecls (initializeTypeDecls noBuiltins ∅ [pairDecl]) [pairDecl] false) _ = _
    rw [hround]
    exact hloop depth

def mutableInfos : TypeInfos := (∅ : TypeInfos).insert 0
  { borrowsInfo := ⟨false, true, true, false, false, false⟩, paramInfos := [], hasRegions := true,
    mutRegions := (∅ : IdSet RegionId).insert 0 }

theorem losslessRun_mutable : LosslessRun [mutableDecl] (initializeTypeDecls noBuiltins ∅ [mutableDecl]) := by
  intro infos hreach
  have hfirst : analyzeTypeDecls (initializeTypeDecls noBuiltins ∅ [mutableDecl]) [mutableDecl] false =
      .ok (mutableInfos, true) := rfl
  have hsecond : analyzeTypeDecls mutableInfos [mutableDecl] false = .ok (mutableInfos, false) := rfl
  have hstart : LosslessDecl (initializeTypeDecls noBuiltins ∅ [mutableDecl]) mutableDecl := by
    intro info hinfo
    obtain rfl : initializeTypeDeclInfo noBuiltins mutableDecl = info := Option.some.inj hinfo
    exact ⟨⟨[], [0], rfl, by simp, by decide, by simp⟩, trivial⟩
  have hend : LosslessDecl mutableInfos mutableDecl := by
    intro info hinfo
    obtain rfl := Option.some.inj hinfo
    exact ⟨⟨[0], [], rfl, by decide, by simp, by simp⟩, trivial⟩
  cases hreach with
  | refl => exact ⟨hstart, fun _ _ _ _ => trivial⟩
  | round h hrest =>
    rw [hfirst] at h
    cases h
    cases hrest with
    | refl => exact ⟨hend, fun _ _ _ _ => trivial⟩
    | round h' _ =>
      rw [hsecond] at h'
      cases h'

theorem analyzeTypeDeclarationGroup_regions_mutable :
    LosslessRun [mutableDecl] (initializeTypeDecls noBuiltins ∅ [mutableDecl]) ∧
    ((∃ exn, analyzeTypeDecls (initializeTypeDecls noBuiltins ∅ [mutableDecl]) [mutableDecl] false = .error exn) ∨
    ∃ infos', (∃ N, ∀ depth, N ≤ depth →
        analyzeTypeDeclarationGroup noBuiltins mutableCrate depth ∅ (.nonRecGroup 0) = .ok infos') ∧
      ((∀ d ∈ [mutableDecl], ∃ info, infos'[d.defId]? = some info ∧ ExactLabels noBuiltins mutableCrate d info) ↔
        ∀ d ∈ [mutableDecl], ExposesArguments noBuiltins mutableCrate d)) := by
  refine ⟨losslessRun_mutable, ?_⟩
  have hprior : PriorExact noBuiltins mutableCrate ∅ := fun id info hinfo => by simp at hinfo
  have hkind : ∀ d ∈ [mutableDecl], typeDeclIsOpaque d = false := fun d hd => by rw [mem_singleton.mp hd]; rfl
  have hdefs : lookupDecls mutableCrate (TypeDeclarationGroup.nonRecGroup 0).ids = .ok [mutableDecl] := rfl
  exact analyzeTypeDeclarationGroup_regions hprior hdefs hkind losslessRun_mutable

end Aeneas.Llbc
