import Aeneas.TypesAnalysisSound

/-!
# The flags of the nested borrows

The analysis crosses an ADT only through its type arguments. It sees two nested
borrows if no declaration which contains the inner one has been entered below the
outer one; a borrow which a declaration contains by itself is not seen from a borrow
of the declaration.
-/

namespace Aeneas.Llbc

open List

/-! ## What the exploration visits -/

inductive Visits (infos : TypeInfos) : ExplInfo → Ty → ExplInfo → Ty → Prop where
  | here {e : ExplInfo} {ty : Ty} : Visits infos e ty e ty
  | ref {e e' : ExplInfo} {r : Region} {ty ty' : Ty} {kind : RefKind} (h : Visits infos (e.enter kind) ty e' ty') :
    Visits infos e (.tRef r ty kind) e' ty'
  | piece {e e' : ExplInfo} {ty piece ty' : Ty} (hpiece : piece ∈ ty.pieces) (h : Visits infos e piece e' ty') :
    Visits infos e ty e' ty'
  | arg {e e' : ExplInfo} {id : TypeDeclId} {g : GenericArgs Ty} {info : TypeDeclInfo} {i : Nat} {p : TypeParamInfo}
    {ty ty' : Ty} (hinfo : infos[id]? = some info) (hp : info.paramInfos[i]? = some p) (hty : g.types[i]? = some ty)
    (h : Visits infos (e.join p) ty e' ty') : Visits infos e (.tAdt id none g) e' ty'

inductive Asks (infos : TypeInfos) (e : ExplInfo) (w : Want) : Ty → Prop where
  | var {i : TypeVarId} (h : w ∈ e.wants i) : Asks infos e w (.tVar (.free i))
  | ref {r : Region} {ty : Ty} {kind : RefKind} (h : w ∈ refWants e r kind) : Asks infos e w (.tRef r ty kind)
  | adt {id : TypeDeclId} {g : GenericArgs Ty} {info : TypeDeclInfo} (hinfo : infos[id]? = some info)
    (h : w ∈ adtWants info g.regions) : Asks infos e w (.tAdt id none g)
  | param {id : TypeDeclId} {g : GenericArgs Ty} {info : TypeDeclInfo} {i : Nat} {p : TypeParamInfo} {ty : Ty}
    (hinfo : infos[id]? = some info) (hp : info.paramInfos[i]? = some p) (hty : g.types[i]? = some ty)
    (h : w ∈ (paramBorrowsInfo e p).wants) : Asks infos e w (.tAdt id none g)
  | region {id : TypeDeclId} {g : GenericArgs Ty} {info : TypeDeclInfo} (hinfo : infos[id]? = some info)
    (h : w ∈ regionsWants info 0 g.regions) : Asks infos e w (.tAdt id none g)

section
variable {infos : TypeInfos} {e e' : ExplInfo} {ty ty' : Ty} {w : Want}

theorem Asks.mem_wants (h : Asks infos e w ty) : w ∈ wants infos e ty := by
  cases h with
  | var h => exact h
  | ref h => exact mem_append_left _ h
  | adt hinfo h => exact (mem_wants_adt hinfo).mpr (.inl h)
  | param hinfo hp hty h =>
      exact (mem_wants_adt hinfo).mpr (.inr (.inl (mem_wantsParams.mpr ⟨_, _, _, hp, hty, .inl h⟩)))
  | region hinfo h => exact (mem_wants_adt hinfo).mpr (.inr (.inr h))

theorem Asks.of_var {x : Fact} (h : Asks infos e (.fact x) ty) (hflag : ∀ f, x ≠ .flag f)
    (hregion : ∀ rid, x ≠ .region rid) :
    ∃ i, ty = .tVar (.free i) ∧ .fact x ∈ e.wants i := by
  have hborrows : ∀ {b : TypeBorrowsInfo}, .fact x ∉ b.wants := by
    intro b hw
    obtain ⟨f, -, heq⟩ := mem_borrowsWants.mp hw
    exact hflag f (Want.fact.inj heq)
  have hregions : ∀ {r : Region}, .fact x ∉ r.wants := by
    intro r hw
    obtain ⟨rid, -, heq⟩ := mem_map.mp hw
    exact hregion rid (Want.fact.inj heq).symm
  cases h with
  | var h => exact ⟨_, rfl, h⟩
  | ref h =>
    rcases mem_append.mp h with h | h
    · exact absurd h hborrows
    · split at h
      · exact absurd h hregions
      · cases h
  | adt _ h =>
    rcases mem_append.mp h with h | h
    · exact absurd h hborrows
    · rcases mem_append.mp h with h | h
      · split at h
        · exact absurd (Want.fact.inj (mem_singleton.mp h)) (hflag _)
        · cases h
      · split at h
        · cases mem_singleton.mp h
        · cases h
  | param _ _ _ h => exact absurd h hborrows
  | region _ h =>
    obtain ⟨i, r, -, -, hr⟩ := mem_regionsWants.mp h
    exact absurd hr hregions

theorem Visits.mem_wants (h : Visits infos e ty e' ty') (hask : Asks infos e' w ty') : w ∈ wants infos e ty := by
  induction h with
  | here => exact hask.mem_wants
  | ref _ ih => exact mem_append_right _ (ih hask)
  | piece hpiece _ ih => exact mem_wants_piece hpiece (ih hask)
  | arg hinfo hp hty _ ih =>
    exact (mem_wants_adt hinfo).mpr (.inr (.inl (mem_wantsParams.mpr ⟨_, _, _, hp, hty, .inr (ih hask)⟩)))

theorem visits_of_mem_wants : ∀ {ty : Ty} {e : ExplInfo}, w ∈ wants infos e ty →
    ∃ e' ty', Visits infos e ty e' ty' ∧ Asks infos e' w ty' := by
  intro ty
  induction ty using Ty.parts_induct with
  | step ty ih =>
    intro e h
    have hpiece : ∀ {piece : Ty}, piece ∈ ty.pieces → w ∈ wants infos e piece →
        ∃ e' ty', Visits infos e ty e' ty' ∧ Asks infos e' w ty' := by
      intro piece hpiece hw
      obtain ⟨e', ty', hvisit, hask⟩ := ih piece (Ty.pieces_subset_parts hpiece) hw
      exact ⟨e', ty', .piece hpiece hvisit, hask⟩
    cases ty with
    | tVar v =>
      cases v with
      | bound => cases h
      | free i => exact ⟨e, _, .here, .var h⟩
    | tRef r inner kind =>
      rcases mem_append.mp h with hown | hinner
      · exact ⟨e, _, .here, .ref hown⟩
      · obtain ⟨e', ty', hvisit, hask⟩ := ih inner mem_cons_self hinner
        exact ⟨e', ty', .ref hvisit, hask⟩
    | tRawPtr inner | tArray inner | tSlice inner => exact hpiece mem_cons_self h
    | tFnPtr binder inputs output =>
      rcases mem_append.mp h with hin | hout
      · obtain ⟨input, hinput, hw⟩ := mem_wantsTys.mp hin
        exact hpiece (mem_append_left _ hinput) hw
      · exact hpiece (mem_append_right _ mem_cons_self) hout
    | tAdt id builtin g =>
      cases builtin with
      | some b =>
        obtain ⟨part, hpart, hw⟩ := mem_wantsTys.mp h
        exact hpiece hpart hw
      | none =>
        cases hinfo : infos[id]? with
        | none =>
          obtain ⟨regions, types, refs⟩ := g
          unfold wants at h
          rw [hinfo] at h
          cases h
        | some info =>
          rcases (mem_wants_adt hinfo).mp h with hadt | hparams | hregions
          · exact ⟨e, _, .here, .adt hinfo hadt⟩
          · obtain ⟨i, p, arg, hp, harg, hown | hinner⟩ := mem_wantsParams.mp hparams
            · exact ⟨e, _, .here, .param hinfo hp harg hown⟩
            · obtain ⟨e', ty', hvisit, hask⟩ := ih arg (mem_of_getElem? harg) hinner
              exact ⟨e', ty', .arg hinfo hp harg hvisit, hask⟩
          · exact ⟨e, _, .here, .region hinfo hregions⟩
    | _ => cases h

end

/-! ## Visits without the computed information -/

/-- The exploration meets a type below the given borrows. It enters an argument of an ADT in the
context of the ADT, and below the borrows below which the fields of the declaration have the parameter. -/
inductive Meets (crate : Crate) : Ty → List RefKind → Ty → Prop where
  | here {ty : Ty} : Meets crate ty [] ty
  | ref {r : Region} {ty ty' : Ty} {kind : RefKind} {kinds : List RefKind} (h : Meets crate ty kinds ty') :
    Meets crate (.tRef r ty kind) (kind :: kinds) ty'
  | piece {ty piece ty' : Ty} {kinds : List RefKind} (hpiece : piece ∈ ty.pieces) (h : Meets crate piece kinds ty') :
    Meets crate ty kinds ty'
  | arg {id : TypeDeclId} {g : GenericArgs Ty} {i : Nat} {ty ty' : Ty} {kinds : List RefKind} (hty :
    g.types[i]? = some ty)
    (h : Meets crate ty kinds ty') : Meets crate (.tAdt id none g) kinds ty'
  | argBelow {id : TypeDeclId} {g : GenericArgs Ty} {i : Nat} {d : TypeDecl} {field ty ty' : Ty} {kinds kinds' :
    List RefKind}
    (hd : crate.typeDecls[id]? = some d) (hfield : field ∈ d.fieldTys) (hparam :
      Meets crate field kinds (.tVar (.free i)))
    (hty : g.types[i]? = some ty) (h : Meets crate ty kinds' ty') : Meets crate (.tAdt id none g) (kinds ++ kinds') ty'

/-- The pairs of nested borrows: any two, a borrow below a mutable one, two mutable ones. -/
inductive Nesting where
  | nested | underMut | nestedMut

namespace Nesting

def flag : Nesting → Flag
  | nested => .nested
  | underMut => .underMut
  | nestedMut => .nestedMut

def Above : Nesting → List RefKind → Prop
  | nested, kinds => kinds ≠ []
  | underMut, kinds => .rMut ∈ kinds
  | nestedMut, kinds => .rMut ∈ kinds

def Inner : Nesting → RefKind → Prop
  | nested, _ => True
  | underMut, _ => True
  | nestedMut, kind => kind = .rMut

def outer : Nesting → ExplInfo → Bool
  | nested, e => e.underBorrow
  | underMut, e => e.underMutBorrow
  | nestedMut, e => e.underMutBorrow

def innerParam : Nesting → TypeParamInfo → Bool
  | nested, p => p.underBorrow
  | underMut, p => p.underBorrow
  | nestedMut, p => p.underMutBorrow

end Nesting

/-- Unfolding the ADTs of a type any number of times exposes a nested borrow. -/
def ExposesNested (crate : Crate) (k : Nesting) (ty : Ty) : Prop :=
  ∃ kinds r ty' kind, Exposes crate ty kinds (.tRef r ty' kind) ∧ k.Above kinds ∧ k.Inner kind

/-- The exploration meets a nested borrow: a borrow below an outer one; an ADT below an outer one, whose
declaration has a parameter below a borrow; or an ADT whose declaration shows one in its own fields. -/
inductive ShowsNested (crate : Crate) (k : Nesting) : Ty → Prop where
  | borrow {ty ty' : Ty} {kinds : List RefKind} {r : Region} {kind : RefKind}
    (h : Meets crate ty kinds (.tRef r ty' kind)) (houter : k.Above kinds) (hinner : k.Inner kind) :
      ShowsNested crate k ty
  | param {ty field arg : Ty} {kinds kinds' : List RefKind} {id : TypeDeclId} {g : GenericArgs Ty} {d : TypeDecl} {i :
    Nat}
    (h : Meets crate ty kinds (.tAdt id none g)) (houter : k.Above kinds) (hd : crate.typeDecls[id]? = some d)
    (hfield : field ∈ d.fieldTys) (hparam : Meets crate field kinds' (.tVar (.free i))) (harg : g.types[i]? = some arg)
    (hinner : ∃ kind ∈ kinds', k.Inner kind) : ShowsNested crate k ty
  | declared {ty field : Ty} {kinds : List RefKind} {id : TypeDeclId} {g : GenericArgs Ty} {d : TypeDecl}
    (h : Meets crate ty kinds (.tAdt id none g)) (hd : crate.typeDecls[id]? = some d) (hfield : field ∈ d.fieldTys)
    (hshows : ShowsNested crate k field) : ShowsNested crate k ty

section
variable {k : Nesting} {e : ExplInfo} {kinds : List RefKind}

theorem Nesting.outer_enterAll_init : k.outer (explInfoInit.enterAll kinds) = true ↔ k.Above kinds := by
  cases k with
  | nested => exact enterAll_underBorrow.trans (by simp [Nesting.Above, explInfoInit])
  | underMut | nestedMut => exact enterAll_underMutBorrow.trans (by simp [Nesting.Above, explInfoInit])

theorem Nesting.innerParam_enterAll_init :
    k.innerParam (explInfoInit.enterAll kinds) = true ↔ ∃ kind ∈ kinds, k.Inner kind := by
  cases k with
  | nested | underMut =>
    refine enterAll_underBorrow.trans ?_
    cases kinds <;> simp [Nesting.Inner, explInfoInit]
  | nestedMut =>
    refine enterAll_underMutBorrow.trans ?_
    simp [Nesting.Inner, explInfoInit]

theorem flag_mem_refWants {r : Region} {kind : RefKind} :
    .fact (.flag k.flag) ∈ refWants e r kind ↔ k.outer e = true ∧ k.Inner kind := by
  unfold refWants
  have hregion : Want.fact (.flag k.flag) ∉ if kind = .rMut then r.wants else [] := by
    split <;> simp [Region.wants]
  rw [mem_append, or_iff_left hregion, mem_borrowsWants]
  constructor
  · rintro ⟨f, hf, heq⟩
    cases heq
    cases k <;> simp_all [TypeBorrowsInfo.get, Nesting.flag, refBorrowsInfo, Nesting.outer, Nesting.Inner]
  · intro h
    refine ⟨_, ?_, rfl⟩
    cases k <;> simp_all [TypeBorrowsInfo.get, Nesting.flag, refBorrowsInfo, Nesting.outer, Nesting.Inner]

theorem flag_mem_paramWants {p : TypeParamInfo} :
    .fact (.flag k.flag) ∈ (paramBorrowsInfo e p).wants ↔ k.outer e = true ∧ k.innerParam p = true := by
  rw [mem_borrowsWants]
  constructor
  · rintro ⟨f, hf, heq⟩
    cases heq
    cases k <;> simp_all [TypeBorrowsInfo.get, Nesting.flag, paramBorrowsInfo, Nesting.outer, Nesting.innerParam]
  · intro h
    refine ⟨_, ?_, rfl⟩
    cases k <;> simp_all [TypeBorrowsInfo.get, Nesting.flag, paramBorrowsInfo, Nesting.outer, Nesting.innerParam]

theorem flag_mem_adtWants {info : TypeDeclInfo} {regions : List Region} :
    .fact (.flag k.flag) ∈ adtWants info regions ↔ info.borrowsInfo.get k.flag = true := by
  unfold adtWants
  rw [mem_append, or_iff_left]
  · rw [mem_borrowsWants]
    constructor
    · rintro ⟨f, hf, heq⟩
      cases heq
      exact hf
    · exact fun h => ⟨_, h, rfl⟩
  · rw [mem_append, not_or]
    constructor
    · split
      · cases k <;> simp [Nesting.flag]
      · simp
    · split <;> simp

end

/-! ## Visits and meetings -/

/-- The declarations have the facts which their fields want, but for `contains_borrow`. -/
def Closed (crate : Crate) (infos : TypeInfos) : Prop :=
  ∀ (id : TypeDeclId) (info : TypeDeclInfo) (d : TypeDecl), infos[id]? = some info → crate.typeDecls[id]? = some d →
    Stable (· ≠ .flag .borrow) infos d ∧ ∀ field ∈ d.fieldTys, Explored infos field

def JustifiedFact (crate : Crate) (d : TypeDecl) : Fact → Prop
  | .flag f => ∀ k : Nesting, k.flag = f → ∃ field ∈ d.fieldTys, ShowsNested crate k field
  | .under i => ∃ field ∈ d.fieldTys, ∃ kinds, kinds ≠ [] ∧ Meets crate field kinds (.tVar (.free i))
  | .underMut i => ∃ field ∈ d.fieldTys, ∃ kinds, .rMut ∈ kinds ∧ Meets crate field kinds (.tVar (.free i))
  | .region _ => True

def Justified (crate : Crate) (infos : TypeInfos) : Prop :=
  ∀ (id : TypeDeclId) (info : TypeDeclInfo), infos[id]? = some info →
    ∃ d, crate.typeDecls[id]? = some d ∧ ∀ x, declKnown info x = true → JustifiedFact crate d x

section
variable {crate : Crate} {infos : TypeInfos} {k : Nesting} {e e' : ExplInfo} {ty ty' : Ty}

theorem Nesting.outer_join (k : Nesting) (e : ExplInfo) (p : TypeParamInfo) :
    k.outer (e.join p) = (k.outer e || k.outer p) := by
  cases k <;> rfl

theorem Nesting.outer_enterAll (k : Nesting) (e : ExplInfo) (kinds : List RefKind) :
    k.outer (e.enterAll kinds) = true ↔ k.outer e = true ∨ k.Above kinds := by
  rw [SubtypeInfo.enterAll_eq_join, Nesting.outer_join, Bool.or_eq_true, Nesting.outer_enterAll_init]

theorem Nesting.Above.append_left {kinds : List RefKind} (h : k.Above kinds) (kinds' : List RefKind) :
    k.Above (kinds ++ kinds') := by
  cases k with
  | nested => exact append_ne_nil_of_left_ne_nil h kinds'
  | underMut | nestedMut => exact mem_append_left _ h

variable {id : TypeDeclId} {i : Nat}

theorem Justified.param (h : Justified crate infos) {info : TypeDeclInfo}
    {p : TypeParamInfo} (hinfo : infos[id]? = some info) (hp : info.paramInfos[i]? = some p)
    (houter : k.outer p = true) :
    ∃ d, crate.typeDecls[id]? = some d ∧ ∃ field ∈ d.fieldTys, ∃ kinds, k.Above kinds ∧
      Meets crate field kinds (.tVar (.free i)) := by
  obtain ⟨d, hd, hfacts⟩ := h id info hinfo
  refine ⟨d, hd, ?_⟩
  cases k with
  | nested => exact hfacts (.under i) (declKnown_under.mpr ⟨p, hp, houter⟩)
  | underMut | nestedMut => exact hfacts (.underMut i) (declKnown_underMut.mpr ⟨p, hp, houter⟩)

theorem Visits.meets (hjust : Justified crate infos) (h : Visits infos e ty e' ty') :
    (∃ kinds, Meets crate ty kinds ty') ∧
    (k.outer e' = true → ∃ kinds, Meets crate ty kinds ty' ∧ (k.outer e = true ∨ k.Above kinds)) := by
  induction h with
  | here => exact ⟨⟨[], .here⟩, fun houter => ⟨[], .here, .inl houter⟩⟩
  | @ref e e' r ty ty' kind _ ih =>
    refine ⟨ih.1.imp' _ fun kinds h => .ref h, fun houter => ?_⟩
    obtain ⟨kinds, hmeets, habove⟩ := ih.2 houter
    refine ⟨kind :: kinds, .ref hmeets, ?_⟩
    rw [← Nesting.outer_enterAll] at habove ⊢
    exact habove
  | piece hpiece _ ih =>
    refine ⟨ih.1.imp fun kinds h => .piece hpiece h, fun houter => ?_⟩
    obtain ⟨kinds, hmeets, habove⟩ := ih.2 houter
    exact ⟨kinds, .piece hpiece hmeets, habove⟩
  | arg hinfo hp hty _ ih =>
    refine ⟨ih.1.imp fun kinds h => .arg hty h, fun houter => ?_⟩
    obtain ⟨kinds, hmeets, habove⟩ := ih.2 houter
    rw [Nesting.outer_join, Bool.or_eq_true, or_assoc] at habove
    rcases habove with houter | hparam | habove
    · exact ⟨kinds, .arg hty hmeets, .inl houter⟩
    · obtain ⟨d, hd, field, hfield, kinds₁, habove₁, hmeets₁⟩ := hjust.param hinfo hp hparam
      exact ⟨kinds₁ ++ kinds, .argBelow hd hfield hmeets₁ hty hmeets, .inr (habove₁.append_left kinds)⟩
    · exact ⟨kinds, .arg hty hmeets, .inr habove⟩

theorem Justified.shows (hjust : Justified crate infos) (h : .fact (.flag k.flag) ∈ wants infos explInfoInit ty) :
    ShowsNested crate k ty := by
  obtain ⟨e', ty', hvisit, hask⟩ := visits_of_mem_wants h
  obtain ⟨hmeets, houter⟩ := hvisit.meets (k := k) hjust
  have habove : k.outer e' = true → ∃ kinds, Meets crate ty kinds ty' ∧ k.Above kinds := by
    intro he'
    obtain ⟨kinds, hmeets, hinit | habove⟩ := houter he'
    · cases k <;> cases hinit
    · exact ⟨kinds, hmeets, habove⟩
  cases hask with
  | var hvar => simp [SubtypeInfo.wants] at hvar
  | ref href =>
    obtain ⟨he', hinner⟩ := flag_mem_refWants.mp href
    obtain ⟨kinds, hmeets, habove⟩ := habove he'
    exact .borrow hmeets habove hinner
  | adt hinfo hadt =>
    obtain ⟨d, hd, hfacts⟩ := hjust _ _ hinfo
    obtain ⟨kinds, hmeets⟩ := hmeets
    obtain ⟨field, hfield, hshows⟩ := hfacts (.flag k.flag) (flag_mem_adtWants.mp hadt) k rfl
    exact .declared hmeets hd hfield hshows
  | param hinfo hp harg hparam =>
    obtain ⟨he', hinner⟩ := flag_mem_paramWants.mp hparam
    obtain ⟨kinds, hmeets, habove⟩ := habove he'
    cases k with
    | nested | underMut =>
      obtain ⟨d, hd, field, hfield, kinds', habove', hmeets'⟩ := hjust.param (k := .nested) hinfo hp hinner
      obtain ⟨kind, hkind⟩ := exists_mem_of_ne_nil kinds' habove'
      exact .param hmeets habove hd hfield hmeets' harg ⟨kind, hkind, trivial⟩
    | nestedMut =>
      obtain ⟨d, hd, field, hfield, kinds', habove', hmeets'⟩ := hjust.param (k := .nestedMut) hinfo hp hinner
      exact .param hmeets habove hd hfield hmeets' harg ⟨.rMut, habove', rfl⟩
  | region hinfo hregion =>
    obtain ⟨i, r, -, -, hr⟩ := mem_regionsWants.mp hregion
    simp [Region.wants] at hr

theorem Justified.fact {d : TypeDecl} {field : Ty} {x : Fact} (hjust : Justified crate infos)
    (hfield : field ∈ d.fieldTys) (h : .fact x ∈ wants infos explInfoInit field) :
    JustifiedFact crate d x := by
  have hvar : ∀ {k : Nesting} {i : TypeVarId} {e' : ExplInfo}, Visits infos explInfoInit field e' (.tVar (.free i)) →
      k.outer e' = true → ∃ field ∈ d.fieldTys, ∃ kinds, k.Above kinds ∧ Meets crate field kinds (.tVar (.free i)) := by
    intro k i e' hvisit he'
    obtain ⟨kinds, hmeets, hinit | habove⟩ := (hvisit.meets hjust).2 he'
    · cases k <;> cases hinit
    · exact ⟨field, hfield, kinds, habove, hmeets⟩
  cases x with
  | flag f =>
    intro k hk
    subst hk
    exact ⟨field, hfield, hjust.shows h⟩
  | under i =>
    obtain ⟨e', ty', hvisit, hask⟩ := visits_of_mem_wants h
    obtain ⟨j, rfl, hw⟩ := hask.of_var nofun nofun
    simp only [SubtypeInfo.wants, mem_append, mem_ite_nil_right, mem_singleton, Want.fact.injEq,
      Fact.under.injEq, reduceCtorEq, and_false, or_false] at hw
    obtain ⟨hu, rfl⟩ := hw
    exact hvar (k := .nested) hvisit hu
  | underMut i =>
    obtain ⟨e', ty', hvisit, hask⟩ := visits_of_mem_wants h
    obtain ⟨j, rfl, hw⟩ := hask.of_var nofun nofun
    simp only [SubtypeInfo.wants, mem_append, mem_ite_nil_right, mem_singleton, Want.fact.injEq,
      Fact.underMut.injEq, reduceCtorEq, and_false, false_or] at hw
    obtain ⟨hm, rfl⟩ := hw
    exact hvar (k := .underMut) hvisit hm
  | region rid => trivial

theorem Closed.param (hclosed : Closed crate infos) {info : TypeDeclInfo} {d : TypeDecl}
    {field : Ty} {p : TypeParamInfo} (hinfo : infos[id]? = some info) (hd : crate.typeDecls[id]? = some d)
    (hfield : field ∈ d.fieldTys) (hvisit : Visits infos explInfoInit field e' (.tVar (.free i)))
    (hp : info.paramInfos[i]? = some p) :
    e'.Le p := by
  have hinfo' : infos[d.defId]? = some info := by rw [crate.defId_eq id d hd, hinfo]
  have hwant : ∀ {x}, .fact x ∈ e'.wants i → .fact x ∈ (declWants infos d).flatten := by
    intro x hx
    exact mem_flatten.mpr ⟨_, mem_map.mpr ⟨field, hfield, rfl⟩, hvisit.mem_wants (.var hx)⟩
  have hstable := (hclosed id info d hinfo hd).1 info hinfo'
  constructor
  · intro hu
    obtain ⟨p', hp', hknown⟩ :=
      declKnown_under.mp (hstable (.under i) (by simp) (hwant (by simp [SubtypeInfo.wants, hu])))
    obtain rfl : p = p' := Option.some.inj (hp.symm.trans hp')
    exact hknown
  · intro hm
    obtain ⟨p', hp', hknown⟩ :=
      declKnown_underMut.mp (hstable (.underMut i) (by simp) (hwant (by simp [SubtypeInfo.wants, hm])))
    obtain rfl : p = p' := Option.some.inj (hp.symm.trans hp')
    exact hknown

theorem SubtypeInfo.Le.trans {e₁ e₂ e₃ : SubtypeInfo} (h : e₁.Le e₂) (h' : e₂.Le e₃) : e₁.Le e₃ :=
  ⟨fun hu => h'.underBorrow (h.underBorrow hu), fun hm => h'.underMutBorrow (h.underMutBorrow hm)⟩

theorem SubtypeInfo.le_join (e : ExplInfo) (p : TypeParamInfo) : e.Le (e.join p) :=
  ⟨fun hu => by simp [SubtypeInfo.join, hu], fun hm => by simp [SubtypeInfo.join, hm]⟩

theorem Explored.param {g : GenericArgs Ty} {arg : Ty}
    (h : Explored infos (.tAdt id none g)) (harg : g.types[i]? = some arg) :
    ∃ info p, infos[id]? = some info ∧ info.paramInfos[i]? = some p ∧ Explored infos arg := by
  obtain ⟨info, hinfo, hlen⟩ := h.adt
  obtain ⟨hi, heq⟩ := List.getElem?_eq_some_iff.mp harg
  exact ⟨info, _, hinfo, getElem?_eq_getElem (hlen ▸ hi), h.part (mem_of_getElem? harg)⟩

theorem Meets.visits (hclosed : Closed crate infos) {kinds : List RefKind} (h : Meets crate ty kinds ty') :
    ∀ e, Explored infos ty → ∃ e', Visits infos e ty e' ty' ∧ (e.enterAll kinds).Le e' ∧ Explored infos ty' := by
  induction h with
  | here =>
    intro e hty
    exact ⟨e, .here, ⟨id, id⟩, hty⟩
  | @ref r ty ty' kind kinds _ ih =>
    intro e hty
    obtain ⟨e', hvisit, hle, hty'⟩ := ih (e.enter kind) (hty.part mem_cons_self)
    exact ⟨e', .ref hvisit, hle, hty'⟩
  | piece hpiece _ ih =>
    intro e hty
    obtain ⟨e', hvisit, hle, hty'⟩ := ih e (hty.part (Ty.pieces_subset_parts hpiece))
    exact ⟨e', .piece hpiece hvisit, hle, hty'⟩
  | arg harg _ ih =>
    intro e hty
    obtain ⟨info, p, hinfo, hp, hexplored⟩ := hty.param harg
    obtain ⟨e', hvisit, hle, hty'⟩ := ih (e.join p) hexplored
    exact ⟨e', .arg hinfo hp harg hvisit, (SubtypeInfo.Le.enterAll _ (e.le_join p)).trans hle, hty'⟩
  | @argBelow id g i d field arg ty' kinds kinds' hd hfield _ harg _ ihfield ih =>
    intro e hty
    obtain ⟨info, p, hinfo, hp, hexplored⟩ := hty.param harg
    obtain ⟨e₁, hvisit₁, hle₁, -⟩ := ihfield explInfoInit ((hclosed id info d hinfo hd).2 field hfield)
    have hparam := hle₁.trans (hclosed.param hinfo hd hfield hvisit₁ hp)
    obtain ⟨e', hvisit, hle, hty'⟩ := ih (e.join p) hexplored
    refine ⟨e', .arg hinfo hp harg hvisit, ?_, hty'⟩
    rw [SubtypeInfo.enterAll_append, SubtypeInfo.enterAll_eq_join e kinds]
    exact (SubtypeInfo.Le.enterAll kinds' hparam.join).trans hle

theorem Nesting.outer_mono (h : e.Le e') (houter : k.outer e = true) : k.outer e' = true := by
  cases k with
  | nested => exact h.underBorrow houter
  | underMut | nestedMut => exact h.underMutBorrow houter

theorem Nesting.innerParam_mono (h : e.Le e') (hinner : k.innerParam e = true) : k.innerParam e' = true := by
  cases k with
  | nested | underMut => exact h.underBorrow hinner
  | nestedMut => exact h.underMutBorrow hinner

theorem ShowsNested.wanted (hclosed : Closed crate infos) (h : ShowsNested crate k ty) (hty : Explored infos ty) :
    .fact (.flag k.flag) ∈ wants infos explInfoInit ty := by
  induction h with
  | borrow hmeets habove hinner =>
    obtain ⟨e', hvisit, hle, -⟩ := hmeets.visits hclosed explInfoInit hty
    exact hvisit.mem_wants
      (.ref (flag_mem_refWants.mpr ⟨Nesting.outer_mono hle (Nesting.outer_enterAll_init.mpr habove), hinner⟩))
  | param hmeets habove hd hfield hparam harg hinner =>
    obtain ⟨e', hvisit, hle, hadt⟩ := hmeets.visits hclosed explInfoInit hty
    obtain ⟨info, p, hinfo, hp, -⟩ := hadt.param harg
    obtain ⟨e₁, hvisit₁, hle₁, -⟩ := hparam.visits hclosed explInfoInit ((hclosed _ info _ hinfo hd).2 _ hfield)
    have hle₂ := hle₁.trans (hclosed.param hinfo hd hfield hvisit₁ hp)
    refine hvisit.mem_wants (.param hinfo hp harg (flag_mem_paramWants.mpr ⟨?_, ?_⟩))
    · exact Nesting.outer_mono hle (Nesting.outer_enterAll_init.mpr habove)
    · exact Nesting.innerParam_mono hle₂ (Nesting.innerParam_enterAll_init.mpr hinner)
  | @declared ty field kinds id g d hmeets hd hfield _ ih =>
    obtain ⟨e', hvisit, hle, hadt⟩ := hmeets.visits hclosed explInfoInit hty
    obtain ⟨info, hinfo, -⟩ := hadt.adt
    have hinfo' : infos[d.defId]? = some info := by rw [crate.defId_eq id d hd, hinfo]
    obtain ⟨hstable, hexplored⟩ := hclosed id info d hinfo hd
    have hwant := ih (hexplored field hfield)
    refine hvisit.mem_wants (.adt hinfo (flag_mem_adtWants.mpr ?_))
    refine hstable info hinfo' (.flag k.flag) (by cases k <;> simp [Nesting.flag]) ?_
    exact mem_flatten.mpr ⟨_, mem_map.mpr ⟨field, hfield, rfl⟩, hwant⟩

end

/-! ## The information which the analysis computes -/

section
variable {cfg : AnalysisConfig} {crate : Crate} {infos infos' : TypeInfos} {defs : List TypeDecl} {u u' : Bool}

theorem declKnown_initial {d : TypeDecl} {x : Fact} (h : declKnown (initializeTypeDeclInfo cfg d) x = true) :
    ∃ rid, x = .region rid := by
  cases x with
  | region rid => exact ⟨rid, rfl⟩
  | flag f => cases f <;> cases h
  | under i =>
    obtain ⟨p, hp, hu⟩ := declKnown_under.mp h
    obtain ⟨_, -, rfl⟩ := mem_map.mp (mem_of_getElem? hp)
    cases hu
  | underMut i =>
    obtain ⟨p, hp, hm⟩ := declKnown_underMut.mp h
    obtain ⟨_, -, rfl⟩ := mem_map.mp (mem_of_getElem? hp)
    cases hm

theorem Justified.rounds {n : Nat} (hjust : Justified crate infos)
    (hdefs : ∀ d ∈ defs, crate.typeDecls[d.defId]? = some d)
    (hrounds : analyzeRounds defs n (initializeTypeDecls cfg infos defs) = .ok infos') :
    Justified crate infos' := by
  have hstart : KnownBy crate (JustifiedFact crate) (initializeTypeDecls cfg infos defs) := by
    refine KnownBy.initial hjust hdefs fun d _ x hx => ?_
    obtain ⟨rid, rfl⟩ := declKnown_initial hx
    trivial
  refine hstart.analyzeRounds hdefs (fun infos hjust d _ field hfield x hx => ?_) (fun d _ k hk => ?_) hrounds
  · exact Justified.fact hjust hfield hx
  · cases k <;> cases hk

def Extends (infos infos' : TypeInfos) : Prop :=
  ∀ (id : TypeDeclId) (info : TypeDeclInfo), infos[id]? = some info → infos'[id]? = some info

variable {ty : Ty}

theorem Visits.of_extends (hext : Extends infos infos') {e e' : ExplInfo} {ty' : Ty} (h : Visits infos' e ty e' ty')
    (hty : Explored infos ty) : Visits infos e ty e' ty' ∧ Explored infos ty' := by
  induction h with
  | here => exact ⟨.here, hty⟩
  | ref _ ih =>
    obtain ⟨hvisit, hty'⟩ := ih (hty.part mem_cons_self)
    exact ⟨.ref hvisit, hty'⟩
  | piece hpiece _ ih =>
    obtain ⟨hvisit, hty'⟩ := ih (hty.part (Ty.pieces_subset_parts hpiece))
    exact ⟨.piece hpiece hvisit, hty'⟩
  | arg hinfo hp harg _ ih =>
    obtain ⟨info, p, hinfo', -, hexplored⟩ := hty.param harg
    obtain ⟨hvisit, hty'⟩ := ih hexplored
    cases (hext _ _ hinfo').symm.trans hinfo
    exact ⟨.arg hinfo' hp harg hvisit, hty'⟩

theorem Asks.of_extends (hext : Extends infos infos') {e : ExplInfo} {w : Want} (h : Asks infos' e w ty)
    (hty : Explored infos ty) : Asks infos e w ty := by
  cases h with
  | var h => exact .var h
  | ref h => exact .ref h
  | adt hinfo h =>
    obtain ⟨info, hinfo', -⟩ := hty.adt
    cases (hext _ _ hinfo').symm.trans hinfo
    exact .adt hinfo' h
  | param hinfo hp harg h =>
    obtain ⟨info, hinfo', -⟩ := hty.adt
    cases (hext _ _ hinfo').symm.trans hinfo
    exact .param hinfo' hp harg h
  | region hinfo h =>
    obtain ⟨info, hinfo', -⟩ := hty.adt
    cases (hext _ _ hinfo').symm.trans hinfo
    exact .region hinfo' h

theorem Explored.of_extends (hext : Extends infos infos') (h : Explored infos ty) : Explored infos' ty := by
  induction h with
  | mk adt _ ih =>
    refine ⟨fun id g hty => ?_, ih⟩
    obtain ⟨info, hinfo, hlen⟩ := adt id g hty
    exact ⟨info, hext id info hinfo, hlen⟩

theorem Stable.of_extends {S : Fact → Prop} {d : TypeDecl} (hext : Extends infos infos') (h : Stable S infos d)
    (hexplored : ∀ field ∈ d.fieldTys, Explored infos field) (hsame : infos'[d.defId]? = infos[d.defId]?) :
    Stable S infos' d := by
  intro info hinfo x hx hwant
  refine h info (hsame ▸ hinfo) x hx ?_
  obtain ⟨ws, hws, hwant⟩ := mem_flatten.mp hwant
  obtain ⟨field, hfield, rfl⟩ := mem_map.mp hws
  obtain ⟨e', ty', hvisit, hask⟩ := visits_of_mem_wants hwant
  obtain ⟨hvisit', hty'⟩ := hvisit.of_extends hext (hexplored field hfield)
  exact mem_flatten.mpr ⟨_, mem_map.mpr ⟨field, hfield, rfl⟩, hvisit'.mem_wants (hask.of_extends hext hty')⟩

/-- The information which the analysis computes for groups of declarations, one after the other. -/
inductive Analysed (cfg : AnalysisConfig) (crate : Crate) : TypeInfos → Prop where
  | nil : Analysed cfg crate ∅
  | group {infos infos' : TypeInfos} {decl : TypeDeclarationGroup} {depth : Nat} (h : Analysed cfg crate infos)
    (hnew : ∀ id ∈ decl.ids, infos[id]? = none)
    (hgroup : analyzeTypeDeclarationGroup cfg crate depth infos decl = .ok infos') : Analysed cfg crate infos'

theorem Analysed.closed_justified (h : Analysed cfg crate infos) : Closed crate infos ∧ Justified crate infos := by
  induction h with
  | nil => exact ⟨fun id info d hinfo => by simp at hinfo, fun id info hinfo => by simp at hinfo⟩
  | @group infos infos' decl depth _ hnew hgroup ih =>
    obtain ⟨defs, hdefs, hrounds⟩ := bind_eq_ok.mp hgroup
    have hmem : ∀ d ∈ defs, crate.typeDecls[d.defId]? = some d := fun d hd => lookupDecls_mem hdefs hd
    refine ⟨fun id info d hinfo hd => ?_, ih.2.rounds hmem hrounds⟩
    have hstable : ∀ d ∈ defs, Stable (· ≠ .flag .borrow) infos' d := by
      intro d hd
      rcases (analyzeRounds_ok hrounds).2 with ⟨hquiet, heq⟩ | ⟨-, hstable⟩
      · exact heq ▸ hquiet.stable d hd
      · exact fun info hinfo x _ => hstable d hd info hinfo x trivial
    by_cases hin : ∃ d' ∈ defs, d'.defId = id
    · obtain ⟨d', hd', rfl⟩ := hin
      obtain rfl : d' = d := Option.some.inj ((hmem d' hd').symm.trans hd)
      exact ⟨hstable d' hd', analyzeRounds_explored hrounds d' hd'⟩
    · -- the declarations which were analysed before
      have hframe : ∀ id, (∀ d' ∈ defs, d'.defId ≠ id) → infos'[id]? = infos[id]? := fun id hout =>
        (analyzeRounds_frame hout hrounds).trans (initializeTypeDecls_frame hout)
      have hext : Extends infos infos' := by
        intro id' info' hinfo'
        rw [hframe id', hinfo']
        rintro d' hd' rfl
        obtain ⟨id₁, hid₁, -, heq⟩ := exists_of_forall₂ (lookupDecls_ok hdefs) hd'
        rw [heq, hnew id₁ hid₁] at hinfo'
        cases hinfo'
      have hsame := hframe id fun d' hd' heq => hin ⟨d', hd', heq⟩
      obtain ⟨hold, hexplored⟩ := ih.1 id info d (hsame ▸ hinfo) hd
      refine ⟨hold.of_extends hext hexplored ?_, fun field hfield => (hexplored field hfield).of_extends hext⟩
      rw [crate.defId_eq id d hd, hsame]

end

end Aeneas.Llbc
