import Aeneas.TypesAnalysisRounds

/-!
# The borrow and parameter flags

If the information of the declarations has the facts which their fields want, then
it accounts for everything that unfolding the declarations exposes.
-/

namespace Aeneas.Llbc

open SubtypeInfo List

/-! ## What is exposed -/

def SubtypeInfo.enterAll (e : ExplInfo) (kinds : List RefKind) : ExplInfo := kinds.foldl enter e

inductive Shows (e : ExplInfo) : Ty → Fact → Prop where
  | borrow {r : Region} {ty : Ty} {kind : RefKind} : Shows e (.tRef r ty kind) (.flag .borrow)
  | mutBorrow {r : Region} {ty : Ty} : Shows e (.tRef r ty .rMut) (.flag .mutBorrow)
  | region {rid : RegionId} {ty : Ty} : Shows e (.tRef (.rVar (.free rid)) ty .rMut) (.region rid)
  | under {i : TypeVarId} (h : e.underBorrow = true) : Shows e (.tVar (.free i)) (.under i)
  | underMut {i : TypeVarId} (h : e.underMutBorrow = true) : Shows e (.tVar (.free i)) (.underMut i)

/-- The facts of a class which the fields of a declaration expose in a number of steps are known. -/
def CoversIn (S : Fact → Prop) (crate : Crate) (n : Nat) (d : TypeDecl) (info : TypeDeclInfo) : Prop :=
  ∀ field ∈ d.fieldTys, ∀ kinds ty, ExposesIn crate n field kinds ty →
    ∀ x, S x → Shows (explInfoInit.enterAll kinds) ty x → declKnown info x = true

def CoversAll (S : Fact → Prop) (crate : Crate) (infos : TypeInfos) (n : Nat) : Prop :=
  ∀ (id : TypeDeclId) (info : TypeDeclInfo) (d : TypeDecl), infos[id]? = some info → crate.typeDecls[id]? = some d →
    CoversIn S crate n d info

structure SubtypeInfo.Le (e e' : SubtypeInfo) : Prop where
  underBorrow : e.underBorrow = true → e'.underBorrow = true
  underMutBorrow : e.underMutBorrow = true → e'.underMutBorrow = true

section
variable {e e' : ExplInfo}

theorem SubtypeInfo.Le.enter (h : e.Le e') (kind : RefKind) : (e.enter kind).Le (e'.enter kind) where
  underBorrow _ := rfl
  underMutBorrow hm := by
    simp only [SubtypeInfo.enter, Bool.or_eq_true] at hm ⊢
    exact hm.imp_left h.underMutBorrow

theorem SubtypeInfo.Le.enterAll : ∀ (kinds : List RefKind) {e e' : ExplInfo}, e.Le e' →
    (e.enterAll kinds).Le (e'.enterAll kinds)
  | [], _, _, h => h
  | kind :: kinds, _, _, h => SubtypeInfo.Le.enterAll kinds (h.enter kind)

theorem SubtypeInfo.enterAll_append (e : ExplInfo) (kinds kinds' : List RefKind) :
    e.enterAll (kinds ++ kinds') = (e.enterAll kinds).enterAll kinds' := foldl_append

theorem SubtypeInfo.enterAll_join (e : ExplInfo) : ∀ (kinds : List RefKind) (p : ExplInfo),
    (e.join p).enterAll kinds = e.join (p.enterAll kinds)
  | [], _ => rfl
  | kind :: kinds, p => by
    show ((e.join p).enter kind).enterAll kinds = e.join ((p.enter kind).enterAll kinds)
    rw [← enterAll_join e kinds]
    simp [enter, join, Bool.or_assoc]

theorem SubtypeInfo.join_init (e : ExplInfo) : e.join explInfoInit = e := by
  simp [join, explInfoInit]

theorem SubtypeInfo.enterAll_eq_join (e : ExplInfo) (kinds : List RefKind) :
    e.enterAll kinds = e.join (explInfoInit.enterAll kinds) := by
  rw [← enterAll_join, join_init]

theorem SubtypeInfo.Le.join {p p' : SubtypeInfo} (h : p.Le p') : (e.join p).Le (e.join p') where
  underBorrow hu := by
    simp only [SubtypeInfo.join, Bool.or_eq_true] at hu ⊢
    exact hu.imp_right h.underBorrow
  underMutBorrow hm := by
    simp only [SubtypeInfo.join, Bool.or_eq_true] at hm ⊢
    exact hm.imp_right h.underMutBorrow

theorem Shows.mono {ty : Ty} {x : Fact} (h : e.Le e') (hx : Shows e ty x) : Shows e' ty x := by
  cases hx with
  | borrow => exact .borrow
  | mutBorrow => exact .mutBorrow
  | region => exact .region
  | under hu => exact .under (h.underBorrow hu)
  | underMut hm => exact .underMut (h.underMutBorrow hm)

end

/-! ## The types which are explored -/

inductive Explored (infos : TypeInfos) : Ty → Prop where
  | mk {ty : Ty} (adt : ∀ id g, ty = .tAdt id none g → ∃ info, infos[id]? = some info ∧
      info.paramInfos.length = g.types.length) (parts : ∀ part ∈ ty.parts, Explored infos part) : Explored infos ty

variable {infos : TypeInfos} {id : TypeDeclId}

theorem Explored.adt {g : GenericArgs Ty} (h : Explored infos (.tAdt id none g)) :
    ∃ info, infos[id]? = some info ∧ info.paramInfos.length = g.types.length := by
  cases h with
  | mk adt _ => exact adt id g rfl

variable {ty : Ty}

theorem Explored.part {part : Ty} (h : Explored infos ty) (hpart : part ∈ ty.parts) :
    Explored infos part := by
  cases h with
  | mk _ parts => exact parts part hpart

theorem Ty.pieces_subset_parts {piece : Ty} (h : piece ∈ ty.pieces) : piece ∈ ty.parts := by
  cases ty with
  | tAdt id builtin g =>
    cases builtin with
    | none => cases h
    | some b => exact h
  | tRef r ty kind => cases h
  | _ => exact h

section
variable {infos : TypeInfos} {t₀ : PartialTypeInfo} {u u' : Bool}

def Analyzed (infos : TypeInfos) (t₀ : PartialTypeInfo) (ty : Ty) : Prop :=
  ∃ e i u i' u', analyze infos t₀ e i ty u = .ok (i', u')

theorem analyzeTys_mem {tys : List Ty} {e : ExplInfo} {i i' : PartialTypeInfo} {u u' : Bool}
    (h : analyzeTys infos t₀ e i tys u = .ok (i', u')) : ∀ ty ∈ tys, Analyzed infos t₀ ty := by
  induction tys generalizing i u with
  | nil => exact fun ty hty => absurd hty not_mem_nil
  | cons t tys ih =>
    intro ty hty
    obtain ⟨i₁, u₁, h₁, h₂⟩ := run_bind_eq_ok h
    rcases mem_cons.mp hty with rfl | hty
    · exact ⟨e, i, u, i₁, u₁, h₁⟩
    · exact ih h₂ ty hty

theorem analyzeParams_mem {tys : List Ty} {ps : List TypeParamInfo} {e : ExplInfo} {i i' : PartialTypeInfo}
    {u u' : Bool} (hlen : ps.length = tys.length) (h : analyzeParams infos t₀ e i ps tys u = .ok (i', u')) :
    ∀ ty ∈ tys, Analyzed infos t₀ ty := by
  induction tys generalizing i u ps with
  | nil => exact fun ty hty => absurd hty not_mem_nil
  | cons t tys ih =>
    intro ty hty
    cases ps with
    | nil => cases hlen
    | cons p ps =>
      obtain ⟨i₁, u₁, h₁, h₂⟩ := run_bind_eq_ok h
      obtain ⟨i₂, u₂, h₃, h₄⟩ := run_bind_eq_ok h₂
      rcases mem_cons.mp hty with rfl | hty
      · exact ⟨_, _, _, _, _, h₃⟩
      · exact ih (Nat.succ.inj hlen) h₄ ty hty

theorem Analyzed.adt {id : TypeDeclId} {g : GenericArgs Ty} (h : Analyzed infos t₀ (.tAdt id none g)) :
    (∃ info, infos[id]? = some info ∧ info.paramInfos.length = g.types.length) ∧
      ∀ ty ∈ g.types, Analyzed infos t₀ ty := by
  obtain ⟨e, i, u, i', u', h⟩ := h
  obtain ⟨regions, types, refs⟩ := g
  obtain ⟨info, u₁, h₁, h₂⟩ := run_bind_eq_ok h
  obtain ⟨hfind, rfl⟩ := run_liftM h₁
  obtain ⟨i₂, u₂, -, h₄⟩ := run_bind_eq_ok h₂
  by_cases hlen : info.paramInfos.length = types.length
  · rw [if_pos hlen] at h₄
    obtain ⟨i₃, u₃, h₅, -⟩ := run_bind_eq_ok h₄
    exact ⟨⟨info, find_eq_ok.mp hfind, hlen⟩, analyzeParams_mem hlen h₅⟩
  · rw [if_neg hlen] at h₄
    cases h₄

theorem Analyzed.explored : ∀ {ty : Ty}, Analyzed infos t₀ ty → Explored infos ty := by
  intro ty
  induction ty using Ty.parts_induct with
  | step ty ih =>
    intro h
    refine ⟨fun id g hty => ?_, fun part hpart => ih part hpart ?_⟩
    · subst hty
      exact h.adt.1
    · cases ty with
      | tAdt id builtin g =>
        cases builtin with
        | none => exact h.adt.2 part hpart
        | some b =>
          obtain ⟨e, i, u, i', u', h⟩ := h
          have htys : analyzeTys infos t₀ e i g.types u = .ok (i', u') := h
          exact analyzeTys_mem htys part hpart
      | tRef r ty kind =>
        obtain ⟨e, i, u, i', u', h⟩ := h
        obtain ⟨i₁, u₁, -, h₂⟩ := run_bind_eq_ok h
        obtain rfl := mem_singleton.mp hpart
        exact ⟨_, _, _, _, _, h₂⟩
      | tRawPtr ty | tArray ty | tSlice ty =>
        obtain ⟨e, i, u, i', u', h⟩ := h
        obtain rfl := mem_singleton.mp hpart
        exact ⟨e, i, u, i', u', h⟩
      | tFnPtr binder inputs output =>
        obtain ⟨e, i, u, i', u', h⟩ := h
        obtain ⟨i₁, u₁, h₁, h₂⟩ := run_bind_eq_ok h
        rcases mem_append.mp hpart with hin | hout
        · exact analyzeTys_mem h₁ part hin
        · obtain rfl := mem_singleton.mp hout
          exact ⟨_, _, _, _, _, h₂⟩
      | _ => cases hpart

end

/-! ## The facts of the parts of a type -/

section
variable {infos : TypeInfos} {e : ExplInfo} {w : Want} {x : Fact}

theorem mem_wantsTys {tys : List Ty} : w ∈ wantsTys infos e tys ↔ ∃ ty ∈ tys, w ∈ wants infos e ty := by
  induction tys with
  | nil => simp [wantsTys]
  | cons ty tys ih => rw [wantsTys, mem_append, ih, exists_mem_cons_iff]

theorem mem_wantsParams : ∀ {tys : List Ty} {ps : List TypeParamInfo}, w ∈ wantsParams infos e ps tys ↔
    ∃ (i : Nat) (p : TypeParamInfo) (ty : Ty), ps[i]? = some p ∧ tys[i]? = some ty ∧
      (w ∈ (paramBorrowsInfo e p).wants ∨ w ∈ wants infos (e.join p) ty)
  | [], ps | ty :: tys, [] => by simp [wantsParams]
  | ty :: tys, p :: ps => by
    rw [wantsParams, mem_append, mem_append, mem_wantsParams]
    constructor
    · rintro (h | h | ⟨i, p', ty', hp', hty', h⟩)
      · exact ⟨0, p, ty, rfl, rfl, .inl h⟩
      · exact ⟨0, p, ty, rfl, rfl, .inr h⟩
      · exact ⟨i + 1, p', ty', hp', hty', h⟩
    · rintro ⟨i, p', ty', hp', hty', h⟩
      cases i with
      | zero =>
        cases hp'
        cases hty'
        exact h.imp_right .inl
      | succ i => exact .inr (.inr ⟨i, p', ty', hp', hty', h⟩)

theorem mem_regionsWants {a : TypeDeclInfo} : ∀ {regions : List Region} {j : Nat}, w ∈ regionsWants a j regions ↔
    ∃ (i : Nat) (r : Region), regions[i]? = some r ∧ j + i ∈ a.mutRegions ∧ w ∈ r.wants
  | [], _ => by simp [regionsWants]
  | r :: regions, j => by
    rw [regionsWants, mem_append, mem_regionsWants]
    constructor
    · rintro (h | ⟨i, r', hr', hmut, h⟩)
      · by_cases hmut : j ∈ a.mutRegions
        · rw [if_pos hmut] at h
          exact ⟨0, r, rfl, hmut, h⟩
        · rw [if_neg hmut] at h
          cases h
      · exact ⟨i + 1, r', hr', by rwa [show j + (i + 1) = j + 1 + i by omega], h⟩
    · rintro ⟨i, r', hr', hmut, h⟩
      cases i with
      | zero =>
        cases hr'
        rw [Nat.add_zero] at hmut
        rw [if_pos hmut]
        exact .inl h
      | succ i => exact .inr ⟨i, r', hr', by rwa [show j + 1 + i = j + (i + 1) by omega], h⟩

theorem mem_wants_adt {id : TypeDeclId} {g : GenericArgs Ty} {info : TypeDeclInfo} (hinfo : infos[id]? = some info) :
    w ∈ wants infos e (.tAdt id none g) ↔ w ∈ adtWants info g.regions ∨
      w ∈ wantsParams infos e info.paramInfos g.types ∨ w ∈ regionsWants info 0 g.regions := by
  obtain ⟨regions, types, refs⟩ := g
  unfold wants
  rw [hinfo, mem_append, mem_append]

theorem mem_wants_piece {ty piece : Ty} (hpiece : piece ∈ ty.pieces) (h : w ∈ wants infos e piece) :
    w ∈ wants infos e ty := by
  cases ty with
  | tAdt id builtin g =>
    cases builtin with
    | none => cases hpiece
    | some b => exact mem_wantsTys.mpr ⟨piece, hpiece, h⟩
  | tRawPtr ty | tArray ty | tSlice ty =>
    obtain rfl := mem_singleton.mp hpiece
    exact h
  | tFnPtr binder inputs output =>
    unfold wants
    rw [mem_append]
    rcases mem_append.mp hpiece with hin | hout
    · exact .inl (mem_wantsTys.mpr ⟨piece, hin, h⟩)
    · obtain rfl := mem_singleton.mp hout
      exact .inr h
  | _ => cases hpiece

theorem Shows.mem_wants {ty : Ty} (h : Shows e ty x) : .fact x ∈ wants infos e ty := by
  cases h with
  | borrow =>
    refine mem_append_left _ (mem_append_left _ (mem_borrowsWants.mpr ⟨.borrow, rfl, rfl⟩))
  | mutBorrow =>
    refine mem_append_left _ (mem_append_left _ (mem_borrowsWants.mpr ⟨.mutBorrow, rfl, rfl⟩))
  | region => exact mem_append_left _ (mem_append_right _ (mem_singleton.mpr rfl))
  | under hu => simp [wants, SubtypeInfo.wants, hu]
  | underMut hm => simp [wants, SubtypeInfo.wants, hm]

end

/-! ## Everything that is exposed is known -/

section
variable {crate : Crate} {infos : TypeInfos} {S : Fact → Prop}

theorem CoversIn.param {n : Nat} {d : TypeDecl} {info : TypeDeclInfo} {field : Ty} {kinds : List RefKind}
    {i : TypeVarId} {p : TypeParamInfo} (hS : ∀ i, S (.under i) ∧ S (.underMut i)) (h : CoversIn S crate n d info)
    (hfield : field ∈ d.fieldTys) (hexposes : ExposesIn crate n field kinds (.tVar (.free i)))
    (hp : info.paramInfos[i]? = some p) :
    (explInfoInit.enterAll kinds).Le p where
  underBorrow hu := by
    have hknown := h field hfield kinds _ hexposes _ (hS i).1 (.under hu)
    simpa [declKnown, typeDeclInfoToPartialTypeInfo, GTypeInfo.known, underBorrowAt, hp] using hknown
  underMutBorrow hm := by
    have hknown := h field hfield kinds _ hexposes _ (hS i).2 (.underMut hm)
    simpa [declKnown, typeDeclInfoToPartialTypeInfo, GTypeInfo.known, underMutBorrowAt, hp] using hknown

theorem known_of_substitute {id : TypeDeclId} {g : GenericArgs Ty} {info : TypeDeclInfo} {e : ExplInfo}
    {kinds : List RefKind} {ty₀ : Ty} {x : Fact} {known : Known} (hinfo : infos[id]? = some info)
    (hinside : ∀ x, S x → Shows (explInfoInit.enterAll kinds) ty₀ x → declKnown info x = true)
    (hregion : ∀ {rid rid'}, S (.region rid) → S (.region rid'))
    (hknown : ∀ x, S x → .fact x ∈ wants infos e (.tAdt id none g) → known x = true)
    (hvar : ∀ id, ty₀ ≠ .tVar (.free id)) (hx : S x) (hshows : Shows (e.enterAll kinds) (ty₀.substitute g.subst) x) :
    known x = true := by
  generalize hty : ty₀.substitute g.subst = ty' at hshows
  have hflag : ∀ f, S (.flag f) → Shows (explInfoInit.enterAll kinds) ty₀ (.flag f) → known (.flag f) = true := by
    intro f hf hshow
    refine hknown _ hf ((mem_wants_adt hinfo).mpr (.inl ?_))
    exact mem_append_left _ (mem_borrowsWants.mpr ⟨f, hinside _ hf hshow, rfl⟩)
  cases hshows with
  | borrow =>
    obtain ⟨r₀, t₀, rfl, -, -⟩ := Ty.substitute_eq_tRef hvar hty
    exact hflag _ hx .borrow
  | mutBorrow =>
    obtain ⟨r₀, t₀, rfl, -, -⟩ := Ty.substitute_eq_tRef hvar hty
    exact hflag _ hx .mutBorrow
  | @region rid ty =>
    obtain ⟨r₀, t₀, rfl, hr, -⟩ := Ty.substitute_eq_tRef hvar hty
    obtain ⟨j, rfl, hget⟩ := Region.substitute_eq_free hr
    have hmut : j ∈ info.mutRegions := of_decide_eq_true (hinside (.region j) (hregion hx) .region)
    refine hknown _ hx ((mem_wants_adt hinfo).mpr (.inr (.inr (mem_regionsWants.mpr ⟨j, _, hget, ?_, ?_⟩))))
    · rwa [Nat.zero_add]
    · exact mem_singleton.mpr rfl
  | under hu | underMut hm => exact absurd hty (Ty.substitute_ne_tVar hvar)

theorem known_of_exposesIn (hS : ∀ i, S (.under i) ∧ S (.underMut i))
    (hregion : ∀ {rid rid'}, S (.region rid) → S (.region rid')) {known : Known} {ty' : Ty} {x : Fact} (hx : S x) :
    ∀ (n : Nat) {ty : Ty} {e : ExplInfo} {kinds : List RefKind},
    (∀ m < n, CoversAll S crate infos m) → Explored infos ty →
      (∀ x, S x → .fact x ∈ wants infos e ty → known x = true) →
    ExposesIn crate n ty kinds ty' → Shows (e.enterAll kinds) ty' x → known x = true := by
  intro n
  induction n using Nat.strong_induction_on with
  | _ n ih =>
    intro ty e kinds hdecls hexplored hknown hexposes hshows
    cases hexposes with
    | here => exact hknown x hx hshows.mem_wants
    | @ref n r inner _ kind kinds h =>
      refine ih n (Nat.lt_succ_self n) (fun m hm => hdecls m (by omega))
        (hexplored.part (mem_singleton.mpr rfl)) (fun y hy hwant => ?_) h hshows
      exact hknown y hy (mem_append_right _ hwant)
    | @piece n _ piece _ _ hpiece h =>
      refine ih n (Nat.lt_succ_self n) (fun m hm => hdecls m (by omega))
        (hexplored.part (Ty.pieces_subset_parts hpiece)) (fun y hy hwant => ?_) h hshows
      exact hknown y hy (mem_wants_piece hpiece hwant)
    | @unfold n id g d field _ _ hd hfield h =>
      obtain ⟨info, hinfo, hlen⟩ := hexplored.adt
      rcases h.of_substitute with ⟨ty₀, hty₀, hvar, rfl⟩ | ⟨n₁, n₂, kinds₁, kinds₂, i, hn₁, hn₂, rfl, h₁, h₂⟩
      · -- exposed by the declaration itself
        refine known_of_substitute hinfo (fun y hy hshow => ?_) hregion hknown hvar hx hshows
        exact hdecls n (Nat.lt_succ_self n) id info d hinfo hd field hfield kinds ty₀ hty₀ y hy hshow
      · -- exposed by the argument for a parameter of the declaration
        have harg : g.subst.ty i = (g.types[i]?).getD .tError := rfl
        rw [harg] at h₂
        cases hget : g.types[i]? with
        | none =>
          rw [hget] at h₂
          cases h₂ with
          | here => cases hshows
          | piece hpiece _ => cases hpiece
        | some arg =>
          rw [hget, Option.getD_some] at h₂
          obtain ⟨hi, rfl⟩ := List.getElem?_eq_some_iff.mp hget
          have hp : info.paramInfos[i]? = some info.paramInfos[i] := getElem?_eq_getElem (hlen ▸ hi)
          have hle := (hdecls n₁ (by omega) id info d hinfo hd).param hS hfield h₁ hp
          refine ih n₂ (by omega) (e := e.join info.paramInfos[i])
            (fun m hm => hdecls m (by omega))
            (hexplored.part (getElem_mem hi)) (fun y hy hwant => ?_) h₂ (hshows.mono ?_)
          · exact hknown y hy ((mem_wants_adt hinfo).mpr (.inr (.inl (mem_wantsParams.mpr
              ⟨i, _, _, hp, hget, .inr hwant⟩))))
          · rw [enterAll_append, enterAll_eq_join e kinds₁]
            exact SubtypeInfo.Le.enterAll kinds₂ hle.join

theorem coversAll_of_stable (hS : ∀ i, S (.under i) ∧ S (.underMut i))
    (hregion : ∀ {rid rid'}, S (.region rid) → S (.region rid'))
    (h : ∀ (id : TypeDeclId) (info : TypeDeclInfo) (d : TypeDecl), infos[id]? = some info →
      crate.typeDecls[id]? = some d → (∀ n, CoversIn S crate n d info) ∨
      (Stable S infos d ∧ ∀ field ∈ d.fieldTys, Explored infos field)) :
    ∀ n, CoversAll S crate infos n := by
  intro n
  induction n using Nat.strong_induction_on with
  | _ n ih =>
    intro id info d hinfo hd
    rcases h id info d hinfo hd with hcovers | ⟨hstable, hexplored⟩
    · exact hcovers n
    · intro field hfield kinds ty hexposes x hx hshows
      refine known_of_exposesIn hS hregion hx n ih (hexplored field hfield) (fun y hy hwant => ?_) hexposes hshows
      refine hstable info (by rw [crate.defId_eq id d hd, hinfo]) y hy ?_
      exact mem_flatten.mpr ⟨_, mem_map.mpr ⟨field, hfield, rfl⟩, hwant⟩

end

theorem Explored.congr {infos' : TypeInfos} (h : SameShape infos infos') (hty : Explored infos ty) :
    Explored infos' ty := by
  induction hty with
  | @mk ty adt _ ih =>
    refine ⟨fun id g heq => ?_, ih⟩
    obtain ⟨info, hinfo, hlen⟩ := adt id g heq
    have hrel := h id
    rw [hinfo] at hrel
    generalize infos'[id]? = o at hrel
    cases hrel with
    | some hrel => exact ⟨_, rfl, hrel.1.symm.trans hlen⟩

section
variable {infos infos' : TypeInfos}

theorem analyzeFields_explored {tys : List Ty} {i i' : PartialTypeInfo} {u u' : Bool}
    (h : analyzeFields infos i tys u = .ok (i', u')) : ∀ ty ∈ tys, Explored infos ty := by
  induction tys generalizing i u with
  | nil => exact fun ty hty => absurd hty not_mem_nil
  | cons t tys ih =>
    intro ty hty
    obtain ⟨i₁, u₁, h₁, h₂⟩ := run_bind_eq_ok h
    rcases mem_cons.mp hty with rfl | hty
    · exact Analyzed.explored ⟨_, _, _, _, _, h₁⟩
    · exact ih h₂ ty hty

theorem analyzeTypeDecl_explored {d : TypeDecl} {u u' : Bool} (h : analyzeTypeDecl infos d u = .ok (infos', u')) :
    ∀ field ∈ d.fieldTys, Explored infos field := by
  intro field hfield
  unfold analyzeTypeDecl at h
  cases hopaqueKind : typeDeclIsOpaque d with
  | true =>
    rw [fieldTys_opaqueDecl hopaqueKind] at hfield
    cases hfield
  | false =>
    rw [if_neg (by simp [hopaqueKind])] at h
    obtain ⟨tys, u₁, h₁, h₂⟩ := run_bind_eq_ok h
    obtain ⟨htys, rfl⟩ := run_liftM h₁
    obtain ⟨info, u₂, h₃, h₄⟩ := run_bind_eq_ok h₂
    obtain ⟨i, u₃, h₅, -⟩ := run_bind_eq_ok h₄
    exact analyzeFields_explored h₅ field (fieldsTys_eq htys ▸ hfield)

theorem analyzeTypeDecls_explored : ∀ {defs : List TypeDecl} {infos infos' : TypeInfos} {u u' : Bool},
    analyzeTypeDecls infos defs u = .ok (infos', u') → ∀ d ∈ defs, ∀ field ∈ d.fieldTys, Explored infos' field
  | [], _, _, _, _, _, d, hd => by cases hd
  | d :: defs, infos, infos', u, u', h, d', hd' => by
    intro field hfield
    have hshape := (analyzeTypeDecls_saturated h).1.sameShape
    obtain ⟨infos₁, u₁, h₁, h₂⟩ := run_bind_eq_ok h
    rcases mem_cons.mp hd' with rfl | hd'
    · exact (analyzeTypeDecl_explored h₁ field hfield).congr hshape
    · exact analyzeTypeDecls_explored h₂ d' hd' field hfield

theorem analyzeRounds_explored {defs : List TypeDecl} : ∀ {n : Nat} {infos : TypeInfos},
    analyzeRounds defs n infos = .ok infos' → ∀ d ∈ defs, ∀ field ∈ d.fieldTys, Explored infos' field
  | 0, _, h => by cases h
  | n + 1, infos, h => by
    obtain ⟨⟨infos₁, u₁⟩, h₁, h₂⟩ := bind_eq_ok.mp h
    have hround : analyzeTypeDecls infos defs false = .ok (infos₁, u₁) := h₁
    cases u₁ with
    | false =>
      cases h₂
      exact analyzeTypeDecls_explored hround
    | true => exact analyzeRounds_explored (n := n) h₂

end

/-! ## The groups of declarations -/

/-- The borrow flags and the flags of the type parameters account for everything that the fields of
the declaration expose. -/
structure SoundInfo (crate : Crate) (d : TypeDecl) (info : TypeDeclInfo) : Prop where
  borrow : ∀ kinds r ty kind, d.Exposes crate kinds (.tRef r ty kind) → info.borrowsInfo.containsBorrow = true
  mutBorrow : ∀ kinds r ty, d.Exposes crate kinds (.tRef r ty .rMut) → info.borrowsInfo.containsMutBorrow = true
  under : ∀ kinds i, d.Exposes crate kinds (.tVar (.free i)) → kinds ≠ [] →
    ∃ p, info.paramInfos[i]? = some p ∧ p.underBorrow = true
  underMut : ∀ kinds i, d.Exposes crate kinds (.tVar (.free i)) → .rMut ∈ kinds →
    ∃ p, info.paramInfos[i]? = some p ∧ p.underMutBorrow = true

theorem enterAll_underBorrow : ∀ {kinds : List RefKind} {e : ExplInfo},
    (e.enterAll kinds).underBorrow = true ↔ e.underBorrow = true ∨ kinds ≠ []
  | [], e => by simp [enterAll]
  | kind :: kinds, e => by
    show ((e.enter kind).enterAll kinds).underBorrow = true ↔ _
    rw [enterAll_underBorrow]
    simp [enter]

theorem enterAll_underMutBorrow : ∀ {kinds : List RefKind} {e : ExplInfo},
    (e.enterAll kinds).underMutBorrow = true ↔ e.underMutBorrow = true ∨ .rMut ∈ kinds
  | [], e => by simp [enterAll]
  | kind :: kinds, e => by
    show ((e.enter kind).enterAll kinds).underMutBorrow = true ↔ _
    rw [enterAll_underMutBorrow, mem_cons]
    simp only [enter, Bool.or_eq_true, decide_eq_true_eq, eq_comm (a := kind), or_assoc]

section
variable {crate : Crate} {d : TypeDecl} {info : TypeDeclInfo}

theorem declKnown_under {i : TypeVarId} : declKnown info (.under i) = true ↔
    ∃ p, info.paramInfos[i]? = some p ∧ p.underBorrow = true := by
  simp only [declKnown, typeDeclInfoToPartialTypeInfo, GTypeInfo.known, Option.map_some, Option.getD_some,
    underBorrowAt]
  cases info.paramInfos[i]? <;> simp

theorem declKnown_underMut {i : TypeVarId} : declKnown info (.underMut i) = true ↔
    ∃ p, info.paramInfos[i]? = some p ∧ p.underMutBorrow = true := by
  simp only [declKnown, typeDeclInfoToPartialTypeInfo, GTypeInfo.known, Option.map_some, Option.getD_some,
    underMutBorrowAt]
  cases info.paramInfos[i]? <;> simp

theorem soundInfo_iff : SoundInfo crate d info ↔ ∀ n, CoversIn (fun x => ∀ rid, x ≠ .region rid) crate n d info := by
  constructor
  · intro h n field hfield kinds ty hexposes x hx hshows
    have hd : d.Exposes crate kinds ty := ⟨field, hfield, n, hexposes⟩
    cases hshows with
    | borrow => exact h.borrow kinds _ _ _ hd
    | mutBorrow => exact h.mutBorrow kinds _ _ hd
    | region => exact absurd rfl (hx _)
    | under hu =>
      rcases enterAll_underBorrow.mp hu with hinit | hne
      · cases hinit
      · exact declKnown_under.mpr (h.under kinds _ hd hne)
    | underMut hm =>
      rcases enterAll_underMutBorrow.mp hm with hinit | hmut
      · cases hinit
      · exact declKnown_underMut.mpr (h.underMut kinds _ hd hmut)
  · intro h
    have hcovers : ∀ {kinds ty x}, d.Exposes crate kinds ty → (∀ rid, x ≠ .region rid) →
        Shows (explInfoInit.enterAll kinds) ty x → declKnown info x = true := by
      intro kinds ty x hd hx hshows
      obtain ⟨field, hfield, n, hexposes⟩ := hd
      exact h n field hfield kinds ty hexposes x hx hshows
    refine ⟨fun kinds r ty kind hd => ?_, fun kinds r ty hd => ?_, fun kinds i hd hne => ?_, fun kinds i hd hmut => ?_⟩
    · exact hcovers hd (fun rid heq => by cases heq) (.borrow)
    · exact hcovers hd (fun rid heq => by cases heq) (.mutBorrow)
    · exact declKnown_under.mp (hcovers hd (fun rid heq => by cases heq) (.under (enterAll_underBorrow.mpr (.inr hne))))
    · exact declKnown_underMut.mp
        (hcovers hd (fun rid heq => by cases heq) (.underMut (enterAll_underMutBorrow.mpr (.inr hmut))))

end

/-! ## The silent updates -/

def borrowAt (infos : TypeInfos) (id : TypeDeclId) : Bool :=
  (infos[id]?.map fun info => info.borrowsInfo.containsBorrow).getD false

/-- Some field of the declaration mentions an ADT with region parameters. -/
def MentionsRegions (infos : TypeInfos) (d : TypeDecl) : Prop := .silent ∈ (declWants infos d).flatten

theorem SameButBorrow.mentionsRegions {infos' : TypeInfos} (h : SameButBorrow infos infos') (d : TypeDecl) :
    MentionsRegions infos d ↔ MentionsRegions infos' d :=
  (h.wantsAlike (fun heq => by cases heq)).mem_declWants rfl d

theorem borrowAt_silenceDecl {d : TypeDecl} :
    borrowAt (silenceDecl infos d) id = true ↔
      borrowAt infos id = true ∨ (infos[id]?.isSome ∧ d.defId = id ∧ MentionsRegions infos d) := by
  unfold silenceDecl borrowAt
  by_cases hid : d.defId = id
  · subst hid
    cases hinfo : infos[d.defId]? with
    | none => simp [hinfo]
    | some info =>
      rw [Option.elim_some, getElem?_insert_eq, if_pos rfl]
      simp [silencedInfo, MentionsRegions]
  · cases hinfo : infos[d.defId]? with
    | none => simp [hid]
    | some info =>
      rw [Option.elim_some, getElem?_insert_eq, if_neg hid]
      simp [hid]

theorem isSome_silenceDecl {d : TypeDecl} :
    (silenceDecl infos d)[id]?.isSome = infos[id]?.isSome := by
  have hrel := sameButBorrow_silenceDecl infos d id
  generalize infos[id]? = o at hrel
  generalize (silenceDecl infos d)[id]? = o' at hrel
  cases hrel <;> rfl

theorem borrowAt_silence : ∀ {defs : List TypeDecl} {infos : TypeInfos},
    borrowAt (silence infos defs) id = true ↔
      borrowAt infos id = true ∨ (infos[id]?.isSome ∧ ∃ d ∈ defs, d.defId = id ∧ MentionsRegions infos d)
  | [], infos => by simp [silence]
  | d :: defs, infos => by
    show borrowAt (silence (silenceDecl infos d) defs) id = true ↔ _
    rw [borrowAt_silence, borrowAt_silenceDecl, isSome_silenceDecl, exists_mem_cons_iff]
    simp only [(sameButBorrow_silenceDecl infos d).mentionsRegions, and_or_left, or_assoc]

/-! ## Soundness of a group -/

section
variable {cfg : AnalysisConfig} {crate : Crate} {depth : Nat} {infos infos' : TypeInfos} {decl : TypeDeclarationGroup}
  {defs : List TypeDecl}

variable {d : TypeDecl}

theorem lookupDecls_mem (h : lookupDecls crate decl.ids = .ok defs) (hd : d ∈ defs) :
    crate.typeDecls[d.defId]? = some d := by
  obtain ⟨id, -, hid, rfl⟩ := exists_of_forall₂ (lookupDecls_ok h) hd
  exact hid

theorem lookupDecls_unique (h : lookupDecls crate decl.ids = .ok defs) {d' : TypeDecl} (hd : d ∈ defs) (hd' : d' ∈ defs)
    (heq : d'.defId = d.defId) : d' = d := by
  have h₁ := lookupDecls_mem h hd
  rw [← heq, lookupDecls_mem h hd'] at h₁
  exact Option.some.inj h₁

def flagFacts (S : Fact → Prop) (x : Fact) : Prop := (∀ rid, x ≠ .region rid) ∧ S x

theorem coversIn_of_sound {info : TypeDeclInfo} (S : Fact → Prop) (h : SoundInfo crate d info) (n : Nat) :
    CoversIn (flagFacts S) crate n d info := by
  intro field hfield kinds ty hexposes x hx hshows
  exact soundInfo_iff.mp h n field hfield kinds ty hexposes x hx.1 hshows

theorem coversAll_of_rounds {S : Fact → Prop} (hS : ∀ i, S (.under i) ∧ S (.underMut i))
    (hprior : ∀ (id : TypeDeclId) (info : TypeDeclInfo) (d : TypeDecl), infos[id]? = some info →
      crate.typeDecls[id]? = some d → SoundInfo crate d info)
    (hdefs : lookupDecls crate decl.ids = .ok defs)
    (hrounds : analyzeRounds defs depth (initializeTypeDecls cfg infos defs) = .ok infos')
    (hstable : ∀ d ∈ defs, Stable S infos' d) (n : Nat) : CoversAll (flagFacts S) crate infos' n := by
  have hparam : ∀ i, flagFacts S (.under i) ∧ flagFacts S (.underMut i) := by
    intro i
    exact ⟨⟨nofun, (hS i).1⟩, nofun, (hS i).2⟩
  refine coversAll_of_stable hparam (fun hx => absurd rfl (hx.1 _)) (fun id info d hinfo hd => ?_) n
  by_cases hin : ∃ d' ∈ defs, d'.defId = id
  · obtain ⟨d', hd', rfl⟩ := hin
    obtain rfl : d' = d := Option.some.inj ((lookupDecls_mem hdefs hd').symm.trans hd)
    exact .inr ⟨fun info hinfo x hx => hstable d' hd' info hinfo x hx.2, analyzeRounds_explored hrounds d' hd'⟩
  · have hout : ∀ d' ∈ defs, d'.defId ≠ id := fun d' hd' heq => hin ⟨d', hd', heq⟩
    rw [analyzeRounds_frame hout hrounds, initializeTypeDecls_frame hout] at hinfo
    exact .inl (coversIn_of_sound S (hprior id info d hinfo hd))

theorem borrowAt_initial (hdefs : lookupDecls crate decl.ids = .ok defs) (hd : d ∈ defs) :
    (initializeTypeDecls cfg infos defs)[d.defId]? = some (initializeTypeDeclInfo cfg d) :=
  initializeTypeDecls_get (fun _ hd' heq => lookupDecls_unique hdefs hd hd' heq) hd

theorem analyzeTypeDeclarationGroup_sound_iff
    (hprior : ∀ (id : TypeDeclId) (info : TypeDeclInfo) (d : TypeDecl), infos[id]? = some info →
      crate.typeDecls[id]? = some d → SoundInfo crate d info)
    (hdefs : lookupDecls crate decl.ids = .ok defs)
    (h : analyzeTypeDeclarationGroup cfg crate depth infos decl = .ok infos') :
    (∀ d ∈ defs, ∃ info, infos'[d.defId]? = some info ∧ SoundInfo crate d info) ↔
      (QuietRound (initializeTypeDecls cfg infos defs) defs → ∀ d ∈ defs,
        (∃ kinds r ty kind, d.Exposes crate kinds (.tRef r ty kind)) →
          MentionsRegions (initializeTypeDecls cfg infos defs) d) := by
  have hrounds : analyzeRounds defs depth (initializeTypeDecls cfg infos defs) = .ok infos' := by
    unfold analyzeTypeDeclarationGroup at h
    rwa [bind_eq_of_ok hdefs] at h
  obtain ⟨hgrows, hend⟩ := analyzeRounds_ok hrounds
  have hsome : ∀ d ∈ defs, ∃ info, infos'[d.defId]? = some info := by
    intro d hd
    have hrel := hgrows d.defId
    rw [borrowAt_initial hdefs hd] at hrel
    generalize infos'[d.defId]? = o at hrel
    cases hrel with
    | some _ => exact ⟨_, rfl⟩
  have hborrowAt : ∀ {d : TypeDecl} {info : TypeDeclInfo}, infos'[d.defId]? = some info →
    borrowAt infos' d.defId = info.borrowsInfo.containsBorrow := by
    intro d info hinfo
    simp [borrowAt, hinfo]
  constructor
  · -- after a quiet exploration only the silent updates can have set the flag
    intro hsound hquiet d hd hexposes
    obtain ⟨info, hinfo, hsoundInfo⟩ := hsound d hd
    obtain ⟨kinds, r, ty, kind, hexposes⟩ := hexposes
    have hflag := hsoundInfo.borrow kinds r ty kind hexposes
    rcases hend with ⟨-, heq⟩ | ⟨hnot, -⟩
    · rw [← hborrowAt hinfo, heq, borrowAt_silence] at hflag
      rcases hflag with hinit | ⟨-, d', hd', hid, hmentions⟩
      · simp only [borrowAt, borrowAt_initial hdefs hd] at hinit
        cases hinit
      · exact lookupDecls_unique hdefs hd hd' hid ▸ hmentions
    · exact absurd hquiet hnot
  · intro hcond d hd
    obtain ⟨info, hinfo⟩ := hsome d hd
    refine ⟨info, hinfo, ?_⟩
    rcases hend with ⟨hquiet, heq⟩ | ⟨-, hstable⟩
    · have hcovers := coversAll_of_rounds (S := (· ≠ .flag .borrow)) (fun i => ⟨nofun, nofun⟩) hprior hdefs hrounds
        (heq ▸ hquiet.stable)
      refine soundInfo_iff.mpr fun n field hfield kinds ty hexposes x hx hshows => ?_
      by_cases hborrow : x = .flag .borrow
      · subst hborrow
        cases hshows with
        | borrow =>
          have hmentions := hcond hquiet d hd ⟨kinds, _, _, _, field, hfield, n, hexposes⟩
          show info.borrowsInfo.containsBorrow = true
          rw [← hborrowAt hinfo, heq, borrowAt_silence]
          exact .inr ⟨by rw [borrowAt_initial hdefs hd]; rfl, d, hd, rfl, hmentions⟩
      · exact hcovers n d.defId info d hinfo (lookupDecls_mem hdefs hd) field hfield kinds ty hexposes x ⟨hx, hborrow⟩
          hshows
    · have hcovers :=
        coversAll_of_rounds (S := fun _ => True) (fun i => ⟨trivial, trivial⟩) hprior hdefs hrounds hstable
      refine soundInfo_iff.mpr fun n field hfield kinds ty hexposes x hx hshows => ?_
      exact hcovers n d.defId info d hinfo (lookupDecls_mem hdefs hd) field hfield kinds ty hexposes x ⟨hx, trivial⟩
        hshows

end

/-! ## Declarations with borrows -/

def noBuiltins : AnalysisConfig := ⟨fun _ => none, false⟩

def boxTy (ty : Ty) : Ty := .tAdt 0 (some .tBox) ⟨[], [ty], []⟩

def adtTy (id : TypeDeclId) (regions : List Region) : Ty := .tAdt id none ⟨regions, [], []⟩

/-- The opaque type `Opaque<'a>`. -/
def opaqueDecl : TypeDecl := ⟨0, ⟨[⟨0, .ltShared⟩], []⟩, .opaqueDecl⟩

/-- The declaration `struct Outer { callback : Box<Callback> }` -/
def outerDecl : TypeDecl := ⟨1, ⟨[], []⟩, .struct [⟨boxTy (adtTy 2 [])⟩]⟩

/-- The declaration `struct Callback { f : for<'a> fn(Opaque<'a>, &'a u32) -> u32, outer : Box<Outer> }` -/
def callbackDecl : TypeDecl :=
  ⟨2, ⟨[], []⟩, .struct
    [⟨.tFnPtr [0] [adtTy 0 [.rVar .bound], .tRef (.rVar .bound) .tScalar .rShared] .tScalar⟩, ⟨boxTy (adtTy 1 [])⟩]⟩

/-- The declaration `struct Shared<'a> { x : &'a u32 }` -/
def sharedDecl : TypeDecl := ⟨3, ⟨[⟨0, .ltShared⟩], []⟩, .struct [⟨.tRef (.rVar (.free 0)) .tScalar .rShared⟩]⟩

def borrowCrate : Crate := .ofDecls [opaqueDecl, outerDecl, callbackDecl, sharedDecl]

/-- The update of `Callback` is silent, and `Outer`, explored before, misses the borrow. -/
theorem analyzeTypeDeclarationGroup_misses_borrow : ∃ infos infos',
    analyzeTypeDeclarationGroup noBuiltins borrowCrate 2 ∅ (.nonRecGroup 0) = .ok infos ∧
    analyzeTypeDeclarationGroup noBuiltins borrowCrate 2 infos (.recGroup [1, 2]) = .ok infos' ∧
    borrowCrate.typeDecls[1]? = some outerDecl ∧
    outerDecl.Exposes borrowCrate [] (.tRef (.rVar .bound) .tScalar .rShared) ∧ borrowAt infos' 1 = false := by
  have hcallback :
    ExposesIn borrowCrate 1 ((callbackDecl.fieldTys.headD .tError).substitute (GenericArgs.subst ⟨[], [], []⟩)) []
      (.tRef (.rVar .bound) .tScalar .rShared) := .piece (mem_cons_of_mem _ mem_cons_self) .here
  have houter : ExposesIn borrowCrate 2 (adtTy 2 []) [] (.tRef (.rVar .bound) .tScalar .rShared) :=
    .unfold (d := callbackDecl) rfl mem_cons_self hcallback
  exact ⟨_, _, rfl, rfl, rfl, ⟨boxTy (adtTy 2 []), mem_cons_self, 3, .piece mem_cons_self houter⟩, rfl⟩

theorem analyzeTypeDeclarationGroup_sound_iff_shared : ∃ infos',
    analyzeTypeDeclarationGroup noBuiltins borrowCrate 3 ∅ (.nonRecGroup 3) = .ok infos' ∧
    ((∀ d ∈ [sharedDecl], ∃ info, infos'[d.defId]? = some info ∧ SoundInfo borrowCrate d info) ↔
      (QuietRound (initializeTypeDecls noBuiltins ∅ [sharedDecl]) [sharedDecl] → ∀ d ∈ [sharedDecl],
        (∃ kinds r ty kind, d.Exposes borrowCrate kinds (.tRef r ty kind)) →
          MentionsRegions (initializeTypeDecls noBuiltins ∅ [sharedDecl]) d)) := by
  obtain ⟨infos', h⟩ : ∃ infos', analyzeTypeDeclarationGroup noBuiltins borrowCrate 3 ∅ (.nonRecGroup 3) = .ok infos' :=
    ⟨_, rfl⟩
  exact ⟨infos', h, analyzeTypeDeclarationGroup_sound_iff (fun id info d hinfo => by simp at hinfo) rfl h⟩

end Aeneas.Llbc
