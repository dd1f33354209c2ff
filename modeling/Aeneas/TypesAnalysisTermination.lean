import Aeneas.Fuel
import Aeneas.TypesAnalysisNested

/-!
# The termination of the analysis of a group

A region which is known is met again: the exploration of the field then falls back
to the regions of its start, and forgets those which it has added. If this never
costs a region, each exploration of the group which reports an update has learned
something, and there are finitely many facts to learn.
-/

namespace Aeneas.Llbc

open List

open Aeneas.Fuel (Finishes finishes_ok finishes_succ)

/-! ## Fields which lose no region -/

def Want.region : Want → Option RegionId
  | .fact (.region rid) => some rid
  | _ => none

def wantedRegions (ws : List Want) : List RegionId := ws.filterMap Want.region

/-- The regions which are known at the start of the field come first; the others are met once. -/
def Lossless (known : RegionId → Bool) (rids : List RegionId) : Prop :=
  ∃ old new, rids = old ++ new ∧ (∀ rid ∈ old, known rid = true) ∧ (∀ rid ∈ new, known rid = false) ∧ new.Nodup

def LosslessFields : (RegionId → Bool) → List (List RegionId) → Prop
  | _, [] => True
  | known, rids :: fields => Lossless known rids ∧ LosslessFields (fun rid => known rid || decide (rid ∈ rids)) fields

def LosslessDecl (infos : TypeInfos) (d : TypeDecl) : Prop :=
  ∀ info, infos[d.defId]? = some info →
    LosslessFields (fun rid => decide (rid ∈ info.mutRegions)) ((declWants infos d).map wantedRegions)

def LosslessRound : TypeInfos → List TypeDecl → Prop
  | _, [] => True
  | infos, d :: defs => LosslessDecl infos d ∧
    ∀ infos' u u', analyzeTypeDecl infos d u = .ok (infos', u') → LosslessRound infos' defs

inductive Reaches (defs : List TypeDecl) : TypeInfos → TypeInfos → Prop where
  | refl {infos : TypeInfos} : Reaches defs infos infos
  | round {infos infos₁ infos₂ : TypeInfos} (h : analyzeTypeDecls infos defs false = .ok (infos₁, true))
    (hrest : Reaches defs infos₁ infos₂) : Reaches defs infos infos₂

def LosslessRun (defs : List TypeDecl) (infos : TypeInfos) : Prop :=
  ∀ infos', Reaches defs infos infos' → LosslessRound infos' defs

section
variable {outer : RegionId → Bool} {s : Known × Bool} {u : Bool} {ws : List Want} {rid : RegionId} {x : Fact}

theorem Want.region_eq_some {w : Want} (h : w.region = some rid) : w = .fact (.region rid) := by
  cases w with
  | silent => cases h
  | fact x =>
    cases x with
    | region rid' =>
      cases h
      rfl
    | _ => cases h

theorem mem_wantedRegions : rid ∈ wantedRegions ws ↔ .fact (.region rid) ∈ ws := by
  unfold wantedRegions
  rw [mem_filterMap]
  refine ⟨fun ⟨w, hw, heq⟩ => ?_, fun h => ⟨_, h, rfl⟩⟩
  rwa [← Want.region_eq_some heq]

theorem run_region_of_none {w : Want} (h : w.region = none) (rid : RegionId) :
    (w.run outer s).1 (.region rid) = s.1 (.region rid) := by
  cases w with
  | silent => simp [Want.run, Known.add]
  | fact x =>
    cases x with
    | region rid' => cases h
    | _ => simp [Want.run, addFact, Known.add]

theorem runWants_new : ∀ (ws : List Want) {s : Known × Bool}, (∀ rid ∈ wantedRegions ws, s.1 (.region rid) = false) →
    (wantedRegions ws).Nodup → ∀ rid, s.1 (.region rid) = true ∨ rid ∈ wantedRegions ws →
    (runWants outer s ws).1 (.region rid) = true
  | [], _, _, _, rid, h => h.resolve_right not_mem_nil
  | w :: ws, s, hnew, hnodup, rid, h => by
    rw [runWants_cons]
    cases hw : w.region with
    | none =>
      have hregions : wantedRegions (w :: ws) = wantedRegions ws := filterMap_cons_none hw
      rw [hregions] at hnew hnodup h
      refine runWants_new ws (fun rid' hrid' => ?_) hnodup rid (h.imp_left fun hrid => ?_)
      · rw [run_region_of_none hw, hnew rid' hrid']
      · rw [run_region_of_none hw, hrid]
    | some rid₀ =>
      have hregions : wantedRegions (w :: ws) = rid₀ :: wantedRegions ws := filterMap_cons_some hw
      rw [hregions] at hnew hnodup h
      obtain rfl := Want.region_eq_some hw
      have hrun : ((Want.fact (.region rid₀)).run outer s).1 = Known.add s.1 (.region rid₀) := by
        simp [Want.run, addFact, hnew rid₀ mem_cons_self]
      obtain ⟨hnot, hnodup⟩ := nodup_cons.mp hnodup
      refine runWants_new ws (fun rid' hrid' => ?_) hnodup rid ?_
      · have hne : rid' ≠ rid₀ := fun heq => hnot (heq ▸ hrid')
        rw [hrun]
        simp [Known.add, hnew rid' (mem_cons_of_mem _ hrid'), hne]
      · rw [hrun]
        rcases h with h | h
        · exact .inl (add_of_known h)
        · rcases mem_cons.mp h with rfl | h
          · exact .inl (add_self _ _)
          · exact .inr h

theorem runWants_lossless : ∀ (ws : List Want) {s : Known × Bool}, (∀ rid, outer rid = s.1 (.region rid)) →
    Lossless outer (wantedRegions ws) → ∀ rid, s.1 (.region rid) = true ∨ rid ∈ wantedRegions ws →
    (runWants outer s ws).1 (.region rid) = true
  | [], _, _, _, rid, h => h.resolve_right not_mem_nil
  | w :: ws, s, houter, hlossless, rid, h => by
    obtain ⟨old, new, hsplit, hold, hnew, hnodup⟩ := hlossless
    cases old with
    | nil =>
      rw [nil_append] at hsplit
      subst hsplit
      exact runWants_new _ (fun rid' hrid' => by rw [← houter, hnew rid' hrid']) hnodup rid h
    | cons rid₀ old =>
      rw [runWants_cons]
      cases hw : w.region with
      | none =>
        have hregions : wantedRegions (w :: ws) = wantedRegions ws := filterMap_cons_none hw
        rw [hregions] at hsplit h
        refine runWants_lossless ws (fun rid' => ?_) ⟨_, _, hsplit, hold, hnew, hnodup⟩ rid (h.imp_left fun hrid => ?_)
        · rw [run_region_of_none hw, houter]
        · rw [run_region_of_none hw, hrid]
      | some rid₁ =>
        have hregions : wantedRegions (w :: ws) = rid₁ :: wantedRegions ws := filterMap_cons_some hw
        obtain rfl := Want.region_eq_some hw
        rw [hregions, cons_append] at hsplit
        rw [hregions] at h
        obtain ⟨rfl, hrest⟩ := cons.inj hsplit
        have hknown : s.1 (.region rid₁) = true := by rw [← houter, hold rid₁ mem_cons_self]
        have hrun : (Want.fact (.region rid₁)).run outer s = s := addFact_of_known houter hknown
        rw [hrun]
        refine runWants_lossless ws houter
          ⟨old, new, hrest, fun rid' hrid' => hold rid' (mem_cons_of_mem _ hrid'), hnew, hnodup⟩ rid ?_
        rcases h with h | h
        · exact .inl h
        · rcases mem_cons.mp h with rfl | h
          · exact .inl hknown
          · exact .inr h

theorem runField_lossless (h : Lossless (fun rid => s.1 (.region rid)) (wantedRegions ws))
    (hx : s.1 x = true ∨ .fact x ∈ ws) : (runField s ws).1 x = true := by
  cases x with
  | region rid => exact runWants_lossless ws (fun _ => rfl) h rid (hx.imp_right mem_wantedRegions.mpr)
  | _ => exact hx.elim (runWants_mono (by simp) ws) (runWants_wanted (by simp) ws)

theorem runField_regions (h : Lossless (fun rid => s.1 (.region rid)) (wantedRegions ws)) (rid : RegionId) :
    (runField s ws).1 (.region rid) = (s.1 (.region rid) || decide (rid ∈ wantedRegions ws)) := by
  rw [Bool.eq_iff_iff, Bool.or_eq_true, decide_eq_true_eq]
  refine ⟨fun hrid => ?_, fun hrid => runWants_lossless ws (fun _ => rfl) h rid hrid⟩
  rcases runWants_only ws (fun _ hrid => hrid) hrid with hs | hws | ⟨heq, -⟩
  · exact .inl hs
  · exact .inr (mem_wantedRegions.mpr hws)
  · cases heq

theorem runFields_lossless : ∀ (wss : List (List Want)) {s : Known × Bool},
    LosslessFields (fun rid => s.1 (.region rid)) (wss.map wantedRegions) →
    s.1 x = true ∨ .fact x ∈ wss.flatten → (runFields s wss).1 x = true
  | [], _, _, h => h.resolve_right not_mem_nil
  | ws :: wss, s, hlossless, h => by
    show (runFields (runField s ws) wss).1 x = true
    refine runFields_lossless wss ?_ ?_
    · rw [funext (runField_regions hlossless.1)]
      exact hlossless.2
    · rw [flatten_cons, mem_append, ← or_assoc] at h
      exact h.imp_left (runField_lossless hlossless.1)

end

/-! ## What an exploration learns -/

def Learns (infos infos' : TypeInfos) : Prop :=
  ∀ id : TypeDeclId, Option.Rel (fun a a' => a.paramInfos.length = a'.paramInfos.length ∧
    ∀ x, declKnown a x = true → declKnown a' x = true) infos[id]? infos'[id]?

section
variable {infos infos' infos'' : TypeInfos} {d : TypeDecl} {defs : List TypeDecl} {u u' : Bool} {x : Fact}

theorem Learns.refl (infos : TypeInfos) : Learns infos infos := by
  intro id
  cases infos[id]? with
  | none => exact .none
  | some a => exact .some ⟨rfl, fun _ hx => hx⟩

theorem Learns.trans (h : Learns infos infos') (h' : Learns infos' infos'') : Learns infos infos'' := by
  intro id
  have h₁ := h id
  have h₂ := h' id
  generalize infos[id]? = o₁ at h₁
  generalize infos'[id]? = o₂ at h₁ h₂
  generalize infos''[id]? = o₃ at h₂
  cases h₁ with
  | none =>
    cases h₂
    exact .none
  | some hrel =>
    cases h₂ with
    | some hrel' => exact .some ⟨hrel.1.trans hrel'.1, fun x hx => hrel'.2 x (hrel.2 x hx)⟩

theorem Learns.info (h : Learns infos infos') {id : TypeDeclId} {info : TypeDeclInfo} (hinfo : infos[id]? = some info) :
    ∃ info', infos'[id]? = some info' ∧ info.paramInfos.length = info'.paramInfos.length ∧
      ∀ x, declKnown info x = true → declKnown info' x = true := by
  have hrel := h id
  rw [hinfo] at hrel
  generalize infos'[id]? = o at hrel
  cases hrel with
  | some hrel => exact ⟨_, rfl, hrel⟩

theorem not_quiet : ∀ {ws : List Want} {s : Known}, ¬ Quiet s ws → ∃ x, .fact x ∈ ws ∧ s x = false
  | [], _, h => absurd trivial h
  | .fact x :: ws, s, h => by
    cases hx : s x with
    | false => exact ⟨x, mem_cons_self, hx⟩
    | true =>
      obtain ⟨y, hy, hs⟩ := not_quiet fun hquiet => h ⟨hx, hquiet⟩
      exact ⟨y, mem_cons_of_mem _ hy, hs⟩
  | .silent :: ws, s, h => by
    have hnot : ¬ Quiet (s.add (.flag .borrow)) ws := h
    obtain ⟨y, hy, hs⟩ := not_quiet hnot
    refine ⟨y, mem_cons_of_mem _ hy, ?_⟩
    cases hknown : s y with
    | false => rfl
    | true => rw [add_of_known hknown] at hs; cases hs

def LearnsFact (infos infos' : TypeInfos) (d : TypeDecl) : Prop :=
  ∃ x info info', infos[d.defId]? = some info ∧ infos'[d.defId]? = some info' ∧ .fact x ∈ (declWants infos d).flatten ∧
    declKnown info x = false ∧ declKnown info' x = true

theorem analyzeTypeDecl_learns (hlossless : LosslessDecl infos d) (h : analyzeTypeDecl infos d u = .ok (infos', u')) :
    Learns infos infos' ∧ (u = false → u' = true → LearnsFact infos infos' d) := by
  rcases analyzeTypeDecl_ok h with ⟨-, rfl, rfl⟩ | ⟨-, info, info', hinfo, rfl, hstep⟩
  · exact ⟨.refl _, fun hu hu' => by rw [hu] at hu'; cases hu'⟩
  · have hknown : declKnown info' = (runFields (declKnown info, u) (declWants infos d)).1 :=
      congrArg Prod.fst hstep.known
    have hupdated : u' = (runFields (declKnown info, u) (declWants infos d)).2 := congrArg Prod.snd hstep.known
    have hfields : ∀ x, declKnown info x = true ∨ .fact x ∈ (declWants infos d).flatten → declKnown info' x = true := by
      intro x hx
      rw [hknown]
      exact runFields_lossless _ (hlossless info hinfo) hx
    refine ⟨fun id => ?_, fun hu hu' => ?_⟩
    · rw [getElem?_insert_eq]
      by_cases hid : d.defId = id
      · rw [if_pos hid, ← hid, hinfo]
        exact .some ⟨hstep.params.symm, fun x hx => hfields x (.inl hx)⟩
      · rw [if_neg hid]
        exact Learns.refl infos id
    · have hnot : ¬ Quiet (declKnown info) (declWants infos d).flatten := by
        intro hquiet
        rw [quiet_runFields _ hquiet, hu'] at hupdated
        rw [hu] at hupdated
        cases hupdated
      obtain ⟨x, hx, hnew⟩ := not_quiet hnot
      exact ⟨x, info, info', hinfo, by rw [getElem?_insert_eq, if_pos rfl], hx, hnew, hfields x (.inr hx)⟩

theorem analyzeTypeDecls_learns : ∀ {defs : List TypeDecl} {infos infos' : TypeInfos} {u u' : Bool},
    LosslessRound infos defs → analyzeTypeDecls infos defs u = .ok (infos', u') →
    Learns infos infos' ∧ (u = false → u' = true → ∃ d ∈ defs, ∃ infos₁ infos₂,
      Learns infos infos₁ ∧ Learns infos₁ infos₂ ∧ LearnsFact infos₁ infos₂ d ∧ Learns infos₂ infos')
  | [], _, _, _, _, _, h => by
    cases h
    exact ⟨.refl _, fun hu hu' => by rw [hu] at hu'; cases hu'⟩
  | d :: defs, infos, infos', u, u', hlossless, h => by
    obtain ⟨infos₁, u₁, h₁, h₂⟩ := run_bind_eq_ok h
    obtain ⟨hlearns, hfact⟩ := analyzeTypeDecl_learns hlossless.1 h₁
    obtain ⟨hlearns', hfact'⟩ := analyzeTypeDecls_learns (hlossless.2 infos₁ u u₁ h₁) h₂
    refine ⟨hlearns.trans hlearns', fun hu hu' => ?_⟩
    cases u₁ with
    | true => exact ⟨d, mem_cons_self, infos, infos₁, .refl _, hlearns, hfact hu rfl, hlearns'⟩
    | false =>
      obtain ⟨d', hd', infos₂, infos₃, hbefore, hstep, hfact, hafter⟩ := hfact' rfl hu'
      exact ⟨d', mem_cons_of_mem d hd', infos₂, infos₃, hlearns.trans hbefore, hstep, hfact, hafter⟩

end

/-! ## The regions which a field can meet -/

section
variable {infos : TypeInfos} {e e' : ExplInfo} {ty ty' : Ty} {rid : RegionId} {r : Region}

theorem mem_regionsTys {tys : List Ty} : r ∈ regionsTys tys ↔ ∃ ty ∈ tys, r ∈ ty.regions := by
  induction tys with
  | nil => simp [regionsTys]
  | cons ty tys ih => rw [regionsTys, mem_append, ih, exists_mem_cons_iff]

theorem Ty.regions_part {part : Ty} (hpart : part ∈ ty.parts) (hr : r ∈ part.regions) : r ∈ ty.regions := by
  cases ty with
  | tAdt id builtin g =>
    obtain ⟨regions, types, refs⟩ := g
    exact mem_append_right _ (mem_append_left _ (mem_regionsTys.mpr ⟨part, hpart, hr⟩))
  | tRef r₀ inner kind =>
    obtain rfl := mem_singleton.mp hpart
    exact mem_cons_of_mem _ hr
  | tRawPtr inner | tArray inner | tSlice inner =>
    obtain rfl := mem_singleton.mp hpart
    exact hr
  | tFnPtr binder inputs output =>
    rcases mem_append.mp hpart with hin | hout
    · exact mem_append_left _ (mem_regionsTys.mpr ⟨part, hin, hr⟩)
    · obtain rfl := mem_singleton.mp hout
      exact mem_append_right _ hr
  | _ => cases hpart

theorem Visits.regions (h : Visits infos e ty e' ty') (hr : r ∈ ty'.regions) : r ∈ ty.regions := by
  induction h with
  | here => exact hr
  | ref _ ih => exact mem_cons_of_mem _ (ih hr)
  | piece hpiece _ ih => exact Ty.regions_part (Ty.pieces_subset_parts hpiece) (ih hr)
  | @arg e e' id g info i p ty ty' _ _ hty _ ih =>
    have hpart : ty ∈ (Ty.tAdt id none g).parts := mem_of_getElem? hty
    exact Ty.regions_part hpart (ih hr)

theorem mem_regionWants : .fact (.region rid) ∈ r.wants ↔ r = .rVar (.free rid) := by
  rcases r with _ | (_ | rid') | _ | _ <;> simp [Region.wants, Region.freeId, eq_comm]

theorem Asks.of_region (h : Asks infos e (.fact (.region rid)) ty) :
    (∃ inner, ty = .tRef (.rVar (.free rid)) inner .rMut) ∨
    ∃ id g info i, ty = .tAdt id none g ∧ infos[id]? = some info ∧ i ∈ info.mutRegions ∧
      g.regions[i]? = some (.rVar (.free rid)) := by
  have hborrows : ∀ {b : TypeBorrowsInfo}, .fact (.region rid) ∉ b.wants := by
    intro b hw
    obtain ⟨f, -, heq⟩ := mem_borrowsWants.mp hw
    cases heq
  cases h with
  | var h =>
    unfold SubtypeInfo.wants at h
    rcases mem_append.mp h with h | h
    · split at h
      · cases mem_singleton.mp h
      · cases h
    · split at h
      · cases mem_singleton.mp h
      · cases h
  | @ref r inner kind h =>
    rcases mem_append.mp h with h | h
    · exact absurd h hborrows
    · cases kind with
      | rShared => cases h
      | rMut =>
        obtain rfl := mem_regionWants.mp h
        exact .inl ⟨inner, rfl⟩
  | adt _ h =>
    rcases mem_append.mp h with h | h
    · exact absurd h hborrows
    · rcases mem_append.mp h with h | h
      · split at h
        · cases mem_singleton.mp h
        · cases h
      · split at h
        · cases mem_singleton.mp h
        · cases h
  | param _ _ _ h => exact absurd h hborrows
  | @region id g info hinfo h =>
    obtain ⟨i, r, hr, hmut, hwant⟩ := mem_regionsWants.mp h
    obtain rfl := mem_regionWants.mp hwant
    exact .inr ⟨id, g, info, i, rfl, hinfo, by rwa [Nat.zero_add] at hmut, hr⟩

theorem region_of_mem_wants (h : .fact (.region rid) ∈ wants infos e ty) : .rVar (.free rid) ∈ ty.regions := by
  obtain ⟨e', ty', hvisit, hask⟩ := visits_of_mem_wants h
  refine hvisit.regions ?_
  rcases hask.of_region with ⟨inner, rfl⟩ | ⟨id, g, info, i, rfl, -, -, hr⟩
  · exact mem_cons_self
  · obtain ⟨regions, types, refs⟩ := g
    exact mem_append_left _ (mem_of_getElem? hr)

end

/-! ## The facts which are left to learn -/

def TypeDecl.facts (d : TypeDecl) (params : Nat) : List Fact :=
  allFlags.map .flag ++ ((range params).map .under ++ ((range params).map .underMut ++
    (d.fieldTys.flatMap Ty.regions).filterMap fun r => r.freeId.map .region))

def missing (infos : TypeInfos) (d : TypeDecl) : Nat :=
  (infos[d.defId]?).elim 0 fun info => (d.facts info.paramInfos.length).countP fun x => !declKnown info x

def missingIn (infos : TypeInfos) : List TypeDecl → Nat
  | [] => 0
  | d :: defs => missing infos d + missingIn infos defs

section
variable {infos infos' infos₁ infos₂ : TypeInfos} {d : TypeDecl} {defs : List TypeDecl}

theorem mem_facts {info info' : TypeDeclInfo} {x : Fact} (hlen : info.paramInfos.length = info'.paramInfos.length)
    (hwant : .fact x ∈ (declWants infos d).flatten) (hknown : declKnown info' x = true) :
    x ∈ d.facts info.paramInfos.length := by
  unfold TypeDecl.facts
  cases x with
  | flag f => exact mem_append_left _ (mem_map_of_mem (mem_allFlags f))
  | under i =>
    obtain ⟨p, hp, -⟩ := declKnown_under.mp hknown
    refine mem_append_right _ (mem_append_left _ (mem_map_of_mem (mem_range.mpr ?_)))
    rw [hlen]
    exact (List.getElem?_eq_some_iff.mp hp).1
  | underMut i =>
    obtain ⟨p, hp, -⟩ := declKnown_underMut.mp hknown
    refine mem_append_right _ (mem_append_right _ (mem_append_left _
      (mem_map_of_mem (mem_range.mpr ?_))))
    rw [hlen]
    exact (List.getElem?_eq_some_iff.mp hp).1
  | region rid =>
    refine mem_append_right _ (mem_append_right _ (mem_append_right _ (mem_filterMap.mpr
      ⟨.rVar (.free rid), ?_, rfl⟩)))
    obtain ⟨ws, hws, hwant⟩ := mem_flatten.mp hwant
    obtain ⟨field, hfield, rfl⟩ := mem_map.mp hws
    exact mem_flatMap.mpr ⟨field, hfield, region_of_mem_wants hwant⟩

theorem Learns.missing_le (h : Learns infos infos') (d : TypeDecl) : missing infos' d ≤ missing infos d := by
  unfold missing
  cases hinfo : infos[d.defId]? with
  | none =>
    have hrel := h d.defId
    rw [hinfo] at hrel
    generalize infos'[d.defId]? = o at hrel
    cases hrel
    exact le_rfl
  | some info =>
    obtain ⟨info', hinfo', hlen, hknown⟩ := h.info hinfo
    rw [hinfo', Option.elim_some, Option.elim_some, ← hlen]
    refine countP_mono_left fun x _ hx => ?_
    cases hx' : declKnown info x with
    | false => rfl
    | true => rw [hknown x hx'] at hx; cases hx

theorem countP_lt {α : Type} {p q : α → Bool} : ∀ {l : List α}, (∀ a ∈ l, p a = true → q a = true) →
    ∀ {a}, a ∈ l → p a = false → q a = true → l.countP p < l.countP q
  | b :: l, h, a, ha, hp, hq => by
    have hle : l.countP p ≤ l.countP q := countP_mono_left fun c hc => h c (mem_cons_of_mem b hc)
    rw [countP_cons, countP_cons]
    rcases mem_cons.mp ha with rfl | ha
    · simp only [hp, hq]
      simpa using Nat.lt_succ_of_le hle
    · have hlt := countP_lt (fun c hc => h c (mem_cons_of_mem b hc)) ha hp hq
      have hhead := h b mem_cons_self
      cases hpb : p b with
      | false => simp; omega
      | true => simp [hhead hpb]; omega

theorem LearnsFact.missing_lt (h : LearnsFact infos infos' d) (hlearns : Learns infos infos') :
    missing infos' d < missing infos d := by
  obtain ⟨x, info, info', hinfo, hinfo', hwant, hnew, hknown⟩ := h
  obtain ⟨info₁, hinfo₁, hlen, hmono⟩ := hlearns.info hinfo
  obtain rfl : info₁ = info' := Option.some.inj (hinfo₁.symm.trans hinfo')
  unfold missing
  rw [hinfo, hinfo', Option.elim_some, Option.elim_some, ← hlen]
  refine countP_lt (fun y _ hy => ?_) (mem_facts hlen hwant hknown) (by rw [hknown]; rfl) (by rw [hnew]; rfl)
  cases hy' : declKnown info y with
  | false => rfl
  | true => rw [hmono y hy'] at hy; cases hy

theorem missingIn_le (h : Learns infos infos') : ∀ defs : List TypeDecl, missingIn infos' defs ≤ missingIn infos defs
  | [] => le_rfl
  | d :: defs => Nat.add_le_add (h.missing_le d) (missingIn_le h defs)

theorem missingIn_lt (h : Learns infos infos') :
    ∀ {defs : List TypeDecl}, d ∈ defs → missing infos' d < missing infos d →
    missingIn infos' defs < missingIn infos defs
  | d' :: defs, hd, hlt => by
    rcases mem_cons.mp hd with rfl | hd
    · exact Nat.add_lt_add_of_lt_of_le hlt (missingIn_le h defs)
    · exact Nat.add_lt_add_of_le_of_lt (h.missing_le d') (missingIn_lt h hd hlt)

theorem missingIn_round (hlossless : LosslessRound infos defs)
    (h : analyzeTypeDecls infos defs false = .ok (infos', true)) :
    missingIn infos' defs < missingIn infos defs := by
  obtain ⟨hlearns, hfact⟩ := analyzeTypeDecls_learns hlossless h
  obtain ⟨d, hd, infos₁, infos₂, hbefore, hstep, hfact, hafter⟩ := hfact rfl rfl
  have hlt : missing infos' d < missing infos d :=
    calc missing infos' d ≤ missing infos₂ d := hafter.missing_le d
      _ < missing infos₁ d := hfact.missing_lt hstep
      _ ≤ missing infos d := hbefore.missing_le d
  exact missingIn_lt hlearns hd hlt

end

/-! ## Explorations which raise no error -/

def Succeeds {ε α : Type} (x : Except ε α) : Prop := ∃ a, x = .ok a

def SameParams (i i' : PartialTypeInfo) : Prop := i.paramInfos.map length = i'.paramInfos.map length

section
variable {infos infos' : TypeInfos} {t₀ t₀' i i' j : PartialTypeInfo} {e e' : ExplInfo} {u u' : Bool} {α β : Type}

theorem Succeeds.bind {m : UpdateM α} {f : α → UpdateM β} {p : α × Bool} (hm : m u = .ok p)
    (hf : Succeeds (f p.1 p.2)) :
    Succeeds ((m >>= f) u) := by
  obtain ⟨b, hb⟩ := hf
  exact ⟨b, by rw [run_bind hm, hb]⟩

variable {m : IdSet RegionId}

theorem updateMutRegionsWithRid_succeeds {rid : RegionId} :
    Succeeds (updateMutRegionsWithRid t₀ m rid u) := by
  unfold updateMutRegionsWithRid
  by_cases hrid : rid ∈ m
  · rw [if_pos hrid]
    exact ⟨_, rfl⟩
  · rw [if_neg hrid]
    exact ⟨_, rfl⟩

theorem updatedRegions_succeeds {m' : IdSet RegionId} : ∀ {r : Option Region}, Succeeds (updatedRegions t₀ m r u) →
    Succeeds (updatedRegions t₀' m' r u')
  | none, _ | some .rStatic, _ | some (.rVar .bound), _ => ⟨_, rfl⟩
  | some .rErased, h | some (.rBody _), h => by
    obtain ⟨_, h⟩ := h
    cases h
  | some (.rVar (.free rid)), _ => updateMutRegionsWithRid_succeeds

variable {b : TypeBorrowsInfo}

theorem updateTyInfo_succeeds {r : Option Region} {b' : TypeBorrowsInfo} (h : Succeeds (updateTyInfo t₀ i r b u)) :
    Succeeds (updateTyInfo t₀' i' r b' u') := by
  obtain ⟨⟨i₁, u₁⟩, h⟩ := h
  obtain ⟨m, hm, -⟩ := updateTyInfo_ok h
  unfold updateTyInfo
  simp only [run_bind (checkUpdateBool_eq _ _ _)]
  cases r with
  | none => exact ⟨_, rfl⟩
  | some r =>
    obtain ⟨p, hp⟩ := updatedRegions_succeeds ⟨_, hm⟩
    exact .bind hp ⟨_, rfl⟩

theorem updateTyInfo_none_succeeds : Succeeds (updateTyInfo t₀ i none b u) := by
  unfold updateTyInfo
  simp only [run_bind (checkUpdateBool_eq _ _ _)]
  exact ⟨_, rfl⟩

variable {a : TypeDeclInfo} {regions : List Region}

theorem analyzeAdt_succeeds : Succeeds (analyzeAdt t₀ a i regions u) := by
  obtain ⟨p, hp⟩ : Succeeds (updateTyInfo t₀ i none a.borrowsInfo u) := updateTyInfo_none_succeeds
  refine .bind hp ?_
  rw [run_bind (checkUpdateBool_eq _ _ _)]
  exact ⟨_, rfl⟩

theorem analyzeRegions_succeeds {a' : TypeDeclInfo} {k : RegionId} {m' : IdSet RegionId}
    (h : Succeeds (analyzeRegions t₀ a k m regions u)) : Succeeds (analyzeRegions t₀' a' k m' regions u') := by
  induction regions generalizing k m m' u u' with
  | nil => exact ⟨_, rfl⟩
  | cons r regions ih =>
    cases r with
    | rStatic | rErased => exact ih h
    | rBody rid =>
      obtain ⟨_, h⟩ := h
      cases h
    | rVar v =>
      cases v with
      | bound => exact ih h
      | free rid =>
        have hrest : ∃ m₁ u₁, Succeeds (analyzeRegions t₀ a (k + 1) m₁ regions u₁) := by
          obtain ⟨⟨m₁, u₁⟩, h⟩ := h
          unfold analyzeRegions at h
          by_cases hk : k ∈ a.mutRegions
          · simp only [if_pos hk] at h
            obtain ⟨m₂, u₂, -, hrest⟩ := run_bind_eq_ok h
            exact ⟨m₂, u₂, _, hrest⟩
          · simp only [if_neg hk] at h
            exact ⟨m, u, _, h⟩
        obtain ⟨m₁, u₁, hrest⟩ := hrest
        unfold analyzeRegions
        by_cases hk : k ∈ a'.mutRegions
        · simp only [if_pos hk]
          obtain ⟨p, hp⟩ : Succeeds (updateMutRegionsWithRid t₀' m' rid u') := updateMutRegionsWithRid_succeeds
          exact .bind hp (ih hrest)
        · simp only [if_neg hk]
          exact ih hrest

theorem analyzeVar_succeeds {v : DeBruijnVar} (h : Succeeds (analyzeVar e i v u)) (hparams : SameParams i i') :
    Succeeds (analyzeVar e' i' v u') := by
  obtain ⟨b, params, hasRegions, m⟩ := i
  obtain ⟨b', params', hasRegions', m'⟩ := i'
  cases params' with
  | none => exact ⟨_, rfl⟩
  | some ps' =>
    cases params with
    | none => cases hparams
    | some ps =>
      have hlen : ps.length = ps'.length := Option.some.inj hparams
      obtain ⟨⟨i₁, u₁⟩, h⟩ := h
      obtain ⟨id, u₂, hid, h₁⟩ := run_bind_eq_ok h
      obtain ⟨hfree, rfl⟩ := run_liftM hid
      obtain ⟨p, u₃, hp, -⟩ := run_bind_eq_ok h₁
      obtain ⟨hnth, -⟩ := run_liftM hp
      have hlt : id < ps.length := by
        by_contra hge
        simp [nth, getElem?_eq_none (Nat.le_of_not_lt hge)] at hnth
      have hid' : (liftM (expectFreeVar v) : UpdateM TypeVarId) u' = .ok (id, u') := by
        rw [hfree]
        rfl
      have hp' : (liftM (nth ps' id) : UpdateM TypeParamInfo) u' = .ok (ps'.get ⟨id, hlen ▸ hlt⟩, u') := by
        simp only [nth, getElem?_eq_getElem (hlen ▸ hlt)]
        rfl
      refine .bind hid' (.bind hp' ?_)
      rw [run_bind (checkUpdateBool_eq _ _ _), run_bind (checkUpdateBool_eq _ _ _)]
      exact ⟨_, rfl⟩

def startRegions (t₀ : PartialTypeInfo) (rid : RegionId) : Bool := decide (rid ∈ t₀.mutRegions)

theorem startRegions_eq (t₀ : PartialTypeInfo) (rid : RegionId) :
    startRegions t₀ rid = decide (rid ∈ t₀.mutRegions) := rfl

theorem updateTyInfo_params {r : Option Region} (h : updateTyInfo t₀ i r b u = .ok (j, u')) :
    SameParams j i := (steps_updateTyInfo (startRegions_eq t₀) h).params

theorem analyzeAdt_params (h : analyzeAdt t₀ a i regions u = .ok (j, u')) :
    SameParams j i := (steps_analyzeAdt (startRegions_eq t₀) h).params

theorem analyze_params {ty : Ty} (h : analyze infos t₀ e i ty u = .ok (j, u')) : SameParams j i :=
  (steps_analyze (startRegions_eq t₀) ty h).params

theorem analyzeTys_params {tys : List Ty} (h : analyzeTys infos t₀ e i tys u = .ok (j, u')) : SameParams j i :=
  (steps_analyzeTys (startRegions_eq t₀) tys h).params

mutual

theorem analyze_succeeds (hshape : SameShape infos infos') :
    ∀ (ty : Ty) {e e' : ExplInfo} {i i' : PartialTypeInfo} {u u' : Bool},
    Succeeds (analyze infos t₀ e i ty u) → SameParams i i' → Succeeds (analyze infos' t₀' e' i' ty u')
  | .tScalar, _, _, _, _, _, _, _, _ | .tNever, _, _, _, _, _, _, _, _ | .tDynTrait, _, _, _, _, _, _, _, _ => ⟨_, rfl⟩
  | .tTraitType ⟨kind, _, _⟩, _, _, _, _, u, u', h, _ => by
    obtain ⟨⟨j, u₁⟩, h⟩ := h
    rw [analyze] at h
    obtain ⟨b, u₂, hb, -⟩ := run_bind_eq_ok h
    obtain ⟨hred, -⟩ := run_liftM hb
    have hb' : (liftM kind.reducible : UpdateM Bool) u' = .ok (b, u') := by
      rw [hred]
      rfl
    rw [analyze]
    exact .bind hb' ⟨_, rfl⟩
  | .tVar v, _, _, _, _, _, _, h, hparams => analyzeVar_succeeds h hparams
  | .tRef r ty kind, e, e', i, i', u, u', h, hparams => by
    obtain ⟨⟨j, u₁⟩, h⟩ := h
    rw [analyze] at h
    obtain ⟨i₁, u₂, hr, hty⟩ := run_bind_eq_ok h
    have hsame : SameParams i₁ i := updateTyInfo_params hr
    obtain ⟨⟨i₂, u₃⟩, hr'⟩ : Succeeds (analyzeRef t₀' e' i' r kind u') := updateTyInfo_succeeds ⟨_, hr⟩
    have hsame' : SameParams i₂ i' := updateTyInfo_params hr'
    rw [analyze]
    exact .bind hr' (analyze_succeeds hshape ty ⟨_, hty⟩ (hsame.trans (hparams.trans hsame'.symm)))
  | .tRawPtr ty, _, _, _, _, _, _, h, hparams | .tArray ty, _, _, _, _, _, _, h, hparams
  | .tSlice ty, _, _, _, _, _, _, h, hparams => by
    rw [analyze] at h ⊢
    exact analyze_succeeds hshape ty h hparams
  | .tAdt _ (some _) ⟨_, types, _⟩, _, _, _, _, _, _, h, hparams => by
    rw [analyze] at h ⊢
    exact analyzeTys_succeeds hshape types h hparams
  | .tAdt id none ⟨regions, types, refs⟩, e, e', i, i', u, u', h, hparams => by
    obtain ⟨⟨j, u₁⟩, h⟩ := h
    rw [analyze] at h
    obtain ⟨a, u₂, ha, h₁⟩ := run_bind_eq_ok h
    obtain ⟨hfind, rfl⟩ := run_liftM ha
    obtain ⟨i₁, u₃, hadt, h₂⟩ := run_bind_eq_ok h₁
    have hrel := hshape id
    rw [find_eq_ok.mp hfind] at hrel
    generalize hinfo' : infos'[id]? = o at hrel
    cases hrel with
    | @some _ a' hrel =>
      have ha' : (liftM (find infos' id) : UpdateM TypeDeclInfo) u' = .ok (a', u') := by
        rw [find_eq_ok.mpr hinfo']
        rfl
      have hsame : SameParams i₁ i := analyzeAdt_params hadt
      obtain ⟨⟨i₂, u₄⟩, hadt'⟩ : Succeeds (analyzeAdt t₀' a' i' regions u') := analyzeAdt_succeeds
      have hsame' : SameParams i₂ i' := analyzeAdt_params hadt'
      rw [analyze]
      refine .bind ha' (.bind hadt' ?_)
      by_cases hlen : a.paramInfos.length = types.length
      · rw [if_pos hlen] at h₂
        obtain ⟨i₃, u₅, hargs, h₃⟩ := run_bind_eq_ok h₂
        obtain ⟨m, u₆, hregions, -⟩ := run_bind_eq_ok h₃
        rw [if_pos (hrel.1.symm.trans hlen)]
        obtain ⟨p, hargs'⟩ :=
          analyzeParams_succeeds hshape types hrel.1 ⟨_, hargs⟩ (hsame.trans (hparams.trans hsame'.symm))
        obtain ⟨q, hregions'⟩ := analyzeRegions_succeeds ⟨_, hregions⟩
        exact .bind hargs' (.bind hregions' ⟨_, rfl⟩)
      · rw [if_neg hlen] at h₂
        cases h₂
  | .tFnPtr binder inputs output, e, e', i, i', u, u', h, hparams => by
    obtain ⟨⟨j, u₁⟩, h⟩ := h
    rw [analyze] at h
    obtain ⟨i₁, u₂, hin, hout⟩ := run_bind_eq_ok h
    have hsame : SameParams i₁ i := analyzeTys_params hin
    obtain ⟨⟨i₂, u₃⟩, hin'⟩ : Succeeds (analyzeTys infos' t₀' e' i' inputs u') :=
      analyzeTys_succeeds hshape inputs ⟨_, hin⟩ hparams
    have hsame' : SameParams i₂ i' := analyzeTys_params hin'
    rw [analyze]
    exact .bind hin' (analyze_succeeds hshape output ⟨_, hout⟩ (hsame.trans (hparams.trans hsame'.symm)))
  | .tFnDef binder g, _, _, i, i', u, u', h, _ => by
    obtain ⟨⟨j, u₁⟩, h⟩ := h
    rw [analyze] at h
    obtain ⟨⟨⟩, u₂, h₁, h₂⟩ := run_bind_eq_ok h
    obtain ⟨⟨⟩, u₃, h₃, -⟩ := run_bind_eq_ok h₂
    obtain ⟨hbinder, -⟩ := run_liftM h₁
    obtain ⟨hregions, -⟩ := run_liftM h₃
    have h₁' : (liftM (cassert binder.isEmpty "Unimplemented") : UpdateM Unit) u' = .ok ((), u') := by
      rw [hbinder]
      rfl
    have h₃' : (liftM (cassert (!g.hasRegions) "Unimplemented") : UpdateM Unit) u' = .ok ((), u') := by
      rw [hregions]
      rfl
    rw [analyze]
    exact .bind h₁' (.bind h₃' ⟨_, rfl⟩)
  | .tError, _, _, _, _, _, _, h, _ | .unsupported, _, _, _, _, _, _, h, _ => by
    obtain ⟨_, h⟩ := h
    cases h

theorem analyzeTys_succeeds (hshape : SameShape infos infos') :
    ∀ (tys : List Ty) {e e' : ExplInfo} {i i' : PartialTypeInfo} {u u' : Bool},
    Succeeds (analyzeTys infos t₀ e i tys u) → SameParams i i' → Succeeds (analyzeTys infos' t₀' e' i' tys u')
  | [], _, _, _, _, _, _, _, _ => ⟨_, rfl⟩
  | ty :: tys, _, _, _, _, _, _, h, hparams => by
    obtain ⟨⟨j, u₁⟩, h⟩ := h
    obtain ⟨i₁, u₂, h₁, h₂⟩ := run_bind_eq_ok h
    obtain ⟨⟨i₂, u₃⟩, h₁'⟩ := analyze_succeeds hshape ty ⟨_, h₁⟩ hparams
    exact .bind h₁' (analyzeTys_succeeds hshape tys ⟨_, h₂⟩
      ((analyze_params h₁).trans (hparams.trans (analyze_params h₁').symm)))

theorem analyzeParams_succeeds (hshape : SameShape infos infos') :
    ∀ (tys : List Ty) {ps ps' : List TypeParamInfo} {e e' : ExplInfo} {i i' : PartialTypeInfo}
    {u u' : Bool}, ps.length = ps'.length → Succeeds (analyzeParams infos t₀ e i ps tys u) → SameParams i i' →
    Succeeds (analyzeParams infos' t₀' e' i' ps' tys u')
  | [], _, _, _, _, _, _, _, _, _, _, _ => ⟨_, rfl⟩
  | ty :: tys, ps, ps', e, e', i, i', u, u', hlen, h, hparams => by
    cases ps' with
    | nil => exact ⟨_, rfl⟩
    | cons p' ps' =>
      cases ps with
      | nil => cases hlen
      | cons p ps =>
        obtain ⟨⟨j, u₁⟩, h⟩ := h
        obtain ⟨i₁, u₂, h₁, h₂⟩ := run_bind_eq_ok h
        obtain ⟨i₂, u₃, h₃, h₄⟩ := run_bind_eq_ok h₂
        have hsame : SameParams i₁ i := updateTyInfo_params h₁
        obtain ⟨⟨i₃, u₄⟩, h₁'⟩ : Succeeds (updateTyInfo t₀' i' none (paramBorrowsInfo e' p') u') :=
          updateTyInfo_none_succeeds
        have hsame' : SameParams i₃ i' := updateTyInfo_params h₁'
        have hparams' : SameParams i₁ i₃ := hsame.trans (hparams.trans hsame'.symm)
        obtain ⟨⟨i₄, u₅⟩, h₃'⟩ := analyze_succeeds hshape ty ⟨_, h₃⟩ hparams'
        exact .bind h₁' (.bind h₃' (analyzeParams_succeeds hshape tys (Nat.succ.inj hlen) ⟨_, h₄⟩
          ((analyze_params h₃).trans (hparams'.trans (analyze_params h₃').symm))))

end

theorem SameShape.trans {infos'' : TypeInfos} (h : SameShape infos infos') (h' : SameShape infos' infos'') :
    SameShape infos infos'' := by
  intro id
  have h₁ := h id
  have h₂ := h' id
  generalize infos[id]? = o₁ at h₁
  generalize infos'[id]? = o₂ at h₁ h₂
  generalize infos''[id]? = o₃ at h₂
  cases h₁ with
  | none =>
    cases h₂
    exact .none
  | some hrel =>
    cases h₂ with
    | some hrel' => exact .some ⟨hrel.1.trans hrel'.1, hrel.2.trans hrel'.2⟩

theorem SameShape.symm (h : SameShape infos infos') : SameShape infos' infos := by
  intro id
  have hrel := h id
  generalize infos[id]? = o at hrel
  generalize infos'[id]? = o' at hrel
  cases hrel with
  | none => exact .none
  | some hrel => exact .some ⟨hrel.1.symm, hrel.2.symm⟩

theorem analyzeFields_succeeds (hshape : SameShape infos infos') {tys : List Ty}
    (h : Succeeds (analyzeFields infos i tys u)) (hparams : SameParams i i') :
    Succeeds (analyzeFields infos' i' tys u') := by
  induction tys generalizing i i' u u' with
  | nil => exact ⟨_, rfl⟩
  | cons ty tys ih =>
    obtain ⟨⟨j, u₁⟩, h⟩ := h
    obtain ⟨i₁, u₂, h₁, h₂⟩ := run_bind_eq_ok h
    obtain ⟨⟨i₂, u₃⟩, h₁'⟩ : Succeeds (analyzeFullTy infos' i' ty u') := analyze_succeeds hshape ty ⟨_, h₁⟩ hparams
    exact .bind h₁' (ih ⟨_, h₂⟩ ((analyze_params h₁).trans (hparams.trans (analyze_params h₁').symm)))

theorem analyzeTypeDecl_succeeds (hshape : SameShape infos infos') {d : TypeDecl}
    (h : Succeeds (analyzeTypeDecl infos d u)) :
    Succeeds (analyzeTypeDecl infos' d u') := by
  obtain ⟨⟨infos₁, u₁⟩, h⟩ := h
  unfold analyzeTypeDecl at h ⊢
  by_cases hopaqueKind : typeDeclIsOpaque d = true
  · rw [if_pos hopaqueKind]
    exact ⟨_, rfl⟩
  · rw [if_neg hopaqueKind] at h ⊢
    obtain ⟨tys, u₂, h₁, h₂⟩ := run_bind_eq_ok h
    obtain ⟨htys, rfl⟩ := run_liftM h₁
    obtain ⟨info, u₃, h₃, h₄⟩ := run_bind_eq_ok h₂
    obtain ⟨hfind, rfl⟩ := run_liftM h₃
    obtain ⟨i₁, u₄, h₅, -⟩ := run_bind_eq_ok h₄
    have hrel := hshape d.defId
    rw [find_eq_ok.mp hfind] at hrel
    generalize hinfo' : infos'[d.defId]? = o at hrel
    cases hrel with
    | @some _ info' hrel =>
      have h₁' : (liftM d.fieldsTys : UpdateM (List Ty)) u' = .ok (tys, u') := by
        rw [htys]
        rfl
      have h₃' : (liftM (find infos' d.defId) : UpdateM TypeDeclInfo) u' = .ok (info', u') := by
        rw [find_eq_ok.mpr hinfo']
        rfl
      have hparams : SameParams (typeDeclInfoToPartialTypeInfo info) (typeDeclInfoToPartialTypeInfo info') :=
        congrArg some hrel.1
      obtain ⟨⟨i₂, u₅⟩, h₅'⟩ : Succeeds (analyzeFields infos' (typeDeclInfoToPartialTypeInfo info') tys u') :=
        analyzeFields_succeeds hshape ⟨_, h₅⟩ hparams
      refine .bind h₁' (.bind h₃' (.bind h₅' ?_))
      -- the type parameters are still there
      have hsame := (analyzeFields_ok h₅').2.1
      obtain ⟨b, params, hasRegions, m⟩ := i₂
      cases params with
      | none => cases hsame
      | some ps => exact ⟨_, rfl⟩

theorem analyzeTypeDecls_succeeds (hshape : SameShape infos infos') {defs : List TypeDecl}
    (h : Succeeds (analyzeTypeDecls infos defs u)) : Succeeds (analyzeTypeDecls infos' defs u') := by
  induction defs generalizing infos infos' u u' with
  | nil => exact ⟨_, rfl⟩
  | cons d defs ih =>
    obtain ⟨⟨infos₁, u₁⟩, h⟩ := h
    obtain ⟨infos₂, u₂, h₁, h₂⟩ := run_bind_eq_ok h
    obtain ⟨⟨infos₃, u₃⟩, h₁'⟩ : Succeeds (analyzeTypeDecl infos' d u') := analyzeTypeDecl_succeeds hshape ⟨_, h₁⟩
    have hbefore := (analyzeTypeDecl_grows h₁).sameShape
    have hafter := (analyzeTypeDecl_grows h₁').sameShape
    exact .bind h₁' (ih (hbefore.symm.trans (hshape.trans hafter)) ⟨_, h₂⟩)

end

/-! ## Termination -/

theorem analyzeRounds_finishes {defs : List TypeDecl} {infos : TypeInfos} (hlossless : LosslessRun defs infos)
    (hfirst : Succeeds (analyzeTypeDecls infos defs false)) : Finishes fun depth => analyzeRounds defs depth infos := by
  -- by induction on what is left to learn
  induction hmissing : missingIn infos defs using Nat.strong_induction_on generalizing infos with
  | _ n ih =>
    obtain ⟨⟨infos₁, u₁⟩, h₁⟩ := hfirst
    apply finishes_succ
    have hround :
      ∀ depth, analyzeRounds defs (depth + 1) infos = if u₁ then analyzeRounds defs depth infos₁ else .ok infos₁ := by
      intro depth
      rw [analyzeRounds]
      show Except.bind (analyzeTypeDecls infos defs false) _ = _
      rw [h₁]
      rfl
    simp only [hround]
    cases u₁ with
    | false => exact finishes_ok infos₁
    | true =>
      have hlt := missingIn_round (hlossless infos .refl) h₁
      have hshape := (analyzeTypeDecls_saturated h₁).1.sameShape
      exact ih _ (hmissing ▸ hlt) (fun infos' hreach => hlossless infos' (.round h₁ hreach))
        (analyzeTypeDecls_succeeds hshape ⟨_, h₁⟩) rfl

end Aeneas.Llbc
