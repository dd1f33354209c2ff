import Aeneas.TypesAnalysis

/-!
# What an exploration asks for

An exploration of a type only adds facts to what is known, and which facts these
are does not depend on what is known. So the exploration is split into the list of
the facts which it wants, in order, and one step for each of them.
-/

namespace Aeneas.Llbc

open GTypeInfo List

/-! ## Facts -/

inductive Flag where
  | static | borrow | mutBorrow | nested | underMut | nestedMut
deriving DecidableEq

def TypeBorrowsInfo.get (b : TypeBorrowsInfo) : Flag → Bool
  | .static => b.containsStatic
  | .borrow => b.containsBorrow
  | .mutBorrow => b.containsMutBorrow
  | .nested => b.containsNestedBorrows
  | .underMut => b.containsBorrowUnderMut
  | .nestedMut => b.containsNestedMut

def allFlags : List Flag := [.static, .borrow, .mutBorrow, .nested, .underMut, .nestedMut]

theorem mem_allFlags (f : Flag) : f ∈ allFlags := by cases f <;> decide

theorem TypeBorrowsInfo.ext_get {b b' : TypeBorrowsInfo} (h : ∀ f, b.get f = b'.get f) : b = b' := by
  cases b
  cases b'
  rw [TypeBorrowsInfo.mk.injEq]
  exact ⟨h .static, h .borrow, h .mutBorrow, h .nested, h .underMut, h .nestedMut⟩

inductive Fact where
  | flag (f : Flag)
  | under (i : TypeVarId)
  | underMut (i : TypeVarId)
  | region (rid : RegionId)
deriving DecidableEq

abbrev Known := Fact → Bool

def underBorrowAt (paramInfos : List TypeParamInfo) (i : TypeVarId) : Bool :=
  (paramInfos[i]?.map SubtypeInfo.underBorrow).getD false

def underMutBorrowAt (paramInfos : List TypeParamInfo) (i : TypeVarId) : Bool :=
  (paramInfos[i]?.map SubtypeInfo.underMutBorrow).getD false

/-- If there are no type parameters to learn about, then nothing is missing. -/
def GTypeInfo.known (info : PartialTypeInfo) : Known
  | .flag f => info.borrowsInfo.get f
  | .under i => (info.paramInfos.map fun ps => underBorrowAt ps i).getD true
  | .underMut i => (info.paramInfos.map fun ps => underMutBorrowAt ps i).getD true
  | .region rid => decide (rid ∈ info.mutRegions)

/-! ## Wanted facts -/

inductive Want where
  | fact (x : Fact)
  | silent
deriving DecidableEq

def Known.add (s : Known) (x : Fact) : Known := fun y => s y || decide (y = x)

def Known.reset (outer : RegionId → Bool) (s : Known) : Known
  | .region rid => outer rid
  | .flag f => s (.flag f)
  | .under i => s (.under i)
  | .underMut i => s (.underMut i)

/-- A region which is known already resets the regions to those of the start. -/
def addFact (outer : RegionId → Bool) (s : Known × Bool) : Fact → Known × Bool
  | .region rid => if s.1 (.region rid) then (Known.reset outer s.1, s.2) else (Known.add s.1 (.region rid), true)
  | .flag f => (Known.add s.1 (.flag f), s.2 || !s.1 (.flag f))
  | .under i => (Known.add s.1 (.under i), s.2 || !s.1 (.under i))
  | .underMut i => (Known.add s.1 (.underMut i), s.2 || !s.1 (.underMut i))

def Want.run (outer : RegionId → Bool) (s : Known × Bool) : Want → Known × Bool
  | .fact x => addFact outer s x
  | .silent => (Known.add s.1 (.flag .borrow), s.2)

def runWants (outer : RegionId → Bool) (s : Known × Bool) (ws : List Want) : Known × Bool := ws.foldl (Want.run outer) s

def TypeBorrowsInfo.wants (b : TypeBorrowsInfo) : List Want := (allFlags.filter b.get).map fun f => .fact (.flag f)

def Region.wants (r : Region) : List Want := r.freeId.toList.map fun rid => .fact (.region rid)

def SubtypeInfo.wants (explInfo : ExplInfo) (i : TypeVarId) : List Want :=
  (if explInfo.underBorrow then [.fact (.under i)] else []) ++
    (if explInfo.underMutBorrow then [.fact (.underMut i)] else [])

def refWants (explInfo : ExplInfo) (r : Region) (kind : RefKind) : List Want :=
  (refBorrowsInfo explInfo r kind).wants ++ (if kind = .rMut then r.wants else [])

def adtWants (adtInfo : TypeDeclInfo) (regions : List Region) : List Want :=
  adtInfo.borrowsInfo.wants ++ ((if regions.any Region.isStatic then [.fact (.flag .static)] else []) ++
    (if adtInfo.hasRegions then [.silent] else []))

def regionsWants (adtInfo : TypeDeclInfo) : RegionId → List Region → List Want
  | _, [] => []
  | adtRid, r :: regions =>
    (if adtRid ∈ adtInfo.mutRegions then r.wants else []) ++ regionsWants adtInfo (adtRid + 1) regions

section
variable (infos : TypeInfos)

mutual

def wants (explInfo : ExplInfo) : Ty → List Want
  | .tVar (.free i) => explInfo.wants i
  | .tVar .bound => []
  | .tRef r ty kind => refWants explInfo r kind ++ wants (explInfo.enter kind) ty
  | .tRawPtr ty => wants explInfo ty
  | .tArray ty => wants explInfo ty
  | .tSlice ty => wants explInfo ty
  | .tAdt _ (some _) ⟨_, types, _⟩ => wantsTys explInfo types
  | .tAdt id none ⟨regions, types, _⟩ =>
    match infos[id]? with
    | none => []
    | some adtInfo =>
      adtWants adtInfo regions ++ (wantsParams explInfo adtInfo.paramInfos types ++ regionsWants adtInfo 0 regions)
  | .tFnPtr _ inputs output => wantsTys explInfo inputs ++ wants explInfo output
  | .tScalar => []
  | .tNever => []
  | .tTraitType _ => []
  | .tFnDef _ _ => []
  | .tDynTrait => []
  | .tError => []
  | .unsupported => []

def wantsTys (explInfo : ExplInfo) : List Ty → List Want
  | [] => []
  | ty :: tys => wants explInfo ty ++ wantsTys explInfo tys

def wantsParams (explInfo : ExplInfo) (paramInfos : List TypeParamInfo) : List Ty → List Want
  | [] => []
  | ty :: tys =>
    match paramInfos with
    | [] => []
    | paramInfo :: paramInfos =>
      (paramBorrowsInfo explInfo paramInfo).wants ++
        (wants (explInfo.join paramInfo) ty ++ wantsParams explInfo paramInfos tys)

end

end

/-! ## The exploration runs the wanted facts -/

theorem checkUpdateBool_eq (original nv updated : Bool) :
    checkUpdateBool original nv updated = .ok (original || nv, updated || (nv && !original)) := by
  cases original <;> cases nv <;> cases updated <;> rfl

theorem runWants_append (outer : RegionId → Bool) (s : Known × Bool) (ws ws' : List Want) :
    runWants outer s (ws ++ ws') = runWants outer (runWants outer s ws) ws' := foldl_append

theorem runWants_flags (outer : RegionId → Bool) (s : Known) (updated : Bool) : ∀ {fs : List Flag}, fs.Nodup →
    runWants outer (s, updated) (fs.map fun f => .fact (.flag f)) =
      (fun x => s x || fs.any fun f => decide (x = .flag f), updated || fs.any fun f => !s (.flag f))
  | [], _ => by simp [runWants]
  | f :: fs, hnodup => by
    obtain ⟨hf, hfs⟩ := nodup_cons.mp hnodup
    rw [map_cons, ← singleton_append, runWants_append]
    have hother : ∀ f' ∈ fs, Known.add s (.flag f) (.flag f') = s (.flag f') := by
      intro f' hf'
      have hne : f' ≠ f := fun heq => hf (heq ▸ hf')
      simp [Known.add, hne]
    show runWants outer (Known.add s (.flag f), updated || !s (.flag f)) _ = _
    rw [runWants_flags outer _ _ hfs]
    refine Prod.ext ?_ ?_
    · funext x
      simp [Known.add, Bool.or_assoc]
    · simp only [any_cons, Bool.or_assoc]
      congr 2
      rw [Bool.eq_iff_iff, any_eq_true, any_eq_true]
      exact exists_congr fun f' => and_congr_right fun hf' => by rw [hother f' hf']

/-- From some information, the run of the wanted facts leads to another one; what is not a fact stays. -/
structure Steps (outer : RegionId → Bool) (ws : List Want) (info : PartialTypeInfo) (updated : Bool)
    (info' : PartialTypeInfo) (updated' : Bool) : Prop where
  known : (info'.known, updated') = runWants outer (info.known, updated) ws
  params : info'.paramInfos.map length = info.paramInfos.map length
  hasRegions : info'.hasRegions = info.hasRegions

section
variable {infos : TypeInfos} {tyInfo₀ : PartialTypeInfo} {outer : RegionId → Bool} {ws ws' : List Want}
  {i i' i'' : PartialTypeInfo} {u u' u'' : Bool}

theorem Steps.nil : Steps outer [] i u i u := ⟨rfl, rfl, rfl⟩

theorem Steps.append (h : Steps outer ws i u i' u') (h' : Steps outer ws' i' u' i'' u'') :
    Steps outer (ws ++ ws') i u i'' u'' where
  known := by rw [runWants_append, ← h.known, ← h'.known]
  params := h'.params.trans h.params
  hasRegions := h'.hasRegions.trans h.hasRegions

def TypeBorrowsInfo.join (b b' : TypeBorrowsInfo) : TypeBorrowsInfo where
  containsStatic := b.containsStatic || b'.containsStatic
  containsBorrow := b.containsBorrow || b'.containsBorrow
  containsMutBorrow := b.containsMutBorrow || b'.containsMutBorrow
  containsNestedBorrows := b.containsNestedBorrows || b'.containsNestedBorrows
  containsBorrowUnderMut := b.containsBorrowUnderMut || b'.containsBorrowUnderMut
  containsNestedMut := b.containsNestedMut || b'.containsNestedMut

@[simp] theorem TypeBorrowsInfo.get_join (b b' : TypeBorrowsInfo) (f : Flag) :
    (b.join b').get f = (b.get f || b'.get f) := by
  cases f <;> rfl

def updatedRegions (tyInfo₀ : PartialTypeInfo) (mutRegions : IdSet RegionId) : Option Region → UpdateM (IdSet RegionId)
  | none => pure mutRegions
  | some mutRegion => updateMutRegions tyInfo₀ mutRegions mutRegion

variable {b : TypeBorrowsInfo}

theorem updateTyInfo_ok {mutRegion : Option Region}
    (h : updateTyInfo tyInfo₀ i mutRegion b u = .ok (i', u')) :
    ∃ mutRegions, updatedRegions tyInfo₀ i.mutRegions mutRegion
        (u || allFlags.any fun f => b.get f && !i.borrowsInfo.get f) = .ok (mutRegions, u') ∧
      i' = { i with borrowsInfo := i.borrowsInfo.join b, mutRegions } := by
  unfold updateTyInfo at h
  simp only [run_bind (checkUpdateBool_eq _ _ _)] at h
  simp only [allFlags, any_cons, any_nil, Bool.or_false, TypeBorrowsInfo.get, ← Bool.or_assoc]
  cases mutRegion with
  | none =>
    cases h
    exact ⟨_, rfl, rfl⟩
  | some r =>
    obtain ⟨m, u₁, hm, heq⟩ := run_bind_eq_ok h
    cases heq
    exact ⟨m, hm, rfl⟩

theorem steps_join (b : TypeBorrowsInfo) : Steps outer b.wants i u { i with borrowsInfo := i.borrowsInfo.join b }
    (u || allFlags.any fun f => b.get f && !i.borrowsInfo.get f) where
  known := by
    unfold TypeBorrowsInfo.wants
    rw [runWants_flags outer _ _ (List.Nodup.filter _ (by decide))]
    refine Prod.ext ?_ ?_
    · funext x
      cases x with
      | flag f =>
        simp only [known, TypeBorrowsInfo.get_join, Fact.flag.injEq]
        congr 1
        rw [Bool.eq_iff_iff, any_eq_true]
        constructor
        · intro hf
          exact ⟨f, mem_filter.mpr ⟨mem_allFlags f, hf⟩, by simp⟩
        · intro hany
          obtain ⟨f', hf', heq⟩ := hany
          rw [of_decide_eq_true heq]
          exact (mem_filter.mp hf').2
      | _ => simp [known]
    · rw [any_filter]
      rfl
  params := rfl
  hasRegions := rfl

theorem steps_flag {f : Flag} (h : ∀ f', b.get f' = (i.borrowsInfo.get f' || decide (f' = f))) :
    Steps outer [.fact (.flag f)] i u { i with borrowsInfo := b } (u || !i.borrowsInfo.get f) where
  known := by
    refine Prod.ext ?_ rfl
    funext x
    cases x with
    | flag f' => simpa [runWants, Want.run, addFact, Known.add, known] using h f'
    | _ => simp [runWants, Want.run, addFact, Known.add, known]
  params := rfl
  hasRegions := rfl

theorem steps_silent (h : ∀ f, b.get f = (i.borrowsInfo.get f || decide (f = .borrow))) :
    Steps outer [.silent] i u { i with borrowsInfo := b } u where
  known := by
    refine Prod.ext ?_ rfl
    funext x
    cases x with
    | flag f => simpa [runWants, Want.run, Known.add, known] using h f
    | _ => simp [runWants, Want.run, Known.add, known]
  params := rfl
  hasRegions := rfl

section
variable (houter : ∀ rid, outer rid = decide (rid ∈ tyInfo₀.mutRegions))
include houter

variable {mutRegions : IdSet RegionId}

theorem steps_region {rid : RegionId}
    (h : updateMutRegionsWithRid tyInfo₀ i.mutRegions rid u = .ok (mutRegions, u')) :
    Steps outer [.fact (.region rid)] i u { i with mutRegions } u' := by
  unfold updateMutRegionsWithRid at h
  by_cases hrid : rid ∈ i.mutRegions
  · rw [if_pos hrid] at h
    cases h
    refine ⟨?_, rfl, rfl⟩
    simp only [runWants, foldl_cons, foldl_nil, Want.run, addFact, known, hrid, decide_true, if_true]
    refine Prod.ext ?_ rfl
    funext x
    cases x with
    | region rid' => exact (houter rid').symm
    | _ => rfl
  · rw [if_neg hrid] at h
    cases h
    refine ⟨?_, rfl, rfl⟩
    simp only [runWants, foldl_cons, foldl_nil, Want.run, addFact, known, hrid, decide_false,
      Bool.false_eq_true, if_false]
    refine Prod.ext ?_ rfl
    funext x
    cases x with
    | region rid' =>
      simp only [Known.add, known, mem_insert_iff, Fact.region.injEq, Bool.decide_or, eq_comm (a := rid)]
      exact Bool.or_comm _ _
    | _ => simp [Known.add, known]

variable {mutRegion : Option Region}

theorem steps_updatedRegions (h : updatedRegions tyInfo₀ i.mutRegions mutRegion u = .ok (mutRegions, u')) :
    Steps outer ((mutRegion.map Region.wants).getD []) i u { i with mutRegions } u' := by
  cases mutRegion with
  | none =>
    cases h
    exact .nil
  | some r =>
    cases r with
    | rStatic =>
      cases h
      exact .nil
    | rVar v =>
      cases v with
      | bound =>
        cases h
        exact .nil
      | free rid => exact steps_region houter h
    | rBody rid => cases h
    | rErased => cases h

theorem steps_updateTyInfo {b : TypeBorrowsInfo}
    (h : updateTyInfo tyInfo₀ i mutRegion b u = .ok (i', u')) :
    Steps outer (b.wants ++ (mutRegion.map Region.wants).getD []) i u i' u' := by
  obtain ⟨mutRegions, hregions, rfl⟩ := updateTyInfo_ok h
  exact (steps_join b).append (steps_updatedRegions houter hregions)

theorem steps_analyzeRef {explInfo : ExplInfo} {r : Region} {kind : RefKind}
    (h : analyzeRef tyInfo₀ explInfo i r kind u = .ok (i', u')) : Steps outer (refWants explInfo r kind) i u i' u' := by
  have hsteps := steps_updateTyInfo houter h
  cases kind with
  | rMut | rShared => exact hsteps

theorem steps_analyzeAdt {adtInfo : TypeDeclInfo} {regions : List Region}
    (h : analyzeAdt tyInfo₀ adtInfo i regions u = .ok (i', u')) : Steps outer (adtWants adtInfo regions) i u i' u' := by
  unfold analyzeAdt at h
  obtain ⟨i₁, u₁, h₁, h⟩ := run_bind_eq_ok h
  have hflags := steps_updateTyInfo houter h₁
  rw [Option.map_none, Option.getD_none, append_nil] at hflags
  rw [run_bind (checkUpdateBool_eq _ _ _)] at h
  cases h
  have hstatic : Steps outer (if regions.any Region.isStatic then [.fact (.flag .static)] else []) i₁ u₁
      { i₁ with borrowsInfo := { i₁.borrowsInfo with
        containsStatic := i₁.borrowsInfo.containsStatic || regions.any Region.isStatic } }
      (u₁ || (regions.any Region.isStatic && !i₁.borrowsInfo.containsStatic)) := by
    cases regions.any Region.isStatic with
    | true => exact steps_flag fun f => by cases f <;> simp [TypeBorrowsInfo.get]
    | false =>
      simp only [Bool.or_false, Bool.false_and]
      exact .nil
  have hsilent : ∀ {i : PartialTypeInfo} {u : Bool}, Steps outer (if adtInfo.hasRegions then [.silent] else []) i u
      { i with borrowsInfo := { i.borrowsInfo with
        containsBorrow := i.borrowsInfo.containsBorrow || adtInfo.hasRegions } } u := by
    intro i u
    cases adtInfo.hasRegions with
    | true => exact steps_silent fun f => by cases f <;> simp [TypeBorrowsInfo.get]
    | false =>
      simp only [Bool.or_false]
      exact .nil
  exact hflags.append (hstatic.append hsilent)

theorem steps_analyzeRegions {adtInfo : TypeDeclInfo} :
    ∀ {regions : List Region} {adtRid : RegionId} {i : PartialTypeInfo}
    {u : Bool} {mutRegions : IdSet RegionId}, analyzeRegions tyInfo₀ adtInfo adtRid i.mutRegions regions u =
      .ok (mutRegions, u') →
    Steps outer (regionsWants adtInfo adtRid regions) i u { i with mutRegions } u'
  | [], _, _, _, _, h => by
    cases h
    exact .nil
  | r :: regions, adtRid, i, u, mutRegions, h => by
    unfold analyzeRegions at h
    have hsame : analyzeRegions tyInfo₀ adtInfo (adtRid + 1) i.mutRegions regions u = .ok (mutRegions, u') →
        (if adtRid ∈ adtInfo.mutRegions then r.wants else []) = [] →
        Steps outer (regionsWants adtInfo adtRid (r :: regions)) i u { i with mutRegions } u' := by
      intro hrest hnone
      unfold regionsWants
      rw [hnone]
      exact steps_analyzeRegions hrest
    cases r with
    | rStatic | rErased => exact hsame h (by simp [Region.wants, Region.freeId])
    | rBody rid => cases h
    | rVar v =>
      cases v with
      | bound => exact hsame h (by simp [Region.wants, Region.freeId])
      | free rid =>
        by_cases hmut : adtRid ∈ adtInfo.mutRegions
        · simp only [if_pos hmut] at h
          obtain ⟨m₁, u₁, h₁, hrest⟩ := run_bind_eq_ok h
          unfold regionsWants
          rw [if_pos hmut]
          have hfirst := steps_region houter h₁
          exact hfirst.append (steps_analyzeRegions (i := { i with mutRegions := m₁ }) hrest)
        · simp only [if_neg hmut] at h
          exact hsame h (by simp [hmut])

end

variable {ps : List TypeParamInfo} {p : TypeParamInfo}

theorem underBorrowAt_set {i j : Nat} (h : i < ps.length) :
    underBorrowAt (ps.set i p) j = if i = j then p.underBorrow else underBorrowAt ps j := by
  unfold underBorrowAt
  rw [getElem?_set]
  by_cases hij : i = j
  · simp [hij, hij ▸ h]
  · simp [hij]

theorem underMutBorrowAt_set {i j : Nat} (h : i < ps.length) :
    underMutBorrowAt (ps.set i p) j = if i = j then p.underMutBorrow else underMutBorrowAt ps j := by
  unfold underMutBorrowAt
  rw [getElem?_set]
  by_cases hij : i = j
  · simp [hij, hij ▸ h]
  · simp [hij]

variable {id : Nat}

theorem set_eq_self (h : ps[id]? = some p) : ps.set id p = ps := by
  obtain ⟨hid, rfl⟩ := List.getElem?_eq_some_iff.mp h
  exact set_getElem_self hid

theorem steps_under {hasRegions : Bool}
    {m : IdSet RegionId} (hp : ps[id]? = some p) (under : Bool) :
    Steps outer (if under then [.fact (.under id)] else []) ⟨b, some ps, hasRegions, m⟩ u
      ⟨b, some (ps.set id { p with underBorrow := p.underBorrow || under }), hasRegions, m⟩
      (u || (under && !p.underBorrow)) := by
  obtain ⟨hid, hget⟩ := List.getElem?_eq_some_iff.mp hp
  cases under with
  | false =>
    simp only [Bool.or_false, Bool.false_and, set_eq_self hp]
    exact .nil
  | true =>
    have hp' : underBorrowAt ps id = p.underBorrow := by simp [underBorrowAt, hp]
    refine ⟨Prod.ext ?_ ?_, by simp, rfl⟩
    · funext x
      simp only [if_true, runWants, foldl_cons, foldl_nil, Want.run, addFact, Known.add]
      cases x with
      | under j =>
        simp only [known, Option.map_some, Option.getD_some, underBorrowAt_set hid, Fact.under.injEq]
        by_cases hj : id = j
        · simp [hj]
        · simp [hj, Ne.symm hj]
      | underMut j =>
        simp only [known, Option.map_some, Option.getD_some, underMutBorrowAt_set hid, reduceCtorEq, decide_false,
          Bool.or_false]
        by_cases hj : id = j
        · subst hj
          simp [underMutBorrowAt, hp]
        · simp [hj]
      | _ => simp [known]
    · simp [runWants, Want.run, addFact, known, hp']

theorem steps_underMut {hasRegions : Bool}
    {m : IdSet RegionId} (hp : ps[id]? = some p) (under : Bool) :
    Steps outer (if under then [.fact (.underMut id)] else []) ⟨b, some ps, hasRegions, m⟩ u
      ⟨b, some (ps.set id { p with underMutBorrow := p.underMutBorrow || under }), hasRegions, m⟩
      (u || (under && !p.underMutBorrow)) := by
  obtain ⟨hid, hget⟩ := List.getElem?_eq_some_iff.mp hp
  cases under with
  | false =>
    simp only [Bool.or_false, Bool.false_and, set_eq_self hp]
    exact .nil
  | true =>
    have hp' : underMutBorrowAt ps id = p.underMutBorrow := by simp [underMutBorrowAt, hp]
    refine ⟨Prod.ext ?_ ?_, by simp, rfl⟩
    · funext x
      simp only [if_true, runWants, foldl_cons, foldl_nil, Want.run, addFact, Known.add]
      cases x with
      | underMut j =>
        simp only [known, Option.map_some, Option.getD_some, underMutBorrowAt_set hid, Fact.underMut.injEq]
        by_cases hj : id = j
        · simp [hj]
        · simp [hj, Ne.symm hj]
      | under j =>
        simp only [known, Option.map_some, Option.getD_some, underBorrowAt_set hid, reduceCtorEq, decide_false,
          Bool.or_false]
        by_cases hj : id = j
        · subst hj
          simp [underBorrowAt, hp]
        · simp [hj]
      | _ => simp [known]
    · simp [runWants, Want.run, addFact, known, hp']

theorem addFact_known {s : Known} {x : Fact} (hx : s x = true) (hregion : ∀ rid, x ≠ .region rid) :
    addFact outer (s, u) x = (s, u) := by
  have hadd : Known.add s x = s := by
    funext y
    by_cases hy : y = x
    · simp [Known.add, hy, hx]
    · simp [Known.add, hy]
  cases x with
  | region rid => exact absurd rfl (hregion rid)
  | _ => simp [addFact, hadd, hx]

theorem steps_known (hws : ∀ w ∈ ws, ∃ x, w = .fact x ∧ i.known x = true ∧ ∀ rid, x ≠ .region rid) :
    Steps outer ws i u i u where
  known := by
    induction ws with
    | nil => rfl
    | cons w ws ih =>
      obtain ⟨x, rfl, hx, hregion⟩ := hws w mem_cons_self
      rw [runWants, foldl_cons]
      show _ = runWants outer (addFact outer (i.known, u) x) ws
      rw [addFact_known hx hregion]
      exact ih fun w' hw' => hws w' (mem_cons_of_mem _ hw')
  params := rfl
  hasRegions := rfl

theorem steps_analyzeVar {explInfo : ExplInfo} {v : DeBruijnVar} (h : analyzeVar explInfo i v u = .ok (i', u')) :
    Steps outer (wants infos explInfo (.tVar v)) i u i' u' := by
  obtain ⟨b, params, hasRegions, m⟩ := i
  cases params with
  | none =>
    cases h
    refine steps_known fun w hw => ?_
    cases v with
    | bound => cases hw
    | free id =>
      rcases mem_append.mp hw with hw | hw
      · split at hw
        · exact ⟨.under id, mem_singleton.mp hw, rfl, nofun⟩
        · cases hw
      · split at hw
        · exact ⟨.underMut id, mem_singleton.mp hw, rfl, nofun⟩
        · cases hw
  | some ps =>
    obtain ⟨id, u₁, hid, h₁⟩ := run_bind_eq_ok h
    obtain ⟨hfree, rfl⟩ := run_liftM hid
    obtain ⟨p, u₂, hp, h₂⟩ := run_bind_eq_ok h₁
    obtain ⟨hnth, rfl⟩ := run_liftM hp
    rw [run_bind (checkUpdateBool_eq _ _ _), run_bind (checkUpdateBool_eq _ _ _)] at h₂
    cases h₂
    cases v with
    | bound => cases hfree
    | free j =>
      obtain rfl : j = id := Except.ok.inj hfree
      have hps : ps[j]? = some p := by
        unfold nth at hnth
        split at hnth
        · rename_i heq
          rw [heq, Except.ok.inj hnth]
        · cases hnth
      obtain ⟨hj, -⟩ := List.getElem?_eq_some_iff.mp hps
      have hfirst : Steps outer _ ⟨b, some ps, hasRegions, m⟩ u₂ _ _ := steps_under hps explInfo.underBorrow
      have hset : (ps.set j { p with underBorrow := p.underBorrow || explInfo.underBorrow })[j]? =
          some { p with underBorrow := p.underBorrow || explInfo.underBorrow } := getElem?_set_self hj
      have hsecond : Steps outer _ ⟨b, some _, hasRegions, m⟩ (u₂ || (explInfo.underBorrow && !p.underBorrow)) _ _ :=
        steps_underMut hset explInfo.underMutBorrow
      rw [set_set] at hsecond
      exact hfirst.append hsecond

mutual

theorem steps_analyze (houter : ∀ rid, outer rid = decide (rid ∈ tyInfo₀.mutRegions)) :
    ∀ (ty : Ty) {explInfo : ExplInfo} {i i' : PartialTypeInfo} {u u' : Bool},
    analyze infos tyInfo₀ explInfo i ty u = .ok (i', u') → Steps outer (wants infos explInfo ty) i u i' u'
  | .tScalar, _, _, _, _, _, h | .tNever, _, _, _, _, _, h | .tDynTrait, _, _, _, _, _, h => by cases h; exact .nil
  | .tTraitType ⟨kind, _, _⟩, _, _, _, _, _, h => by
    obtain ⟨r, u₁, hr, h₁⟩ := run_bind_eq_ok h
    obtain ⟨-, rfl⟩ := run_liftM hr
    cases h₁
    exact .nil
  | .tVar v, _, _, _, _, _, h => steps_analyzeVar h
  | .tRef r ty kind, _, _, _, _, _, h => by
    obtain ⟨i₁, u₁, h₁, h₂⟩ := run_bind_eq_ok h
    exact (steps_analyzeRef houter h₁).append (steps_analyze houter _ h₂)
  | .tRawPtr ty, _, _, _, _, _, h | .tArray ty, _, _, _, _, _, h | .tSlice ty, _, _, _, _, _, h =>
    steps_analyze houter ty h
  | .tAdt _ (some _) ⟨_, types, _⟩, _, _, _, _, _, h => steps_analyzeTys houter types h
  | .tAdt id none ⟨regions, types, _⟩, explInfo, i, i', u, u', h => by
    obtain ⟨adtInfo, u₁, hadt, h₁⟩ := run_bind_eq_ok h
    obtain ⟨hfind, rfl⟩ := run_liftM hadt
    obtain ⟨i₁, u₂, hhead, h₂⟩ := run_bind_eq_ok h₁
    rw [find_eq_ok] at hfind
    unfold wants
    rw [hfind]
    by_cases hlen : adtInfo.paramInfos.length = types.length
    · rw [if_pos hlen] at h₂
      obtain ⟨i₂, u₃, hparams, h₃⟩ := run_bind_eq_ok h₂
      obtain ⟨m, u₄, hregions, h₄⟩ := run_bind_eq_ok h₃
      cases h₄
      exact (steps_analyzeAdt houter hhead).append
        ((steps_analyzeParams houter _ hparams).append (steps_analyzeRegions houter hregions))
    · rw [if_neg hlen] at h₂
      cases h₂
  | .tFnPtr _ inputs output, _, _, _, _, _, h => by
    obtain ⟨i₁, u₁, h₁, h₂⟩ := run_bind_eq_ok h
    exact (steps_analyzeTys houter _ h₁).append (steps_analyze houter _ h₂)
  | .tFnDef _ _, _, _, _, _, _, h => by
    obtain ⟨_, u₁, hempty, h₁⟩ := run_bind_eq_ok h
    obtain ⟨-, rfl⟩ := run_liftM hempty
    obtain ⟨_, u₂, hnone, h₂⟩ := run_bind_eq_ok h₁
    obtain ⟨-, rfl⟩ := run_liftM hnone
    cases h₂
    exact .nil
  | .tError, _, _, _, _, _, h => by cases h
  | .unsupported, _, _, _, _, _, h => by cases h

theorem steps_analyzeTys (houter : ∀ rid, outer rid = decide (rid ∈ tyInfo₀.mutRegions)) :
    ∀ (tys : List Ty) {explInfo : ExplInfo} {i i' : PartialTypeInfo} {u u' : Bool},
    analyzeTys infos tyInfo₀ explInfo i tys u = .ok (i', u') → Steps outer (wantsTys infos explInfo tys) i u i' u'
  | [], _, _, _, _, _, h => by cases h; exact .nil
  | ty :: tys, _, _, _, _, _, h => by
    obtain ⟨i₁, u₁, h₁, h₂⟩ := run_bind_eq_ok h
    exact (steps_analyze houter _ h₁).append (steps_analyzeTys houter _ h₂)

theorem steps_analyzeParams (houter : ∀ rid, outer rid = decide (rid ∈ tyInfo₀.mutRegions)) :
    ∀ (tys : List Ty) {ps : List TypeParamInfo} {explInfo : ExplInfo} {i i' : PartialTypeInfo}
    {u u' : Bool}, analyzeParams infos tyInfo₀ explInfo i ps tys u = .ok (i', u') →
    Steps outer (wantsParams infos explInfo ps tys) i u i' u'
  | [], _, _, _, _, _, _, h | _ :: _, [], _, _, _, _, _, h => by cases h; exact .nil
  | ty :: tys, p :: ps, _, _, _, _, _, h => by
    obtain ⟨i₁, u₁, h₁, h₂⟩ := run_bind_eq_ok h
    obtain ⟨i₂, u₂, h₃, h₄⟩ := run_bind_eq_ok h₂
    have hflags := steps_updateTyInfo houter h₁
    rw [Option.map_none, Option.getD_none, append_nil] at hflags
    exact hflags.append ((steps_analyze houter _ h₃).append (steps_analyzeParams houter _ h₄))

end

end

end Aeneas.Llbc
