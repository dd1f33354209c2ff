import Aeneas.ProjTypes

/-!
# The lattice of the projections

The normalisations of one type, by different sets of regions, form a lattice: at
every position the operations are those of the sets.
-/

namespace Aeneas.Interp

open List

open Llbc (Region RegionId RefKind BuiltinTy DeBruijnVar TypeDeclId)

def isFree : Region → Bool
  | .rVar (.free _) => true
  | _ => false

mutual

/-- The types whose projections are compared: without trait references, and with free regions. -/
def Ty.plain : Ty → Bool
  | .tAdt _ _ regions types _ refs => regions.all isFree && (plainTys types && refs.isEmpty)
  | .tVar _ => true
  | .tScalar _ => true
  | .tRef r ty _ => isFree r && ty.plain
  | .tArray ty _ _ => ty.plain
  | .tSlice ty _ => ty.plain
  | _ => false

def plainTys : List Ty → Bool
  | [] => true
  | ty :: tys => ty.plain && plainTys tys

end

mutual

def Ty.stripAnnotations : Ty → Ty
  | .tAdt id builtin regions types cgs refs => .tAdt id builtin regions (stripTys types) cgs refs
  | .tRef r ty kind => .tRef r ty.stripAnnotations kind
  | .tArray ty len _ => .tArray ty.stripAnnotations len none
  | .tSlice ty _ => .tSlice ty.stripAnnotations none
  | ty => ty

def stripTys : List Ty → List Ty
  | [] => []
  | ty :: tys => ty.stripAnnotations :: stripTys tys

end

/-! ## The normalisation -/

def inSet (regions : IdSet Nat) : Region → Bool
  | .rVar (.free r) => r ∈ regions
  | _ => false

def normRegion (regions : IdSet Nat) (r : Region) : Region := if inSet regions r then .rVar (.free 0) else .rErased

theorem normalizeRegion_eq {regions : IdSet Nat} {r : Region} (h : isFree r = true) :
    normalizeRegion regions r = .ok (normRegion regions r) := by
  unfold isFree at h
  split at h
  · simp [normalizeRegion, normRegion, inSet]
  · cases h

theorem mapM_normalizeRegion {regions : IdSet Nat} {rs : List Region} (h : rs.all isFree = true) :
    rs.mapM (normalizeRegion regions) = .ok (rs.map (normRegion regions)) := by
  induction rs with
  | nil => rfl
  | cons r rs ih =>
    obtain ⟨hr, hrs⟩ := Bool.and_eq_true_iff.mp h
    rw [mapM_cons, normalizeRegion_eq hr, ih hrs]
    rfl

mutual

theorem normalizeProjTy_eq (regions : IdSet Nat) : ∀ ty : Ty, ty.plain = true →
    normalizeProjTy regions ty = .ok (ty.mapRegions (normRegion regions))
  | .tAdt id builtin rs types cgs refs, h => by
    obtain ⟨hrs, h⟩ := Bool.and_eq_true_iff.mp h
    obtain ⟨htypes, _⟩ := Bool.and_eq_true_iff.mp h
    rw [normalizeProjTy, Ty.mapRegionsM, mapM_normalizeRegion hrs, normalizeProjTys_eq regions types htypes]
    rfl
  | .tRef r ty kind, h => by
    obtain ⟨hr, hty⟩ := Bool.and_eq_true_iff.mp h
    have hty := normalizeProjTy_eq regions ty hty
    rw [normalizeProjTy] at hty
    rw [normalizeProjTy, Ty.mapRegionsM, normalizeRegion_eq hr, hty]
    rfl
  | .tArray ty len annot, h | .tSlice ty annot, h => by
    have hty := normalizeProjTy_eq regions ty h
    rw [normalizeProjTy] at hty
    rw [normalizeProjTy, Ty.mapRegionsM, hty]
    rfl
  | .tVar _, _ => rfl
  | .tScalar _, _ => rfl

theorem normalizeProjTys_eq (regions : IdSet Nat) : ∀ tys : List Ty, plainTys tys = true →
    mapRegionsOfTysM (normalizeRegion regions) tys = .ok (mapRegionsOfTys (normRegion regions) tys)
  | [], _ => rfl
  | ty :: tys, h => by
    obtain ⟨hty, htys⟩ := Bool.and_eq_true_iff.mp h
    have hty := normalizeProjTy_eq regions ty hty
    rw [normalizeProjTy] at hty
    rw [mapRegionsOfTysM, hty, normalizeProjTys_eq regions tys htys]
    rfl

end

/-! ## The union -/

section
variable (strict : Bool) (rset1 rset2 : IdSet Nat)

def meets (rs : List Region) : Bool := rs.any fun r => inSet rset1 r && inSet rset2 r

theorem meets_append (rs rs' : List Region) :
    meets rset1 rset2 (rs ++ rs') = (meets rset1 rset2 rs || meets rset1 rset2 rs') := any_append

theorem meets_cons (r : Region) (rs : List Region) :
    meets rset1 rset2 (r :: rs) = (inSet rset1 r && inSet rset2 r || meets rset1 rset2 rs) := any_cons

def disjointly {α : Type} (meet : Bool) (a : α) : Except Exn α :=
  if meet then craise "Unexpected region intersection" else .ok a

theorem disjointly_bind {α β : Type} {m m' : Bool} {a : α} {f : α → Except Exn β} {b : β}
    (h : f a = disjointly m' b) : (disjointly m a >>= f) = disjointly (m || m') b := by
  cases m with
  | true => rfl
  | false => exact h

theorem disjointly_map {α β : Type} {m : Bool} {a : α} (f : α → β) :
    (disjointly m a >>= fun a => .ok (f a)) = disjointly m (f a) := by
  cases m <;> rfl

theorem sanityCheck_bind {α : Type} {b : Bool} (h : b = true) (f : Unit → Except Exn α) :
    (sanityCheck b >>= f) = f () := by
  subst h
  rfl

theorem normProjRegionsUnion_eq (r : Region) :
    normProjRegionsUnion strict (normRegion rset1 r) (normRegion rset2 r) =
      disjointly (strict && (inSet rset1 r && inSet rset2 r)) (normRegion (rset1 ∪ rset2) r) := by
  have hunion : inSet (rset1 ∪ rset2) r = (inSet rset1 r || inSet rset2 r) := by
    unfold inSet
    split
    · simp [Std.ExtTreeSet.mem_union_iff]
    · rfl
  unfold normRegion
  rw [hunion]
  cases inSet rset1 r <;> cases inSet rset2 r <;> cases strict <;> rfl

theorem map2_normProjRegionsUnion (rs : List Region) :
    map2 (normProjRegionsUnion strict) (rs.map (normRegion rset1)) (rs.map (normRegion rset2)) =
      disjointly (strict && meets rset1 rset2 rs) (rs.map (normRegion (rset1 ∪ rset2))) := by
  induction rs with
  | nil => cases strict <;> rfl
  | cons r rs ih =>
    rw [map_cons, map_cons, map2, normProjRegionsUnion_eq, ih, meets_cons, Bool.and_or_distrib_left]
    exact disjointly_bind (disjointly_map _)

theorem map2_normProjConstGenericsUnion (cgs : List ConstantExpr) :
    map2 normProjConstGenericsUnion cgs cgs = .ok cgs := by
  induction cgs with
  | nil => rfl
  | cons cg cgs ih =>
    rw [map2, ih, normProjConstGenericsUnion, sanityCheck_bind (by simp)]
    rfl

mutual

theorem normProjTysUnion_eq : ∀ ty : Ty, ty.plain = true →
    normProjTysUnion strict (ty.mapRegions (normRegion rset1)) (ty.mapRegions (normRegion rset2)) =
      disjointly (strict && meets rset1 rset2 ty.regions)
        (ty.mapRegions (normRegion (rset1 ∪ rset2))).stripAnnotations
  | .tAdt id builtin rs types cgs refs, h => by
    obtain ⟨_, h⟩ := Bool.and_eq_true_iff.mp h
    obtain ⟨htypes, hrefs⟩ := Bool.and_eq_true_iff.mp h
    obtain rfl := List.isEmpty_iff.mp hrefs
    rw [Ty.mapRegions, Ty.mapRegions, normProjTysUnion, sanityCheck_bind (by simp), map2_normProjRegionsUnion,
      normProjTysUnions_eq types htypes, map2_normProjConstGenericsUnion, Ty.regions, meets_append,
      Bool.and_or_distrib_left]
    exact disjointly_bind (disjointly_map _)
  | .tRef r ty kind, h => by
    have hty := normProjTysUnion_eq ty (Bool.and_eq_true_iff.mp h).2
    rw [Ty.mapRegions, Ty.mapRegions, normProjTysUnion, sanityCheck_bind (by simp), normProjRegionsUnion_eq, hty,
      Ty.regions, meets_cons, Bool.and_or_distrib_left]
    exact disjointly_bind (disjointly_map _)
  | .tArray ty len annot, h => by
    rw [Ty.mapRegions, Ty.mapRegions, normProjTysUnion, sanityCheck_bind (by simp), normProjTysUnion_eq ty h]
    exact disjointly_map _
  | .tSlice ty annot, h => by
    rw [Ty.mapRegions, Ty.mapRegions, normProjTysUnion, normProjTysUnion_eq ty h]
    exact disjointly_map _
  | .tVar v, _ => by
    change (sanityCheck (v = v) >>= fun _ => .ok (Ty.tVar v)) = _
    rw [sanityCheck_bind (by simp)]
    cases strict <;> rfl
  | .tScalar lit, _ => by
    change (sanityCheck (lit = lit) >>= fun _ => .ok (Ty.tScalar lit)) = _
    rw [sanityCheck_bind (by simp)]
    cases strict <;> rfl

theorem normProjTysUnions_eq : ∀ tys : List Ty, plainTys tys = true →
    normProjTysUnions strict (mapRegionsOfTys (normRegion rset1) tys) (mapRegionsOfTys (normRegion rset2) tys) =
      disjointly (strict && meets rset1 rset2 (regionsOfTys tys))
        (stripTys (mapRegionsOfTys (normRegion (rset1 ∪ rset2)) tys))
  | [], _ => by
    cases strict <;> rfl
  | ty :: tys, h => by
    obtain ⟨hty, htys⟩ := Bool.and_eq_true_iff.mp h
    rw [mapRegionsOfTys, mapRegionsOfTys, normProjTysUnions, normProjTysUnion_eq ty hty, normProjTysUnions_eq tys htys,
      regionsOfTys, meets_append, Bool.and_or_distrib_left]
    exact disjointly_bind (disjointly_map _)

end

end

/-! ## The comparison -/

section
variable {tyToString : Ty → String} {dflt : Bool} {combine : Bool → Bool → Bool}
  {compareRegions : Region → Region → Except Exn Bool} {rset1 rset2 : IdSet Nat} {c : Region → Bool}

def combineAll (dflt : Bool) (combine : Bool → Bool → Bool) (c : Region → Bool) (rs : List Region) : Bool :=
  rs.foldl (fun b r => combine b (c r)) dflt

structure Combines (dflt : Bool) (combine : Bool → Bool → Bool) : Prop where
  assoc : ∀ a b c, combine (combine a b) c = combine a (combine b c)
  left : ∀ b, combine dflt b = b
  right : ∀ b, combine b dflt = b

theorem foldl_combine (h : Combines dflt combine) (b : Bool) (rs : List Region) :
    rs.foldl (fun b r => combine b (c r)) b = combine b (combineAll dflt combine c rs) := by
  unfold combineAll
  induction rs generalizing b with
  | nil => exact (h.right b).symm
  | cons r rs ih => rw [foldl_cons, ih, foldl_cons, ih (combine dflt (c r)), h.left, h.assoc]

theorem combineAll_append (h : Combines dflt combine) (rs rs' : List Region) :
    combineAll dflt combine c (rs ++ rs') = combine (combineAll dflt combine c rs) (combineAll dflt combine c rs') := by
  unfold combineAll
  rw [foldl_append, foldl_combine h]
  rfl

theorem combineAll_cons (h : Combines dflt combine) (r : Region) (rs : List Region) :
    combineAll dflt combine c (r :: rs) = combine (c r) (combineAll dflt combine c rs) := by
  unfold combineAll
  rw [foldl_cons, foldl_combine h, h.left]
  rfl

theorem foldRegions_eq (hc : ∀ r, compareRegions (normRegion rset1 r) (normRegion rset2 r) = .ok (c r)) (b : Bool)
    (rs : List Region) : foldRegions combine compareRegions b (rs.map (normRegion rset1)) (rs.map (normRegion rset2)) =
      .ok (rs.foldl (fun b r => combine b (c r)) b) := by
  induction rs generalizing b with
  | nil => rfl
  | cons r rs ih =>
    rw [map_cons, map_cons, foldRegions, hc]
    exact ih _

theorem length_mapRegionsOfTys (f : Region → Region) (tys : List Ty) : (mapRegionsOfTys f tys).length = tys.length := by
  induction tys with
  | nil => rfl
  | cons ty tys ih => rw [mapRegionsOfTys, length_cons, ih, length_cons]

mutual

theorem compareRtys_eq (h : Combines dflt combine)
    (hc : ∀ r, compareRegions (normRegion rset1 r) (normRegion rset2 r) = .ok (c r)) : ∀ ty : Ty, ty.plain = true →
    compareRtys tyToString true dflt combine compareRegions (ty.mapRegions (normRegion rset1))
      (ty.mapRegions (normRegion rset2)) = .ok (combineAll dflt combine c ty.regions)
  | .tAdt id builtin rs types cgs refs, hty => by
    obtain ⟨_, hty⟩ := Bool.and_eq_true_iff.mp hty
    have htys := compareRtysAll_eq h hc types (Bool.and_eq_true_iff.mp hty).1 dflt
    have hparams : foldRegions combine compareRegions dflt (rs.map (normRegion rset1)) (rs.map (normRegion rset2)) =
      _ :=
      foldRegions_eq hc dflt rs
    rw [Ty.mapRegions, Ty.mapRegions, compareRtys]
    change (sanityCheck (id = id) >>= fun _ => sanityCheck (cgs = cgs) >>= fun _ => checkCombine _ _ >>= fun _ =>
      foldRegions _ _ _ _ _ >>= fun paramsB => checkCombine _ _ >>= fun _ => compareRtysAll _ _ _ _ _ _ _ _ >>=
        fun tysB => .ok (combine paramsB tysB)) = _
    rw [sanityCheck_bind (by simp), sanityCheck_bind (by simp), hparams, htys, Ty.regions, combineAll_append h, h.left]
    simp only [checkCombine, length_map, length_mapRegionsOfTys, if_true]
    rfl
  | .tRef r ty kind, hty => by
    have hty := compareRtys_eq h hc ty (Bool.and_eq_true_iff.mp hty).2
    rw [Ty.mapRegions, Ty.mapRegions, compareRtys]
    change (sanityCheck (kind = kind) >>= fun _ => compareRegions _ _ >>= fun regionsB =>
      compareRtys _ _ _ _ _ _ _ >>= fun tysB => .ok (combine regionsB tysB)) = _
    rw [sanityCheck_bind (by simp), hc, hty, Ty.regions, combineAll_cons h]
    rfl
  | .tArray ty len annot, hty => by
    have hty := compareRtys_eq h hc ty hty
    rw [Ty.mapRegions, Ty.mapRegions, compareRtys]
    change (sanityCheck (len = len) >>= fun _ => compareRtys _ _ _ _ _ _ _) = _
    rw [sanityCheck_bind (by simp), hty, Ty.regions]
  | .tSlice ty annot, hty => compareRtys_eq h hc ty hty
  | .tVar v, _ => sanityCheck_bind (b := decide (v = v)) (by simp) _
  | .tScalar lit, _ => sanityCheck_bind (b := decide (lit = lit)) (by simp) _

theorem compareRtysAll_eq (h : Combines dflt combine)
    (hc : ∀ r, compareRegions (normRegion rset1 r) (normRegion rset2 r) = .ok (c r)) : ∀ tys : List Ty,
    plainTys tys = true → ∀ b, compareRtysAll tyToString true dflt combine compareRegions b
      (mapRegionsOfTys (normRegion rset1) tys) (mapRegionsOfTys (normRegion rset2) tys) =
        .ok (combine b (combineAll dflt combine c (regionsOfTys tys)))
  | [], _, b => congrArg Except.ok (h.right b).symm
  | ty :: tys, htys, b => by
    obtain ⟨hty, htys⟩ := Bool.and_eq_true_iff.mp htys
    have hty := compareRtys_eq h hc ty hty
    have htys := compareRtysAll_eq h hc tys htys
    rw [mapRegionsOfTys, mapRegionsOfTys, compareRtysAll, hty, regionsOfTys, combineAll_append h, ← h.assoc]
    exact htys _

end

end

/-! ## The lattice -/

section
variable (tyToString : Ty → String) {regionInSet : Bool → Region → IdSet Nat → Except Exn Bool}

/-- What is assumed of the test of a region: the free ones are looked up, and the erased ones are in no set. -/
structure TestsRegions (regionInSet : Bool → Region → IdSet Nat → Except Exn Bool) : Prop where
  free : ∀ allowErased r rset, regionInSet allowErased (.rVar (.free r)) rset = .ok (r ∈ rset)
  erased : ∀ rset, regionInSet true .rErased rset = .ok false

theorem TestsRegions.norm (h : TestsRegions regionInSet) (rset : IdSet Nat) (r : Region) :
    regionInSet true (normRegion rset r) zeroSet = .ok (inSet rset r) := by
  unfold normRegion
  cases inSet rset r with
  | true =>
    rw [if_pos rfl, h.free]
    simp [zeroSet]
  | false => exact h.erased zeroSet

theorem combineAll_or (c : Region → Bool) (rs : List Region) : combineAll false (· || ·) c rs = rs.any c := by
  induction rs with
  | nil => rfl
  | cons r rs ih =>
    rw [combineAll_cons ⟨Bool.or_assoc, Bool.false_or, Bool.or_false⟩, ih, any_cons]

theorem combineAll_and (c : Region → Bool) (rs : List Region) : combineAll true (· && ·) c rs = rs.all c := by
  induction rs with
  | nil => rfl
  | cons r rs ih =>
    rw [combineAll_cons ⟨Bool.and_assoc, Bool.true_and, Bool.and_true⟩, ih, all_cons]

theorem normProjTysIntersect_eq (h : TestsRegions regionInSet) (rset1 rset2 : IdSet Nat) {ty : Ty}
    (hty : ty.plain = true) :
    normProjTysIntersect tyToString regionInSet (ty.mapRegions (normRegion rset1)) (ty.mapRegions (normRegion rset2)) =
      .ok (meets rset1 rset2 ty.regions) := by
  unfold normProjTysIntersect projectionsIntersect
  rw [compareRtys_eq (c := fun r => inSet rset1 r && inSet rset2 r) ⟨Bool.or_assoc, Bool.false_or, Bool.or_false⟩ _ ty
    hty,
    combineAll_or]
  · rfl
  · intro r
    simp only [h.norm]
    cases inSet rset1 r <;> rfl

theorem normProjTyContains_eq (h : TestsRegions regionInSet) (rset1 rset2 : IdSet Nat) {ty : Ty}
    (hty : ty.plain = true) :
    normProjTyContains tyToString regionInSet (ty.mapRegions (normRegion rset1)) (ty.mapRegions (normRegion rset2)) =
      .ok (ty.regions.all fun r => inSet rset1 r || !inSet rset2 r) := by
  unfold normProjTyContains projectionContains
  rw [compareRtys_eq (c := fun r => inSet rset1 r || !inSet rset2 r) ⟨Bool.and_assoc, Bool.true_and, Bool.and_true⟩ _ ty
    hty,
    combineAll_and]
  intro r
  simp only [h.norm]
  cases inSet rset1 r <;> rfl

theorem meets_iff {rset1 rset2 : IdSet Nat} {rs : List Region} :
    meets rset1 rset2 rs = true ↔ ∃ r, .rVar (.free r) ∈ rs ∧ r ∈ rset1 ∧ r ∈ rset2 := by
  unfold meets
  rw [any_eq_true]
  constructor
  · intro h
    obtain ⟨r, hr, hin⟩ := h
    unfold inSet at hin
    split at hin
    · rename_i r
      exact ⟨r, hr, by simpa using hin⟩
    · cases hin
  · intro h
    obtain ⟨r, hr, hin⟩ := h
    exact ⟨_, hr, by simpa [inSet] using hin⟩

theorem contains_iff {rset1 rset2 : IdSet Nat} {rs : List Region} :
    (rs.all fun r => inSet rset1 r || !inSet rset2 r) = true ↔
      ∀ r, .rVar (.free r) ∈ rs → r ∈ rset2 → r ∈ rset1 := by
  rw [all_eq_true]
  constructor
  · intro h r hr hin
    simpa [inSet, hin] using h _ hr
  · intro h r hr
    unfold inSet
    split
    · rename_i r
      by_cases hin : r ∈ rset2
      · simp [h r hr hin]
      · simp [hin]
    · rfl

/-- The projections of a type are a lattice of sets of regions. -/
theorem normProjTys_lattice (h : TestsRegions regionInSet) {ty : Ty} (hty : ty.plain = true) (rset1 rset2 : IdSet Nat) :
    ∃ n1 n2 n12, normalizeProjTy rset1 ty = .ok n1 ∧ normalizeProjTy rset2 ty = .ok n2 ∧
      normalizeProjTy (rset1 ∪ rset2) ty = .ok n12 ∧
      normProjTysUnion false n1 n2 = .ok n12.stripAnnotations ∧
      ((∃ u, normProjTysUnion true n1 n2 = .ok u) ↔
        ∀ r, .rVar (.free r) ∈ ty.regions → ¬ (r ∈ rset1 ∧ r ∈ rset2)) ∧
      (∃ b, normProjTysIntersect tyToString regionInSet n1 n2 = .ok b ∧
        (b = true ↔ ∃ r, .rVar (.free r) ∈ ty.regions ∧ r ∈ rset1 ∧ r ∈ rset2)) ∧
      ∃ b, normProjTyContains tyToString regionInSet n1 n2 = .ok b ∧
        (b = true ↔ ∀ r, .rVar (.free r) ∈ ty.regions → r ∈ rset2 → r ∈ rset1) := by
  refine ⟨_, _, _, normalizeProjTy_eq rset1 ty hty, normalizeProjTy_eq rset2 ty hty, normalizeProjTy_eq _ ty hty,
    normProjTysUnion_eq false rset1 rset2 ty hty, ?_,
      ⟨_, normProjTysIntersect_eq tyToString h rset1 rset2 hty, meets_iff⟩,
    _, normProjTyContains_eq tyToString h rset1 rset2 hty, contains_iff⟩
  rw [normProjTysUnion_eq true rset1 rset2 ty hty, Bool.true_and]
  constructor
  · intro hu r hr hin
    obtain ⟨u, hu⟩ := hu
    rw [meets_iff.mpr ⟨r, hr, hin⟩] at hu
    cases hu
  · intro hnone
    have hfalse : meets rset1 rset2 ty.regions = false := by
      refine Bool.eq_false_iff.mpr fun hmeets => ?_
      obtain ⟨r, hr, hin⟩ := meets_iff.mp hmeets
      exact hnone r hr hin
    rw [hfalse]
    exact ⟨_, rfl⟩

end

/-- `&'1 mut [S<'2>]` -/
def mutSlice : Ty := .tRef (.rVar (.free 1)) (.tSlice (.tAdt 7 none [.rVar (.free 2)] [] [] []) none) .rMut

theorem normProjTys_lattice_mutSlice : ∃ n1 n2, normalizeProjTy ((∅ : IdSet Nat).insert 1) mutSlice = .ok n1 ∧
    normalizeProjTy ((∅ : IdSet Nat).insert 2) mutSlice = .ok n2 ∧ ∃ u, normProjTysUnion true n1 n2 = .ok u := by
  let lookup : Bool → Region → IdSet Nat → Except Exn Bool := fun _ r rset => .ok (inSet rset r)
  have hlookup : TestsRegions lookup := ⟨fun _ _ _ => rfl, fun _ => rfl⟩
  obtain ⟨n1, n2, _, h1, h2, _, _, hstrict, _⟩ :=
    normProjTys_lattice (fun _ => "") hlookup (show mutSlice.plain = true from rfl) ((∅ : IdSet Nat).insert 1)
      ((∅ : IdSet Nat).insert 2)
  refine ⟨n1, n2, h1, h2, hstrict.mpr fun r _ hin => ?_⟩
  simp only [Std.ExtTreeSet.mem_insert, Std.ExtTreeSet.not_mem_empty, or_false, Nat.compare_eq_eq] at hin
  omega

end Aeneas.Interp
