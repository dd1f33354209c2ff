import Aeneas.TypesAnalysis
import Mathlib.Data.List.Duplicate

/-!
# The body regions of an analysed type

Before a type is analysed, its body regions are replaced by free ones. A traversal of a
type is determined by what it does to the list of its regions, so the replacement is
followed on that list: the first occurrence of a body region keeps its identifier, the
others get the one that was drawn at the first occurrence.
-/

namespace Aeneas.Llbc

open List

/-! ## A traversal and the list of the regions -/

def nextRegion (_ : Region) : StateM (List Region) Region := do
  match ← get with
  | [] => pure .rErased
  | r :: rs =>
    set rs
    pure r

section
variable {σ : Type} (f : Region → StateM σ Region)

/-- `x` visits the regions `rs` and `y` puts what `x` makes of them in their place. After the regions
`pre`, they are those of the result, which `reg` lists. -/
structure Traverses {α : Type} (pre rs : List Region) (reg : α → List Region) (x : StateM σ α)
    (y : StateM (List Region) α) : Prop where
  fill : ∀ s rest, y.run (((rs.mapM f).run s).1 ++ rest) = ((x.run s).1, rest)
  state : ∀ s, (x.run s).2 = ((rs.mapM f).run s).2
  regions : ∀ s, reg (x.run s).1 = pre ++ ((rs.mapM f).run s).1

variable {f}

variable {α : Type} {pre : List Region} {reg : α → List Region}

theorem Traverses.pure {a : α} (h : reg a = pre) :
    Traverses f pre [] reg (pure a) (pure a) where
  fill _ _ := rfl
  state _ := rfl
  regions _ := by
    rw [mapM_nil]
    exact h.trans (append_nil pre).symm

variable {y : StateM (List Region) α}

theorem Traverses.bind {β : Type} {rs rs' : List Region} {reg' : β → List Region}
    {x : StateM σ α} {k : α → StateM σ β} {l : α → StateM (List Region) β}
    (h : Traverses f [] rs reg x y) (hk : ∀ a, Traverses f (pre ++ reg a) rs' reg' (k a) (l a)) :
    Traverses f pre (rs ++ rs') reg' (x >>= k) (y >>= l) := by
  have happend : ∀ s, ((rs ++ rs').mapM f).run s =
      (((rs.mapM f).run s).1 ++ ((rs'.mapM f).run (x.run s).2).1, ((rs'.mapM f).run (x.run s).2).2) := by
    intro s
    rw [mapM_append, h.state]
    rfl
  refine ⟨?_, ?_, ?_⟩
  · intro s rest
    change (l (y.run _).1).run (y.run _).2 = (((k (x.run s).1).run (x.run s).2).1, rest)
    rw [happend, append_assoc, h.fill]
    exact (hk _).fill _ rest
  · intro s
    rw [happend]
    exact (hk _).state _
  · intro s
    have hx : reg (x.run s).1 = ((rs.mapM f).run s).1 := h.regions s
    rw [happend, ← append_assoc, ← hx]
    exact (hk _).regions _

theorem Traverses.region (r : Region) : Traverses f [] [r] (fun r => [r]) (f r) (nextRegion r) := by
  refine ⟨?_, ?_, ?_⟩ <;> intros <;> rw [mapM_cons, mapM_nil] <;> rfl

theorem Traverses.last {β : Type} {rs : List Region} {reg' : β → List Region}
    {x : StateM σ α} {k : α → β} (h : Traverses f [] rs reg x y)
    (hk : ∀ a, reg' (k a) = pre ++ reg a) :
    Traverses f pre rs reg' (x >>= fun a => Pure.pure (k a)) (y >>= fun a => Pure.pure (k a)) := by
  have hbind := h.bind fun a => Traverses.pure (f := f) (hk a)
  rwa [append_nil] at hbind

theorem Traverses.list (rs : List Region) : Traverses f [] rs id (rs.mapM f) (rs.mapM nextRegion) := by
  induction rs with
  | nil => exact .pure rfl
  | cons r rs ih =>
    rw [mapM_cons, mapM_cons]
    exact (Traverses.region r).bind fun r' => ih.last fun rs' => rfl

mutual

theorem Ty.traverses : ∀ ty : Ty, Traverses f [] ty.regions Ty.regions (ty.mapRegions f) (ty.mapRegions nextRegion)
  | .tAdt _ _ ⟨regions, types, refs⟩ =>
    (Traverses.list regions).bind fun _ => (traversesTys types).bind fun _ => (traversesRefs refs).last fun _ =>
      (append_assoc _ _ _).symm
  | .tRef r ty _ => (Traverses.region r).bind fun _ => ty.traverses.last fun _ => rfl
  | .tRawPtr ty | .tArray ty | .tSlice ty => ty.traverses.last fun _ => rfl
  | .tTraitType ⟨_, regions, types⟩ => (Traverses.list regions).bind fun _ => (traversesTys types).last fun _ => rfl
  | .tFnPtr _ inputs output => (traversesTys inputs).bind fun _ => output.traverses.last fun _ => rfl
  | .tFnDef _ ⟨regions, types, refs⟩ =>
    (Traverses.list regions).bind fun _ => (traversesTys types).bind fun _ => (traversesRefs refs).last fun _ =>
      (append_assoc _ _ _).symm
  | .tVar _ | .tScalar | .tNever | .tDynTrait | .tError | .unsupported => .pure rfl

theorem traversesTys : ∀ tys : List Ty,
    Traverses f [] (regionsTys tys) regionsTys (mapRegionsTys f tys) (mapRegionsTys nextRegion tys)
  | [] => .pure rfl
  | ty :: tys => ty.traverses.bind fun _ => (traversesTys tys).last fun _ => rfl

theorem traversesRefs : ∀ refs : List (TraitRef Ty),
    Traverses f [] (regionsRefs refs) regionsRefs (mapRegionsRefs f refs) (mapRegionsRefs nextRegion refs)
  | [] => .pure rfl
  | ⟨_, regions, types⟩ :: refs =>
    (Traverses.list regions).bind fun _ => (traversesTys types).bind fun _ => (traversesRefs refs).last fun _ =>
      (append_assoc _ _ _).symm

end

end

theorem Ty.mapRegions_eq_iff {σ τ : Type} (f : Region → StateM σ Region) (g : Region → StateM τ Region) (ty : Ty)
    (s : σ) (t : τ) :
    ((ty.mapRegions f).run s).1 = ((ty.mapRegions g).run t).1 ↔
      ((ty.regions.mapM f).run s).1 = ((ty.regions.mapM g).run t).1 := by
  have hf := ty.traverses (f := f)
  have hg := ty.traverses (f := g)
  refine ⟨fun h => ?_, fun h => ?_⟩
  · rw [← nil_append ((ty.regions.mapM f).run s).1, ← hf.regions, h, hg.regions, nil_append]
  · have hfill := hf.fill s []
    rw [h, hg.fill] at hfill
    exact (congrArg Prod.fst hfill).symm

/-! ## The replacement along a list of regions -/

def Region.bodyId : Region → Option RegionId
  | .rBody rid => some rid
  | _ => none

def Ty.bodyRegions (ty : Ty) : List RegionId := ty.regions.filterMap Region.bodyId

def Ty.freeRegions (ty : Ty) : List RegionId := ty.regions.filterMap Region.freeId

/-- The body regions are replaced by the free regions that `ρ` gives. -/
def Region.rename (ρ : RegionId → RegionId) : Region → Region
  | .rBody rid => .rVar (.free (ρ rid))
  | r => r

def Ty.rename (ρ : RegionId → RegionId) (ty : Ty) : Ty :=
  ((ty.mapRegions fun r => (pure (r.rename ρ) : StateM Unit Region)).run ()).1

def drawn (n : RegionId) (seen : List RegionId) (rid : RegionId) : RegionId :=
  n + seen.eraseDups.idxOf rid

def replacement (n : RegionId) (seen : List RegionId) (rid : RegionId) : RegionId :=
  if rid ∈ seen then drawn n seen rid else rid

structure Met (n : RegionId) (seen : List RegionId) (st : RegionId × IdMap RegionId RegionId) : Prop where
  next : st.1 = n + seen.eraseDups.length
  map : ∀ rid : RegionId, st.2[rid]? = if rid ∈ seen then some (drawn n seen rid) else none

variable {n rid : RegionId} {seen : List RegionId}

theorem drawn_append (h : rid ∈ seen) (more : List RegionId) :
    drawn n (seen ++ more) rid = drawn n seen rid := by
  unfold drawn
  rw [eraseDups_append, idxOf_append_of_mem (mem_eraseDups.mpr h)]

theorem eraseDups_snoc_of_mem (h : rid ∈ seen) :
    (seen ++ [rid]).eraseDups = seen.eraseDups := by
  rw [eraseDups_append]
  simp [removeAll, h]

theorem eraseDups_snoc_of_not_mem (h : rid ∉ seen) :
    (seen ++ [rid]).eraseDups = seen.eraseDups ++ [rid] := by
  rw [eraseDups_append]
  simp [removeAll, h, eraseDups_cons]

variable {st : RegionId × IdMap RegionId RegionId}

theorem Met.snoc_of_mem (h : Met n seen st) (hrid : rid ∈ seen) : Met n (seen ++ [rid]) st := by
  refine ⟨by rw [eraseDups_snoc_of_mem hrid, h.next], fun a => ?_⟩
  rw [h.map]
  unfold drawn
  rw [eraseDups_snoc_of_mem hrid]
  have hmem : a ∈ seen ++ [rid] ↔ a ∈ seen := by
    rw [mem_append, mem_singleton]
    exact or_iff_left_of_imp fun h => h ▸ hrid
  simp only [hmem]

variable {next : RegionId} {map : IdMap RegionId RegionId}

theorem Met.snoc_of_not_mem (h : Met n seen (next, map)) (hrid : rid ∉ seen) :
    Met n (seen ++ [rid]) (next + 1, map.insert rid next) := by
  have hnext : next = n + seen.eraseDups.length := h.next
  have hmap : ∀ a : RegionId, map[a]? = if a ∈ seen then some (drawn n seen a) else none := h.map
  refine ⟨?_, fun a => ?_⟩
  · rw [eraseDups_snoc_of_not_mem hrid, length_append, length_singleton, hnext]
    rfl
  · change (map.insert rid next)[a]? = _
    rw [getElem?_insert_eq, hmap]
    by_cases ha : rid = a
    · subst ha
      rw [if_pos rfl, if_pos (by simp)]
      unfold drawn
      rw [eraseDups_snoc_of_not_mem hrid, idxOf_append_of_notMem (by rwa [mem_eraseDups]), hnext]
      simp
    · rw [if_neg ha]
      by_cases hseen : a ∈ seen
      · rw [if_pos hseen, if_pos (mem_append_left _ hseen), drawn_append hseen]
      · rw [if_neg hseen, if_neg]
        rw [mem_append, mem_singleton]
        exact fun h => h.elim hseen fun h => ha h.symm

theorem replaceBodyRegion_of_none (h : map[rid]? = none) :
    (replaceBodyRegion (.rBody rid)).run (next, map) =
      (.rVar (.free rid), (next + 1, map.insert rid next)) := by
  unfold replaceBodyRegion
  simp [h]
  rfl

theorem replaceBodyRegion_of_some {rid' : RegionId}
    (h : map[rid]? = some rid') :
    (replaceBodyRegion (.rBody rid)).run (next, map) = (.rVar (.free rid'), (next, map)) := by
  unfold replaceBodyRegion
  simp [h]
  rfl

theorem replaceBodyRegion_met (h : Met n seen st) (r : Region) :
    ((replaceBodyRegion r).run st).1 = r.rename (replacement n seen) ∧
      Met n (seen ++ r.bodyId.toList) ((replaceBodyRegion r).run st).2 := by
  have hnil : Met n (seen ++ []) st := (append_nil seen).symm ▸ h
  cases r with
  | rStatic | rVar v | rErased => exact ⟨rfl, hnil⟩
  | rBody rid =>
    obtain ⟨next, map⟩ := st
    have hmap : map[rid]? = if rid ∈ seen then some (drawn n seen rid) else none := h.map rid
    have hrename : (Region.rBody rid).rename (replacement n seen) =
        .rVar (.free (if rid ∈ seen then drawn n seen rid else rid)) := rfl
    rw [hrename]
    by_cases hseen : rid ∈ seen
    · rw [if_pos hseen] at hmap
      rw [replaceBodyRegion_of_some hmap, if_pos hseen]
      exact ⟨rfl, h.snoc_of_mem hseen⟩
    · rw [if_neg hseen] at hmap
      rw [replaceBodyRegion_of_none hmap, if_neg hseen]
      exact ⟨rfl, h.snoc_of_not_mem hseen⟩

theorem mapM_replaceBodyRegion_iff (h : Met n seen st) (ρ : RegionId → RegionId) (rs : List Region) :
    ((rs.mapM replaceBodyRegion).run st).1 = rs.map (Region.rename ρ) ↔
      ∀ pre rid post, rs.filterMap Region.bodyId = pre ++ rid :: post → replacement n (seen ++ pre) rid = ρ rid := by
  induction rs generalizing seen st with
  | nil => exact iff_of_true rfl (by simp)
  | cons r rs ih =>
    obtain ⟨hr, hmet⟩ := replaceBodyRegion_met h r
    have hrun : (((r :: rs).mapM replaceBodyRegion).run st).1 =
        ((replaceBodyRegion r).run st).1 :: ((rs.mapM replaceBodyRegion).run ((replaceBodyRegion r).run st).2).1 := by
      rw [mapM_cons]
      rfl
    rw [hrun, map_cons, cons_eq_cons, ih hmet, hr]
    cases hb : r.bodyId with
    | none =>
      have hsame : ∀ ρ', r.rename ρ' = r := by
        intro ρ'
        cases r <;> first | rfl | simp [Region.bodyId] at hb
      rw [hsame, hsame, filterMap_cons_none hb]
      simp
    | some rid =>
      obtain rfl : r = .rBody rid := by cases r <;> simp_all [Region.bodyId]
      rw [filterMap_cons_some hb]
      have hhead : (Region.rBody rid).rename (replacement n seen) = (Region.rBody rid).rename ρ ↔
          replacement n seen rid = ρ rid := by simp [Region.rename]
      rw [hhead]
      refine ⟨?_, fun hall => ⟨by simpa using hall [] rid _ rfl, ?_⟩⟩
      · rintro ⟨hfirst, hrest⟩ pre rid' post hsplit
        rcases cons_eq_append_iff.mp hsplit with ⟨rfl, hcons⟩ | ⟨pre', rfl, hpre⟩
        · obtain ⟨rfl, -⟩ := cons_eq_cons.mp hcons
          simpa using hfirst
        · simpa using hrest pre' rid' post hpre
      · intro pre rid' post hsplit
        simpa using hall (rid :: pre) rid' post (by rw [hsplit, cons_append])

/-! ## The renaming -/

theorem Ty.rename_regions (ρ : RegionId → RegionId) (ty : Ty) :
    ((ty.regions.mapM fun r => (pure (r.rename ρ) : StateM Unit Region)).run ()).1 = ty.regions.map
      (Region.rename ρ) := by
  rw [mapM_pure]
  rfl

/-- A renaming of the body regions which is consistent and injective, and fresh for the free regions of the type. -/
def IsFreshRenaming (ty ty' : Ty) : Prop :=
  ∃ ρ : RegionId → RegionId, ty' = ty.rename ρ ∧
    (∀ a ∈ ty.bodyRegions, ∀ b ∈ ty.bodyRegions, ρ a = ρ b → a = b) ∧ ∀ a ∈ ty.bodyRegions, ρ a ∉ ty.freeRegions

theorem tyReplaceBodyRegions_eq_rename_iff (ty : Ty) (ρ : RegionId → RegionId) :
    tyReplaceBodyRegionsWithFreeRegions ty = ty.rename ρ ↔
      ∀ pre rid post, ty.bodyRegions = pre ++ rid :: post → replacement (firstFreshRegion ty) pre rid = ρ rid := by
  have hmet : Met (firstFreshRegion ty) [] (firstFreshRegion ty, ∅) := ⟨rfl, by simp⟩
  have hlist := mapM_replaceBodyRegion_iff hmet ρ ty.regions
  simp only [nil_append] at hlist
  unfold tyReplaceBodyRegionsWithFreeRegions Ty.rename
  rw [Ty.mapRegions_eq_iff, Ty.rename_regions]
  exact hlist

theorem exists_split_of_duplicate {l : List RegionId} {a : RegionId} (h : List.Duplicate a l) :
    ∃ pre post, l = pre ++ a :: post ∧ a ∈ pre := by
  induction h with
  | cons_mem hmem =>
    obtain ⟨pre, post, rfl⟩ := append_of_mem hmem
    exact ⟨a :: pre, post, rfl, by simp⟩
  | cons_duplicate hdup ih =>
    obtain ⟨pre, post, rfl, hpre⟩ := ih
    exact ⟨_ :: pre, post, rfl, mem_cons_of_mem _ hpre⟩

theorem duplicate_of_split {pre post : List RegionId} {a : RegionId} (h : a ∈ pre) :
    List.Duplicate a (pre ++ a :: post) := by
  rw [duplicate_iff_two_le_count, count_append, count_cons_self]
  have hpos := count_pos_iff.mpr h
  omega

/-- The first occurrence of a body region keeps its identifier, so no body region may be one of the free regions; a
region that occurs again must be the very identifier which is drawn for it. -/
theorem tyReplaceBodyRegions_iff (ty : Ty) :
    IsFreshRenaming ty (tyReplaceBodyRegionsWithFreeRegions ty) ↔
      (∀ rid ∈ ty.bodyRegions, rid ∉ ty.freeRegions) ∧
      ∀ rid, List.Duplicate rid ty.bodyRegions → drawn (firstFreshRegion ty) ty.bodyRegions rid = rid := by
  unfold IsFreshRenaming
  simp only [tyReplaceBodyRegions_eq_rename_iff]
  refine ⟨?_, ?_⟩
  · rintro ⟨ρ, hρ, -, hfresh⟩
    have hfirst : ∀ rid ∈ ty.bodyRegions, ρ rid = rid := by
      intro rid hrid
      obtain ⟨pre, post, hsplit, hpre⟩ := eq_append_cons_of_mem hrid
      have h := hρ pre rid post hsplit
      rw [replacement, if_neg hpre] at h
      exact h.symm
    refine ⟨fun rid hrid => hfirst rid hrid ▸ hfresh rid hrid, fun rid hdup => ?_⟩
    obtain ⟨pre, post, hsplit, hpre⟩ := exists_split_of_duplicate hdup
    have h := hρ pre rid post hsplit
    rw [replacement, if_pos hpre, hfirst rid hdup.mem] at h
    rw [hsplit, drawn_append hpre, h]
  · rintro ⟨hfree, hdup⟩
    refine ⟨id, fun pre rid post hsplit => ?_, fun _ _ _ _ h => h, hfree⟩
    unfold replacement
    by_cases hpre : rid ∈ pre
    · rw [if_pos hpre]
      have h := hdup rid (hsplit ▸ duplicate_of_split hpre)
      rwa [hsplit, drawn_append hpre] at h
    · rw [if_neg hpre]
      rfl

/-- Both borrows have the body region 5, and become borrows with the regions 5 and 0. -/
def sameBodyRegion : Ty := .tRef (.rBody 5) (.tRef (.rBody 5) .tScalar .rShared) .rShared

/-- The body region 0 becomes the free region 0 of the type. -/
def bodyAndFreeRegion : Ty := .tRef (.rBody 0) (.tRef (.rVar (.free 0)) .tScalar .rShared) .rShared

theorem tyReplaceBodyRegions_not_fresh :
    tyReplaceBodyRegionsWithFreeRegions sameBodyRegion =
      .tRef (.rVar (.free 5)) (.tRef (.rVar (.free 0)) .tScalar .rShared) .rShared ∧
    ¬ IsFreshRenaming sameBodyRegion (tyReplaceBodyRegionsWithFreeRegions sameBodyRegion) ∧
    tyReplaceBodyRegionsWithFreeRegions bodyAndFreeRegion =
      .tRef (.rVar (.free 0)) (.tRef (.rVar (.free 0)) .tScalar .rShared) .rShared ∧
    ¬ IsFreshRenaming bodyAndFreeRegion (tyReplaceBodyRegionsWithFreeRegions bodyAndFreeRegion) := by
  refine ⟨rfl, ?_, rfl, ?_⟩
  · rintro ⟨ρ, hρ, -, -⟩
    have hsplit := (tyReplaceBodyRegions_eq_rename_iff sameBodyRegion ρ).mp hρ
    have hfirst : 5 = ρ 5 := hsplit [] 5 [5] rfl
    have hsecond : 0 = ρ 5 := hsplit [5] 5 [] rfl
    exact absurd (hfirst.trans hsecond.symm) (by decide)
  · rintro ⟨ρ, hρ, -, hfresh⟩
    have hfirst : 0 = ρ 0 := (tyReplaceBodyRegions_eq_rename_iff bodyAndFreeRegion ρ).mp hρ [] 0 [] rfl
    refine hfresh 0 (by decide) ?_
    rw [← hfirst]
    decide

end Aeneas.Llbc
