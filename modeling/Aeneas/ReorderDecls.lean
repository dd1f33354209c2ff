import Aeneas.PureVisitor
import Aeneas.SccSound

/-!
# Grouping the function declarations

The declarations are grouped by mutual recursion and reordered so that a group
comes after the groups it calls. The dependencies are collected from the
qualifiers of the bodies and restricted to the declarations to reorder.
-/

namespace Aeneas.ReorderDecls

open Aeneas.Pure Scc Relation List

structure FunId where
  defId : FunDeclId
  lpId : Option (LoopId × Bool)
deriving DecidableEq

def compareFunId : FunId → FunId → Ordering :=
  compareLex (compareOn FunId.defId)
    (compareLex (compareOn fun id => id.lpId.map Prod.fst) (compareOn fun id => id.lpId.map Prod.snd))

instance : Ord FunId := ⟨compareFunId⟩

instance : Std.TransOrd FunId := inferInstanceAs (Std.TransCmp (compareLex _ _))

instance : Std.LawfulEqOrd FunId where
  eq_of_compare {a b} h := by
    obtain ⟨a, la⟩ := a
    obtain ⟨b, lb⟩ := b
    obtain ⟨h₁, h₂⟩ := compareLex_eq_eq.mp h
    obtain ⟨h₂, h₃⟩ := compareLex_eq_eq.mp h₂
    obtain rfl : a = b := Std.LawfulEqCmp.eq_of_compare h₁
    have h₂ : la.map Prod.fst = lb.map Prod.fst := Std.LawfulEqCmp.eq_of_compare h₂
    have h₃ : la.map Prod.snd = lb.map Prod.snd := Std.LawfulEqCmp.eq_of_compare h₃
    cases la <;> cases lb <;> simp_all [Prod.ext_iff]

def visitQualif (q : Qualif) (ids : IdSet FunId) : IdSet FunId :=
  match q.id with
  | .funOrOp (.unop _) | .funOrOp (.binop _) | .global _ | .adtCons _ | .proj _ | .scalarValProj _
  | .traitConst _ _ | .mkDynTrait _ | .loopOp => ids
  | .funOrOp (.funE fid) =>
    match fid with
    | .pure _ => ids
    | .fromLlbc fid lpId =>
      match fid with
      | .traitMethod _ _ => ids
      | .funId fid => ids.insert { defId := fid, lpId }

def computeBodyFunDeps (e : Texpr) : IdSet FunId := e.visit (iterQualif visitQualif) ∅

def getFunId (decl : FunDecl) : FunId := { defId := decl.defId, lpId := decl.loopId }

def declDeps (ids : IdSet FunId) (decl : FunDecl) : FunId × IdSet FunId :=
  match decl.body with
  | none => (getFunId decl, ∅)
  | some body => (getFunId decl, computeBodyFunDeps body.body ∩ ids)

def isRecGroup (deps : IdMap FunId (IdSet FunId)) : List FunId → Except Exn Bool
  | [] => .error (.failure "Unreachable")
  | [id] => do
    let depIds ← find deps id
    .ok (depIds.contains id)
  | _ => .ok true

def groupReorderFunDecls (sccList : Digraph → List (List Nat)) (fuel : Nat) (decls : List FunDecl) :
    Except Exn (List (Bool × List FunDecl)) := do
  let idl := decls.map getFunId
  let ids : IdSet FunId := .ofList idl
  let deps := decls.map (declDeps ids)
  let sccs ← compute sccList fuel deps
  let deps : IdMap FunId (IdSet FunId) := .ofList deps
  let decls : IdMap FunId FunDecl := .ofList (decls.map fun d => (getFunId d, d))
  sccs.sccs.toList.mapM fun p => do
    let isRec ← isRecGroup deps p.2
    let decls ← p.2.mapM (find decls)
    .ok (isRec, decls)

/-! ## Dependencies and calls -/

def IsCallTo (id : FunId) (q : Qualif) : Prop :=
  q.id = .funOrOp (.funE (.fromLlbc (.funId id.defId) id.lpId))

theorem mem_visitQualif {q : Qualif} {ids : IdSet FunId} {id : FunId} :
    id ∈ visitQualif q ids ↔ IsCallTo id q ∨ id ∈ ids := by
  obtain ⟨qid, generics⟩ := q
  obtain ⟨defId, lpId⟩ := id
  unfold visitQualif IsCallTo
  split <;> simp_all
  split <;> simp_all
  split <;> simp_all

theorem mem_runAll {id : FunId} {Q : Texpr → Prop} : ∀ {l : List (Scoped Texpr)},
    (∀ c ∈ l, ∀ s, id ∈ c.2.visit (iterQualif visitQualif) s ↔ Q c.2 ∨ id ∈ s) → ∀ s,
    (id ∈ runAll (l.map fun c => (c.1, c.2.visit (iterQualif visitQualif))) s ↔ (∃ c ∈ l, Q c.2) ∨ id ∈ s)
  | [], _, s => by simp [runAll]
  | c :: l, h, s => by
    have ih := mem_runAll (fun d hd => h d (mem_cons_of_mem c hd)) (c.2.visit (iterQualif visitQualif) s)
    have hc := h c (by simp) s
    simp only [runAll, map_cons, foldl_cons] at ih ⊢
    rw [ih, hc]
    simp only [mem_cons, exists_eq_or_imp]
    rw [← or_assoc, or_comm (b := Q c.2)]

theorem mem_visit (id : FunId) (e : Texpr) :
    ∀ s, id ∈ e.visit (iterQualif visitQualif) s ↔ (∃ q, e.Mentions q ∧ IsCallTo id q) ∨ id ∈ s := by
  induction e using Texpr.induct with
  | h e ty ih =>
    intro s
    have hnode : id ∈ e.onQualif visitQualif s ↔ (∃ q, e = .qualif q ∧ IsCallTo id q) ∨ id ∈ s := by
      cases e <;> simp [Expr.onQualif, mem_visitQualif]
    rw [Texpr.visit_iterQualif, mem_runAll (Q := fun c => ∃ q, c.Mentions q ∧ IsCallTo id q) ih, hnode, ← or_assoc]
    refine or_congr_left ⟨?_, ?_⟩
    · rintro (⟨c, hc, q, hq, hid⟩ | ⟨q, hq, hid⟩)
      · exact ⟨q, Texpr.mentions_mk.mpr (.inr ⟨c, hc, hq⟩), hid⟩
      · exact ⟨q, Texpr.mentions_mk.mpr (.inl hq), hid⟩
    · rintro ⟨q, hq, hid⟩
      rcases Texpr.mentions_mk.mp hq with hq | ⟨c, hc, hq⟩
      · exact .inr ⟨q, hq, hid⟩
      · exact .inl ⟨c, hc, q, hq, hid⟩

def Calls (d d' : FunDecl) : Prop :=
  ∃ body, d.body = some body ∧ ∃ q, body.body.Mentions q ∧ IsCallTo (getFunId d') q

def CallsIn (decls : List FunDecl) (d d' : FunDecl) : Prop := d ∈ decls ∧ d' ∈ decls ∧ Calls d d'

theorem declDeps_fst (ids : IdSet FunId) (d : FunDecl) : (declDeps ids d).1 = getFunId d := by
  unfold declDeps
  split <;> rfl

variable {decls : List FunDecl}

theorem mem_declDeps {d : FunDecl} {b : FunId} :
    b ∈ (declDeps (.ofList (decls.map getFunId)) d).2 ↔ ∃ d' ∈ decls, getFunId d' = b ∧ Calls d d' := by
  unfold declDeps Calls
  cases hb : d.body with
  | none => simp
  | some body =>
    simp only [Std.ExtTreeSet.mem_inter_iff, mem_ofList_iff, mem_map, computeBodyFunDeps, mem_visit,
      Std.ExtTreeSet.not_mem_empty, or_false, Option.some.injEq, exists_eq_left']
    constructor
    · rintro ⟨hq, d', hd', rfl⟩
      exact ⟨d', hd', rfl, hq⟩
    · rintro ⟨d', hd', rfl, hq⟩
      exact ⟨hq, d', hd', rfl⟩

/-! ## The groups -/

section
variable {decls : List FunDecl} (hids : (decls.map getFunId).Nodup)
include hids

variable {d : FunDecl}

theorem getFunId_inj {d' : FunDecl} (hd : d ∈ decls) (hd' : d' ∈ decls) (h : getFunId d = getFunId d') : d = d' :=
  inj_on_of_nodup_map hids hd hd' h

theorem find_decl (hd : d ∈ decls) :
    find (.ofList (decls.map fun d => (getFunId d, d)) : IdMap FunId FunDecl) (getFunId d) = .ok d := by
  rw [find_eq_ok, getElem?_ofList_iff (by simpa [Function.comp_def] using hids)]
  exact mem_map_of_mem hd

theorem find_deps (hd : d ∈ decls) :
    find (.ofList (decls.map (declDeps (.ofList (decls.map getFunId)))) : IdMap FunId (IdSet FunId)) (getFunId d) =
      .ok (declDeps (.ofList (decls.map getFunId)) d).2 := by
  rw [find_eq_ok, getElem?_ofList_iff (by simpa [Function.comp_def, declDeps_fst] using hids)]
  exact mem_map.mpr ⟨d, hd, Prod.ext (declDeps_fst _ d) rfl⟩

theorem dependsOn_iff (hd : d ∈ decls) {b : FunId} :
    DependsOn (decls.map (declDeps (.ofList (decls.map getFunId)))) (getFunId d) b ↔
      ∃ d' ∈ decls, getFunId d' = b ∧ Calls d d' := by
  rw [← mem_declDeps]
  constructor
  · rintro ⟨p, hp, heq, hb⟩
    obtain ⟨d', hd', rfl⟩ := mem_map.mp hp
    rw [declDeps_fst] at heq
    rwa [getFunId_inj hids hd' hd heq] at hb
  · exact fun hb => ⟨_, mem_map_of_mem hd, declDeps_fst _ d, hb⟩

theorem isRecGroup_ok (ds : List FunDecl) (hds : ∀ d ∈ ds, d ∈ decls) (hne : ds ≠ [])
    (hedge : ∀ d ∈ ds, ∀ d' ∈ ds, d ≠ d' → ∃ x ∈ ds, Calls d x) (hnodup : ds.Nodup) :
    ∃ b, isRecGroup (.ofList (decls.map (declDeps (.ofList (decls.map getFunId))))) (ds.map getFunId) = .ok b ∧
      (b = true ↔ ∃ d ∈ ds, ∃ d' ∈ ds, Calls d d') := by
  match ds, hne with
  | [d], _ =>
    have hd := hds d (by simp)
    refine ⟨_, bind_eq_of_ok (find_deps hids hd) _, ?_⟩
    rw [Std.ExtTreeSet.contains_iff_mem, mem_declDeps]
    simp only [mem_singleton, exists_eq_left]
    constructor
    · rintro ⟨d', hd', heq, hcall⟩
      rwa [getFunId_inj hids hd' hd heq] at hcall
    · exact fun h => ⟨d, hd, rfl, h⟩
  | d :: d' :: ds, _ =>
    refine ⟨true, rfl, ?_⟩
    obtain ⟨x, hx, hcall⟩ := hedge d (by simp) d' (by simp) (by
      rintro rfl
      simp at hnodup)
    exact iff_of_true rfl ⟨d, by simp, x, hx, hcall⟩

end

theorem components_calls (hids : (decls.map getFunId).Nodup) {groups : List (List FunId)}
    (h : Components (· ∈ decls.map getFunId)
      (DependsOn (decls.map (declDeps (.ofList (decls.map getFunId))))) groups)
    {f : FunId → FunDecl} (hf : ∀ d ∈ decls, f (getFunId d) = d) :
    Components (· ∈ decls) (CallsIn decls) (groups.map (map f)) := by
  refine h.map f ?_ ?_ ?_ ?_
  · intro a b ha hb hab
    obtain ⟨d, hd, rfl⟩ := mem_map.mp ha
    obtain ⟨d', hd', rfl⟩ := mem_map.mp hb
    rw [hf d hd, hf d' hd'] at hab
    rw [hab]
  · intro d
    constructor
    · exact fun hd => ⟨getFunId d, mem_map_of_mem hd, hf d hd⟩
    · rintro ⟨a, ha, rfl⟩
      obtain ⟨d, hd, rfl⟩ := mem_map.mp ha
      rwa [hf d hd]
  · intro a b ha hab
    obtain ⟨d, hd, rfl⟩ := mem_map.mp ha
    obtain ⟨d', hd', rfl, hcall⟩ := (dependsOn_iff hids hd).mp hab
    rw [hf d hd, hf d' hd']
    exact ⟨mem_map_of_mem hd', .single ⟨hd, hd', hcall⟩⟩
  · rintro a d' ha ⟨-, hd', hcall⟩
    obtain ⟨d, hd, rfl⟩ := mem_map.mp ha
    rw [hf d hd] at hcall
    exact ⟨getFunId d', mem_map_of_mem hd', hf d' hd', .single ((dependsOn_iff hids hd).mpr ⟨d', hd', rfl, hcall⟩)⟩

/-- The computed groups: the components of the identifiers, in order, read as declarations by `f`. -/
structure Grouping (decls : List FunDecl) (groups : List (List FunId)) (f : FunId → FunDecl) : Prop where
  components : Components (· ∈ decls) (CallsIn decls) (groups.map (map f))
  named : ∀ g ∈ groups, ∀ a ∈ g, ∃ d ∈ decls, getFunId d = a ∧ f a = d
  earlier : ∀ i j, ClassEdge (DependsOn (decls.map (declDeps (.ofList (decls.map getFunId)))))
    (InComponent groups) i j → j < i

theorem groupReorderFunDecls_ok {sccList : Digraph → List (List Nat)} (hscc : SccListCorrect sccList)
    (hids : (decls.map getFunId).Nodup) {fuel : Nat} (hfuel : decls.length ≤ fuel) :
    ∃ groups f, ∃ flag : List FunId → Bool, Grouping decls groups f ∧
      groupReorderFunDecls sccList fuel decls = .ok (groups.map fun g => (flag g, g.map f)) ∧
      ∀ g ∈ groups, flag g = true ↔ ∃ d ∈ g.map f, ∃ d' ∈ g.map f, Calls d d' := by
  have hkeys : (decls.map (declDeps (.ofList (decls.map getFunId)))).map Prod.fst = decls.map getFunId := by
    simp [Function.comp_def, declDeps_fst]
  obtain ⟨r, groups, hr, hsorted⟩ := compute_ok hscc (m := decls.map (declDeps (.ofList (decls.map getFunId))))
    (by rwa [hkeys]) (by
      intro p hp b hb
      obtain ⟨d, hd, rfl⟩ := mem_map.mp hp
      obtain ⟨d', hd', rfl, -⟩ := mem_declDeps.mp hb
      rw [hkeys]
      exact mem_map_of_mem hd') (by simpa using hfuel)
  rw [hkeys] at hsorted
  obtain ⟨f, hf⟩ : ∃ f : FunId → FunDecl, ∀ d ∈ decls, f (getFunId d) = d := by
    refine ⟨fun id => ((Std.ExtTreeMap.ofList (decls.map fun d => (getFunId d, d)) :
      IdMap FunId FunDecl)[id]?).getD ⟨0, none, none⟩, fun d hd => ?_⟩
    simp only [find_eq_ok.mp (find_decl hids hd), Option.getD_some]
  have hcomp := components_calls hids hsorted.components hf
  have hmem : ∀ g ∈ groups, ∀ a ∈ g, ∃ d ∈ decls, getFunId d = a := fun g hg a ha =>
    mem_map.mp ((hsorted.components.mem_flatten a).mp (mem_flatten.mpr ⟨g, hg, ha⟩))
  have hnamed : ∀ g ∈ groups, ∀ a ∈ g, ∃ d ∈ decls, getFunId d = a ∧ f a = d := fun g hg a ha => by
    obtain ⟨d, hd, rfl⟩ := hmem g hg a ha
    exact ⟨d, hd, rfl, hf d hd⟩
  have hback : ∀ g ∈ groups, (g.map f).map getFunId = g := by
    intro g hg
    rw [List.map_map]
    refine (map_congr_left fun a ha => ?_).trans (map_id g)
    obtain ⟨d, hd, rfl⟩ := hmem g hg a ha
    simp [hf d hd]
  -- the flag of each group
  let deps : IdMap FunId (IdSet FunId) := .ofList (decls.map (declDeps (.ofList (decls.map getFunId))))
  let flag (g : List FunId) : Bool := (isRecGroup deps g).toOption.getD false
  have hflag : ∀ g ∈ groups, isRecGroup deps g = .ok (flag g) ∧
      (flag g = true ↔ ∃ d ∈ g.map f, ∃ d' ∈ g.map f, Calls d d') := by
    intro g hg
    have hgc : g.map f ∈ groups.map (map f) := mem_map_of_mem hg
    obtain ⟨b, hb, hiff⟩ := isRecGroup_ok hids (g.map f)
      (fun d hd => (hcomp.mem_flatten d).mp (mem_flatten.mpr ⟨_, hgc, hd⟩)) (hcomp.ne_nil _ hgc)
      (fun d hd d' hd' hne => by
        obtain ⟨x, hx, -, -, hcall⟩ := hcomp.exists_edge hgc hd hd' hne
        exact ⟨x, hx, hcall⟩)
      ((nodup_flatten.mp hcomp.nodup).1 _ hgc)
    rw [hback g hg] at hb
    have hb' : flag g = b := by simp only [flag, deps, hb, Except.toOption, Option.getD_some]
    exact ⟨hb'.symm ▸ hb, hb'.symm ▸ hiff⟩
  refine ⟨groups, f, flag, ⟨hcomp, hnamed, hsorted.earlier⟩, ?_, fun g hg => (hflag g hg).2⟩
  rw [groupReorderFunDecls, bind_eq_of_ok hr, toList_eq_mapIdx hsorted.sccs,
    mapM_ok fun p => (flag p.2, p.2.map f)]
  · congr 1
    refine ext_getElem? fun i => ?_
    cases h : groups[i]? <;> simp [h]
  · intro p hp
    obtain ⟨i, hi, rfl⟩ := mem_mapIdx.mp hp
    have hg := getElem_mem hi
    have hdecls := mapM_ok (l := groups[i]) (f := find (.ofList (decls.map fun d => (getFunId d, d)))) f
      fun a ha => by
        obtain ⟨d, hd, rfl⟩ := hmem _ hg a ha
        rw [find_decl hids hd, hf d hd]
    exact (bind_eq_of_ok (hflag _ hg).1 _).trans (bind_eq_of_ok hdecls _)

/-- Every declaration is in one group, calls go to the same group or to earlier
ones, the groups are the classes of mutual recursion, and the flag tells whether
there are calls inside the group. -/
theorem groupReorderFunDecls_correct {sccList : Digraph → List (List Nat)} (hscc : SccListCorrect sccList)
    {decls : List FunDecl} (hids : (decls.map getFunId).Nodup) {fuel : Nat} (hfuel : decls.length ≤ fuel) :
    ∃ groups, groupReorderFunDecls sccList fuel decls = .ok groups ∧
      (groups.map Prod.snd).flatten.Perm decls ∧
      (∀ (i j : Nat) (g g' : Bool × List FunDecl), groups[i]? = some g → groups[j]? = some g' →
        ∀ d ∈ g.2, ∀ d' ∈ g'.2, Calls d d' → j ≤ i) ∧
      (∀ d ∈ decls, ∀ d' ∈ decls,
        (∃ g ∈ groups, d ∈ g.2 ∧ d' ∈ g.2) ↔ Mutual (CallsIn decls) d d') ∧
      ∀ g ∈ groups, g.1 = true ↔ ∃ d ∈ g.2, ∃ d' ∈ g.2, Calls d d' := by
  obtain ⟨groups, f, flag, ⟨hcomp, hnamed, hearlier⟩, hok, hflag⟩ := groupReorderFunDecls_ok hscc hids hfuel
  refine ⟨_, hok, ?_, ?_, ?_, ?_⟩
  · rw [List.map_map]
    exact (perm_ext_iff_of_nodup hcomp.nodup (List.Nodup.of_map _ hids)).mpr hcomp.mem_flatten
  · intro i j g g' hi hj x hx y hy hcall
    rw [getElem?_map, Option.map_eq_some_iff] at hi hj
    obtain ⟨gi, hi, rfl⟩ := hi
    obtain ⟨gj, hj, rfl⟩ := hj
    obtain ⟨a, ha, rfl⟩ := mem_map.mp hx
    obtain ⟨b, hb, rfl⟩ := mem_map.mp hy
    obtain ⟨d, hd, rfl, hfd⟩ := hnamed gi (mem_of_getElem? hi) a ha
    obtain ⟨d', hd', rfl, hfd'⟩ := hnamed gj (mem_of_getElem? hj) b hb
    rw [hfd, hfd'] at hcall
    by_cases hij : i = j
    · exact hij.ge
    · exact (hearlier i j ⟨hij, _, _, ⟨gi, hi, ha⟩, (dependsOn_iff hids hd).mpr ⟨d', hd', rfl, hcall⟩,
        ⟨gj, hj, hb⟩⟩).le
  · intro d hd d' hd'
    constructor
    · rintro ⟨g, hg, hdg, hdg'⟩
      obtain ⟨ids, hin, rfl⟩ := mem_map.mp hg
      exact (hcomp.component _ (mem_map_of_mem hin) d hdg d').mp hdg'
    · intro hm
      obtain ⟨c, hc, hdc⟩ := mem_flatten.mp ((hcomp.mem_flatten d).mpr hd)
      obtain ⟨ids, hin, rfl⟩ := mem_map.mp hc
      exact ⟨_, mem_map_of_mem hin, hdc, (hcomp.component _ hc d hdc d').mpr hm⟩
  · intro g hg
    obtain ⟨ids, hin, rfl⟩ := mem_map.mp hg
    exact hflag ids hin

def callBody (id : FunDeclId) : FunBody where
  inputs := []
  body := .mk (.app (.mk (.qualif { id := .funOrOp (.funE (.fromLlbc (.funId id) none)), generics := .mk [] [] [] })
    .error) (.mk (.const (.bool true)) .error)) .error

/-- `1` calls `0`, which calls itself. -/
def twoDecls : List FunDecl := [⟨1, none, some (callBody 0)⟩, ⟨0, none, some (callBody 0)⟩]

theorem groupReorderFunDecls_correct_two : ∃ groups, groupReorderFunDecls sccListOf 2 twoDecls = .ok groups ∧
    groups.map (fun g => (g.1, g.2.map FunDecl.defId)) = [(true, [0]), (false, [1])] ∧
    (groups.map Prod.snd).flatten.Perm twoDecls := by
  have hids : (twoDecls.map getFunId).Nodup := by decide
  obtain ⟨groups, hok, hperm, -⟩ := groupReorderFunDecls_correct sccListOf_correct hids (Nat.le_refl 2)
  have hrun : (groupReorderFunDecls sccListOf 2 twoDecls).map
      (fun groups => groups.map fun g => (g.1, g.2.map FunDecl.defId)) = .ok [(true, [0]), (false, [1])] := by
    decide +kernel
  rw [hok] at hrun
  exact ⟨groups, hok, Except.ok.inj hrun, hperm⟩

end Aeneas.ReorderDecls
