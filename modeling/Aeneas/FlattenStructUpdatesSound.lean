import Mathlib.Data.List.Flatten
import Aeneas.FlattenStructUpdates

/-!
# The flattening of the structure updates is correct

Each step of the visit keeps the scopes and the values, and leaves no update of an
update and no projection of an update. The updates which are visited twice have
nothing left to flatten, so the second visit ends.
-/

namespace Aeneas.Pure

namespace FlattenStructUpdates

open Fuel Texpr List

/-! ## Normal forms -/

def Flat : Expr → Prop
  | .structUpdate s => ∀ init, s.init = some init → ¬ IsUpdate init
  | .app f x => (projField f).isSome = true → ¬ IsUpdate x
  | _ => True

def Normal (e : Texpr) : Prop := e.AllNodes Flat

section
variable {visit : Texpr → Except Exn Texpr} {us us' : List (FieldId × Texpr)}

theorem VisitedUpdates.forall {P : Texpr → Prop} (h : VisitedUpdates visit us us')
    (hP : ∀ {x x'}, visit x = .ok x' → P x') :
    ∀ u ∈ us', P u.2 := by
  intro u hu
  obtain ⟨v, -, -, hv⟩ := exists_of_forall₂ h hu
  exact hP hv

theorem normal_app {f x : Texpr} {ty : Ty} : Normal (.mk (.app f x) ty) ↔
    ((projField f).isSome = true → ¬ IsUpdate x) ∧ Normal f ∧ Normal x := by
  refine allNodes_mk.trans (and_congr_right fun _ => ?_)
  simp [Expr.children, Normal]

theorem normal_update {structId : TypeId} {init : Option Texpr} {ty : Ty} :
    Normal (.mk (.structUpdate { structId, init, updates := us }) ty) ↔
      (∀ x, init = some x → ¬ IsUpdate x ∧ Normal x) ∧ ∀ u ∈ us, Normal u.2 := by
  refine allNodes_mk.trans ?_
  constructor
  · rintro ⟨hflat, hchildren⟩
    refine ⟨fun x hx => ⟨hflat x hx, hchildren (.none, x) ?_⟩, fun u hu => hchildren (.none, u.2) ?_⟩
    · subst hx
      exact mem_append_left _ (mem_singleton_self _)
    · exact mem_append_right _ (mem_map.mpr ⟨u, hu, rfl⟩)
  · rintro ⟨hinit, hus⟩
    refine ⟨fun x hx => (hinit x hx).1, fun c hc => ?_⟩
    rcases mem_append.mp hc with hc | hc
    · obtain ⟨x, hx, rfl⟩ := mem_map.mp hc
      exact (hinit x (Option.mem_toList.mp hx)).2
    · obtain ⟨u, hu, rfl⟩ := mem_map.mp hc
      exact hus u hu

variable {e : Expr}

theorem Reduced.normal {f arg : Texpr} (h : Reduced f arg e) (hf : Normal f) (harg : Normal arg) (ty : Ty) :
    Normal (.mk e ty) := by
  obtain ⟨arg, aty⟩ := arg
  cases h with
  | app h => exact normal_app.mpr ⟨h, hf, harg⟩
  | @field fid s u _ heq hu =>
    obtain rfl : arg = .structUpdate s := heq
    have hfield := (normal_update.mp harg).2 u (mem_of_find?_eq_some hu)
    rw [← u.2.mk_e_ty] at hfield
    exact allNodes_retype ty hfield
  | @base fid s init _ heq _ hinit =>
    obtain rfl : arg = .structUpdate s := heq
    obtain ⟨hbase, hnormal⟩ := (normal_update.mp harg).1 init hinit
    exact normal_app.mpr ⟨fun _ => hbase, hf, hnormal⟩

theorem flat_rebuild {cs : List (Scoped Texpr)} (happ : ∀ f x, e ≠ .app f x)
    (hupdate : ∀ s, e = .structUpdate s → s.init = none) : Flat (e.rebuild cs) := by
  have hidx := e.rebuild_ctorIdx cs
  cases hr : e.rebuild cs with
  | app f x =>
    rw [hr] at hidx
    cases e with
    | app g y => exact absurd rfl (happ g y)
    | _ => cases hidx
  | structUpdate s =>
    rw [hr] at hidx
    cases e with
    | structUpdate s₁ =>
      obtain ⟨structId, init, us⟩ := s₁
      obtain rfl : init = none := hupdate _ rfl
      cases hr
      intro x hx
      cases hx
    | _ => cases hidx
  | _ => trivial

theorem visited_normal (hvisit : ∀ {x x'}, visit x = .ok x' → Normal x') {e' : Expr} (ty : Ty)
    (h : Visited visit e e') :
    Normal (.mk e' ty) := by
  cases h with
  | node happ hupdate hcs =>
    have hfits : Fits e.children _ := hcs.imp fun c c' hc => hc.1 ▸ c.1.like_refl
    refine allNodes_mk.mpr ⟨flat_rebuild happ hupdate, ?_⟩
    rw [(Expr.children_rebuild hfits hfits).1]
    intro c' hc'
    obtain ⟨c, -, -, hc⟩ := exists_of_forall₂ hcs hc'
    exact hvisit hc
  | app hf harg hreduced => exact hreduced.normal (hvisit hf) (hvisit harg) ty
  | update hinit hus hbase =>
    refine normal_update.mpr ⟨fun x hx => ?_, hus.forall hvisit⟩
    obtain rfl := Option.some.inj hx
    exact ⟨hbase, hvisit hinit⟩
  | flatten hinit hus hvs =>
    refine normal_update.mpr ⟨(normal_update.mp (hvisit hinit)).1, ?_⟩
    exact forall_mem_append.mpr ⟨hvs.forall hvisit, hus.forall hvisit⟩

end

variable {cfg : FuelConfig} {n : Nat} {x x' : Texpr}

theorem visit_normal (h : onTexpr (visitExpr cfg n) x = .ok x') : Normal x' :=
  visit_induct (R := fun _ x' => Normal x') (fun hvisit _ _ ty h => visited_normal hvisit ty h) h

/-! ## Scopes -/

section
variable {visit : Texpr → Except Exn Texpr} {us us' vs vs' : List (FieldId × Texpr)} {ctx : Ctx}

theorem isNode_structUpdate (s : StructUpdate Texpr) : (Expr.structUpdate s).IsNode := ⟨nofun, nofun⟩

variable {ty : Ty}

theorem openedIn_update {structId : TypeId} {init : Option Texpr} :
    (mk (.structUpdate { structId, init, updates := us }) ty).OpenedIn (fun _ => false) ctx ↔
      (∀ x, init = some x → x.OpenedIn (fun _ => false) ctx) ∧ ∀ u ∈ us, u.2.OpenedIn (fun _ => false) ctx := by
  rw [openedIn_node (isNode_structUpdate _)]
  simp only [Expr.children, StructUpdate.children, forall_mem_append, forall_mem_map, Option.mem_toList]
  refine and_congr (forall_congr' fun x => imp_congr_right fun _ => ?_) (forall_congr' fun u => imp_congr_right fun _ =>
    ?_)
  · exact ⟨fun h => h.2, fun h => ⟨rfl, h⟩⟩
  · exact ⟨fun h => h.2, fun h => ⟨rfl, h⟩⟩

def updatesIds (us : List (FieldId × Texpr)) : List FVarId := us.flatMap fun u => u.2.binderIds

theorem binderIds_update {structId : TypeId} {init : Option Texpr} :
    (mk (.structUpdate { structId, init, updates := us }) ty).binderIds =
      init.toList.flatMap binderIds ++ updatesIds us := by
  rw [binderIds_node (isNode_structUpdate _), Expr.children, StructUpdate.children, flatMap_append,
    flatMap_map, flatMap_map]
  rfl

theorem VisitedUpdates.keeps
    (hvisit : ∀ {x x'}, visit x = .ok x' → ∀ {ctx}, x.OpenedIn (fun _ => false) ctx → x.Keeps ctx x')
    (h : VisitedUpdates visit us us') (hopened : ∀ u ∈ us, u.2.OpenedIn (fun _ => false) ctx) :
    (∀ u ∈ us', u.2.OpenedIn (fun _ => false) ctx) ∧ ∀ f, (updatesIds us').count f ≤ (updatesIds us).count f := by
  induction h with
  | nil => exact ⟨fun u hu => (not_mem_nil hu).elim, fun f => Nat.le_refl _⟩
  | cons hu _ ih =>
    obtain ⟨hopened₁, hopened⟩ := forall_mem_cons.mp hopened
    obtain ⟨ihopened, ihcount⟩ := ih hopened
    have hkeeps := hvisit hu.2 hopened₁
    refine ⟨forall_mem_cons.mpr ⟨hkeeps.opened, ihopened⟩, fun f => ?_⟩
    have := hkeeps.count f
    have := ihcount f
    simp only [updatesIds, flatMap_cons, count_append] at *
    omega

theorem count_notUpdated (f : FVarId) : (updatesIds (notUpdated us vs)).count f ≤ (updatesIds vs).count f :=
  (filter_sublist.flatMap _).count_le f

theorem Reduced.keeps {f arg : Texpr} {e : Expr} (h : Reduced f arg e)
    (hopened : (mk (.app f arg) ty).OpenedIn (fun _ => false) ctx) (ty' : Ty) :
    (mk (.app f arg) ty).Keeps ctx (.mk e ty') := by
  obtain ⟨hf, harg⟩ := (openedIn_app ..).mp hopened
  obtain ⟨arg, aty⟩ := arg
  have hkeeps : (mk (.app f (.mk arg aty)) ty).Keeps ctx (.mk arg aty) :=
    keeps_child hopened (by simp [Expr.children])
  cases h with
  | app => exact (keeps_refl hopened).retype ty ty'
  | @field fid s u _ heq hu =>
    obtain rfl : arg = .structUpdate s := heq
    have hfield : (mk (.structUpdate s) aty).Keeps ctx u.2 := keeps_child harg
      (mem_append_right _ (mem_map.mpr ⟨u, mem_of_find?_eq_some hu, rfl⟩))
    have htrans := hkeeps.trans hfield
    rw [← u.2.mk_e_ty] at htrans
    exact htrans.retype ty ty'
  | @base fid s init _ heq _ hinit =>
    obtain rfl : arg = .structUpdate s := heq
    have hbase : (mk (.structUpdate s) aty).Keeps ctx init := keeps_child harg
      (mem_append_left _ (mem_map.mpr ⟨init, Option.mem_toList.mpr hinit, rfl⟩))
    exact keeps_node (Expr.isNode_app ..) hopened (.cons (b := (.none, f)) ⟨rfl, keeps_refl hf⟩
      (.cons (b := (.none, init)) ⟨rfl, hbase⟩ .nil)) ty'

theorem visited_keeps (hvisit : ∀ {x x'}, visit x = .ok x' → ∀ {ctx}, x.OpenedIn (fun _ => false) ctx → x.Keeps ctx x')
    {e e' : Expr} (h : Visited visit e e') (hopened : (mk e ty).OpenedIn (fun _ => false) ctx) :
    (mk e ty).Keeps ctx (.mk e' ty) := by
  cases h with
  | node happ hupdate hcs =>
    rcases e.var_or_node with ⟨f, rfl⟩ | ⟨v, rfl⟩ | he
    · exact keeps_refl hopened
    · exact keeps_refl hopened
    · have hchild := (openedIn_node he ty).mp hopened
      have hcs' := (forall₂_and_left _ _).mpr ⟨fun c hc => (hchild c hc).2, hcs⟩
      exact keeps_node he hopened (hcs'.imp fun c c' hc => ⟨hc.2.1, hvisit hc.2.2 hc.1⟩) ty
  | app hf harg hreduced =>
    obtain ⟨hfO, hargO⟩ := (openedIn_app ..).mp hopened
    have happ := keeps_node (Expr.isNode_app ..) hopened (.cons (b := (.none, _)) ⟨rfl, hvisit hf hfO⟩
      (.cons (b := (.none, _)) ⟨rfl, hvisit harg hargO⟩ .nil)) ty
    exact happ.trans (hreduced.keeps happ.opened ty)
  | update hinit hus hbase =>
    obtain ⟨hinitO, husO⟩ := openedIn_update.mp hopened
    have hkeeps := hvisit hinit (hinitO _ rfl)
    obtain ⟨husO', hcount⟩ := hus.keeps hvisit husO
    refine ⟨openedIn_update.mpr ⟨fun x hx => Option.some.inj hx ▸ hkeeps.opened, husO'⟩, fun f => ?_⟩
    have := hkeeps.count f
    have := hcount f
    simp only [binderIds_update, Option.toList, flatMap_singleton, count_append]
    omega
  | flatten hinit hus hvs =>
    obtain ⟨hinitO, husO⟩ := openedIn_update.mp hopened
    have hkeeps := hvisit hinit (hinitO _ rfl)
    obtain ⟨hbaseO, hvsO⟩ := openedIn_update.mp hkeeps.opened
    obtain ⟨husO', hcount⟩ := hus.keeps hvisit husO
    obtain ⟨hvsO', hcount'⟩ := hvs.keeps hvisit fun u hu => hvsO u (mem_of_mem_filter hu)
    refine ⟨openedIn_update.mpr ⟨hbaseO, forall_mem_append.mpr ⟨hvsO', husO'⟩⟩, fun f => ?_⟩
    have h₁ := hkeeps.count f
    have h₂ := hcount f
    have h₃ := Nat.le_trans (hcount' f) (count_notUpdated f)
    simp only [binderIds_update, Option.toList, flatMap_singleton, count_append, updatesIds, flatMap_append] at *
    omega

end

theorem visit_keeps (h : onTexpr (visitExpr cfg n) x = .ok x') {ctx : Ctx}
    (hopened : x.OpenedIn (fun _ => false) ctx) : x.Keeps ctx x' :=
  visit_induct (R := fun x x' => ∀ {ctx}, x.OpenedIn (fun _ => false) ctx → x.Keeps ctx x')
    (fun hvisit _ _ _ h _ hopened => visited_keeps hvisit h hopened) h hopened

/-! ## Values -/

section
variable {D X : Type} {I : Interp D X} {isCall : FunKey → Bool} {call : FunCalls D X}
  {visit : Texpr → Except Exn Texpr} {us us' vs vs' : List (FieldId × Texpr)}

variable (I isCall call) in
def Refines (x x' : Texpr) :
    Prop := ∀ env args, refinedOutcome.Rel (x.eval I isCall call env args) (x'.eval I isCall call env args)

variable (I isCall call) in
def evalFields (env : Env D X) (us : List (FieldId × Texpr)) : Option (List (FieldId × Value X)) :=
  evalUpdates env (us.map fun u => (u.1, u.2.eval I isCall call))

variable (hvisit : ∀ {x x'}, visit x = .ok x' → Refines I isCall call x x')

include hvisit in
theorem VisitedUpdates.refines (h : VisitedUpdates visit us us') (env : Env D X) :
    refinedOutcome.Rel (evalFields I isCall call env us) (evalFields I isCall call env us') := by
  induction h with
  | nil => exact refinedOutcome.refl _
  | cons hu _ ih =>
    simp only [evalFields, map_cons, evalUpdates, hu.1]
    exact refinedOutcome.bind (hvisit hu.2 env []) fun v _ => refinedOutcome.bind ih fun vs _ => refinedOutcome.refl _

variable {env : Env D X}

theorem eval_update {structId : TypeId} {init : Option Texpr} {ty : Ty} {args : List (Value X)} {r : Value X} :
    (mk (.structUpdate { structId, init, updates := us }) ty).eval I isCall call env args = some r ↔
      ∃ v ws w, evalInit (init.map (eval I isCall call)) env = some v ∧ evalFields I isCall call env us = some ws ∧
        I.struct env.generics structId v ws = some w ∧ I.applyTo w args = some r := by
  rw [eval_structUpdate]
  simp only [Option.bind_eq_some_iff, evalFields]
  constructor
  · rintro ⟨v, hv, ws, hws, w, hw, hr⟩
    exact ⟨v, ws, w, hv, hws, hw, hr⟩
  · rintro ⟨v, ws, w, hv, hws, hw, hr⟩
    exact ⟨v, hv, ws, hws, w, hw, hr⟩

variable {ws : List (FieldId × Value X)}

theorem evalFields_find (fid : FieldId)
    (h : evalFields I isCall call env us = some ws) : (us.find? (isField fid) = none → ws.find? (isField fid) = none) ∧
      ∀ u, us.find? (isField fid) = some u → ∃ w, ws.find? (isField fid) = some w ∧
        u.2.eval I isCall call env [] = some w.2 := by
  obtain ⟨hnone, hsome⟩ := evalUpdates_find fid h
  have hmap : (us.map fun u => (u.1, u.2.eval I isCall call)).find? (isField fid) =
      (us.find? (isField fid)).map fun u => (u.1, u.2.eval I isCall call) := find?_map ..
  rw [hmap] at hnone hsome
  refine ⟨fun hu => hnone (by rw [hu]; rfl), fun u hu => ?_⟩
  rw [hu] at hsome
  exact hsome _ rfl

theorem evalQualif_proj {q : Qualif} {p : Projection} {d : D} {args : List (Value X)} (hq : q.id = .proj p) :
    evalQualif I isCall call q d args = I.qualif d q args := by
  unfold evalQualif
  rw [hq]

theorem Reduced.refines (hcurried : I.Curried isCall call) (hrecords : I.Records) {f arg : Texpr} {e : Expr}
    (h : Reduced f arg e) (ty : Ty) :
    Refines I isCall call (.mk (.app f arg) ty) (.mk e ty) := by
  intro env args r hr
  obtain ⟨arg, aty⟩ := arg
  cases h with
  | app => exact hr
  | @field fid s u hf heq hu =>
    obtain rfl : arg = .structUpdate s := heq
    obtain ⟨q, p, qty, rfl, hq, rfl⟩ := projField_eq_some hf
    obtain ⟨v, hv, hproj⟩ := Option.bind_eq_some_iff.mp hr
    obtain ⟨v₀, ws, w, -, hws, hw, happly⟩ := eval_update.mp hv
    cases happly
    obtain ⟨x, hx, hfield⟩ := (evalFields_find p.fieldId hws).2 u hu
    have happ := hrecords.proj_field hq hw hx ((evalQualif_proj hq).symm.trans hproj)
    rw [eval_retype u.2.e ty u.2.ty, u.2.mk_e_ty]
    exact eval_append hcurried u.2 hfield happ
  | @base fid s init hf heq hu hinit =>
    obtain rfl : arg = .structUpdate s := heq
    obtain ⟨structId, base, us⟩ := s
    obtain rfl : base = some init := hinit
    obtain ⟨q, p, qty, rfl, hq, rfl⟩ := projField_eq_some hf
    obtain ⟨v, hv, hproj⟩ := Option.bind_eq_some_iff.mp hr
    obtain ⟨v₀, ws, w, hv₀, hws, hw, happly⟩ := eval_update.mp hv
    cases happly
    obtain ⟨x, hx, rfl⟩ := Option.map_eq_some_iff.mp hv₀
    have happ := hrecords.proj_init hq hw ((evalFields_find p.fieldId hws).1 hu) ((evalQualif_proj hq).symm.trans hproj)
    exact Option.bind_eq_some_iff.mpr ⟨x, hx, (evalQualif_proj hq).trans happ⟩

theorem evalFields_notUpdated {xs : List (FieldId × Value X)} (hws : evalFields I isCall call env us = some ws)
    (hxs : evalFields I isCall call env vs = some xs) :
    evalFields I isCall call env (notUpdated us vs) = some (notUpdated ws xs) := by
  have hfst : ws.map Prod.fst = us.map Prod.fst := by
    rw [evalUpdates_fst hws, map_map]
    rfl
  have hfilter := evalUpdates_filter (fun fid => !(us.map Prod.fst).contains fid) hxs
  rw [filter_map] at hfilter
  unfold notUpdated
  rw [hfst]
  exact hfilter

include hvisit in
theorem visited_refines (hI : I.Respects refinedOutcome) (hcurried : I.Curried isCall call) (hrecords : I.Records)
    {e e' : Expr} (ty : Ty) (h : Visited visit e e') : Refines I isCall call (.mk e ty) (.mk e' ty) := by
  intro env args
  cases h with
  | node happ hupdate hcs =>
    rcases e.var_or_node with ⟨f, rfl⟩ | ⟨v, rfl⟩ | he
    · exact refinedOutcome.refl _
    · exact refinedOutcome.refl _
    · refine eval_related hI he rfl (hcs.imp fun c c' hc => relatedScoped_same hc.1 fun hentered args _ => ?_) args
      rw [hentered.eq]
      exact hvisit hc.2 _ args
  | @app f arg f' arg' _ hf harg hreduced =>
    intro r hr
    obtain ⟨v, hv, hr⟩ := Option.bind_eq_some_iff.mp hr
    refine hreduced.refines hcurried hrecords ty env args r
      (Option.bind_eq_some_iff.mpr ⟨v, hvisit harg env [] v hv, ?_⟩)
    exact hvisit hf env (v :: args) r hr
  | update hinit hus hbase =>
    intro r hr
    obtain ⟨v, ws, w, hv, hws, hw, hr⟩ := eval_update.mp hr
    obtain ⟨x, hx, rfl⟩ := Option.map_eq_some_iff.mp hv
    refine eval_update.mpr ⟨_, ws, w, Option.map_eq_some_iff.mpr ⟨x, hvisit hinit env [] x hx, rfl⟩, ?_, hw, hr⟩
    exact hus.refines hvisit env ws hws
  | flatten hinit hus hvs =>
    intro r hr
    obtain ⟨v, ws, w, hv, hws, hw, hr⟩ := eval_update.mp hr
    obtain ⟨x, hx, rfl⟩ := Option.map_eq_some_iff.mp hv
    -- the base is an update after its visit
    obtain ⟨v₀, xs, y, hv₀, hxs, hy, happly⟩ := eval_update.mp (hvisit hinit env [] x hx)
    cases happly
    have hws' := hus.refines hvisit env ws hws
    have hxs' := hvs.refines hvisit env _ (evalFields_notUpdated hws' hxs)
    refine eval_update.mpr ⟨v₀, _, w, hv₀, ?_, hrecords.update hy hw, hr⟩
    unfold evalFields
    rw [map_append]
    exact evalUpdates_append hxs' hws'

end

theorem visit_refines {D X : Type} {I : Interp D X} {isCall : FunKey → Bool} {call : FunCalls D X}
    (hI : I.Respects refinedOutcome) (hcurried : I.Curried isCall call) (hrecords : I.Records)
    (h : onTexpr (visitExpr cfg n) x = .ok x') : Refines I isCall call x x' :=
  visit_induct (R := Refines I isCall call) (fun hvisit _ _ ty h => visited_refines hvisit hI hcurried hrecords ty h) h

/-! ## Termination -/

section
variable {visit : Texpr → Except Exn Texpr} {us us' : List (FieldId × Texpr)}

theorem VisitedUpdates.eq (hvisit : ∀ {x x'}, visit x = .ok x' → Normal x → x' = x) (h : VisitedUpdates visit us us')
    (hnormal : ∀ u ∈ us, Normal u.2) : us' = us := by
  induction h with
  | nil => rfl
  | cons hu _ ih =>
    obtain ⟨hnormal₁, hnormal⟩ := forall_mem_cons.mp hnormal
    rw [ih hnormal]
    exact congrArg (· :: _) (Prod.ext hu.1 (hvisit hu.2 hnormal₁))

theorem visited_eq (hvisit : ∀ {x x'}, visit x = .ok x' → Normal x → x' = x) {e e' : Expr} {ty : Ty}
    (h : Visited visit e e') (hnormal : Normal (.mk e ty)) :
    e' = e := by
  cases h with
  | node happ hupdate hcs =>
    have hchildren := (allNodes_mk.mp hnormal).2
    have hcs' := (forall₂_and_left _ _).mpr ⟨hchildren, hcs⟩
    have heq : List.Forall₂ (fun c c' : Scoped Texpr => c = c') e.children _ :=
      hcs'.imp fun c c' hc => (Prod.ext hc.2.1 (hvisit hc.2.2 hc.1)).symm
    rw [forall₂_eq_eq_eq] at heq
    rw [← heq, Expr.rebuild_children]
  | app hf harg hreduced =>
    obtain ⟨hflat, hfN, hargN⟩ := normal_app.mp hnormal
    obtain rfl := hvisit hf hfN
    obtain rfl := hvisit harg hargN
    cases hreduced with
    | app => rfl
    | field hproj heq _ | base hproj heq _ _ => exact absurd ⟨_, heq⟩ (hflat (by rw [hproj]; rfl))
  | update hinit hus hbase =>
    obtain ⟨hinitN, husN⟩ := normal_update.mp hnormal
    rw [hvisit hinit (hinitN _ rfl).2, hus.eq hvisit husN]
  | flatten hinit hus hvs =>
    obtain ⟨hinitN, husN⟩ := normal_update.mp hnormal
    obtain rfl := hvisit hinit (hinitN _ rfl).2
    exact absurd ⟨_, rfl⟩ (hinitN _ rfl).1

end

section
variable {cfg : FuelConfig}

theorem visit_eq {n : Nat} {x x' : Texpr} (h : onTexpr (visitExpr cfg n) x = .ok x') (hnormal : Normal x) : x' = x :=
  visit_induct (R := fun x x' => Normal x → x' = x)
    (fun hvisit _ _ ty h hnormal => congrArg (mk · ty) (visited_eq hvisit h hnormal)) h hnormal

theorem sanityCheck_ne_outOfFuel {b : Bool} : sanityCheck b ≠ .error .outOfFuel := by
  unfold sanityCheck cassert
  split
  · exact nofun
  · exact nofun

theorem mkAppExpr_ne_outOfFuel (f x : Texpr) : mkAppExpr cfg f x ≠ .error .outOfFuel := by
  unfold mkAppExpr mkApp
  split
  · exact nofun
  · split
    · exact nofun
    · exact nofun

theorem visitApp_ne_outOfFuel (f x : Texpr) : visitApp cfg f x ≠ .error .outOfFuel := by
  unfold visitApp
  split
  · exact mkAppExpr_ne_outOfFuel f x
  · split
    · unfold projUpdate
      split
      · exact nofun
      · split
        · exact nofun
        · exact mkAppExpr_ne_outOfFuel _ _
    · unfold projApp
      split
      · split
        · exact nofun
        · exact nofun
      · exact mkAppExpr_ne_outOfFuel _ _
    · exact mkAppExpr_ne_outOfFuel f x

variable (cfg) in
def Ends (e : Texpr) : Prop := Settles .outOfFuel fun n => onTexpr (visitExpr cfg n) e

theorem settles_mapChildren {e : Expr} (h : ∀ c ∈ e.children, Ends cfg c.2) :
    Settles Exn.outOfFuel fun n => mapChildren (onTexpr (visitExpr cfg n)) e := by
  refine Settles.bind (settles_mapM fun c hc => ?_) fun _ cs _ => settles_ok _
  exact (h c hc).bind fun _ x _ => settles_ok _

theorem settles_visitUpdates {us : List (FieldId × Texpr)} (h : ∀ u ∈ us, Ends cfg u.2) :
    Settles Exn.outOfFuel fun n => visitUpdates (onTexpr (visitExpr cfg n)) us :=
  settles_mapM fun u hu => (h u hu).bind fun _ _ _ => settles_ok _

theorem ends_node {e : Expr} {ty : Ty} (h : ∀ c ∈ e.children, Ends cfg c.2)
    (hagain : ∀ s init, e = .structUpdate s → s.init = some init →
      ∀ {n init' s'}, onTexpr (visitExpr cfg n) init = .ok init' → init'.e = .structUpdate s' →
      ∀ u ∈ s'.updates, Ends cfg u.2) :
    Ends cfg (.mk e ty) := by
  suffices hexpr : Settles Exn.outOfFuel fun n => visitExpr cfg n e from hexpr.bind fun _ x _ => settles_ok _
  refine settles_succ ?_
  cases e with
  | app f x =>
    have hf := h (.none, f) (by simp [Expr.children])
    have hx := h (.none, x) (by simp [Expr.children])
    exact hf.bind fun _ f' _ => hx.bind fun _ x' _ => settles_const (visitApp_ne_outOfFuel f' x')
  | structUpdate s =>
    obtain ⟨structId, init, us⟩ := s
    cases init with
    | none => exact settles_mapChildren h
    | some init =>
      have hinit : Ends cfg init := h (.none, init) (mem_append_left _ (mem_singleton_self _))
      have hus : ∀ u ∈ us, Ends cfg u.2 := fun u hu =>
        h (.none, u.2) (mem_append_right _ (mem_map.mpr ⟨u, hu, rfl⟩))
      refine hinit.bind fun n init' hinit' => (settles_visitUpdates hus).bind fun _ us' _ => ?_
      unfold flattenInit
      split
      · rename_i s' hs'
        refine Settles.bind (settles_const ?_) fun _ _ _ => ?_
        · exact sanityCheck_ne_outOfFuel
        · refine Settles.bind (settles_visitUpdates fun u hu => ?_) fun _ _ _ => settles_ok _
          exact hagain _ init rfl rfl hinit' hs' u (mem_of_mem_filter hu)
      · exact settles_ok _
  | _ => exact settles_mapChildren h

theorem ends_normal (e : Texpr) : Normal e → Ends cfg e := by
  induction e using induct with
  | h e ty ih =>
    intro hnormal
    obtain ⟨hflat, hchildren⟩ := allNodes_mk.mp hnormal
    refine ends_node (fun c hc => ih c hc (hchildren c hc)) fun s init heq hinit n init' s' hvisit hs' => ?_
    -- the base is not an update, and its visit does not change it
    subst heq
    obtain ⟨structId, base, us⟩ := s
    obtain rfl : base = some init := hinit
    obtain ⟨hbase, hinitN⟩ := (normal_update.mp hnormal).1 init rfl
    obtain rfl := visit_eq hvisit hinitN
    exact absurd ⟨s', hs'⟩ hbase

theorem ends_visit (e : Texpr) : Ends cfg e := by
  induction e using induct with
  | h e ty ih =>
    refine ends_node ih fun s init _ _ n init' s' hvisit hs' u hu => ends_normal _ ?_
    have hnormal := visit_normal hvisit
    rw [← init'.mk_e_ty, hs'] at hnormal
    exact (normal_update.mp hnormal).2 u hu

end

end FlattenStructUpdates

end Aeneas.Pure
