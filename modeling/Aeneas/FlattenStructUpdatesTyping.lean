import Aeneas.FlattenStructUpdatesSound

/-!
# The flattening of the structure updates returns

On the well-typed bodies whose structures have all of their fields, the visit
does not raise an error, and its result is well-typed.
-/

namespace Aeneas.Pure

namespace FlattenStructUpdates

open Fuel List

/-! ## Complete structures -/

section
variable (tc : TypingCtx)

def Complete (s : StructUpdate Texpr) (ty : Ty) :
    Prop := s.init = none → ∀ id generics tys fid fieldTy, ty = .adt id generics →
  getAdtFieldTypes tc id none generics = some tys → tys[fid]? = some fieldTy → ∃ u ∈ s.updates, u.1 = fid

structure Regular (e : Texpr) : Prop where
  typed : e.WellTyped tc
  complete : ∀ d : Texpr, d.Within e → ∀ s, d.e = .structUpdate s → Complete tc s d.ty

variable {tc} {e : Expr} {ty : Ty}

theorem Regular.child (h : Regular tc (.mk e ty)) {c : Scoped Texpr} (hc : c ∈ e.children) : Regular tc c.2 :=
  ⟨h.typed.child hc, fun d hd => h.complete d (.child hc hd)⟩

theorem regular_mk (htyped : (Texpr.mk e ty).WellTyped tc) (hcomplete : ∀ s, e = .structUpdate s → Complete tc s ty)
    (hchildren : ∀ c ∈ e.children, Regular tc c.2) : Regular tc (.mk e ty) := by
  refine ⟨htyped, fun d hd s hs => ?_⟩
  rcases Texpr.within_mk.mp hd with rfl | ⟨c, hc, hd⟩
  · exact hcomplete s hs
  · exact (hchildren c hc).complete d hd s hs

theorem complete_some {structId : TypeId} {init : Texpr} {us : List (FieldId × Texpr)} :
    Complete tc { structId, init := some init, updates := us } ty := fun h => by cases h

theorem regular_app {f x : Texpr} :
    Regular tc (.mk (.app f x) ty) ↔ f.ty = .arrow x.ty ty ∧ Regular tc f ∧ Regular tc x := by
  constructor
  · intro h
    exact ⟨h.typed.typed, h.child (c := (.none, f)) (by simp [Expr.children]), h.child (c :=
      (.none, x)) (by simp [Expr.children])⟩
  · rintro ⟨hty, hf, hx⟩
    refine regular_mk (Texpr.wellTyped_app.mpr ⟨hty, hf.typed, hx.typed⟩) (fun s hs => by cases hs) ?_
    simpa [Expr.children] using ⟨hf, hx⟩

theorem regular_update {s : StructUpdate Texpr} :
    Regular tc (.mk (.structUpdate s) ty) ↔ s.TypedAs tc ty ∧ Complete tc s ty ∧
    (∀ x, s.init = some x → Regular tc x) ∧ ∀ u ∈ s.updates, Regular tc u.2 := by
  have hchildren : (∀ c ∈ (Expr.structUpdate s).children, Regular tc c.2) ↔
      (∀ x, s.init = some x → Regular tc x) ∧ ∀ u ∈ s.updates, Regular tc u.2 := by
    simp only [Expr.children, StructUpdate.children, forall_mem_append, forall_mem_map, Option.mem_toList]
  constructor
  · intro h
    exact ⟨h.typed.typed, h.complete _ .refl s rfl, hchildren.mp fun c hc => h.child hc⟩
  · rintro ⟨htyped, hcomplete, h⟩
    have hregular := hchildren.mpr h
    refine regular_mk (.mk htyped (fun c hc => ?_) fun c hc => (hregular c hc).typed) (fun s' hs' => ?_) hregular
    · have hgroup : c.1 = .none := by
        rcases mem_append.mp hc with hc | hc
        · obtain ⟨x, -, rfl⟩ := mem_map.mp hc
          rfl
        · obtain ⟨u, -, rfl⟩ := mem_map.mp hc
          rfl
      rw [hgroup]
      trivial
    · cases hs'
      exact hcomplete

theorem Regular.retype_eq {x : Texpr} (h : Regular tc x) (hty : x.ty = ty) : Regular tc (.mk x.e ty) := by
  rw [← hty, x.mk_e_ty]
  exact h

variable {fid : FieldId}

theorem Regular.projection {f arg : Texpr} {s : StructUpdate Texpr}
    (h : Regular tc (.mk (.app f arg) ty)) (hf : projField f = some fid) (harg : arg.e = .structUpdate s) :
    (∀ u ∈ s.updates, u.1 = fid → u.2.ty = ty) ∧ (s.init = none → ∃ u ∈ s.updates, u.1 = fid) := by
  obtain ⟨harrow, hregF, hregArg⟩ := regular_app.mp h
  obtain ⟨arg, aty⟩ := arg
  obtain rfl : arg = .structUpdate s := harg
  obtain ⟨q, p, qty, rfl, hq, rfl⟩ := projField_eq_some hf
  have hqualif : q.TypedAs tc qty := hregF.typed.typed
  simp only [Qualif.TypedAs, hq] at hqualif
  obtain ⟨tys, fieldTy, htys, hfield, hqty⟩ := hqualif
  have heq : Ty.arrow (.adt p.adtId q.generics) fieldTy = .arrow aty ty := hqty.symm.trans harrow
  cases heq
  obtain ⟨⟨-, -, hupdates⟩, hcomplete, -⟩ := regular_update.mp hregArg
  refine ⟨fun u hu hfid => ?_, fun hinit => hcomplete hinit _ _ tys _ _ rfl htys hfield⟩
  -- the type of the structure is the one which is projected
  obtain ⟨adtId, pfid⟩ := p
  split at hupdates
  · rename_i id generics hadt
    cases hadt
    obtain ⟨tys', htys', hupdates⟩ := hupdates
    obtain rfl : tys' = tys := Option.some.inj (htys'.symm.trans htys)
    have := hupdates u hu
    rw [hfid, hfield] at this
    exact (Option.some.inj this).symm
  · rename_i hadt
    cases hadt
    cases htys
  · exact hupdates.elim

theorem find_isField {α : Type} {us : List (FieldId × α)} {u : FieldId × α}
    (h : us.find? (isField fid) = some u) : u ∈ us ∧ u.1 = fid := by
  have hfield : isField fid u = true := find?_some h
  exact ⟨mem_of_find?_eq_some h, eq_of_beq hfield⟩

theorem find_isField_none {α : Type} {us : List (FieldId × α)} (h : us.find? (isField fid) = none) :
    ¬ ∃ u ∈ us, u.1 = fid := by
  rintro ⟨u, hu, hfid⟩
  exact find?_eq_none.mp h u hu (beq_iff_eq.mpr hfid)

end

/-! ## The results are well-typed -/

section
variable {tc : TypingCtx} {visit : Texpr → Except Exn Texpr} {us us' vs vs' : List (FieldId × Texpr)} {ty : Ty}
  (hvisit : ∀ {x x'}, visit x = .ok x' → Regular tc x → Regular tc x' ∧ x'.ty = x.ty)

theorem Reduced.regular {f arg : Texpr} {e : Expr} (h : Reduced f arg e) (hregular : Regular tc (.mk (.app f arg) ty)) :
    Regular tc (.mk e ty) := by
  obtain ⟨harrow, hf, harg⟩ := regular_app.mp hregular
  obtain ⟨arg, aty⟩ := arg
  cases h with
  | app => exact hregular
  | @field fid s u hproj heq hu =>
    obtain rfl : arg = .structUpdate s := heq
    obtain ⟨hmem, hfid⟩ := find_isField hu
    exact ((regular_update.mp harg).2.2.2 u hmem).retype_eq ((hregular.projection hproj rfl).1 u hmem hfid)
  | @base fid s init hproj heq hu hinit =>
    obtain rfl : arg = .structUpdate s := heq
    obtain ⟨⟨hty, -⟩, -, hreg, -⟩ := regular_update.mp harg
    refine regular_app.mpr ⟨harrow.trans ?_, hf, hreg init hinit⟩
    rw [hty init hinit]
    rfl

include hvisit in
theorem VisitedUpdates.regular (h : VisitedUpdates visit us us') (hus : ∀ u ∈ us, Regular tc u.2) :
    (∀ u ∈ us', Regular tc u.2) ∧ ∀ P : FieldId → Ty → Prop, (∀ u ∈ us, P u.1 u.2.ty) → ∀ u ∈ us', P u.1 u.2.ty := by
  have hall : ∀ u' ∈ us', Regular tc u'.2 ∧ ∃ u ∈ us, u'.1 = u.1 ∧ u'.2.ty = u.2.ty := by
    intro u' hu'
    obtain ⟨u, hu, hfst, hv⟩ := exists_of_forall₂ h hu'
    obtain ⟨hregular, hty⟩ := hvisit hv (hus u hu)
    exact ⟨hregular, u, hu, hfst, hty⟩
  refine ⟨fun u hu => (hall u hu).1, fun P hP u' hu' => ?_⟩
  obtain ⟨-, u, hu, hfst, hty⟩ := hall u' hu'
  rw [hfst, hty]
  exact hP u hu

theorem VisitedUpdates.fst (h : VisitedUpdates visit us us') : us'.map Prod.fst = us.map Prod.fst := by
  induction h with
  | nil => rfl
  | cons hu _ ih => rw [map_cons, map_cons, hu.1, ih]

theorem exists_field {α : Type} {us : List (FieldId × α)} {fid : FieldId} :
    (∃ u ∈ us, u.1 = fid) ↔ fid ∈ us.map Prod.fst :=
  mem_map.symm

theorem mem_notUpdated {α β : Type} {us : List (FieldId × α)} {vs : List (FieldId × β)} {fid : FieldId}
    (h : fid ∈ vs.map Prod.fst) : fid ∈ (notUpdated us vs).map Prod.fst ∨ fid ∈ us.map Prod.fst := by
  by_cases hus : fid ∈ us.map Prod.fst
  · exact .inr hus
  · obtain ⟨v, hv, rfl⟩ := mem_map.mp h
    refine .inl (mem_map.mpr ⟨v, mem_filter.mpr ⟨hv, ?_⟩, rfl⟩)
    simpa using hus

theorem zipWith_fst : ∀ (us : List (FieldId × Texpr)) (cs : List (Scoped Texpr)), us.length = cs.length →
    (List.zipWith (fun u c => (u.1, c.2)) us cs).map Prod.fst = us.map Prod.fst
  | [], [], _ => rfl
  | u :: us, c :: cs, h => by
    rw [zipWith_cons_cons, map_cons, zipWith_fst us cs (Nat.succ.inj h), map_cons]

include hvisit in
theorem visited_regular {e e' : Expr} (h : Visited visit e e') (hregular : Regular tc (.mk e ty)) :
    Regular tc (.mk e' ty) := by
  cases h with
  | @node _ cs happ hupdate hcs =>
    have hcs' := (forall₂_and_left _ _).mpr ⟨fun c hc => hregular.child hc, hcs⟩
    have hchildren : List.Forall₂ (fun c c' => SameTy c c' ∧ Regular tc c'.2) e.children cs :=
      hcs'.imp fun c c' hc => ⟨⟨hc.2.1, (hvisit hc.2.2 hc.1).2⟩, (hvisit hc.2.2 hc.1).1⟩
    have hfits : Fits e.children cs := hcs.imp fun c c' hc => hc.1 ▸ c.1.like_refl
    refine regular_mk (hregular.typed.rebuild (hchildren.imp fun _ _ hc => ⟨hc.1, hc.2.typed⟩)) (fun s hs => ?_) ?_
    · have hidx := e.rebuild_ctorIdx cs
      rw [hs] at hidx
      cases e with
      | structUpdate s₀ =>
        have hinit := hupdate s₀ rfl
        obtain ⟨structId, init, us⟩ := s₀
        subst hinit
        cases hs
        obtain ⟨-, hcomplete, -⟩ := regular_update.mp hregular
        intro _ id generics tys fid fieldTy hty htys hfield
        have hmem := exists_field.mp (hcomplete rfl id generics tys fid fieldTy hty htys hfield)
        refine exists_field.mpr ?_
        have hlen : us.length = cs.length := by simpa [Expr.children, StructUpdate.children] using hcs.length_eq
        exact (zipWith_fst us cs hlen) ▸ hmem
      | _ => cases hidx
    · rw [(Expr.children_rebuild hfits hfits).1]
      intro c' hc'
      obtain ⟨c, -, -, hc⟩ := exists_of_forall₂ hchildren hc'
      exact hc
  | app hf harg hreduced =>
    obtain ⟨harrow, hregF, hregArg⟩ := regular_app.mp hregular
    obtain ⟨hf', hfty⟩ := hvisit hf hregF
    obtain ⟨harg', hargty⟩ := hvisit harg hregArg
    refine hreduced.regular (regular_app.mpr ⟨?_, hf', harg'⟩)
    rw [hfty, hargty]
    exact harrow
  | update hinit hus hbase =>
    obtain ⟨htyped, -, hreg, hregUs⟩ := regular_update.mp hregular
    obtain ⟨hinit', hty⟩ := hvisit hinit (hreg _ rfl)
    obtain ⟨hus', htys⟩ := hus.regular hvisit hregUs
    refine regular_update.mpr ⟨htyped.of_updates (fun x hx => ?_) htys, complete_some, fun x hx => ?_, hus'⟩
    · obtain rfl := Option.some.inj hx
      exact hty.trans (htyped.1 _ rfl)
    · obtain rfl := Option.some.inj hx
      exact hinit'
  | @flatten structId init base bty us us' vs vs' hinit hus hvs =>
    obtain ⟨htyped, -, hreg, hregUs⟩ := regular_update.mp hregular
    obtain ⟨hinit', hty⟩ := hvisit hinit (hreg _ rfl)
    obtain rfl : bty = ty := hty.trans (htyped.1 _ rfl)
    obtain ⟨hbase, hcomplete, hregBase, hregVs⟩ := regular_update.mp hinit'
    obtain ⟨hus', htysU⟩ := hus.regular hvisit hregUs
    obtain ⟨hvs', htysV⟩ := hvs.regular hvisit fun u hu => hregVs u (mem_of_mem_filter hu)
    refine regular_update.mpr ⟨?_, fun hnone id generics tys fid fieldTy heq htys hfield => ?_, hregBase,
      forall_mem_append.mpr ⟨hvs', hus'⟩⟩
    · have hkept : ∀ P : FieldId → Ty → Prop, (∀ u ∈ vs, P u.1 u.2.ty) → ∀ u ∈ vs', P u.1 u.2.ty :=
        fun P hP => htysV P fun u hu => hP u (mem_of_mem_filter hu)
      exact (hbase.of_updates hbase.1 hkept).append (htyped.of_updates htyped.1 htysU)
    · have hmem := exists_field.mp (hcomplete hnone id generics tys fid fieldTy heq htys hfield)
      refine exists_field.mpr ?_
      rw [map_append, hvs.fst]
      exact mem_append.mpr (mem_notUpdated hmem)

end

/-! ## The visit does not raise errors -/

section
variable {cfg : FuelConfig} {tc : TypingCtx}

variable {x : Texpr}

theorem visit_regular {n : Nat} {x' : Texpr} (h : onTexpr (visitExpr cfg n) x = .ok x') (hregular : Regular tc x) :
    Regular tc x' ∧ x'.ty = x.ty :=
  visit_induct (R := fun x x' => Regular tc x → Regular tc x' ∧ x'.ty = x.ty)
    (fun hvisit _ _ _ h hregular => ⟨visited_regular hvisit h hregular, rfl⟩) h hregular

variable {ty : Ty}

theorem mkAppExpr_arrow {f : Texpr} {ty' : Ty} (h : f.ty = .arrow ty ty') :
    mkAppExpr cfg f x = .ok (.app f x) := by
  unfold mkAppExpr mkApp
  rw [h]
  rfl

theorem visitApp_regular {f arg : Texpr} (h : Regular tc (.mk (.app f arg) ty)) :
    OnlyRaises Exn.outOfFuel (visitApp cfg f arg) := by
  have harrow := (regular_app.mp h).1
  have happ : ∀ x, OnlyRaises Exn.outOfFuel (mkAppExpr cfg f x) := fun x => by
    rw [mkAppExpr_arrow harrow]
    exact onlyRaises_ok _
  unfold visitApp
  split
  · exact happ arg
  · rename_i fid hf
    split
    · rename_i s hs
      unfold projUpdate
      split
      · exact onlyRaises_ok _
      · rename_i hfind
        split
        · rename_i hinit
          exact absurd ((h.projection hf hs).2 hinit) (find_isField_none hfind)
        · exact happ _
    · obtain ⟨q, p, qty, rfl, hq, -⟩ := projField_eq_some hf
      have hcons : ¬ isAdtCons (.mk (.qualif q) qty) = true := by simp [isAdtCons, Texpr.e, hq]
      unfold projApp
      rw [show destructApps (.mk (.qualif q) qty) = (.mk (.qualif q) qty, []) from rfl, if_neg hcons]
      exact happ arg
    · exact happ arg

variable {us : List (FieldId × Texpr)}

theorem sanityCheck_regular {structId : TypeId} {init init' : Texpr}
    {s' : StructUpdate Texpr}
    (h : Regular tc (.mk (.structUpdate { structId, init := some init, updates := us }) ty))
    (hinit : Regular tc init') (hty : init'.ty = init.ty) (hs' : init'.e = .structUpdate s') :
    sanityCheck (structId == s'.structId) = .ok () := by
  obtain ⟨e', ty'⟩ := init'
  obtain rfl : e' = .structUpdate s' := hs'
  obtain ⟨⟨hinitTy, hid, -⟩, -⟩ := regular_update.mp h
  obtain ⟨⟨-, hid', -⟩, -⟩ := regular_update.mp hinit
  have heq : ty' = ty := hty.trans (hinitTy init rfl)
  rw [heq, hid] at hid'
  obtain rfl := Option.some.inj hid'
  simp [sanityCheck, cassert]

theorem visitUpdates_regular {visit : Texpr → Except Exn Texpr}
    (h : ∀ u ∈ us, OnlyRaises Exn.outOfFuel (visit u.2)) : OnlyRaises Exn.outOfFuel (visitUpdates visit us) :=
  onlyRaises_mapM fun u hu => (h u hu).bind fun _ _ => onlyRaises_ok _

theorem onlyRaises_visit :
    ∀ (n : Nat) {x : Texpr}, Regular tc x → OnlyRaises Exn.outOfFuel (onTexpr (visitExpr cfg n) x)
  | 0, _, _ => by
    intro err herr
    cases herr
    rfl
  | n + 1, .mk e ty, h => by
    suffices hexpr : OnlyRaises Exn.outOfFuel (visitExpr cfg (n + 1) e) from hexpr.bind fun _ _ => onlyRaises_ok _
    have ih : ∀ c ∈ e.children, OnlyRaises Exn.outOfFuel (onTexpr (visitExpr cfg n) c.2) := fun c hc =>
      onlyRaises_visit n (h.child hc)
    have hnode : OnlyRaises Exn.outOfFuel (mapChildren (onTexpr (visitExpr cfg n)) e) :=
      (onlyRaises_mapM fun c hc => (ih c hc).bind fun _ _ => onlyRaises_ok _).bind fun _ _ => onlyRaises_ok _
    cases e with
    | app f arg =>
      obtain ⟨harrow, hf, harg⟩ := regular_app.mp h
      refine (onlyRaises_visit n hf).bind fun f' hf' => (onlyRaises_visit n harg).bind fun arg' harg' => ?_
      obtain ⟨hregF, hfty⟩ := visit_regular hf' hf
      obtain ⟨hregArg, hargty⟩ := visit_regular harg' harg
      exact visitApp_regular (regular_app.mpr ⟨by rw [hfty, hargty]; exact harrow, hregF, hregArg⟩)
    | structUpdate s =>
      obtain ⟨structId, init, us⟩ := s
      cases init with
      | none => exact hnode
      | some init =>
        obtain ⟨-, -, hregInit, hregUs⟩ := regular_update.mp h
        have hinit := hregInit init rfl
        refine (onlyRaises_visit n hinit).bind fun init' hinit' => ?_
        refine (visitUpdates_regular fun u hu => onlyRaises_visit n (hregUs u hu)).bind fun us' _ => ?_
        obtain ⟨hreg', hty⟩ := visit_regular hinit' hinit
        unfold flattenInit
        split
        · rename_i s' hs'
          rw [sanityCheck_regular h hreg' hty hs']
          obtain ⟨e', ty'⟩ := init'
          obtain rfl : e' = .structUpdate s' := hs'
          refine (visitUpdates_regular fun u hu => onlyRaises_visit n ?_).bind fun _ _ => onlyRaises_ok _
          exact (regular_update.mp hreg').2.2.2 u (mem_of_mem_filter hu)
        · exact onlyRaises_ok _
    | _ => exact hnode

variable (cfg) in
theorem visit_finishes (h : Regular tc x) : Finishes fun n => onTexpr (visitExpr cfg n) x :=
  (ends_visit x).finishes fun n => onlyRaises_visit n h

end

/-! ## The pass -/

section
variable {cfg : FuelConfig} {def_ : FunDecl} {fbody b : FunBody} {fvars : IdMap FVarId FVar} {fresh s : FVarId}

theorem unshadowed_visit {n : Nat} {body' : Texpr} (hb : b.WellScoped)
    (h : onTexpr (visitExpr cfg n) b.body = .ok body') :
    FunBody.Unshadowed { b with body := body' } :=
  (hb.of_keeps (visit_keeps h hb.opened)).unshadowed

variable (cfg) in
theorem flattenStructUpdates_eq (hbody : def_.body = some fbody) (hclosed : fbody.IsClosed fun _ => false)
    (hopen : openAllFunBody fresh fbody = .ok ((fvars, b), s)) (depth : Nat) :
    flattenStructUpdates cfg depth def_ fresh =
      (onTexpr (visitExpr cfg depth) b.body).map fun body' =>
        ({ def_ with body := some (FunBody.close { b with body := body' }) }, s) := by
  obtain ⟨-, hb⟩ := openAllFunBody_wellScoped hclosed hopen
  exact liftExprMapVisitor_liftM hbody hopen fun _ h => unshadowed_visit hb h

structure Flattened (def_ : FunDecl) (fbody b : FunBody) (s : FVarId) (r : FunDecl × FVarId) (body' : Texpr) :
    Prop where
  result : r = ({ def_ with body := some (FunBody.close { b with body := body' }) }, s)
  normal : Normal body'
  refined : ∀ {D X : Type} (I : Interp D X) (isCall : FunKey → Bool), I.Respects refinedOutcome → I.Records →
    RefinedBody I isCall (I.Curried isCall) fbody (FunBody.close { b with body := body' })

theorem flattened_of_visit {n : Nat} {body' : Texpr} (hclosed : fbody.IsClosed fun _ => false)
    (hopen : openAllFunBody fresh fbody = .ok ((fvars, b), s)) (h : onTexpr (visitExpr cfg n) b.body = .ok body') :
    Flattened def_ fbody b s ({ def_ with body := some (FunBody.close { b with body := body' }) }, s) body' := by
  obtain ⟨rfl, hb⟩ := openAllFunBody_wellScoped hclosed hopen
  refine ⟨rfl, visit_normal h, fun I isCall hI hrecords => refinedBody_of_eval hb (unshadowed_visit hb h) ?_⟩
  exact fun call hcurried env r => visit_refines hI hcurried hrecords h env [] r

end

/-! ## Example -/

def pairTy : Ty := .adt (.adtId 0) emptyGenericArgs

def pairCtx : TypingCtx where
  varTy _ := pairTy
  cvarTy _ := mkBoolTy
  fieldTys _ _ _ := some [mkBoolTy, mkBoolTy]

def pairVar (id : FVarId) : Texpr := .mk (.fvar id) pairTy

def pairProj (fieldId : FieldId) (x : Texpr) : Texpr :=
  .mk (.app (.mk (.qualif { id := .proj { adtId := .adtId 0, fieldId }, generics := emptyGenericArgs })
    (.arrow pairTy mkBoolTy)) x)
    mkBoolTy

def pairUpdate (x : Texpr) (fieldId : FieldId) (y : Texpr) : Texpr :=
  .mk (.structUpdate { structId := .adtId 0, init := some x, updates := [(fieldId, y)] }) pairTy

/-- `fun x0 => { { x0 with 0 := true } with 1 := true }.0` -/
def updatedBody : FunBody where
  inputs := [.mk (.opened { id := 0, basename := none, ty := pairTy } none) pairTy]
  body := pairProj 0 (pairUpdate (pairUpdate (pairVar 0) 0 mkTrue) 1 mkTrue)

theorem pairUpdate_regular {x y : Texpr} {fieldId : FieldId} (hfield : fieldId < 2) (hx : Regular pairCtx x)
    (hty : x.ty = pairTy) (hy : Regular pairCtx y) (hyty : y.ty = mkBoolTy) :
    Regular pairCtx (pairUpdate x fieldId y) := by
  refine regular_update.mpr ⟨⟨fun init hinit => ?_, rfl, _, rfl, fun u hu => ?_⟩, complete_some, fun init hinit =>
    ?_, fun u hu => ?_⟩
  · cases hinit
    exact hty
  · obtain rfl := mem_singleton.mp hu
    rw [hyty]
    match fieldId, hfield with
    | 0, _ => rfl
    | 1, _ => rfl
  · cases hinit
    exact hx
  · obtain rfl := mem_singleton.mp hu
    exact hy

theorem updatedBody_regular : Regular pairCtx updatedBody.body := by
  have hvar : Regular pairCtx (pairVar 0) := regular_mk (.mk rfl nofun nofun) nofun nofun
  have htrue : Regular pairCtx mkTrue := regular_mk mkTrue_typed nofun nofun
  refine regular_app.mpr ⟨rfl, regular_mk (.mk ⟨_, mkBoolTy, rfl, rfl, rfl⟩ nofun nofun) nofun nofun, ?_⟩
  exact pairUpdate_regular (by decide) (pairUpdate_regular (by decide) hvar rfl htrue rfl) rfl htrue rfl

end FlattenStructUpdates

end Aeneas.Pure
