import Aeneas.PureRebuild

/-!
# Scopes of the pure AST

The binders of a group are either closed, and the variables they bind are given
by the depth of the group and an index, or opened, and they carry the identifier
of a free variable. A context lists the identifiers of the opened groups around
an expression, from the innermost one.
-/

namespace Aeneas.Pure

open Texpr List

/-! ## Patterns -/

section
variable (onBound : Var → Option MPlace → Pat) (onOpened : FVar → Option MPlace → Pat)

mutual

def Pat.mapVars : Pat → Pat
  | .constant l => .constant l
  | .bound v mp => onBound v mp
  | .ignored => .ignored
  | .opened v mp => onOpened v mp
  | .adt variantId fields => .adt variantId (mapVarsTPats fields)

def TPat.mapVars : TPat → TPat
  | .mk pat ty => .mk pat.mapVars ty

def mapVarsTPats : List TPat → List TPat
  | [] => []
  | p :: l => p.mapVars :: mapVarsTPats l

end

end

section
variable {β : Type} (onBound : Var → List β) (onOpened : FVar → List β)

mutual

def Pat.vars : Pat → List β
  | .constant _ => []
  | .bound v _ => onBound v
  | .ignored => []
  | .opened v _ => onOpened v
  | .adt _ fields => tpatsVars fields

def TPat.vars : TPat → List β
  | .mk pat _ => pat.vars

def tpatsVars : List TPat → List β
  | [] => []
  | p :: l => p.vars ++ tpatsVars l

end

end

theorem tpats_induct {P : List TPat → Prop} (nil : P [])
    (constant : ∀ l ty ps, P ps → P (.mk (.constant l) ty :: ps))
    (bound : ∀ v mp ty ps, P ps → P (.mk (.bound v mp) ty :: ps))
    (ignored : ∀ ty ps, P ps → P (.mk .ignored ty :: ps))
    (opened : ∀ v mp ty ps, P ps → P (.mk (.opened v mp) ty :: ps))
    (adt : ∀ variantId fields ty ps, P fields → P ps → P (.mk (.adt variantId fields) ty :: ps)) : ∀ ps, P ps
  | [] => nil
  | .mk (.constant l) ty :: ps => constant l ty ps (tpats_induct nil constant bound ignored opened adt ps)
  | .mk (.bound v mp) ty :: ps => bound v mp ty ps (tpats_induct nil constant bound ignored opened adt ps)
  | .mk .ignored ty :: ps => ignored ty ps (tpats_induct nil constant bound ignored opened adt ps)
  | .mk (.opened v mp) ty :: ps => opened v mp ty ps (tpats_induct nil constant bound ignored opened adt ps)
  | .mk (.adt variantId fields) ty :: ps => adt variantId fields ty ps
    (tpats_induct nil constant bound ignored opened adt fields)
    (tpats_induct nil constant bound ignored opened adt ps)

def tpatsIds (ps : List TPat) : List FVarId := tpatsVars (fun _ => []) (fun v => [v.id]) ps

def tpatsBound (ps : List TPat) : List Var := tpatsVars (fun v => [v]) (fun _ => []) ps

@[simp] theorem tpatsIds_nil : tpatsIds [] = [] := rfl

/-! ## Groups -/

def Group.pats : Group → List TPat
  | .none => []
  | .one pat => [pat]
  | .many pats => pats

def Group.mapVars (onBound : Var → Option MPlace → Pat) (onOpened : FVar → Option MPlace → Pat) : Group → Group
  | .none => .none
  | .one pat => .one (pat.mapVars onBound onOpened)
  | .many pats => .many (mapVarsTPats onBound onOpened pats)

def Group.under {γ : Type} (push : List TPat → γ → γ) : Group → γ → γ
  | .none, x => x
  | .one pat, x => push [pat] x
  | .many pats, x => push pats x

theorem Group.like_mapVars (onBound : Var → Option MPlace → Pat) (onOpened : FVar → Option MPlace → Pat)
    (g : Group) : g.Like (g.mapVars onBound onOpened) := by
  cases g <;> trivial

theorem Group.like_mapVars₂ (onBound onBound' : Var → Option MPlace → Pat)
    (onOpened onOpened' : FVar → Option MPlace → Pat) (g : Group) :
    (g.mapVars onBound onOpened).Like (g.mapVars onBound' onOpened') := by
  cases g <;> trivial

variable {g : Group}

theorem Group.mapVars_ne_none {onBound : Var → Option MPlace → Pat} {onOpened : FVar → Option MPlace → Pat}
    (hg : g ≠ .none) : g.mapVars onBound onOpened ≠ .none := by
  cases g with
  | none => exact absurd rfl hg
  | _ => exact nofun

theorem Group.pats_mapVars (onBound : Var → Option MPlace → Pat) (onOpened : FVar → Option MPlace → Pat)
    (g : Group) : (g.mapVars onBound onOpened).pats = mapVarsTPats onBound onOpened g.pats := by
  cases g <;> rfl

theorem Group.under_eq {γ : Type} {push : List TPat → γ → γ} (hg : g ≠ .none) (x : γ) :
    g.under push x = push g.pats x := by
  cases g with
  | none => exact absurd rfl hg
  | _ => rfl

/-! ## Replacing the variables -/

section
variable {γ : Type} (onFVar : γ → FVarId → Expr) (onBound : Var → Option MPlace → Pat)
  (onOpened : FVar → Option MPlace → Pat) (push : List TPat → γ → γ)

def Texpr.mapIn (x : γ) : Texpr → Texpr
  | .mk (.fvar f) ty => .mk (onFVar x f) ty
  | .mk e ty => .mk (e.rebuild (e.children.attach.map fun c =>
      (c.1.1.mapVars onBound onOpened, c.1.2.mapIn (c.1.1.under push x)))) ty
termination_by e => sizeOf e
decreasing_by
  have := Expr.sizeOf_children c.2
  simp only [mk.sizeOf_spec]
  omega

variable {onFVar onBound onOpened push} {x : γ}

theorem Texpr.mapIn_fvar (f : FVarId) (ty : Ty) :
    (mk (.fvar f) ty).mapIn onFVar onBound onOpened push x = .mk (onFVar x f) ty := by
  rw [mapIn]

theorem Texpr.mapIn_node {e : Expr} (he : ∀ f, e ≠ .fvar f) (ty : Ty) :
    (mk e ty).mapIn onFVar onBound onOpened push x = .mk (e.rebuild (e.children.map fun c =>
      (c.1.mapVars onBound onOpened, c.2.mapIn onFVar onBound onOpened push (c.1.under push x)))) ty := by
  rw [mapIn]
  · rw [attach_map_val (f := fun c : Scoped Texpr =>
      (c.1.mapVars onBound onOpened, c.2.mapIn onFVar onBound onOpened push (c.1.under push x)))]
  · exact he

end

def Expr.IsNode (e : Expr) : Prop := (∀ f, e ≠ .fvar f) ∧ ∀ v, e ≠ .bvar v

theorem Expr.var_or_node (e : Expr) : (∃ f, e = .fvar f) ∨ (∃ v, e = .bvar v) ∨ e.IsNode := by
  cases e with
  | fvar f => exact .inl ⟨f, rfl⟩
  | bvar v => exact .inr (.inl ⟨v, rfl⟩)
  | _ => exact .inr (.inr ⟨nofun, nofun⟩)

theorem Expr.isNode_app (f x : Texpr) : (Expr.app f x).IsNode := ⟨nofun, nofun⟩

theorem Expr.isNode_letE (monadic : Bool) (pat : TPat) (bound next : Texpr) :
    (Expr.letE monadic pat bound next).IsNode := ⟨nofun, nofun⟩

theorem Expr.isNode_switch (scrut : Texpr) (body : SwitchBody Texpr) : (Expr.switch scrut body).IsNode := ⟨nofun, nofun⟩

variable {e : Expr}

theorem Expr.IsNode.rebuild (he : e.IsNode) (cs : List (Scoped Texpr)) : (e.rebuild cs).IsNode := by
  unfold Expr.rebuild
  split
  iterate 6 exact ⟨nofun, nofun⟩
  · split <;> exact ⟨nofun, nofun⟩
  · exact he

theorem Texpr.collect_node {β : Type} {onFVar : FVarId → β} {onBVar : BVar → β} {onQualif : Qualif → β}
    {combine : List (Scoped β) → β} (he : e.IsNode) (hq : ∀ q, onQualif q = combine []) (ty : Ty) :
    (mk e ty).visit (collector onFVar onBVar onQualif combine) =
      combine (e.children.map fun c => (c.1, c.2.visit (collector onFVar onBVar onQualif combine))) := by
  rw [visit_collector]
  cases e with
  | fvar f => exact absurd rfl (he.1 f)
  | bvar v => exact absurd rfl (he.2 v)
  | qualif q => exact hq q
  | _ => rfl

/-! ## Contexts -/

abbrev Ctx := List (List FVarId)

def Ctx.push (ps : List TPat) (ctx : Ctx) : Ctx := tpatsIds ps :: ctx

/-- The bound variable which stands for a free variable of the context. -/
def Ctx.position : Ctx → FVarId → Option BVar
  | [], _ => none
  | ids :: ctx, f =>
    if f ∈ ids then some { scope := 0, id := ids.idxOf f }
    else (Ctx.position ctx f).map fun v => { v with scope := v.scope + 1 }

variable {f : FVarId}

theorem Ctx.position_eq_none : ∀ {ctx : Ctx}, f ∉ ctx.flatten → Ctx.position ctx f = none
  | [], _ => rfl
  | ids :: ctx, h => by
    simp only [flatten_cons, mem_append, not_or] at h
    simp [Ctx.position, h.1, Ctx.position_eq_none h.2]

theorem Ctx.exists_position : ∀ {ctx : Ctx}, f ∈ ctx.flatten →
    ∃ (k : Nat) (i : BVarId) (ids : List FVarId), Ctx.position ctx f = some { scope := k, id := i } ∧
      ctx[k]? = some ids ∧ ids[i]? = some f
  | [], h => by simp at h
  | ids :: ctx, h => by
    by_cases hf : f ∈ ids
    · exact ⟨0, ids.idxOf f, ids, by simp [Ctx.position, hf], rfl, by simp [hf]⟩
    · have hmem : f ∈ ctx.flatten := by simpa [hf] using h
      obtain ⟨k, i, ids', hpos, hctx, hids⟩ := Ctx.exists_position hmem
      exact ⟨k + 1, i, ids', by simp [Ctx.position, hf, hpos], hctx, hids⟩

theorem Ctx.position_of_getElem {ids : List FVarId} {i : BVarId} (hids : ids[i]? = some f) :
    ∀ {ctx : Ctx} {k : Nat}, ctx.flatten.Nodup → ctx[k]? = some ids →
      Ctx.position ctx f = some { scope := k, id := i }
  | ids' :: ctx, 0, hnodup, hk => by
    obtain rfl : ids' = ids := by simpa using hk
    simp only [flatten_cons, nodup_append] at hnodup
    obtain ⟨hi, rfl⟩ := List.getElem?_eq_some_iff.mp hids
    simp [Ctx.position, List.Nodup.idxOf_getElem hnodup.1]
  | ids' :: ctx, k + 1, hnodup, hk => by
    have hk' : ctx[k]? = some ids := by simpa using hk
    simp only [flatten_cons, nodup_append] at hnodup
    have hmem : f ∈ ctx.flatten := mem_flatten.mpr ⟨ids, mem_of_getElem? hk', mem_of_getElem? hids⟩
    have hf : f ∉ ids' := fun hf => hnodup.2.2 f hf f hmem rfl
    simp [Ctx.position, hf, Ctx.position_of_getElem hids hnodup.2.1 hk']

/-! ## Closing and renaming -/

def closeVar (ctx : Ctx) (f : FVarId) : Expr :=
  match ctx.position f with
  | none => .fvar f
  | some v => .bvar v

def closeBinder (v : FVar) (mp : Option MPlace) : Pat := .bound { basename := v.basename, ty := v.ty } mp

def closeTPats (ps : List TPat) : List TPat := mapVarsTPats .bound closeBinder ps

def Texpr.closeIn (ctx : Ctx) (e : Texpr) : Texpr := e.mapIn closeVar .bound closeBinder Ctx.push ctx

def closeScoped (ctx : Ctx) (c : Scoped Texpr) : Scoped Texpr :=
  (c.1.mapVars .bound closeBinder, c.2.closeIn (c.1.under Ctx.push ctx))

def renameBinder (r : FVarId → FVarId) (v : FVar) (mp : Option MPlace) : Pat := .opened { v with id := r v.id } mp

def renameTPats (r : FVarId → FVarId) (ps : List TPat) : List TPat := mapVarsTPats .bound (renameBinder r) ps

def Texpr.rename (r : FVarId → FVarId) (e : Texpr) : Texpr :=
  e.mapIn (fun _ f => .fvar (r f)) .bound (renameBinder r) (fun _ u => u) ()

def renameScoped (r : FVarId → FVarId) (c : Scoped Texpr) : Scoped Texpr :=
  (c.1.mapVars .bound (renameBinder r), c.2.rename r)

theorem Texpr.closeIn_fvar (ctx : Ctx) (f : FVarId) (ty : Ty) :
    (mk (.fvar f) ty).closeIn ctx = .mk (closeVar ctx f) ty :=
  mapIn_fvar f ty

theorem Texpr.closeIn_node (ctx : Ctx) (he : e.IsNode) (ty : Ty) :
    (mk e ty).closeIn ctx = .mk (e.rebuild (e.children.map (closeScoped ctx))) ty :=
  mapIn_node he.1 ty

theorem Texpr.rename_fvar (r : FVarId → FVarId) (f : FVarId) (ty : Ty) :
    (mk (.fvar f) ty).rename r = .mk (.fvar (r f)) ty :=
  mapIn_fvar f ty

theorem Texpr.rename_node (r : FVarId → FVarId) (he : ∀ f, e ≠ .fvar f) (ty : Ty) :
    (mk e ty).rename r = .mk (e.rebuild (e.children.map (renameScoped r))) ty :=
  mapIn_node he ty

theorem fits_close (ctx : Ctx) (cs : List (Scoped Texpr)) : Fits cs (cs.map (closeScoped ctx)) := by
  refine forall₂_map_right_iff.mpr (forall₂_same.mpr fun c _ => ?_)
  exact c.1.like_mapVars _ _

theorem fits_rename (r : FVarId → FVarId) (cs : List (Scoped Texpr)) : Fits cs (cs.map (renameScoped r)) := by
  refine forall₂_map_right_iff.mpr (forall₂_same.mpr fun c _ => ?_)
  exact c.1.like_mapVars _ _

theorem renameTPats_id (ps : List TPat) : renameTPats id ps = ps := by
  induction ps using tpats_induct <;>
    simp_all [renameTPats, mapVarsTPats, TPat.mapVars, Pat.mapVars, renameBinder]

theorem Group.rename_id (g : Group) : g.mapVars .bound (renameBinder id) = g := by
  cases g with
  | none => rfl
  | one pat =>
    have h : [pat.mapVars .bound (renameBinder id)] = [pat] := renameTPats_id [pat]
    exact congrArg Group.one (by simpa using h)
  | many pats => exact congrArg Group.many (renameTPats_id pats)

theorem Texpr.rename_id (e : Texpr) : e.rename id = e := by
  induction e using induct with
  | h e ty ih =>
    by_cases he : ∃ f, e = .fvar f
    · obtain ⟨f, rfl⟩ := he
      rw [rename_fvar]
      rfl
    · have hchildren : e.children.map (renameScoped id) = e.children :=
        (map_congr_left fun c hc => Prod.ext (c.1.rename_id) (ih c hc)).trans (map_id _)
      rw [rename_node id (fun f hf => he ⟨f, hf⟩), hchildren, e.rebuild_children]

/-! ## Checks -/

section
variable {γ : Type}

def checker (onFVar : FVarId → γ → Bool) (onBVar : BVar → γ → Bool) (onPats : List TPat → Bool)
    (push : List TPat → γ → γ) : Visitor (γ → Bool) (γ → Bool) :=
  collector onFVar onBVar (fun _ _ => true) fun l x => l.all fun c => onPats c.1.pats && c.2 (c.1.under push x)

variable {onFVar : FVarId → γ → Bool} {onBVar : BVar → γ → Bool} {onPats : List TPat → Bool}
  {push : List TPat → γ → γ} {x : γ}

theorem Texpr.check_node {e : Expr} (he : e.IsNode) (ty : Ty) :
    (mk e ty).visit (checker onFVar onBVar onPats push) x = true ↔ ∀ c ∈ e.children,
      onPats c.1.pats = true ∧ c.2.visit (checker onFVar onBVar onPats push) (c.1.under push x) = true := by
  rw [checker, collect_node he]
  · simp only [all_map, all_eq_true, Function.comp_apply, Bool.and_eq_true]
  · intro q
    rfl

end

def Texpr.isOpened (e : Texpr) : Bool :=
  e.visit (checker (fun _ _ => true) (fun _ _ => false) (fun ps => (tpatsBound ps).isEmpty) fun _ u => u) ()

def Texpr.isScopedIn (free : FVarId → Bool) (ctx : Ctx) (e : Texpr) : Bool :=
  e.visit (checker (fun f ctx => free f || ctx.flatten.contains f) (fun _ _ => true) (fun _ => true) Ctx.push) ctx

/-- Every bound variable designates a binder of a group around it, whose sizes are given; there
is no opened binder and the free variables satisfy `free`. -/
def Texpr.isClosedIn (free : FVarId → Bool) (sizes : List Nat) (e : Texpr) : Bool :=
  e.visit (checker (fun f _ => free f)
    (fun v sizes => decide (0 ≤ v.scope) && (sizes[v.scope.toNat]?).any fun n => decide (v.id < n))
    (fun ps => (tpatsIds ps).isEmpty) fun ps sizes => (tpatsBound ps).length :: sizes) sizes

def Texpr.binderIds (e : Texpr) : List FVarId :=
  e.visit (collector (fun _ => []) (fun _ => []) (fun _ => []) fun l => l.flatMap fun c => tpatsIds c.1.pats ++ c.2)

def scopedBinderIds (c : Scoped Texpr) : List FVarId := tpatsIds c.1.pats ++ c.2.binderIds

theorem Texpr.binderIds_fvar (f : FVarId) (ty : Ty) : (mk (.fvar f) ty).binderIds = [] := rfl

theorem Texpr.binderIds_node (he : e.IsNode) (ty : Ty) :
    (mk e ty).binderIds = e.children.flatMap scopedBinderIds := by
  rw [binderIds, collect_node he]
  · rw [flatMap_map]
    rfl
  · intro q
    rfl

def Texpr.OpenedIn (free : FVarId → Bool) (ctx : Ctx) (e : Texpr) : Prop :=
  e.isOpened = true ∧ e.isScopedIn free ctx = true

def ScopedOpenedIn (free : FVarId → Bool) (ctx : Ctx) (c : Scoped Texpr) : Prop :=
  tpatsBound c.1.pats = [] ∧ c.2.OpenedIn free (c.1.under Ctx.push ctx)

variable {free : FVarId → Bool} {ctx : Ctx}

theorem Texpr.openedIn_node (he : e.IsNode) (ty : Ty) :
    (mk e ty).OpenedIn free ctx ↔ ∀ c ∈ e.children, ScopedOpenedIn free ctx c := by
  simp only [OpenedIn, isOpened, isScopedIn, check_node he, ScopedOpenedIn, List.isEmpty_iff]
  constructor
  · intro h c hc
    exact ⟨(h.1 c hc).1, (h.1 c hc).2, (h.2 c hc).2⟩
  · intro h
    exact ⟨fun c hc => ⟨(h c hc).1, (h c hc).2.1⟩, fun c hc => ⟨trivial, (h c hc).2.2⟩⟩

variable {ty : Ty}

theorem Texpr.openedIn_fvar :
    (mk (.fvar f) ty).OpenedIn free ctx ↔ free f = true ∨ f ∈ ctx.flatten := by
  show true = true ∧ (free f || ctx.flatten.contains f) = true ↔ _
  simp

theorem Texpr.not_openedIn_bvar {v : BVar} :
    ¬ (mk (.bvar v) ty).OpenedIn free ctx := by
  intro h
  exact Bool.false_ne_true h.1

def ScopedClosedIn (free : FVarId → Bool) (sizes : List Nat) (c : Scoped Texpr) : Prop :=
  tpatsIds c.1.pats = [] ∧
    c.2.isClosedIn free (c.1.under (fun ps sizes => (tpatsBound ps).length :: sizes) sizes) = true

theorem Texpr.isClosedIn_node {sizes : List Nat} (he : e.IsNode) (ty : Ty) :
    (mk e ty).isClosedIn free sizes = true ↔ ∀ c ∈ e.children, ScopedClosedIn free sizes c := by
  simp only [isClosedIn, check_node he, ScopedClosedIn, List.isEmpty_iff]

theorem Texpr.isClosedIn_bvar {sizes : List Nat} {v : BVar}
    (h : (mk (.bvar v) ty).isClosedIn free sizes = true) :
    ∃ k n : Nat, v.scope = k ∧ sizes[k]? = some n ∧ v.id < n := by
  have h' : (decide (0 ≤ v.scope) && (sizes[v.scope.toNat]?).any fun n => decide (v.id < n)) = true := h
  simp only [Bool.and_eq_true, decide_eq_true_eq, Option.any_eq_true] at h'
  obtain ⟨hscope, n, hn, hid⟩ := h'
  exact ⟨v.scope.toNat, n, by omega, hn, hid⟩

/-! ## The opened forms of a closed expression -/

theorem exists_openTPats (ps : List TPat) : tpatsIds ps = [] → ∀ n, ∃ ps', closeTPats ps' = ps ∧ tpatsBound ps' = [] ∧
    tpatsIds ps' = range' n (tpatsBound ps).length := by
  induction ps using tpats_induct with
  | nil =>
    intro _ n
    exact ⟨[], rfl, rfl, rfl⟩
  | constant l ty ps ih =>
    intro hps n
    obtain ⟨ps', hclose, hbound, hids⟩ := ih hps n
    exact ⟨.mk (.constant l) ty :: ps', congrArg _ hclose, hbound, hids⟩
  | bound v mp ty ps ih =>
    intro hps n
    obtain ⟨ps', hclose, hbound, hids⟩ := ih hps (n + 1)
    refine ⟨.mk (.opened { id := n, basename := v.basename, ty := v.ty } mp) ty :: ps', congrArg _ hclose, hbound, ?_⟩
    exact congrArg (cons n) hids
  | ignored ty ps ih =>
    intro hps n
    obtain ⟨ps', hclose, hbound, hids⟩ := ih hps n
    exact ⟨.mk .ignored ty :: ps', congrArg _ hclose, hbound, hids⟩
  | opened v mp ty ps ih =>
    intro hps
    simp [tpatsIds, tpatsVars, TPat.vars, Pat.vars] at hps
  | adt variantId fields ty ps ihf ih =>
    intro hps n
    have hps' : tpatsIds fields ++ tpatsIds ps = [] := hps
    rw [append_eq_nil_iff] at hps'
    obtain ⟨fields', hclosef, hboundf, hidsf⟩ := ihf hps'.1 n
    obtain ⟨ps', hclose, hbound, hids⟩ := ih hps'.2 (n + (tpatsBound fields).length)
    have hsize : tpatsBound (.mk (.adt variantId fields) ty :: ps) = tpatsBound fields ++ tpatsBound ps := rfl
    refine ⟨.mk (.adt variantId fields') ty :: ps', ?_, ?_, ?_⟩
    · exact congrArg₂ (fun fs l => TPat.mk (.adt variantId fs) ty :: l) hclosef hclose
    · exact append_eq_nil_iff.mpr ⟨hboundf, hbound⟩
    · rw [hsize, length_append, ← range'_append_1]
      exact congrArg₂ (· ++ ·) hidsf hids

theorem Group.exists_open (hg : tpatsIds g.pats = []) (n : FVarId) :
    ∃ g' : Group, g'.mapVars .bound closeBinder = g ∧ tpatsBound g'.pats = [] ∧
      tpatsIds g'.pats = range' n (tpatsBound g.pats).length := by
  obtain ⟨ps', hclose, hbound, hids⟩ := exists_openTPats g.pats hg n
  cases g with
  | none => exact ⟨.none, rfl, rfl, rfl⟩
  | one p =>
    cases ps' with
    | nil => cases hclose
    | cons p' l =>
      cases l with
      | nil => exact ⟨.one p', congrArg Group.one (cons.inj hclose).1, hbound, hids⟩
      | cons _ _ => cases (cons.inj hclose).2
  | many ps => exact ⟨.many ps', congrArg Group.many hclose, hbound, hids⟩

/-- The identifiers of the context are distinct, and the generator is ahead of them and of the free variables. -/
structure Ctx.Ahead (free : FVarId → Bool) (ctx : Ctx) (n : FVarId) : Prop where
  nodup : ctx.flatten.Nodup
  lt : ∀ f ∈ ctx.flatten, f < n
  notFree : ∀ f ∈ ctx.flatten, free f = false
  freeLt : ∀ f, free f = true → f < n

variable {n : FVarId}

theorem Ctx.Ahead.mono (h : ctx.Ahead free n) (k : Nat) :
    ctx.Ahead free (n + k) :=
  ⟨h.nodup, fun f hf => Nat.lt_add_right k (h.lt f hf), h.notFree, fun f hf => Nat.lt_add_right k (h.freeLt f hf)⟩

theorem Ctx.Ahead.push (h : ctx.Ahead free n) (k : Nat) :
    Ctx.Ahead free (range' n k :: ctx) (n + k) := by
  refine ⟨?_, ?_, ?_, (h.mono k).freeLt⟩
  · refine nodup_append.mpr ⟨nodup_range', h.nodup, ?_⟩
    intro f hf g hg hfg
    have hle := (mem_range'_1.mp hf).1
    have hlt := h.lt g hg
    exact absurd (hfg ▸ hlt) (Nat.not_lt.mpr hle)
  · intro f hf
    rcases mem_append.mp hf with hf | hf
    · exact (mem_range'_1.mp hf).2
    · exact (h.mono k).lt f hf
  · intro f hf
    rcases mem_append.mp hf with hf | hf
    · have hle := (mem_range'_1.mp hf).1
      exact Bool.eq_false_iff.mpr fun hfree => absurd (h.freeLt f hfree) (Nat.not_lt.mpr hle)
    · exact h.notFree f hf

def Texpr.HasOpened (e : Texpr) : Prop := ∀ {free ctx n}, Ctx.Ahead free ctx n →
  e.isClosedIn free (ctx.map length) = true →
  ∃ (e' : Texpr) (k : Nat), e'.closeIn ctx = e ∧ e'.OpenedIn free ctx ∧ e'.binderIds = range' n k

theorem exists_openScoped {c : Scoped Texpr} (hc : c.2.HasOpened)
    (h : ctx.Ahead free n) (hclosed : ScopedClosedIn free (ctx.map length) c) :
    ∃ c' k, closeScoped ctx c' = c ∧ ScopedOpenedIn free ctx c' ∧ scopedBinderIds c' = range' n k := by
  obtain ⟨g, e⟩ := c
  obtain ⟨g', hg', hbound, hids⟩ : ∃ g' : Group, g'.mapVars .bound closeBinder = g ∧ _ :=
    Group.exists_open hclosed.1 n
  by_cases hg : g' = .none
  · subst hg hg'
    obtain ⟨e', k, hclose, hopened, hbinders⟩ := hc h hclosed.2
    exact ⟨(.none, e'), k, congrArg _ hclose, ⟨rfl, hopened⟩, hbinders⟩
  · have hgne : g ≠ .none := hg' ▸ Group.mapVars_ne_none hg
    have hctx : g'.under Ctx.push ctx = range' n (tpatsBound g.pats).length :: ctx := by
      rw [Group.under_eq hg, Ctx.push, hids]
    have hclosed' := hclosed.2
    rw [Group.under_eq hgne] at hclosed'
    obtain ⟨e', k, hclose, hopened, hbinders⟩ := hc (h.push (tpatsBound g.pats).length) (by simpa using hclosed')
    rw [← hctx] at hclose hopened
    refine ⟨(g', e'), (tpatsBound g.pats).length + k, ?_, ⟨hbound, hopened⟩, ?_⟩
    · rw [closeScoped, hg', hclose]
    · rw [scopedBinderIds, hids, hbinders, range'_append_1]

theorem exists_openChildren : ∀ {cs : List (Scoped Texpr)} {n : FVarId},
    (∀ c ∈ cs, c.2.HasOpened) → ctx.Ahead free n → (∀ c ∈ cs, ScopedClosedIn free (ctx.map length) c) →
    ∃ (cs' : List (Scoped Texpr)) (k : Nat), cs'.map (closeScoped ctx) = cs ∧ (∀ c ∈ cs', ScopedOpenedIn free ctx c) ∧
      cs'.flatMap scopedBinderIds = range' n k
  | [], n, _, _, _ => ⟨[], 0, rfl, by simp, rfl⟩
  | c :: cs, n, hcs, h, hclosed => by
    obtain ⟨hc, hcs⟩ := forall_mem_cons.mp hcs
    obtain ⟨hclosedc, hclosed⟩ := forall_mem_cons.mp hclosed
    obtain ⟨c', k, hclosec, hopenedc, hbindersc⟩ := exists_openScoped hc h hclosedc
    obtain ⟨cs', m, hclose, hopened, hbinders⟩ := exists_openChildren hcs (h.mono k) hclosed
    refine ⟨c' :: cs', k + m, by simp [hclosec, hclose], forall_mem_cons.mpr ⟨hopenedc, hopened⟩, ?_⟩
    rw [flatMap_cons, hbindersc, hbinders, range'_append_1]

theorem Texpr.hasOpened (e : Texpr) : e.HasOpened := by
  induction e using induct with
  | h e ty ih =>
    intro free ctx n h hclosed
    rcases e.var_or_node with ⟨f, rfl⟩ | ⟨v, rfl⟩ | he
    · have hf : free f = true := hclosed
      have hctx : f ∉ ctx.flatten := fun hmem => by simp [h.notFree f hmem] at hf
      refine ⟨.mk (.fvar f) ty, 0, ?_, openedIn_fvar.mpr (.inl hf), rfl⟩
      rw [closeIn_fvar, closeVar, Ctx.position_eq_none hctx]
    · obtain ⟨k, size, hscope, hsize, hid⟩ := isClosedIn_bvar hclosed
      obtain ⟨ids, hids, rfl⟩ : ∃ ids, ctx[k]? = some ids ∧ ids.length = size := by
        simpa [getElem?_map, Option.map_eq_some_iff] using hsize
      have hf : ids[v.id]? = some ids[v.id] := getElem?_eq_getElem hid
      have hmem : ids[v.id] ∈ ctx.flatten :=
        mem_flatten.mpr ⟨ids, mem_of_getElem? hids, getElem_mem hid⟩
      refine ⟨.mk (.fvar ids[v.id]) ty, 0, ?_, openedIn_fvar.mpr (.inr hmem), rfl⟩
      rw [closeIn_fvar, closeVar, Ctx.position_of_getElem hf h.nodup hids, ← hscope]
    · obtain ⟨cs, k, hclose, hopened, hbinders⟩ := exists_openChildren ih h ((isClosedIn_node he ty).mp hclosed)
      have hfits : Fits e.children cs := hclose ▸ (fits_close ctx cs).symm
      obtain ⟨hchildren, hrebuild⟩ := Expr.children_rebuild hfits (fits_refl e.children)
      refine ⟨.mk (e.rebuild cs) ty, k, ?_, ?_, ?_⟩
      · rw [closeIn_node ctx (he.rebuild cs), hchildren, hclose, hrebuild, e.rebuild_children]
      · rw [openedIn_node (he.rebuild cs), hchildren]
        exact hopened
      · rw [binderIds_node (he.rebuild cs), hchildren, hbinders]

/-! ## Repeated binders -/

inductive Texpr.GroupsNodup : Texpr → Prop
  | mk {e : Expr} {ty : Ty} (nodup : ∀ c ∈ e.children, (tpatsIds c.1.pats).Nodup)
    (children : ∀ c ∈ e.children, c.2.GroupsNodup) : GroupsNodup (.mk e ty)

/-- The binders of every group are distinct, and none is in the scope of a binder with the same identifier. -/
inductive Texpr.Unshadowed : Ctx → Texpr → Prop
  | mk {ctx : Ctx} {e : Expr} {ty : Ty} (nodup : ∀ c ∈ e.children, (tpatsIds c.1.pats).Nodup)
    (apart : ∀ c ∈ e.children, ∀ f ∈ tpatsIds c.1.pats, f ∉ ctx.flatten)
    (children : ∀ c ∈ e.children, Unshadowed (c.1.under Ctx.push ctx) c.2) : Unshadowed ctx (.mk e ty)

section
variable {e : Expr} {ty : Ty} {ctx : Ctx} {c : Scoped Texpr}

theorem Texpr.GroupsNodup.child (h : (Texpr.mk e ty).GroupsNodup) (hc : c ∈ e.children) :
    (tpatsIds c.1.pats).Nodup ∧ c.2.GroupsNodup := by
  cases h with
  | mk nodup children => exact ⟨nodup c hc, children c hc⟩

theorem Texpr.Unshadowed.child (h : (Texpr.mk e ty).Unshadowed ctx) (hc : c ∈ e.children) :
    (tpatsIds c.1.pats).Nodup ∧ (∀ f ∈ tpatsIds c.1.pats, f ∉ ctx.flatten) ∧
      c.2.Unshadowed (c.1.under Ctx.push ctx) := by
  cases h with
  | mk nodup apart children => exact ⟨nodup c hc, apart c hc, children c hc⟩

theorem Expr.isNode_of_child (hc : c ∈ e.children) : e.IsNode := by
  refine ⟨?_, ?_⟩
  · intro f hf
    simp [hf, children] at hc
  · intro v hv
    simp [hv, children] at hc

theorem Texpr.unshadowed_of_nodup (e : Texpr) :
    ∀ {ctx : Ctx}, (ctx.flatten ++ e.binderIds).Nodup → e.Unshadowed ctx := by
  induction e using induct with
  | h e ty ih =>
    intro ctx hnodup
    have hchild : ∀ c ∈ e.children, (ctx.flatten ++ scopedBinderIds c).Nodup := by
      intro c hc
      rw [binderIds_node (Expr.isNode_of_child hc)] at hnodup
      have hsub : List.Sublist (scopedBinderIds c) (e.children.flatMap scopedBinderIds) :=
        sublist_flatten_of_mem (mem_map_of_mem hc)
      exact hnodup.sublist (hsub.append_left _)
    have hparts := fun c hc => nodup_append.mp (hchild c hc)
    refine .mk (fun c hc => (nodup_append.mp (hparts c hc).2.1).1) ?_ ?_
    · intro c hc f hf hmem
      exact (hparts c hc).2.2 f hmem f (mem_append_left _ hf) rfl
    · intro c hc
      apply ih c hc
      by_cases hg : c.1 = .none
      · have hids : scopedBinderIds c = c.2.binderIds := by
          rw [scopedBinderIds, hg]
          rfl
        rw [hg, ← hids]
        exact hchild c hc
      · rw [Group.under_eq hg]
        have hperm : (ctx.flatten ++ scopedBinderIds c).Perm ((ctx.push c.1.pats).flatten ++ c.2.binderIds) := by
          simp only [scopedBinderIds, Ctx.push, flatten_cons, ← append_assoc]
          exact perm_append_comm.append_right _
        exact hperm.nodup_iff.mp (hchild c hc)

theorem Texpr.Unshadowed.groupsNodup (e : Texpr) : ∀ {ctx : Ctx}, e.Unshadowed ctx → e.GroupsNodup := by
  induction e using induct with
  | h e ty ih =>
    intro ctx h
    exact .mk (fun c hc => (h.child hc).1) fun c hc => ih c hc (h.child hc).2.2

end

end Aeneas.Pure
