import Aeneas.PureUtils

/-!
# Free variables

The variables which an expression uses and does not bind are the only ones its
value depends on. They are those of its subexpressions, but for the binders on
the way.
-/

namespace Aeneas.Pure

open List

def Texpr.freeVars (e : Texpr) : List FVarId :=
  e.visit (collector (fun f => [f]) (fun _ => []) (fun _ => []) fun l =>
    l.flatMap fun c => c.2.filter fun f => !(tpatsIds c.1.pats).contains f)

section
variable {e : Expr} {ty : Ty} {f : FVarId}

theorem Texpr.freeVars_fvar (f : FVarId) (ty : Ty) : (Texpr.mk (.fvar f) ty).freeVars = [f] := rfl

theorem Texpr.mem_freeVars_node (he : e.IsNode) (ty : Ty) : f ∈ (Texpr.mk e ty).freeVars ↔
    ∃ c ∈ e.children, f ∈ c.2.freeVars ∧ f ∉ tpatsIds c.1.pats := by
  rw [freeVars, collect_node he]
  · simp [freeVars]
  · intro q
    rfl

theorem Texpr.isOpened_node (he : e.IsNode) (ty : Ty) : (Texpr.mk e ty).isOpened = true ↔
    ∀ c ∈ e.children, tpatsBound c.1.pats = [] ∧ c.2.isOpened = true := by
  simp only [isOpened, check_node he, List.isEmpty_iff]

theorem Texpr.not_isOpened_bvar (v : BVar) (ty : Ty) : ¬ (Texpr.mk (.bvar v) ty).isOpened = true := by
  intro h
  exact Bool.false_ne_true h

theorem Texpr.isOpened_fvar (f : FVarId) (ty : Ty) : (Texpr.mk (.fvar f) ty).isOpened = true := rfl

theorem mem_under {g : Group} {ctx : Ctx} :
    f ∈ (g.under Ctx.push ctx).flatten ↔ f ∈ tpatsIds g.pats ∨ f ∈ ctx.flatten := by
  cases g <;> simp [Group.under, Group.pats, Ctx.push]

theorem Texpr.openedIn_iff (e : Texpr) : ∀ {free : FVarId → Bool} {ctx : Ctx}, e.OpenedIn free ctx ↔
    e.isOpened = true ∧ ∀ f ∈ e.freeVars, free f = true ∨ f ∈ ctx.flatten := by
  induction e using Texpr.induct with
  | h e ty ih =>
    intro free ctx
    rcases e.var_or_node with ⟨f, rfl⟩ | ⟨v, rfl⟩ | he
    · simp [openedIn_fvar, isOpened_fvar, freeVars_fvar]
    · simp [not_openedIn_bvar, not_isOpened_bvar]
    · rw [openedIn_node he, isOpened_node he]
      constructor
      · intro h
        refine ⟨fun c hc => ⟨(h c hc).1, (h c hc).2.1⟩, fun f hf => ?_⟩
        obtain ⟨c, hc, hf, hfresh⟩ := (mem_freeVars_node he ty).mp hf
        have hscope := ((ih c hc).mp (h c hc).2).2 f hf
        rw [mem_under] at hscope
        tauto
      · rintro ⟨hopened, hfree⟩ c hc
        refine ⟨(hopened c hc).1, (ih c hc).mpr ⟨(hopened c hc).2, fun f hf => ?_⟩⟩
        rw [mem_under]
        by_cases hfresh : f ∈ tpatsIds c.1.pats
        · exact .inr (.inl hfresh)
        · exact (hfree f ((mem_freeVars_node he ty).mpr ⟨c, hc, hf, hfresh⟩)).imp_right .inr

end

/-! ## Subexpressions -/

inductive Texpr.Within (d : Texpr) : Texpr → Prop
  | refl : Within d d
  | child {e : Expr} {ty : Ty} {c : Scoped Texpr} (hc : c ∈ e.children) (h : Within d c.2) : Within d (.mk e ty)

section
variable {d e : Texpr} {f : FVarId}

theorem Texpr.within_mk {e : Expr} {ty : Ty} : d.Within (.mk e ty) ↔ d = .mk e ty ∨ ∃ c ∈ e.children, d.Within c.2 := by
  constructor
  · intro h
    cases h with
    | refl => exact .inl rfl
    | child hc h => exact .inr ⟨_, hc, h⟩
  · rintro (rfl | ⟨c, hc, h⟩)
    · exact .refl
    · exact .child hc h

theorem Texpr.Within.trans {d' : Texpr} (h : d.Within e) (h' : d'.Within d) : d'.Within e := by
  induction h with
  | refl => exact h'
  | child hc _ ih => exact .child hc ih

theorem Texpr.Within.isOpened (h : d.Within e) (he : e.isOpened = true) : d.isOpened = true := by
  induction h with
  | refl => exact he
  | child hc _ ih => exact ih ((isOpened_node (Expr.isNode_of_child hc) _).mp he _ hc).2

theorem Texpr.Within.freeVars (h : d.Within e) (hf : f ∈ d.freeVars) : f ∈ e.freeVars ∨ f ∈ e.binderIds := by
  induction h with
  | refl => exact .inl hf
  | @child e ty c hc _ ih =>
    have he := Expr.isNode_of_child hc
    rw [mem_freeVars_node he, binderIds_node he]
    by_cases hg : f ∈ scopedBinderIds c
    · exact .inr (mem_flatMap.mpr ⟨c, hc, hg⟩)
    · have hg' : f ∉ tpatsIds c.1.pats ∧ f ∉ c.2.binderIds := by simpa [scopedBinderIds] using hg
      exact .inl ⟨c, hc, ih.resolve_right hg'.2, hg'.1⟩

theorem count_le_flatMap {α β : Type} [BEq β] {g : α → List β} {a : α} {l : List α} (ha : a ∈ l) (b : β) :
    (g a).count b ≤ (l.flatMap g).count b := by
  induction l with
  | nil => simp at ha
  | cons a' l ih =>
    rw [flatMap_cons, count_append]
    rcases mem_cons.mp ha with rfl | ha
    · omega
    · have := ih ha
      omega

theorem Texpr.Within.count (h : d.Within e) (f : FVarId) : d.binderIds.count f ≤ e.binderIds.count f := by
  induction h with
  | refl => exact Nat.le_refl _
  | @child e ty c hc _ ih =>
    have hchild := count_le_flatMap (g := scopedBinderIds) hc f
    rw [binderIds_node (Expr.isNode_of_child hc)]
    rw [scopedBinderIds, count_append] at hchild
    omega

theorem Texpr.Within.mem_binderIds (h : d.Within e) (hf : f ∈ d.binderIds) : f ∈ e.binderIds :=
  count_pos_iff.mp (Nat.lt_of_lt_of_le (count_pos_iff.mpr hf) (h.count f))

theorem Texpr.Within.nodup (h : d.Within e) (he : e.binderIds.Nodup) : d.binderIds.Nodup := by
  rw [nodup_iff_count_le_one] at he ⊢
  exact fun f => Nat.le_trans (h.count f) (he f)

variable {head : Texpr} {args : List Texpr}

theorem IsApps.within (h : IsApps head args e) :
    head.Within e ∧ ∀ x ∈ args, x.Within e := by
  induction h with
  | nil head => exact ⟨.refl, by simp⟩
  | cons ty _ ih =>
    obtain ⟨happ, hargs⟩ := ih
    refine ⟨happ.trans (.child (mem_cons_self ..) .refl), forall_mem_cons.mpr ⟨?_, hargs⟩⟩
    exact happ.trans (.child (mem_cons_of_mem _ (mem_cons_self ..)) .refl)

theorem IsApps.mem_freeVars (h : IsApps head args e) :
    f ∈ e.freeVars ↔ f ∈ head.freeVars ∨ ∃ x ∈ args, f ∈ x.freeVars := by
  induction h with
  | nil head => simp
  | cons ty _ ih =>
    rw [ih, Texpr.mem_freeVars_node (Expr.isNode_app _ _)]
    simp [Expr.children, Group.pats, tpatsIds, tpatsVars, or_assoc]

theorem IsApps.isOpened_iff (h : IsApps head args e) :
    e.isOpened = true ↔ head.isOpened = true ∧ ∀ x ∈ args, x.isOpened = true := by
  induction h with
  | nil head => simp
  | cons ty _ ih =>
    rw [ih, Texpr.isOpened_node (Expr.isNode_app _ _)]
    simp [Expr.children, Group.pats, tpatsBound, tpatsVars, and_assoc]

end

/-! ## Separated binders -/

structure Texpr.Separated (ctx : Ctx) (e : Texpr) : Prop where
  wellScoped : e.WellScoped (fun _ => false) ctx
  apart : ∀ f ∈ ctx.flatten, f ∉ e.binderIds

theorem FunBody.WellScoped.separated {b : FunBody} (h : b.WellScoped) : b.body.Separated [tpatsIds b.inputs] := by
  refine ⟨h.body, fun f hf hmem => ?_⟩
  obtain ⟨-, -, hdisjoint⟩ := nodup_append.mp h.nodup
  exact hdisjoint f (by simpa using hf) f hmem rfl

theorem Texpr.Separated.child {ctx : Ctx} {e : Expr} {ty : Ty} {c : Scoped Texpr} (h : (Texpr.mk e ty).Separated ctx)
    (hc : c ∈ e.children) : c.2.Separated (c.1.under Ctx.push ctx) := by
  have he := Expr.isNode_of_child hc
  refine ⟨(h.wellScoped.child he hc).2.2, fun f hf hmem => ?_⟩
  have hids : f ∈ scopedBinderIds c := mem_append_right _ hmem
  rcases mem_under.mp hf with hf | hf
  · have hnodup := h.wellScoped.nodup
    rw [binderIds_node he, nodup_flatMap] at hnodup
    exact (nodup_append.mp (hnodup.1 c hc)).2.2 f hf f hmem rfl
  · refine h.apart f hf ?_
    rw [binderIds_node he]
    exact mem_flatMap.mpr ⟨c, hc, hids⟩

theorem Texpr.Separated.of_count {ctx : Ctx} {e e' : Texpr} (h : e.Separated ctx)
    (hopened : e'.OpenedIn (fun _ => false) ctx) (hcount : ∀ f, e'.binderIds.count f ≤ e.binderIds.count f) :
    e'.Separated ctx := by
  refine ⟨⟨hopened, ?_⟩, fun f hf hmem => h.apart f hf ?_⟩
  · have hnodup := h.wellScoped.nodup
    rw [nodup_iff_count_le_one] at hnodup ⊢
    exact fun f => Nat.le_trans (hcount f) (hnodup f)
  · exact count_pos_iff.mp (Nat.lt_of_lt_of_le (count_pos_iff.mpr hmem) (hcount f))

/-! ## Values -/

section
variable {D X : Type} {I : Interp D X} {isCall : FunKey → Bool} {call : FunCalls D X} {env env' : Env D X} {e : Texpr}

structure Env.SameBut (ids : List FVarId) (env env' : Env D X) : Prop where
  generics : env'.generics = env.generics
  fvars : ∀ f, f ∉ ids → env'.fvars f = env.fvars f

theorem Env.SameBut.refl (ids : List FVarId) (env : Env D X) : env.SameBut ids env := ⟨rfl, fun _ _ => rfl⟩

variable {ids : List FVarId}

theorem Env.SameBut.trans {env'' : Env D X} (h : env.SameBut ids env') (h' : env'.SameBut ids env'') :
    env.SameBut ids env'' :=
  ⟨h'.generics.trans h.generics, fun f hf => (h'.fvars f hf).trans (h.fvars f hf)⟩

theorem Env.SameBut.mono {ids' : List FVarId} (h : env.SameBut ids env') (hsub : ids ⊆ ids') :
    env.SameBut ids' env' :=
  ⟨h.generics, fun f hf => h.fvars f fun hmem => hf (hsub hmem)⟩

theorem Env.sameBut_push {l : List (Option FVarId × Value X)} (hl : l.map Prod.fst = ids.map some) :
    env.SameBut ids (env.push l) := by
  refine ⟨rfl, fun f hf => Env.setFVar_not_mem ?_⟩
  rw [hl]
  simpa using hf

theorem Texpr.eval_sameBut (hopened : e.isOpened = true)
    (hids : ∀ f ∈ e.freeVars, f ∉ ids) (h : env.SameBut ids env') (args : List (Value X)) :
    e.eval I isCall call env' args = e.eval I isCall call env args := by
  have hscoped : e.OpenedIn (fun f => e.freeVars.contains f) [] :=
    e.openedIn_iff.mpr ⟨hopened, fun f hf => .inl (by simpa using hf)⟩
  refine e.eval_agrees_opened hscoped ⟨h.generics, fun f hf => h.fvars f (hids f ?_)⟩ args
  simpa using hf

end

end Aeneas.Pure
