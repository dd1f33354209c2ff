import Aeneas.PurePass
import Aeneas.SimplifyLetBranchingEval

/-!
# The simplification of the let-bindings over branchings

The visit simplifies a let-binding, then goes through its subexpressions. The
bodies stay well-scoped and keep their meaning as long as the outputs of the
let-bindings can be bound before the branchings.
-/

namespace Aeneas.Pure

open Texpr List

namespace SimplifyLetBranching

/-! ## The visit -/

/-- A let-binding which binds the components of a tuple to a branching. -/
inductive Target : Expr → Bool → List TPat → Texpr → Prop
  | mk {monadic : Bool} {variantId : Option VariantId} {pats : List TPat} {generics : GenericArgs} {bound next : Texpr}
    (hswitch : isSwitch bound = true) :
    Target (.letE monadic (.mk (.adt variantId pats) (.adt .tuple generics)) bound next) monadic pats bound

theorem optDestructTupleTPat_cases {pat : TPat} {fields : Option (List TPat)}
    (h : optDestructTupleTPat pat = .ok fields) :
    fields = none ∧ (∀ variantId pats generics, pat ≠ .mk (.adt variantId pats) (.adt .tuple generics)) ∨
      ∃ variantId pats generics, pat = .mk (.adt variantId pats) (.adt .tuple generics) ∧ fields = some pats := by
  unfold optDestructTupleTPat at h
  split at h
  · rename_i pat generics
    obtain ⟨_, -, h⟩ := bind_eq_ok.mp h
    cases pat with
    | adt variantId pats => exact .inr ⟨variantId, pats, generics, rfl, (Except.ok.inj h).symm⟩
    | _ => exact .inl ⟨(Except.ok.inj h).symm, by simp⟩
  · rename_i hpat
    exact .inl ⟨(Except.ok.inj h).symm, fun variantId pats generics hp => hpat _ _ hp⟩

section
variable [Ord Texpr] [Std.TransOrd Texpr] {cfg : FuelConfig}

/-- A node stays as it is or the let-binding is simplified. -/
inductive NodeStep (cfg : FuelConfig) : Expr → Expr → Prop
  | same {e : Expr} (hnone : ∀ monadic pats bound, ¬ Target e monadic pats bound) : NodeStep cfg e e
  | tuple {monadic : Bool} {variantId : Option VariantId} {pats : List TPat} {generics : GenericArgs}
    {bound next : Texpr} {r : TPat × Texpr × Texpr} (hswitch : isSwitch bound = true)
    (hr : simplifyAux cfg monadic pats bound next = .ok r) :
    NodeStep cfg (.letE monadic (.mk (.adt variantId pats) (.adt .tuple generics)) bound next)
      (.letE monadic r.1 r.2.1 r.2.2)

theorem simplifyNode_step {e e' : Expr} (h : simplifyNode cfg e = .ok e') : NodeStep cfg e e' := by
  unfold simplifyNode at h
  split at h
  · rename_i monadic pat bound next
    split at h
    · rename_i hswitch
      obtain ⟨r, hr, h⟩ := bind_eq_ok.mp h
      obtain rfl := Except.ok.inj h
      obtain ⟨fields, hfields, hr⟩ := bind_eq_ok.mp hr
      rcases optDestructTupleTPat_cases hfields with ⟨rfl, hpat⟩ | ⟨variantId, pats, generics, rfl, rfl⟩
      · obtain rfl := Except.ok.inj hr
        refine .same fun monadic' pats bound' htarget => ?_
        cases htarget
        exact hpat _ _ _ rfl
      · exact .tuple hswitch hr
    · rename_i hswitch
      obtain rfl := Except.ok.inj h
      refine .same fun monadic' pats bound' htarget => ?_
      cases htarget
      contradiction
  · rename_i hlet
    obtain rfl := Except.ok.inj h
    refine .same fun monadic' pats bound' htarget => ?_
    cases htarget
    exact hlet _ _ _ _ rfl

/-- All the let-bindings which the visit meets have the property. -/
def AllTargets (cfg : FuelConfig) (P : Bool → List TPat → Texpr → Prop) : Nat → Texpr → Prop
  | 0, _ => True
  | n + 1, .mk e _ => (∀ monadic pats bound, Target e monadic pats bound → P monadic pats bound) ∧
    ∀ e', simplifyNode cfg e = .ok e' → ∀ c ∈ e'.children, AllTargets cfg P n c.2

theorem visitTexpr_ok {n : Nat} {e : Expr} {ty : Ty} {x : Texpr} (h : visitTexpr cfg (n + 1) (.mk e ty) = .ok x) :
    ∃ e' cs, simplifyNode cfg e = .ok e' ∧ x = .mk (e'.rebuild cs) ty ∧
      Forall₂ (fun c c' : Scoped Texpr => c'.1 = c.1 ∧ visitTexpr cfg n c.2 = .ok c'.2) e'.children cs := by
  obtain ⟨e', he', h⟩ := bind_eq_ok.mp h
  obtain ⟨cs, hcs, h⟩ := bind_eq_ok.mp h
  refine ⟨e', cs, he', (Except.ok.inj h).symm, (mapM_eq_ok_iff.mp hcs).imp fun c c' hc => ?_⟩
  obtain ⟨x, hx, hc⟩ := bind_eq_ok.mp hc
  obtain rfl := Except.ok.inj hc
  exact ⟨rfl, hx⟩

end

/-! ## The scopes and the values -/

section

structure Simplified (ctx : Ctx) (e e' : Texpr) : Prop where
  separated : e'.Separated ctx
  count : ∀ f, e'.binderIds.count f ≤ e.binderIds.count f
  eval : ∀ {D X : Type} (I : Interp D X) (isCall : FunKey → Bool) (call : FunCalls D X),
    e'.eval I isCall call = e.eval I isCall call

variable {ctx : Ctx} {e : Expr} {ty : Ty} {cs : List (Scoped Texpr)}

theorem Simplified.trans {e e' e'' : Texpr} (h : Simplified ctx e e') (h' : Simplified ctx e' e'') :
    Simplified ctx e e'' :=
  ⟨h'.separated, fun f => Nat.le_trans (h'.count f) (h.count f), fun I isCall call =>
    (h'.eval I isCall call).trans (h.eval I isCall call)⟩

theorem simplified_refl {e : Texpr} (h : e.Separated ctx) : Simplified ctx e e :=
  ⟨h, fun _ => Nat.le_refl _, fun _ _ _ => rfl⟩

theorem Simplified.keeps {e e' : Texpr} (h : Simplified ctx e e') : e.Keeps ctx e' :=
  ⟨h.separated.wellScoped.opened, h.count⟩

theorem simplified_node (he : e.IsNode) (hsep : (mk e ty).Separated ctx)
    (h : Forall₂ (fun c c' : Scoped Texpr => c'.1 = c.1 ∧ Simplified (c.1.under Ctx.push ctx) c.2 c'.2)
      e.children cs) : Simplified ctx (.mk e ty) (.mk (e.rebuild cs) ty) := by
  have hkeeps := keeps_node he hsep.wellScoped.opened (h.imp fun c c' hc => ⟨hc.1, hc.2.keeps⟩) ty
  exact ⟨hkeeps.separated hsep, hkeeps.count, fun I isCall call =>
    eval_rebuild (h.imp fun c c' hc => ⟨hc.1, hc.2.eval I isCall call⟩)⟩

variable [Ord Texpr] [Std.TransOrd Texpr] [Std.LawfulEqOrd Texpr] {cfg : FuelConfig} {tc : TypingCtx} {e' : Expr}

/-- The outputs of the let-binding can be bound before the branching. -/
abbrev TargetHoistable (cfg : FuelConfig) (_ : Bool) (pats : List TPat) (bound : Texpr) : Prop :=
  Hoistable cfg pats.length bound

theorem simplifyNode_separated (h : simplifyNode cfg e = .ok e') (hsep : (mk e ty).Separated ctx)
    (htyped : (mk e ty).LetsTyped tc)
    (hoist : ∀ monadic pats bound, Target e monadic pats bound → TargetHoistable cfg monadic pats bound) :
    (mk e' ty).Separated ctx ∧ ∀ f, (mk e' ty).binderIds.count f ≤ (mk e ty).binderIds.count f := by
  cases simplifyNode_step h with
  | same => exact ⟨hsep, fun _ => Nat.le_refl _⟩
  | tuple hswitch hr =>
    obtain ⟨-, -, hlen, -⟩ := htyped.letTyped.pat.tuple
    exact simplifyAux_separated hsep hlen hr (hoist _ _ _ (.mk hswitch))

theorem simplifyNode_simplified (h : simplifyNode cfg e = .ok e') (hsep : (mk e ty).Separated ctx)
    (htyped : (mk e ty).LetsTyped tc)
    (hoist : ∀ monadic pats bound, Target e monadic pats bound → TargetHoistable cfg monadic pats bound) :
    Simplified ctx (.mk e ty) (.mk e' ty) := by
  obtain ⟨hsep', hcount⟩ := simplifyNode_separated h hsep htyped hoist
  refine ⟨hsep', hcount, fun I isCall call => ?_⟩
  cases simplifyNode_step h with
  | same => rfl
  | tuple hswitch hr =>
    funext env args
    exact simplifyAux_eval htyped.letTyped hsep hr (hoist _ _ _ (.mk hswitch)) env args

theorem simplifyNode_letsTyped (h : simplifyNode cfg e = .ok e') (htyped : (mk e ty).LetsTyped tc) :
    ∀ c ∈ e'.children, c.2.LetsTyped tc := by
  cases simplifyNode_step h with
  | same => exact fun c hc => htyped.child hc
  | tuple _ hr =>
    simpa [Expr.children] using simplifyAux_letsTyped htyped hr

theorem simplifyNode_weight (h : simplifyNode cfg e = .ok e') (htyped : (mk e ty).LetsTyped tc) :
    weight (mk e' ty) ≤ weight (mk e ty) := by
  cases simplifyNode_step h with
  | same => exact Nat.le_refl _
  | tuple _ hr =>
    obtain ⟨-, -, hlen, -⟩ := htyped.letTyped.pat.tuple
    obtain ⟨outputs, bound', hpicked, rfl, hupdate⟩ := simplifyAux_ok hr
    have hdrops := hpicked.weight_drops hlen hupdate sizeWeight
    have houts := weight_components (outputs.filterMap id)
    rw [Weight.outs, ← map_snd_removed hpicked.length, map_map] at hdrops
    rw [← map_snd_removed hpicked.length, map_map, map_map] at houts
    rw [weight_letE, weight_letE, weight_mkOpenedLets]
    simp only [Function.comp_def, sizeWeight] at hdrops houts ⊢
    omega

/-- The weight is enough depth: the visit can only fail where a node does. -/
theorem visitTexpr_error {x : Exn} : ∀ {n : Nat} {e : Texpr}, weight e ≤ n → e.LetsTyped tc →
    visitTexpr cfg n e = .error x → ∃ e', simplifyNode cfg e' = .error x
  | 0, e, hn, _, _ => absurd hn (Nat.not_le_of_lt (weight_pos e))
  | n + 1, .mk e ty, hn, htyped, h => by
    rcases bind_eq_error h with hx | ⟨e', he', h⟩
    · exact ⟨e, hx⟩
    rcases bind_eq_error h with h | ⟨cs, -, ⟨⟩⟩
    obtain ⟨c, hc, h⟩ := mapM_eq_error h
    rcases bind_eq_error h with h | ⟨c', -, ⟨⟩⟩
    have hlt : weight c.2 < weight (mk e' ty) := weight_child hc
    have hle := simplifyNode_weight he' htyped
    exact visitTexpr_error (by omega) (simplifyNode_letsTyped he' htyped c hc) h

theorem visitTexpr_depth : ∀ {n m : Nat} {e : Texpr}, weight e ≤ n → weight e ≤ m → e.LetsTyped tc →
    visitTexpr cfg n e = visitTexpr cfg m e
  | 0, _, e, hn, _, _ | _, 0, e, _, hn, _ => absurd hn (Nat.not_le_of_lt (weight_pos e))
  | n + 1, m + 1, .mk e ty, hn, hm, htyped => by
    rw [visitTexpr, visitTexpr]
    cases he' : simplifyNode cfg e with
    | error x => rfl
    | ok e' =>
      rw [bind_eq_of_ok rfl, bind_eq_of_ok rfl]
      refine congrArg (Except.bind · _) (mapM_congr fun c hc => ?_)
      have hlt : weight c.2 < weight (mk e' ty) := weight_child hc
      have hle := simplifyNode_weight he' htyped
      rw [visitTexpr_depth (m := m) (by omega) (by omega) (simplifyNode_letsTyped he' htyped c hc)]

theorem visitTexpr_simplified : ∀ (n : Nat) {ctx : Ctx} {e e' : Texpr}, visitTexpr cfg n e = .ok e' → e.Separated ctx →
    e.LetsTyped tc → AllTargets cfg (TargetHoistable cfg) n e → Simplified ctx e e'
  | 0, _, _, _, h, _, _, _ => by cases h
  | n + 1, ctx, .mk e ty, x, h, hsep, htyped, hall => by
    obtain ⟨hoist, hall⟩ := hall
    obtain ⟨e', cs, he', rfl, hcs⟩ := visitTexpr_ok h
    have hnode : Simplified ctx (.mk e ty) (.mk e' ty) := simplifyNode_simplified he' hsep htyped hoist
    refine hnode.trans ?_
    rcases e'.var_or_node with ⟨f, rfl⟩ | ⟨v, rfl⟩ | hisNode
    · exact simplified_refl hnode.separated
    · exact simplified_refl hnode.separated
    · have hcs := (forall₂_and_left e'.children cs).mpr ⟨fun c hc => hc, hcs⟩
      refine simplified_node hisNode hnode.separated (hcs.imp fun c c' h => ?_)
      obtain ⟨hc, hvisit⟩ := h
      exact ⟨hvisit.1, visitTexpr_simplified n hvisit.2 (hnode.separated.child hc)
        (simplifyNode_letsTyped he' htyped c hc)
        (hall e' he' c hc)⟩

end

end SimplifyLetBranching

end Aeneas.Pure
