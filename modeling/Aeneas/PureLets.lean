import Aeneas.PureFreeVars
import Mathlib.Algebra.Order.BigOperators.Group.List
import Mathlib.Algebra.Order.Ring.Nat

/-!
# Patterns and sequences of let-bindings

The expression of an opened pattern has the value which the pattern matches. The
components of a tuple can be bound one by one, if what they are bound to does not
depend on the variables of the pattern.
-/

namespace Aeneas.Pure

open List Texpr

/-! ## Expressions of the patterns -/

section
variable {cfg : FuelConfig} {e : Expr} {ty ty' : Ty}

theorem Texpr.freeVars_retype (e : Expr) (ty ty' : Ty) : (mk e ty).freeVars = (mk e ty').freeVars := by
  simp only [freeVars, visit_mk]
  rfl

theorem Texpr.isOpened_retype (e : Expr) (ty ty' : Ty) : (mk e ty).isOpened = (mk e ty').isOpened := by
  simp only [isOpened, visit_mk]
  rfl

theorem Texpr.binderIds_retype (e : Expr) (ty ty' : Ty) : (mk e ty).binderIds = (mk e ty').binderIds := by
  simp only [binderIds, visit_mk]
  rfl

structure OfPats (ps : List TPat) (e : Texpr) : Prop where
  isOpened : e.isOpened = true
  binderIds : e.binderIds = []
  freeVars : ∀ f ∈ e.freeVars, f ∈ tpatsIds ps

variable {ps : List TPat}

theorem OfPats.mono {ps' : List TPat} {e : Texpr} (h : OfPats ps e) (hsub : tpatsIds ps ⊆ tpatsIds ps') :
    OfPats ps' e :=
  ⟨h.isOpened, h.binderIds, fun f hf => hsub (h.freeVars f hf)⟩

theorem tpatsIds_cons (p : TPat) (ps : List TPat) : tpatsIds (p :: ps) = tpatsIds [p] ++ tpatsIds ps := by
  simp [tpatsIds, tpatsVars]

theorem tpatsIds_adt (variantId : Option VariantId) (fields : List TPat) (ty : Ty) :
    tpatsIds [.mk (.adt variantId fields) ty] = tpatsIds fields := by
  simp [tpatsIds, tpatsVars, TPat.vars, Pat.vars]

theorem tpatsBound_cons (p : TPat) (ps : List TPat) : tpatsBound (p :: ps) = tpatsBound [p] ++ tpatsBound ps := by
  simp [tpatsBound, tpatsVars]

theorem tpatsBound_adt (variantId : Option VariantId) (fields : List TPat) (ty : Ty) :
    tpatsBound [.mk (.adt variantId fields) ty] = tpatsBound fields := by
  simp [tpatsBound, tpatsVars, TPat.vars, Pat.vars]

theorem ofPats_qualifApps {q : Qualif} {args : List Texpr} {e : Texpr}
    (h : mkQualifApps cfg q args ty = .ok e) (hargs : ∀ x ∈ args, OfPats ps x) : OfPats ps e := by
  have happs := isApps_mkApps h
  refine ⟨happs.isOpened_iff.mpr ⟨rfl, fun x hx => (hargs x hx).isOpened⟩, ?_, fun f hf => ?_⟩
  · rw [happs.binderIds, append_eq_nil_iff, flatMap_eq_nil_iff]
    exact ⟨rfl, fun x hx => (hargs x hx).binderIds⟩
  · rcases happs.mem_freeVars.mp hf with hf | ⟨x, hx, hf⟩
    · cases hf
    · exact (hargs x hx).freeVars f hf

variable {p : TPat}

theorem tpatsToTexprs_cons {es : List Texpr} :
    tpatsToTexprs cfg (p :: ps) = .ok (some es) ↔ ∃ e es', tpatToTexpr cfg p = .ok (some e) ∧
      tpatsToTexprs cfg ps = .ok (some es') ∧ es = e :: es' := by
  rw [tpatsToTexprs]
  constructor
  · intro h
    obtain ⟨e, he, h⟩ := bind_eq_ok.mp h
    obtain ⟨es', hes, h⟩ := bind_eq_ok.mp h
    cases e <;> cases es' <;> simp_all
  · rintro ⟨e, es', he, hes, rfl⟩
    rw [he, hes]
    rfl

theorem tpatToTexpr_adt {variantId : Option VariantId} {fields : List TPat} {x : Texpr}
    (h : tpatToTexpr cfg (.mk (.adt variantId fields) ty) = .ok (some x)) : ∃ es adtId generics e,
      tpatsToTexprs cfg fields = .ok (some es) ∧ ty = .adt adtId generics ∧
      mkQualifApps cfg { id := .adtCons { adtId, variantId }, generics } es ty = .ok e ∧ x = .mk e.e ty := by
  rw [tpatToTexpr] at h
  obtain ⟨es, hes, h⟩ := bind_eq_ok.mp h
  cases es with
  | none => cases h
  | some es =>
    obtain ⟨r, hr, h⟩ := bind_eq_ok.mp h
    obtain ⟨e, he, h⟩ := bind_eq_ok.mp h
    obtain rfl := Option.some.inj (Except.ok.inj h)
    cases ty with
    | adt adtId generics =>
      obtain rfl := Except.ok.inj hr
      exact ⟨es, adtId, generics, e, hes, rfl, he, rfl⟩
    | _ => cases hr

theorem ofPats_cons (hp : ∀ e, tpatToTexpr cfg p = .ok (some e) → OfPats [p] e)
    (hps : ∀ es, tpatsToTexprs cfg ps = .ok (some es) → ∀ e ∈ es, OfPats ps e) (es : List Texpr)
    (h : tpatsToTexprs cfg (p :: ps) = .ok (some es)) : ∀ e ∈ es, OfPats (p :: ps) e := by
  obtain ⟨e, es', he, hes, rfl⟩ := tpatsToTexprs_cons.mp h
  refine forall_mem_cons.mpr ⟨(hp e he).mono ?_, fun x hx => (hps es' hes x hx).mono ?_⟩ <;> rw [tpatsIds_cons p ps]
  · exact subset_append_left ..
  · exact subset_append_right ..

theorem tpatsToTexprs_ofPats (ps : List TPat) :
    ∀ es, tpatsToTexprs cfg ps = .ok (some es) → ∀ e ∈ es, OfPats ps e := by
  induction ps using tpats_induct with
  | nil =>
    intro es h
    rw [tpatsToTexprs] at h
    obtain rfl := Option.some.inj (Except.ok.inj h)
    simp
  | constant l ty ps ih =>
    refine ofPats_cons (fun e h => ?_) ih
    rw [tpatToTexpr] at h
    obtain rfl := Option.some.inj (Except.ok.inj h)
    exact ⟨rfl, rfl, by intro f hf; cases hf⟩
  | bound v mp ty ps ih | ignored ty ps ih =>
    refine ofPats_cons (fun e h => ?_) ih
    rw [tpatToTexpr] at h
    cases h
  | opened v mp ty ps ih =>
    refine ofPats_cons (fun e h => ?_) ih
    rw [tpatToTexpr] at h
    obtain rfl := Option.some.inj (Except.ok.inj h)
    exact ⟨rfl, rfl, fun f hf => hf⟩
  | adt variantId fields ty ps ihf ih =>
    refine ofPats_cons (fun x h => ?_) ih
    obtain ⟨es, adtId, generics, ⟨e, ty₁⟩, hes, -, he, rfl⟩ := tpatToTexpr_adt h
    have hof := ofPats_qualifApps he (ihf es hes)
    refine ⟨?_, ?_, ?_⟩
    · rw [isOpened_retype _ ty ty₁]
      exact hof.isOpened
    · rw [binderIds_retype _ ty ty₁]
      exact hof.binderIds
    · rw [freeVars_retype _ ty ty₁, tpatsIds_adt]
      exact hof.freeVars

theorem tpatToTexpr_ofPats {x : Texpr} (h : tpatToTexpr cfg p = .ok (some x)) : OfPats [p] x :=
  tpatsToTexprs_ofPats [p] [x] (tpatsToTexprs_cons.mpr ⟨x, [], h, by rw [tpatsToTexprs], rfl⟩) x (by simp)

end

section
variable {cfg : FuelConfig} {free : FVarId → Bool} {e e' : Texpr}

theorem tpatsIds_eq_flatMap : ∀ ps : List TPat, tpatsIds ps = ps.flatMap fun p => tpatsIds [p]
  | [] => rfl
  | p :: ps => by rw [tpatsIds_cons, flatMap_cons, tpatsIds_eq_flatMap ps]

theorem tpatsBound_eq_nil_iff {ps : List TPat} : tpatsBound ps = [] ↔ ∀ p ∈ ps, tpatsBound [p] = [] := by
  induction ps with
  | nil => simp [tpatsBound, tpatsVars]
  | cons p ps ih => rw [tpatsBound_cons, append_eq_nil_iff, ih, forall_mem_cons]

theorem tpatsIds_mkSimplTuplePat (ps : List TPat) : tpatsIds [mkSimplTuplePat ps] = tpatsIds ps := by
  unfold mkSimplTuplePat
  split
  · rfl
  · rw [tpatsIds_adt]

theorem tpatsBound_mkSimplTuplePat (ps : List TPat) : tpatsBound [mkSimplTuplePat ps] = tpatsBound ps := by
  unfold mkSimplTuplePat
  split
  · rfl
  · rw [tpatsBound_adt]

variable {args : List Texpr}

theorem isApps_simplTuple (h : mkSimplTupleTexpr cfg args = .ok e') :
    args = [e'] ∨ ∃ q ty, IsApps (.mk (.qualif q) ty) args e' := by
  unfold mkSimplTupleTexpr at h
  split at h
  · exact .inl (by rw [Except.ok.inj h])
  · exact .inr ⟨_, _, isApps_mkApps h⟩

variable {ctx : Ctx}

theorem openedIn_simplTuple (h : mkSimplTupleTexpr cfg args = .ok e')
    (hargs : ∀ x ∈ args, x.OpenedIn free ctx) : e'.OpenedIn free ctx := by
  rcases isApps_simplTuple h with rfl | ⟨q, ty, happs⟩
  · exact hargs e' (by simp)
  · exact happs.openedIn.mpr ⟨⟨rfl, rfl⟩, hargs⟩

theorem Texpr.openedIn_emeta {m : EMeta Texpr} {e : Texpr} {ty : Ty} :
    (mk (.emeta m e) ty).OpenedIn free ctx ↔
      (∀ c ∈ m.children, ScopedOpenedIn free ctx c) ∧ e.OpenedIn free ctx := by
  rw [openedIn_node (e := .emeta m e) ⟨by simp, by simp⟩, Expr.children, forall_mem_append,
    forall_mem_singleton]
  exact and_congr_right fun _ => and_iff_right rfl

theorem Texpr.binderIds_emeta {m : EMeta Texpr} {e : Texpr} {ty : Ty} :
    (mk (.emeta m e) ty).binderIds = m.children.flatMap scopedBinderIds ++ e.binderIds := by
  rw [binderIds_node (e := .emeta m e) ⟨by simp, by simp⟩, Expr.children, flatMap_append,
    flatMap_singleton]
  rfl

theorem openedIn_push (ps : List TPat) (h : e.OpenedIn free ctx) : e.OpenedIn free (Ctx.push ps ctx) := by
  refine e.openedIn_mono (fun f hf => ?_) h
  simp only [Ctx.push, flatten_cons, mem_append]
  tauto

end

/-! ## Let-bindings -/

section
variable {monadic : Bool} {next : Texpr}

theorem count_mkOpenedLets (f : FVarId) :
    ∀ lets : List (TPat × Texpr), (mkOpenedLets monadic lets next).binderIds.count f =
    ((lets.map Prod.snd).flatMap binderIds).count f + (lets.flatMap fun x => tpatsIds [x.1]).count f +
      next.binderIds.count f
  | [] => by simp [mkOpenedLets]
  | x :: lets => by
    have ih := count_mkOpenedLets f lets
    rw [mkOpenedLets, foldr_cons, mkOpenedLet, binderIds_letE, ← mkOpenedLets]
    simp only [count_append, map_cons, flatMap_cons]
    omega

theorem openedIn_mkOpenedLets {free : FVarId → Bool} : ∀ {lets : List (TPat × Texpr)} {ctx : Ctx},
    (mkOpenedLets monadic lets next).OpenedIn free ctx →
      (∀ x ∈ lets, ∀ f ∈ x.2.freeVars, free f = true ∨ f ∈ ctx.flatten ∨ f ∈ lets.flatMap fun x => tpatsIds [x.1])
  | [], _, _ => by simp
  | x :: lets, ctx, h => by
    obtain ⟨hout, -, hnext⟩ := (openedIn_letE ..).mp h
    refine forall_mem_cons.mpr ⟨fun f hf => ?_, fun y hy f hf => ?_⟩
    · exact ((x.2.openedIn_iff.mp hout).2 f hf).imp_right .inl
    · have := openedIn_mkOpenedLets hnext y hy f hf
      simp only [Ctx.push, flatten_cons, mem_append, flatMap_cons] at this ⊢
      tauto

theorem mkOpenedLets_openedIn {free : FVarId → Bool} : ∀ {lets : List (TPat × Texpr)} {ctx ctx' : Ctx},
    (∀ x ∈ lets, tpatsBound [x.1] = [] ∧ x.2.OpenedIn free ctx) → next.OpenedIn free ctx' →
    (∀ f ∈ ctx'.flatten, f ∈ ctx.flatten ∨ f ∈ lets.flatMap fun x => tpatsIds [x.1]) →
    (mkOpenedLets monadic lets next).OpenedIn free ctx
  | [], ctx, ctx', _, hnext, hsub => by
    refine next.openedIn_mono (fun f hf => ?_) hnext
    exact hf.imp_right fun hf => (hsub f hf).resolve_right (by simp)
  | x :: lets, ctx, ctx', hlets, hnext, hsub => by
    obtain ⟨hx, hlets⟩ := forall_mem_cons.mp hlets
    refine (openedIn_letE ..).mpr ⟨hx.2, hx.1, mkOpenedLets_openedIn (fun y hy => ?_) hnext fun f hf => ?_⟩
    · exact ⟨(hlets y hy).1, openedIn_push _ (hlets y hy).2⟩
    · have := hsub f hf
      simp only [Ctx.push, flatten_cons, mem_append, flatMap_cons] at this ⊢
      tauto

theorem mem_binderIds_of_child {e : Expr} {ty : Ty} {c : Scoped Texpr} {f : FVarId} (hc : c ∈ e.children)
    (hf : f ∈ scopedBinderIds c) : f ∈ (mk e ty).binderIds := by
  rw [binderIds_node (Expr.isNode_of_child hc)]
  exact mem_flatMap.mpr ⟨c, hc, hf⟩

end

/-! ## The weight -/

/-- What is bound weighs twice as much as what comes next. -/
def Texpr.weight : Texpr → Nat
  | .mk (.letE _ _ bound next) _ => 2 * weight bound + weight next + 1
  | .mk e _ => (e.children.attach.map fun c => weight c.1.2).sum + 1
termination_by e => sizeOf e
decreasing_by
  · simp only [mk.sizeOf_spec, Expr.letE.sizeOf_spec]
    omega
  · simp only [mk.sizeOf_spec, Expr.letE.sizeOf_spec]
    omega
  · have := Expr.sizeOf_children c.2
    simp only [mk.sizeOf_spec]
    omega

theorem Texpr.weight_letE (monadic : Bool) (pat : TPat) (bound next : Texpr) (ty : Ty) :
    weight (.mk (.letE monadic pat bound next) ty) = 2 * weight bound + weight next + 1 := by
  rw [weight]

theorem Texpr.weight_node {e : Expr} (he : ∀ monadic pat bound next, e ≠ .letE monadic pat bound next) (ty : Ty) :
    weight (.mk e ty) = (e.children.map fun c => weight c.2).sum + 1 := by
  have h := attach_map_val (f := fun c : Scoped Texpr => weight c.2) (l := e.children)
  rw [weight, h]
  exact he

theorem Texpr.weight_app (f x : Texpr) (ty : Ty) : weight (.mk (.app f x) ty) = weight f + weight x + 1 := by
  rw [weight_node (by simp)]
  simp [Expr.children]

theorem Texpr.weight_pos (e : Texpr) : 0 < weight e := by
  obtain ⟨e, ty⟩ := e
  cases e <;> simp [weight]

theorem Texpr.weight_child {e : Expr} {ty : Ty} {c : Scoped Texpr} (hc : c ∈ e.children) :
    weight c.2 < weight (.mk e ty) := by
  by_cases he : ∀ monadic pat bound next, e ≠ .letE monadic pat bound next
  · rw [weight_node he]
    exact Nat.lt_succ_of_le (le_sum_of_mem (mem_map_of_mem hc))
  · simp only [ne_eq, not_forall, not_not] at he
    obtain ⟨monadic, pat, bound, next, rfl⟩ := he
    simp only [Expr.children, mem_cons, not_mem_nil, or_false] at hc
    rw [weight_letE]
    rcases hc with rfl | rfl <;> dsimp only <;> omega

theorem Texpr.weight_apps {f e : Texpr} {args : List Texpr} (h : IsApps f args e) :
    weight e = weight f + (args.map fun x => weight x + 1).sum := by
  induction h with
  | nil f => simp
  | cons ty _ ih =>
    rw [ih, weight_app]
    simp only [map_cons, sum_cons]
    omega

theorem Texpr.weight_mkOpenedLets (monadic : Bool) (next : Texpr) : ∀ lets : List (TPat × Texpr),
    weight (mkOpenedLets monadic lets next) = (lets.map fun x => 2 * weight x.2 + 1).sum + weight next
  | [] => by simp [mkOpenedLets]
  | x :: lets => by
    have ih := weight_mkOpenedLets monadic next lets
    rw [mkOpenedLets, foldr_cons, mkOpenedLet, weight_letE, ← mkOpenedLets, ih]
    simp only [map_cons, sum_cons]
    omega

theorem Texpr.weight_components (vals : List Texpr) :
    (vals.map fun x => 2 * weight x + 1).sum ≤ 2 * (vals.map fun x => weight x + 1).sum := by
  induction vals with
  | nil => simp
  | cons x vals ih =>
    simp only [map_cons, sum_cons]
    omega

/-! ## Values of the expressions of the patterns -/

section
variable {D X : Type} {I : Interp D X} {isCall : FunKey → Bool} {call : FunCalls D X} {env : Env D X}
  {cfg : FuelConfig}

def Env.Binds (env : Env D X) (l : List (Option FVarId × Value X)) : Prop :=
  ∀ id v, (some id, v) ∈ l → env.fvars id = some v

theorem evalArgs_eq_some {x : Texpr} {xs : List Texpr} {v : Value X} {vs : List (Value X)}
    (hx : x.eval I isCall call env [] = some v) (hxs : evalArgs I isCall call env xs = some vs) :
    evalArgs I isCall call env (x :: xs) = some (v :: vs) := by
  simp [evalArgs, hx, hxs]

theorem eval_adtCons {q : Qualif} {id : AdtConsId} {ty : Ty} (hq : q.id = .adtCons id) (args : List (Value X)) :
    (mk (.qualif q) ty).eval I isCall call env args = some (.adt id.adtId id.variantId args) := by
  rw [eval_qualif]
  simp only [evalQualif, hq]

theorem IsApps.eval_adtCons {q : Qualif} {id : AdtConsId} {ty : Ty} {args : List Texpr} {e : Texpr}
    (h : IsApps (.mk (.qualif q) ty) args e) (hq : q.id = .adtCons id) : e.eval I isCall call env [] =
      (evalArgs I isCall call env args).map (.adt id.adtId id.variantId) := by
  rw [h.eval]
  simp only [append_nil, Pure.eval_adtCons hq]
  cases evalArgs I isCall call env args <;> rfl

theorem tpatsToTexprs_eval_cons {p : TPat} {ps : List TPat}
    (hp : ∀ e v l, tpatToTexpr cfg p = .ok (some e) → p.matches v = some l → env.Binds l →
      e.eval I isCall call env [] = some v)
    (hps : ∀ es vs l, tpatsToTexprs cfg ps = .ok (some es) → matchTPats ps vs = some l → env.Binds l →
      evalArgs I isCall call env es = some vs) (es : List Texpr) (vs : List (Value X))
    (l : List (Option FVarId × Value X)) (h : tpatsToTexprs cfg (p :: ps) = .ok (some es))
    (hl : matchTPats (p :: ps) vs = some l) (henv : env.Binds l) : evalArgs I isCall call env es = some vs := by
  obtain ⟨e, es', he, hes, rfl⟩ := tpatsToTexprs_cons.mp h
  obtain ⟨v, vs', l₁, l₂, rfl, hv, hvs, rfl⟩ := matchTPats_cons.mp hl
  exact evalArgs_eq_some (hp e v l₁ he hv fun id w hmem => henv id w (mem_append_left _ hmem))
    (hps es' vs' l₂ hes hvs fun id w hmem => henv id w (mem_append_right _ hmem))

theorem tpatsToTexprs_eval (ps : List TPat) : ∀ es vs l, tpatsToTexprs cfg ps = .ok (some es) →
    matchTPats ps vs = some l → env.Binds l → evalArgs I isCall call env es = some vs := by
  induction ps using tpats_induct with
  | nil =>
    intro es vs l h hl _
    rw [tpatsToTexprs] at h
    obtain rfl := Option.some.inj (Except.ok.inj h)
    cases vs with
    | nil => rfl
    | cons v vs => simp [matchTPats] at hl
  | constant c ty ps ih =>
    refine tpatsToTexprs_eval_cons (fun e v l he hv _ => ?_) ih
    rw [tpatToTexpr] at he
    obtain rfl := Option.some.inj (Except.ok.inj he)
    cases v with
    | lit c' =>
      obtain ⟨rfl, -⟩ : c = c' ∧ [] = l := by simpa [TPat.matches, Pat.matches] using hv
      rfl
    | _ => simp [TPat.matches, Pat.matches] at hv
  | bound v mp ty ps ih | ignored ty ps ih =>
    refine tpatsToTexprs_eval_cons (fun e v l he hv _ => ?_) ih
    rw [tpatToTexpr] at he
    cases he
  | opened x mp ty ps ih =>
    refine tpatsToTexprs_eval_cons (fun e v l he hv henv => ?_) ih
    rw [tpatToTexpr] at he
    obtain rfl := Option.some.inj (Except.ok.inj he)
    obtain rfl : [(some x.id, v)] = l := by simpa [TPat.matches, Pat.matches] using hv
    simp [henv x.id v (by simp), Interp.applyTo]
  | adt variantId fields ty ps ihf ih =>
    refine tpatsToTexprs_eval_cons (fun x v l hx hv henv => ?_) ih
    obtain ⟨es, adtId, generics, ⟨e, ty₁⟩, hes, rfl, he, rfl⟩ := tpatToTexpr_adt hx
    cases v with
    | adt id variantId' vs =>
      obtain ⟨⟨hid, rfl⟩, hvs⟩ : (adtId = id ∧ variantId = variantId') ∧ matchTPats fields vs = some l := by
        simpa [TPat.matches, Pat.matches, Ty.adtId] using hv
      show (mk e (.adt adtId generics)).eval I isCall call env [] = _
      rw [eval_retype e _ ty₁, (isApps_mkApps he).eval_adtCons rfl, ihf es vs l hes hvs henv, ← hid]
      rfl
    | _ => simp [TPat.matches, Pat.matches] at hv

theorem tpatToTexpr_eval {p : TPat} {e : Texpr} {v : Value X} {l : List (Option FVarId × Value X)}
    (he : tpatToTexpr cfg p = .ok (some e)) (hv : p.matches v = some l) (henv : env.Binds l) :
    e.eval I isCall call env [] = some v := by
  have hes : tpatsToTexprs cfg [p] = .ok (some [e]) := tpatsToTexprs_cons.mpr ⟨e, [], he, by rw [tpatsToTexprs], rfl⟩
  have hvs : matchTPats [p] [v] = some (l ++ []) :=
    matchTPats_cons.mpr ⟨v, [], l, [], rfl, hv, by simp [matchTPats], rfl⟩
  have h : evalArgs I isCall call env [e] = some [v] := tpatsToTexprs_eval [p] [e] [v] _ hes hvs (by simpa using henv)
  simp only [evalArgs] at h
  cases hx : e.eval I isCall call env [] with
  | none => simp [hx] at h
  | some w => simpa [hx] using h

end

/-! ## Values of the tuples and of the let-bindings -/

section
variable {D X : Type} {I : Interp D X} {isCall : FunKey → Bool} {call : FunCalls D X} {env : Env D X}

def allSome {α : Type} : List (Option α) → Option (List α)
  | [] => some []
  | x :: l => x.bind fun a => (allSome l).map (a :: ·)

def tupleValue (vs : List (Value X)) : Value X := .adt .tuple none vs

def simplTupleValue : List (Value X) → Value X
  | [v] => v
  | vs => tupleValue vs

theorem bind_singleton {pat : TPat} {v : Value X} {env' : Env D X} :
    env.bind [pat] [v] = some env' ↔ ∃ l, pat.matches v = some l ∧ env' = env.push l := by
  rw [Env.bind, Option.map_eq_some_iff]
  constructor
  · rintro ⟨l, hl, rfl⟩
    obtain ⟨v', vs, l₁, l₂, hvs, hv, hnil, rfl⟩ := matchTPats_cons.mp hl
    obtain ⟨rfl, rfl⟩ := cons.inj hvs
    obtain rfl : [] = l₂ := by simpa [matchTPats] using hnil
    exact ⟨l₁, hv, by simp⟩
  · rintro ⟨l, hl, rfl⟩
    exact ⟨l ++ [], matchTPats_cons.mpr ⟨v, [], l, [], rfl, hl, by simp [matchTPats], rfl⟩, by simp⟩

variable {l : List (Option FVarId × Value X)}

theorem matches_ids {pat : TPat} {v : Value X} (hbound : tpatsBound [pat] = [])
    (h : pat.matches v = some l) : l.map Prod.fst = (tpatsIds [pat]).map some := by
  have hl : matchTPats [pat] [v] = some (l ++ []) :=
    matchTPats_cons.mpr ⟨v, [], l, [], rfl, h, by simp [matchTPats], rfl⟩
  simpa using matchTPats_ids [pat] hbound hl

theorem binds_push {ids : List FVarId} (hl : l.map Prod.fst = ids.map some)
    (hids : ids.Nodup) : (env.push l).Binds l := by
  intro id v hmem
  have hid : id ∈ ids := by
    have := mem_map_of_mem (f := Prod.fst) hmem
    rw [hl] at this
    simpa using this
  show l.foldl Env.setFVar env.fvars id = some v
  rw [Env.setFVar_idxOf hids hl hid]
  obtain ⟨i, hi, hget⟩ := mem_iff_getElem.mp hmem
  have hlen : l.length = ids.length := by simpa using congrArg length hl
  have hi' : i < ids.length := hlen ▸ hi
  have hid' : ids[i] = id := by
    have := congrArg (fun m => m[i]?) hl
    simpa [hi, hi', hget, eq_comm] using this
  rw [← hid', hids.idxOf_getElem i hi']
  simp [hi, hget]

theorem evalArgs_eq_allSome : ∀ args : List Texpr,
    evalArgs I isCall call env args = allSome (args.map fun x => x.eval I isCall call env [])
  | [] => rfl
  | x :: args => by
    simp only [evalArgs, map_cons, allSome, evalArgs_eq_allSome args]
    cases x.eval I isCall call env [] <;> simp [Option.map_eq_bind]

theorem length_allSome {α : Type} : ∀ {l : List (Option α)} {as : List α}, allSome l = some as → as.length = l.length
  | [], as, h => by
    obtain rfl := Option.some.inj h
    rfl
  | x :: l, as, h => by
    obtain ⟨a, rfl, h⟩ := Option.bind_eq_some_iff.mp h
    obtain ⟨as, has, rfl⟩ := Option.map_eq_some_iff.mp h
    simp [length_allSome has]

variable {vs : List (Value X)}

theorem simplTupleValue_of_length (h : vs.length ≠ 1) : simplTupleValue vs = tupleValue vs := by
  unfold simplTupleValue
  split
  · simp at h
  · rfl

theorem eval_simplTuple {cfg : FuelConfig} {args : List Texpr} {e : Texpr} (h : mkSimplTupleTexpr cfg args = .ok e) :
    e.eval I isCall call env [] = (evalArgs I isCall call env args).map simplTupleValue := by
  unfold mkSimplTupleTexpr at h
  split at h
  · obtain rfl := Except.ok.inj h
    rename_i e
    simp only [evalArgs]
    cases e.eval I isCall call env [] <;> rfl
  · rename_i hargs
    rw [(isApps_mkApps h).eval_adtCons rfl, evalArgs_eq_allSome]
    refine Option.map_congr fun vs hvs => ?_
    have hlen : vs.length = args.length := by simpa using length_allSome hvs
    refine (simplTupleValue_of_length fun hone => ?_).symm
    obtain ⟨x, rfl⟩ := length_eq_one_iff.mp (hlen.symm.trans hone)
    exact hargs x rfl

theorem eval_ok {q : Qualif} {ty : Ty} {x e : Texpr} (h : IsApps (.mk (.qualif q) ty) [x] e)
    (hq : q.id = .adtCons { adtId := .builtin .result, variantId := some resultOkId }) :
    e.eval I isCall call env [] = (x.eval I isCall call env []).map Value.ok := by
  rw [h.eval_adtCons hq]
  simp only [evalArgs]
  cases x.eval I isCall call env [] <;> rfl

variable {ps : List TPat}

theorem tpatsIds_subset {ps' : List TPat} (h : ∀ p ∈ ps, p ∈ ps') : tpatsIds ps ⊆ tpatsIds ps' := by
  rw [tpatsIds_eq_flatMap ps, tpatsIds_eq_flatMap ps']
  intro f hf
  obtain ⟨p, hp, hf⟩ := mem_flatMap.mp hf
  exact mem_flatMap.mpr ⟨p, h p hp, hf⟩

structure Outside (boundFVars : List FVarId) (out : Texpr) : Prop where
  isOpened : out.isOpened = true
  nodup : out.binderIds.Nodup
  freeVars : ∀ f ∈ out.freeVars, f ∉ boundFVars

def matchAll (ps : List TPat) (vs : List (Option (Value X))) : Option (List (Option FVarId × Value X)) :=
  (allSome vs).bind (matchTPats ps)

theorem matchAll_cons (p : TPat) (ps : List TPat) (v : Option (Value X)) (vs : List (Option (Value X))) :
    matchAll (p :: ps) (v :: vs) = (v.bind p.matches).bind fun l => (matchAll ps vs).map (l ++ ·) := by
  unfold matchAll
  rw [allSome]
  cases v with
  | none => rfl
  | some v =>
    cases hl : p.matches v with
    | none => cases allSome vs <;> simp [matchTPats, hl]
    | some l => cases allSome vs <;> simp [matchTPats, hl, Option.map_eq_bind]

theorem matchTPats_singleton (p : TPat) (v : Value X) : matchTPats [p] [v] = p.matches v := by
  rw [matchTPats]
  cases p.matches v <;> simp [matchTPats]

theorem matchAll_ids {vs : List (Option (Value X))}
    (hbound : tpatsBound ps = []) (h : matchAll ps vs = some l) : l.map Prod.fst = (tpatsIds ps).map some := by
  obtain ⟨ws, -, hl⟩ := Option.bind_eq_some_iff.mp h
  exact matchTPats_ids ps hbound hl

theorem bind_tuple {variantId : Option VariantId} {pats : List TPat} {generics : GenericArgs}
    (hvariant : variantId = none) : env.bind [.mk (.adt variantId pats) (.adt .tuple generics)] [tupleValue vs] =
      (matchTPats pats vs).map env.push := by
  rw [Env.bind, matchTPats_singleton]
  simp [TPat.matches, Pat.matches, tupleValue, Ty.adtId, hvariant]

theorem bind_simplTuple (hlen : vs.length = ps.length) :
    env.bind [mkSimplTuplePat ps] [simplTupleValue vs] = (matchTPats ps vs).map env.push := by
  unfold mkSimplTuplePat
  split
  · obtain ⟨v, rfl⟩ := length_eq_one_iff.mp hlen
    rfl
  · rename_i hone
    rw [simplTupleValue_of_length, bind_tuple rfl]
    intro hlen'
    obtain ⟨p, rfl⟩ := length_eq_one_iff.mp (hlen.symm.trans hlen')
    exact hone p rfl

def matchLets (I : Interp D X) (isCall : FunKey → Bool) (call : FunCalls D X) (env : Env D X)
    (lets : List (TPat × Texpr)) : Option (List (Option FVarId × Value X)) :=
  matchAll (lets.map Prod.fst) (lets.map fun x => x.2.eval I isCall call env [])

theorem eval_mkOpenedLets (next : Texpr) {ids : List FVarId} (args : List (Value X)) :
    ∀ {lets : List (TPat × Texpr)} {env' : Env D X}, env.SameBut ids env' →
    (∀ x ∈ lets, Outside ids x.2 ∧ tpatsBound [x.1] = [] ∧ tpatsIds [x.1] ⊆ ids) →
    (∃ l env'', matchLets I isCall call env lets = some l ∧ env''.generics = env'.generics ∧
      env''.fvars = l.foldl Env.setFVar env'.fvars ∧
      (mkOpenedLets false lets next).eval I isCall call env' args = next.eval I isCall call env'' args) ∨
    matchLets I isCall call env lets = none ∧ (mkOpenedLets false lets next).eval I isCall call env' args = none
  | [], env', _, _ => .inl ⟨[], env', rfl, rfl, rfl, rfl⟩
  | x :: lets, env', henv, hlets => by
    obtain ⟨⟨hout, hbound, hsub⟩, hlets⟩ := forall_mem_cons.mp hlets
    have heval : (mkOpenedLets false (x :: lets) next).eval I isCall call env' args =
        (x.2.eval I isCall call env []).bind fun v => (x.1.matches v).bind fun l =>
          (mkOpenedLets false lets next).eval I isCall call (env'.push l) args := by
      rw [mkOpenedLets, foldr_cons, mkOpenedLet, eval_letE,
        eval_sameBut hout.isOpened hout.freeVars henv]
      refine congrArg _ (funext fun v => ?_)
      simp only [evalLet, Env.bind, matchTPats_singleton, Bool.false_eq_true, if_false]
      cases x.1.matches v <;> rfl
    rw [heval, matchLets, map_cons, map_cons, matchAll_cons]
    cases hv : x.2.eval I isCall call env [] with
    | none => exact .inr ⟨rfl, rfl⟩
    | some v =>
      cases hl : x.1.matches v with
      | none => exact .inr ⟨by simp [hl], by simp [hl]⟩
      | some l =>
        have henv' : env.SameBut ids (env'.push l) := henv.trans ((Env.sameBut_push (matches_ids hbound hl)).mono hsub)
        rcases eval_mkOpenedLets next args henv' hlets with
          ⟨l', env'', hl', hgenerics, hfvars, heval'⟩ | ⟨hl', heval'⟩
        · refine .inl ⟨l ++ l', env'', ?_, hgenerics, ?_, ?_⟩
          · rw [matchLets] at hl'
            simp [hl, hl']
          · rw [hfvars, foldl_append]
            rfl
          · simp [hl, heval']
        · rw [matchLets] at hl'
          exact .inr ⟨by simp [hl, hl'], by simp [hl, heval']⟩

end

end Aeneas.Pure
