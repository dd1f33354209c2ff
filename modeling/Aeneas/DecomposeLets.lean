import Aeneas.AddFuel
import Aeneas.PureEvalScope

/-!
# The decomposition of the monadic let-bindings

A monadic let-binding whose pattern is not a variable binds a fresh variable
instead, which the pattern then decomposes. The expressions keep their values,
and the binders stay distinct since the new ones are fresh.
-/

namespace Aeneas.Pure

open List Texpr

/-! ## Fresh identifiers -/

section
variable {s s₁ s₂ s₃ : Nat} {ids ids₁ ids₂ ids' ids₁' ids₂' : List Nat}

def FreshFrom (s s' : Nat) (ids ids' : List Nat) : Prop := ∀ f ∈ ids', f ∈ ids ∨ s ≤ f ∧ f < s'

theorem FreshFrom.mono (h : FreshFrom s₁ s₂ ids ids') (hle₁ : s ≤ s₁) (hle₂ : s₂ ≤ s₃) :
    FreshFrom s s₃ ids ids' :=
  fun f hf => (h f hf).imp_right fun hf => ⟨Nat.le_trans hle₁ hf.1, Nat.lt_of_lt_of_le hf.2 hle₂⟩

theorem FreshFrom.append (h₁ : FreshFrom s s₂ ids₁ ids₁') (h₂ : FreshFrom s s₂ ids₂ ids₂') :
    FreshFrom s s₂ (ids₁ ++ ids₂) (ids₁' ++ ids₂') := by
  intro f hf
  rcases mem_append.mp hf with hf | hf
  · exact (h₁ f hf).imp_left (mem_append_left _)
  · exact (h₂ f hf).imp_left (mem_append_right _)

theorem FreshFrom.nodup_append (h₁ : FreshFrom s s₁ ids₁ ids₁') (h₂ : FreshFrom s₁ s₂ ids₂ ids₂') (hle : s ≤ s₁)
    (hn₁ : ids₁'.Nodup) (hn₂ : ids₂'.Nodup) (hn : (ids₁ ++ ids₂).Nodup) (hlt : ∀ f ∈ ids₁ ++ ids₂, f < s) :
    (ids₁' ++ ids₂').Nodup := by
  obtain ⟨-, -, hdisj⟩ := List.nodup_append.mp hn
  refine List.nodup_append.mpr ⟨hn₁, hn₂, fun f hf₁ g hg₂ hfg => ?_⟩
  subst hfg
  rcases h₁ f hf₁ with hf | hf <;> rcases h₂ f hg₂ with hg | hg
  · exact hdisj f hf f hg rfl
  · have := hlt f (mem_append_left _ hf)
    omega
  · have := hlt f (mem_append_right _ hg)
    omega
  · omega

theorem freshFrom_refl (s s₁ : Nat) (ids : List Nat) : FreshFrom s s₁ ids ids := fun _ hf => .inl hf

end

/-! ## The visit -/

structure Texpr.Generated (ctx : Ctx) (s : Nat) (e : Texpr) : Prop where
  wellScoped : e.WellScoped (fun _ => false) ctx
  ctx_lt : ∀ f ∈ ctx.flatten, f < s
  ids_lt : ∀ f ∈ e.binderIds, f < s

section
variable {ctx : Ctx} {s s' : Nat} {monadic : Bool} {lv : TPat} {e re next : Texpr} {ty : Ty}

theorem Texpr.Generated.mono (h : e.Generated ctx s) (hle : s ≤ s') : e.Generated ctx s' :=
  ⟨h.wellScoped, fun f hf => Nat.lt_of_lt_of_le (h.ctx_lt f hf) hle,
    fun f hf => Nat.lt_of_lt_of_le (h.ids_lt f hf) hle⟩

theorem Texpr.generated_letE : (mk (.letE monadic lv re next) ty).Generated ctx s ↔
    re.Generated ctx s ∧ next.Generated (Ctx.push [lv] ctx) s ∧ tpatsBound [lv] = [] ∧
      (re.binderIds ++ (tpatsIds [lv] ++ next.binderIds)).Nodup := by
  constructor
  · intro h
    obtain ⟨hreO, hbound, hnextO⟩ := (openedIn_letE ..).mp h.wellScoped.opened
    have hnodup := h.wellScoped.nodup
    have hlt := h.ids_lt
    simp only [binderIds_letE, mem_append] at hnodup hlt
    obtain ⟨hreN, hn, -⟩ := nodup_append.mp hnodup
    refine ⟨⟨⟨hreO, hreN⟩, h.ctx_lt, fun f hf => hlt f (.inl hf)⟩,
      ⟨⟨hnextO, (nodup_append.mp hn).2.1⟩, fun f hf => ?_, fun f hf => hlt f (.inr (.inr hf))⟩, hbound, hnodup⟩
    rcases mem_append.mp hf with hf | hf
    · exact hlt f (.inr (.inl hf))
    · exact h.ctx_lt f hf
  · rintro ⟨hre, hnext, hbound, hnodup⟩
    refine ⟨⟨(openedIn_letE ..).mpr ⟨hre.wellScoped.opened, hbound, hnext.wellScoped.opened⟩, ?_⟩, hre.ctx_lt, ?_⟩
    · rwa [binderIds_letE]
    · intro f hf
      simp only [binderIds_letE, mem_append] at hf
      rcases hf with hf | hf | hf
      · exact hre.ids_lt f hf
      · exact hnext.ctx_lt f (mem_append_left _ hf)
      · exact hnext.ids_lt f hf

end

section
variable {D X : Type} (I : Interp D X) (isCall : FunKey → Bool)

structure Decomposed (ctx : Ctx) (s s' : Nat) (e e' : Texpr) : Prop where
  le : s ≤ s'
  wellScoped : e'.WellScoped (fun _ => false) ctx
  fresh : FreshFrom s s' e.binderIds e'.binderIds
  eval : ∀ call : FunCalls D X, e'.eval I isCall call = e.eval I isCall call

structure DecomposedScoped (ctx : Ctx) (s s' : Nat) (cs cs' : List (Scoped Texpr)) : Prop where
  le : s ≤ s'
  opened : ∀ c ∈ cs', ScopedOpenedIn (fun _ => false) ctx c
  nodup : (cs'.flatMap scopedBinderIds).Nodup
  fresh : FreshFrom s s' (cs.flatMap scopedBinderIds) (cs'.flatMap scopedBinderIds)
  eval : ∀ call : FunCalls D X, List.Forall₂ (SameScoped I isCall call) cs cs'

variable {I isCall} {ctx : Ctx}

variable {s s' : Nat}

theorem Decomposed.generated {e e' : Texpr} (h : Decomposed I isCall ctx s s' e e')
    (hgen : e.Generated ctx s) : e'.Generated ctx s' := by
  refine ⟨h.wellScoped, fun f hf => Nat.lt_of_lt_of_le (hgen.ctx_lt f hf) h.le, fun f hf => ?_⟩
  rcases h.fresh f hf with hf | hf
  · exact Nat.lt_of_lt_of_le (hgen.ids_lt f hf) h.le
  · exact hf.2

theorem decomposeScoped_ok {visit : Texpr → EnvM FVarId Texpr}
    (hvisit : ∀ {ctx s s' e e'}, visit e s = .ok (e', s') → e.Generated ctx s → Decomposed I isCall ctx s s' e e') :
    ∀ {cs cs' : List (Scoped Texpr)} {s s' : Nat},
      (cs.mapM (m := EnvM FVarId) fun c => do
        let e ← visit c.2
        pure (c.1, e)) s = .ok (cs', s') →
      (∀ c ∈ cs, ScopedOpenedIn (fun _ => false) ctx c) → (cs.flatMap scopedBinderIds).Nodup →
      (∀ f ∈ ctx.flatten, f < s) → (∀ f ∈ cs.flatMap scopedBinderIds, f < s) →
      DecomposedScoped I isCall ctx s s' cs cs'
  | [], _, _, _, h, _, _, _, _ => by
    cases h
    exact ⟨Nat.le_refl _, by simp, by simp, freshFrom_refl _ _ _, fun _ => .nil⟩
  | c :: cs, _, s, s', h, hopened, hnodup, hctx, hids => by
    rw [mapM_cons] at h
    obtain ⟨c', s₁, hc, h⟩ := run_bind_eq_ok h
    obtain ⟨cs', s₂, hcs, h⟩ := run_bind_eq_ok h
    cases h
    obtain ⟨e', s₁, he, hc⟩ := run_bind_eq_ok hc
    cases hc
    obtain ⟨g, e⟩ := c
    rw [flatMap_cons] at hnodup hids
    obtain ⟨hn, hns, -⟩ := nodup_append.mp hnodup
    obtain ⟨hng, hne, hdisj⟩ := nodup_append.mp hn
    have hlt : ∀ f ∈ scopedBinderIds (g, e), f < s := fun f hf => hids f (mem_append_left _ hf)
    have hgenerated : e.Generated (g.under Ctx.push ctx) s := by
      refine ⟨⟨(hopened (g, e) (by simp)).2, hne⟩, fun f hf => ?_, fun f hf => hlt f (mem_append_right _ hf)⟩
      cases g with
      | none => exact hctx f hf
      | _ => exact (mem_append.mp hf).elim (fun hf => hlt f (mem_append_left _ hf)) (hctx f)
    have hd := hvisit he hgenerated
    have hds := decomposeScoped_ok hvisit hcs (fun c hc => hopened c (by simp [hc])) hns
      (fun f hf => Nat.lt_of_lt_of_le (hctx f hf) hd.le)
      (fun f hf => Nat.lt_of_lt_of_le (hids f (mem_append_right _ hf)) hd.le)
    -- The binders of the group come first: they are not in the visited expression
    have hfresh : FreshFrom s s₁ (scopedBinderIds (g, e)) (scopedBinderIds (g, e')) :=
      (freshFrom_refl s s₁ _).append hd.fresh
    have hn' : (scopedBinderIds (g, e')).Nodup :=
      (freshFrom_refl s s _).nodup_append hd.fresh (Nat.le_refl _) hng hd.wellScoped.nodup hn hlt
    refine ⟨Nat.le_trans hd.le hds.le, ?_, ?_, ?_, fun call => .cons ⟨rfl, hd.eval call⟩ (hds.eval call)⟩
    · intro c hc
      rcases mem_cons.mp hc with rfl | hc
      · exact ⟨(hopened (g, e) (by simp)).1, hd.wellScoped.opened⟩
      · exact hds.opened c hc
    · exact hfresh.nodup_append hds.fresh hd.le hn' hds.nodup hnodup hids
    · exact (hfresh.mono (Nat.le_refl _) hds.le).append (hds.fresh.mono hd.le (Nat.le_refl _))

def tmpFVar (id : FVarId) (ty : Ty) : FVar := { id, basename := none, ty }

variable {ty : Ty}

theorem decomposeLets_cases {n : Nat} {e : Expr} {e' : Texpr}
    (h : decomposeLets (n + 1) (.mk e ty) s = .ok (e', s')) :
    (∃ cs, (e.children.mapM (m := EnvM FVarId) fun c => do
        let e ← decomposeLets n c.2
        pure (c.1, e)) s = .ok (cs, s') ∧ e' = .mk (e.rebuild cs) ty) ∨
      ∃ (lv : TPat) (re next next' re' rest : Texpr) (s₁ s₂ : Nat), e = .letE true lv re next ∧
        decomposeLets n next (s + 1) = .ok (next', s₁) ∧ decomposeLets n re s₁ = .ok (re', s₂) ∧
        decomposeLets n (mkOpenedLet false lv (mkTexprFromFVar (tmpFVar s lv.ty)) next') s₂ = .ok (rest, s') ∧
        e' = .mk (.letE true (mkTPatFromFVar (tmpFVar s lv.ty)) re' rest) ty := by
  unfold decomposeLets at h
  split at h
  · rename_i lv re next
    obtain ⟨b, s₀, hb, h⟩ := run_bind_eq_ok h
    obtain ⟨-, rfl⟩ := run_liftM hb
    cases b with
    | true =>
      obtain ⟨id, s₀, hid, h⟩ := run_bind_eq_ok h
      cases hid
      obtain ⟨next', s₁, hnext, h⟩ := run_bind_eq_ok h
      obtain ⟨re', s₂, hre, h⟩ := run_bind_eq_ok h
      obtain ⟨rest, s₃, hrest, h⟩ := run_bind_eq_ok h
      cases h
      exact .inr ⟨lv, re, next, next', re', rest, s₁, s₂, rfl, hnext, hre, hrest, rfl⟩
    | false =>
      obtain ⟨cs, s₁, hcs, h⟩ := run_bind_eq_ok h
      cases h
      exact .inl ⟨cs, hcs, rfl⟩
  · obtain ⟨cs, s₁, hcs, h⟩ := run_bind_eq_ok h
    cases h
    exact .inl ⟨cs, hcs, rfl⟩

theorem decomposed_node {e : Expr} {cs : List (Scoped Texpr)} (he : e.IsNode)
    (h : DecomposedScoped I isCall ctx s s' e.children cs) :
    Decomposed I isCall ctx s s' (.mk e ty) (.mk (e.rebuild cs) ty) := by
  have hfits : Fits e.children cs := (h.eval fun _ _ => none).imp fun c c' hc => hc.1 ▸ c.1.like_refl
  obtain ⟨hchildren, -⟩ := Expr.children_rebuild hfits hfits
  have hids : (mk (e.rebuild cs) ty).binderIds = cs.flatMap scopedBinderIds := by
    rw [binderIds_node (he.rebuild cs), hchildren]
  refine ⟨h.le, ⟨?_, hids ▸ h.nodup⟩, ?_, fun call => eval_rebuild (h.eval call)⟩
  · rw [openedIn_node (he.rebuild cs), hchildren]
    exact h.opened
  · rw [hids, binderIds_node he]
    exact h.fresh

theorem decomposed_refl {e : Texpr} (h : e.Generated ctx s) : Decomposed I isCall ctx s s e e :=
  ⟨Nat.le_refl s, h.wellScoped, freshFrom_refl s s _, fun _ => rfl⟩

theorem eval_decomposed {lv : TPat} {re re' next next' rest : Texpr} {tmp : FVar} {ty' : Ty} {call : FunCalls D X}
    (hbound : tpatsBound [lv] = [])
    (hscoped : next'.WellScoped (fun _ => false) (Ctx.push [lv] ctx)) (htmp : tmp.id ∉ ctx.flatten)
    (hre : re'.eval I isCall call = re.eval I isCall call)
    (hnext : next'.eval I isCall call = next.eval I isCall call)
    (hrest : rest.eval I isCall call = (mkOpenedLet false lv (mkTexprFromFVar tmp) next').eval I isCall call) :
    (mk (.letE true (mkTPatFromFVar tmp) re' rest) ty).eval I isCall call =
      (mk (.letE true lv re next) ty').eval I isCall call := by
  funext env args
  simp only [eval_letE, hre]
  congr 1
  funext v
  simp only [evalLet, if_true]
  cases v.result with
  | none => rfl
  | some r =>
    cases r with
    | error e => rfl
    | ok w =>
      have hagrees : env.Agrees (fun _ => false) ctx (env.push [(some tmp.id, w)]) := by
        refine ⟨rfl, fun f hf => ?_⟩
        have hne : f ≠ tmp.id := by
          rintro rfl
          exact htmp (hf.resolve_left (by simp))
        simp [Env.push, Env.setFVar, hne]
      have hbind := hagrees.bind hbound [w]
      have htmpv : env.bind [mkTPatFromFVar tmp] [w] = some (env.push [(some tmp.id, w)]) := rfl
      have hvar : (env.push [(some tmp.id, w)]).fvars tmp.id = some w := by simp [Env.push, Env.setFVar]
      simp only [htmpv, Option.bind_some, hrest, mkOpenedLet, mkTexprFromFVar, eval_letE, eval_fvar, hvar,
        Interp.applyTo, evalLet, Bool.false_eq_true, if_false]
      refine bind_eq_of_rel hbind fun env₁ env₂ h => ?_
      rw [← hnext]
      exact eval_agrees hscoped h args

theorem generated_tmp {lv : TPat} {next : Texpr} (ty : Ty) (hbound : tpatsBound [lv] = [])
    (hnodup : (tpatsIds [lv] ++ next.binderIds).Nodup) (hnext : next.Generated (Ctx.push [lv] ctx) s') (hlt : s < s') :
    (mkOpenedLet false lv (mkTexprFromFVar (tmpFVar s ty)) next).Generated ([s] :: ctx) s' := by
  have hctx : ∀ f ∈ ([s] :: ctx : Ctx).flatten, f < s' := by
    intro f hf
    rcases mem_cons.mp hf with rfl | hf
    · exact hlt
    · exact hnext.ctx_lt f (mem_append_right _ hf)
  refine generated_letE.mpr
    ⟨⟨⟨openedIn_fvar.mpr (.inr ?_), nodup_nil⟩, hctx, by simp [mkTexprFromFVar, binderIds_fvar]⟩,
    ⟨⟨next.openedIn_mono (fun f hf => .inr ?_) hnext.wellScoped.opened, hnext.wellScoped.nodup⟩, fun f hf => ?_,
      hnext.ids_lt⟩, hbound, hnodup⟩
  · simp [tmpFVar]
  · have hf := hf.resolve_left (by simp)
    simp only [Ctx.push, flatten_cons, mem_append] at hf ⊢
    tauto
  · rcases mem_append.mp hf with hf | hf
    · exact hnext.ctx_lt f (mem_append_left _ hf)
    · exact hctx f hf

theorem decomposeLets_ok : ∀ (n : Nat) {ctx : Ctx} {s s' : Nat} {e e' : Texpr},
    decomposeLets n e s = .ok (e', s') → e.Generated ctx s → Decomposed I isCall ctx s s' e e'
  | 0, _, _, _, _, _, h, _ => by cases h
  | n + 1, ctx, s, s', .mk e ty, e', h, hgen => by
    obtain ⟨cs, hcs, rfl⟩ | ⟨lv, re, next, next', re', rest, s₁, s₂, rfl, hnext, hre, hrest, rfl⟩ :=
      decomposeLets_cases h
    · rcases e.var_or_node with ⟨f, rfl⟩ | ⟨v, rfl⟩ | he
      · cases hcs
        exact decomposed_refl hgen
      · cases hcs
        exact decomposed_refl hgen
      · have hnodup := hgen.wellScoped.nodup
        have hids := hgen.ids_lt
        rw [binderIds_node he] at hnodup hids
        exact decomposed_node he (decomposeScoped_ok (decomposeLets_ok n) hcs
          ((openedIn_node he ty).mp hgen.wellScoped.opened) hnodup hgen.ctx_lt hids)
    · obtain ⟨hreG, hnextG, hbound, hnodup⟩ := generated_letE.mp hgen
      obtain ⟨hreN, hn, hdisj⟩ := nodup_append.mp hnodup
      obtain ⟨hlvN, hnextN, -⟩ := nodup_append.mp hn
      have hdnext := decomposeLets_ok n hnext (hnextG.mono (Nat.le_succ s))
      have hle₁ : s < s₁ := hdnext.le
      have hdre := decomposeLets_ok n hre (hreG.mono hle₁.le)
      have hle₂ : s₁ ≤ s₂ := hdre.le
      have hlt : ∀ f ∈ tpatsIds [lv] ++ next.binderIds, f < s := by
        intro f hf
        rcases mem_append.mp hf with hf | hf
        · exact hnextG.ctx_lt f (mem_append_left _ hf)
        · exact hnextG.ids_lt f hf
      have hnext'N : (tpatsIds [lv] ++ next'.binderIds).Nodup :=
        (freshFrom_refl s (s + 1) _).nodup_append hdnext.fresh (Nat.le_succ s) hlvN hdnext.wellScoped.nodup hn hlt
      have hrestG := generated_tmp lv.ty hbound hnext'N
        ((hdnext.generated (hnextG.mono (Nat.le_succ s))).mono hle₂) (Nat.lt_of_lt_of_le hle₁ hle₂)
      have hdrest := decomposeLets_ok n hrest hrestG
      have hle₃ : s₂ ≤ s' := hdrest.le
      have hrestF : ∀ f : Nat, f ∈ rest.binderIds → f ∈ tpatsIds [lv] ++ next.binderIds ∨ s < f ∧ f < s₁ ∨ s₂ ≤ f ∧
        f < s' := by
        intro f hf
        rcases hdrest.fresh f hf with hf | hf
        · rw [mkOpenedLet, binderIds_letE] at hf
          exact ((freshFrom_refl (s + 1) s₁ _).append hdnext.fresh f hf).imp_right .inl
        · exact .inr (.inr hf)
      refine ⟨by omega, ⟨(openedIn_letE ..).mpr ⟨hdre.wellScoped.opened, rfl, hdrest.wellScoped.opened⟩, ?_⟩, ?_,
        fun call => ?_⟩
      · rw [binderIds_letE]
        refine nodup_append.mpr ⟨hdre.wellScoped.nodup, nodup_cons.mpr ⟨fun hf => ?_, hdrest.wellScoped.nodup⟩,
          fun f hf g hg hfg => ?_⟩
        · rcases hrestF s hf with hf | hf
          · exact Nat.lt_irrefl s (hlt s hf)
          · omega
        · subst hfg
          have hre := hdre.fresh f hf
          have hreN : f ∈ re.binderIds → f < s ∧ f ∉ tpatsIds [lv] ++ next.binderIds :=
            fun hf => ⟨hreG.ids_lt f hf, fun hg => hdisj f hf f hg rfl⟩
          have hlt := hlt f
          rcases mem_cons.mp hg with rfl | hg
          · grind
          · have := hrestF f hg
            grind
      · rw [binderIds_letE, binderIds_letE]
        refine (hdre.fresh.mono hle₁.le hle₃).append fun f hf => ?_
        rcases mem_cons.mp hf with hf | hf
        · rw [show f = s from hf]
          exact .inr ⟨Nat.le_refl s, by omega⟩
        · refine (hrestF f hf).imp_right fun hf => ?_
          omega
      · exact eval_decomposed hbound hdnext.wellScoped (fun hs => Nat.lt_irrefl s (hgen.ctx_lt s hs))
          (hdre.eval call) (hdnext.eval call) (hdrest.eval call)

end

/-! ## Function bodies -/

section
variable {D X : Type} (I : Interp D X) (isCall : FunKey → Bool)

theorem decomposeBody_ok {depth : Nat} {fbody fbody' : FunBody} {fresh fresh' : FVarId}
    (hclosed : fbody.IsClosed fun _ => false) (h : decomposeBody depth fbody fresh = .ok (fbody', fresh')) :
    SameBody I isCall fbody fbody' := by
  obtain ⟨fvars, b, k, hopen, rfl, hb, hids⟩ := openAllFunBody_closed hclosed fresh
  unfold decomposeBody at h
  obtain ⟨r, hr, h⟩ := bind_eq_ok.mp h
  obtain rfl := Except.ok.inj (hopen.symm.trans hr)
  obtain ⟨⟨e', s⟩, hdecompose, h⟩ := bind_eq_ok.mp h
  obtain ⟨c, hclose, h⟩ := bind_eq_ok.mp h
  cases h
  have hlt : ∀ f ∈ b.binderIds, f < fresh + k := by
    intro f hf
    rw [hids] at hf
    exact (mem_range'_1.mp hf).2
  have hgen : b.body.Generated [tpatsIds b.inputs] (fresh + k) := by
    refine ⟨hb.body, fun f hf => hlt f (mem_append_left _ ?_), fun f hf => hlt f (mem_append_right _ hf)⟩
    simpa using hf
  have hd : Decomposed I isCall _ _ _ _ _ := decomposeLets_ok depth hdecompose hgen
  have hb' : FunBody.WellScoped { b with body := e' } :=
    ⟨hb.bound, hd.wellScoped.opened, (freshFrom_refl (fresh + k) (fresh + k) _).nodup_append hd.fresh (Nat.le_refl _)
      hb.inputs hd.wellScoped.nodup hb.nodup hlt⟩
  obtain rfl := Except.ok.inj (hb'.close.symm.trans hclose)
  refine ⟨hb'.isClosed, fun _ => rfl, fun call d args => ?_⟩
  rw [hb'.eval_close, hb.eval_close]
  simp only [FunBody.eval, hd.eval]

end

end Aeneas.Pure
