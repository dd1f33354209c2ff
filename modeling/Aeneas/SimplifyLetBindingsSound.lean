import Aeneas.SimplifyLetBindingsScope

/-!
# The simplification of the let-bindings is correct

A rewriting keeps the scopes, the types and the value of a let-binding, if no
let-binding binds a value of the error monad; it also makes the expression
lighter, so the visit returns. The variables of the identity functions are not in
scope where the visit looks for them.
-/

namespace Aeneas.Pure

open Texpr List

/-! ## Patterns of values which are not in the error monad -/

mutual

def Pat.Plain : Pat → Prop
  | .adt _ fields => tpatsPlain fields
  | _ => True

/-- Neither the pattern nor its components are for values of the error monad. -/
def TPat.Plain : TPat → Prop
  | .mk pat ty => ¬ ty.IsMonadic ∧ pat.Plain

def tpatsPlain : List TPat → Prop
  | [] => True
  | p :: ps => p.Plain ∧ tpatsPlain ps

end

theorem TPat.Plain.ty {pat : TPat} (h : pat.Plain) : ¬ pat.ty.IsMonadic := by
  obtain ⟨pat, ty⟩ := pat
  exact h.1

theorem tpatsPlain_iff : ∀ {ps : List TPat}, tpatsPlain ps ↔ ∀ p ∈ ps, p.Plain
  | [] => by simp [tpatsPlain]
  | p :: ps => by rw [tpatsPlain, tpatsPlain_iff, forall_mem_cons]

namespace SimplifyLetBindings

/-! ## The types -/

section
variable {tc : TypingCtx} {monadic : Bool} {lv : TPat} {rv next : Texpr} {ty : Ty}

theorem tuple_types {pats : List TPat} {pty fty : Ty} {q : Qualif} {vals : List Texpr}
    (hq : q.id = .adtCons { adtId := .tuple, variantId := none }) (hrv : IsApps (.mk (.qualif q) fty) vals rv)
    (htyped : (mk (.letE false (.mk (.adt none pats) pty) rv next) ty).WellTyped tc) :
    pats.map TPat.ty = vals.map Texpr.ty ∧ ∃ generics, pty = .adt .tuple generics := by
  obtain ⟨⟨hrvTy, -, -⟩, hpat, hrvTyped, -⟩ := wellTyped_letE.mp htyped
  obtain ⟨id, generics, rfl, hfields, -⟩ := hpat
  obtain ⟨rfl, rfl, hvals⟩ := hrv.typed hq hrvTyped hrvTy
  exact ⟨Option.some.inj (hfields.symm.trans hvals), _, rfl⟩

theorem rewriteLet_typed (htyped : (mk (.letE monadic lv rv next) ty).WellTyped tc) :
    ∃ r, rewriteLet monadic lv rv next = .ok r := by
  obtain ⟨re, rty⟩ := rv
  unfold rewriteLet
  split
  · exact ⟨_, rfl⟩
  · rename_i f x hre
    obtain rfl : re = _ := hre
    split
    · rename_i variantId hvariant
      obtain ⟨q, fty, rfl, hq⟩ := resultVariant_eq_some hvariant
      obtain ⟨-, -, hrv, -⟩ := wellTyped_letE.mp htyped
      have hf := (wellTyped_app.mp hrv).2.1.typed
      simp only [Expr.TypedAs, Qualif.TypedAs, hq] at hf
      obtain ⟨tys, htys, -⟩ := hf
      by_cases hok : variantId = resultOkId
      · exact ⟨_, if_pos hok⟩
      · by_cases hfail : variantId = resultFailId
        · exact ⟨_, (if_neg hok).trans (if_pos hfail)⟩
        · unfold getAdtFieldTypes at htys
          split at htys <;> simp_all
    · cases monadic with
      | true => exact ⟨_, rfl⟩
      | false =>
        simp only [Bool.false_eq_true, if_false]
        split
        · rename_i pats vals hpats hvals
          obtain ⟨pty, rfl⟩ := optDestStructPat_eq_some hpats
          obtain ⟨q, fty, hq, happs⟩ := optDestTupleTexpr_eq_some hvals
          obtain ⟨htys, -⟩ := tuple_types hq happs htyped
          have hlen : pats.length = vals.length := by simpa using congrArg List.length htys
          exact ⟨_, by rw [combine, if_pos hlen]; rfl⟩
        · exact ⟨_, rfl⟩
  · exact ⟨_, rfl⟩

end

/-- The expression is well-typed, and its let-bindings do not bind values of the error monad. -/
structure Regular (tc : TypingCtx) (e : Texpr) : Prop where
  typed : e.WellTyped tc
  plain : e.AllLets fun _ pat _ => pat.Plain

structure Rewritten (tc : TypingCtx) (e e' : Texpr) : Prop where
  regular : Regular tc e'
  lighter : weight e' < weight e
  args : ∀ {X : Type} (args : List (Value X)), TypedArgs e args → TypedArgs e' args
  eval : ∀ {D X : Type} (I : Interp D X) (isCall : FunKey → Bool) (call : FunCalls D X) (env : Env D X)
    (args : List (Value X)), TypedArgs e args → e'.eval I isCall call env args = e.eval I isCall call env args

section
variable {tc : TypingCtx} {ctx : Ctx} {monadic rmonadic : Bool} {lv rlv : TPat}
  {rv rrv rnext next x : Texpr} {ty rty fty : Ty} {q : Qualif}

theorem Regular.child {e : Expr} {c : Scoped Texpr} (h : Regular tc (.mk e ty)) (hc : c ∈ e.children) :
    Regular tc c.2 :=
  ⟨h.typed.child hc, h.plain.child hc⟩

theorem eval_flatten {D X : Type} (I : Interp D X) (isCall : FunKey → Bool) (call : FunCalls D X) (env : Env D X)
    (args : List (Value X))
    (hsep : (mk (.letE monadic lv (.mk (.letE rmonadic rlv rrv rnext) rty) next) ty).Separated ctx)
    (h : Regular tc (.mk (.letE monadic lv (.mk (.letE rmonadic rlv rrv rnext) rty) next) ty)) :
    (mk (.letE rmonadic rlv rrv (mkOpenedLet monadic lv rnext next)) ty).eval I isCall call env args =
      (mk (.letE monadic lv (.mk (.letE rmonadic rlv rrv rnext) rty) next) ty).eval I isCall call env args := by
  obtain ⟨hrv, hbound, hnext⟩ := (openedIn_letE ..).mp hsep.wellScoped.opened
  obtain ⟨hrrv, hrbound, hrnext⟩ := (openedIn_letE ..).mp hrv
  -- the variables of the inner pattern are not in the scope of what comes next
  have hbind :
    ∀ w, ((env.bind [rlv] [w]).bind fun env₁ => (mkOpenedLet monadic lv rnext next).eval I isCall call env₁ args) =
      ((env.bind [rlv] [w]).bind fun env₁ => rnext.eval I isCall call env₁ []).bind
        (evalLet I monadic lv (next.eval I isCall call) env args) := by
    intro w
    cases hw : env.bind [rlv] [w] with
    | none => rfl
    | some env₁ =>
      obtain ⟨l, hl, rfl⟩ := bind_singleton.mp hw
      have hagrees : env.Agrees (fun _ => false) ctx (env.push l) := by
        refine ⟨rfl, fun f hf => (Env.sameBut_push (matches_ids hrbound hl)).fvars f fun hmem => ?_⟩
        refine hsep.apart f (hf.resolve_left (by simp)) ?_
        simp only [binderIds_letE, mem_append]
        tauto
      simp only [Option.bind_some, mkOpenedLet, eval_letE]
      exact congrArg _ (funext fun v => evalLet_agrees hagrees hbound hnext args v)
  rw [eval_letE, eval_letE, eval_letE]
  cases rrv.eval I isCall call env [] with
  | none => rfl
  | some v =>
    cases rmonadic with
    | false => exact hbind v
    | true =>
      simp only [Option.bind_some, evalLet, if_true]
      cases v.result with
      | none => rfl
      | some r =>
        cases r with
        | ok w => exact hbind w
        | error e =>
          cases monadic with
          | true => rfl
          | false =>
            -- a pure let-binding does not bind a value of the error monad
            obtain ⟨⟨hrvTy, -, -⟩, -, hrvTyped, -⟩ := wellTyped_letE.mp h.typed
            obtain ⟨⟨-, -, hmonadic⟩, -⟩ := wellTyped_letE.mp hrvTyped
            have hplain := (allLets_letE.mp h.plain).1.ty
            exact absurd (hmonadic rfl) (by rwa [show rty = lv.ty from hrvTy])

theorem rewritten_flatten
    (hsep : (mk (.letE monadic lv (.mk (.letE rmonadic rlv rrv rnext) rty) next) ty).Separated ctx)
    (h : Regular tc (.mk (.letE monadic lv (.mk (.letE rmonadic rlv rrv rnext) rty) next) ty)) :
    Rewritten tc (.mk (.letE monadic lv (.mk (.letE rmonadic rlv rrv rnext) rty) next) ty)
      (.mk (.letE rmonadic rlv rrv (mkOpenedLet monadic lv rnext next)) ty) := by
  obtain ⟨⟨hrvTy, hnextTy, hmonadic⟩, hlv, hrv, hnext⟩ := wellTyped_letE.mp h.typed
  obtain ⟨⟨hrrvTy, hrnextTy, hrmonadic⟩, hrlv, hrrv, hrnext⟩ := wellTyped_letE.mp hrv
  obtain ⟨hplain, hrvPlain, hnextPlain⟩ := allLets_letE.mp h.plain
  obtain ⟨hrplain, hrrvPlain, hrnextPlain⟩ := allLets_letE.mp hrvPlain
  have hinner : (mkOpenedLet monadic lv rnext next).WellTyped tc :=
    wellTyped_letE.mpr ⟨⟨hrnextTy.trans hrvTy, rfl, hnextTy ▸ hmonadic⟩, hlv, hrnext, hnext⟩
  have htyped : (mk (.letE rmonadic rlv rrv (mkOpenedLet monadic lv rnext next)) ty).WellTyped tc := by
    refine wellTyped_letE.mpr ⟨⟨hrrvTy, hnextTy, fun hr => ?_⟩, hrlv, hrrv, hinner⟩
    cases monadic with
    | true => exact hmonadic rfl
    | false => exact absurd (hrmonadic hr) (by rw [show rty = lv.ty from hrvTy]; exact hplain.ty)
  refine ⟨⟨htyped, allLets_letE.mpr ⟨hrplain, hrrvPlain, allLets_letE.mpr ⟨hplain, hrnextPlain, hnextPlain⟩⟩⟩,
    ?_, fun _ h => h, fun I isCall call env args _ => eval_flatten I isCall call env args hsep h⟩
  simp only [mkOpenedLet, weight_letE]
  have := weight_pos rrv
  omega

theorem Regular.isMonadic (h : Regular tc (.mk (.letE monadic lv (.mk (.app (.mk (.qualif q) fty) x) rty) next) ty))
    {variantId : VariantId} (hq : q.id = .adtCons { adtId := .builtin .result, variantId := some variantId }) :
    monadic = true := by
  obtain ⟨⟨hrvTy, -, -⟩, -, hrv, -⟩ := wellTyped_letE.mp h.typed
  obtain ⟨rfl, -⟩ := hrv.result hq
  cases monadic with
  | true => rfl
  | false =>
    have hlvTy : Ty.adt (.builtin .result) q.generics = lv.ty := hrvTy
    exact absurd (.inl (by rw [← hlvTy]; rfl)) (allLets_letE.mp h.plain).1.ty

theorem rewritten_ok (h : Regular tc (.mk (.letE monadic lv (.mk (.app (.mk (.qualif q) fty) x) rty) next) ty))
    (hq : q.id = .adtCons { adtId := .builtin .result, variantId := some resultOkId }) :
    Rewritten tc (.mk (.letE monadic lv (.mk (.app (.mk (.qualif q) fty) x) rty) next) ty)
      (.mk (.letE false lv x next) ty) := by
  obtain rfl := h.isMonadic hq
  obtain ⟨⟨hrvTy, hnextTy, -⟩, hlv, hrv, hnext⟩ := wellTyped_letE.mp h.typed
  obtain ⟨rfl, hfields⟩ := hrv.result hq
  have hgenerics : q.generics = mkGenericArgsFromTypes [lv.ty] := by
    injection (show Ty.adt (.builtin .result) q.generics = mkResultTy lv.ty from hrvTy)
  have hxTy : x.ty = lv.ty := by
    have htys := getAdtFieldTypes_ok hfields
    rw [hgenerics] at htys
    exact (List.cons.inj htys).1.symm
  obtain ⟨hplain, hrvPlain, hnextPlain⟩ := allLets_letE.mp h.plain
  have htyped : (mk (.letE false lv x next) ty).WellTyped tc :=
    wellTyped_letE.mpr ⟨⟨hxTy, hnextTy, by simp⟩, hlv, (wellTyped_app.mp hrv).2.2, hnext⟩
  refine ⟨⟨htyped, allLets_letE.mpr
    ⟨hplain, hrvPlain.child (c := (.none, x)) (by simp [Expr.children]), hnextPlain⟩⟩, ?_, fun _ h => h,
    fun I isCall call env args _ => ?_⟩
  · simp only [weight_letE, weight_app]
    omega
  · rw [eval_letE, eval_letE, eval_app]
    cases x.eval I isCall call env [] with
    | none => rfl
    | some v =>
      rw [Option.bind_some, Option.bind_some, eval_adtCons hq]
      rfl

theorem rewritten_fail (h : Regular tc (.mk (.letE monadic lv (.mk (.app (.mk (.qualif q) fty) x) rty) next) ty))
    (hq : q.id = .adtCons { adtId := .builtin .result, variantId := some resultFailId }) :
    Rewritten tc (.mk (.letE monadic lv (.mk (.app (.mk (.qualif q) fty) x) rty) next) ty)
      (.mk (.app (.mk (.qualif q) fty) x) rty) := by
  obtain rfl := h.isMonadic hq
  obtain ⟨⟨hrvTy, hnextTy, hmonadic⟩, hlv, hrv, hnext⟩ := wellTyped_letE.mp h.typed
  have hargs : ∀ {X : Type} (args : List (Value X)),
      TypedArgs (.mk (.letE true lv (.mk (.app (.mk (.qualif q) fty) x) rty) next) ty) args → args = [] :=
    fun args h => h.resolve_right (not_not_intro (hmonadic rfl))
  refine ⟨⟨hrv, (allLets_letE.mp h.plain).2.1⟩, ?_, fun args h => .inl (hargs args h),
    fun I isCall call env args hargs' => ?_⟩
  · simp only [weight_letE]
    omega
  · obtain rfl := hargs args hargs'
    rw [eval_letE, eval_app]
    cases x.eval I isCall call env [] with
    | none => rfl
    | some v =>
      rw [Option.bind_some, eval_adtCons hq]
      rfl

theorem wellTyped_mkOpenedLets : ∀ {pats : List TPat} {vals : List Texpr}, pats.map TPat.ty = vals.map Texpr.ty →
    (∀ p ∈ pats, p.WellTyped tc) → (∀ x ∈ vals, x.WellTyped tc) → next.WellTyped tc →
    (mkOpenedLets false (pats.zip vals) next).WellTyped tc ∧ (mkOpenedLets false (pats.zip vals) next).ty = next.ty
  | [], _, _, _, _, hnext => ⟨hnext, rfl⟩
  | _ :: _, [], _, _, _, hnext => ⟨hnext, rfl⟩
  | p :: pats, x :: vals, htys, hpats, hvals, hnext => by
    obtain ⟨hty, htys⟩ := List.cons.inj htys
    obtain ⟨hp, hpats⟩ := forall_mem_cons.mp hpats
    obtain ⟨hx, hvals⟩ := forall_mem_cons.mp hvals
    obtain ⟨hrest, hrestTy⟩ := wellTyped_mkOpenedLets htys hpats hvals hnext
    exact ⟨wellTyped_letE.mpr ⟨⟨hty.symm, rfl, by simp⟩, hp, hx, hrest⟩, hrestTy⟩

theorem allLets_mkOpenedLets {P : Bool → TPat → Texpr → Prop} (hnext : next.AllLets P) :
    ∀ {lets : List (TPat × Texpr)}, (∀ x ∈ lets, P monadic x.1 x.2 ∧ x.2.AllLets P) →
    (mkOpenedLets monadic lets next).AllLets P
  | [], _ => hnext
  | x :: lets, h => by
    obtain ⟨hx, hlets⟩ := forall_mem_cons.mp h
    exact allLets_letE.mpr ⟨hx.1, hx.2, allLets_mkOpenedLets hnext hlets⟩

section
variable {pats : List TPat} {generics : GenericArgs} {vals : List Texpr}

theorem eval_tuple {D X : Type} (I : Interp D X) (isCall : FunKey → Bool) (call : FunCalls D X) (env : Env D X)
    (args : List (Value X))
    (hsep : (mk (.letE false (.mk (.adt none pats) (.adt .tuple generics)) rv next) ty).Separated ctx)
    (hq : q.id = .adtCons { adtId := .tuple, variantId := none })
    (hrv : IsApps (.mk (.qualif q) fty) vals rv) (hlen : pats.length = vals.length) :
    (mkOpenedLets false (pats.zip vals) next).eval I isCall call env args =
      (mk (.letE false (.mk (.adt none pats) (.adt .tuple generics)) rv next) ty).eval I isCall call env args := by
  obtain ⟨hrvOpened, hbound, hnext⟩ := (openedIn_letE ..).mp hsep.wellScoped.opened
  rw [tpatsBound_adt] at hbound
  -- the components are matched with the values together
  have hleft : (mk (.letE false (.mk (.adt none pats) (.adt .tuple generics)) rv next) ty).eval I isCall call env args =
      (matchLets I isCall call env (pats.zip vals)).bind fun l => next.eval I isCall call (env.push l) args := by
    rw [eval_letE, hrv.eval_adtCons hq, evalArgs_eq_allSome, matchLets, matchAll, map_fst_zip (by omega),
      map_snd_comp_zip hlen fun x => x.eval I isCall call env []]
    cases allSome (vals.map fun x => x.eval I isCall call env []) with
    | none => rfl
    | some vs =>
      have hbind : env.bind [.mk (.adt none pats) (.adt .tuple generics)] [.adt .tuple none vs] =
          (matchTPats pats vs).map env.push := bind_tuple rfl
      simp only [Option.map_some, Option.bind_some, evalLet, Bool.false_eq_true, if_false, hbind]
      cases matchTPats pats vs <;> rfl
  have hlets : ∀ x ∈ pats.zip vals, Outside (tpatsIds pats) x.2 ∧ tpatsBound [x.1] = [] ∧
    tpatsIds [x.1] ⊆ tpatsIds pats := by
    intro x hx
    obtain ⟨hp, hx⟩ := List.of_mem_zip hx
    have hopened := (x.2.openedIn_iff).mp ((hrv.openedIn.mp hrvOpened).2 x.2 hx)
    have hscoped := (hsep.child (c := (.none, rv)) (by simp [Expr.children])).wellScoped
    refine ⟨⟨hopened.1, (hrv.within.2 x.2 hx).nodup hscoped.nodup, fun f hf hf' => ?_⟩,
      tpatsBound_eq_nil_iff.mp hbound x.1 hp, tpatsIds_subset (by simpa using hp)⟩
    refine hsep.apart f ((hopened.2 f hf).resolve_left (by simp)) ?_
    rw [binderIds_letE, tpatsIds_adt]
    exact mem_append_right _ (mem_append_left _ hf')
  rw [hleft]
  rcases eval_mkOpenedLets next args (Env.SameBut.refl (tpatsIds pats) env) hlets with
    ⟨l, env', hl, hgenerics, hfvars, heval⟩ | ⟨hl, heval⟩
  · rw [hl, heval, Option.bind_some]
    have hsame : (env.push l).SameBut [] env' := ⟨hgenerics, fun f _ => by rw [hfvars]; rfl⟩
    exact eval_sameBut (next.openedIn_iff.mp hnext).1 (by simp) hsame args
  · rw [hl, heval]
    rfl

theorem rewritten_tuple {pty : Ty} (hsep : (mk (.letE false (.mk (.adt none pats) pty) rv next) ty).Separated ctx)
    (h : Regular tc (.mk (.letE false (.mk (.adt none pats) pty) rv next) ty))
    (hq : q.id = .adtCons { adtId := .tuple, variantId := none })
    (hrv : IsApps (.mk (.qualif q) fty) vals rv) (hlen : pats.length = vals.length) :
    Rewritten tc (.mk (.letE false (.mk (.adt none pats) pty) rv next) ty)
      (.mk (mkOpenedLets false (pats.zip vals) next).e ty) := by
  obtain ⟨htys, generics, rfl⟩ := tuple_types hq hrv h.typed
  obtain ⟨⟨-, hnextTy, -⟩, hlv, hrvTyped, hnext⟩ := wellTyped_letE.mp h.typed
  obtain ⟨hplain, hrvPlain, hnextPlain⟩ := allLets_letE.mp h.plain
  have hpats : ∀ p ∈ pats, p.WellTyped tc := tpatsWellTyped_iff.mp hlv.tuple.2.2.2
  obtain ⟨htyped, hty⟩ := wellTyped_mkOpenedLets htys hpats (fun x hx => (hrv.within.2 x hx).wellTyped hrvTyped) hnext
  have hmk : mk (mkOpenedLets false (pats.zip vals) next).e ty = mkOpenedLets false (pats.zip vals) next := by
    rw [← hnextTy, ← hty, mk_e_ty]
  rw [hmk]
  refine ⟨⟨htyped, allLets_mkOpenedLets hnextPlain fun x hx => ?_⟩, ?_, fun args h => ?_,
    fun I isCall call env args _ => eval_tuple I isCall call env args hsep hq hrv hlen⟩
  · obtain ⟨hp, hx⟩ := List.of_mem_zip hx
    exact ⟨tpatsPlain_iff.mp hplain.2 x.1 hp, (hrv.within.2 x.2 hx).allLets hrvPlain⟩
  · rw [weight_mkOpenedLets, weight_letE, weight_apps hrv, map_snd_comp_zip hlen fun x => 2 * weight x + 1]
    have := weight_components vals
    omega
  · rwa [TypedArgs, hty, hnextTy]

end

theorem Rewrites.rewritten {e : Expr} (h : Rewrites next monadic lv rv e)
    (hsep : (mk (.letE monadic lv rv next) ty).Separated ctx)
    (hregular : Regular tc (.mk (.letE monadic lv rv next) ty)) :
    ∃ ty', Rewritten tc (.mk (.letE monadic lv rv next) ty) (.mk e ty') := by
  cases h with
  | flatten => exact ⟨ty, rewritten_flatten hsep hregular⟩
  | ok hq => exact ⟨ty, rewritten_ok hregular hq⟩
  | fail hq => exact ⟨_, rewritten_fail hregular hq⟩
  | tuple hq hrv _ hlen => exact ⟨ty, rewritten_tuple hsep hregular hq hrv hlen⟩

/-! ## The visit -/

structure Simplified (ctx : Ctx) (e e' : Texpr) : Prop where
  keeps : e.Keeps ctx e'
  eval : ∀ {D X : Type} (I : Interp D X) (isCall : FunKey → Bool) (call : FunCalls D X) (env : Env D X)
    (args : List (Value X)), TypedArgs e args → e'.eval I isCall call env args = e.eval I isCall call env args

theorem simplified_refl {e : Texpr} (h : e.OpenedIn (fun _ => false) ctx) : Simplified ctx e e :=
  ⟨keeps_refl h, fun _ _ _ _ _ _ => rfl⟩

theorem Rewritten.simplified {e e₁ e₂ : Expr} {ty₁ : Ty} (h : Rewritten tc (.mk e ty) (.mk e₁ ty₁))
    (hkeeps : (Texpr.mk e ty).Keeps ctx (.mk e₁ ty₁)) (h' : Simplified ctx (.mk e₁ ty₁) (.mk e₂ ty₁)) :
    Simplified ctx (.mk e ty) (.mk e₂ ty) := by
  refine ⟨(hkeeps.trans h'.keeps).retype ty ty, fun I isCall call env args hargs => ?_⟩
  rw [eval_retype e₂ ty ty₁, h'.eval I isCall call env args (h.args args hargs)]
  exact h.eval I isCall call env args hargs

theorem simplified_node {e : Expr} {cs : List (Scoped Texpr)} (he : e.IsNode)
    (hopened : (mk e ty).OpenedIn (fun _ => false) ctx) (htyped : e.TypedAs tc ty)
    (h : List.Forall₂ (fun c c' : Scoped Texpr => c'.1 = c.1 ∧ Simplified (c.1.under Ctx.push ctx) c.2 c'.2) e.children
      cs) :
    Simplified ctx (.mk e ty) (.mk (e.rebuild cs) ty) := by
  refine ⟨keeps_node he hopened (h.imp fun c c' hc => ⟨hc.1, hc.2.keeps⟩) ty, fun I isCall call env args hargs => ?_⟩
  have hrelated : List.Forall₂ (RelatedScoped sameOutcome I isCall call TypedArgs env env) e.children cs := by
    refine h.imp fun c c' hc => relatedScoped_same hc.1 fun hentered args hargs => ?_
    rw [hentered.eq]
    exact (hc.2.eval I isCall call _ args hargs).symm
  exact (eval_related_on I.respects_same he rfl hrelated (passesArgs_typed htyped hargs)).symm

theorem visitExpr_simplified :
    ∀ (n : Nat) {env : IdSet FVarId} {ctx : Ctx} {e : Expr} {ty : Ty}, weight (.mk e ty) ≤ n →
    Visitable env ctx (.mk e ty) → Regular tc (.mk e ty) →
    ∃ e', visitExpr n env e = .ok e' ∧ Simplified ctx (.mk e ty) (.mk e' ty)
  | 0, _, _, e, ty, hn, _, _ => absurd hn (Nat.not_le_of_lt (weight_pos (.mk e ty)))
  | n + 1, env, ctx, e, ty, hn, h, hregular => by
    have hchild : ∀ {env' : IdSet FVarId} {c : Scoped Texpr}, c ∈ e.children →
      Visitable env' (c.1.under Ctx.push ctx) c.2 →
        ∃ x, onTexpr (visitExpr n env') c.2 = .ok x ∧ Simplified (c.1.under Ctx.push ctx) c.2 x := by
      intro env' c hc hvisitable
      have hregular' := hregular.child hc
      have hlt : weight c.2 < weight (.mk e ty) := weight_child hc
      obtain ⟨g, e₁, ty₁⟩ := c
      obtain ⟨e', he', hsimplified⟩ :=
        visitExpr_simplified n (Nat.le_of_lt_succ (Nat.lt_of_lt_of_le hlt hn)) hvisitable hregular'
      exact ⟨.mk e' ty₁, bind_eq_of_ok he' _, hsimplified⟩
    have hnode : ∃ e', mapChildren (onTexpr (visitExpr n env)) e = .ok e' ∧ Simplified ctx (.mk e ty) (.mk e' ty) := by
      obtain ⟨cs, hcs, hsimplified⟩ := exists_mapChildren fun c hc => hchild hc (h.child hc)
      refine ⟨_, hcs, ?_⟩
      rcases e.var_or_node with ⟨f, rfl⟩ | ⟨v, rfl⟩ | he
      · exact simplified_refl h.opened
      · exact simplified_refl h.opened
      · exact simplified_node he h.opened hregular.typed.typed hsimplified
    cases e with
    | letE monadic lv rv next =>
      change ∃ e', visitLet (visitExpr n) env monadic lv rv next = .ok e' ∧ _
      obtain ⟨r, hr⟩ := rewriteLet_typed hregular.typed
      rw [visitLet, bind_eq_of_ok hr]
      cases r with
      | some e₁ =>
        obtain ⟨ty₁, hrewritten⟩ := (rewriteLet_cases hr).rewritten h.separated hregular
        have hkeeps := (rewriteLet_cases hr).keeps h.opened ty₁
        have hlighter := hrewritten.lighter
        obtain ⟨e', he', hsimplified⟩ := visitExpr_simplified n (by omega) (h.of_keeps hkeeps) hrewritten.regular
        exact ⟨e', he', hrewritten.simplified hkeeps hsimplified⟩
      | none =>
        cases hid : identityVar rv with
        | none => exact hnode
        | some fid =>
          have hc : (Group.one lv, next) ∈ (Expr.letE monadic lv rv next).children := by simp [Expr.children]
          obtain ⟨x, hx, hsimplified⟩ := hchild hc (h.next_of_identity hid)
          refine ⟨.letE monadic lv rv x, bind_eq_of_ok hx _, ?_⟩
          have hrv : Simplified ctx rv rv := simplified_refl ((openedIn_letE ..).mp h.opened).1
          exact simplified_node (Expr.isNode_of_child hc) h.opened hregular.typed.typed
            (.cons (b := (.none, rv)) ⟨rfl, hrv⟩ (.cons (b := (.one lv, x)) ⟨rfl, hsimplified⟩ .nil))
    | app f arg =>
      change ∃ e', visitApp (visitExpr n) env f arg = .ok e' ∧ _
      rw [visitApp, if_neg h.not_isIdentity]
      exact hnode
    | _ => exact hnode

theorem visitTexpr_simplified {n : Nat} {env : IdSet FVarId} {e : Texpr} (hn : weight e ≤ n) (h : Visitable env ctx e)
    (hregular : Regular tc e) : ∃ x, onTexpr (visitExpr n env) e = .ok x ∧ Simplified ctx e x := by
  obtain ⟨e, ty⟩ := e
  obtain ⟨e', he', hsimplified⟩ := visitExpr_simplified n hn h hregular
  exact ⟨.mk e' ty, bind_eq_of_ok he' _, hsimplified⟩

end

/-! ## Function bodies -/

theorem visitExpr_succ : ∀ {n : Nat} {env : IdSet FVarId} {e e' : Expr}, visitExpr n env e = .ok e' →
    visitExpr (n + 1) env e = .ok e'
  | 0, _, _, _, h => by cases h
  | n + 1, env, e, e', h => by
    have hvisit : ∀ {env x x'}, onTexpr (visitExpr n env) x = .ok x' → onTexpr (visitExpr (n + 1) env) x = .ok x' := by
      intro env x x' hx
      obtain ⟨e, he, hx⟩ := bind_eq_ok.mp hx
      exact bind_eq_ok.mpr ⟨e, visitExpr_succ he, hx⟩
    have hnode : ∀ {e e'}, mapChildren (onTexpr (visitExpr n env)) e = .ok e' →
        mapChildren (onTexpr (visitExpr (n + 1) env)) e = .ok e' := mapChildren_mono hvisit
    cases e with
    | letE monadic lv rv next =>
      change visitLet (visitExpr n) env monadic lv rv next = .ok e' at h
      change visitLet (visitExpr (n + 1)) env monadic lv rv next = .ok e'
      obtain ⟨r, hr, h⟩ := bind_eq_ok.mp h
      rw [visitLet, bind_eq_of_ok hr]
      cases r with
      | some e₁ => exact visitExpr_succ h
      | none =>
        cases hid : identityVar rv with
        | none =>
          rw [hid] at h
          exact hnode h
        | some fid =>
          rw [hid] at h
          obtain ⟨x, hx, h⟩ := bind_eq_ok.mp h
          exact bind_eq_ok.mpr ⟨x, hvisit hx, h⟩
    | app f arg =>
      change visitApp (visitExpr n) env f arg = .ok e' at h
      change visitApp (visitExpr (n + 1)) env f arg = .ok e'
      unfold visitApp at h ⊢
      by_cases hf : isIdentity env f = true
      · rwa [if_pos hf] at h ⊢
      · rw [if_neg hf] at h ⊢
        exact hnode h
    | _ => exact hnode h

theorem visitExpr_le {n m : Nat} {env : IdSet FVarId} {e e' : Expr} (h : visitExpr n env e = .ok e') (hle : n ≤ m) :
    visitExpr m env e = .ok e' :=
  Nat.le_induction h (fun _ _ => visitExpr_succ) m hle

/-- The pass returns and keeps the meaning of the well-typed bodies in which no let-binding binds a value of the
error monad, not even as a component of its pattern. -/
theorem simplifyLetBindings_preserved {def_ : FunDecl} {fbody b : FunBody} {fvars : IdMap FVarId FVar}
    {fresh s : FVarId} {tc : TypingCtx} (hbody : def_.body = some fbody) (hclosed : fbody.IsClosed fun _ => false)
    (hopen : openAllFunBody fresh fbody = .ok ((fvars, b), s)) (htyped : b.body.WellTyped tc)
    (hplain : b.body.AllLets fun _ pat _ => pat.Plain) :
    ∃ fbody', (∀ depth, weight b.body ≤ depth →
        simplifyLetBindings depth def_ fresh = .ok ({ def_ with body := some fbody' }, s)) ∧
      ∀ {D X : Type} (I : Interp D X) (isCall : FunKey → Bool), SameBody I isCall fbody fbody' := by
  obtain ⟨rfl, hb⟩ := openAllFunBody_wellScoped hclosed hopen
  obtain ⟨body', hvisit, hsimplified⟩ := visitTexpr_simplified (Nat.le_refl _) (visitable_body hb) ⟨htyped, hplain⟩
  have hb' := (hb.of_keeps hsimplified.keeps).unshadowed
  refine ⟨_, fun depth hdepth => liftExprMapVisitor_eq hbody hopen ?_ hb', fun I isCall =>
    sameBody_of_eval hb hb' fun call env => hsimplified.eval I isCall call env [] (.inl rfl)⟩
  obtain ⟨e', he', hx⟩ := bind_eq_ok.mp hvisit
  exact run_liftM_ok (bind_eq_ok.mpr ⟨e', visitExpr_le he' hdepth, hx⟩) s

/-- `fun x0 => let x2 <- (let x1 <- ok x0 in ok x1) in ok x2` -/
def nestedBody : FunBody where
  inputs := [boolPat 0]
  body := .mk (.letE true (boolPat 2)
    (.mk (.letE true (boolPat 1) (mkOk (boolVar 0)) (mkOk (boolVar 1))) (mkResultTy mkBoolTy)) (mkOk (boolVar 2)))
    (mkResultTy mkBoolTy)

theorem simplifyLetBindings_preserved_nested : nestedBody.body.WellTyped boolCtx ∧
    (nestedBody.body.AllLets fun _ pat _ => pat.Plain) ∧ ∃ depth fbody',
      simplifyLetBindings depth (closedDecl nestedBody) 0 = .ok ({ closedDecl nestedBody with body := some fbody' },
        3) ∧
      SameBody noInterp (fun _ => false) nestedBody.close fbody' := by
  have hscoped : nestedBody.WellScoped := ⟨rfl, ⟨rfl, rfl⟩, by decide⟩
  obtain ⟨fvars, hopen⟩ : ∃ fvars, openAllFunBody 0 nestedBody.close = .ok ((fvars, nestedBody), 0 + 3) :=
    hscoped.open_close rfl
  have hvar : ∀ x, (mkOk (boolVar x)).WellTyped boolCtx := fun x => mkCons_typed (boolVar_typed x) rfl
  have htyped : nestedBody.body.WellTyped boolCtx :=
    wellTyped_letE.mpr ⟨⟨rfl, rfl, fun _ => .inl rfl⟩, boolPat_typed 2,
      wellTyped_letE.mpr ⟨⟨rfl, rfl, fun _ => .inl rfl⟩, boolPat_typed 1, hvar 0, hvar 1⟩, hvar 2⟩
  have hpat : ∀ x, (boolPat x).Plain := fun x => ⟨by simp [Ty.IsMonadic, Ty.adtId, mkBoolTy], trivial⟩
  have hlets : ∀ x, (mkOk (boolVar x)).AllLets fun _ pat _ => pat.Plain := fun x => allLets_mkCons (allLets_leaf rfl)
  have hplain : nestedBody.body.AllLets fun _ pat _ => pat.Plain :=
    allLets_letE.mpr ⟨hpat 2, allLets_letE.mpr ⟨hpat 1, hlets 0, hlets 1⟩, hlets 2⟩
  obtain ⟨fbody', hrun, hsame⟩ := simplifyLetBindings_preserved (closedDecl_body _) hscoped.isClosed hopen htyped hplain
  exact ⟨htyped, hplain, _, fbody', hrun _ (Nat.le_refl _), hsame noInterp fun _ => false⟩

/-- `let x0 <- ok (fail Failure) in ok true` -/
def resultBody : FunBody where
  inputs := []
  body := .mk
    (.letE true (.mk (.opened { id := 0, basename := none, ty := mkResultTy mkBoolTy } none) (mkResultTy mkBoolTy))
    (mkOk (mkFailure mkBoolTy)) (mkOk mkTrue)) (mkResultTy mkBoolTy)

/-- The let-binding becomes pure, then its failure becomes the one of the body. -/
theorem simplifyLetBindings_fails : resultBody.close.IsClosed (fun _ => false) ∧
    resultBody.body.WellTyped { boolCtx with varTy := fun _ => mkResultTy mkBoolTy } ∧
    (resultBody.body.AllLets fun monadic pat _ => monadic = false → ¬ pat.ty.IsMonadic) ∧ ∃ def' s' fbody',
      simplifyLetBindings 10 (closedDecl resultBody) 0 = .ok (def', s') ∧
      def'.body = some fbody' ∧
      resultBody.close.eval noInterp (fun _ => false) noCalls () [] = some (.ok (.lit (.bool true))) ∧
      fbody'.eval noInterp (fun _ => false) noCalls () [] =
        some (.fail (.adt (.builtin .error) (some errorFailureId) [])) := by
  have hscoped : resultBody.WellScoped := ⟨rfl, ⟨rfl, rfl⟩, by decide⟩
  have hscoped' : FunBody.WellScoped { resultBody with body := mkFailure mkBoolTy } := ⟨rfl, ⟨rfl, rfl⟩, by decide⟩
  obtain ⟨fvars, hopen⟩ : ∃ fvars, openAllFunBody 0 resultBody.close = .ok ((fvars, resultBody), 0 + 1) :=
    hscoped.open_close rfl
  have hvisit : onTexpr (visitExpr 10 ∅) resultBody.body = .ok (mkFailure mkBoolTy) := rfl
  refine ⟨hscoped.isClosed, ?_, ?_, _, _, _, liftExprMapVisitor_eq (closedDecl_body _) hopen (run_liftM_ok hvisit _)
    hscoped'.unshadowed,
    rfl, ?_, ?_⟩
  · have hok : (mkOk (mkFailure mkBoolTy)).WellTyped { boolCtx with varTy := fun _ => mkResultTy mkBoolTy } :=
      mkCons_typed (mkFailure_typed mkBoolTy) rfl
    exact wellTyped_letE.mpr ⟨⟨rfl, rfl, fun _ => .inl rfl⟩, ⟨rfl, rfl⟩, hok, mkCons_typed mkTrue_typed rfl⟩
  · exact allLets_letE.mpr ⟨by simp, allLets_mkCons (allLets_mkCons (allLets_leaf rfl)),
      allLets_mkCons (allLets_leaf rfl)⟩
  · rw [hscoped.eval_close]
    rfl
  · rw [hscoped'.eval_close]
    rfl

end SimplifyLetBindings

end Aeneas.Pure
