import Aeneas.SimplifyLetBindings

/-!
# What the simplification of the let-bindings visits

A let-binding is rewritten until none of the rewritings applies, then its
subexpressions are visited. The rewritings keep the scopes. The variables of the
identity functions are not in scope where the visit looks for them, so no
application is simplified.
-/

namespace Aeneas.Pure

open Texpr List

namespace SimplifyLetBindings

/-! ## The rewritings -/

inductive Rewrites (next : Texpr) : Bool → TPat → Texpr → Expr → Prop
  | flatten {monadic rmonadic : Bool} {lv rlv : TPat} {rrv rnext : Texpr} {rty : Ty} :
    Rewrites next monadic lv (.mk (.letE rmonadic rlv rrv rnext) rty)
      (.letE rmonadic rlv rrv (mkOpenedLet monadic lv rnext next))
  | ok {monadic : Bool} {lv : TPat} {q : Qualif} {fty rty : Ty} {x : Texpr}
    (hq : q.id = .adtCons { adtId := .builtin .result, variantId := some resultOkId }) :
    Rewrites next monadic lv (.mk (.app (.mk (.qualif q) fty) x) rty) (.letE false lv x next)
  | fail {monadic : Bool} {lv : TPat} {q : Qualif} {fty rty : Ty} {x : Texpr}
    (hq : q.id = .adtCons { adtId := .builtin .result, variantId := some resultFailId }) :
    Rewrites next monadic lv (.mk (.app (.mk (.qualif q) fty) x) rty) (.app (.mk (.qualif q) fty) x)
  | tuple {pats : List TPat} {pty : Ty} {q : Qualif} {fty : Ty} {vals : List Texpr} {rv : Texpr}
    (hq : q.id = .adtCons { adtId := .tuple, variantId := none }) (hrv : IsApps (.mk (.qualif q) fty) vals rv)
    (hne : vals ≠ []) (hlen : pats.length = vals.length) :
    Rewrites next false (.mk (.adt none pats) pty) rv (mkOpenedLets false (pats.zip vals) next).e

theorem resultVariant_eq_some {f : Texpr} {variantId : VariantId} (h : resultVariant f = some variantId) :
    ∃ q fty, f = .mk (.qualif q) fty ∧ q.id = .adtCons { adtId := .builtin .result, variantId := some variantId } := by
  obtain ⟨f, fty⟩ := f
  unfold resultVariant at h
  split at h
  · rename_i q heq
    obtain rfl : f = .qualif q := heq
    refine ⟨q, fty, rfl, ?_⟩
    split at h
    · rename_i id hid
      split at h
      · rename_i hadt
        rw [hid, ← hadt, ← h]
      · cases h
    · cases h
  · cases h

theorem optDestTupleTexpr_eq_some {e : Texpr} {vals : List Texpr} (h : optDestTupleTexpr e = some vals) :
    ∃ q fty, q.id = .adtCons { adtId := .tuple, variantId := none } ∧ IsApps (.mk (.qualif q) fty) vals e := by
  unfold optDestTupleTexpr at h
  split at h
  · rename_i hcons
    obtain rfl := Option.some.inj h
    obtain ⟨-, happs⟩ := isApps_destructApps e
    unfold consId at hcons
    split at hcons
    · rename_i q hq
      split at hcons
      · rename_i id hid
        refine ⟨q, (destructApps e).1.ty, by rw [hid, Option.some.inj hcons], ?_⟩
        have hhead : (destructApps e).1 = .mk (.qualif q) (destructApps e).1.ty := by rw [← hq, mk_e_ty]
        rwa [← hhead]
      · cases hcons
    · cases hcons
  · cases h

theorem optDestStructPat_eq_some {pat : TPat} {pats : List TPat} (h : optDestStructPat pat = some pats) :
    ∃ pty, pat = .mk (.adt none pats) pty := by
  unfold optDestStructPat at h
  split at h
  · exact ⟨_, by rw [Option.some.inj h]⟩
  · cases h

variable {α β : Type} {l : List α} {l' : List β}

theorem combine_eq_ok {r : List (α × β)} (h : combine l l' = .ok r) :
    l.length = l'.length ∧ r = l.zip l' := by
  unfold combine at h
  split at h
  · exact ⟨‹_›, (Except.ok.inj h).symm⟩
  · cases h

theorem rewriteLet_cases {monadic : Bool} {lv : TPat} {rv next : Texpr} {e : Expr}
    (h : rewriteLet monadic lv rv next = .ok (some e)) : Rewrites next monadic lv rv e := by
  obtain ⟨re, rty⟩ := rv
  unfold rewriteLet at h
  split at h
  · rename_i hre
    obtain rfl : re = _ := hre
    cases h
    exact .flatten
  · rename_i f x hre
    obtain rfl : re = _ := hre
    split at h
    · rename_i variantId hvariant
      obtain ⟨q, fty, rfl, hq⟩ := resultVariant_eq_some hvariant
      split at h
      · rename_i hok
        cases h
        exact .ok (hok ▸ hq)
      · split at h
        · rename_i hfail
          cases h
          exact .fail (hfail ▸ hq)
        · cases h
    · cases monadic with
      | true => cases h
      | false =>
        simp only [Bool.false_eq_true, if_false] at h
        split at h
        · rename_i pats vals hpats hvals
          obtain ⟨pty, rfl⟩ := optDestStructPat_eq_some hpats
          obtain ⟨q, fty, hq, happs⟩ := optDestTupleTexpr_eq_some hvals
          obtain ⟨r, hr, h⟩ := bind_eq_ok.mp h
          obtain ⟨hlen, rfl⟩ := combine_eq_ok hr
          cases h
          refine .tuple hq happs (fun hnil => ?_) hlen
          subst hnil
          cases happs
        · cases h
  · cases h

theorem map_fst_comp_zip {γ : Type} (hlen : l.length = l'.length) (f : α → γ) :
    (l.zip l').map (fun x => f x.1) = l.map f := by
  calc (l.zip l').map (fun x => f x.1) = ((l.zip l').map Prod.fst).map f := (map_map ..).symm
    _ = l.map f := by rw [map_fst_zip (Nat.le_of_eq hlen)]

theorem map_snd_comp_zip {γ : Type} (hlen : l.length = l'.length) (f : β → γ) :
    (l.zip l').map (fun x => f x.2) = l'.map f := by
  calc (l.zip l').map (fun x => f x.2) = ((l.zip l').map Prod.snd).map f := (map_map ..).symm
    _ = l'.map f := by rw [map_snd_zip (Nat.le_of_eq hlen.symm)]

/-! ## The scopes -/

section
variable {env : IdSet FVarId} {ctx : Ctx} {monadic rmonadic : Bool} {lv rlv : TPat} {rv rrv rnext next :
    Texpr} {ty rty fty : Ty}
  {q : Qualif}

theorem keeps_flatten
    (h : (mk (.letE monadic lv (.mk (.letE rmonadic rlv rrv rnext) rty) next) ty).OpenedIn (fun _ => false) ctx)
    (ty' : Ty) : (mk (.letE monadic lv (.mk (.letE rmonadic rlv rrv rnext) rty) next) ty).Keeps ctx
      (.mk (.letE rmonadic rlv rrv (mkOpenedLet monadic lv rnext next)) ty') := by
  obtain ⟨hrv, hbound, hnext⟩ := (openedIn_letE ..).mp h
  obtain ⟨hrrv, hrbound, hrnext⟩ := (openedIn_letE ..).mp hrv
  constructor
  · refine (openedIn_letE ..).mpr ⟨hrrv, hrbound, (openedIn_letE ..).mpr ⟨hrnext, hbound, ?_⟩⟩
    refine next.openedIn_mono (fun f hf => hf.imp_right fun hf => ?_) hnext
    simp only [Ctx.push, List.flatten_cons, mem_append] at hf ⊢
    tauto
  · intro f
    simp only [mkOpenedLet, binderIds_letE, count_append]
    omega

theorem keeps_tuple {pats : List TPat} {pty : Ty} {vals : List Texpr}
    (h : (mk (.letE false (.mk (.adt none pats) pty) rv next) ty).OpenedIn (fun _ => false) ctx)
    (hrv : IsApps (.mk (.qualif q) fty) vals rv) (hlen : pats.length = vals.length) :
    (mk (.letE false (.mk (.adt none pats) pty) rv next) ty).Keeps ctx (mkOpenedLets false (pats.zip vals) next) := by
  obtain ⟨hrvOpened, hbound, hnext⟩ := (openedIn_letE ..).mp h
  rw [tpatsBound_adt, tpatsBound_eq_nil_iff] at hbound
  have hids : (pats.zip vals).flatMap (fun x => tpatsIds [x.1]) = tpatsIds pats := by
    rw [tpatsIds_eq_flatMap pats, flatMap_def, flatMap_def, map_fst_comp_zip hlen fun p => tpatsIds [p]]
  constructor
  · refine mkOpenedLets_openedIn (fun x hx => ?_) hnext fun f hf => ?_
    · have hx := List.of_mem_zip hx
      exact ⟨hbound x.1 hx.1, (hrv.openedIn.mp hrvOpened).2 x.2 hx.2⟩
    · rw [hids]
      simpa [Ctx.push, tpatsIds_adt, or_comm] using hf
  · intro f
    rw [count_mkOpenedLets, hids, map_snd_zip (by omega), binderIds_letE, tpatsIds_adt, hrv.binderIds]
    simp only [count_append]
    omega

theorem Rewrites.keeps {e : Expr} (h : Rewrites next monadic lv rv e)
    (hopened : (mk (.letE monadic lv rv next) ty).OpenedIn (fun _ => false) ctx) (ty' : Ty) :
    (mk (.letE monadic lv rv next) ty).Keeps ctx (.mk e ty') := by
  obtain ⟨hrv, hbound, hnext⟩ := (openedIn_letE ..).mp hopened
  cases h with
  | flatten => exact keeps_flatten hopened ty'
  | ok hq =>
    refine ⟨(openedIn_letE ..).mpr ⟨((openedIn_app ..).mp hrv).2, hbound, hnext⟩, fun f => ?_⟩
    simp only [binderIds_letE, binderIds_app, count_append]
    omega
  | fail hq =>
    refine ⟨openedIn_retype ty' hrv, fun f => ?_⟩
    simp only [binderIds_letE, binderIds_app, count_append]
    omega
  | tuple hq hrv _ hlen =>
    have hkeeps := keeps_tuple hopened hrv hlen
    rw [← mk_e_ty (mkOpenedLets false _ next)] at hkeeps
    exact hkeeps.retype ty ty'

structure Visitable (env : IdSet FVarId) (ctx : Ctx) (e : Texpr) : Prop where
  separated : e.Separated ctx
  idents : ∀ f ∈ env, f ∉ ctx.flatten ∧ f ∉ e.binderIds

theorem Visitable.opened {e : Texpr} (h : Visitable env ctx e) : e.OpenedIn (fun _ => false) ctx :=
  h.separated.wellScoped.opened

theorem Visitable.child {e : Expr} {c : Scoped Texpr} (h : Visitable env ctx (.mk e ty)) (hc : c ∈ e.children) :
    Visitable env (c.1.under Ctx.push ctx) c.2 := by
  refine ⟨h.separated.child hc, fun f hf => ?_⟩
  have hids : ∀ g, g ∈ scopedBinderIds c → g ∈ (Texpr.mk e ty).binderIds := fun g => mem_binderIds_of_child hc
  constructor
  · rw [mem_under]
    rintro (hf' | hf')
    · exact (h.idents f hf).2 (hids f (mem_append_left _ hf'))
    · exact (h.idents f hf).1 hf'
  · exact fun hf' => (h.idents f hf).2 (hids f (mem_append_right _ hf'))

theorem Visitable.of_keeps {e e' : Texpr} (h : Visitable env ctx e) (hkeeps : e.Keeps ctx e') :
    Visitable env ctx e' := by
  refine ⟨hkeeps.separated h.separated, fun f hf => ⟨(h.idents f hf).1, fun hf' => ?_⟩⟩
  have hcount := hkeeps.count f
  have := count_pos_iff.mpr hf'
  exact (h.idents f hf).2 (count_pos_iff.mp (by omega))

theorem identityVar_eq_some {fid : FVarId} (h : identityVar rv = some fid) :
    ∃ fv mp pty bty rty, rv = .mk (.lambda (.mk (.opened fv mp) pty) (.mk (.fvar fid) bty)) rty ∧ fv.id = fid := by
  obtain ⟨re, rty⟩ := rv
  unfold identityVar at h
  split at h
  · rename_i fv mp pty fid' bty hre
    obtain rfl : re = _ := hre
    split at h
    · rename_i hfid
      obtain rfl := Option.some.inj h
      exact ⟨fv, mp, pty, bty, rty, rfl, hfid⟩
    · cases h
  · cases h

theorem visitable_body {b : FunBody} (h : b.WellScoped) : Visitable ∅ [tpatsIds b.inputs] b.body :=
  ⟨h.separated, by simp⟩

theorem Visitable.next_of_identity (h : Visitable env ctx (.mk (.letE monadic lv rv next) ty)) {fid : FVarId}
    (hid : identityVar rv = some fid) : Visitable (env.insert fid) (Ctx.push [lv] ctx) next := by
  have hnext : Visitable env (Ctx.push [lv] ctx) next := h.child (c := (.one lv, next)) (by simp [Expr.children])
  obtain ⟨fv, mp, pty, bty, rty, rfl, rfl⟩ := identityVar_eq_some hid
  refine ⟨hnext.separated, fun f hf => ?_⟩
  rcases (mem_insert_iff env fv.id f).mp hf with rfl | hf
  · have hmem : fv.id ∈ (Texpr.mk (.lambda (.mk (.opened fv mp) pty) (.mk (.fvar fv.id) bty)) rty).binderIds := by
      rw [binderIds_node ⟨by simp, by simp⟩]
      simp [Expr.children, scopedBinderIds, Group.pats, tpatsIds, tpatsVars, TPat.vars, Pat.vars]
    have hnodup := h.separated.wellScoped.nodup
    rw [binderIds_letE] at hnodup
    obtain ⟨-, -, hdisj⟩ := nodup_append.mp hnodup
    constructor
    · simp only [Ctx.push, List.flatten_cons, mem_append]
      rintro (hf | hf)
      · exact hdisj _ hmem _ (mem_append_left _ hf) rfl
      · refine h.separated.apart _ hf ?_
        rw [binderIds_letE]
        exact mem_append_left _ hmem
    · exact fun hf => hdisj _ hmem _ (mem_append_right _ hf) rfl
  · exact hnext.idents f hf

theorem Visitable.not_isIdentity {f arg : Texpr} (h : Visitable env ctx (.mk (.app f arg) ty)) :
    ¬ isIdentity env f = true := by
  obtain ⟨fe, fty⟩ := f
  unfold isIdentity
  split
  · rename_i fid hfe
    obtain rfl : fe = .fvar fid := hfe
    have hf := openedIn_fvar.mp ((openedIn_app ..).mp h.opened).1
    intro hmem
    exact (h.idents fid (by simpa using hmem)).1 (hf.resolve_left (by simp))
  · simp

end

end SimplifyLetBindings

end Aeneas.Pure
