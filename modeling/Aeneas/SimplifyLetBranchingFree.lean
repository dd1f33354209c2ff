import Mathlib.Order.Std
import Mathlib.SetTheory.Cardinal.Order
import Aeneas.SimplifyLetBranchingSound

/-!
# The variables which escape

The simplification never loses a free variable. So a variable which is used out
of the scope of its binder after one step is still so at the end of the visit,
and the outputs had to be bound before the branchings if the result is
well-scoped.
-/

namespace Aeneas.Pure

open Texpr List

attribute [local simp] Expr.children Group.pats

section
variable {f : FVarId} {ctx : Ctx} {ty : Ty}

theorem Texpr.Separated.freeVars {e : Texpr} (h : e.Separated ctx) (hf : f ∈ e.freeVars) : f ∈ ctx.flatten :=
  ((e.openedIn_iff.mp h.wellScoped.opened).2 f hf).resolve_left (by simp)

theorem Texpr.Within.separated {d e : Texpr} (h : d.Within e) :
    ∀ {ctx : Ctx}, e.Separated ctx → ∃ ctx', d.Separated ctx' := by
  induction h with
  | refl => exact fun h => ⟨_, h⟩
  | child hc _ ih => exact fun h => ih (h.child hc)

theorem Texpr.mem_freeVars_letE {monadic : Bool} {pat : TPat} {bound next : Texpr} :
    f ∈ (mk (.letE monadic pat bound next) ty).freeVars ↔
      f ∈ bound.freeVars ∨ f ∈ next.freeVars ∧ f ∉ tpatsIds [pat] := by
  rw [mem_freeVars_node (Expr.isNode_letE monadic pat bound next)]
  simp [tpatsIds, tpatsVars]

theorem Texpr.mem_freeVars_ite {scrut thn els : Texpr} :
    f ∈ (mk (.switch scrut (.ite thn els)) ty).freeVars ↔
      f ∈ scrut.freeVars ∨ f ∈ thn.freeVars ∨ f ∈ els.freeVars := by
  rw [mem_freeVars_node ⟨by simp, by simp⟩]
  simp [SwitchBody.children, tpatsIds, tpatsVars]

theorem Texpr.mem_freeVars_matchE {scrut : Texpr} {branches : List (MatchBranch Texpr)} :
    f ∈ (mk (.switch scrut (.matchE branches)) ty).freeVars ↔
      f ∈ scrut.freeVars ∨ ∃ b ∈ branches, f ∈ b.branch.freeVars ∧ f ∉ tpatsIds [b.pat] := by
  rw [mem_freeVars_node ⟨by simp, by simp⟩]
  simp [SwitchBody.children, tpatsIds, tpatsVars]

theorem Texpr.mem_freeVars_emeta {m : EMeta Texpr} {e : Texpr} : f ∈ (mk (.emeta m e) ty).freeVars ↔
    (∃ c ∈ m.children, f ∈ c.2.freeVars ∧ f ∉ tpatsIds c.1.pats) ∨ f ∈ e.freeVars := by
  rw [mem_freeVars_node (e := .emeta m e) ⟨by simp, by simp⟩]
  simp only [Expr.children, mem_append, or_and_right, exists_or, mem_singleton, exists_eq_left]
  simp [tpatsIds, tpatsVars]

theorem Texpr.mem_freeVars_qualifApp {q : Qualif} {x : Texpr} {ty' : Ty} :
    f ∈ (mk (.app (.mk (.qualif q) ty') x) ty).freeVars ↔ f ∈ x.freeVars := by
  have happs : IsApps (.mk (.qualif q) ty') [x] (.mk (.app (.mk (.qualif q) ty') x) ty) := .cons ty (.nil _)
  have hhead : (mk (.qualif q) ty').freeVars = [] := rfl
  rw [happs.mem_freeVars, hhead]
  simp

end

namespace SimplifyLetBranching

theorem freeVars_rebuild {e : Expr} {f : FVarId} {ty : Ty} {cs : List (Scoped Texpr)} (hfits : Fits e.children cs)
    (h : List.Forall₂ (fun c c' : Scoped Texpr => c'.1 = c.1 ∧ ∀ f ∈ c.2.freeVars, f ∈ c'.2.freeVars) e.children cs)
    (hf : f ∈ (mk e ty).freeVars) : f ∈ (mk (e.rebuild cs) ty).freeVars := by
  rcases e.var_or_node with ⟨id, rfl⟩ | ⟨v, rfl⟩ | he
  · exact hf
  · exact hf
  · obtain ⟨hchildren, -⟩ := Expr.children_rebuild hfits hfits
    rw [mem_freeVars_node (he.rebuild cs), hchildren]
    obtain ⟨c, hc, hf, hpats⟩ := (mem_freeVars_node he ty).mp hf
    obtain ⟨c', hc', hgroup, hsub⟩ := exists_of_forall₂ h.flip hc
    exact ⟨c', hc', hsub f hf, hgroup ▸ hpats⟩

/-! ## The update -/

section
variable {cfg : FuelConfig} {outputs : List (Option Texpr)} {newTy : Ty} {f : FVarId} {boundFVars : List FVarId}

theorem mem_kept {α : Type} {a : α} : ∀ {outputs : List (Option Texpr)} {l : List α} {i : Nat},
    outputs[i]? = some none → l[i]? = some a → a ∈ kept outputs l
  | [], _, i, h, _ => by simp at h
  | _, [], i, _, h => by simp at h
  | none :: outputs, b :: l, i, h, h' => by
    rw [kept]
    cases i with
    | zero =>
      obtain rfl := Option.some.inj h'
      exact mem_cons_self ..
    | succ i => exact mem_cons_of_mem _ (mem_kept h h')
  | some _ :: outputs, b :: l, i, h, h' => by
    rw [kept]
    cases i with
    | zero => simp at h
    | succ i => exact mem_kept h h'

theorem mem_freeVars_simplTuple {args : List Texpr} {e x : Texpr} (h : mkSimplTupleTexpr cfg args = .ok e)
    (hx : x ∈ args) (hf : f ∈ x.freeVars) :
    f ∈ e.freeVars := by
  rcases isApps_simplTuple h with rfl | ⟨q, ty, happs⟩
  · obtain rfl := mem_singleton.mp hx
    exact hf
  · exact happs.mem_freeVars.mpr (.inr ⟨x, hx, hf⟩)

theorem Updated.freeVars {e e' : Texpr} (h : Updated cfg outputs newTy e e') (hlen : outputs.length ≠ 1) :
    ∀ {tests : Tests}, (∀ p ∈ tests, f ∉ p.2.freeVars) →
    (∀ t ∈ tails cfg boundFVars tests e, ∀ (i : Nat) out, outputs[i]? = some (some out) →
      Allows outputs.length i t out) →
    f ∉ e.binderIds → f ∈ e.freeVars → f ∈ e'.freeVars ∨ ∃ out, some out ∈ outputs ∧ f ∈ out.freeVars := by
  induction h with
  | value he hout => simp [hout] at hlen
  | @exit x e' q ty ty' hexit he' =>
    intro tests htests hallows hbinders hf
    exact .inl ((isApps_mkApps he').mem_freeVars.mpr (.inr ⟨x, by simp, mem_freeVars_qualifApp.mp hf⟩))
  | @ok g x x' e' ty hok hx he' ih =>
    intro tests htests hallows hbinders hf
    rw [tails, if_pos hok] at hallows
    obtain ⟨q, v, x, ty, ty', heq, -, -, -⟩ := isConsOf_iff hok
    cases heq
    rw [binderIds_app, mem_append, not_or] at hbinders
    refine (ih htests hallows hbinders.2 (mem_freeVars_qualifApp.mp hf)).imp_left fun hf => ?_
    exact (isApps_mkApps he').mem_freeVars.mpr (.inr ⟨x', by simp, hf⟩)
  | @tuple g x e' q variantId ty ty' args hq hargs he houtcome hok he' =>
    intro tests htests hallows hbinders hf
    rw [tails, hok] at hallows
    have hallowed := hallows _ (mem_singleton_self _)
    simp only [Allows, houtcome] at hallowed
    rcases he.mem_freeVars.mp hf with hf | ⟨x, hx, hf⟩
    · cases hf
    · obtain ⟨i, hi, rfl⟩ := mem_iff_getElem.mp hx
      have hi' : i < outputs.length := hargs ▸ hi
      cases hout : outputs[i] with
      | none =>
        have hkept : args[i] ∈ kept outputs args :=
          mem_kept (List.getElem?_eq_some_iff.mpr ⟨hi', hout⟩) (List.getElem?_eq_getElem hi)
        exact .inl (mem_freeVars_simplTuple he' hkept hf)
      | some out =>
        have hget : outputs[i]? = some (some out) := List.getElem?_eq_some_iff.mpr ⟨hi', hout⟩
        obtain ⟨arg, harg, hequal⟩ := hallowed i out hget
        rw [getElem?_eq_getElem hi] at harg
        obtain rfl := Option.some.inj harg
        rcases hequal with rfl | ⟨id, hid, rfl⟩
        · exact .inr ⟨_, mem_of_getElem? hget, hf⟩
        · exact absurd hf (htests _ hid)
  | @letE monadic pat bound next next' ty hnext ih =>
    intro tests htests hallows hbinders hf
    rw [tails] at hallows
    rw [binderIds_letE, mem_append, mem_append, not_or, not_or] at hbinders
    rw [mkOpenedLet, mem_freeVars_letE]
    rcases mem_freeVars_letE.mp hf with hf | ⟨hf, hpat⟩
    · exact .inl (.inl hf)
    · exact (ih htests hallows hbinders.2.2 hf).imp_left fun hf => .inr ⟨hf, hpat⟩
  | @ite scrut thn els thn' els' ty hthn hels iht ihe =>
    intro tests htests hallows hbinders hf
    rw [tails, forall_mem_append] at hallows
    rw [binderIds_ite, mem_append, mem_append, not_or, not_or] at hbinders
    rw [mem_freeVars_ite]
    have htests' : ∀ b : Bool, ∀ p ∈ valueTests boundFVars scrut (.mk (.const (.bool b)) mkBoolTy) ++ tests,
        f ∉ p.2.freeVars := by
      intro b
      refine forall_mem_append.mpr ⟨fun p hp hf => ?_, htests⟩
      rw [(mem_valueTests hp).1] at hf
      cases hf
    rcases mem_freeVars_ite.mp hf with hf | hf | hf
    · exact .inl (.inl hf)
    · exact (iht (htests' true) hallows.1 hbinders.2.1 hf).imp_left fun hf => .inr (.inl hf)
    · exact (ihe (htests' false) hallows.2 hbinders.2.2 hf).imp_left fun hf => .inr (.inr hf)
  | @matchE scrut branches branches' ty hpats hbranches ih =>
    intro tests htests hallows hbinders hf
    rw [tails] at hallows
    rw [mem_freeVars_matchE]
    rcases mem_freeVars_matchE.mp hf with hf | ⟨b, hb, hf, hpat⟩
    · exact .inl (.inl hf)
    · obtain ⟨b', hb', hpat', hzip⟩ := exists_updated_branch hpats hb
      rw [binderIds_matchE, mem_append, not_or] at hbinders
      have hbranch : f ∉ tpatsIds [b.pat] ++ b.branch.binderIds :=
        fun hmem => hbinders.2 (mem_flatMap.mpr ⟨b, hb, hmem⟩)
      rw [mem_append, not_or] at hbranch
      have htests' : ∀ p ∈ patTests cfg boundFVars scrut b.pat ++ tests, f ∉ p.2.freeVars :=
        forall_mem_append.mpr ⟨fun p hp hf => hpat ((tpatToTexpr_ofPats (mem_patTests hp).1).freeVars f hf), htests⟩
      refine (ih _ hzip htests' (fun t ht => hallows t (mem_tailsBranches.mpr ⟨b, hb, ht⟩)) hbranch.2 hf).imp_left ?_
      exact fun hf => .inr ⟨b', hb', hf, hpat'.symm ▸ hpat⟩
  | @emeta m e e' ty he ih =>
    intro tests htests hallows hbinders hf
    rw [tails] at hallows
    rw [binderIds_emeta, mem_append, not_or] at hbinders
    rw [mkEMeta, mem_freeVars_emeta]
    rcases mem_freeVars_emeta.mp hf with hf | hf
    · exact .inl (.inl hf)
    · exact (ih htests hallows hbinders.2 hf).imp_left .inr
  | eError =>
    intro tests htests hallows hbinders hf
    cases hf

theorem freeVars_of_values {n : Nat} {e x : Texpr} {args : List Texpr} (h : outcome n e = .values args) (hx : x ∈ args)
    (hf : f ∈ x.freeVars) : f ∈ e.freeVars := by
  obtain ⟨e, ty⟩ := e
  cases e with
  | app g a =>
    simp only [outcome, e] at h
    split at h
    · cases h
    · split at h
      · obtain rfl := Outcome.values.inj h
        exact (isApps_destructApps _).2.mem_freeVars.mpr (.inr ⟨x, hx, hf⟩)
      · cases h
  | loop l => cases h
  | eError span message => cases h
  | _ =>
    obtain rfl := Outcome.values.inj h
    obtain rfl := mem_singleton.mp hx
    exact hf

theorem mem_freeVars_mkOpenedLets {next : Texpr} : ∀ {lets : List (TPat × Texpr)},
    (∀ x ∈ lets, f ∉ tpatsIds [x.1]) → (f ∈ next.freeVars ∨ ∃ x ∈ lets, f ∈ x.2.freeVars) →
    f ∈ (mkOpenedLets false lets next).freeVars
  | [], _, h => h.resolve_right (by simp)
  | x :: lets, hlets, h => by
    obtain ⟨hx, hlets⟩ := forall_mem_cons.mp hlets
    refine mem_freeVars_letE.mpr ?_
    rcases h with h | ⟨y, hy, hf⟩
    · exact .inr ⟨mem_freeVars_mkOpenedLets hlets (.inl h), hx⟩
    · rcases mem_cons.mp hy with rfl | hy
      · exact .inl hf
      · exact .inr ⟨mem_freeVars_mkOpenedLets hlets (.inr ⟨y, hy, hf⟩), hx⟩

end

/-! ## One let-binding -/

section
variable [Ord Texpr] {cfg : FuelConfig} {outputs : List (Option Texpr)} {bound next : Texpr} {numOuts : Nat} {ctx : Ctx}
  {f : FVarId}

theorem Picked.apart (h : Picked cfg numOuts bound outputs) (hbound : bound.Separated ctx) {out out' : Texpr}
    (hout : some out ∈ outputs) (hout' : some out' ∈ outputs) (hf : f ∈ out.freeVars) : f ∉ out'.binderIds := by
  obtain ⟨i, hi⟩ := mem_iff_getElem?.mp hout
  obtain ⟨j, hj⟩ := mem_iff_getElem?.mp hout'
  obtain ⟨-, ⟨⟨t, ht, hreturns⟩, hallows⟩, -⟩ := (h.first i out).mp hi
  have hallows := hallows t ht
  have hallows' := ((h.first j out').mp hj).2.1.allows t ht
  obtain ⟨hwithin, htests⟩ := tails_in bound [] t ht
  obtain ⟨ctx', htail⟩ := hwithin.separated hbound
  unfold Allows at hallows hallows'
  split at hallows
  · exact absurd ‹_› hreturns
  · rename_i args hargs
    rw [hargs] at hallows'
    obtain ⟨arg, harg, hequal⟩ := hallows
    obtain ⟨arg', harg', hequal'⟩ := hallows'
    intro hmem
    rcases hequal' with rfl | ⟨id', -, rfl⟩
    · have hbinder := within_of_values hargs (mem_of_getElem? harg')
      have hmem' : f ∈ t.2.binderIds := hbinder.mem_binderIds hmem
      rcases hequal with rfl | ⟨id, hid, rfl⟩
      · have hfree := freeVars_of_values hargs (mem_of_getElem? harg) hf
        exact htail.apart f (htail.freeVars hfree) hmem'
      · obtain rfl := mem_singleton.mp (freeVars_fvar id _ ▸ hf)
        exact ((htests _ hid).resolve_left (by simp)).before (hwithin.mem_binderIds hmem')
    · simp [binderIds_fvar] at hmem
  · cases hallows

theorem Picked.isOpened (h : Picked cfg numOuts bound outputs) (hbound : bound.isOpened = true) {out : Texpr}
    (hout : some out ∈ outputs) : out.isOpened = true := by
  obtain ⟨i, hi, hfirst⟩ := h.shared hout
  rcases hfirst.1.within with hwithin | ⟨id, ty, rfl, -, -⟩
  · exact hwithin.isOpened hbound
  · rfl

theorem Picked.freeVars (h : Picked cfg numOuts bound outputs) {out : Texpr} (hout : some out ∈ outputs)
    (hf : f ∈ out.freeVars) : f ∈ bound.freeVars ∨ f ∈ bound.binderIds := by
  obtain ⟨i, hi, hfirst⟩ := h.shared hout
  rcases hfirst.1.within with hwithin | ⟨id, ty, rfl, -, hid⟩
  · exact hwithin.freeVars hf
  · obtain rfl := mem_singleton.mp (freeVars_fvar id ty ▸ hf)
    exact .inl hid

variable [Std.TransOrd Texpr] [Std.LawfulEqOrd Texpr] {monadic : Bool} {variantId : Option VariantId}
  {pats : List TPat} {patTy ty : Ty} {r : TPat × Texpr × Texpr}

theorem simplifyAux_children (hsep : (mk (.letE monadic (.mk (.adt variantId pats) patTy) bound next) ty).Separated ctx)
    (hlen : pats.length ≠ 1) (h : simplifyAux cfg monadic pats bound next = .ok r) :
    (∃ ctx', r.2.1.Separated ctx') ∧ ∃ ctx', r.2.2.Separated ctx' := by
  obtain ⟨outputs, bound', hpicked, rfl, hupdate⟩ := simplifyAux_ok h
  obtain ⟨hboundO, hpat, hnextO⟩ := (openedIn_letE ..).mp hsep.wellScoped.opened
  rw [tpatsBound_adt, tpatsBound_eq_nil_iff] at hpat
  have hbound : bound.Separated ctx := hsep.child (c := (.none, bound)) (by simp)
  refine ⟨⟨ctx, hbound.of_count ?_ fun f => ?_⟩, ?_⟩
  · rcases hupdate with hupdate | ⟨rfl, -⟩
    · exact hupdate.openedIn (by rwa [hpicked.length]) hboundO
    · exact hboundO
  · exact Nat.le_trans (Nat.le_add_right _ _) (hpicked.drops hlen hupdate f)
  · -- The variables of the outputs are taken as bound around
    let escaping := (outputs.filterMap id).flatMap freeVars
    have hescaping : ∀ f, f ∈ escaping ↔ ∃ out, some out ∈ outputs ∧ f ∈ out.freeVars := by
      intro f
      simp [escaping]
    have houts : ∀ f ∈ escaping, (outputsBinderIds outputs).count f = 0 := by
      intro f hf
      obtain ⟨out, hout, hf⟩ := (hescaping f).mp hf
      refine count_eq_zero.mpr fun hmem => ?_
      obtain ⟨out', hout', hmem⟩ := mem_flatMap.mp hmem
      exact hpicked.apart hbound hout (by simpa using hout') hf hmem
    have hdrops := hpicked.drops hlen hupdate
    have hpats := count_pats hpicked.length
    have hnext := fun f => @count_mkOpenedLets false next f (removed outputs pats)
    have hnodup := nodup_iff_count_le_one.mp hsep.wellScoped.nodup
    rw [map_snd_removed hpicked.length, ← outputsBinderIds] at hnext
    simp only [tpatsIds_mkSimplTuplePat] at hpats
    simp only [binderIds_letE, count_append, tpatsIds_adt] at hnodup
    refine ⟨escaping :: Ctx.push (kept outputs pats) ctx, ⟨?_, ?_⟩, ?_⟩
    · refine mkOpenedLets_openedIn (fun x hx => ?_) hnextO fun f hf => ?_
      · obtain ⟨i, hi, hp⟩ := mem_removed.mp hx
        have hout := mem_of_getElem? hi
        refine ⟨hpat x.1 (mem_of_getElem? hp), x.2.openedIn_iff.mpr ⟨?_, fun f hf => .inr ?_⟩⟩
        · exact hpicked.isOpened (bound.openedIn_iff.mp hboundO).1 hout
        · exact mem_append_left _ ((hescaping f).mpr ⟨x.2, hout, hf⟩)
      · have := hpats f
        simp only [Ctx.push, flatten_cons, mem_append, tpatsIds_adt] at hf ⊢
        simp only [← count_pos_iff] at hf ⊢
        omega
    · refine nodup_iff_count_le_one.mpr fun f => ?_
      have := hdrops f
      have := hpats f
      have := hnodup f
      rw [hnext f]
      omega
    · intro f hf
      have hdrops := hdrops f
      have hpats := hpats f
      have hnodup := hnodup f
      have hctx : f ∈ ctx.flatten → bound.binderIds.count f + ((tpatsIds pats).count f + next.binderIds.count f) =
        0 := by
        intro hf
        have hzero := count_eq_zero.mpr (hsep.apart f hf)
        simpa only [binderIds_letE, count_append, tpatsIds_adt] using hzero
      rw [← count_eq_zero, hnext f]
      simp only [Ctx.push, flatten_cons, mem_append] at hf
      rcases hf with hf | hf | hf
      · have hzero := houts f hf
        obtain ⟨out, hout, hfree⟩ := (hescaping f).mp hf
        rcases hpicked.freeVars hout hfree with hf | hf
        · have := hctx (hbound.freeVars hf)
          omega
        · rw [← count_pos_iff] at hf
          omega
      · rw [← count_pos_iff] at hf
        omega
      · have := hctx hf
        omega

theorem simplifyAux_freeVars (hsep : (mk (.letE monadic (.mk (.adt variantId pats) patTy) bound next) ty).Separated ctx)
    (hlen : pats.length ≠ 1) (h : simplifyAux cfg monadic pats bound next = .ok r)
    (hf : f ∈ (mk (.letE monadic (.mk (.adt variantId pats) patTy) bound next) ty).freeVars) :
    f ∈ (mk (.letE monadic r.1 r.2.1 r.2.2) ty).freeVars := by
  obtain ⟨outputs, bound', hpicked, rfl, hupdate⟩ := simplifyAux_ok h
  have hbinders := hsep.apart f (hsep.freeVars hf)
  rw [binderIds_letE, tpatsIds_adt, mem_append, mem_append, not_or, not_or] at hbinders
  obtain ⟨hbound, hpats, -⟩ := hbinders
  have hkept : f ∉ tpatsIds [mkSimplTuplePat (kept outputs pats)] := by
    rw [tpatsIds_mkSimplTuplePat]
    exact fun hmem => hpats (tpatsIds_subset (fun p => mem_of_mem_kept) hmem)
  have hremoved : ∀ x ∈ removed outputs pats, f ∉ tpatsIds [x.1] := by
    intro x hx hmem
    obtain ⟨i, -, hi⟩ := mem_removed.mp hx
    exact hpats (tpatsIds_subset (by simpa using mem_of_getElem? hi) hmem)
  rw [mem_freeVars_letE]
  rcases mem_freeVars_letE.mp hf with hf | ⟨hf, -⟩
  · rcases hupdate with hupdate | ⟨rfl, -⟩
    · rcases hupdate.freeVars (by rwa [hpicked.length]) (by simp) hpicked.allows hbound hf with hf | ⟨out, hout, hf⟩
      · exact .inl hf
      · obtain ⟨i, hi⟩ := mem_iff_getElem?.mp hout
        have hlt : i < pats.length := ((hpicked.first i out).mp hi).1
        have hmem : (pats[i], out) ∈ removed outputs pats := mem_removed.mpr ⟨i, hi, getElem?_eq_getElem hlt⟩
        exact .inr ⟨mem_freeVars_mkOpenedLets hremoved (.inr ⟨_, hmem, hf⟩), hkept⟩
    · exact .inl hf
  · exact .inr ⟨mem_freeVars_mkOpenedLets hremoved (.inl hf), hkept⟩

/-! ## The visit -/

variable {tc : TypingCtx} {e e' : Expr}

theorem simplifyNode_children (h : simplifyNode cfg e = .ok e') (hsep : (mk e ty).Separated ctx)
    (htyped : (mk e ty).LetsTyped tc) : ∀ c ∈ e'.children, ∃ ctx', c.2.Separated ctx' := by
  cases simplifyNode_step h with
  | same => exact fun c hc => ⟨_, hsep.child hc⟩
  | tuple _ hr =>
    obtain ⟨-, -, hlen, -⟩ := htyped.letTyped.pat.tuple
    simpa using simplifyAux_children hsep hlen hr

theorem simplifyNode_freeVars (h : simplifyNode cfg e = .ok e') (hsep : (mk e ty).Separated ctx)
    (htyped : (mk e ty).LetsTyped tc) (hf : f ∈ (mk e ty).freeVars) : f ∈ (mk e' ty).freeVars := by
  cases simplifyNode_step h with
  | same => exact hf
  | tuple _ hr =>
    obtain ⟨-, -, hlen, -⟩ := htyped.letTyped.pat.tuple
    exact simplifyAux_freeVars hsep hlen hr hf

theorem visitTexpr_freeVars : ∀ (n : Nat) {ctx : Ctx} {e e' : Texpr}, visitTexpr cfg n e = .ok e' → e.Separated ctx →
    e.LetsTyped tc → ∀ f ∈ e.freeVars, f ∈ e'.freeVars
  | 0, _, _, _, h, _, _ => by cases h
  | n + 1, ctx, .mk e ty, x, h, hsep, htyped => by
    intro f hf
    obtain ⟨e', cs, he', rfl, hcs⟩ := visitTexpr_ok h
    have hfits : Fits e'.children cs := hcs.imp fun c c' hc => hc.1 ▸ c.1.like_refl
    have hcs := (forall₂_and_left e'.children cs).mpr ⟨fun c hc => hc, hcs⟩
    refine freeVars_rebuild hfits (hcs.imp fun c c' h => ?_) (simplifyNode_freeVars he' hsep htyped hf)
    obtain ⟨hc, hgroup, hvisit⟩ := h
    obtain ⟨ctx', hsep'⟩ := simplifyNode_children he' hsep htyped c hc
    exact ⟨hgroup, visitTexpr_freeVars n hvisit hsep' (simplifyNode_letsTyped he' htyped c hc)⟩

theorem simplifyNode_hoistable (h : simplifyNode cfg e = .ok e') (hsep : (mk e ty).Separated ctx)
    (hopened : (mk e' ty).OpenedIn (fun _ => false) ctx) :
    ∀ monadic pats bound, Target e monadic pats bound → TargetHoistable cfg monadic pats bound := by
  intro monadic pats bound htarget
  cases simplifyNode_step h with
  | same hnone => exact absurd htarget (hnone monadic pats bound)
  | tuple _ hr =>
    cases htarget
    exact hoistable_of_openedIn hsep hr hopened

theorem visitTexpr_hoistable : ∀ (n : Nat) {ctx : Ctx} {e e' : Texpr}, visitTexpr cfg n e = .ok e' → e.Separated ctx →
    e.LetsTyped tc → e'.OpenedIn (fun _ => false) ctx → AllTargets cfg (TargetHoistable cfg) n e
  | 0, _, _, _, h, _, _, _ => by cases h
  | n + 1, ctx, .mk e ty, x, h, hsep, htyped, hfinal => by
    obtain ⟨e', cs, he', rfl, hcs⟩ := visitTexpr_ok h
    have hfits : Fits e'.children cs := hcs.imp fun c c' hc => hc.1 ▸ c.1.like_refl
    obtain ⟨hchildren, -⟩ := Expr.children_rebuild hfits hfits
    have hmem := (forall₂_and_left e'.children cs).mpr ⟨fun c hc => hc, hcs⟩
    have hfree : ∀ f ∈ (mk e' ty).freeVars, f ∈ (mk (e'.rebuild cs) ty).freeVars := by
      intro f hf
      refine freeVars_rebuild hfits (hmem.imp fun c c' h => ?_) hf
      obtain ⟨hc, hgroup, hvisit⟩ := h
      obtain ⟨ctx', hsep'⟩ := simplifyNode_children he' hsep htyped c hc
      exact ⟨hgroup, visitTexpr_freeVars n hvisit hsep' (simplifyNode_letsTyped he' htyped c hc)⟩
    have hscope : ∀ c ∈ e'.children, ∀ c' ∈ cs, c'.1 = c.1 → ScopedOpenedIn (fun _ => false) ctx c' := by
      intro c hc c' hc' _
      rw [openedIn_node ((Expr.isNode_of_child hc).rebuild cs), hchildren] at hfinal
      exact hfinal c' hc'
    have hopened : (mk e' ty).OpenedIn (fun _ => false) ctx := by
      refine (openedIn_iff _).mpr ⟨?_, fun f hf => ((openedIn_iff _).mp hfinal).2 f (hfree f hf)⟩
      rcases e'.var_or_node with ⟨id, rfl⟩ | ⟨v, rfl⟩ | hnode
      · rfl
      · exact absurd hfinal not_openedIn_bvar
      · rw [isOpened_node hnode]
        intro c hc
        obtain ⟨c', hc', hgroup, hvisit⟩ := exists_of_forall₂ hcs.flip hc
        obtain ⟨ctx', hsep'⟩ := simplifyNode_children he' hsep htyped c hc
        exact ⟨hgroup ▸ (hscope c hc c' hc' hgroup).1, (c.2.openedIn_iff.mp hsep'.wellScoped.opened).1⟩
    have hoist := simplifyNode_hoistable he' hsep hopened
    refine ⟨hoist, fun e'' he'' c hc => ?_⟩
    obtain rfl := Except.ok.inj (he'.symm.trans he'')
    obtain ⟨hsep', -⟩ := simplifyNode_separated he' hsep htyped hoist
    obtain ⟨c', hc', hgroup, hvisit⟩ := exists_of_forall₂ hcs.flip hc
    exact visitTexpr_hoistable n hvisit (hsep'.child hc) (simplifyNode_letsTyped he' htyped c hc)
      (hgroup ▸ (hscope c hc c' hc' hgroup).2)

/-! ## Function bodies -/

/-- No variable of the opened body is used out of the scope of its binder, and the closed one has the same meaning
under all the interpretations. -/
structure Preserved (fbody opened closed : FunBody) : Prop where
  wellScoped : opened.WellScoped
  same : ∀ {D X : Type} (I : Interp D X) (isCall : FunKey → Bool), SameBody I isCall fbody closed

theorem preserved_of_hoistable {b : FunBody} {body' : Texpr} {fbody' : FunBody} {depth : Nat} (hb : b.WellScoped)
    (htyped : b.body.LetsTyped tc) (hvisit : visitTexpr cfg depth b.body = .ok body')
    (hclose : closeAllFunBody { b with body := body' } = .ok fbody')
    (hall : AllTargets cfg (TargetHoistable cfg) depth b.body) :
    Preserved b.close { b with body := body' } fbody' := by
  have hsimplified := visitTexpr_simplified depth hvisit hb.separated htyped hall
  have hscoped : FunBody.WellScoped { b with body := body' } := hb.of_keeps hsimplified.keeps
  obtain rfl := Except.ok.inj (hscoped.close.symm.trans hclose)
  refine ⟨hscoped, fun I isCall => ⟨hscoped.isClosed, fun _ => rfl, fun call d args => ?_⟩⟩
  rw [hscoped.eval_close, hb.eval_close]
  simp only [FunBody.eval, hsimplified.eval]

/-- The pass keeps the scopes and the meaning of a body if and only if the outputs of all the let-bindings which it
simplifies can be bound before the branchings. -/
theorem simplifyLetBranching_preserved_iff {depth : Nat} {def_ def' : FunDecl} {fbody b : FunBody}
    {fvars : IdMap FVarId FVar} {fresh s s' : FVarId} (hbody : def_.body = some fbody)
    (hclosed : fbody.IsClosed fun _ => false) (hopen : openAllFunBody fresh fbody = .ok ((fvars, b), s))
    (htyped : b.body.LetsTyped tc) (h : simplifyLetBranching cfg depth def_ fresh = .ok (def', s')) :
    ∃ body' fbody', visitTexpr cfg depth b.body = .ok body' ∧ def'.body = some fbody' ∧
      (Preserved fbody { b with body := body' } fbody' ↔ AllTargets cfg (TargetHoistable cfg) depth b.body) := by
  obtain ⟨fvars', b', k, hopen', rfl, hb, -⟩ := openAllFunBody_closed hclosed fresh
  cases hopen.symm.trans hopen'
  obtain ⟨body, s₁, hpass, h⟩ := run_bind_eq_ok h
  cases h
  rw [hbody] at hpass
  obtain ⟨⟨⟩, -⟩ | ⟨fbody, fbody', hfbody, hpass, rfl⟩ := run_optionMapM hpass
  cases hfbody
  obtain ⟨r, hr, hpass⟩ := bind_eq_ok.mp hpass
  cases hopen.symm.trans hr
  obtain ⟨body', hvisit, hpass⟩ := bind_eq_ok.mp hpass
  obtain ⟨fbody₁, hclose, hpass⟩ := bind_eq_ok.mp hpass
  cases hpass
  refine ⟨body', fbody', hvisit, rfl, fun hpreserved => ?_, preserved_of_hoistable hb htyped hvisit hclose⟩
  exact visitTexpr_hoistable depth hvisit hb.separated htyped hpreserved.wellScoped.opened

end

/-! ## A body whose meaning changes -/

section

def boolPairTy : Ty := .adt .tuple (mkGenericArgsFromTypes [mkBoolTy, mkBoolTy])

def boolSumTy : Ty := .adt (.builtin .sum) (mkGenericArgsFromTypes [mkBoolTy, mkBoolTy])

def mkBoolPair (x y : Texpr) : Texpr :=
  .mk (.app (.mk (.app (.mk (.qualif { id := .adtCons { adtId := .tuple, variantId := none }
                                       generics := mkGenericArgsFromTypes [mkBoolTy, mkBoolTy] })
    (.arrow mkBoolTy (.arrow mkBoolTy boolPairTy))) x) (.arrow mkBoolTy boolPairTy)) y) boolPairTy

/-- `fun x0 => let (x3, x4) <- match Left x0 with | Left x1 => ok (x, true) | Right x2 => fail Failure in ok x3` -/
def branchingBody (x : FVarId) : FunBody where
  inputs := [boolPat 0]
  body := .mk (.letE true (.mk (.adt none [boolPat 3, boolPat 4]) boolPairTy)
    (.mk (.switch (mkCons (.builtin .sum) sumLeftId [mkBoolTy, mkBoolTy] (boolVar 0)) (.matchE [
      { pat := .mk (.adt (some sumLeftId) [boolPat 1]) boolSumTy, branch := mkOk (mkBoolPair (boolVar x) mkTrue) },
      { pat := .mk (.adt (some sumRightId) [boolPat 2]) boolSumTy
        branch := mkCons (.builtin .result) resultFailId [boolPairTy] (mkError errorFailureId) }]))
      (mkResultTy boolPairTy)) (mkOk (boolVar 3))) (mkResultTy mkBoolTy)

def branchingDecl (x : FVarId) : FunDecl where
  defId := 0
  loopId := none
  body := some (branchingBody x).close

theorem branchingBody_wellScoped {x : FVarId} (hx : x = 0 ∨ x = 1) : (branchingBody x).WellScoped := by
  rcases hx with rfl | rfl
  · exact ⟨rfl, ⟨rfl, rfl⟩, by decide⟩
  · exact ⟨rfl, ⟨rfl, rfl⟩, by decide⟩

theorem mkBoolPair_typed (x : FVarId) : (mkBoolPair (boolVar x) mkTrue).WellTyped boolCtx := by
  have htrue : mkTrue.WellTyped boolCtx :=
    .mk ⟨.bool, rfl, trivial⟩ (by simp) (by simp)
  refine .mk rfl (by simp [tpatsWellTyped]) ?_
  simp only [Expr.children, forall_mem_cons]
  refine ⟨.mk rfl (by simp [tpatsWellTyped]) ?_, htrue, by simp⟩
  simp only [Expr.children, forall_mem_cons]
  exact ⟨.mk ⟨[mkBoolTy, mkBoolTy], rfl, rfl⟩ (by simp) (by simp), boolVar_typed x, by simp⟩

theorem branchingBody_typed (x : FVarId) : (branchingBody x).body.WellTyped boolCtx := by
  have herror : (mkError errorFailureId).WellTyped boolCtx :=
    .mk ⟨[], rfl, rfl⟩ (by simp) (by simp)
  have hnext : (mkOk (boolVar 3)).WellTyped boolCtx := mkCons_typed (boolVar_typed 3) rfl
  have hscrut : (mkCons (.builtin .sum) sumLeftId [mkBoolTy, mkBoolTy] (boolVar 0)).WellTyped boolCtx :=
    mkCons_typed (boolVar_typed 0) rfl
  have hok : (mkOk (mkBoolPair (boolVar x) mkTrue)).WellTyped boolCtx := mkCons_typed (mkBoolPair_typed x) rfl
  have hfail : (mkCons (.builtin .result) resultFailId [boolPairTy] (mkError errorFailureId)).WellTyped boolCtx :=
    mkCons_typed herror rfl
  refine .mk ⟨rfl, rfl, fun _ => .inl rfl⟩ ?_ ?_ <;> simp only [Expr.children, forall_mem_cons, Group.pats]
  · exact ⟨trivial, ⟨⟨_, _, rfl, rfl, boolPat_typed 3, boolPat_typed 4, trivial⟩, trivial⟩, by simp⟩
  · refine ⟨.mk (forall_mem_cons.mpr ⟨⟨rfl, rfl⟩, forall_mem_cons.mpr ⟨⟨rfl, rfl⟩, by simp⟩⟩) ?_ ?_, hnext, by simp⟩ <;>
      simp only [Expr.children, SwitchBody.children, map_cons, map_nil, forall_mem_cons, Group.pats]
    · exact ⟨trivial, ⟨⟨_, _, rfl, rfl, boolPat_typed 1, trivial⟩, trivial⟩,
        ⟨⟨_, _, rfl, rfl, boolPat_typed 2, trivial⟩, trivial⟩,
        by simp⟩
    · exact ⟨hscrut, hok, hfail, by simp⟩

noncomputable local instance texprOrder : LinearOrder Texpr :=
  open Classical in linearOrderOfSTO WellOrderingRel

/-- The function returns `true`, but it has no value any more once the variable of the branch escaped. -/
theorem simplifyLetBranching_escapes : (branchingBody 1).close.IsClosed (fun _ => false) ∧
    (branchingBody 1).body.WellTyped boolCtx ∧ ∃ def' s' fbody',
      simplifyLetBranching leanConfig 10 (branchingDecl 1) 0 = .ok (def', s') ∧ def'.body = some fbody' ∧
      ¬ fbody'.IsClosed (fun _ => false) ∧
      (branchingBody 1).close.eval noInterp (fun _ => false) noCalls () [.lit (.bool true)] =
        some (.ok (.lit (.bool true))) ∧
      fbody'.eval noInterp (fun _ => false) noCalls () [.lit (.bool true)] = none := by
  have hscoped : (branchingBody 1).WellScoped := branchingBody_wellScoped (.inr rfl)
  refine ⟨hscoped.isClosed, branchingBody_typed 1, ?_⟩
  have hrun : ((simplifyLetBranching leanConfig 10 (branchingDecl 1) 0).toOption.bind fun r => r.1.body.map fun b =>
      (b.body.isClosedIn (fun _ => false) [(tpatsBound b.inputs).length],
        (b.eval noInterp (fun _ => false) noCalls () [.lit (.bool true)]).isNone)) = some (false, true) := by
    decide +kernel
  cases hpass : simplifyLetBranching leanConfig 10 (branchingDecl 1) 0 with
  | error e =>
    rw [hpass] at hrun
    cases hrun
  | ok r =>
    rw [hpass] at hrun
    obtain ⟨fbody', hbody, hresult⟩ := Option.map_eq_some_iff.mp hrun
    obtain ⟨hclosed, hstuck⟩ := Prod.mk.inj hresult
    refine ⟨r.1, r.2, fbody', rfl, hbody, fun h => ?_, ?_, Option.isNone_iff_eq_none.mp hstuck⟩
    · rw [h.2] at hclosed
      cases hclosed
    · rw [hscoped.eval_close]
      rfl

/-- The function has the same meaning if the branch returns the argument instead. -/
theorem simplifyLetBranching_preserved_branching : ∃ body' def' s' fbody',
    visitTexpr leanConfig 10 (branchingBody 0).body = .ok body' ∧
    simplifyLetBranching leanConfig 10 (branchingDecl 0) 0 = .ok (def', s') ∧ def'.body = some fbody' ∧
    AllTargets leanConfig (TargetHoistable leanConfig) 10 (branchingBody 0).body ∧
    Preserved (branchingBody 0).close { branchingBody 0 with body := body' } fbody' := by
  have hscoped : (branchingBody 0).WellScoped := branchingBody_wellScoped (.inl rfl)
  have htyped := (branchingBody_typed 0).letsTyped
  obtain ⟨fvars, hopen⟩ : ∃ fvars, openAllFunBody 0 (branchingBody 0).close = .ok ((fvars, branchingBody 0), 0 + 5) :=
    hscoped.open_close rfl
  have hrun : (simplifyLetBranching leanConfig 10 (branchingDecl 0) 0).toOption.isSome = true := by decide +kernel
  have hscopes : ((visitTexpr leanConfig 10 (branchingBody 0).body).toOption.map fun e =>
      (e.isOpened, e.freeVars.dedup)) = some (true, [0]) := by decide +kernel
  cases hpass : simplifyLetBranching leanConfig 10 (branchingDecl 0) 0 with
  | error e =>
    rw [hpass] at hrun
    cases hrun
  | ok r =>
    obtain ⟨body', fbody', hvisit, hbody, hiff⟩ :=
      simplifyLetBranching_preserved_iff rfl hscoped.isClosed hopen htyped hpass
    rw [hvisit] at hscopes
    obtain ⟨hisOpened, hfree⟩ := Prod.mk.inj (Option.some.inj hscopes)
    have hopened : body'.OpenedIn (fun _ => false) [tpatsIds (branchingBody 0).inputs] :=
      body'.openedIn_iff.mpr ⟨hisOpened, fun f hf => .inr (hfree ▸ mem_dedup.mpr hf : f ∈ [0])⟩
    have hall := visitTexpr_hoistable 10 hvisit hscoped.separated htyped hopened
    exact ⟨body', r.1, r.2, fbody', hvisit, rfl, hbody, hall, hiff.mpr hall⟩

end

end SimplifyLetBranching

end Aeneas.Pure
