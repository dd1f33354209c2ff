import Aeneas.PureTyping
import Aeneas.SimplifyLetBranchingScope

/-!
# The types in the simplified let-bindings

The outputs have the types of the components which they replace. The updates
only change the types of the nodes on the way to the tails, so what the other
let-bindings bind stays well-typed.
-/

namespace Aeneas.Pure

open List

attribute [local simp] Expr.children SwitchBody.children

section
variable {tc : TypingCtx} {cfg : FuelConfig}

theorem tpatToTexpr_ty {p : TPat} {e : Texpr} (h : tpatToTexpr cfg p = .ok (some e)) : e.ty = p.ty := by
  obtain ⟨p, ty⟩ := p
  cases p with
  | adt variantId fields =>
    obtain ⟨es, adtId, generics, e', -, -, -, rfl⟩ := tpatToTexpr_adt h
    rfl
  | bound v mp => cases h
  | ignored => cases h
  | _ =>
    rw [tpatToTexpr] at h
    obtain rfl := Option.some.inj (Except.ok.inj h)
    rfl

theorem Texpr.letsTyped_qualif (q : Qualif) (ty : Ty) : (Texpr.mk (.qualif q) ty).LetsTyped tc :=
  .mk (by simp) (by simp)

theorem IsApps.letsTyped {f e : Texpr} {args : List Texpr} (h : IsApps f args e) :
    e.LetsTyped tc ↔ f.LetsTyped tc ∧ ∀ x ∈ args, x.LetsTyped tc := by
  induction h with
  | nil f => simp
  | @cons f x e args ty _ ih =>
    rw [ih, forall_mem_cons, ← and_assoc]
    refine and_congr_left fun _ => ⟨fun h => ⟨?_, ?_⟩, fun h => .mk (by simp) ?_⟩
    · exact h.child (c := (.none, f)) (by simp)
    · exact h.child (c := (.none, x)) (by simp)
    · simpa using h

end

namespace SimplifyLetBranching

/-! ## The outputs -/

section
variable {tc : TypingCtx} {cfg : FuelConfig} {generics : GenericArgs} {boundFVars : List FVarId}

theorem ok_typed {f x : Texpr} {ty : Ty} {monadic : Bool} (hok : isResultOk (.mk (.app f x) ty) = true)
    (htyped : (Texpr.mk (.app f x) ty).WellTyped tc) (hty : ty = letTy monadic (.adt .tuple generics)) :
    monadic = true ∧ x.ty = .adt .tuple generics ∧ x.WellTyped tc := by
  obtain ⟨q, v, x, ty, ty', heq, hq, hv, -⟩ := Texpr.isConsOf_iff hok
  cases heq
  obtain rfl : v = resultOkId := by simpa using hv
  have happs : IsApps (.mk (.qualif q) ty') [x] (.mk (.app (.mk (.qualif q) ty') x) ty) := .cons ty (.nil _)
  obtain ⟨⟨hmonadic, -, hgenerics⟩ | ⟨-, hid, -⟩, hfields⟩ := happs.letTyped hq htyped hty
  · rw [hgenerics] at hfields
    refine ⟨hmonadic, ?_, htyped.child (c := (.none, x)) (by simp)⟩
    simpa [mkGenericArgsFromTypes, GenericArgs.types] using (getAdtFieldTypes_ok hfields).symm
  · cases hid

/-- A tail returns values of the type of the let-binding, and the tests on the way are well-typed. -/
structure TailTyped (tc : TypingCtx) (generics : GenericArgs) (t : Tests × Texpr) : Prop where
  typed : t.2.WellTyped tc
  ty : ∃ monadic, t.2.ty = letTy monadic (.adt .tuple generics)
  tests : ∀ p ∈ t.1, tc.varTy p.1 = p.2.ty

theorem varTy_value {scrut : Texpr} {b : Bool} (hscrut : scrut.WellTyped tc) (hty : scrut.ty = mkBoolTy) :
    ∀ p ∈ valueTests boundFVars scrut (.mk (.const (.bool b)) mkBoolTy), tc.varTy p.1 = p.2.ty := by
  intro p hp
  obtain ⟨he, -, ty, rfl⟩ := mem_valueTests hp
  have hvar : tc.varTy p.1 = ty := hscrut.typed
  rw [he, hvar]
  exact hty

theorem varTy_pat {scrut : Texpr} {pat : TPat} (hscrut : scrut.WellTyped tc) (hty : pat.ty = scrut.ty) :
    ∀ p ∈ patTests cfg boundFVars scrut pat, tc.varTy p.1 = p.2.ty := by
  intro p hp
  obtain ⟨hpat, -, ty, rfl⟩ := mem_patTests hp
  have hvar : tc.varTy p.1 = ty := hscrut.typed
  rw [tpatToTexpr_ty hpat, hvar]
  exact hty.symm

theorem tails_typed (e : Texpr) : ∀ {monadic : Bool} {tests : Tests}, e.WellTyped tc →
    e.ty = letTy monadic (.adt .tuple generics) → (∀ p ∈ tests, tc.varTy p.1 = p.2.ty) →
    ∀ t ∈ tails cfg boundFVars tests e, TailTyped tc generics t := by
  induction e using Texpr.induct with
  | h e ty ih =>
    intro monadic tests htyped hty htests t ht
    cases e with
    | app f x =>
      rw [tails] at ht
      split at ht
      · rename_i hok
        obtain ⟨rfl, hx, hxTyped⟩ := ok_typed hok htyped hty
        have hx' : x.ty = letTy false (.adt .tuple generics) := hx
        exact ih (.none, x) (by simp) hxTyped hx' htests t ht
      · obtain rfl := mem_singleton.mp ht
        exact ⟨htyped, ⟨monadic, hty⟩, htests⟩
    | letE monadic' pat bound next =>
      rw [tails] at ht
      have hc : (Group.one pat, next) ∈ (Expr.letE monadic' pat bound next).children := by simp
      exact ih _ hc (htyped.child hc) (htyped.typed.2.1.trans hty) htests t ht
    | switch scrut body =>
      have hscrut : scrut.WellTyped tc := htyped.child (c := (.none, scrut)) (mem_cons_self ..)
      cases body with
      | ite thn els =>
        obtain ⟨hbool, hthn, hels⟩ := htyped.typed
        rw [tails] at ht
        rcases mem_append.mp ht with ht | ht
        · have hc : (Group.none, thn) ∈ (Expr.switch scrut (.ite thn els)).children := by
            simp
          exact ih _ hc (htyped.child hc) (hthn.trans hty)
            (forall_mem_append.mpr ⟨varTy_value hscrut hbool, htests⟩) t ht
        · have hc : (Group.none, els) ∈ (Expr.switch scrut (.ite thn els)).children := by
            simp
          exact ih _ hc (htyped.child hc) (hels.trans hty)
            (forall_mem_append.mpr ⟨varTy_value hscrut hbool, htests⟩) t ht
      | matchE branches =>
        rw [tails] at ht
        obtain ⟨b, hb, ht⟩ := mem_tailsBranches.mp ht
        obtain ⟨hpat, hbranch⟩ := htyped.typed b hb
        have hc : (Group.one b.pat, b.branch) ∈ (Expr.switch scrut (.matchE branches)).children :=
          mem_cons_of_mem _ (mem_map.mpr ⟨b, hb, rfl⟩)
        exact ih _ hc (htyped.child hc) (hbranch.trans hty)
          (forall_mem_append.mpr ⟨varTy_pat hscrut hpat, htests⟩) t ht
    | emeta m e =>
      rw [tails] at ht
      have hc : (Group.none, e) ∈ (Expr.emeta m e).children := by simp
      have heTy : e.ty = ty := htyped.typed
      exact ih _ hc (htyped.child hc) (heTy.trans hty) htests t ht
    | _ =>
      simp only [tails] at ht
      obtain rfl := mem_singleton.mp ht
      exact ⟨htyped, ⟨monadic, hty⟩, htests⟩

theorem outcome_values {n : Nat} {e : Texpr} {args : List Texpr} (h : outcome n e = .values args)
    (hlen : args.length ≠ 1) :
    ∃ q variantId ty, q.id = .adtCons { adtId := .tuple, variantId } ∧ IsApps (.mk (.qualif q) ty) args e := by
  obtain ⟨e, ty⟩ := e
  cases e with
  | app f x =>
    simp only [outcome, Texpr.e] at h
    split at h
    · cases h
    · split at h
      · rename_i hsize
        obtain ⟨q, variantId, ty', args', hdestruct, hq, -, happs⟩ := getTupleSize_eq_some hsize
        obtain rfl := Outcome.values.inj h
        rw [hdestruct]
        exact ⟨q, variantId, ty', hq, happs⟩
      · cases h
  | loop l => cases h
  | eError span message => cases h
  | _ =>
    obtain rfl := Outcome.values.inj h
    simp at hlen

theorem TailTyped.args {t : Tests × Texpr} {n : Nat} {tys : List Ty} {args : List Texpr}
    (h : TailTyped tc (.mk tys [] []) t) (hargs : outcome n t.2 = .values args) (hlen : args.length ≠ 1) :
    args.map Texpr.ty = tys ∧ ∀ x ∈ args, x.WellTyped tc := by
  obtain ⟨q, variantId, ty, hq, happs⟩ := outcome_values hargs hlen
  obtain ⟨monadic, hty⟩ := h.ty
  refine ⟨?_, fun x hx => (happs.within.2 x hx).wellTyped h.typed⟩
  obtain ⟨⟨-, hid, -⟩ | ⟨-, -, hgenerics⟩, hfields⟩ := happs.letTyped hq h.typed hty
  · cases hid
  · obtain ⟨-, hgenerics', -⟩ := getAdtFieldTypes_tuple hfields
    rw [hgenerics] at hgenerics'
    cases hgenerics'
    rfl

theorem IsEqual.typed {tests : Tests} {arg out : Texpr} (h : IsEqual tests arg out) (harg : arg.WellTyped tc)
    (htests : ∀ p ∈ tests, tc.varTy p.1 = p.2.ty) : out.WellTyped tc ∧ out.ty = arg.ty := by
  rcases h with rfl | ⟨id, hid, rfl⟩
  · exact ⟨harg, rfl⟩
  · exact ⟨.mk (htests _ hid) (by simp) (by simp), rfl⟩

end

/-! ## The let-bindings -/

section
variable {tc : TypingCtx} {cfg : FuelConfig} {outputs : List (Option Texpr)} {newTy : Ty} {e e' : Texpr}

theorem Updated.letsTyped (h : Updated cfg outputs newTy e e') (hlen : outputs.length ≠ 1) :
    e.LetsTyped tc → e'.LetsTyped tc := by
  induction h with
  | value he hout => simp [hout] at hlen
  | @exit x e' q ty ty' hexit he' =>
    intro h
    refine (isApps_mkApps he').letsTyped.mpr ⟨Texpr.letsTyped_qualif _ _, ?_⟩
    simpa using h.child (c := (.none, x)) (by simp)
  | @ok f x x' e' ty hok hx he' ih =>
    intro h
    refine (isApps_mkApps he').letsTyped.mpr ⟨Texpr.letsTyped_qualif _ _, ?_⟩
    simpa using ih (h.child (c := (.none, x)) (by simp))
  | tuple hq hargs he houtcome hok he' =>
    intro h
    have hargs := (he.letsTyped.mp h).2
    rcases isApps_simplTuple he' with hsingle | ⟨q, ty, happs⟩
    · exact hargs _ (mem_of_mem_kept (hsingle ▸ mem_singleton_self _))
    · exact happs.letsTyped.mpr ⟨Texpr.letsTyped_qualif _ _, fun x hx => hargs x (mem_of_mem_kept hx)⟩
  | @letE monadic pat bound next next' ty hnext ih =>
    intro h
    refine .mk (fun monadic' pat' bound' next₁ heq => ?_) ?_
    · cases heq
      exact h.letTyped
    · have hbound := h.child (c := (.none, bound)) (by simp)
      have hnext := ih (h.child (c := (.one pat, next)) (by simp))
      simpa using ⟨hbound, hnext⟩
  | @ite scrut thn els thn' els' ty hthn hels iht ihe =>
    intro h
    have hscrut := h.child (c := (.none, scrut)) (mem_cons_self ..)
    have hthn := iht (h.child (c := (.none, thn)) (by simp))
    have hels := ihe (h.child (c := (.none, els)) (by simp))
    exact .mk (by simp) (by simpa using ⟨hscrut, hthn, hels⟩)
  | @matchE scrut branches branches' ty hpats hbranches ih =>
    intro h
    have hscrut := h.child (c := (.none, scrut)) (mem_cons_self ..)
    refine .mk (by simp) (forall_mem_cons.mpr ⟨hscrut, forall_mem_map.mpr fun b' hb' => ?_⟩)
    obtain ⟨b, hb, -, hzip⟩ := mem_zip_of_pats hpats hb'
    exact ih _ hzip (h.child (c := (.one b.pat, b.branch)) (mem_cons_of_mem _ (mem_map.mpr ⟨b, hb, rfl⟩)))
  | @emeta m e e' ty he ih =>
    intro h
    refine .mk (by simp) (forall_mem_append.mpr ⟨fun c hc => ?_, ?_⟩)
    · exact h.child (mem_append_left _ hc)
    · simpa using ih (h.child (c := (.none, e)) (by simp))
  | eError => exact fun _ => .mk (by simp) (by simp)

theorem letsTyped_mkOpenedLets {next : Texpr} : ∀ {lets : List (TPat × Texpr)},
    (∀ x ∈ lets, LetTyped tc false x.1 x.2) → next.LetsTyped tc → (mkOpenedLets false lets next).LetsTyped tc
  | [], _, hnext => hnext
  | x :: lets, hlets, hnext => by
    obtain ⟨hx, hlets⟩ := forall_mem_cons.mp hlets
    refine .mk (fun monadic' pat' bound' next₁ heq => ?_) ?_
    · cases heq
      exact hx
    · simpa using ⟨hx.bound.letsTyped, letsTyped_mkOpenedLets hlets hnext⟩

end

section
variable [Ord Texpr] {tc : TypingCtx} {cfg : FuelConfig} {monadic : Bool} {variantId : Option VariantId}
  {pats : List TPat} {generics : GenericArgs} {bound next : Texpr} {outputs : List (Option Texpr)}

theorem Picked.typed (h : Picked cfg pats.length bound outputs)
    (htyped : LetTyped tc monadic (.mk (.adt variantId pats) (.adt .tuple generics)) bound) {i : Nat} {out : Texpr}
    (hout : outputs[i]? = some (some out)) : out.WellTyped tc ∧ pats[i]?.map TPat.ty = some out.ty := by
  obtain ⟨-, rfl, hlen, -⟩ := htyped.pat.tuple
  obtain ⟨hi, ⟨⟨t, ht, hreturns⟩, hallows⟩, -⟩ := (h.first i out).mp hout
  have htail := tails_typed bound htyped.bound htyped.ty (by simp) t ht
  have hallows := hallows t ht
  unfold Allows at hallows
  split at hallows
  · exact absurd ‹_› hreturns
  · rename_i args hargs
    obtain ⟨arg, harg, hequal⟩ := hallows
    obtain ⟨htys, hargsTyped⟩ := htail.args hargs (by rwa [h.values t ht args hargs])
    obtain ⟨houtTyped, houtTy⟩ := hequal.typed (hargsTyped arg (mem_of_getElem? harg)) htail.tests
    refine ⟨houtTyped, ?_⟩
    rw [← getElem?_map, ← htys, getElem?_map, harg, houtTy]
    rfl
  · cases hallows

theorem Picked.letTyped (h : Picked cfg pats.length bound outputs)
    (htyped : LetTyped tc monadic (.mk (.adt variantId pats) (.adt .tuple generics)) bound) :
    ∀ x ∈ removed outputs pats, LetTyped tc false x.1 x.2 := by
  intro x hx
  obtain ⟨i, hout, hpat⟩ := mem_removed.mp hx
  obtain ⟨houtTyped, hty⟩ := h.typed htyped hout
  rw [hpat] at hty
  obtain ⟨-, -, -, hpats⟩ := htyped.pat.tuple
  exact ⟨(Option.some.inj hty).symm, tpatsWellTyped_iff.mp hpats x.1 (mem_of_getElem? hpat), houtTyped⟩

variable [Std.TransOrd Texpr] [Std.LawfulEqOrd Texpr]

theorem simplifyAux_letsTyped {ty : Ty} {r : TPat × Texpr × Texpr}
    (htyped : (Texpr.mk (.letE monadic (.mk (.adt variantId pats) (.adt .tuple generics)) bound next) ty).LetsTyped tc)
    (h : simplifyAux cfg monadic pats bound next = .ok r) : r.2.1.LetsTyped tc ∧ r.2.2.LetsTyped tc := by
  obtain ⟨outputs, bound', hpicked, rfl, hupdate⟩ := simplifyAux_ok h
  have hlet := htyped.letTyped
  obtain ⟨-, -, hlen, -⟩ := hlet.pat.tuple
  have hnext := htyped.child (c := (.one (.mk (.adt variantId pats) (.adt .tuple generics)), next)) (by simp)
  refine ⟨?_, letsTyped_mkOpenedLets (hpicked.letTyped hlet) hnext⟩
  rcases hupdate with hupdate | ⟨rfl, -⟩
  · exact hupdate.letsTyped (by rwa [hpicked.length]) hlet.bound.letsTyped
  · exact hlet.bound.letsTyped

end

end SimplifyLetBranching

end Aeneas.Pure
