import Aeneas.SimplifyLetBranchingTyping

/-!
# The values of the simplified let-bindings

A branch gives the same values as before to the components which are kept, and
the outputs have the values which it gave to the other ones: the tests on the
way to a tail say what the variables are equal to there.
-/

namespace Aeneas.Pure

open Texpr List

namespace SimplifyLetBranching

/-! ## Values of the branches -/

section
variable {D X : Type}

def returned (monadic : Bool) (v : Value X) : Value X := if monadic then .ok v else v

variable (I : Interp D X) (isCall : FunKey → Bool) (call : FunCalls D X) (env₀ : Env D X)
  (outputs : List (Option Texpr))

inductive Related (monadic : Bool) : Option (Value X) → Option (Value X) → Prop
  | stuck : Related monadic none none
  | error (e : Value X) (hmonadic : monadic = true) : Related monadic (some (.fail e)) (some (.fail e))
  | values (vs : List (Option (Value X))) (hlen : vs.length = outputs.length)
    (houts : ∀ (i : Nat) out, outputs[i]? = some (some out) → vs[i]? = some (out.eval I isCall call env₀ [])) :
    Related monadic ((allSome vs).map fun vs => returned monadic (tupleValue vs))
      ((allSome (kept outputs vs)).map fun vs => returned monadic (simplTupleValue vs))

/-- The variable has the value which it was tested against, and this does not depend on what is bound later. -/
structure TestHolds (boundFVars : List FVarId) (env : Env D X) (e : Texpr) (p : FVarId × Texpr) : Prop where
  before : p.1 ∉ boundFVars
  isOpened : p.2.isOpened = true
  binderIds : p.2.binderIds = []
  freeVars : ∀ f ∈ p.2.freeVars, f ∉ e.binderIds
  value : ∃ v, env.fvars p.1 = some v ∧ p.2.eval I isCall call env [] = some v

structure Along (boundFVars : List FVarId) (tests : Tests) (env : Env D X) (e : Texpr) : Prop where
  isOpened : e.isOpened = true
  nodup : e.binderIds.Nodup
  bound : ∀ f ∈ e.binderIds, f ∈ boundFVars
  same : env₀.SameBut boundFVars env
  tests : ∀ p ∈ tests, TestHolds I isCall call boundFVars env e p

variable {I isCall call env₀ outputs} {boundFVars : List FVarId} {tests : Tests} {env : Env D X}

variable {e : Texpr} {ids : List FVarId}

theorem TestHolds.frame {e' : Texpr} {p : FVarId × Texpr} {env' : Env D X}
    (h : TestHolds I isCall call boundFVars env e p) (henv : env.SameBut ids env') (hids : ∀ f ∈ ids, f ∈ boundFVars)
    (hids' : ∀ f ∈ ids, f ∈ e.binderIds) (he' : ∀ f ∈ e'.binderIds, f ∈ e.binderIds) :
    TestHolds I isCall call boundFVars env' e' p := by
  obtain ⟨v, hvar, hval⟩ := h.value
  refine ⟨h.before, h.isOpened, h.binderIds, fun f hf hmem => h.freeVars f hf (he' f hmem), v, ?_, ?_⟩
  · rw [henv.fvars p.1 fun hmem => h.before (hids _ hmem), hvar]
  · rw [eval_sameBut h.isOpened (fun f hf hmem => h.freeVars f hf (hids' f hmem)) henv [], hval]

variable {ty : Ty} {c : Scoped Texpr}

theorem Along.within {e : Expr} {env' : Env D X}
    (h : Along I isCall call env₀ boundFVars tests env (.mk e ty)) (hc : c ∈ e.children)
    (henv : env.SameBut (tpatsIds c.1.pats) env') : Along I isCall call env₀ boundFVars tests env' c.2 := by
  have hchild : c.2.Within (.mk e ty) := .child hc .refl
  have hids : ∀ f ∈ tpatsIds c.1.pats, f ∈ (Texpr.mk e ty).binderIds :=
    fun f hf => mem_binderIds_of_child hc (mem_append_left _ hf)
  have hsub : ∀ f ∈ c.2.binderIds, f ∈ (Texpr.mk e ty).binderIds :=
    fun f hf => mem_binderIds_of_child hc (mem_append_right _ hf)
  have hbound : ∀ f ∈ tpatsIds c.1.pats, f ∈ boundFVars := fun f hf => h.bound f (hids f hf)
  exact ⟨hchild.isOpened h.isOpened, hchild.nodup h.nodup, fun f hf => h.bound f (hsub f hf),
    h.same.trans (henv.mono hbound), fun p hp => (h.tests p hp).frame henv hbound hids hsub⟩

theorem Along.child {e : Expr} {c : Texpr} (h : Along I isCall call env₀ boundFVars tests env (.mk e ty))
    (hc : (.none, c) ∈ e.children) : Along I isCall call env₀ boundFVars tests env c :=
  h.within hc (.refl _ _)

theorem Along.add {added : Tests} (h : Along I isCall call env₀ boundFVars tests env e)
    (hadded : ∀ p ∈ added, TestHolds I isCall call boundFVars env e p) :
    Along I isCall call env₀ boundFVars (added ++ tests) env e :=
  ⟨h.isOpened, h.nodup, h.bound, h.same, forall_mem_append.mpr ⟨hadded, h.tests⟩⟩

/-! ## The update keeps the values -/

variable {α : Type}

theorem kept_map {β : Type} (g : α → β) : ∀ (outputs : List (Option Texpr)) (l : List α),
    kept outputs (l.map g) = (kept outputs l).map g
  | [], _ | none :: _, [] | some _ :: _, [] => by simp [kept]
  | none :: outputs, a :: l | some _ :: outputs, a :: l => by simp [kept, kept_map g outputs l]

variable {r : Option (Value X)}

theorem Related.ok {r' : Option (Value X)} (h : Related I isCall call env₀ outputs false r r') :
    Related I isCall call env₀ outputs true (r.map Value.ok) (r'.map Value.ok) := by
  cases h with
  | stuck => exact .stuck
  | error e hmonadic => cases hmonadic
  | values vs hlen houts =>
    simp only [Option.map_map]
    exact .values vs hlen houts

variable {monadic : Bool}

theorem related_branches {v : Value X} : ∀ {branches branches' : List (MatchBranch Texpr)},
    branches'.map MatchBranch.pat = branches.map MatchBranch.pat →
    (∀ b ∈ branches.zip branches', ∀ env', env.bind [b.1.pat] [v] = some env' →
      Related I isCall call env₀ outputs monadic
      (b.1.branch.eval I isCall call env' []) (b.2.branch.eval I isCall call env' [])) →
    Related I isCall call env₀ outputs monadic
      (evalBranches env [] v (branches.map (MatchBranch.map (eval I isCall call))))
      (evalBranches env [] v (branches'.map (MatchBranch.map (eval I isCall call))))
  | [], [], _, _ => .stuck
  | [], _ :: _, hpats, _ | _ :: _, [], hpats, _ => by cases hpats
  | b :: branches, b' :: branches', hpats, h => by
    obtain ⟨hpat, hpats⟩ := List.cons.inj hpats
    obtain ⟨hb, hrest⟩ := forall_mem_cons.mp h
    simp only [map_cons, evalBranches, MatchBranch.map, hpat]
    cases henv : env.bind [b.pat] [v] with
    | none => exact related_branches hpats hrest
    | some env' => exact hb env' henv

theorem testHolds_value {scrut : Texpr} {b : Bool}
    (hscrut : scrut.eval I isCall call env [] = some (.lit (.bool b))) :
    ∀ p ∈ valueTests boundFVars scrut (.mk (.const (.bool b)) mkBoolTy),
      TestHolds I isCall call boundFVars env e p := by
  intro p hp
  obtain ⟨id, x⟩ := p
  obtain ⟨rfl, hbefore, ty', rfl⟩ := mem_valueTests hp
  refine ⟨hbefore, rfl, rfl, fun f hf => (by cases hf), .lit (.bool b), ?_, rfl⟩
  rw [eval_fvar] at hscrut
  cases hvar : env.fvars id with
  | none => simp [hvar] at hscrut
  | some w => simpa [hvar, Interp.applyTo] using hscrut

variable {cfg : FuelConfig} {l : List (Option FVarId × Value X)}

theorem testHolds_pat {scrut : Texpr} {pat : TPat} {v : Value X}
    (hscrut : scrut.eval I isCall call env [] = some v)
    (hl : pat.matches v = some l) (hbound : tpatsBound [pat] = []) (hnodup : (tpatsIds [pat]).Nodup)
    (hsub : ∀ f ∈ tpatsIds [pat], f ∈ boundFVars) (hfresh : ∀ f ∈ tpatsIds [pat], f ∉ e.binderIds) :
    ∀ p ∈ patTests cfg boundFVars scrut pat, TestHolds I isCall call boundFVars (env.push l) e p := by
  intro p hp
  obtain ⟨id, x⟩ := p
  obtain ⟨hpat, hbefore, ty', rfl⟩ := mem_patTests hp
  have hof := tpatToTexpr_ofPats hpat
  have hids := matches_ids hbound hl
  refine ⟨hbefore, hof.isOpened, hof.binderIds, fun f hf => hfresh f (hof.freeVars f hf), v, ?_, ?_⟩
  · rw [(Env.sameBut_push hids).fvars id fun hmem => hbefore (hsub id hmem)]
    rw [eval_fvar] at hscrut
    cases hvar : env.fvars id with
    | none => simp [hvar] at hscrut
    | some w => simpa [hvar, Interp.applyTo] using hscrut
  · exact tpatToTexpr_eval hpat hl (binds_push hids hnodup)

theorem Along.nodup_child {e : Expr}
    (h : Along I isCall call env₀ boundFVars tests env (.mk e ty)) (hc : c ∈ e.children) :
    (tpatsIds c.1.pats).Nodup ∧ ∀ f ∈ tpatsIds c.1.pats, f ∉ c.2.binderIds := by
  have hnodup := h.nodup
  rw [binderIds_node (Expr.isNode_of_child hc), nodup_flatMap] at hnodup
  obtain ⟨hids, -, hdisjoint⟩ := nodup_append.mp (hnodup.1 c hc)
  exact ⟨hids, fun f hf hmem => hdisjoint f hf f hmem rfl⟩

theorem Along.pats {e : Expr} (h : Along I isCall call env₀ boundFVars tests env (.mk e ty))
    (hc : c ∈ e.children) : tpatsBound c.1.pats = [] :=
  ((isOpened_node (Expr.isNode_of_child hc) ty).mp h.isOpened c hc).1

theorem related_evalLet {monadic' : Bool} {pat : TPat} {next next' : Eval D X}
    (herror : monadic' = true → monadic = true)
    (hnext : ∀ w env', env.bind [pat] [w] = some env' →
      Related I isCall call env₀ outputs monadic (next env' []) (next' env' [])) :
    Related I isCall call env₀ outputs monadic (r.bind (evalLet I monadic' pat next env []))
      (r.bind (evalLet I monadic' pat next' env [])) := by
  have hbind : ∀ w, Related I isCall call env₀ outputs monadic ((env.bind [pat] [w]).bind fun env => next env [])
      ((env.bind [pat] [w]).bind fun env => next' env []) := by
    intro w
    cases henv : env.bind [pat] [w] with
    | none => exact .stuck
    | some env' => exact hnext w env' henv
  cases r with
  | none => exact .stuck
  | some v =>
    cases monadic' with
    | false => exact hbind v
    | true =>
      simp only [Option.bind_some, evalLet, if_true]
      rcases v.result with _ | e | w
      · exact .stuck
      · exact .error e (herror rfl)
      · exact hbind w

theorem eval_isEqual {arg out : Texpr} (h : IsEqual tests arg out)
    (halong : Along I isCall call env₀ boundFVars tests env e) (hout : Outside boundFVars out) :
    arg.eval I isCall call env [] = out.eval I isCall call env₀ [] := by
  rcases h with rfl | ⟨id, hid, rfl⟩
  · exact eval_sameBut hout.isOpened hout.freeVars halong.same []
  · obtain ⟨v, hvar, hval⟩ := (halong.tests _ hid).value
    rw [hval, eval_fvar, ← halong.same.fvars id (halong.tests _ hid).before, hvar]
    rfl

variable {tc : TypingCtx} {generics : GenericArgs}

theorem exit_fail {x : Texpr} {q : Qualif} {ty' : Ty}
    (hexit : (isResultFail (.mk (.app (.mk (.qualif q) ty') x) ty) ||
      isLoopResultFailBreakContinue (.mk (.app (.mk (.qualif q) ty') x) ty)) = true)
    (htyped : (mk (.app (.mk (.qualif q) ty') x) ty).WellTyped tc)
    (hty : ty = letTy monadic (.adt .tuple generics)) :
    q.id = .adtCons { adtId := .builtin .result, variantId := some resultFailId } ∧ monadic = true := by
  have happs : IsApps (.mk (.qualif q) ty') [x] (.mk (.app (.mk (.qualif q) ty') x) ty) := .cons ty (.nil _)
  rcases Bool.or_eq_true_iff.mp hexit with hexit | hexit <;>
    obtain ⟨q', v, x', ty₁, ty₁', heq, hq, hv, -⟩ := isConsOf_iff hexit <;> cases heq <;>
    obtain ⟨⟨rfl, hid, -⟩ | ⟨-, hid, -⟩, -⟩ := happs.letTyped hq htyped hty <;> cases hid
  obtain rfl : v = resultFailId := by simpa using hv
  exact ⟨hq, rfl⟩

theorem Updated.related {newTy : Ty} {e' : Texpr}
    (h : Updated cfg outputs newTy e e') (hlen : outputs.length ≠ 1)
    (houts : ∀ out, some out ∈ outputs → Outside boundFVars out) : ∀ {monadic : Bool} {tests : Tests} {env : Env D X},
    e.WellTyped tc → e.ty = letTy monadic (.adt .tuple generics) →
    (∀ t ∈ tails cfg boundFVars tests e, ∀ (i : Nat) out, outputs[i]? = some (some out) →
      Allows outputs.length i t out) →
    Along I isCall call env₀ boundFVars tests env e →
    Related I isCall call env₀ outputs monadic (e.eval I isCall call env []) (e'.eval I isCall call env []) := by
  induction h with
  | value he hout => simp [hout] at hlen
  | @exit x e' q ty ty' hexit he' =>
    intro monadic tests env htyped hty hallows halong
    obtain ⟨hq, hmonadic⟩ := exit_fail hexit htyped hty
    have happs : IsApps (.mk (.qualif q) ty') [x] (.mk (.app (.mk (.qualif q) ty') x) ty) := .cons ty (.nil _)
    rw [happs.eval_adtCons hq, (isApps_mkApps he').eval_adtCons hq]
    simp only [evalArgs]
    cases x.eval I isCall call env [] with
    | none => exact .stuck
    | some w => exact .error w hmonadic
  | @ok f x x' e' ty hok hx he' ih =>
    intro monadic tests env htyped hty hallows halong
    rw [tails, if_pos hok] at hallows
    obtain ⟨rfl, hx, hxTyped⟩ := ok_typed hok htyped hty
    obtain ⟨q, v, x, ty, ty', heq, hq, hv, -⟩ := isConsOf_iff hok
    cases heq
    obtain rfl : v = resultOkId := by simpa using hv
    have hc : (Group.none, x) ∈ (Expr.app (.mk (.qualif q) ty') x).children := by simp [Expr.children]
    rw [eval_ok (.cons ty (.nil _)) hq, eval_ok (isApps_mkApps he') rfl]
    exact Related.ok (ih hxTyped hx hallows (halong.child hc))
  | @tuple f x e' q variantId ty ty' args hq hargs he houtcome hok he' =>
    intro monadic tests env htyped hty hallows halong
    obtain ⟨⟨-, hid, -⟩ | ⟨rfl, -, -⟩, hfields⟩ := he.letTyped hq htyped hty
    · cases hid
    · obtain ⟨rfl, -, -⟩ := getAdtFieldTypes_tuple hfields
      rw [tails, hok] at hallows
      have hallowed := hallows _ (mem_singleton_self _)
      simp only [Allows, houtcome] at hallowed
      rw [he.eval_adtCons hq, eval_simplTuple he', evalArgs_eq_allSome, evalArgs_eq_allSome, ← kept_map]
      refine .values _ (by simpa using hargs) fun i out hi => ?_
      obtain ⟨arg, harg, hequal⟩ := hallowed i out hi
      rw [getElem?_map, harg, ← eval_isEqual hequal halong (houts out (mem_of_getElem? hi))]
      rfl
  | @letE monadic' pat bound next next' ty hnext ih =>
    intro monadic tests env htyped hty hallows halong
    rw [tails] at hallows
    have hc : (Group.one pat, next) ∈ (Expr.letE monadic' pat bound next).children := by simp [Expr.children]
    obtain ⟨-, hnextTy, hmonadic⟩ := htyped.typed
    rw [mkOpenedLet, eval_letE, eval_letE]
    refine related_evalLet (fun hm => ?_) fun w env' henv => ?_
    · have h := hmonadic hm
      rw [show ty = _ from hty] at h
      exact letTy_isMonadic h
    · obtain ⟨l, hl, rfl⟩ := bind_singleton.mp henv
      exact ih (htyped.child hc) (hnextTy.trans hty) hallows
        (halong.within hc (Env.sameBut_push (matches_ids (halong.pats hc) hl)))
  | @ite scrut thn els thn' els' ty hthn hels iht ihe =>
    intro monadic tests env htyped hty hallows halong
    rw [tails, forall_mem_append] at hallows
    obtain ⟨-, hthnTy, helsTy⟩ := htyped.typed
    rw [eval_switch, eval_switch]
    cases hscrut : scrut.eval I isCall call env [] with
    | none => exact .stuck
    | some v =>
      cases v with
      | lit l =>
        cases l with
        | bool b =>
          cases b with
          | true =>
            have hc : (Group.none, thn) ∈ (Expr.switch scrut (.ite thn els)).children := by
              simp [Expr.children, SwitchBody.children]
            exact iht (htyped.child hc) (hthnTy.trans hty) hallows.1 ((halong.child hc).add (testHolds_value hscrut))
          | false =>
            have hc : (Group.none, els) ∈ (Expr.switch scrut (.ite thn els)).children := by
              simp [Expr.children, SwitchBody.children]
            exact ihe (htyped.child hc) (helsTy.trans hty) hallows.2 ((halong.child hc).add (testHolds_value hscrut))
        | _ => exact .stuck
      | _ => exact .stuck
  | @matchE scrut branches branches' ty hpats hbranches ih =>
    intro monadic tests env htyped hty hallows halong
    rw [tails] at hallows
    rw [eval_switch, eval_switch]
    cases hscrut : scrut.eval I isCall call env [] with
    | none => exact .stuck
    | some v =>
      refine related_branches hpats fun b hb env' henv => ?_
      have hmem := (List.of_mem_zip hb).1
      have hc : (Group.one b.1.pat, b.1.branch) ∈ (Expr.switch scrut (.matchE branches)).children :=
        mem_cons_of_mem _ (mem_map.mpr ⟨b.1, hmem, rfl⟩)
      obtain ⟨l, hl, rfl⟩ := bind_singleton.mp henv
      have hids := matches_ids (halong.pats hc) hl
      obtain ⟨hnodup, hfresh⟩ := halong.nodup_child hc
      have hsub : ∀ f ∈ tpatsIds [b.1.pat], f ∈ boundFVars := fun f hf =>
        halong.bound f (mem_binderIds_of_child hc (mem_append_left _ hf))
      exact ih b hb (htyped.child hc) ((htyped.typed b.1 hmem).2.trans hty)
        (fun t ht => hallows t (mem_tailsBranches.mpr ⟨b.1, hmem, ht⟩))
        ((halong.within hc (Env.sameBut_push hids)).add
          (testHolds_pat hscrut hl (halong.pats hc) hnodup hsub hfresh))
  | @emeta m e e' ty he ih =>
    intro monadic tests env htyped hty hallows halong
    rw [tails] at hallows
    have hc : (Group.none, e) ∈ (Expr.emeta m e).children := by simp [Expr.children]
    have heTy : e.ty = ty := htyped.typed
    rw [mkEMeta, eval_emeta, eval_emeta]
    exact ih (htyped.child hc) (heTy.trans hty) hallows (halong.child hc)
  | eError =>
    intro monadic tests env htyped hty hallows halong
    exact .stuck

/-! ## The let-bindings of the outputs -/

theorem evalLet_returned (monadic : Bool) (pat : TPat) (next : Eval D X) (args : List (Value X)) (v : Value X) :
    evalLet I monadic pat next env args (returned monadic v) = (env.bind [pat] [v]).bind fun env => next env args := by
  cases monadic <;> rfl

theorem matchAll_split : ∀ {outputs : List (Option Texpr)} {pats : List TPat} {vs : List (Option (Value X))},
    outputs.length = pats.length → vs.length = pats.length →
    (∀ (i : Nat) out, outputs[i]? = some (some out) → vs[i]? = some (out.eval I isCall call env [])) →
    (∃ l lk lr, matchAll pats vs = some l ∧ matchAll (kept outputs pats) (kept outputs vs) = some lk ∧
      matchLets I isCall call env (removed outputs pats) = some lr ∧ l.Perm (lk ++ lr)) ∨
    matchAll pats vs = none ∧ (matchAll (kept outputs pats) (kept outputs vs) = none ∨
      matchLets I isCall call env (removed outputs pats) = none)
  | [], [], [], _, _, _ => .inl ⟨[], [], [], rfl, rfl, rfl, .refl _⟩
  | none :: outputs, p :: pats, v :: vs, hlen, hlen', houts => by
    rw [kept, kept, removed, matchAll_cons, matchAll_cons]
    cases v.bind p.matches with
    | none => exact .inr ⟨rfl, .inl rfl⟩
    | some l₁ =>
      rcases matchAll_split (Nat.succ.inj hlen) (Nat.succ.inj hlen') fun i out hi => houts (i + 1) out hi with
        ⟨l, lk, lr, hl, hlk, hlr, hperm⟩ | ⟨hl, hnone⟩
      · refine .inl ⟨l₁ ++ l, l₁ ++ lk, lr, by simp [hl], by simp [hlk], hlr, ?_⟩
        rw [append_assoc]
        exact hperm.append_left l₁
      · refine .inr ⟨by simp [hl], hnone.imp_left fun h => by simp [h]⟩
  | some out :: outputs, p :: pats, v :: vs, hlen, hlen', houts => by
    obtain rfl : v = out.eval I isCall call env [] := Option.some.inj (houts 0 out rfl)
    rw [kept, kept, removed, matchAll_cons, matchLets, map_cons, map_cons, matchAll_cons]
    cases (out.eval I isCall call env []).bind p.matches with
    | none => exact .inr ⟨rfl, .inr rfl⟩
    | some l₁ =>
      rcases matchAll_split (Nat.succ.inj hlen) (Nat.succ.inj hlen') fun i out hi => houts (i + 1) out hi with
        ⟨l, lk, lr, hl, hlk, hlr, hperm⟩ | ⟨hl, hnone⟩
      · refine .inl ⟨l₁ ++ l, lk, l₁ ++ lr, by simp [hl], hlk, by simpa [matchLets] using hlr, ?_⟩
        exact (hperm.append_left l₁).trans (perm_append_comm_assoc ..)
      · exact .inr ⟨by simp [hl], hnone.imp_right fun h => by simpa [matchLets] using h⟩

theorem setFVar_comm (hl : l.map Prod.fst = ids.map some)
    (hids : ids.Nodup) {b b' : Option FVarId × Value X} (hb : b ∈ l) (hb' : b' ∈ l)
    (fvars : FVarId → Option (Value X)) :
    Env.setFVar (Env.setFVar fvars b) b' = Env.setFVar (Env.setFVar fvars b') b := by
  have hnodup : (l.map Prod.fst).Nodup := by
    rw [hl]
    exact hids.map (Option.some_injective _)
  by_cases heq : b = b'
  · rw [heq]
  · have hne : b.1 ≠ b'.1 := fun h => heq (List.inj_on_of_nodup_map hnodup hb hb' h)
    obtain ⟨id, v⟩ := b
    obtain ⟨id', v'⟩ := b'
    cases id with
    | none => rfl
    | some id =>
      cases id' with
      | none => rfl
      | some id' => exact Function.update_comm (fun h => hne (by rw [h])) _ _ _

theorem foldl_setFVar_perm {l' : List (Option FVarId × Value X)}
    (hl : l.map Prod.fst = ids.map some) (hids : ids.Nodup) (hperm : l.Perm l') (fvars : FVarId → Option (Value X)) :
    l.foldl Env.setFVar fvars = l'.foldl Env.setFVar fvars :=
  hperm.foldl_eq' (fun _ hb _ hb' fvars => setFVar_comm hl hids hb hb' fvars) fvars

theorem length_kept {β : Type} : ∀ {outputs : List (Option Texpr)} {l : List α} {l' : List β},
    l.length = l'.length → (kept outputs l).length = (kept outputs l').length
  | [], _, _, _ => by simp [kept]
  | none :: _, [], [], _ => rfl
  | some _ :: _, [], [], _ => rfl
  | none :: outputs, _ :: l, _ :: l', h
  | some _ :: outputs, _ :: l, _ :: l', h => by simp [kept, length_kept (Nat.succ.inj h)]

variable {variantId : Option VariantId} {pats : List TPat}

theorem Related.eval_let {r' : Option (Value X)}
    {next : Texpr} (h : Related I isCall call env outputs monadic r r')
    (hvariant : variantId = none) (hlen : outputs.length = pats.length) (hbound : tpatsBound pats = [])
    (hnodup : (tpatsIds pats).Nodup) (houts : ∀ out, some out ∈ outputs → Outside (tpatsIds pats) out)
    (hnext : next.isOpened = true) (args : List (Value X)) :
    r'.bind (evalLet I monadic (mkSimplTuplePat (kept outputs pats))
      ((mkOpenedLets false (removed outputs pats) next).eval I isCall call) env args) =
    r.bind (evalLet I monadic (.mk (.adt variantId pats) (.adt .tuple generics)) (next.eval I isCall call) env
      args) := by
  cases h with
  | stuck => rfl
  | error e hmonadic =>
    subst hmonadic
    rfl
  | values vs hvs hvalues =>
    have hleft : ((allSome (kept outputs vs)).map fun vs => returned monadic (simplTupleValue vs)).bind
        (evalLet I monadic (mkSimplTuplePat (kept outputs pats))
          ((mkOpenedLets false (removed outputs pats) next).eval I isCall call) env args) =
        (matchAll (kept outputs pats) (kept outputs vs)).bind fun l =>
          (mkOpenedLets false (removed outputs pats) next).eval I isCall call (env.push l) args := by
      unfold matchAll
      cases hall : allSome (kept outputs vs) with
      | none => rfl
      | some ws =>
        have hws : ws.length = (kept outputs pats).length :=
          (length_allSome hall).trans (length_kept (hvs.trans hlen))
        simp only [Option.map_some, Option.bind_some, evalLet_returned, bind_simplTuple hws]
        cases matchTPats (kept outputs pats) ws <;> rfl
    have hright : ((allSome vs).map fun vs => returned monadic (tupleValue vs)).bind
        (evalLet I monadic (.mk (.adt variantId pats) (.adt .tuple generics)) (next.eval I isCall call) env args) =
        (matchAll pats vs).bind fun l => next.eval I isCall call (env.push l) args := by
      unfold matchAll
      cases hall : allSome vs with
      | none => rfl
      | some ws =>
        simp only [Option.map_some, Option.bind_some, evalLet_returned, bind_tuple hvariant]
        cases matchTPats pats ws <;> rfl
    rw [hleft, hright]
    have hkept : ∀ lk, matchAll (kept outputs pats) (kept outputs vs) = some lk →
        env.SameBut (tpatsIds pats) (env.push lk) := by
      intro lk hlk
      refine (Env.sameBut_push (matchAll_ids ?_ hlk)).mono (tpatsIds_subset fun p => mem_of_mem_kept)
      rw [tpatsBound_eq_nil_iff] at hbound ⊢
      exact fun p hp => hbound p (mem_of_mem_kept hp)
    have hlets : ∀ x ∈ removed outputs pats,
        Outside (tpatsIds pats) x.2 ∧ tpatsBound [x.1] = [] ∧ tpatsIds [x.1] ⊆ tpatsIds pats := by
      intro x hx
      obtain ⟨i, hout, hpat⟩ := mem_removed.mp hx
      have hmem := mem_of_getElem? hpat
      exact ⟨houts x.2 (mem_of_getElem? hout), tpatsBound_eq_nil_iff.mp hbound _ hmem,
        tpatsIds_subset (by simpa using hmem)⟩
    rcases matchAll_split hlen (hvs.trans hlen) hvalues with ⟨l, lk, lr, hl, hlk, hlr, hperm⟩ | ⟨hl, hnone⟩
    · rw [hl, hlk, Option.bind_some, Option.bind_some]
      rcases eval_mkOpenedLets next args (hkept lk hlk) hlets with ⟨lr', env'', hlr', hgenerics, hfvars, heval⟩ | ⟨hlr',
        -⟩
      · obtain rfl := Option.some.inj (hlr.symm.trans hlr')
        have hfoldl := foldl_setFVar_perm (matchAll_ids hbound hl) hnodup hperm env.fvars
        have henv : (env.push l).SameBut [] env'' := by
          refine ⟨hgenerics, fun f _ => ?_⟩
          rw [hfvars, Env.push, Env.push, hfoldl, foldl_append]
        rw [heval]
        exact eval_sameBut hnext (by simp) henv args
      · rw [hlr] at hlr'
        cases hlr'
    · rw [hl]
      cases hlk : matchAll (kept outputs pats) (kept outputs vs) with
      | none => rfl
      | some lk =>
        have hlr := hnone.resolve_left (by simp [hlk])
        rcases eval_mkOpenedLets next args (hkept lk hlk) hlets with ⟨lr, env'', hlr', -, -, -⟩ | ⟨-, heval⟩
        · rw [hlr] at hlr'
          cases hlr'
        · exact heval

theorem kept_of_none : ∀ {outputs : List (Option Texpr)} {l : List α}, (∀ out, some out ∉ outputs) →
    outputs.length = l.length → kept outputs l = l ∧ removed outputs l = []
  | [], [], _, _ => ⟨rfl, rfl⟩
  | none :: outputs, a :: l, hnone, hlen => by
    obtain ⟨hkept, hremoved⟩ :=
      kept_of_none (fun out hout => hnone out (mem_cons_of_mem _ hout)) (Nat.succ.inj hlen)
    exact ⟨by rw [kept, hkept], by rw [removed, hremoved]⟩
  | some out :: _, _ :: _, hnone, _ => absurd (mem_cons_self ..) (hnone out)

theorem bind_rebuilt (hlen : pats.length ≠ 1) (generics : GenericArgs) (v : Value X) :
    env.bind [mkSimplTuplePat pats] [v] = env.bind [.mk (.adt none pats) (.adt .tuple generics)] [v] := by
  unfold mkSimplTuplePat
  split
  · simp at hlen
  · rw [Env.bind, Env.bind, matchTPats_singleton, matchTPats_singleton]
    cases v <;> rfl

variable [Ord Texpr] [Std.TransOrd Texpr] [Std.LawfulEqOrd Texpr]

theorem simplifyAux_eval {bound next : Texpr} {ctx : Ctx} {r : TPat × Texpr × Texpr}
    (htyped : LetTyped tc monadic (.mk (.adt variantId pats) (.adt .tuple generics)) bound)
    (hsep : (mk (.letE monadic (.mk (.adt variantId pats) (.adt .tuple generics)) bound next) ty).Separated ctx)
    (h : simplifyAux cfg monadic pats bound next = .ok r) (hoist : Hoistable cfg pats.length bound)
    (env : Env D X) (args : List (Value X)) :
    (mk (.letE monadic r.1 r.2.1 r.2.2) ty).eval I isCall call env args =
      (mk (.letE monadic (.mk (.adt variantId pats) (.adt .tuple generics)) bound next) ty).eval I isCall call env
        args := by
  obtain ⟨rfl, hgenerics, hlen, -⟩ := htyped.pat.tuple
  obtain ⟨outputs, bound', hpicked, rfl, hupdate⟩ := simplifyAux_ok h
  rw [eval_letE, eval_letE]
  rcases hupdate with hupdate | ⟨rfl, hnone⟩
  · have hc :
      (Group.none, bound) ∈ (Expr.letE monadic (.mk (.adt none pats) (.adt .tuple generics)) bound next).children := by
      simp [Expr.children]
    have hc' : (Group.one (.mk (.adt none pats) (.adt .tuple generics)), next) ∈
        (Expr.letE monadic (.mk (.adt none pats) (.adt .tuple generics)) bound next).children := by simp [Expr.children]
    obtain ⟨hpats, hnodup, hnext⟩ := hsep.wellScoped.child (Expr.isNode_of_child hc') hc'
    rw [Group.pats, tpatsBound_adt] at hpats
    rw [Group.pats, tpatsIds_adt] at hnodup
    have hbound : bound.WellScoped (fun _ => false) ctx := (hsep.child hc).wellScoped
    have hopened := bound.openedIn_iff.mp hbound.opened
    have hout : ∀ out, some out ∈ outputs → ∀ ids, (∀ f ∈ out.freeVars, f ∉ ids) → Outside ids out :=
      fun out hout ids hids =>
      ⟨(out.openedIn_iff.mp (hpicked.openedIn hoist hbound.opened hout)).1, hpicked.nodup hbound.nodup hout, hids⟩
    have halong : Along I isCall call env bound.binderIds [] env bound :=
      ⟨hopened.1, hbound.nodup, fun f hf => hf, .refl _ _, by simp⟩
    have hrelated :=
      hupdate.related (by rwa [hpicked.length]) (fun out hmem => hout out hmem _ (hpicked.hoisted hoist hmem))
      htyped.bound htyped.ty hpicked.allows halong
    refine hrelated.eval_let rfl hpicked.length hpats hnodup (fun out hmem => hout out hmem _ fun f hf hf' => ?_)
      (next.openedIn_iff.mp hnext.opened).1 args
    have hctx := (out.openedIn_iff.mp (hpicked.openedIn hoist hbound.opened hmem)).2 f hf
    refine hsep.apart f (hctx.resolve_left (by simp)) ?_
    rw [binderIds_letE, tpatsIds_adt]
    exact mem_append_right _ (mem_append_left _ hf')
  · obtain ⟨hkept, hremoved⟩ := kept_of_none hnone hpicked.length
    rw [hkept, hremoved]
    refine congrArg _ (funext fun v => ?_)
    simp only [evalLet, bind_rebuilt hlen generics]
    rfl

end

end SimplifyLetBranching

end Aeneas.Pure
