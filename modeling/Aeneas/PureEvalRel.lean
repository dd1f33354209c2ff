import Aeneas.PureEval

/-!
# Comparing evaluations

Two evaluations are compared by a relation between their outcomes: they are the
same, or the second one has the value of the first one as soon as there is one.
A node compares to the node rebuilt with other subexpressions, in another
environment, as the subexpressions do.
-/

namespace Aeneas.Pure

open List

/-! ## Relations between outcomes -/

structure OutcomeRel where
  Rel : ∀ {α : Type}, Option α → Option α → Prop
  refl : ∀ {α : Type} (x : Option α), Rel x x
  bind : ∀ {α β : Type} {x y : Option α} {k k' : α → Option β}, Rel x y →
    (∀ a, x = some a → Rel (k a) (k' a)) → Rel (x.bind k) (y.bind k')

def sameOutcome : OutcomeRel where
  Rel x y := x = y
  refl _ := rfl
  bind {_ _ x _ _ _} h hk := by
    subst h
    cases x with
    | none => rfl
    | some a => exact hk a rfl

def refinedOutcome : OutcomeRel where
  Rel {α} x y := ∀ a : α, x = some a → y = some a
  refl _ _ h := h
  bind {_ _ x y _ _} h hk b hb := by
    obtain ⟨a, ha, hb⟩ := Option.bind_eq_some_iff.mp hb
    rw [h a ha]
    exact hk a ha b hb

section
variable {D X : Type} {ρ : OutcomeRel} {I : Interp D X} {isCall : FunKey → Bool} {call : FunCalls D X}
  {A : Texpr → List (Value X) → Prop}

structure Interp.Respects (ρ : OutcomeRel) (I : Interp D X) : Prop where
  lambda : ∀ {f f' : Value X → Option (Value X)}, (∀ v, ρ.Rel (f v) (f' v)) → ρ.Rel (I.lambda f) (I.lambda f')
  loop : ∀ {f f' : List (Value X) → Option (Value X)}, (∀ vs, ρ.Rel (f vs) (f' vs)) →
    ∀ vs, ρ.Rel (I.loop f vs) (I.loop f' vs)

theorem Interp.respects_same (I : Interp D X) : I.Respects sameOutcome where
  lambda h := congrArg I.lambda (funext h)
  loop h vs := congrArg (I.loop · vs) (funext h)

/-! ## Subexpressions -/

inductive Entered (env env' : Env D X) : Group → Group → Env D X → Env D X → Prop
  | none : Entered env env' .none .none env env'
  | pats {g g' : Group} {env₁ env₁' : Env D X} (hg : g ≠ .none) (vs : List (Value X))
    (h : env.bind g.pats vs = some env₁) (h' : env'.bind g'.pats vs = some env₁') : Entered env env' g g' env₁ env₁'

variable (ρ I isCall call) in
structure RelatedScoped (A : Texpr → List (Value X) → Prop) (env env' : Env D X) (c c' : Scoped Texpr) : Prop where
  like : c.1.Like c'.1
  binds : ∀ vs, (env'.bind c'.1.pats vs).isSome = (env.bind c.1.pats vs).isSome
  eval : ∀ {env₁ env₁' : Env D X}, Entered env env' c.1 c'.1 env₁ env₁' → ∀ args, A c.2 args →
    ρ.Rel (c.2.eval I isCall call env₁ args) (c'.2.eval I isCall call env₁' args)

structure PassesArgs (A : Texpr → List (Value X) → Prop) (e : Expr) (args : List (Value X)) : Prop where
  none : ∀ c ∈ e.children, A c.2 []
  app : ∀ f x, e = .app f x → ∀ v, A f (v :: args)
  letE : ∀ monadic pat bound next, e = .letE monadic pat bound next → A next args
  switch : ∀ scrut body, e = .switch scrut body → ∀ c ∈ body.children, A c.2 args
  emeta : ∀ m e', e = .emeta m e' → A e' args

theorem passesArgs_any (e : Expr) (args : List (Value X)) : PassesArgs (fun _ _ => True) e args :=
  ⟨fun _ _ => trivial, fun _ _ _ _ => trivial, fun _ _ _ _ _ => trivial, fun _ _ _ _ _ => trivial,
    fun _ _ _ => trivial⟩

variable {env env' : Env D X} {c c' : Scoped Texpr}

variable {g : Group}

theorem Entered.eq {env₁ env₁' : Env D X} (h : Entered env env g g env₁ env₁') : env₁' = env₁ := by
  cases h with
  | none => rfl
  | pats hg vs h h' => exact Option.some.inj (h'.symm.trans h)

theorem relatedScoped_same (hg : c'.1 = c.1) (h : ∀ {env₁ env₁' : Env D X}, Entered env env' c.1 c.1 env₁ env₁' →
    ∀ args, A c.2 args → ρ.Rel (c.2.eval I isCall call env₁ args) (c'.2.eval I isCall call env₁' args)) :
    RelatedScoped ρ I isCall call A env env' c c' where
  like := hg ▸ c.1.like_refl
  binds vs := by
    rw [hg]
    simp only [Env.bind, Option.isSome_map]
  eval hentered := h (hg ▸ hentered)

theorem like_none (h : Group.none.Like g) : g = .none := by
  cases g with
  | none => rfl
  | _ => cases h

theorem like_one {pat : TPat} (h : (Group.one pat).Like g) : ∃ pat', g = .one pat' := by
  cases g with
  | one pat' => exact ⟨pat', rfl⟩
  | _ => cases h

theorem like_many {pats : List TPat} (h : (Group.many pats).Like g) : ∃ pats', g = .many pats' := by
  cases g with
  | many pats' => exact ⟨pats', rfl⟩
  | _ => cases h

variable {args : List (Value X)}

theorem RelatedScoped.direct {e : Texpr} (h : RelatedScoped ρ I isCall call A env env' (.none, e) c')
    (hargs : A e args) :
    ρ.Rel (e.eval I isCall call env args) (c'.2.eval I isCall call env' args) := by
  have hentered : Entered env env' .none c'.1 env env' := by
    rw [like_none h.like]
    exact .none
  exact h.eval hentered args hargs

theorem RelatedScoped.under (h : RelatedScoped ρ I isCall call A env env' c c') (hg : c.1 ≠ .none)
    (vs : List (Value X)) (hargs : A c.2 args) :
    ρ.Rel ((env.bind c.1.pats vs).bind fun env => c.2.eval I isCall call env args)
      ((env'.bind c'.1.pats vs).bind fun env => c'.2.eval I isCall call env args) := by
  have hbinds := h.binds vs
  cases h₁ : env.bind c.1.pats vs with
  | none =>
    rw [h₁] at hbinds
    rw [Option.isSome_eq_false_iff.mp hbinds |> Option.isNone_iff_eq_none.mp]
    exact ρ.refl _
  | some env₁ =>
    rw [h₁] at hbinds
    obtain ⟨env₁', h₁'⟩ := Option.isSome_iff_exists.mp hbinds
    rw [h₁']
    exact h.eval (.pats hg vs h₁ h₁') args hargs

theorem evalBranches_related (args : List (Value X)) (v : Value X) :
    ∀ {branches : List (MatchBranch Texpr)} {cs : List (Scoped Texpr)},
    List.Forall₂ (RelatedScoped ρ I isCall call A env env') (branches.map fun b => (.one b.pat, b.branch)) cs →
    (∀ b ∈ branches, A b.branch args) →
    ρ.Rel (evalBranches env args v (branches.map (MatchBranch.map (Texpr.eval I isCall call))))
      (evalBranches env' args v
        ((List.zipWith MatchBranch.rebuild branches cs).map (MatchBranch.map (Texpr.eval I isCall call))))
  | [], _, h, _ => by
    cases h
    exact ρ.refl _
  | b :: branches, _, h, hargs => by
    obtain ⟨hb, hargs⟩ := forall_mem_cons.mp hargs
    obtain _ | ⟨hc, h⟩ := h
    rename_i c cs
    obtain ⟨g, e⟩ := c
    obtain ⟨pat, hpat⟩ := like_one hc.like
    cases hpat
    have hbinds := hc.binds [v]
    simp only [zipWith_cons_cons, map_cons, MatchBranch.rebuild, evalBranches, MatchBranch.map]
    -- the same branch is taken on both sides
    cases h₁ : env.bind [b.pat] [v] with
    | none =>
      rw [show env.bind (Group.one b.pat).pats [v] = none from h₁] at hbinds
      have hnone : env'.bind [pat] [v] = none := Option.isNone_iff_eq_none.mp (Option.isSome_eq_false_iff.mp hbinds)
      rw [hnone]
      exact evalBranches_related args v h hargs
    | some env₁ =>
      rw [show env.bind (Group.one b.pat).pats [v] = some env₁ from h₁] at hbinds
      obtain ⟨env₁', h₁'⟩ := Option.isSome_iff_exists.mp hbinds
      rw [show env'.bind [pat] [v] = some env₁' from h₁']
      exact hc.eval (.pats (by simp) [v] h₁ h₁') args hb

theorem evalUpdates_related : ∀ {updates : List (FieldId × Texpr)} {cs : List (Scoped Texpr)},
    List.Forall₂ (RelatedScoped ρ I isCall call A env env') (updates.map fun u => (.none, u.2)) cs →
    (∀ u ∈ updates, A u.2 []) →
    ρ.Rel (evalUpdates env (updates.map fun u => (u.1, u.2.eval I isCall call)))
      (evalUpdates env'
        ((List.zipWith (fun u c => (u.1, c.2)) updates cs).map fun u => (u.1, u.2.eval I isCall call)))
  | [], _, h, _ => by
    cases h
    exact ρ.refl _
  | u :: updates, _, h, hargs => by
    obtain ⟨hu, hargs⟩ := forall_mem_cons.mp hargs
    obtain _ | ⟨hc, h⟩ := h
    exact ρ.bind (hc.direct hu) fun v _ => ρ.bind (evalUpdates_related h hargs) fun _ _ => ρ.refl _

theorem evalInputs_related : ∀ {inputs : List Texpr} {cs cs' : List (Scoped Texpr)},
    List.Forall₂ (RelatedScoped ρ I isCall call A env env') ((inputs.map fun e => (.none, e)) ++ cs) cs' →
    (∀ e ∈ inputs, A e []) →
    ρ.Rel (evalInputs env (inputs.map (Texpr.eval I isCall call)))
      (evalInputs env' (((cs'.take inputs.length).map Prod.snd).map (Texpr.eval I isCall call))) ∧
    List.Forall₂ (RelatedScoped ρ I isCall call A env env') cs (cs'.drop inputs.length)
  | [], _, _, h, _ => ⟨ρ.refl _, h⟩
  | e :: inputs, _, _, h, hargs => by
    obtain ⟨he, hargs⟩ := forall_mem_cons.mp hargs
    obtain _ | ⟨hc, h⟩ := h
    obtain ⟨hinputs, hrest⟩ := evalInputs_related h hargs
    exact ⟨ρ.bind (hc.direct he) fun v _ => ρ.bind hinputs fun _ _ => ρ.refl _, hrest⟩

theorem evalLet_related {next next' : Texpr} {pat pat' : TPat} (monadic : Bool) (v : Value X)
    (h : RelatedScoped ρ I isCall call A env env' (.one pat, next) (.one pat', next')) (hargs : A next args) :
    ρ.Rel (evalLet I monadic pat (next.eval I isCall call) env args v)
      (evalLet I monadic pat' (next'.eval I isCall call) env' args v) := by
  have hunder := fun w => h.under (by simp) [w] hargs
  cases monadic with
  | false => exact hunder v
  | true =>
    simp only [evalLet, if_true]
    cases v.result with
    | none => exact ρ.refl _
    | some r =>
      cases r with
      | ok w => exact hunder w
      | error e => exact ρ.refl _

variable {cs : List (Scoped Texpr)}

theorem Texpr.eval_related_on (hI : I.Respects ρ) {e : Expr} (he : e.IsNode) {ty ty' : Ty}
    (hgenerics : env'.generics = env.generics)
    (h : List.Forall₂ (RelatedScoped ρ I isCall call A env env') e.children cs)
    (hargs : PassesArgs A e args) :
    ρ.Rel ((Texpr.mk e ty).eval I isCall call env args)
      ((Texpr.mk (e.rebuild cs) ty').eval I isCall call env' args) := by
  have hnone := hargs.none
  cases e with
  | fvar f => exact absurd rfl (he.1 f)
  | bvar v => exact absurd rfl (he.2 v)
  | cvar id =>
    change ρ.Rel ((I.cvar env.generics id).bind _) ((I.cvar env'.generics id).bind _)
    rw [hgenerics]
    exact ρ.refl _
  | const l => exact ρ.refl _
  | qualif q =>
    change ρ.Rel (evalQualif I isCall call q env.generics args) (evalQualif I isCall call q env'.generics args)
    rw [hgenerics]
    exact ρ.refl _
  | eError span message => exact ρ.refl _
  | app f x =>
    obtain _ | ⟨hf, h⟩ := h
    obtain _ | ⟨hx, h⟩ := h
    cases h
    have hx := hx.direct (hnone (.none, x) (by simp [Expr.children]))
    exact ρ.bind hx fun v _ => hf.direct (hargs.app f x rfl v)
  | lambda pat inner =>
    obtain _ | ⟨hc, h⟩ := h
    cases h
    rename_i c
    obtain ⟨g, inner'⟩ := c
    obtain ⟨pat', hpat⟩ := like_one hc.like
    cases hpat
    have hinner := hnone (.one pat, inner) (by simp [Expr.children])
    exact ρ.bind (hI.lambda fun v => hc.under (by simp) [v] hinner) fun _ _ => ρ.refl _
  | letE monadic pat bound next =>
    obtain _ | ⟨hb, h⟩ := h
    obtain _ | ⟨hc, h⟩ := h
    cases h
    rename_i c
    obtain ⟨g, next'⟩ := c
    obtain ⟨pat', hpat⟩ := like_one hc.like
    cases hpat
    have hb := hb.direct (hnone (.none, bound) (by simp [Expr.children]))
    exact ρ.bind hb fun v _ => evalLet_related monadic v hc (hargs.letE _ _ _ _ rfl)
  | switch scrut body =>
    obtain _ | ⟨hs, h⟩ := h
    have hs := hs.direct (hnone (.none, scrut) (by simp [Expr.children]))
    have hbranch := hargs.switch scrut body rfl
    cases body with
    | ite thn els =>
      obtain _ | ⟨ht, h⟩ := h
      obtain _ | ⟨he, h⟩ := h
      cases h
      simp only [Expr.rebuild, SwitchBody.rebuild, eval_switch, SwitchBody.map]
      refine ρ.bind hs fun v _ => ?_
      cases v with
      | lit l =>
        cases l with
        | bool b =>
          cases b with
          | true => exact ht.direct (hbranch (.none, thn) (by simp [SwitchBody.children]))
          | false => exact he.direct (hbranch (.none, els) (by simp [SwitchBody.children]))
        | _ => exact ρ.refl _
      | _ => exact ρ.refl _
    | matchE branches =>
      simp only [Expr.rebuild, SwitchBody.rebuild, eval_switch, SwitchBody.map]
      refine ρ.bind hs fun v _ => evalBranches_related args v h fun b hb => ?_
      exact hbranch (.one b.pat, b.branch) (mem_map_of_mem hb)
  | structUpdate s =>
    obtain ⟨structId, init, updates⟩ := s
    have hupdates : ∀ u ∈ updates, A u.2 [] := fun u hu =>
      hnone (.none, u.2) (mem_append_right _ (mem_map.mpr ⟨u, hu, rfl⟩))
    cases init with
    | none =>
      simp only [Expr.rebuild, StructUpdate.rebuild, eval_structUpdate, Option.map_none, hgenerics]
      exact ρ.bind (ρ.refl (some none)) fun _ _ => ρ.bind (evalUpdates_related h hupdates) fun _ _ => ρ.refl _
    | some e₀ =>
      obtain _ | ⟨h₀, h⟩ := h
      have h₀ := h₀.direct (hnone (.none, e₀) (by simp [Expr.children, StructUpdate.children]))
      simp only [Expr.rebuild, StructUpdate.rebuild, eval_structUpdate, evalInit, hgenerics,
        Option.map_eq_bind, Function.comp_def]
      exact ρ.bind (ρ.bind h₀ fun _ _ => ρ.refl _) fun _ _ =>
        ρ.bind (evalUpdates_related h hupdates) fun _ _ => ρ.refl _
  | emeta m e =>
    have hlast := forall₂_drop m.children.length h
    rw [Expr.children, drop_left] at hlast
    obtain ⟨c, cs', he, hnil, hcs⟩ := forall₂_cons_left_iff.mp hlast
    obtain rfl := forall₂_nil_left_iff.mp hnil
    simp only [Expr.rebuild, hcs, eval_emeta]
    exact he.direct (hargs.emeta m e rfl)
  | loop l =>
    have hmem : ∀ e ∈ l.inputs, A e [] := fun e he =>
      hnone (.none, e) (mem_append_left _ (mem_map.mpr ⟨e, he, rfl⟩))
    have hinner := hnone (.many l.loopBody.inputs, l.loopBody.loopBody) (mem_append_right _ (by simp))
    obtain ⟨hinputs, hrest⟩ := evalInputs_related h hmem
    obtain ⟨c, cs', hbody, hnil, hcs⟩ := forall₂_cons_left_iff.mp hrest
    obtain rfl := forall₂_nil_left_iff.mp hnil
    obtain ⟨g, body⟩ := c
    obtain ⟨pats, hpats⟩ := like_many hbody.like
    cases hpats
    simp only [Expr.rebuild, Loop.rebuild, hcs, eval_loop]
    exact ρ.bind hinputs fun vs _ =>
      ρ.bind (hI.loop (fun vs => hbody.under (by simp) vs hinner) vs) fun _ _ => ρ.refl _

theorem Texpr.eval_related (hI : I.Respects ρ) {e : Expr} (he : e.IsNode) {ty ty' : Ty}
    (hgenerics : env'.generics = env.generics)
    (h : List.Forall₂ (RelatedScoped ρ I isCall call (fun _ _ => True) env env') e.children cs)
    (args : List (Value X)) :
    ρ.Rel ((Texpr.mk e ty).eval I isCall call env args)
      ((Texpr.mk (e.rebuild cs) ty').eval I isCall call env' args) :=
  eval_related_on hI he hgenerics h (passesArgs_any e args)

end

end Aeneas.Pure
