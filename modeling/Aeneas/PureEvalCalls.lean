import Aeneas.PureEvalScope

/-!
# Calls of the functions which may diverge

An expression is ready if it calls the functions which may diverge only where
the result of the call is the result of the expression, or is bound by a monadic
let-binding. A lack of results, or of fuel, then goes through the expression: its
value follows the values of the calls.
-/

namespace Aeneas.Pure

open Fuel Texpr List

attribute [local simp] Expr.children

/-! ## Ready expressions -/

/-- How an expression uses the functions which may diverge: they do not occur in it; it calls one of them, or they
do not occur; it is ready. -/
structure CallShape where
  callFree : Bool
  spine : Bool
  ready : Bool

def CallShape.all (b : Bool) : CallShape := { callFree := b, spine := b, ready := b }

def callShape (isCall : FunKey → Bool) : Visitor CallShape CallShape where
  visitFVar _ := .all true
  visitBVar _ := .all true
  visitCVar _ := .all true
  visitConst _ := .all true
  visitApp f x :=
    { callFree := f.callFree && x.callFree, spine := f.spine && x.callFree, ready := f.spine && x.callFree }
  visitLambda _ inner := .all inner.callFree
  visitQualif q := { callFree := !q.callee.any isCall, spine := true, ready := true }
  visitLet monadic _ bound next :=
    { callFree := bound.callFree && next.callFree
      spine := bound.callFree && next.callFree
      ready := (if monadic then bound.ready else bound.callFree) && next.ready }
  visitSwitch scrut body :=
    { callFree := scrut.callFree && body.children.all fun c => c.2.callFree
      spine := scrut.callFree && body.children.all fun c => c.2.callFree
      ready := scrut.callFree && body.children.all fun c => c.2.ready }
  visitLoop l := .all (l.children.all fun c => c.2.callFree)
  visitStructUpdate s := .all (s.children.all fun c => c.2.callFree)
  visitMeta m e := .all ((m.children.all fun c => c.2.callFree) && e.callFree)
  visitEError _ _ := .all true
  visitTexpr e _ := e

def Texpr.shape (isCall : FunKey → Bool) (e : Texpr) : CallShape := e.visit (callShape isCall)

def Texpr.callFree (isCall : FunKey → Bool) (e : Texpr) : Bool := (e.shape isCall).callFree

def Texpr.ready (isCall : FunKey → Bool) (e : Texpr) : Bool := (e.shape isCall).ready

section
variable {isCall : FunKey → Bool} {ty : Ty}

theorem Texpr.shape_app (f x : Texpr) : (mk (.app f x) ty).shape isCall =
    { callFree := f.callFree isCall && x.callFree isCall
      spine := (f.shape isCall).spine && x.callFree isCall
      ready := (f.shape isCall).spine && x.callFree isCall } := rfl

theorem Texpr.shape_letE (monadic : Bool) (pat : TPat) (bound next : Texpr) :
    (mk (.letE monadic pat bound next) ty).shape isCall =
      { callFree := bound.callFree isCall && next.callFree isCall
        spine := bound.callFree isCall && next.callFree isCall
        ready := (if monadic then bound.ready isCall else bound.callFree isCall) && next.ready isCall } := rfl

theorem Texpr.shape_switch (scrut : Texpr) (body : SwitchBody Texpr) :
    (mk (.switch scrut body) ty).shape isCall =
      { callFree := scrut.callFree isCall && body.children.all fun c => c.2.callFree isCall
        spine := scrut.callFree isCall && body.children.all fun c => c.2.callFree isCall
        ready := scrut.callFree isCall && body.children.all fun c => c.2.ready isCall } := by
  simp only [shape, visit_mk, Expr.visit_switch, callShape, SwitchBody.children_map, all_map]
  rfl

inductive Expr.IsPlain : Expr → Prop
  | lambda (pat : TPat) (inner : Texpr) : IsPlain (.lambda pat inner)
  | loop (l : Loop Texpr) : IsPlain (.loop l)
  | structUpdate (s : StructUpdate Texpr) : IsPlain (.structUpdate s)
  | emeta (m : EMeta Texpr) (e : Texpr) : IsPlain (.emeta m e)
  | cvar (id : ConstGenericVarId) : IsPlain (.cvar id)
  | const (l : Literal) : IsPlain (.const l)
  | eError (span : Option Span) (message : String) : IsPlain (.eError span message)

variable {e : Expr}

theorem Texpr.shape_plain (he : e.IsPlain) :
    (mk e ty).shape isCall = .all (e.children.all fun c => c.2.callFree isCall) := by
  cases he with
  | lambda pat inner => simp [shape, Expr.visit, callShape, callFree]
  | loop l => simp [shape, callShape, callFree, Loop.children_map, Function.comp_def]
  | structUpdate s => simp [shape, callShape, callFree, StructUpdate.children_map, Function.comp_def]
  | emeta m e => simp [shape, callShape, callFree, EMeta.children_map, Function.comp_def]
  | _ => rfl

theorem Texpr.callFree_node (he : ∀ q, e ≠ .qualif q) :
    (mk e ty).callFree isCall = true ↔ ∀ c ∈ e.children, c.2.callFree isCall = true := by
  have hplain : e.IsPlain → ((mk e ty).callFree isCall = true ↔ ∀ c ∈ e.children, c.2.callFree isCall = true) := by
    intro he
    simp [callFree, shape_plain he, CallShape.all]
  cases e with
  | qualif q => exact absurd rfl (he q)
  | fvar f | bvar v => simp [callFree, shape, Expr.visit, callShape, CallShape.all]
  | app f x => simp [callFree, shape_app]
  | letE monadic pat bound next => simp [callFree, shape_letE]
  | switch scrut body => simp [callFree, shape_switch]
  | _ => exact hplain (by constructor)

theorem Texpr.ready_of_callFree (e : Texpr) : e.callFree isCall = true →
    (e.shape isCall).spine = true ∧ e.ready isCall = true := by
  induction e using induct with
  | h e ty ih =>
    intro hfree
    have hplain : e.IsPlain → (mk e ty).callFree isCall = true →
        ((mk e ty).shape isCall).spine = true ∧ (mk e ty).ready isCall = true := by
      intro he h
      simp only [callFree, ready, shape_plain he, CallShape.all] at h ⊢
      exact ⟨h, h⟩
    cases e with
    | qualif q | fvar f | bvar v => exact ⟨rfl, rfl⟩
    | app f x =>
      have hc := (callFree_node (by simp)).mp hfree
      have hf := hc (.none, f) (by simp)
      have hx := hc (.none, x) (by simp)
      have hspine := (ih (.none, f) (by simp) hf).1
      simp_all [ready, shape_app]
    | letE monadic pat bound next =>
      have hc := (callFree_node (by simp)).mp hfree
      have hb := hc (.none, bound) (by simp)
      have hn := hc (.one pat, next) (by simp)
      have hb' := (ih (.none, bound) (by simp) hb).2
      have hn' := (ih (.one pat, next) (by simp) hn).2
      simp_all [ready, shape_letE]
    | switch scrut body =>
      have hc := (callFree_node (by simp)).mp hfree
      have hs := hc (.none, scrut) (by simp)
      have hbody : ∀ c ∈ body.children, c.2.callFree isCall = true ∧ c.2.ready isCall = true := by
        intro c hcb
        have hmem : c ∈ (Expr.switch scrut body).children := mem_cons_of_mem _ hcb
        exact ⟨hc c hmem, (ih c hmem (hc c hmem)).2⟩
      simp only [ready, shape_switch, Bool.and_eq_true, all_eq_true]
      exact ⟨⟨hs, fun c hcb => (hbody c hcb).1⟩, hs, fun c hcb => (hbody c hcb).2⟩
    | _ => exact hplain (by constructor) hfree

/-! ## Closing keeps the shape -/

theorem Expr.IsPlain.rebuild (he : e.IsPlain) {cs : List (Scoped Texpr)} : (e.rebuild cs).IsPlain := by
  cases he with
  | lambda pat inner => unfold Expr.rebuild; split <;> first | contradiction | constructor
  | loop l => constructor
  | structUpdate s => constructor
  | emeta m e => simp only [Expr.rebuild]; split <;> constructor
  | _ => constructor

theorem Texpr.shape_mapIn {γ : Type} {onFVar : γ → FVarId → Expr} {onBound : Var → Option MPlace → Pat}
    {onOpened : FVar → Option MPlace → Pat} {push : List TPat → γ → γ}
    (hvar : ∀ x f ty, (mk (onFVar x f) ty).shape isCall = .all true) (e : Texpr) :
    ∀ x, (e.mapIn onFVar onBound onOpened push x).shape isCall = e.shape isCall := by
  induction e using induct with
  | h e ty ih =>
    intro x
    have hplain : e.IsPlain →
        ((mk e ty).mapIn onFVar onBound onOpened push x).shape isCall = (mk e ty).shape isCall := by
      intro he
      have hfits : Fits e.children (e.children.map fun c => (c.1.mapVars onBound onOpened,
          c.2.mapIn onFVar onBound onOpened push (c.1.under push x))) :=
        forall₂_map_right_iff.mpr (forall₂_same.mpr fun c _ => c.1.like_mapVars _ _)
      rw [mapIn_node (by cases he <;> exact nofun), shape_plain he.rebuild, shape_plain he,
        (Expr.children_rebuild hfits hfits).1, all_map]
      congr 1
      rw [Bool.eq_iff_iff, all_eq_true, all_eq_true]
      exact forall₂_congr fun c hc => by rw [Function.comp_apply, callFree, callFree, ih c hc]
    cases e with
    | qualif q => rw [mapIn_node (by simp)]; rfl
    | fvar f => rw [mapIn_fvar, hvar]; rfl
    | bvar v => rw [mapIn_node (by simp)]; rfl
    | app f a =>
      rw [mapIn_app, shape_app, shape_app]
      simp only [callFree, ih (.none, f) (by simp), ih (.none, a) (by simp)]
    | letE monadic pat bound next =>
      rw [mapIn_letE, shape_letE, shape_letE]
      simp only [callFree, ready, ih (.none, bound) (by simp),
        ih (.one pat, next) (by simp)]
    | switch scrut body =>
      have hscrut := ih (.none, scrut) (by simp) x
      cases body with
      | ite thn els =>
        rw [mapIn_ite, shape_switch, shape_switch]
        simp only [callFree, ready, SwitchBody.children, all_cons, hscrut,
          ih (.none, thn) (by simp [SwitchBody.children]),
          ih (.none, els) (by simp [SwitchBody.children])]
      | matchE branches =>
        have hbranches : ∀ b ∈ branches, ∀ x,
            (b.branch.mapIn onFVar onBound onOpened push x).shape isCall = b.branch.shape isCall := by
          intro b hb
          exact ih (.one b.pat, b.branch) (mem_cons_of_mem _ (mem_map.mpr ⟨b, hb, rfl⟩))
        rw [mapIn_matchE, shape_switch, shape_switch]
        simp only [callFree, ready, SwitchBody.children, all_map, hscrut, Function.comp_def]
        congr 1 <;> congr 1 <;> rw [Bool.eq_iff_iff, all_eq_true, all_eq_true] <;>
          exact forall₂_congr fun b hb => by rw [hbranches b hb]
    | _ => exact hplain (by constructor)

theorem Texpr.ready_closeIn (e : Texpr) (ctx : Ctx) : (e.closeIn ctx).ready isCall = e.ready isCall := by
  refine congrArg CallShape.ready (e.shape_mapIn (fun ctx f ty => ?_) ctx)
  rw [closeVar]
  cases ctx.position f <;> rfl

end

/-! ## Values of the expressions without calls -/

section
variable {D X : Type} {I : Interp D X} {isCall : FunKey → Bool}

theorem evalQualif_callFree {q : Qualif} (h : q.callee.any isCall = false) (call call' : FunCalls D X) :
    evalQualif I isCall call q = evalQualif I isCall call' q := by
  funext d args
  unfold evalQualif
  split
  · rename_i fid lpId hq
    have hk : isCall (fid, lpId) = false := by simpa [Qualif.callee, hq] using h
    simp [hk]
  all_goals rfl

theorem evalQualif_call {q : Qualif} {k : FunKey} (hq : q.callee = some k) (hk : isCall k = true) (call : FunCalls D X)
    (d : D) (args : List (Value X)) :
    evalQualif I isCall call q d args = call k (I.generics d q.generics, args) := by
  unfold Qualif.callee at hq
  split at hq
  · rename_i fid lpId hid
    obtain rfl := Option.some.inj hq
    simp [evalQualif, hid, hk]
  · cases hq

variable {α β : Type} {f g : α → β}

theorem SwitchBody.map_congr {b : SwitchBody α} (h : ∀ c ∈ b.children, f c.2 = g c.2) :
    b.map f = b.map g := by
  cases b with
  | ite thn els => simp [map, h (.none, thn) (by simp [children]), h (.none, els) (by simp [children])]
  | matchE branches =>
    refine congrArg SwitchBody.matchE (map_congr_left fun b hb => ?_)
    rw [MatchBranch.map, MatchBranch.map, h (.one b.pat, b.branch) (mem_map.mpr ⟨b, hb, rfl⟩)]

theorem StructUpdate.map_congr {s : StructUpdate α} (h : ∀ c ∈ s.children, f c.2 = g c.2) :
    s.map f = s.map g := by
  obtain ⟨structId, init, updates⟩ := s
  have hupdates : (updates.map fun u => (u.1, f u.2)) = updates.map fun u => (u.1, g u.2) :=
    map_congr_left fun u hu => by
      rw [h (.none, u.2) (mem_append_right _ (mem_map.mpr ⟨u, hu, rfl⟩))]
  have hinit : init.map f = init.map g := by
    cases init with
    | none => rfl
    | some e => rw [Option.map_some, Option.map_some, h (.none, e) (by simp [children])]
  simp only [map, hinit, hupdates]

theorem Loop.map_congr {l : Loop α} (h : ∀ c ∈ l.children, f c.2 = g c.2) :
    l.map f = l.map g := by
  have hinputs : l.inputs.map f = l.inputs.map g :=
    map_congr_left fun e he => h (.none, e) (mem_append_left _ (mem_map.mpr ⟨e, he, rfl⟩))
  have hbody : f l.loopBody.loopBody = g l.loopBody.loopBody :=
    h (.many l.loopBody.inputs, l.loopBody.loopBody) (mem_append_right _ (by simp))
  simp only [map, LoopBody.map, hinputs, hbody]

theorem Texpr.eval_callFree (e : Texpr) (call call' : FunCalls D X) : e.callFree isCall = true →
    e.eval I isCall call = e.eval I isCall call' := by
  induction e using induct with
  | h e ty ih =>
    intro hfree
    by_cases hq : ∃ q, e = .qualif q
    · obtain ⟨q, rfl⟩ := hq
      have h : q.callee.any isCall = false := by simpa [callFree, shape, Expr.visit, callShape] using hfree
      funext env args
      rw [eval_qualif, eval_qualif, evalQualif_callFree h call call']
    · have hc := (callFree_node fun q h => hq ⟨q, h⟩).mp hfree
      have hchild : ∀ c ∈ e.children, c.2.eval I isCall call = c.2.eval I isCall call' := fun c h => ih c h (hc c h)
      funext env args
      cases e with
      | app f x =>
        simp only [eval_app, hchild (.none, f) (by simp), hchild (.none, x) (by simp)]
      | lambda pat inner => simp only [eval_lambda, hchild (.one pat, inner) (by simp)]
      | letE monadic pat bound next =>
        simp only [eval_letE, hchild (.none, bound) (by simp),
          hchild (.one pat, next) (by simp)]
      | switch scrut body =>
        rw [eval_switch, eval_switch, hchild (.none, scrut) (by simp),
          SwitchBody.map_congr fun c hc => hchild c (mem_cons_of_mem _ hc)]
      | structUpdate s =>
        have hmap := StructUpdate.map_congr (s := s) hchild
        simp only [StructUpdate.map, StructUpdate.mk.injEq, true_and] at hmap
        rw [eval_structUpdate, eval_structUpdate, hmap.1, hmap.2]
      | emeta m e => simp only [eval_emeta, hchild (.none, e) (by simp)]
      | loop l =>
        have hmap := Loop.map_congr (l := l) hchild
        simp only [Loop.map, Loop.mk.injEq, true_and] at hmap
        rw [eval_loop, eval_loop, hmap.1, hmap.2.1]
      | qualif q => exact absurd ⟨q, rfl⟩ hq
      | _ => rfl

/-! ## Values of the ready expressions -/

def PassedOn (bad : Value X → Prop) : Prop := ∀ v, bad v → ∃ e, v.result = some (.error e) ∧ bad (.fail e)

theorem passedOn_false : PassedOn (X := X) fun _ => False := nofun

theorem passedOn_outOfFuel : PassedOn (X := X) (· = .outOfFuel) := by
  intro v hv
  exact ⟨.adt (.builtin .error) (some errorOutOfFuelId) [], by rw [hv]; rfl, rfl⟩

variable {ι : Type} {l : Filter ι} {bad : Value X → Prop} {L : FunCalls D X} {F : ι → FunCalls D X}

theorem Texpr.attains_callFree {e : Texpr} (he : e.callFree isCall = true) (env : Env D X) (args : List (Value X)) :
    Attains bad l (e.eval I isCall L env args) fun i => e.eval I isCall (F i) env args := by
  have heq : ∀ i, e.eval I isCall (F i) = e.eval I isCall L := fun i => e.eval_callFree _ _ he
  simp only [heq]
  exact .const _

theorem attains_evalQualif (h : Follows bad l L F) (q : Qualif) (d : D) (args : List (Value X)) :
    Attains bad l (evalQualif I isCall L q d args) fun i => evalQualif I isCall (F i) q d args := by
  cases hq : q.callee.any isCall with
  | false =>
    have heq : ∀ i, evalQualif I isCall (F i) q = evalQualif I isCall L q := fun i => evalQualif_callFree hq _ _
    simp only [heq]
    exact .const _
  | true =>
    obtain ⟨k, hk, hcall⟩ := (Option.any_eq_true _ _).mp hq
    simp only [evalQualif_call hk hcall]
    exact h k _

theorem attains_evalBranches (env : Env D X) (args : List (Value X)) (v : Value X) :
    ∀ {branches : List (MatchBranch Texpr)},
      (∀ b ∈ branches, ∀ env, Attains bad l (b.branch.eval I isCall L env args)
        fun i => b.branch.eval I isCall (F i) env args) →
      Attains bad l (evalBranches env args v (branches.map (MatchBranch.map (eval I isCall L))))
        fun i => evalBranches env args v (branches.map (MatchBranch.map (eval I isCall (F i))))
  | [], _ => .const none
  | b :: branches, h => by
    obtain ⟨hb, hbs⟩ := forall_mem_cons.mp h
    simp only [map_cons, evalBranches, MatchBranch.map]
    cases env.bind [b.pat] [v] with
    | none => exact attains_evalBranches env args v hbs
    | some env' => exact hb env'

theorem attains_evalLet {monadic : Bool} {pat : TPat} {next : Texpr}
    {env : Env D X} (hnext : ∀ env, Attains bad l (next.eval I isCall L env [])
      fun i => next.eval I isCall (F i) env []) (v : Value X) :
    Attains bad l (evalLet I monadic pat (next.eval I isCall L) env [] v)
      fun i => evalLet I monadic pat (next.eval I isCall (F i)) env [] v := by
  have hbind : ∀ w, Attains bad l ((env.bind [pat] [w]).bind fun env => next.eval I isCall L env [])
      fun i => (env.bind [pat] [w]).bind fun env => next.eval I isCall (F i) env [] := by
    intro w
    cases env.bind [pat] [w] with
    | none => exact .const none
    | some env' => exact hnext env'
  cases monadic with
  | false => exact hbind v
  | true =>
    simp only [evalLet, if_true]
    cases v.result with
    | none => exact .const none
    | some r =>
      cases r with
      | error e => exact .const _
      | ok w => exact hbind w

theorem Texpr.eval_follows (hbad : PassedOn bad) (h : Follows bad l L F) (e : Texpr) :
    ((e.shape isCall).spine = true → ∀ env args, Attains bad l (e.eval I isCall L env args)
      fun i => e.eval I isCall (F i) env args) ∧
    (e.ready isCall = true → ∀ env, Attains bad l (e.eval I isCall L env [])
      fun i => e.eval I isCall (F i) env []) := by
  induction e using induct with
  | h e ty ih =>
    have hplain : e.IsPlain → ((mk e ty).shape isCall).spine = (mk e ty).callFree isCall ∧
        (mk e ty).ready isCall = (mk e ty).callFree isCall := by
      intro he
      simp only [callFree, ready, shape_plain he, CallShape.all, and_self]
    cases e with
    | qualif q =>
      exact ⟨fun _ env args => attains_evalQualif h q env.generics args,
        fun _ env => attains_evalQualif h q env.generics []⟩
    | fvar f | bvar v => exact ⟨fun _ _ _ => .const _, fun _ _ => .const _⟩
    | app f x =>
      have happ : ((f.shape isCall).spine && x.callFree isCall) = true → ∀ env args,
          Attains bad l ((mk (.app f x) ty).eval I isCall L env args)
            fun i => (mk (.app f x) ty).eval I isCall (F i) env args := by
        intro hs env args
        obtain ⟨hf, hx⟩ := Bool.and_eq_true_iff.mp hs
        have hx' : ∀ i, x.eval I isCall (F i) = x.eval I isCall L := fun i => x.eval_callFree _ _ hx
        simp only [eval_app, hx']
        cases x.eval I isCall L env [] with
        | none => exact .const none
        | some v => exact (ih (.none, f) (by simp)).1 hf env (v :: args)
      exact ⟨happ, fun hr env => happ hr env []⟩
    | letE monadic pat bound next =>
      refine ⟨fun hs env args => attains_callFree (e := .mk (.letE monadic pat bound next) ty) hs env args,
        fun hr env => ?_⟩
      obtain ⟨hb, hn⟩ := Bool.and_eq_true_iff.mp hr
      have hnext := (ih (.one pat, next) (by simp)).2 hn
      simp only [eval_letE]
      cases monadic with
      | true =>
        refine Attains.bind ((ih (.none, bound) (by simp)).2 hb env) ?_ (attains_evalLet hnext)
        intro v w hv hw
        obtain ⟨e, he, hfail⟩ := hbad v hv
        obtain rfl : .fail e = w := by simpa [evalLet, he, Interp.applyTo] using hw
        exact hfail
      | false =>
        have hb' : ∀ i, bound.eval I isCall (F i) = bound.eval I isCall L := fun i => bound.eval_callFree _ _ hb
        simp only [hb']
        cases bound.eval I isCall L env [] with
        | none => exact .const none
        | some v => exact attains_evalLet hnext v
    | switch scrut body =>
      refine ⟨fun hs env args => attains_callFree ?_ env args, fun hr env => ?_⟩
      · simpa only [callFree, shape_switch] using hs
      · simp only [ready, shape_switch, Bool.and_eq_true, all_eq_true] at hr
        have hscrut : ∀ i, scrut.eval I isCall (F i) = scrut.eval I isCall L := fun i => scrut.eval_callFree _ _ hr.1
        have hbody : ∀ c ∈ body.children, ∀ env, Attains bad l (c.2.eval I isCall L env [])
            fun i => c.2.eval I isCall (F i) env [] :=
          fun c hc => (ih c (mem_cons_of_mem _ hc)).2 (hr.2 c hc)
        simp only [eval_switch, hscrut]
        cases scrut.eval I isCall L env [] with
        | none => exact .const none
        | some v =>
          simp only [Option.bind_some]
          cases body with
          | ite thn els =>
            have hthn := hbody (.none, thn) (by simp [SwitchBody.children]) env
            have hels := hbody (.none, els) (by simp [SwitchBody.children]) env
            simp only [SwitchBody.map, evalSwitch]
            split
            · rename_i b
              cases b with
              | true => exact hthn
              | false => exact hels
            · exact .const none
          | matchE branches =>
            refine attains_evalBranches env [] v fun b hb => ?_
            exact hbody (.one b.pat, b.branch) (mem_map.mpr ⟨b, hb, rfl⟩)
    | _ =>
      obtain ⟨hspine, hready⟩ := hplain (by constructor)
      exact ⟨fun hs env args => attains_callFree (hspine ▸ hs) env args,
        fun hr env => attains_callFree (hready ▸ hr) env []⟩

end

end Aeneas.Pure
