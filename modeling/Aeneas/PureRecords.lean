import Aeneas.PurePass

/-!
# Applications and structures

The laws which the meaning of the applications and of the structures satisfies:
a function takes its arguments one after the other, an update of an update keeps
the fields which the second one does not update, and a projection gives what a
field was updated with, or the field of the base. They are about what has a value.
-/

namespace Aeneas.Pure

open Option List

/-! ## Applications -/

section
variable {D X : Type} {I : Interp D X} {isCall : FunKey → Bool} {call : FunCalls D X}

structure Interp.Curried (I : Interp D X) (isCall : FunKey → Bool) (call : FunCalls D X) : Prop where
  qualif : ∀ {q d args w args' r}, evalQualif I isCall call q d args = some w → I.applyTo w args' = some r →
    evalQualif I isCall call q d (args ++ args') = some r
  apply : ∀ {v args w args' r}, I.applyTo v args = some w → I.applyTo w args' = some r →
    I.applyTo v (args ++ args') = some r

variable {args args' : List (Value X)} {w r : Value X}

theorem Interp.Curried.bind (h : I.Curried isCall call) {x : Option (Value X)}
    (hw : (x.bind fun v => I.applyTo v args) = some w) (hr : I.applyTo w args' = some r) :
    (x.bind fun v => I.applyTo v (args ++ args')) = some r := by
  obtain ⟨v, hv, hw⟩ := bind_eq_some_iff.mp hw
  exact bind_eq_some_iff.mpr ⟨v, hv, h.apply hw hr⟩

/-- The continuation of a let-binding or of a branching may be given more arguments. -/
def MoreArgs (I : Interp D X) (k : Eval D X) :
    Prop := ∀ {env args args' w r}, k env args = some w → I.applyTo w args' = some r →
  k env (args ++ args') = some r

theorem moreArgs_bind {k : Eval D X} (hk : MoreArgs I k) {x : Option (Env D X)}
    (hw : (x.bind fun env => k env args) = some w) (hr : I.applyTo w args' = some r) :
    (x.bind fun env => k env (args ++ args')) = some r := by
  obtain ⟨env, henv, hw⟩ := bind_eq_some_iff.mp hw
  exact bind_eq_some_iff.mpr ⟨env, henv, hk hw hr⟩

theorem evalLet_append (h : I.Curried isCall call) {k : Eval D X} (hk : MoreArgs I k) {monadic : Bool} {pat : TPat}
    {env : Env D X} {v : Value X} (hw : evalLet I monadic pat k env args v = some w)
    (hr : I.applyTo w args' = some r) : evalLet I monadic pat k env (args ++ args') v = some r := by
  cases monadic with
  | false => exact moreArgs_bind hk hw hr
  | true =>
    simp only [evalLet, if_true] at hw ⊢
    cases hv : v.result with
    | none => rw [hv] at hw; cases hw
    | some x =>
      rw [hv] at hw
      cases x with
      | ok u => exact moreArgs_bind hk hw hr
      | error e => exact h.apply hw hr

theorem evalBranches_append {env : Env D X} {v : Value X} (hr : I.applyTo w args' = some r) :
    ∀ {branches : List (MatchBranch (Eval D X))}, (∀ b ∈ branches, MoreArgs I b.branch) →
    evalBranches env args v branches = some w → evalBranches env (args ++ args') v branches = some r
  | [], _, hw => by cases hw
  | b :: branches, hk, hw => by
    obtain ⟨hb, hbranches⟩ := forall_mem_cons.mp hk
    unfold evalBranches at hw ⊢
    cases hbind : env.bind [b.pat] [v] with
    | none =>
      rw [hbind] at hw
      exact evalBranches_append hr hbranches hw
    | some env' =>
      rw [hbind] at hw
      exact hb hw hr

theorem Texpr.eval_append (h : I.Curried isCall call) (e : Texpr) : MoreArgs I (e.eval I isCall call) := by
  induction e using Texpr.induct with
  | h e ty ih =>
    intro env args args' w r hw hr
    cases e with
    | fvar f | bvar v | cvar id => exact h.bind hw hr
    | const l => exact h.apply hw hr
    | qualif q => exact h.qualif hw hr
    | app f x =>
      rw [eval_app] at hw ⊢
      obtain ⟨v, hv, hw⟩ := bind_eq_some_iff.mp hw
      exact bind_eq_some_iff.mpr ⟨v, hv, ih (.none, f) (by simp [Expr.children]) hw hr⟩
    | lambda pat inner => exact h.bind hw hr
    | letE monadic pat bound next =>
      rw [eval_letE] at hw ⊢
      obtain ⟨v, hv, hw⟩ := bind_eq_some_iff.mp hw
      exact bind_eq_some_iff.mpr ⟨v, hv, evalLet_append h (ih (.one pat, next) (by simp [Expr.children])) hw hr⟩
    | switch scrut body =>
      rw [eval_switch] at hw ⊢
      obtain ⟨v, hv, hw⟩ := bind_eq_some_iff.mp hw
      refine bind_eq_some_iff.mpr ⟨v, hv, ?_⟩
      cases body with
      | ite thn els =>
        have hthn : MoreArgs I (thn.eval I isCall call) :=
          ih (.none, thn) (by simp [Expr.children, SwitchBody.children])
        have hels : MoreArgs I (els.eval I isCall call) :=
          ih (.none, els) (by simp [Expr.children, SwitchBody.children])
        cases v with
        | lit l =>
          cases l with
          | bool b =>
            cases b with
            | true => exact hthn hw hr
            | false => exact hels hw hr
          | _ => cases hw
        | _ => cases hw
      | matchE branches =>
        refine evalBranches_append hr (fun b hb => ?_) hw
        obtain ⟨b', hb', rfl⟩ := mem_map.mp hb
        exact ih (.one b'.pat, b'.branch) (mem_cons_of_mem _ (mem_map.mpr ⟨b', hb', rfl⟩))
    | loop l =>
      rw [eval_loop] at hw ⊢
      obtain ⟨vs, hvs, hw⟩ := bind_eq_some_iff.mp hw
      exact bind_eq_some_iff.mpr ⟨vs, hvs, h.bind hw hr⟩
    | structUpdate s =>
      rw [eval_structUpdate] at hw ⊢
      obtain ⟨init, hinit, hw⟩ := bind_eq_some_iff.mp hw
      obtain ⟨updates, hupdates, hw⟩ := bind_eq_some_iff.mp hw
      exact bind_eq_some_iff.mpr ⟨init, hinit, bind_eq_some_iff.mpr ⟨updates, hupdates, h.bind hw hr⟩⟩
    | emeta m e =>
      rw [eval_emeta] at hw ⊢
      exact ih (.none, e) (by simp [Expr.children]) hw hr
    | eError span message => cases hw

end

/-! ## Structures -/

def isField {α : Type} (fid : FieldId) (u : FieldId × α) : Bool := u.1 == fid

def notUpdated {α β : Type} (us : List (FieldId × α)) (l : List (FieldId × β)) : List (FieldId × β) :=
  l.filter fun u => !(us.map Prod.fst).contains u.1

section
variable {D X : Type}

structure Interp.Records (I : Interp D X) : Prop where
  update : ∀ {d id init us us' v w}, I.struct d id init us = some v → I.struct d id (some v) us' = some w →
    I.struct d id init (notUpdated us' us ++ us') = some w
  proj_field : ∀ {d q p id init us u v args r}, q.id = .proj p → I.struct d id init us = some v →
    us.find? (isField p.fieldId) = some u → I.qualif d q (v :: args) = some r → I.applyTo u.2 args = some r
  proj_init : ∀ {d q p id v₀ us v args r}, q.id = .proj p → I.struct d id (some v₀) us = some v →
    us.find? (isField p.fieldId) = none → I.qualif d q (v :: args) = some r → I.qualif d q (v₀ :: args) = some r

variable {env : Env D X}

theorem evalUpdates_append : ∀ {l l' : List (FieldId × Eval D X)} {us us' : List (FieldId × Value X)},
    evalUpdates env l = some us → evalUpdates env l' = some us' → evalUpdates env (l ++ l') = some (us ++ us')
  | [], l', us, us', h, h' => by
    cases h
    exact h'
  | u :: l, l', us, us', h, h' => by
    obtain ⟨v, hv, h⟩ := bind_eq_some_iff.mp h
    obtain ⟨vs, hvs, h⟩ := bind_eq_some_iff.mp h
    cases h
    exact bind_eq_some_iff.mpr ⟨v, hv, bind_eq_some_iff.mpr ⟨_, evalUpdates_append hvs h', rfl⟩⟩

theorem evalUpdates_fst : ∀ {l : List (FieldId × Eval D X)} {us : List (FieldId × Value X)},
    evalUpdates env l = some us → us.map Prod.fst = l.map Prod.fst
  | [], us, h => by
    cases h
    rfl
  | u :: l, us, h => by
    obtain ⟨v, hv, h⟩ := bind_eq_some_iff.mp h
    obtain ⟨vs, hvs, h⟩ := bind_eq_some_iff.mp h
    cases h
    exact congrArg (u.1 :: ·) (evalUpdates_fst hvs)

theorem evalUpdates_filter (p : FieldId → Bool) : ∀ {l : List (FieldId × Eval D X)} {us : List (FieldId × Value X)},
    evalUpdates env l = some us → evalUpdates env (l.filter fun u => p u.1) = some (us.filter fun u => p u.1)
  | [], us, h => by
    cases h
    rfl
  | u :: l, us, h => by
    obtain ⟨v, hv, h⟩ := bind_eq_some_iff.mp h
    obtain ⟨vs, hvs, h⟩ := bind_eq_some_iff.mp h
    cases h
    have ih := evalUpdates_filter p hvs
    cases hp : p u.1 with
    | true =>
      simp only [filter_cons, hp, if_true]
      exact bind_eq_some_iff.mpr ⟨v, hv, bind_eq_some_iff.mpr ⟨_, ih, rfl⟩⟩
    | false =>
      simp only [filter_cons, hp, Bool.false_eq_true, if_false]
      exact ih

theorem evalUpdates_find (fid : FieldId) : ∀ {l : List (FieldId × Eval D X)} {us : List (FieldId × Value X)},
    evalUpdates env l = some us →
    (l.find? (isField fid) = none → us.find? (isField fid) = none) ∧
      ∀ u, l.find? (isField fid) = some u → ∃ w, us.find? (isField fid) = some w ∧ u.2 env [] = some w.2
  | [], us, h => by
    cases h
    exact ⟨fun _ => rfl, fun u hu => by cases hu⟩
  | u :: l, us, h => by
    obtain ⟨v, hv, h⟩ := bind_eq_some_iff.mp h
    obtain ⟨vs, hvs, h⟩ := bind_eq_some_iff.mp h
    cases h
    obtain ⟨hnone, hsome⟩ := evalUpdates_find fid hvs
    by_cases hu : isField fid u = true
    · have hu' : isField fid (u.1, v) = true := hu
      rw [find?_cons_of_pos hu, find?_cons_of_pos hu']
      refine ⟨fun h => (by cases h), fun x hx => ?_⟩
      cases hx
      exact ⟨_, rfl, hv⟩
    · have hu' : ¬ isField fid (u.1, v) = true := hu
      rw [find?_cons_of_neg hu, find?_cons_of_neg hu']
      exact ⟨hnone, hsome⟩

end

/-! ## Structures as lists of fields -/

section
variable {X : Type}

def recordField (init : Option (Value X)) (us : List (FieldId × Value X)) (fid : FieldId) : Option (Value X) :=
  match us.find? (isField fid) with
  | some u => some u.2
  | none =>
    match init with
    | some (.adt _ none fields) => fields[fid]?
    | _ => none

/-- The structures have `n` fields, and the only functions are the projections. -/
def recordInterp (n : Nat) : Interp Unit Empty where
  generics _ _ := ()
  qualif _ q args :=
    match q.id, args with
    | .proj p, [.adt _ none fields] => fields[p.fieldId]?
    | _, _ => none
  cvar _ _ := none
  apply _ _ := none
  lambda _ := none
  struct _ id init us := ((List.range n).mapM (recordField init us)).map (.adt id none)
  loop _ _ := none

variable {α : Type}

theorem getElem?_of_mapM {β : Type} {f : α → Option β} : ∀ {l : List α} {r : List β}, l.mapM f = some r →
    ∀ i : Nat, r[i]? = l[i]?.bind f
  | [], r, h, i => by
    cases h
    rfl
  | a :: l, r, h, i => by
    rw [mapM_cons] at h
    obtain ⟨b, hb, h⟩ := bind_eq_some_iff.mp h
    obtain ⟨bs, hbs, h⟩ := bind_eq_some_iff.mp h
    cases h
    cases i with
    | zero => exact hb.symm
    | succ i => exact getElem?_of_mapM hbs i

variable {n : Nat} {v : Value Empty}

theorem recordInterp_struct {d : Unit} {id : TypeId} {init : Option (Value Empty)} {us : List (FieldId × Value Empty)}
    (h : (recordInterp n).struct d id init us = some v) :
    ∃ fields, v = .adt id none fields ∧ ∀ fid r, fields[fid]? = some r → recordField init us fid = some r := by
  obtain ⟨fields, hfields, rfl⟩ := map_eq_some_iff.mp h
  refine ⟨fields, rfl, fun fid r hr => ?_⟩
  rw [getElem?_of_mapM hfields fid] at hr
  obtain ⟨i, hi, hfield⟩ := bind_eq_some_iff.mp hr
  obtain ⟨hlt, rfl⟩ := List.getElem?_eq_some_iff.mp hi
  rwa [getElem_range hlt] at hfield

theorem recordInterp_proj {d : Unit} {q : Qualif} {p : Projection} {r : Value Empty} {args : List (Value Empty)}
    (hq : q.id = .proj p) (h : (recordInterp n).qualif d q (v :: args) = some r) :
    ∃ id fields, v = .adt id none fields ∧ args = [] ∧ fields[p.fieldId]? = some r := by
  simp only [recordInterp, hq] at h
  split at h
  · rename_i fields hproj hargs
    obtain rfl := QualifId.proj.inj hproj
    obtain ⟨rfl, rfl⟩ := List.cons.inj hargs
    exact ⟨_, fields, rfl, rfl, h⟩
  · cases h

theorem find_notUpdated (fid : FieldId) (us' : List (FieldId × α)) : ∀ us : List (FieldId × α),
    (notUpdated us' us ++ us').find? (isField fid) = (us'.find? (isField fid)).or (us.find? (isField fid))
  | [] => (or_none).symm
  | u :: us => by
    have ih := find_notUpdated fid us' us
    unfold notUpdated at ih ⊢
    rw [find?_cons, filter_cons]
    by_cases hmem : u.1 ∈ us'.map Prod.fst
    · rw [if_neg (by simpa using hmem), ih]
      by_cases hfid : isField fid u = true
      · -- the field is updated afterwards
        have hsome : (us'.find? (isField fid)).isSome = true := by
          obtain ⟨u', hu', hfst⟩ := mem_map.mp hmem
          refine find?_isSome.mpr ⟨u', hu', ?_⟩
          unfold isField at hfid ⊢
          rwa [hfst]
        rw [or_of_isSome hsome, or_of_isSome hsome]
      · rw [Bool.eq_false_of_not_eq_true hfid]
    · rw [if_pos (by simpa using hmem), cons_append, find?_cons]
      by_cases hfid : isField fid u = true
      · have hnone : us'.find? (isField fid) = none := by
          refine find?_eq_none.mpr fun u' hu' hfid' => hmem (mem_map.mpr ⟨u', hu', ?_⟩)
          exact (eq_of_beq hfid').trans (eq_of_beq hfid).symm
        rw [hfid, hnone, none_or]
      · rw [Bool.eq_false_of_not_eq_true hfid]
        exact ih

theorem recordInterp_records (n : Nat) : (recordInterp n).Records where
  update {d id init us us' v w} hv hw := by
    obtain ⟨fields, hfields, rfl⟩ := map_eq_some_iff.mp hv
    rw [← hw]
    refine congrArg (Option.map _) (mapM_congr fun fid hfid => ?_)
    unfold recordField
    rw [find_notUpdated]
    cases us'.find? (isField fid) with
    | some u => rfl
    | none =>
      rw [none_or]
      simp only [getElem?_of_mapM hfields fid]
      rw [getElem?_range (mem_range.mp hfid)]
      rfl
  proj_field {d q p id init us u v args r} hq hv hu hr := by
    obtain ⟨id', fields, rfl, rfl, hfield⟩ := recordInterp_proj hq hr
    obtain ⟨fields', heq, hfields⟩ := recordInterp_struct hv
    cases heq
    have := hfields _ _ hfield
    unfold recordField at this
    rw [hu] at this
    exact this
  proj_init {d q p id v₀ us v args r} hq hv hu hr := by
    obtain ⟨id', fields, rfl, rfl, hfield⟩ := recordInterp_proj hq hr
    obtain ⟨fields', heq, hfields⟩ := recordInterp_struct hv
    cases heq
    have := hfields _ _ hfield
    unfold recordField at this
    rw [hu] at this
    simp only [recordInterp, hq]
    match v₀, this with
    | .adt _ none fields, hr => exact hr

theorem recordInterp_respects (n : Nat) : (recordInterp n).Respects refinedOutcome where
  lambda _ := refinedOutcome.refl _
  loop _ _ := refinedOutcome.refl _

theorem recordInterp_applyTo {r : Value Empty} :
    ∀ {args : List (Value Empty)}, (recordInterp n).applyTo v args = some r →
    args = [] ∧ r = v
  | [], h => ⟨rfl, (some.inj h).symm⟩

theorem recordInterp_curried (n : Nat) (isCall : FunKey → Bool) (call : FunCalls Unit Empty) :
    (recordInterp n).Curried isCall call where
  qualif h h' := by
    obtain ⟨rfl, rfl⟩ := recordInterp_applyTo h'
    rwa [append_nil]
  apply h h' := by
    obtain ⟨rfl, rfl⟩ := recordInterp_applyTo h'
    rwa [append_nil]

end

/-! ## Bodies -/

section
variable {D X : Type} (I : Interp D X) (isCall : FunKey → Bool)

/-- The body after the pass is closed, and it has the value of the first one if there is one. -/
structure RefinedBody (lawful : FunCalls D X → Prop) (fbody fbody' : FunBody) : Prop where
  closed : fbody'.IsClosed fun _ => false
  inputs : ∀ args : List (Value X), (matchTPats fbody'.inputs args).isSome = (matchTPats fbody.inputs args).isSome
  eval : ∀ (call : FunCalls D X), lawful call → ∀ d args r, fbody.eval I isCall call d args = some r →
    fbody'.eval I isCall call d args = some r

variable {I isCall}

theorem refinedBody_of_eval {lawful : FunCalls D X → Prop} {b : FunBody} {body' : Texpr} (hb : b.WellScoped)
    (hb' : FunBody.Unshadowed { b with body := body' })
    (h : ∀ call, lawful call → ∀ env r, b.body.eval I isCall call env [] = some r →
      body'.eval I isCall call env [] = some r) :
    RefinedBody I isCall lawful b.close (FunBody.close { b with body := body' }) := by
  refine ⟨hb'.isClosed, fun _ => rfl, fun call hcall d args r hr => ?_⟩
  rw [hb.eval_close] at hr
  rw [hb'.eval_close]
  obtain ⟨env, henv, hr⟩ := bind_eq_some_iff.mp hr
  exact bind_eq_some_iff.mpr ⟨env, henv, h call hcall env r hr⟩

end

end Aeneas.Pure
