import Aeneas.SimplifyLetBranchingSpec

/-!
# The scopes of the simplified let-bindings

The outputs which are picked occur in the branching, so they can be bound outside
of it if they do not use its binders. The binders stay distinct: an output which
moves out of the branching is not in it any more.
-/

namespace Aeneas.Pure

open Texpr List

namespace SimplifyLetBranching

/-! ## What is in a branching -/

section
variable {cfg : FuelConfig} {boundFVars : List FVarId} {tests : Tests}

structure TestIn (boundFVars : List FVarId) (e : Texpr) (p : FVarId × Texpr) : Prop where
  before : p.1 ∉ boundFVars
  within : ∃ ty, (mk (.fvar p.1) ty).Within e
  isOpened : p.2.isOpened = true
  binderIds : p.2.binderIds = []
  freeVars : ∀ f ∈ p.2.freeVars, f ∈ e.binderIds

variable {ty : Ty} {p : FVarId × Texpr}

theorem TestIn.child {e : Expr} {c : Scoped Texpr} (h : TestIn boundFVars c.2 p)
    (hc : c ∈ e.children) : TestIn boundFVars (.mk e ty) p := by
  obtain ⟨ty', hwithin⟩ := h.within
  refine ⟨h.before, ⟨ty', .child hc hwithin⟩, h.isOpened, h.binderIds, fun f hf => ?_⟩
  rw [binderIds_node (Expr.isNode_of_child hc)]
  exact mem_flatMap.mpr ⟨c, hc, mem_append_right _ (h.freeVars f hf)⟩

variable {scrut : Texpr}

theorem boundBeforeFVar_eq_some {id : FVarId} (h : boundBeforeFVar boundFVars scrut = some id) :
    id ∉ boundFVars ∧ ∃ ty, scrut = .mk (.fvar id) ty := by
  obtain ⟨scrut, ty⟩ := scrut
  unfold boundBeforeFVar at h
  split at h
  · rename_i id' hid
    split at h
    · cases h
    · rename_i hmem
      obtain rfl := Option.some.inj h
      exact ⟨by simpa using hmem, ty, congrArg (mk · ty) hid⟩
  · cases h

variable {e : Texpr}

theorem mem_valueTests (h : p ∈ valueTests boundFVars scrut e) :
    p.2 = e ∧ p.1 ∉ boundFVars ∧ ∃ ty, scrut = .mk (.fvar p.1) ty := by
  obtain ⟨id, hid, rfl⟩ := mem_map.mp h
  exact ⟨rfl, boundBeforeFVar_eq_some (by simpa using hid)⟩

theorem mem_patTests {pat : TPat} (h : p ∈ patTests cfg boundFVars scrut pat) :
    tpatToTexpr cfg pat = .ok (some p.2) ∧ p.1 ∉ boundFVars ∧ ∃ ty, scrut = .mk (.fvar p.1) ty := by
  unfold patTests at h
  split at h
  · rename_i hid hpat
    obtain rfl := mem_singleton.mp h
    exact ⟨hpat, boundBeforeFVar_eq_some hid⟩
  · cases h

theorem testIn_value {body : SwitchBody Texpr} {b : Bool}
    (h : p ∈ valueTests boundFVars scrut (.mk (.const (.bool b)) mkBoolTy)) :
    TestIn boundFVars (.mk (.switch scrut body) ty) p := by
  obtain ⟨id, x⟩ := p
  obtain ⟨rfl, hbefore, ty', rfl⟩ := mem_valueTests h
  exact ⟨hbefore, ⟨ty', .child (mem_cons_self ..) .refl⟩, rfl, rfl, by intro f hf; cases hf⟩

theorem testIn_pat {branches : List (MatchBranch Texpr)} {b : MatchBranch Texpr}
    (hb : b ∈ branches) (h : p ∈ patTests cfg boundFVars scrut b.pat) :
    TestIn boundFVars (.mk (.switch scrut (.matchE branches)) ty) p := by
  obtain ⟨id, x⟩ := p
  obtain ⟨hpat, hbefore, ty', rfl⟩ := mem_patTests h
  have hof := tpatToTexpr_ofPats hpat
  refine ⟨hbefore, ⟨ty', .child (mem_cons_self ..) .refl⟩, hof.isOpened, hof.binderIds, fun f hf => ?_⟩
  rw [binderIds_matchE]
  exact mem_append_right _ (mem_flatMap.mpr ⟨b, hb, mem_append_left _ (hof.freeVars f hf)⟩)

variable {t : Tests × Texpr}

theorem mem_tailsBranches : ∀ {branches : List (MatchBranch Texpr)},
    t ∈ tailsBranches cfg boundFVars tests scrut branches ↔
      ∃ b ∈ branches, t ∈ tails cfg boundFVars (patTests cfg boundFVars scrut b.pat ++ tests) b.branch
  | [] => by simp [tailsBranches]
  | ⟨pat, branch⟩ :: branches => by
    rw [tailsBranches, tailsBranch, mem_append, mem_tailsBranches]
    simp

structure TailIn (boundFVars : List FVarId) (tests : Tests) (e : Texpr) (t : Tests × Texpr) : Prop where
  within : t.2.Within e
  tests : ∀ p ∈ t.1, p ∈ tests ∨ TestIn boundFVars e p

theorem tailIn_refl (ht : t ∈ [(tests, e)]) : TailIn boundFVars tests e t := by
  obtain rfl := mem_singleton.mp ht
  exact ⟨.refl, fun p hp => .inl hp⟩

theorem TailIn.child {e : Expr} {c : Scoped Texpr} (added : Tests)
    (h : TailIn boundFVars (added ++ tests) c.2 t) (hc : c ∈ e.children)
    (hadded : ∀ p ∈ added, TestIn boundFVars (.mk e ty) p) : TailIn boundFVars tests (.mk e ty) t := by
  refine ⟨.child hc h.within, fun p hp => ?_⟩
  rcases h.tests p hp with hp | hp
  · exact (mem_append.mp hp).symm.imp_right (hadded p)
  · exact .inr (hp.child hc)

theorem tails_in (e : Texpr) : ∀ (tests : Tests), ∀ t ∈ tails cfg boundFVars tests e, TailIn boundFVars tests e t := by
  induction e using induct with
  | h e ty ih =>
    intro tests t ht
    cases e with
    | app f x =>
      rw [tails] at ht
      split at ht
      · have hc : (Group.none, x) ∈ (Expr.app f x).children := by simp [Expr.children]
        exact (ih _ hc tests t ht).child [] hc (by simp)
      · exact tailIn_refl ht
    | letE monadic pat bound next =>
      rw [tails] at ht
      have hc : (Group.one pat, next) ∈ (Expr.letE monadic pat bound next).children := by simp [Expr.children]
      exact (ih _ hc tests t ht).child [] hc (by simp)
    | switch scrut body =>
      cases body with
      | ite thn els =>
        rw [tails] at ht
        rcases mem_append.mp ht with ht | ht
        · have hc : (Group.none, thn) ∈ (Expr.switch scrut (.ite thn els)).children := by
            simp [Expr.children, SwitchBody.children]
          exact (ih _ hc _ t ht).child _ hc fun p => testIn_value
        · have hc : (Group.none, els) ∈ (Expr.switch scrut (.ite thn els)).children := by
            simp [Expr.children, SwitchBody.children]
          exact (ih _ hc _ t ht).child _ hc fun p => testIn_value
      | matchE branches =>
        rw [tails] at ht
        obtain ⟨b, hb, ht⟩ := mem_tailsBranches.mp ht
        have hc : (Group.one b.pat, b.branch) ∈ (Expr.switch scrut (.matchE branches)).children :=
          mem_cons_of_mem _ (mem_map.mpr ⟨b, hb, rfl⟩)
        exact (ih _ hc _ t ht).child _ hc fun p => testIn_pat hb
    | emeta m e =>
      rw [tails] at ht
      have hc : (Group.none, e) ∈ (Expr.emeta m e).children := by simp [Expr.children]
      exact (ih _ hc tests t ht).child [] hc (by simp)
    | _ =>
      simp only [tails] at ht
      exact tailIn_refl ht

theorem within_of_values {n : Nat} {x : Texpr} {args : List Texpr} (h : outcome n e = .values args) (hx : x ∈ args) :
    x.Within e := by
  obtain ⟨e, ty⟩ := e
  cases e with
  | app f a =>
    simp only [outcome, e] at h
    split at h
    · cases h
    · split at h
      · obtain rfl := Outcome.values.inj h
        exact (isApps_destructApps _).2.within.2 x hx
      · cases h
  | loop l => cases h
  | eError span message => cases h
  | _ =>
    obtain rfl := Outcome.values.inj h
    obtain rfl := mem_singleton.mp hx
    exact .refl

theorem SharedValue.within {numOuts i : Nat} {bound out : Texpr} (h : SharedValue numOuts cfg bound i out) :
    out.Within bound ∨ ∃ id ty, out = .mk (.fvar id) ty ∧ id ∉ bound.binderIds ∧ id ∈ bound.freeVars := by
  obtain ⟨t, ht, hreturns⟩ := h.returns
  have hallows := h.allows t ht
  obtain ⟨hwithin, htests⟩ := tails_in bound [] t ht
  unfold Allows at hallows
  split at hallows
  · exact absurd ‹_› hreturns
  · rename_i args hargs
    obtain ⟨arg, harg, rfl | ⟨id, hid, rfl⟩⟩ := hallows
    · exact .inl (hwithin.trans (within_of_values hargs (mem_of_getElem? harg)))
    · have htest := (htests _ hid).resolve_left (by simp)
      obtain ⟨ty, hvar⟩ := htest.within
      refine .inr ⟨id, arg.ty, rfl, htest.before, (hvar.freeVars ?_).resolve_right htest.before⟩
      simp [freeVars_fvar]
  · cases hallows

end

/-! ## The components -/

section
variable {α : Type}

theorem mem_of_mem_kept {a : α} : ∀ {outputs : List (Option Texpr)} {l : List α}, a ∈ kept outputs l → a ∈ l
  | [], _, h | none :: _, [], h | some _ :: _, [], h => by simp [kept] at h
  | none :: outputs, b :: l, h => by
    rw [kept, mem_cons] at h
    exact mem_cons.mpr (h.imp_right mem_of_mem_kept)
  | some _ :: outputs, b :: l, h => by
    rw [kept] at h
    exact mem_cons_of_mem _ (mem_of_mem_kept h)

theorem mem_removed {x : α × Texpr} : ∀ {outputs : List (Option Texpr)} {l : List α},
    x ∈ removed outputs l ↔ ∃ i : Nat, outputs[i]? = some (some x.2) ∧ l[i]? = some x.1
  | [], _ | none :: _, [] | some _ :: _, [] => by simp [removed]
  | none :: outputs, b :: l => by
    rw [removed, mem_removed]
    constructor
    · rintro ⟨i, hi⟩
      exact ⟨i + 1, hi⟩
    · rintro ⟨i, hi⟩
      cases i with
      | zero => simp at hi
      | succ i => exact ⟨i, hi⟩
  | some out :: outputs, b :: l => by
    obtain ⟨a, o⟩ := x
    rw [removed, mem_cons, mem_removed]
    constructor
    · rintro (h | ⟨i, hi⟩)
      · cases h
        exact ⟨0, rfl, rfl⟩
      · exact ⟨i + 1, hi⟩
    · rintro ⟨i, hi⟩
      cases i with
      | zero =>
        simp only [getElem?_cons_zero, Option.some.injEq] at hi
        exact .inl (by rw [hi.1, hi.2])
      | succ i => exact .inr ⟨i, hi⟩

theorem sum_kept_removed (g : α → Nat) : ∀ {outputs : List (Option Texpr)} {l : List α}, outputs.length = l.length →
    ((kept outputs l).map g).sum + ((removed outputs l).map fun x => g x.1).sum = (l.map g).sum
  | [], [], _ => by simp [kept, removed]
  | none :: outputs, a :: l, h | some _ :: outputs, a :: l, h => by
    have ih := sum_kept_removed g (Nat.succ.inj h)
    simp only [kept, removed, map_cons, sum_cons]
    omega

theorem sum_removed_le {g : Texpr → Nat} {tests : Tests} (hg : ∀ {arg out}, IsEqual tests arg out → g out ≤ g arg) :
    ∀ {outputs : List (Option Texpr)} {args : List Texpr},
    (∀ (i : Nat) out, outputs[i]? = some (some out) → ∃ arg, args[i]? = some arg ∧ IsEqual tests arg out) →
    ((outputs.filterMap id).map g).sum ≤ ((removed outputs args).map fun x => g x.1).sum
  | [], _, _ => by simp
  | none :: outputs, args, h => by
    have ih := sum_removed_le hg fun i out hi => show ∃ arg, args.tail[i]? = some arg ∧ _ by
      simpa using h (i + 1) out hi
    cases args with
    | nil | cons a args => simpa [removed] using ih
  | some out :: outputs, [], h => by
    obtain ⟨arg, harg, -⟩ := h 0 out rfl
    cases harg
  | some out :: outputs, arg :: args, h => by
    have ih := sum_removed_le hg fun i out hi => h (i + 1) out hi
    obtain ⟨arg', harg, hequal⟩ := h 0 out rfl
    obtain rfl := Option.some.inj harg
    have hle := hg hequal
    have hcons : (some out :: outputs).filterMap id = out :: outputs.filterMap id := rfl
    simp only [hcons, removed, map_cons, sum_cons]
    omega

end

/-! ## The scopes after the update -/

section
variable {cfg : FuelConfig} {outputs : List (Option Texpr)} {newTy : Ty} {free : FVarId → Bool} {e e' : Texpr}

variable {branches branches' : List (MatchBranch Texpr)}

theorem forall₂_of_pats (hpats : branches'.map MatchBranch.pat = branches.map MatchBranch.pat) :
    List.Forall₂ (fun b b' => b'.pat = b.pat ∧ (b, b') ∈ branches.zip branches') branches branches' := by
  have hlen : branches'.length = branches.length := by simpa using congrArg length hpats
  refine forall₂_iff_get.mpr ⟨hlen.symm, fun i hi hi' => ⟨?_, ?_⟩⟩
  · have h := congrArg (fun l => l[i]?) hpats
    simpa [hi, hi'] using h
  · rw [mem_iff_getElem]
    exact ⟨i, by simp [hi, hi'], by simp⟩

theorem mem_zip_of_pats (hpats : branches'.map MatchBranch.pat = branches.map MatchBranch.pat) {b' : MatchBranch Texpr}
    (hb' : b' ∈ branches') :
    ∃ b ∈ branches, b.pat = b'.pat ∧ (b, b') ∈ branches.zip branches' := by
  obtain ⟨b, hb, hpat, hzip⟩ := exists_of_forall₂ (forall₂_of_pats hpats) hb'
  exact ⟨b, hb, hpat.symm, hzip⟩

theorem exists_updated_branch (hpats : branches'.map MatchBranch.pat = branches.map MatchBranch.pat)
    {b : MatchBranch Texpr} (hb : b ∈ branches) :
    ∃ b' ∈ branches', b'.pat = b.pat ∧ (b, b') ∈ branches.zip branches' := by
  obtain ⟨b', hb', hpat, hzip⟩ := exists_of_forall₂ (forall₂_of_pats hpats).flip hb
  exact ⟨b', hb', hpat, hzip⟩

theorem Updated.openedIn (h : Updated cfg outputs newTy e e') (hlen : outputs.length ≠ 1) : ∀ {ctx : Ctx},
    e.OpenedIn free ctx → e'.OpenedIn free ctx := by
  induction h with
  | value he hout => simp [hout] at hlen
  | exit hexit he' =>
    intro ctx h
    refine (isApps_mkApps he').openedIn.mpr ⟨⟨rfl, rfl⟩, ?_⟩
    simpa using ((openedIn_app ..).mp h).2
  | ok hok hx he' ih =>
    intro ctx h
    refine (isApps_mkApps he').openedIn.mpr ⟨⟨rfl, rfl⟩, ?_⟩
    simpa using ih ((openedIn_app ..).mp h).2
  | tuple hq hargs he houtcome hok he' =>
    intro ctx h
    exact openedIn_simplTuple he' fun x hx => (he.openedIn.mp h).2 x (mem_of_mem_kept hx)
  | letE hnext ih =>
    intro ctx h
    obtain ⟨hbound, hpat, hnext⟩ := (openedIn_letE ..).mp h
    exact (openedIn_letE ..).mpr ⟨hbound, hpat, ih hnext⟩
  | ite hthn hels iht ihe =>
    intro ctx h
    obtain ⟨hscrut, hthn, hels⟩ := (openedIn_ite ..).mp h
    exact (openedIn_ite ..).mpr ⟨hscrut, iht hthn, ihe hels⟩
  | matchE hpats hbranches ih =>
    intro ctx h
    obtain ⟨hscrut, hopened⟩ := (openedIn_matchE ..).mp h
    refine (openedIn_matchE ..).mpr ⟨hscrut, fun b' hb' => ?_⟩
    obtain ⟨b, hb, hpat, hzip⟩ := mem_zip_of_pats hpats hb'
    rw [← hpat]
    exact ⟨(hopened b hb).1, ih _ hzip (hopened b hb).2⟩
  | emeta he ih =>
    intro ctx h
    obtain ⟨hm, he⟩ := openedIn_emeta.mp h
    exact openedIn_emeta.mpr ⟨hm, ih he⟩
  | eError =>
    intro ctx h
    exact ⟨rfl, rfl⟩

/-- A weight adds up the weights of the parts of an expression. What is not updated has a weight of its own, and the
applications, the qualifiers and the variables weigh `unit` besides. -/
structure Weight where
  w : Texpr → Nat
  unit : Nat
  letW : TPat → Texpr → Nat
  scrutW : Texpr → Nat
  patW : TPat → Nat
  metaW : EMeta Texpr → Nat
  letE : ∀ {monadic pat bound next ty}, w (.mk (.letE monadic pat bound next) ty) = letW pat bound + w next
  ite : ∀ {scrut thn els ty}, w (.mk (.switch scrut (.ite thn els)) ty) = scrutW scrut + (w thn + w els)
  matchE : ∀ {scrut branches ty}, w (.mk (.switch scrut (.matchE branches)) ty) =
    scrutW scrut + (branches.map fun b => patW b.pat + w b.branch).sum
  emeta : ∀ {m e ty}, w (.mk (.emeta m e) ty) = metaW m + w e
  eError : ∀ {span message ty}, w (.mk (.eError span message) ty) = unit
  qualif : ∀ {q ty}, w (.mk (.qualif q) ty) = unit
  fvar : ∀ {id ty}, w (.mk (.fvar id) ty) = unit
  apps : ∀ {f args e}, IsApps f args e → w e = w f + (args.map fun x => w x + unit).sum
  unit_le : ∀ e, unit ≤ w e

def Weight.outs (W : Weight) (outputs : List (Option Texpr)) : Nat :=
  ((outputs.filterMap id).map fun out => W.w out + W.unit).sum

structure Drops (outs : Nat) (returns : Prop) (n n' : Nat) : Prop where
  le : n' ≤ n
  drops : returns → n' + outs ≤ n

theorem Drops.frame {outs n n' : Nat} {returns : Prop} (h : Drops outs returns n n') (k : Nat) :
    Drops outs returns (k + n) (k + n') := by
  refine ⟨Nat.add_le_add_left h.le k, fun hreturns => ?_⟩
  have := h.drops hreturns
  omega

theorem Drops.add {outs n n' m m' : Nat} {returns returns' : Prop} (h : Drops outs returns n n')
    (h' : Drops outs returns' m m') : Drops outs (returns ∨ returns') (n + m) (n' + m') := by
  have hle := h.le
  have hle' := h'.le
  refine ⟨by omega, fun hreturns => ?_⟩
  rcases hreturns with hreturns | hreturns
  · have := h.drops hreturns
    omega
  · have := h'.drops hreturns
    omega

section
variable (W : Weight)

theorem drops_branches {outs : Nat} {returns : MatchBranch Texpr → Prop} :
    ∀ {branches branches' : List (MatchBranch Texpr)},
    branches'.map MatchBranch.pat = branches.map MatchBranch.pat →
    (∀ b ∈ branches.zip branches', Drops outs (returns b.1) (W.w b.1.branch) (W.w b.2.branch)) →
    Drops outs (∃ b ∈ branches, returns b) (branches.map fun b => W.patW b.pat + W.w b.branch).sum
      (branches'.map fun b => W.patW b.pat + W.w b.branch).sum
  | [], [], _, _ => ⟨Nat.le_refl _, by simp⟩
  | [], _ :: _, hpats, _ | _ :: _, [], hpats, _ => by cases hpats
  | b :: branches, b' :: branches', hpats, h => by
    obtain ⟨hpat, hpats⟩ := cons.inj hpats
    obtain ⟨hb, hrest⟩ := forall_mem_cons.mp h
    simp only [map_cons, sum_cons, exists_mem_cons_iff]
    rw [hpat]
    exact (hb.frame (W.patW b.pat)).add (drops_branches hpats hrest)

theorem Weight.simplTuple {args : List Texpr} (h : mkSimplTupleTexpr cfg args = .ok e') :
    W.w e' ≤ W.unit + (args.map fun x => W.w x + W.unit).sum := by
  rcases isApps_simplTuple h with rfl | ⟨q, ty, happs⟩
  · simp only [map_cons, map_nil, sum_cons, sum_nil]
    omega
  · rw [W.apps happs, W.qualif]

theorem Updated.drops {boundFVars : List FVarId} (h : Updated cfg outputs newTy e e') (hlen : outputs.length ≠ 1) :
    ∀ {tests : Tests}, (∀ t ∈ tails cfg boundFVars tests e, ∀ (i : Nat) out, outputs[i]? = some (some out) →
      Allows outputs.length i t out) →
    Drops (W.outs outputs) (∃ t ∈ tails cfg boundFVars tests e, Returns outputs.length t) (W.w e) (W.w e') := by
  induction h with
  | value he hout =>
    intro tests
    simp [hout] at hlen
  | @exit x e' q ty ty' hexit he' =>
    intro tests hallows
    have hw : W.w e' = W.w (mk (.app (.mk (.qualif q) ty') x) ty) := by
      rw [W.apps (isApps_mkApps he'), W.apps (.cons ty (.nil _)), W.qualif, W.qualif]
    rw [tails, isResultOk_of_exit hexit, hw]
    exact ⟨Nat.le_refl _, by simp [Returns, outcome_exit _ hexit]⟩
  | @ok f x x' e' ty hok hx he' ih =>
    intro tests hallows
    rw [tails, if_pos hok] at hallows ⊢
    have h := (ih hallows).le
    have hf := W.unit_le f
    rw [W.apps (isApps_mkApps he'), W.apps (.cons ty (.nil _)), W.qualif]
    simp only [map_cons, map_nil, sum_cons, sum_nil]
    refine ⟨by omega, fun hreturns => ?_⟩
    have := (ih hallows).drops hreturns
    omega
  | @tuple f x e' q variantId ty ty' args hq hargs he houtcome hok he' =>
    intro tests hallows
    rw [tails, hok] at hallows ⊢
    have hsum := sum_kept_removed (fun x => W.w x + W.unit) hargs.symm
    have hequal : ∀ {arg out}, IsEqual tests arg out → W.w out + W.unit ≤ W.w arg + W.unit := by
      rintro arg out (rfl | ⟨id, -, rfl⟩)
      · exact Nat.le_refl _
      · exact Nat.add_le_add_right (W.fvar.trans_le (W.unit_le arg)) _
    have hremoved := sum_removed_le hequal fun i out hi => by
      have h := hallows _ (mem_singleton_self _) i out hi
      simpa only [Allows, houtcome] using h
    have hkept := W.simplTuple he'
    rw [W.apps he, W.qualif]
    refine ⟨by omega, fun _ => ?_⟩
    rw [Weight.outs]
    omega
  | @letE monadic pat bound next next' ty hnext ih =>
    intro tests hallows
    rw [tails] at hallows ⊢
    rw [mkOpenedLet, W.letE, W.letE]
    exact (ih hallows).frame _
  | @ite scrut thn els thn' els' ty hthn hels iht ihe =>
    intro tests hallows
    rw [tails] at hallows ⊢
    rw [W.ite, W.ite]
    rw [forall_mem_append] at hallows
    have h := ((iht hallows.1).add (ihe hallows.2)).frame (W.scrutW scrut)
    simpa only [mem_append, or_and_right, exists_or] using h
  | @matchE scrut branches branches' ty hpats hbranches ih =>
    intro tests hallows
    rw [tails] at hallows ⊢
    rw [W.matchE, W.matchE]
    let returns (b : MatchBranch Texpr) : Prop :=
      ∃ t ∈ tails cfg boundFVars (patTests cfg boundFVars scrut b.pat ++ tests) b.branch, Returns outputs.length t
    have hdrops : ∀ b ∈ branches.zip branches', Drops (W.outs outputs) (returns b.1) (W.w b.1.branch)
        (W.w b.2.branch) :=
      fun b hb => ih b hb fun t ht => hallows t (mem_tailsBranches.mpr ⟨b.1, (of_mem_zip hb).1, ht⟩)
    have h := (drops_branches W hpats hdrops).frame (W.scrutW scrut)
    refine ⟨h.le, fun hreturns => h.drops ?_⟩
    obtain ⟨t, ht, hreturns⟩ := hreturns
    obtain ⟨b, hb, ht⟩ := mem_tailsBranches.mp ht
    exact ⟨b, hb, t, ht, hreturns⟩
  | emeta he ih =>
    intro tests hallows
    rw [tails] at hallows ⊢
    rw [mkEMeta, W.emeta, W.emeta]
    exact (ih hallows).frame _
  | eError =>
    intro tests hallows
    simp only [tails] at hallows ⊢
    rw [W.eError, W.eError]
    exact ⟨Nat.le_refl _, by simp [Returns, outcome, Texpr.e]⟩

end

/-- The number of binders of a variable. -/
def binderWeight (f : FVarId) : Weight where
  w e := e.binderIds.count f
  unit := 0
  letW pat bound := bound.binderIds.count f + (tpatsIds [pat]).count f
  scrutW scrut := scrut.binderIds.count f
  patW pat := (tpatsIds [pat]).count f
  metaW m := (m.children.flatMap scopedBinderIds).count f
  letE := by simp [binderIds_letE, Nat.add_assoc]
  ite := by simp [binderIds_ite]
  matchE := by simp [binderIds_matchE, count_flatMap, Function.comp_def]
  emeta := by simp [binderIds_emeta]
  eError := by simp [binderIds, Expr.visit, collector]
  qualif := by simp [binderIds, Expr.visit, collector]
  fvar := by simp [binderIds_fvar]
  apps h := by simp [h.binderIds, count_flatMap, Function.comp_def]
  unit_le e := Nat.zero_le _

/-- The weight for which the visit ends. -/
def sizeWeight : Weight where
  w := weight
  unit := 1
  letW _ bound := 2 * weight bound + 1
  scrutW scrut := weight scrut + 1
  patW _ := 0
  metaW m := (m.children.map fun c => weight c.2).sum + 1
  letE := by simp +arith [weight_letE]
  ite := by simp +arith [weight_node, Expr.children, SwitchBody.children]
  matchE := by simp +arith [weight_node, Expr.children, SwitchBody.children, Function.comp_def]
  emeta := by simp +arith [weight_node, Expr.children]
  eError := by simp [weight_node, Expr.children]
  qualif := by simp [weight_node, Expr.children]
  fvar := by simp [weight_node, Expr.children]
  apps := weight_apps
  unit_le := weight_pos

def outputsBinderIds (outputs : List (Option Texpr)) : List FVarId := (outputs.filterMap id).flatMap binderIds

theorem binderWeight_outs (f : FVarId) (outputs : List (Option Texpr)) :
    (binderWeight f).outs outputs = (outputsBinderIds outputs).count f := by
  simp [Weight.outs, binderWeight, outputsBinderIds, count_flatMap, Function.comp_def]

end

/-! ## The let-bindings of the outputs -/

section
variable {outputs : List (Option Texpr)} {monadic : Bool} {lets : List (TPat × Texpr)} {next : Texpr}

theorem map_snd_removed {α : Type} : ∀ {outputs : List (Option Texpr)} {l : List α}, outputs.length = l.length →
    (removed outputs l).map Prod.snd = outputs.filterMap id
  | [], [], _ => rfl
  | none :: outputs, _ :: l, h => by
    rw [removed, map_snd_removed (Nat.succ.inj h)]
    rfl
  | some out :: outputs, _ :: l, h => by
    rw [removed, map_cons, map_snd_removed (Nat.succ.inj h)]
    rfl

theorem count_pats {pats : List TPat} (hlen : outputs.length = pats.length) (f : FVarId) :
    (tpatsIds [mkSimplTuplePat (kept outputs pats)]).count f +
      ((removed outputs pats).flatMap fun x => tpatsIds [x.1]).count f = (tpatsIds pats).count f := by
  rw [tpatsIds_mkSimplTuplePat, tpatsIds_eq_flatMap (kept outputs pats), tpatsIds_eq_flatMap pats]
  simp only [count_flatMap]
  exact sum_kept_removed (fun p => (tpatsIds [p]).count f) hlen

end

/-! ## The simplified let-binding -/

section
variable [Ord Texpr]

/-- The outputs which are picked do not use the binders of the branching. -/
def Hoistable (cfg : FuelConfig) (numOuts : Nat) (bound : Texpr) : Prop :=
  ∀ i < numOuts, ∀ out, IsFirst (SharedValue numOuts cfg bound i) out → ∀ f ∈ out.freeVars, f ∉ bound.binderIds

variable {cfg : FuelConfig} {monadic : Bool} {pats : List TPat} {bound next : Texpr} {r : TPat × Texpr × Texpr}
  {outputs : List (Option Texpr)} {numOuts : Nat} {ctx : Ctx} {out : Texpr}

theorem Picked.shared (h : Picked cfg numOuts bound outputs) (hout : some out ∈ outputs) :
    ∃ i < numOuts, IsFirst (SharedValue numOuts cfg bound i) out := by
  obtain ⟨i, hi⟩ := mem_iff_getElem?.mp hout
  exact ⟨i, (h.first i out).mp hi⟩

theorem Picked.allows (h : Picked cfg numOuts bound outputs) : ∀ t ∈ tails cfg bound.binderIds [] bound,
    ∀ (i : Nat) out, outputs[i]? = some (some out) → Allows outputs.length i t out := by
  intro t ht i out hi
  rw [h.length]
  exact ((h.first i out).mp hi).2.1.allows t ht

theorem Picked.returns (h : Picked cfg numOuts bound outputs) (hout : some out ∈ outputs) :
    ∃ t ∈ tails cfg bound.binderIds [] bound, Returns outputs.length t := by
  obtain ⟨i, -, hfirst⟩ := h.shared hout
  rw [h.length]
  exact hfirst.1.returns

theorem Picked.openedIn (h : Picked cfg numOuts bound outputs) (hoist : Hoistable cfg numOuts bound)
    {free : FVarId → Bool} (hbound : bound.OpenedIn free ctx) (hout : some out ∈ outputs) :
    out.OpenedIn free ctx := by
  obtain ⟨i, hi, hfirst⟩ := h.shared hout
  obtain ⟨hopened, hfree⟩ := bound.openedIn_iff.mp hbound
  rw [out.openedIn_iff]
  rcases hfirst.1.within with hwithin | ⟨id, ty, rfl, hbefore, hid⟩
  · refine ⟨hwithin.isOpened hopened, fun f hf => hfree f ?_⟩
    exact (hwithin.freeVars hf).resolve_right (hoist i hi out hfirst f hf)
  · refine ⟨rfl, fun f hf => ?_⟩
    obtain rfl := mem_singleton.mp (freeVars_fvar id ty ▸ hf)
    exact hfree f hid

theorem Picked.hoisted (h : Picked cfg numOuts bound outputs) (hoist : Hoistable cfg numOuts bound)
    (hout : some out ∈ outputs) : ∀ f ∈ out.freeVars, f ∉ bound.binderIds := by
  obtain ⟨i, hi, hfirst⟩ := h.shared hout
  exact hoist i hi out hfirst

theorem Picked.nodup (h : Picked cfg numOuts bound outputs) (hbound : bound.binderIds.Nodup)
    (hout : some out ∈ outputs) : out.binderIds.Nodup := by
  obtain ⟨i, hi, hfirst⟩ := h.shared hout
  rcases hfirst.1.within with hwithin | ⟨id, ty, rfl, -, -⟩
  · exact hwithin.nodup hbound
  · simp [binderIds_fvar]

variable {bound' : Texpr} {newTy : Ty}

theorem Picked.weight_drops (h : Picked cfg numOuts bound outputs) (hlen : numOuts ≠ 1)
    (hupdate : Updated cfg outputs newTy bound bound' ∨ bound' = bound ∧ ∀ out, some out ∉ outputs) (W : Weight) :
    W.w bound' + W.outs outputs ≤ W.w bound := by
  have hnone : (∀ out, some out ∉ outputs) → W.outs outputs = 0 := by
    intro hnone
    rw [Weight.outs, filterMap_eq_nil_iff.mpr fun out hout => ?_]
    · rfl
    · cases out with
      | none => rfl
      | some out => exact absurd hout (hnone out)
  rcases hupdate with hupdate | ⟨rfl, hout⟩
  · have hdrops := hupdate.drops W (by rwa [h.length]) h.allows
    by_cases hout : ∀ out, some out ∉ outputs
    · rw [hnone hout]
      exact hdrops.le
    · simp only [not_forall, not_not] at hout
      obtain ⟨out, hout⟩ := hout
      exact hdrops.drops (h.returns hout)
  · rw [hnone hout, Nat.add_zero]

theorem Picked.drops (h : Picked cfg numOuts bound outputs) (hlen : numOuts ≠ 1)
    (hupdate : Updated cfg outputs newTy bound bound' ∨ bound' = bound ∧ ∀ out, some out ∉ outputs) (f : FVarId) :
    bound'.binderIds.count f + (outputsBinderIds outputs).count f ≤ bound.binderIds.count f := by
  have hdrops := h.weight_drops hlen hupdate (binderWeight f)
  rwa [binderWeight_outs] at hdrops

variable {variantId : Option VariantId} {patTy ty : Ty}

theorem Picked.count (h : Picked cfg pats.length bound outputs) (hlen : pats.length ≠ 1)
    (hupdate : Updated cfg outputs newTy bound bound' ∨ bound' = bound ∧ ∀ out, some out ∉ outputs) (f : FVarId) :
    (Texpr.mk (.letE monadic (mkSimplTuplePat (kept outputs pats)) bound'
      (mkOpenedLets false (removed outputs pats) next)) ty).binderIds.count f ≤
      (Texpr.mk (.letE monadic (.mk (.adt variantId pats) patTy) bound next) ty).binderIds.count f := by
  have hdrops := h.drops hlen hupdate f
  have hpats := count_pats h.length f
  rw [outputsBinderIds, ← map_snd_removed h.length] at hdrops
  simp only [binderIds_letE, count_append, count_mkOpenedLets, tpatsIds_adt]
  omega

variable [Std.TransOrd Texpr] [Std.LawfulEqOrd Texpr]

theorem simplifyAux_ok (h : simplifyAux cfg monadic pats bound next = .ok r) : ∃ outputs bound',
    Picked cfg pats.length bound outputs ∧
      r = (mkSimplTuplePat (kept outputs pats), bound', mkOpenedLets false (removed outputs pats) next) ∧
      (Updated cfg outputs (mkNewTy monadic outputs) bound bound' ∨ bound' = bound ∧ ∀ out, some out ∉ outputs) := by
  obtain ⟨outputs, houtputs, h⟩ := bind_eq_ok.mp h
  obtain ⟨bound', hbound, h⟩ := bind_eq_ok.mp h
  obtain rfl := Except.ok.inj h
  refine ⟨outputs, bound', chooseOutputs_ok houtputs, rfl, ?_⟩
  unfold updateBound at hbound
  split at hbound
  · exact .inl (update_updated bound bound' hbound)
  · rename_i hany
    refine .inr ⟨(Except.ok.inj hbound).symm, fun out hout => hany ?_⟩
    exact any_eq_true.mpr ⟨some out, hout, rfl⟩

theorem simplifyAux_separated
    (hsep : (mk (.letE monadic (.mk (.adt variantId pats) patTy) bound next) ty).Separated ctx)
    (hlen : pats.length ≠ 1) (h : simplifyAux cfg monadic pats bound next = .ok r)
    (hoist : Hoistable cfg pats.length bound) :
    (mk (.letE monadic r.1 r.2.1 r.2.2) ty).Separated ctx ∧
      ∀ f, (mk (.letE monadic r.1 r.2.1 r.2.2) ty).binderIds.count f ≤
        (mk (.letE monadic (.mk (.adt variantId pats) patTy) bound next) ty).binderIds.count f := by
  obtain ⟨outputs, bound', hpicked, rfl, hupdate⟩ := simplifyAux_ok h
  obtain ⟨hbound, hpat, hnext⟩ := (openedIn_letE ..).mp hsep.wellScoped.opened
  rw [tpatsBound_adt, tpatsBound_eq_nil_iff] at hpat
  have hout : ∀ out, some out ∈ outputs → out.OpenedIn (fun _ => false) ctx :=
    fun out hout => hpicked.openedIn hoist hbound hout
  refine ⟨hsep.of_count ((Texpr.openedIn_letE ..).mpr ⟨?_, ?_, ?_⟩) (hpicked.count hlen hupdate),
    hpicked.count hlen hupdate⟩
  · rcases hupdate with hupdate | ⟨rfl, -⟩
    · exact hupdate.openedIn (by rwa [hpicked.length]) hbound
    · exact hbound
  · rw [tpatsBound_mkSimplTuplePat, tpatsBound_eq_nil_iff]
    exact fun p hp => hpat p (mem_of_mem_kept hp)
  · refine mkOpenedLets_openedIn (fun x hx => ?_) hnext fun f hf => ?_
    · obtain ⟨i, hi, hp⟩ := mem_removed.mp hx
      exact ⟨hpat x.1 (mem_of_getElem? hp), openedIn_push _ (hout x.2 (mem_of_getElem? hi))⟩
    · have hpats := count_pats hpicked.length f
      simp only [Ctx.push, flatten_cons, mem_append, tpatsIds_adt] at hf ⊢
      simp only [← count_pos_iff] at hf ⊢
      omega

theorem hoistable_of_openedIn
    (hsep : (mk (.letE monadic (.mk (.adt variantId pats) patTy) bound next) ty).Separated ctx)
    (h : simplifyAux cfg monadic pats bound next = .ok r)
    (hopened : (mk (.letE monadic r.1 r.2.1 r.2.2) ty).OpenedIn (fun _ => false) ctx) :
    Hoistable cfg pats.length bound := by
  obtain ⟨outputs, bound', hpicked, rfl, -⟩ := simplifyAux_ok h
  obtain ⟨-, -, hnext⟩ := (openedIn_letE ..).mp hopened
  intro i hi out hfirst f hf hmem
  have hout : outputs[i]? = some (some out) := (hpicked.first i out).mpr ⟨hi, hfirst⟩
  have hremoved : (pats[i], out) ∈ removed outputs pats := mem_removed.mpr ⟨i, hout, getElem?_eq_getElem hi⟩
  have hscope := openedIn_mkOpenedLets hnext _ hremoved f hf
  have hpats := count_pats hpicked.length f
  have hnodup := nodup_iff_count_le_one.mp hsep.wellScoped.nodup f
  have hapart := hsep.apart f
  simp only [Ctx.push, flatten_cons, ← count_pos_iff, binderIds_letE, count_append, tpatsIds_adt,
    Bool.false_eq_true, false_or] at hscope hnodup hapart hmem
  omega

end

end SimplifyLetBranching

end Aeneas.Pure
