import Aeneas.TypesAnalysisFacts

/-!
# The explorations of a group of declarations

An exploration which reports no update leaves everything as it was, up to the
silent updates of `contains_borrow`; after a first exploration there are no silent
updates any more.
-/

namespace Aeneas.Llbc

open List

/-! ## Runs of wanted facts -/

section
variable {outer : RegionId → Bool} {s : Known} {u : Bool} {w : Want} {ws ws' : List Want} {x : Fact}

theorem runWants_cons (outer : RegionId → Bool) (s : Known × Bool) (w : Want) (ws : List Want) :
    runWants outer s (w :: ws) = runWants outer (w.run outer s) ws := rfl

theorem add_self (s : Known) (x : Fact) : Known.add s x x = true := by simp [Known.add]

theorem add_of_known {y : Fact} (h : s x = true) : Known.add s y x = true := by simp [Known.add, h]

theorem add_eq_self (h : s x = true) : Known.add s x = s := by
  funext y
  by_cases hy : y = x
  · simp [Known.add, hy, h]
  · simp [Known.add, hy]

theorem add_eq_true {y : Fact} : Known.add s y x = true ↔ s x = true ∨ x = y := by simp [Known.add]

theorem run_mono (hx : ∀ rid, x ≠ .region rid) (h : s x = true) : ((w.run outer (s, u)).1) x = true := by
  cases w with
  | silent => exact add_of_known h
  | fact y =>
    cases y with
    | region rid =>
      by_cases hrid : s (.region rid) = true
      · rw [Want.run, addFact, if_pos hrid]
        cases x with
        | region rid' => exact absurd rfl (hx rid')
        | _ => exact h
      · rw [Want.run, addFact, if_neg hrid]
        exact add_of_known h
    | _ => exact add_of_known h

theorem run_wanted {x : Fact} : ((Want.fact x).run outer (s, u)).1 x = true ∨ ∃ rid, x = .region rid := by
  cases x with
  | region rid => exact .inr ⟨rid, rfl⟩
  | _ => exact .inl (add_self s _)

theorem run_only (houter : ∀ rid, outer rid = true → s (.region rid) = true) (h : (w.run outer (s, u)).1 x = true) :
    s x = true ∨ w = .fact x ∨ (x = .flag .borrow ∧ w = .silent) := by
  cases w with
  | silent =>
    rcases add_eq_true.mp h with h | rfl
    · exact .inl h
    · exact .inr (.inr ⟨rfl, rfl⟩)
  | fact y =>
    have hadd : Known.add s y x = true → s x = true ∨ Want.fact y = .fact x ∨
      (x = .flag .borrow ∧ Want.fact y = .silent) := by
      intro hadd
      rcases add_eq_true.mp hadd with h | rfl
      · exact .inl h
      · exact .inr (.inl rfl)
    cases y with
    | region rid =>
      by_cases hrid : s (.region rid) = true
      · rw [Want.run, addFact, if_pos hrid] at h
        cases x with
        | region rid' => exact .inl (houter rid' h)
        | _ => exact .inl h
      · rw [Want.run, addFact, if_neg hrid] at h
        exact hadd h
    | _ => exact hadd h

theorem run_updated (h : u = true) : (w.run outer (s, u)).2 = true := by
  subst h
  cases w with
  | silent => rfl
  | fact y =>
    cases y with
    | region rid => rw [Want.run, addFact]; split <;> rfl
    | _ => rfl

theorem runWants_mono (hx : ∀ rid, x ≠ .region rid) : ∀ (ws : List Want) {s : Known × Bool}, s.1 x = true →
    (runWants outer s ws).1 x = true
  | [], _, h => h
  | _ :: ws, _, h => runWants_mono hx ws (run_mono hx h)

theorem runWants_updated : ∀ (ws : List Want) {s : Known × Bool}, s.2 = true → (runWants outer s ws).2 = true
  | [], _, h => h
  | _ :: ws, _, h => runWants_updated ws (run_updated h)

theorem runWants_wanted (hx : ∀ rid, x ≠ .region rid) : ∀ (ws : List Want) {s : Known × Bool}, .fact x ∈ ws →
    (runWants outer s ws).1 x = true
  | [], _, h => by cases h
  | w :: ws, s, h => by
    rw [runWants_cons]
    rcases mem_cons.mp h with rfl | htail
    · rcases run_wanted (s := s.1) (u := s.2) (x := x) with hrun | ⟨rid, rfl⟩
      · exact runWants_mono hx ws hrun
      · exact absurd rfl (hx rid)
    · exact runWants_wanted hx ws htail

theorem runWants_silent : ∀ (ws : List Want) {s : Known × Bool}, .silent ∈ ws →
    (runWants outer s ws).1 (.flag .borrow) = true
  | [], _, h => by cases h
  | w :: ws, s, h => by
    rw [runWants_cons]
    rcases mem_cons.mp h with rfl | htail
    · exact runWants_mono (fun rid heq => by cases heq) ws (add_self s.1 (.flag .borrow))
    · exact runWants_silent ws htail

theorem run_outer (houter : ∀ rid, outer rid = true → s (.region rid) = true) (rid : RegionId)
    (hrid : outer rid = true) :
    (w.run outer (s, u)).1 (.region rid) = true := by
  cases w with
  | silent => exact add_of_known (houter rid hrid)
  | fact y =>
    cases y with
    | region rid' =>
      rw [Want.run, addFact]
      split
      · exact hrid
      · exact add_of_known (houter rid hrid)
    | _ => exact add_of_known (houter rid hrid)

theorem runWants_only : ∀ (ws : List Want) {s : Known × Bool}, (∀ rid, outer rid = true → s.1 (.region rid) = true) →
    (runWants outer s ws).1 x = true → s.1 x = true ∨ .fact x ∈ ws ∨ (x = .flag .borrow ∧ .silent ∈ ws)
  | [], _, _, h => .inl h
  | w :: ws, s, houter, h => by
    rcases runWants_only ws (run_outer houter) h with hstep | hws | ⟨rfl, hws⟩
    · rcases run_only houter hstep with hs | rfl | ⟨rfl, rfl⟩
      · exact .inl hs
      · exact .inr (.inl mem_cons_self)
      · exact .inr (.inr ⟨rfl, mem_cons_self⟩)
    · exact .inr (.inl (mem_cons_of_mem w hws))
    · exact .inr (.inr ⟨rfl, mem_cons_of_mem w hws⟩)

/-! ## Quiet runs -/

def Quiet (s : Known) : List Want → Prop
  | [] => True
  | .fact x :: ws => s x = true ∧ Quiet s ws
  | .silent :: ws => Quiet (s.add (.flag .borrow)) ws

def Known.silenced (s : Known) (ws : List Want) : Known := if .silent ∈ ws then s.add (.flag .borrow) else s

theorem silenced_cons_silent (s : Known) (ws : List Want) :
    (s.add (.flag .borrow)).silenced ws = s.silenced (.silent :: ws) := by
  unfold Known.silenced
  rw [if_pos mem_cons_self]
  split
  · exact add_eq_self (add_self s _)
  · rfl

theorem silenced_cons_fact (s : Known) (x : Fact) (ws : List Want) : s.silenced (.fact x :: ws) = s.silenced ws := by
  unfold Known.silenced
  simp only [mem_cons, reduceCtorEq, false_or]

theorem addFact_of_known (houter : ∀ rid, outer rid = s (.region rid)) (hx : s x = true) :
    addFact outer (s, u) x = (s, u) := by
  cases x with
  | region rid =>
    rw [addFact, if_pos hx]
    refine Prod.ext ?_ rfl
    funext y
    cases y with
    | region rid' => exact houter rid'
    | _ => rfl
  | _ => exact addFact_known hx (by simp)

theorem addFact_new (hx : s x = false) : (addFact outer (s, u) x).2 = true := by
  cases x with
  | _ => simp [addFact, hx]

theorem quiet_run : ∀ (ws : List Want) {s : Known}, (∀ rid, outer rid = s (.region rid)) → Quiet s ws →
    runWants outer (s, u) ws = (s.silenced ws, u)
  | [], s, _, _ => rfl
  | .fact x :: ws, s, houter, h => by
    rw [runWants_cons, Want.run, addFact_of_known houter h.1, quiet_run ws houter h.2, silenced_cons_fact]
  | .silent :: ws, s, houter, h => by
    rw [runWants_cons, Want.run, quiet_run ws (fun rid => by rw [houter rid]; simp [Known.add]) h, silenced_cons_silent]

theorem quiet_of_run : ∀ (ws : List Want) {s : Known}, (∀ rid, outer rid = s (.region rid)) →
    (runWants outer (s, u) ws).2 = false → Quiet s ws
  | [], _, _, _ => trivial
  | .fact x :: ws, s, houter, h => by
    cases hx : s x with
    | false =>
      rw [runWants_cons, Want.run, runWants_updated ws (addFact_new hx)] at h
      cases h
    | true =>
      rw [runWants_cons, Want.run, addFact_of_known houter hx] at h
      exact ⟨hx, quiet_of_run ws houter h⟩
  | .silent :: ws, s, houter, h =>
    quiet_of_run ws (fun rid => by rw [houter rid]; simp [Known.add]) h

theorem quiet_append : ∀ {ws : List Want} {s : Known}, Quiet s (ws ++ ws') ↔ Quiet s ws ∧ Quiet (s.silenced ws) ws'
  | [], s => by simp [Quiet, Known.silenced]
  | .fact x :: ws, s => by
    rw [cons_append, Quiet, Quiet, quiet_append, silenced_cons_fact, and_assoc]
  | .silent :: ws, s => by
    rw [cons_append, Quiet, Quiet, quiet_append, silenced_cons_silent]

theorem silenced_append (s : Known) (ws ws' : List Want) : (s.silenced ws).silenced ws' = s.silenced (ws ++ ws') := by
  unfold Known.silenced
  by_cases hws : Want.silent ∈ ws <;> by_cases hws' : Want.silent ∈ ws' <;>
    simp [hws, hws', add_eq_self (add_self s _)]

theorem Quiet.known : ∀ {ws : List Want} {s : Known}, Quiet s ws → .fact x ∈ ws → s.silenced ws x = true
  | .fact y :: ws, s, h, hx => by
    rw [silenced_cons_fact]
    rcases mem_cons.mp hx with heq | hx
    · obtain rfl : x = y := Want.fact.inj heq
      unfold Known.silenced
      split
      · exact add_of_known h.1
      · exact h.1
    · exact h.2.known hx
  | .silent :: ws, s, h, hx => by
    rw [← silenced_cons_silent]
    rcases mem_cons.mp hx with heq | hx
    · cases heq
    · exact Quiet.known h hx

end

/-! ## The fields of a declaration -/

def runField (s : Known × Bool) (ws : List Want) : Known × Bool := runWants (fun rid => s.1 (.region rid)) s ws

def runFields (s : Known × Bool) (wss : List (List Want)) : Known × Bool := wss.foldl runField s

def declKnown (info : TypeDeclInfo) : Known := (typeDeclInfoToPartialTypeInfo info).known

def declWants (infos : TypeInfos) (d : TypeDecl) : List (List Want) := d.fieldTys.map (wants infos explInfoInit)

section
variable {infos infos' : TypeInfos} {d : TypeDecl} {s : Known} {u u' : Bool} {x : Fact}

theorem runFields_mono (hx : ∀ rid, x ≠ .region rid) : ∀ (wss : List (List Want)) {s : Known × Bool}, s.1 x = true →
    (runFields s wss).1 x = true
  | [], _, h => h
  | ws :: wss, _, h => runFields_mono hx wss (runWants_mono hx ws h)

theorem runFields_updated : ∀ (wss : List (List Want)) {s : Known × Bool}, s.2 = true → (runFields s wss).2 = true
  | [], _, h => h
  | ws :: wss, _, h => runFields_updated wss (runWants_updated ws h)

theorem runFields_silent : ∀ (wss : List (List Want)) {s : Known × Bool}, .silent ∈ wss.flatten →
    (runFields s wss).1 (.flag .borrow) = true
  | [], _, h => by cases h
  | ws :: wss, s, h => by
    show (runFields (runField s ws) wss).1 _ = true
    rw [flatten_cons, mem_append] at h
    rcases h with h | h
    · exact runFields_mono (fun rid heq => by cases heq) wss (runWants_silent ws h)
    · exact runFields_silent wss h

theorem runFields_only : ∀ (wss : List (List Want)) {s : Known × Bool}, (runFields s wss).1 x = true →
    s.1 x = true ∨ .fact x ∈ wss.flatten ∨ (x = .flag .borrow ∧ .silent ∈ wss.flatten)
  | [], _, h => .inl h
  | ws :: wss, s, h => by
    rw [flatten_cons, mem_append, mem_append]
    rcases runFields_only wss h with hfield | hwss | ⟨rfl, hwss⟩
    · rcases runWants_only ws (fun _ hrid => hrid) hfield with hs | hws | ⟨rfl, hws⟩
      · exact .inl hs
      · exact .inr (.inl (.inl hws))
      · exact .inr (.inr ⟨rfl, .inl hws⟩)
    · exact .inr (.inl (.inr hwss))
    · exact .inr (.inr ⟨rfl, .inr hwss⟩)

theorem quiet_runFields : ∀ (wss : List (List Want)) {s : Known}, Quiet s wss.flatten →
    runFields (s, u) wss = (s.silenced wss.flatten, u)
  | [], _, _ => rfl
  | ws :: wss, s, h => by
    rw [flatten_cons, quiet_append] at h
    show runFields (runWants _ (s, u) ws) wss = _
    rw [quiet_run ws (fun _ => rfl) h.1, quiet_runFields wss h.2, silenced_append, flatten_cons]

theorem quiet_of_runFields : ∀ (wss : List (List Want)) {s : Known}, (runFields (s, u) wss).2 = false →
    Quiet s wss.flatten
  | [], _, _ => trivial
  | ws :: wss, s, h => by
    have hrun : runFields (runField (s, u) ws) wss = runFields (s, u) (ws :: wss) := rfl
    have hfield : (runField (s, u) ws).2 = false := by
      cases hu : (runField (s, u) ws).2 with
      | false => rfl
      | true => rw [← hrun, runFields_updated wss hu] at h; cases h
    have hquiet := quiet_of_run ws (fun _ => rfl) hfield
    rw [flatten_cons, quiet_append]
    refine ⟨hquiet, quiet_of_runFields wss ?_⟩
    rw [← h, ← hrun, runField, quiet_run ws (fun _ => rfl) hquiet]

theorem analyzeFields_ok : ∀ {tys : List Ty} {i i' : PartialTypeInfo} {u : Bool},
    analyzeFields infos i tys u = .ok (i', u') →
    (i'.known, u') = runFields (i.known, u) (tys.map (wants infos explInfoInit)) ∧
      i'.paramInfos.map length = i.paramInfos.map length ∧ i'.hasRegions = i.hasRegions
  | [], _, _, _, h => by
    cases h
    exact ⟨rfl, rfl, rfl⟩
  | ty :: tys, i, i', u, h => by
    obtain ⟨i₁, u₁, h₁, h₂⟩ := run_bind_eq_ok h
    have hsteps : Steps (fun rid => i.known (.region rid)) _ i u i₁ u₁ := steps_analyze (fun _ => rfl) ty h₁
    obtain ⟨hknown, hparams, hregions⟩ := analyzeFields_ok h₂
    refine ⟨?_, hparams.trans hsteps.params, hregions.trans hsteps.hasRegions⟩
    rw [hknown, hsteps.known]
    rfl

theorem fieldsTys_eq {tys : List Ty} (h : d.fieldsTys = .ok tys) : tys = d.fieldTys := by
  obtain ⟨defId, generics, kind⟩ := d
  cases kind with
  | struct fields | enum variants => exact (Except.ok.inj h).symm
  | _ => cases h

theorem fieldTys_opaqueDecl (h : typeDeclIsOpaque d = true) : d.fieldTys = [] := by
  obtain ⟨defId, generics, kind⟩ := d
  cases kind with
  | opaqueDecl => rfl
  | _ => cases h

structure DeclStep (infos : TypeInfos) (d : TypeDecl) (u : Bool) (info info' : TypeDeclInfo) (u' : Bool) : Prop where
  known : (declKnown info', u') = runFields (declKnown info, u) (declWants infos d)
  params : info'.paramInfos.length = info.paramInfos.length
  hasRegions : info'.hasRegions = info.hasRegions

theorem analyzeTypeDecl_ok (h : analyzeTypeDecl infos d u = .ok (infos', u')) :
    (typeDeclIsOpaque d = true ∧ infos' = infos ∧ u' = u) ∨
    (typeDeclIsOpaque d = false ∧ ∃ info info', infos[d.defId]? = some info ∧ infos' = infos.insert d.defId info' ∧
      DeclStep infos d u info info' u') := by
  unfold analyzeTypeDecl at h
  cases hopaqueKind : typeDeclIsOpaque d with
  | true =>
    rw [if_pos hopaqueKind] at h
    cases h
    exact .inl ⟨rfl, rfl, rfl⟩
  | false =>
    rw [if_neg (by simp [hopaqueKind])] at h
    obtain ⟨tys, u₁, h₁, h₂⟩ := run_bind_eq_ok h
    obtain ⟨htys, rfl⟩ := run_liftM h₁
    obtain ⟨info, u₂, h₃, h₄⟩ := run_bind_eq_ok h₂
    obtain ⟨hfind, rfl⟩ := run_liftM h₃
    obtain ⟨i, u₃, h₅, h₆⟩ := run_bind_eq_ok h₄
    obtain ⟨info', u₄, h₇, h₈⟩ := run_bind_eq_ok h₆
    obtain ⟨hpart, rfl⟩ := run_liftM h₇
    cases h₈
    obtain ⟨hknown, hparams, hregions⟩ := analyzeFields_ok h₅
    obtain ⟨b, params, hasRegions, m⟩ := i
    rw [fieldsTys_eq htys] at hknown
    cases params with
    | none => cases hpart
    | some ps =>
      cases hpart
      exact .inr ⟨rfl, info, _, find_eq_ok.mp hfind, rfl, hknown, Option.some.inj hparams, hregions⟩

end

/-! ## Quiet explorations -/

theorem info_ext {info info' : TypeDeclInfo} (hknown : declKnown info' = declKnown info)
    (hparams : info'.paramInfos.length = info.paramInfos.length) (hregions : info'.hasRegions = info.hasRegions) :
    info' = info := by
  obtain ⟨b, ps, r, m⟩ := info
  obtain ⟨b', ps', r', m'⟩ := info'
  have hfact : ∀ x, declKnown ⟨b', ps', r', m'⟩ x = declKnown ⟨b, ps, r, m⟩ x := fun x => congrFun hknown x
  obtain rfl : b' = b := TypeBorrowsInfo.ext_get fun f => hfact (.flag f)
  obtain rfl : m' = m := Std.ExtTreeSet.ext_mem fun rid => decide_eq_decide.mp (hfact (.region rid))
  obtain rfl : r' = r := hregions
  have hps : ps' = ps := by
    refine ext_getElem hparams fun i hi hi' => ?_
    have hunder := hfact (.under i)
    have hunderMut := hfact (.underMut i)
    simp only [declKnown, typeDeclInfoToPartialTypeInfo, GTypeInfo.known, Option.map_some, Option.getD_some,
      underBorrowAt,
      underMutBorrowAt, getElem?_eq_getElem hi, getElem?_eq_getElem hi'] at hunder hunderMut
    cases hp : ps'[i]
    cases hp' : ps[i]
    simp only [hp, hp'] at hunder hunderMut
    rw [hunder, hunderMut]
  rw [hps]

def silencedInfo (info : TypeDeclInfo) (ws : List Want) : TypeDeclInfo :=
  { info with borrowsInfo := { info.borrowsInfo with
      containsBorrow := info.borrowsInfo.containsBorrow || decide (.silent ∈ ws) } }

theorem declKnown_silencedInfo (info : TypeDeclInfo) (ws : List Want) :
    declKnown (silencedInfo info ws) = (declKnown info).silenced ws := by
  unfold Known.silenced silencedInfo
  funext x
  by_cases hws : Want.silent ∈ ws
  · rw [if_pos hws, decide_eq_true hws, Bool.or_true]
    cases x with
    | flag f =>
        cases f <;> simp [Known.add, declKnown, typeDeclInfoToPartialTypeInfo, GTypeInfo.known, TypeBorrowsInfo.get]
    | region rid => exact (Bool.or_false _).symm
    | _ => simp [Known.add, declKnown, typeDeclInfoToPartialTypeInfo, GTypeInfo.known]
  · rw [if_neg hws, decide_eq_false hws, Bool.or_false]

def silenceDecl (infos : TypeInfos) (d : TypeDecl) : TypeInfos :=
  (infos[d.defId]?).elim infos fun info => infos.insert d.defId (silencedInfo info (declWants infos d).flatten)

def silence (infos : TypeInfos) (defs : List TypeDecl) : TypeInfos := defs.foldl silenceDecl infos

/-- In an exploration of the declarations, every fact is known when it is wanted, but for the silent updates. -/
def QuietRound : TypeInfos → List TypeDecl → Prop
  | _, [] => True
  | infos, d :: defs => (∀ info, infos[d.defId]? = some info → Quiet (declKnown info) (declWants infos d).flatten) ∧
    QuietRound (silenceDecl infos d) defs

section
variable {infos infos' : TypeInfos} {d : TypeDecl} {defs : List TypeDecl} {u u' : Bool}

theorem insert_self_eq {id : TypeDeclId} {info : TypeDeclInfo} (h : infos[id]? = some info) :
    infos.insert id info = infos := by
  refine Std.ExtTreeMap.ext_getElem? fun {a} => ?_
  rw [getElem?_insert_eq]
  by_cases ha : id = a
  · rw [if_pos ha, ← ha, h]
  · rw [if_neg ha]

theorem silencedInfo_self {info : TypeDeclInfo} {ws : List Want}
    (h : .silent ∈ ws → info.borrowsInfo.containsBorrow = true) :
    silencedInfo info ws = info := by
  have hb : (info.borrowsInfo.containsBorrow || decide (.silent ∈ ws)) = info.borrowsInfo.containsBorrow := by
    by_cases hws : Want.silent ∈ ws
    · simp [h hws]
    · simp [hws]
  unfold silencedInfo
  rw [hb]

theorem silenceDecl_opaqueDecl (h : typeDeclIsOpaque d = true) : silenceDecl infos d = infos := by
  unfold silenceDecl declWants
  rw [fieldTys_opaqueDecl h]
  cases hinfo : infos[d.defId]? with
  | none => rfl
  | some info =>
    rw [Option.elim_some, silencedInfo_self (by simp)]
    exact insert_self_eq hinfo

theorem quiet_opaqueDecl {s : Known} (h : typeDeclIsOpaque d = true) : Quiet s (declWants infos d).flatten := by
  unfold declWants
  rw [fieldTys_opaqueDecl h]
  trivial

theorem analyzeTypeDecls_quiet : ∀ {defs : List TypeDecl} {infos infos' : TypeInfos} {u u' : Bool},
    analyzeTypeDecls infos defs u = .ok (infos', u') →
    (u' = false ↔ u = false ∧ QuietRound infos defs) ∧ (u' = false → infos' = silence infos defs)
  | [], _, _, _, _, h => by
    cases h
    simp [QuietRound, silence]
  | d :: defs, infos, infos', u, u', h => by
    obtain ⟨infos₁, u₁, h₁, h₂⟩ := run_bind_eq_ok h
    obtain ⟨hiff, heq⟩ := analyzeTypeDecls_quiet h₂
    -- the head reports nothing if it is quiet, and is then silenced
    have hhead : (u₁ = false ↔ u = false ∧
        ∀ info, infos[d.defId]? = some info → Quiet (declKnown info) (declWants infos d).flatten) ∧
        (u₁ = false → infos₁ = silenceDecl infos d) := by
      rcases analyzeTypeDecl_ok h₁ with ⟨hopaqueKind, rfl, rfl⟩ | ⟨-, info, info', hinfo, rfl, hstep⟩
      · refine ⟨⟨fun hu => ⟨hu, fun _ _ => quiet_opaqueDecl hopaqueKind⟩, And.left⟩, fun _ => ?_⟩
        exact (silenceDecl_opaqueDecl hopaqueKind).symm
      · have hu₁ : u₁ = (runFields (declKnown info, u) (declWants infos d)).2 := congrArg Prod.snd hstep.known
        have hquiet : u₁ = false → Quiet (declKnown info) (declWants infos d).flatten :=
          fun hu => quiet_of_runFields _ (hu₁.symm.trans hu)
        have hrun : Quiet (declKnown info) (declWants infos d).flatten →
            (declKnown info', u₁) = ((declKnown info).silenced (declWants infos d).flatten, u) :=
          fun hq => hstep.known.trans (quiet_runFields _ hq)
        refine ⟨⟨fun hu => ?_, fun hq => ?_⟩, fun hu => ?_⟩
        · refine ⟨?_, fun info₂ hinfo₂ => ?_⟩
          · rw [← hu]
            exact (congrArg Prod.snd (hrun (hquiet hu))).symm
          · obtain rfl : info = info₂ := Option.some.inj (hinfo.symm.trans hinfo₂)
            exact hquiet hu
        · rw [← hq.1]
          exact congrArg Prod.snd (hrun (hq.2 info hinfo))
        · have hinfo' : info' = silencedInfo info (declWants infos d).flatten :=
            info_ext ((congrArg Prod.fst (hrun (hquiet hu))).trans (declKnown_silencedInfo _ _).symm) hstep.params
              hstep.hasRegions
          unfold silenceDecl
          rw [hinfo, Option.elim_some, hinfo']
    constructor
    · rw [hiff]
      constructor
      · intro hq
        have hfirst := hhead.1.mp hq.1
        exact ⟨hfirst.1, hfirst.2, hhead.2 hq.1 ▸ hq.2⟩
      · intro hq
        have hu₁ := hhead.1.mpr ⟨hq.1, hq.2.1⟩
        exact ⟨hu₁, (hhead.2 hu₁).symm ▸ hq.2.2⟩
    · intro hu
      have hu₁ := (hiff.mp hu).1
      rw [heq hu, hhead.2 hu₁]
      rfl

end

/-! ## Wanted facts under similar information -/

theorem mem_borrowsWants {b : TypeBorrowsInfo} {w : Want} :
    w ∈ b.wants ↔ ∃ f, b.get f = true ∧ w = .fact (.flag f) := by
  simp only [TypeBorrowsInfo.wants, mem_map, mem_filter]
  constructor
  · intro h
    obtain ⟨f, ⟨-, hf⟩, rfl⟩ := h
    exact ⟨f, hf, rfl⟩
  · intro h
    obtain ⟨f, hf, rfl⟩ := h
    exact ⟨f, ⟨mem_allFlags f, hf⟩, rfl⟩

/-- The explorations with two informations, in contexts which are related, want `w` at the same places. -/
structure WantsAlike (w : Want) (C : SubtypeInfo → SubtypeInfo → Prop) (infos infos' : TypeInfos) : Prop where
  var : ∀ {e e'}, C e e' → ∀ i, w ∈ e.wants i ↔ w ∈ e'.wants i
  ref : ∀ {e e'}, C e e' → ∀ r kind, w ∈ refWants e r kind ↔ w ∈ refWants e' r kind
  enter : ∀ {e e'}, C e e' → ∀ kind, C (e.enter kind) (e'.enter kind)
  param : ∀ {e e' p p'}, C e e' → C p p' → (w ∈ (paramBorrowsInfo e p).wants ↔ w ∈ (paramBorrowsInfo e' p').wants)
  join : ∀ {e e' p p'}, C e e' → C p p' → C (e.join p) (e'.join p')
  adt : ∀ id : TypeDeclId, Option.Rel (fun a a' => (∀ rs, w ∈ adtWants a rs ↔ w ∈ adtWants a' rs) ∧
    (∀ j rs, w ∈ regionsWants a j rs ↔ w ∈ regionsWants a' j rs) ∧ List.Forall₂ C a.paramInfos a'.paramInfos)
    infos[id]? infos'[id]?

section
variable {w : Want} {C : SubtypeInfo → SubtypeInfo → Prop} {infos infos' : TypeInfos}

mutual

theorem mem_wants_alike (h : WantsAlike w C infos infos') :
    ∀ (ty : Ty) {e e' : ExplInfo}, C e e' → (w ∈ wants infos e ty ↔ w ∈ wants infos' e' ty)
  | .tVar (.free i), _, _, he => h.var he i
  | .tVar .bound, _, _, _ => Iff.rfl
  | .tRef r ty kind, _, _, he => by
    simp only [wants, mem_append, h.ref he, mem_wants_alike h ty (h.enter he kind)]
  | .tRawPtr ty, _, _, he | .tArray ty, _, _, he | .tSlice ty, _, _, he => mem_wants_alike h ty he
  | .tAdt _ (some _) ⟨_, types, _⟩, _, _, he => mem_wantsTys_alike h types he
  | .tAdt id none ⟨regions, types, _⟩, e, e', he => by
    have hadt := h.adt id
    unfold wants
    generalize infos[id]? = o at hadt
    generalize infos'[id]? = o' at hadt
    cases hadt with
    | none => exact Iff.rfl
    | some hrel =>
      simp only [mem_append, hrel.1, hrel.2.1, mem_wantsParams_alike h types he hrel.2.2]
  | .tFnPtr _ inputs output, _, _, he => by
    simp only [wants, mem_append, mem_wantsTys_alike h inputs he, mem_wants_alike h output he]
  | .tScalar, _, _, _ | .tNever, _, _, _ | .tTraitType _, _, _, _ | .tFnDef _ _, _, _, _ | .tDynTrait, _, _, _
  | .tError, _, _, _ | .unsupported, _, _, _ => Iff.rfl

theorem mem_wantsTys_alike (h : WantsAlike w C infos infos') : ∀ (tys : List Ty) {e e' : ExplInfo}, C e e' →
    (w ∈ wantsTys infos e tys ↔ w ∈ wantsTys infos' e' tys)
  | [], _, _, _ => Iff.rfl
  | ty :: tys, _, _, he => by
    simp only [wantsTys, mem_append, mem_wants_alike h ty he, mem_wantsTys_alike h tys he]

theorem mem_wantsParams_alike (h : WantsAlike w C infos infos') :
    ∀ (tys : List Ty) {e e' : ExplInfo} {ps ps' : List TypeParamInfo}, C e e' →
    List.Forall₂ C ps ps' → (w ∈ wantsParams infos e ps tys ↔ w ∈ wantsParams infos' e' ps' tys)
  | [], _, _, _, _, _, _ => Iff.rfl
  | ty :: tys, _, _, _, _, he, hps => by
    cases hps with
    | nil => exact Iff.rfl
    | cons hp hps =>
      simp only [wantsParams, mem_append, h.param he hp, mem_wants_alike h ty (h.join he hp),
        mem_wantsParams_alike h tys he hps]

end

theorem WantsAlike.mem_declWants (h : WantsAlike w C infos infos') (hinit : C explInfoInit explInfoInit)
    (d : TypeDecl) :
    w ∈ (declWants infos d).flatten ↔ w ∈ (declWants infos' d).flatten := by
  simp only [declWants, mem_flatten, mem_map, exists_exists_and_eq_and, mem_wants_alike h _ hinit]

end

theorem rel_imp {α β : Type} {R S : α → β → Prop} (h : ∀ a b, R a b → S a b) {o : Option α} {o' : Option β}
    (hrel : Option.Rel R o o') : Option.Rel S o o' := by
  cases hrel with
  | none => exact .none
  | some hab => exact .some (h _ _ hab)

def SameShape (infos infos' : TypeInfos) : Prop :=
  ∀ id : TypeDeclId, Option.Rel (fun a a' => a.paramInfos.length = a'.paramInfos.length ∧ a.hasRegions = a'.hasRegions)
    infos[id]? infos'[id]?

def SameButBorrow (infos infos' : TypeInfos) : Prop :=
  ∀ id : TypeDeclId, Option.Rel (fun a a' => a.paramInfos = a'.paramInfos ∧ a.hasRegions = a'.hasRegions ∧
    a.mutRegions = a'.mutRegions ∧ ∀ f, f ≠ .borrow → a.borrowsInfo.get f = a'.borrowsInfo.get f) infos[id]? infos'[id]?

section
variable {infos infos' infos'' : TypeInfos} {d : TypeDecl}

theorem silent_not_mem_borrowsWants (b : TypeBorrowsInfo) : .silent ∉ b.wants := by
  intro h
  obtain ⟨f, -, heq⟩ := mem_borrowsWants.mp h
  cases heq

theorem silent_not_mem_regionWants (r : Region) : .silent ∉ r.wants := by simp [Region.wants]

theorem silent_not_mem_regionsWants (a : TypeDeclInfo) :
    ∀ (j : RegionId) (rs : List Region), .silent ∉ regionsWants a j rs
  | _, [] => by simp [regionsWants]
  | j, r :: rs => by
    unfold regionsWants
    rw [mem_append, not_or]
    refine ⟨?_, silent_not_mem_regionsWants a (j + 1) rs⟩
    split
    · exact silent_not_mem_regionWants r
    · simp

theorem silent_not_mem_refWants (e : ExplInfo) (r : Region) (kind : RefKind) : .silent ∉ refWants e r kind := by
  unfold refWants
  rw [mem_append, not_or]
  refine ⟨silent_not_mem_borrowsWants _, ?_⟩
  split
  · exact silent_not_mem_regionWants r
  · simp

theorem silent_mem_adtWants (a : TypeDeclInfo) (rs : List Region) : .silent ∈ adtWants a rs ↔ a.hasRegions = true := by
  unfold adtWants
  rw [mem_append, mem_append, or_iff_right (silent_not_mem_borrowsWants _), or_iff_right]
  · split <;> simp_all
  · split <;> simp

theorem forall₂_true {α β : Type} :
    ∀ {l : List α} {l' : List β}, l.length = l'.length → List.Forall₂ (fun _ _ => True) l l'
  | [], [], _ => .nil
  | _ :: _, _ :: _, h => .cons trivial (forall₂_true (Nat.succ.inj h))

theorem SameShape.wantsAlike (h : SameShape infos infos') : WantsAlike .silent (fun _ _ => True) infos infos' where
  var := by
    intro e e' _ i
    simp [SubtypeInfo.wants]
  ref := fun _ r kind => iff_of_false (silent_not_mem_refWants _ r kind) (silent_not_mem_refWants _ r kind)
  enter := fun _ _ => trivial
  param := fun _ _ => iff_of_false (silent_not_mem_borrowsWants _) (silent_not_mem_borrowsWants _)
  join := fun _ _ => trivial
  adt := by
    intro id
    refine rel_imp (fun a a' hrel => ?_) (h id)
    refine ⟨fun rs => ?_, fun j rs => ?_, forall₂_true hrel.1⟩
    · rw [silent_mem_adtWants, silent_mem_adtWants, hrel.2]
    · exact iff_of_false (silent_not_mem_regionsWants a j rs) (silent_not_mem_regionsWants a' j rs)

theorem regionsWants_congr {a a' : TypeDeclInfo} (h : a.mutRegions = a'.mutRegions) :
    ∀ (j : RegionId) (rs : List Region),
    regionsWants a j rs = regionsWants a' j rs
  | _, [] => rfl
  | j, r :: rs => by rw [regionsWants, regionsWants, h, regionsWants_congr h (j + 1) rs]

theorem SameButBorrow.wantsAlike (h : SameButBorrow infos infos') {w : Want} (hw : w ≠ .fact (.flag .borrow)) :
    WantsAlike w Eq infos infos' where
  var := by
    rintro e _ rfl i
    exact Iff.rfl
  ref := by
    rintro e _ rfl r kind
    exact Iff.rfl
  enter := by
    rintro e _ rfl kind
    rfl
  param := by
    rintro e _ p _ rfl rfl
    exact Iff.rfl
  join := by
    rintro e _ p _ rfl rfl
    rfl
  adt := by
    intro id
    refine rel_imp (fun a a' hrel => ?_) (h id)
    obtain ⟨hparams, hregions, hmut, hflags⟩ := hrel
    refine ⟨fun rs => ?_, fun j rs => by rw [regionsWants_congr hmut], ?_⟩
    · unfold adtWants
      simp only [hregions, mem_append]
      refine or_congr_left ?_
      rw [mem_borrowsWants, mem_borrowsWants]
      refine exists_congr fun f => and_congr_left fun hf => ?_
      rw [hflags f fun hborrow => hw (by rw [hf, hborrow])]
    · rw [hparams]
      exact forall₂_same.mpr fun _ _ => rfl

theorem SameButBorrow.refl (infos : TypeInfos) : SameButBorrow infos infos := by
  intro id
  cases infos[id]? with
  | none => exact .none
  | some a => exact .some ⟨rfl, rfl, rfl, fun _ _ => rfl⟩

theorem SameButBorrow.trans (h : SameButBorrow infos infos') (h' : SameButBorrow infos' infos'') :
    SameButBorrow infos infos'' := by
  intro id
  have h₁ := h id
  have h₂ := h' id
  generalize infos[id]? = o₁ at h₁
  generalize infos'[id]? = o₂ at h₁ h₂
  generalize infos''[id]? = o₃ at h₂
  cases h₁ with
  | none =>
    cases h₂
    exact .none
  | some hrel =>
    cases h₂ with
    | some hrel' =>
      exact .some ⟨hrel.1.trans hrel'.1, hrel.2.1.trans hrel'.2.1, hrel.2.2.1.trans hrel'.2.2.1,
        fun f hf => (hrel.2.2.2 f hf).trans (hrel'.2.2.2 f hf)⟩

theorem SameButBorrow.known (h : SameButBorrow infos infos') {id : TypeDeclId} {info info' : TypeDeclInfo}
    (hinfo : infos[id]? = some info) (hinfo' : infos'[id]? = some info') {x : Fact} (hx : x ≠ .flag .borrow) :
    declKnown info x = declKnown info' x := by
  have hrel := h id
  rw [hinfo, hinfo'] at hrel
  cases hrel with
  | some hrel =>
    cases x with
    | flag f => exact hrel.2.2.2 f fun hf => hx (by rw [hf])
    | under i | underMut i => simp only [declKnown, typeDeclInfoToPartialTypeInfo, GTypeInfo.known, hrel.1]
    | region rid => exact decide_eq_decide.mpr (iff_of_eq (congrArg (rid ∈ ·) hrel.2.2.1))

theorem sameButBorrow_silenceDecl (infos : TypeInfos) (d : TypeDecl) : SameButBorrow infos (silenceDecl infos d) := by
  unfold silenceDecl
  cases hinfo : infos[d.defId]? with
  | none => exact .refl infos
  | some info =>
    intro id
    rw [Option.elim_some, getElem?_insert_eq]
    by_cases hid : d.defId = id
    · rw [if_pos hid, ← hid, hinfo]
      exact .some ⟨rfl, rfl, rfl, fun f hf => by cases f <;> first | rfl | exact absurd rfl hf⟩
    · rw [if_neg hid]
      exact SameButBorrow.refl infos id

theorem sameButBorrow_silence : ∀ (defs : List TypeDecl) (infos : TypeInfos), SameButBorrow infos (silence infos defs)
  | [], infos => .refl infos
  | d :: defs, infos => (sameButBorrow_silenceDecl infos d).trans (sameButBorrow_silence defs (silenceDecl infos d))

end

/-! ## The end of the explorations -/

def Stable (S : Fact → Prop) (infos : TypeInfos) (d : TypeDecl) : Prop :=
  ∀ info, infos[d.defId]? = some info → ∀ x, S x → .fact x ∈ (declWants infos d).flatten → declKnown info x = true

def Saturated (infos : TypeInfos) (defs : List TypeDecl) : Prop :=
  ∀ d ∈ defs, ∀ info, infos[d.defId]? = some info → .silent ∈ (declWants infos d).flatten →
    info.borrowsInfo.containsBorrow = true

section
variable {infos infos' : TypeInfos} {defs : List TypeDecl} {u u' : Bool}

theorem QuietRound.stable : ∀ {defs : List TypeDecl} {infos : TypeInfos}, QuietRound infos defs →
    ∀ d ∈ defs, Stable (· ≠ .flag .borrow) (silence infos defs) d
  | d :: defs, infos, h, d', hd', info', hinfo', x, hx, hwant => by
    rcases mem_cons.mp hd' with rfl | hd'
    · have hsame := sameButBorrow_silence (d' :: defs) infos
      have hrel := hsame d'.defId
      rw [hinfo'] at hrel
      generalize hinfo : infos[d'.defId]? = o at hrel
      cases hrel with
      | @some info _ _ =>
        rw [← hsame.known hinfo hinfo' hx]
        have hne : Want.fact x ≠ .fact (.flag .borrow) := fun heq => hx (Want.fact.inj heq)
        have hknown := (h.1 info hinfo).known (((hsame.wantsAlike hne).mem_declWants rfl d').mpr hwant)
        unfold Known.silenced at hknown
        split at hknown
        · rcases add_eq_true.mp hknown with hknown | hborrow
          · exact hknown
          · exact absurd hborrow hx
        · exact hknown
    · exact h.2.stable d' hd' info' hinfo' x hx hwant

theorem silenceDecl_saturated {d : TypeDecl} (h : Saturated infos (d :: defs)) : silenceDecl infos d = infos := by
  unfold silenceDecl
  cases hinfo : infos[d.defId]? with
  | none => rfl
  | some info =>
    rw [Option.elim_some, silencedInfo_self (h d mem_cons_self info hinfo)]
    exact insert_self_eq hinfo

theorem QuietRound.stable_all :
    ∀ {defs : List TypeDecl} {infos : TypeInfos}, QuietRound infos defs → Saturated infos defs →
    silence infos defs = infos ∧ ∀ d ∈ defs, Stable (fun _ => True) infos d
  | [], _, _, _ => ⟨rfl, fun d hd => by cases hd⟩
  | d :: defs, infos, h, hsat => by
    have hsame := silenceDecl_saturated hsat
    have htail : Saturated infos defs := fun d' hd' => hsat d' (mem_cons_of_mem d hd')
    have hquiet := h.2
    rw [hsame] at hquiet
    obtain ⟨heq, hstable⟩ := QuietRound.stable_all hquiet htail
    refine ⟨?_, fun d' hd' => ?_⟩
    · show silence (silenceDecl infos d) defs = infos
      rw [hsame, heq]
    · rcases mem_cons.mp hd' with rfl | hd'
      · intro info hinfo x _ hwant
        have hknown := (h.1 info hinfo).known hwant
        rwa [← declKnown_silencedInfo, silencedInfo_self (hsat d' mem_cons_self info hinfo)] at hknown
      · exact hstable d' hd'

def Grows (infos infos' : TypeInfos) : Prop :=
  ∀ id : TypeDeclId, Option.Rel (fun a a' => a.paramInfos.length = a'.paramInfos.length ∧ a.hasRegions = a'.hasRegions ∧
    ∀ x, (∀ rid, x ≠ .region rid) → declKnown a x = true → declKnown a' x = true) infos[id]? infos'[id]?

theorem Grows.refl (infos : TypeInfos) : Grows infos infos := by
  intro id
  cases infos[id]? with
  | none => exact .none
  | some a => exact .some ⟨rfl, rfl, fun _ _ hx => hx⟩

theorem Grows.trans {infos'' : TypeInfos} (h : Grows infos infos') (h' : Grows infos' infos'') :
    Grows infos infos'' := by
  intro id
  have h₁ := h id
  have h₂ := h' id
  generalize infos[id]? = o₁ at h₁
  generalize infos'[id]? = o₂ at h₁ h₂
  generalize infos''[id]? = o₃ at h₂
  cases h₁ with
  | none =>
    cases h₂
    exact .none
  | some hrel =>
    cases h₂ with
    | some hrel' =>
      exact .some ⟨hrel.1.trans hrel'.1, hrel.2.1.trans hrel'.2.1,
        fun x hx hknown => hrel'.2.2 x hx (hrel.2.2 x hx hknown)⟩

theorem Grows.sameShape (h : Grows infos infos') : SameShape infos infos' :=
  fun id => rel_imp (fun _ _ hrel => ⟨hrel.1, hrel.2.1⟩) (h id)

theorem Grows.known (h : Grows infos infos') {id : TypeDeclId} {info info' : TypeDeclInfo}
    (hinfo : infos[id]? = some info) (hinfo' : infos'[id]? = some info') {x : Fact} (hx : ∀ rid, x ≠ .region rid)
    (hknown : declKnown info x = true) :
    declKnown info' x = true := by
  have hrel := h id
  rw [hinfo, hinfo'] at hrel
  cases hrel with
  | some hrel => exact hrel.2.2 x hx hknown

theorem analyzeTypeDecl_grows {d : TypeDecl} (h : analyzeTypeDecl infos d u = .ok (infos', u')) :
    Grows infos infos' := by
  rcases analyzeTypeDecl_ok h with ⟨-, rfl, -⟩ | ⟨-, info, info', hinfo, rfl, hstep⟩
  · exact .refl infos'
  · intro id
    rw [getElem?_insert_eq]
    by_cases hid : d.defId = id
    · rw [if_pos hid, ← hid, hinfo]
      refine .some ⟨hstep.params.symm, hstep.hasRegions.symm, fun x hx hknown => ?_⟩
      have hknown' : declKnown info' = (runFields (declKnown info, u) (declWants infos d)).1 :=
        congrArg Prod.fst hstep.known
      rw [hknown']
      exact runFields_mono hx _ hknown
    · rw [if_neg hid]
      exact Grows.refl infos id

theorem analyzeTypeDecls_saturated : ∀ {defs : List TypeDecl} {infos infos' : TypeInfos} {u u' : Bool},
    analyzeTypeDecls infos defs u = .ok (infos', u') → Grows infos infos' ∧ Saturated infos' defs
  | [], _, _, _, _, h => by
    cases h
    exact ⟨.refl _, fun d hd => by cases hd⟩
  | d :: defs, infos, infos', u, u', h => by
    obtain ⟨infos₁, u₁, h₁, h₂⟩ := run_bind_eq_ok h
    have hfirst := analyzeTypeDecl_grows h₁
    obtain ⟨hgrows, hsat⟩ := analyzeTypeDecls_saturated h₂
    refine ⟨hfirst.trans hgrows, fun d' hd' => ?_⟩
    rcases mem_cons.mp hd' with rfl | hd'
    · intro info' hinfo' hsilent
      rw [← (hfirst.trans hgrows).sameShape.wantsAlike.mem_declWants trivial d'] at hsilent
      rcases analyzeTypeDecl_ok h₁ with ⟨hopaqueKind, -, -⟩ | ⟨-, info, info₁, -, rfl, hstep⟩
      · rw [declWants, fieldTys_opaqueDecl hopaqueKind] at hsilent
        cases hsilent
      · have hinfo₁ : (infos.insert d'.defId info₁)[d'.defId]? = some info₁ := by rw [getElem?_insert_eq, if_pos rfl]
        have hknown : declKnown info₁ = (runFields (declKnown info, u) (declWants infos d')).1 :=
          congrArg Prod.fst hstep.known
        refine hgrows.known (x := .flag .borrow) hinfo₁ hinfo' (fun rid heq => by cases heq) ?_
        rw [hknown]
        exact runFields_silent _ hsilent
    · exact hsat d' hd'

theorem analyzeRounds_ok : ∀ {n : Nat} {infos : TypeInfos}, analyzeRounds defs n infos = .ok infos' →
    Grows infos infos' ∧
    ((QuietRound infos defs ∧ infos' = silence infos defs) ∨
      (¬ QuietRound infos defs ∧ ∀ d ∈ defs, Stable (fun _ => True) infos' d))
  | 0, _, h => by cases h
  | n + 1, infos, h => by
    obtain ⟨⟨infos₁, u₁⟩, h₁, h₂⟩ := bind_eq_ok.mp h
    have hround : analyzeTypeDecls infos defs false = .ok (infos₁, u₁) := h₁
    obtain ⟨hquiet, hsilence⟩ := analyzeTypeDecls_quiet hround
    obtain ⟨hgrows, hsat⟩ := analyzeTypeDecls_saturated hround
    cases u₁ with
    | false =>
      cases h₂
      exact ⟨hgrows, .inl ⟨(hquiet.mp rfl).2, hsilence rfl⟩⟩
    | true =>
      have hnot : ¬ QuietRound infos defs := by
        intro hq
        cases hquiet.mpr ⟨rfl, hq⟩
      obtain ⟨hgrows', hend⟩ := analyzeRounds_ok (n := n) h₂
      refine ⟨hgrows.trans hgrows', .inr ⟨hnot, ?_⟩⟩
      rcases hend with ⟨hq, heq⟩ | ⟨-, hstable⟩
      · obtain ⟨hsame, hstable⟩ := hq.stable_all hsat
        rw [heq, hsame]
        exact hstable
      · exact hstable

theorem analyzeTypeDecls_frame {id : TypeDeclId} : ∀ {defs : List TypeDecl} {infos infos' : TypeInfos} {u u' : Bool},
    analyzeTypeDecls infos defs u = .ok (infos', u') → (∀ d ∈ defs, d.defId ≠ id) → infos'[id]? = infos[id]?
  | [], _, _, _, _, h, _ => by
    cases h
    rfl
  | d :: defs, infos, infos', u, u', h, hid => by
    obtain ⟨infos₁, u₁, h₁, h₂⟩ := run_bind_eq_ok h
    rw [analyzeTypeDecls_frame h₂ fun d' hd' => hid d' (mem_cons_of_mem d hd')]
    rcases analyzeTypeDecl_ok h₁ with ⟨-, rfl, -⟩ | ⟨-, info, info', -, rfl, -⟩
    · rfl
    · rw [getElem?_insert_eq, if_neg (hid d mem_cons_self)]

theorem analyzeRounds_frame {id : TypeDeclId} (hid : ∀ d ∈ defs, d.defId ≠ id) : ∀ {n : Nat} {infos : TypeInfos},
    analyzeRounds defs n infos = .ok infos' → infos'[id]? = infos[id]?
  | 0, _, h => by cases h
  | n + 1, infos, h => by
    obtain ⟨⟨infos₁, u₁⟩, h₁, h₂⟩ := bind_eq_ok.mp h
    have hround : analyzeTypeDecls infos defs false = .ok (infos₁, u₁) := h₁
    rw [← analyzeTypeDecls_frame hround hid]
    cases u₁ with
    | false =>
      cases h₂
      rfl
    | true => exact analyzeRounds_frame hid (n := n) h₂

end

/-! ## The start of the explorations -/

section
variable {cfg : AnalysisConfig} {crate : Crate}

theorem lookupDecls_ok : ∀ {ids : List TypeDeclId} {defs : List TypeDecl}, lookupDecls crate ids = .ok defs →
    List.Forall₂ (fun id d => crate.typeDecls[id]? = some d ∧ d.defId = id) ids defs := by
  intro ids defs h
  refine List.Forall₂.imp (fun id d hd => ?_) (mapM_eq_ok_iff.mp h)
  cases hid : crate.typeDecls[id]? with
  | none => rw [hid] at hd; cases hd
  | some d' =>
    rw [hid] at hd
    cases hd
    exact ⟨rfl, crate.defId_eq id d hid⟩

theorem initializeTypeDecls_frame {id : TypeDeclId} : ∀ {defs : List TypeDecl} {infos : TypeInfos},
    (∀ d ∈ defs, d.defId ≠ id) → (initializeTypeDecls cfg infos defs)[id]? = infos[id]?
  | [], _, _ => rfl
  | d :: defs, infos, h => by
    show (initializeTypeDecls cfg (infos.insert d.defId _) defs)[id]? = _
    rw [initializeTypeDecls_frame fun d' hd' => h d' (mem_cons_of_mem d hd'), getElem?_insert_eq,
      if_neg (h d mem_cons_self)]

theorem initializeTypeDecls_get : ∀ {defs : List TypeDecl} {infos : TypeInfos} {d : TypeDecl},
    (∀ d₁ ∈ defs, d₁.defId = d.defId → d₁ = d) → d ∈ defs →
    (initializeTypeDecls cfg infos defs)[d.defId]? = some (initializeTypeDeclInfo cfg d)
  | d' :: defs, infos, d, hunique, hd => by
    show (initializeTypeDecls cfg (infos.insert d'.defId _) defs)[d.defId]? = _
    by_cases hin : ∃ d₁ ∈ defs, d₁.defId = d.defId
    · obtain ⟨d₁, hd₁, heq⟩ := hin
      obtain rfl := hunique d₁ (mem_cons_of_mem _ hd₁) heq
      exact initializeTypeDecls_get (fun d₂ hd₂ => hunique d₂ (mem_cons_of_mem _ hd₂)) hd₁
    · rcases mem_cons.mp hd with rfl | hd
      · rw [initializeTypeDecls_frame fun d₁ hd₁ heq => hin ⟨d₁, hd₁, heq⟩, getElem?_insert_eq, if_pos rfl]
      · exact absurd ⟨d, hd, rfl⟩ hin

/-! ## What the explorations learn is justified -/

def KnownBy (crate : Crate) (J : TypeDecl → Fact → Prop) (infos : TypeInfos) : Prop :=
  ∀ (id : TypeDeclId) (info : TypeDeclInfo), infos[id]? = some info →
    ∃ d, crate.typeDecls[id]? = some d ∧ ∀ x, declKnown info x = true → J d x

section
variable {J : TypeDecl → Fact → Prop} {infos infos' : TypeInfos} {defs : List TypeDecl}

theorem KnownBy.insert {d : TypeDecl} {info : TypeDeclInfo} (h : KnownBy crate J infos)
    (hd : crate.typeDecls[d.defId]? = some d) (hinfo : ∀ x, declKnown info x = true → J d x) :
    KnownBy crate J (infos.insert d.defId info) := by
  intro id info₁ hinfo₁
  rw [getElem?_insert_eq] at hinfo₁
  by_cases hid : d.defId = id
  · rw [if_pos hid] at hinfo₁
    cases hinfo₁
    exact ⟨d, hid ▸ hd, hinfo⟩
  · rw [if_neg hid] at hinfo₁
    exact h id info₁ hinfo₁

theorem KnownBy.initial (h : KnownBy crate J infos) (hdefs : ∀ d ∈ defs, crate.typeDecls[d.defId]? = some d)
    (hinit : ∀ d ∈ defs, ∀ x, declKnown (initializeTypeDeclInfo cfg d) x = true → J d x) :
    KnownBy crate J (initializeTypeDecls cfg infos defs) := by
  induction defs generalizing infos with
  | nil => exact h
  | cons d defs ih =>
    have hfirst := h.insert (hdefs d mem_cons_self) (hinit d mem_cons_self)
    exact ih hfirst (fun d' hd' => hdefs d' (mem_cons_of_mem d hd'))
      fun d' hd' => hinit d' (mem_cons_of_mem d hd')

section
variable (hdefs : ∀ d ∈ defs, crate.typeDecls[d.defId]? = some d)
  (hfields : ∀ infos, KnownBy crate J infos → ∀ d ∈ defs, ∀ field ∈ d.fieldTys, ∀ x,
    .fact x ∈ wants infos explInfoInit field → J d x)
  (hborrow : ∀ d ∈ defs, J d (.flag .borrow))
include hdefs hfields hborrow

theorem KnownBy.analyzeTypeDecl {d : TypeDecl} (hd : d ∈ defs) {u u' : Bool} (h : KnownBy crate J infos)
    (hdecl : analyzeTypeDecl infos d u = .ok (infos', u')) : KnownBy crate J infos' := by
  rcases analyzeTypeDecl_ok hdecl with ⟨-, rfl, -⟩ | ⟨-, info, info', hinfo, rfl, hstep⟩
  · exact h
  · refine h.insert (hdefs d hd) fun x hx => ?_
    have hknown : declKnown info' = (runFields (declKnown info, u) (declWants infos d)).1 :=
      congrArg Prod.fst hstep.known
    rw [hknown] at hx
    rcases runFields_only _ hx with hold | hnew | ⟨rfl, -⟩
    · obtain ⟨d', hd', hfacts⟩ := h d.defId info hinfo
      obtain rfl : d = d' := Option.some.inj ((hdefs d hd).symm.trans hd')
      exact hfacts x hold
    · obtain ⟨ws, hws, hx⟩ := mem_flatten.mp hnew
      obtain ⟨field, hfield, rfl⟩ := mem_map.mp hws
      exact hfields infos h d hd field hfield x hx
    · exact hborrow d hd

theorem KnownBy.analyzeTypeDecls {some : List TypeDecl} (hsome : ∀ d ∈ some, d ∈ defs) {u u' : Bool}
    (h : KnownBy crate J infos) (hround : analyzeTypeDecls infos some u = .ok (infos', u')) :
    KnownBy crate J infos' := by
  induction some generalizing infos u with
  | nil =>
    cases hround
    exact h
  | cons d some ih =>
    obtain ⟨infos₁, u₁, h₁, h₂⟩ := run_bind_eq_ok hround
    have hfirst := h.analyzeTypeDecl hdefs hfields hborrow (hsome d mem_cons_self) h₁
    exact ih (fun d' hd' => hsome d' (mem_cons_of_mem d hd')) hfirst h₂

theorem KnownBy.analyzeRounds {n : Nat} (h : KnownBy crate J infos)
    (hrounds : analyzeRounds defs n infos = .ok infos') :
    KnownBy crate J infos' := by
  induction n generalizing infos with
  | zero => cases hrounds
  | succ n ih =>
    obtain ⟨⟨infos₁, u₁⟩, h₁, h₂⟩ := bind_eq_ok.mp hrounds
    have hround : Llbc.analyzeTypeDecls infos defs false = .ok (infos₁, u₁) := h₁
    have hfirst := h.analyzeTypeDecls hdefs hfields hborrow (fun _ hd => hd) hround
    cases u₁ with
    | false =>
      cases h₂
      exact hfirst
    | true => exact ih hfirst h₂

end

end

end

end Aeneas.Llbc
