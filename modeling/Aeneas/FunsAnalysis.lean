import Aeneas.Collections

/-!
# The analysis of the functions

The groups of functions are analysed in the order of the declarations. A function
may diverge if a body of its group has a loop, or if it refers to a function of
the group or to one that may diverge. The analysis visits the functions which are
called, those of a dispatch over the targets, and the initialisers of the globals
which are borrowed. It skips what a dynamic call calls, since the function should
have been visited where its value was created, but it skips the function values
as well.
-/

namespace Aeneas.FunsAnalysis

open List

abbrev FunDeclId := Nat

abbrev GlobalDeclId := Nat

inductive Place where
  | placeLocal
  | placeProjection (p : Place)
  | placeGlobal (id : GlobalDeclId)

inductive Operand where
  -- a copy or a move
  | place (p : Place)
  -- a constant which is a function
  | fnItem (id : FunDeclId)
  | traitConst
  | constant

/-- The operations come with the flag which tells if they can fail. -/
inductive Rvalue where
  | use (op : Operand)
  | rvRef (p : Place)
  | rawPtr (p : Place)
  | discriminant (p : Place)
  | len (p : Place)
  | nullaryOp
  | repeated (op : Operand)
  | aggregate (ops : List Operand)
  | unaryOp (canFail : Bool) (op : Operand)
  | binaryOp (canFail : Bool) (op₁ op₂ : Operand)

inductive FnOperand where
  | fnOpRegular (id : FunDeclId)
  | fnOpTraitMethod
  | fnOpDynamic (op : Operand)

inductive StatementKind where
  | assign (p : Place) (rv : Rvalue)
  | call (func : FnOperand) (args : List Operand) (dest : Place)
  | assertion (cond : Operand)
  | panic
  | loop
  | other (ops : List Operand)

/-- The blocks of a statement are the branches of a switch, the body of a loop, or what runs when a call unwinds. -/
inductive Statement where
  | mk (kind : StatementKind) (blocks : List (List Statement))

mutual

/-- The statements, in the order in which a visitor meets them. -/
def kinds : List Statement → List StatementKind
  | [] => []
  | st :: ls => kindsOf st ++ kinds ls

def kindsOf : Statement → List StatementKind
  | .mk kind blocks => kind :: kindsOfBlocks blocks

def kindsOfBlocks : List (List Statement) → List StatementKind
  | [] => []
  | b :: bs => kinds b ++ kindsOfBlocks bs

end

inductive Body where
  | structuredBody (body : List Statement)
  | targetDispatchBody (targets : List FunDeclId)
  | otherBody

/-- The builtin functions come with the flag which tells if they can fail, and so do the builtin globals. -/
structure FunDecl where
  defId : FunDeclId
  body : Body
  isGlobalInitializer : Bool
  builtinCanFail : Option Bool

structure GlobalDecl where
  init : Option FunDeclId
  builtinCanFail : Option Bool

inductive DeclarationGroup where
  | funGroup (ids : List FunDeclId)
  | mixedGroup
  | otherGroup

structure Crate where
  funDecls : IdMap FunDeclId FunDecl
  globalDecls : IdMap GlobalDeclId GlobalDecl
  declarations : Option (List DeclarationGroup)
  defId_eq : ∀ {id : FunDeclId} {d : FunDecl}, funDecls[id]? = some d → d.defId = id

/-! ## The analysis -/

structure FunInfo where
  canFail : Bool := false
  stateful : Bool := false
  canDiverge : Bool := false
  isRec : Bool := false
deriving DecidableEq

abbrev FunInfos := IdMap FunDeclId FunInfo

def FunInfo.mayFail (s : FunInfo) (b : Bool) : FunInfo := { s with canFail := s.canFail || b }

def optionGet {β : Type} : Option β → Except Exn β
  | some b => .ok b
  | none => .error (.invalidArgument "option is None")

section
variable (crate : Crate) (infos : FunInfos) (funIds : List FunDeclId)

def visitFid (s : FunInfo) (id : FunDeclId) : Except Exn FunInfo :=
  if id ∈ funIds then .ok { s with canDiverge := true, isRec := true }
  else match infos[id]? with
    | none => craise ("The function called here is missing from the crate " ++
        "(probably because of a previous error, or because of the use of --exclude)")
    | some info => .ok { s with
        canFail := s.canFail || info.canFail
        stateful := s.stateful || info.stateful
        canDiverge := s.canDiverge || info.canDiverge }

def visitRvalue (s : FunInfo) : Rvalue → Except Exn FunInfo
  | .use .traitConst => .ok (s.mayFail true)
  | .rvRef (.placeGlobal id) => do
    let global ← find crate.globalDecls id
    match global.builtinCanFail with
    | some canFail => return s.mayFail canFail
    | none => visitFid infos funIds s (← optionGet global.init)
  | .unaryOp canFail _ => .ok (s.mayFail canFail)
  | .binaryOp canFail _ _ => .ok (s.mayFail canFail)
  | _ => .ok s

def visitKind (s : FunInfo) : StatementKind → Except Exn FunInfo
  | .assign _ rv => visitRvalue crate infos funIds s rv
  | .call (.fnOpRegular id) _ _ => visitFid infos funIds s id
  | .call .fnOpTraitMethod _ _ => .ok (s.mayFail true)
  | .assertion _ => .ok (s.mayFail true)
  | .panic => .ok (s.mayFail true)
  | .loop => .ok { s with canDiverge := true }
  | _ => .ok s

def visitFun (s : FunInfo) (f : FunDecl) : Except Exn FunInfo := do
  cassert (!f.isGlobalInitializer || !s.stateful) "Global definition containing a stateful call in its body"
  match f.body with
  | .structuredBody body => (kinds body).foldlM (visitKind crate infos funIds) s
  | .targetDispatchBody targets => targets.foldlM (visitFid infos funIds) (s.mayFail true)
  | .otherBody => return s.mayFail (f.builtinCanFail.getD true)

def analyzeFunDecls (ds : List FunDecl) : Except Exn FunInfo := do
  let s ← ds.foldlM (visitFun crate infos funIds) {}
  -- the first function is looked up for its location: the error is not one that is caught below
  if ds.isEmpty then .error (.stdFailure "hd") else
  let isGlobalDeclBody := ds.any FunDecl.isGlobalInitializer
  let groupHasBuiltinInfo := ds.any fun d => d.builtinCanFail.isSome
  cassert (!isGlobalDeclBody || ds.length = 1)
    "This global definition is in a group of mutually recursive definitions"
  cassert (!groupHasBuiltinInfo || ds.length = 1)
    "This builtin function belongs to a group of mutually recursive definitions"
  return { s with canFail := if isGlobalDeclBody || groupHasBuiltinInfo then s.canFail else true }

end

def registerFunDeclInfo (info : FunInfo) (infos : FunInfos) (f : FunDecl) : Except Exn FunInfos := do
  assert (!infos.contains f.defId)
  return infos.insert f.defId info

section
variable (crate : Crate)

def lookupFunDecl (id : FunDeclId) : Except Exn FunDecl :=
  match crate.funDecls[id]? with
  | some d => .ok d
  | none => craise "Internal error: please file an issue"

def analyzeFunDeclGroup (infos : FunInfos) (ids : List FunDeclId) : Except Exn FunInfos := do
  let ds ← ids.mapM (lookupFunDecl crate)
  let info ← analyzeFunDecls crate infos (ds.map FunDecl.defId) ds
  ds.foldlM (registerFunDeclInfo info) infos

/-- The errors of a group are saved, and so is the one of a mixed group, which is the last to be looked at. -/
def analyzeDeclGroups (infos : FunInfos) : List DeclarationGroup → Except Exn FunInfos
  | [] => .ok infos
  | .funGroup ids :: decls =>
    match analyzeFunDeclGroup crate infos ids with
    | .ok infos => analyzeDeclGroups infos decls
    | .error (.failure _) => analyzeDeclGroups infos decls
    | .error e => .error e
  | .mixedGroup :: _ => .ok infos
  | .otherGroup :: decls => analyzeDeclGroups infos decls

def analyzeModule : Except Exn FunInfos := do
  analyzeDeclGroups crate ∅ (← optionGet crate.declarations)

/-! ## The references -/

def Crate.initOf (id : GlobalDeclId) : List FunDeclId := (crate.globalDecls[id]?.bind GlobalDecl.init).toList

def Place.refs : Place → List FunDeclId
  | .placeLocal => []
  | .placeProjection p => p.refs
  | .placeGlobal id => crate.initOf id

def Operand.refs : Operand → List FunDeclId
  | .place p => p.refs crate
  | .fnItem id => [id]
  | _ => []

def Rvalue.refs : Rvalue → List FunDeclId
  | .use op | .repeated op | .unaryOp _ op => op.refs crate
  | .rvRef p | .rawPtr p | .discriminant p | .len p => p.refs crate
  | .nullaryOp => []
  | .aggregate ops => ops.flatMap (Operand.refs crate)
  | .binaryOp _ op₁ op₂ => op₁.refs crate ++ op₂.refs crate

def FnOperand.refs : FnOperand → List FunDeclId
  | .fnOpRegular id => [id]
  | .fnOpTraitMethod => []
  | .fnOpDynamic op => op.refs crate

def StatementKind.refs : StatementKind → List FunDeclId
  | .assign p rv => p.refs crate ++ rv.refs crate
  | .call func args dest => func.refs crate ++ args.flatMap (Operand.refs crate) ++ dest.refs crate
  | .assertion cond => cond.refs crate
  | .other ops => ops.flatMap (Operand.refs crate)
  | .panic | .loop => []

/-- The references which the analysis visits. -/
def StatementKind.visited : StatementKind → List FunDeclId
  | .assign _ (.rvRef (.placeGlobal id)) =>
    if (crate.globalDecls[id]?.bind GlobalDecl.builtinCanFail).isSome then [] else crate.initOf id
  | .call (.fnOpRegular id) _ _ => [id]
  | _ => []

def Body.refsBy (refs : StatementKind → List FunDeclId) : Body → List FunDeclId
  | .structuredBody body => (kinds body).flatMap refs
  | .targetDispatchBody targets => targets
  | .otherBody => []

def StatementKind.isLoop : StatementKind → Bool
  | .loop => true
  | _ => false

def Body.hasLoop : Body → Bool
  | .structuredBody body => (kinds body).any StatementKind.isLoop
  | _ => false

def Crate.bodyOf (f : FunDeclId) : Body := (crate.funDecls[f]?.map FunDecl.body).getD .otherBody

/-- `g` is called by `f`, a target of `f`, a function value which `f` creates, or the initialiser of a global in `f`. -/
def Crate.Refers (f g : FunDeclId) : Prop := g ∈ (crate.bodyOf f).refsBy (StatementKind.refs crate)

def Crate.Visits (f g : FunDeclId) : Prop := g ∈ (crate.bodyOf f).refsBy (StatementKind.visited crate)

/-- No function which is reached has a loop or is recursive. -/
def Crate.LoopFree (f : FunDeclId) : Prop :=
  ∀ g, Relation.ReflTransGen crate.Refers f g →
    (crate.bodyOf g).hasLoop = false ∧ ¬ Relation.TransGen crate.Refers g g

/-- Each function of a group refers to functions of the group or of earlier ones. -/
def Crate.inOrder (seen : List FunDeclId) : List DeclarationGroup → Bool
  | [] => true
  | .funGroup ids :: decls =>
    (ids.all fun f => ((crate.bodyOf f).refsBy (StatementKind.refs crate)).all fun g =>
      ids.contains g || seen.contains g) &&
      Crate.inOrder (ids ++ seen) decls
  | _ :: decls => Crate.inOrder seen decls

end

section
variable {crate : Crate} {f g : FunDeclId}

theorem visited_subset (k : StatementKind) : k.visited crate ⊆ k.refs crate := by
  intro g hg
  unfold StatementKind.visited at hg
  split at hg
  · split at hg
    · cases hg
    · exact mem_append_right _ hg
  · exact mem_append_left _ (mem_append_left _ hg)
  · cases hg

theorem Crate.Visits.refers (h : crate.Visits f g) : crate.Refers f g := by
  unfold Crate.Visits Crate.Refers at *
  cases hbody : crate.bodyOf f with
  | structuredBody body =>
    rw [hbody] at h
    obtain ⟨k, hk, hg⟩ := mem_flatMap.mp h
    exact mem_flatMap.mpr ⟨k, hk, visited_subset k hg⟩
  | _ => rwa [hbody] at h

theorem Crate.LoopFree.of_reaches (h : crate.LoopFree f) (hg : Relation.ReflTransGen crate.Refers f g) :
    crate.LoopFree g := fun k hk => h k (hg.trans hk)

theorem loopFree_of_refers (hloop : (crate.bodyOf f).hasLoop = false) (h : ∀ g, crate.Refers f g → crate.LoopFree g) :
    crate.LoopFree f := by
  intro k hk
  rcases Relation.ReflTransGen.cases_head hk with rfl | ⟨g, hfg, hgk⟩
  · refine ⟨hloop, fun hcycle => ?_⟩
    -- the second function of a cycle is on it as well
    obtain ⟨g, hfg, hgf⟩ := Relation.TransGen.head'_iff.mp hcycle
    exact (h g hfg g .refl).2 (.tail' hgf hfg)
  · exact h g hfg k hgk

/-! ## What the analysis visits -/

theorem foldlM_back {α σ : Type} {step : σ → α → Except Exn σ} {P : σ → Prop} {Q : α → Prop}
    {l : List α} {s s' : σ} (h : l.foldlM step s = .ok s') (hs' : P s')
    (hstep : ∀ s a s', step s a = .ok s' → P s' → P s ∧ Q a) : P s ∧ ∀ a ∈ l, Q a := by
  induction l generalizing s with
  | nil =>
    cases h
    exact ⟨hs', by simp⟩
  | cons a l ih =>
    obtain ⟨s₁, hs₁, h⟩ := bind_eq_ok.mp h
    obtain ⟨hP, hl⟩ := ih h
    obtain ⟨hs, ha⟩ := hstep s a s₁ hs₁ hP
    exact ⟨hs, forall_mem_cons.mpr ⟨ha, hl⟩⟩

def Cleared (infos : FunInfos) (g : FunDeclId) : Prop := ∃ info, infos[g]? = some info ∧ info.canDiverge = false

variable {infos : FunInfos} {funIds : List FunDeclId} {s s' : FunInfo}

theorem visitFid_cleared (h : visitFid infos funIds s g = .ok s') (hs' : s'.canDiverge = false) :
    s.canDiverge = false ∧ Cleared infos g := by
  unfold visitFid at h
  split at h
  · cases h
    cases hs'
  · split at h
    · cases h
    · rename_i info hinfo
      cases h
      obtain ⟨hs, hdiv⟩ := Bool.or_eq_false_iff.mp hs'
      exact ⟨hs, info, hinfo, hdiv⟩

theorem visitRvalue_cleared {p : Place} {rv : Rvalue} (h : visitRvalue crate infos funIds s rv = .ok s')
    (hs' : s'.canDiverge = false) :
    s.canDiverge = false ∧ ∀ g ∈ (StatementKind.assign p rv).visited crate, Cleared infos g := by
  unfold visitRvalue at h
  split at h
  · cases h
    exact ⟨hs', by simp [StatementKind.visited]⟩
  · rename_i id
    obtain ⟨global, hglobal, h⟩ := bind_eq_ok.mp h
    rw [find_eq_ok] at hglobal
    cases hbuiltin : global.builtinCanFail with
    | some canFail =>
      rw [hbuiltin] at h
      cases h
      exact ⟨hs', by simp [StatementKind.visited, hglobal, hbuiltin]⟩
    | none =>
      rw [hbuiltin] at h
      obtain ⟨init, hinit, h⟩ := bind_eq_ok.mp h
      cases hi : global.init with
      | none =>
        rw [hi] at hinit
        cases hinit
      | some id =>
        rw [hi] at hinit
        cases hinit
        obtain ⟨hs, hcleared⟩ := visitFid_cleared h hs'
        exact ⟨hs, by simpa [StatementKind.visited, Crate.initOf, hglobal, hbuiltin, hi] using hcleared⟩
  · cases h
    exact ⟨hs', by simp [StatementKind.visited]⟩
  · cases h
    exact ⟨hs', by simp [StatementKind.visited]⟩
  · rename_i hglobal _ _
    cases h
    refine ⟨hs', fun g hg => ?_⟩
    unfold StatementKind.visited at hg
    split at hg
    · rename_i heq
      cases heq
      exact absurd rfl (hglobal _)
    · rename_i heq
      cases heq
    · cases hg

theorem visitKind_cleared {k : StatementKind} (h : visitKind crate infos funIds s k = .ok s')
    (hs' : s'.canDiverge = false) :
    s.canDiverge = false ∧ k.isLoop = false ∧ ∀ g ∈ k.visited crate, Cleared infos g := by
  cases k with
  | assign p rv =>
    obtain ⟨hs, hvisited⟩ := visitRvalue_cleared (p := p) h hs'
    exact ⟨hs, rfl, hvisited⟩
  | call func args dest =>
    cases func with
    | fnOpRegular id =>
      obtain ⟨hs, hcleared⟩ := visitFid_cleared h hs'
      exact ⟨hs, rfl, by simpa [StatementKind.visited] using hcleared⟩
    | _ =>
      cases h
      exact ⟨hs', rfl, by simp [StatementKind.visited]⟩
  | loop =>
    cases h
    cases hs'
  | _ =>
    cases h
    exact ⟨hs', rfl, by simp [StatementKind.visited]⟩

/-- The body has no loop, and the functions it visits do not diverge either. -/
def ClearedBody (crate : Crate) (infos : FunInfos) (body : Body) : Prop :=
  body.hasLoop = false ∧ ∀ g ∈ body.refsBy (StatementKind.visited crate), Cleared infos g

theorem visitFun_cleared {d : FunDecl} (h : visitFun crate infos funIds s d = .ok s') (hs' : s'.canDiverge = false) :
    s.canDiverge = false ∧ ClearedBody crate infos d.body := by
  obtain ⟨_, -, h⟩ := bind_eq_ok.mp h
  cases hbody : d.body with
  | structuredBody body =>
    rw [hbody] at h
    have h : (kinds body).foldlM (visitKind crate infos funIds) s = .ok s' := h
    obtain ⟨hs, hkinds⟩ := foldlM_back (P := (·.canDiverge = false)) h hs' fun _ _ _ => visitKind_cleared
    refine ⟨hs, any_eq_false.mpr fun k hk => by simp [(hkinds k hk).1], fun g hg => ?_⟩
    obtain ⟨k, hk, hg⟩ := mem_flatMap.mp hg
    exact (hkinds k hk).2 g hg
  | targetDispatchBody targets =>
    rw [hbody] at h
    have h : targets.foldlM (visitFid infos funIds) (s.mayFail true) = .ok s' := h
    obtain ⟨hs, htargets⟩ := foldlM_back (P := (·.canDiverge = false)) h hs' fun _ _ _ => visitFid_cleared
    exact ⟨hs, rfl, htargets⟩
  | otherBody =>
    rw [hbody] at h
    cases h
    exact ⟨hs', rfl, by simp [Body.refsBy]⟩

variable {info : FunInfo} {ds : List FunDecl}

theorem analyzeFunDecls_cleared (h : analyzeFunDecls crate infos funIds ds = .ok info)
    (hinfo : info.canDiverge = false) :
    ∀ d ∈ ds, ClearedBody crate infos d.body := by
  obtain ⟨s, hs, h⟩ := bind_eq_ok.mp h
  split at h
  · cases h
  · obtain ⟨_, -, h⟩ := bind_eq_ok.mp h
    obtain ⟨_, -, h⟩ := bind_eq_ok.mp h
    cases h
    exact (foldlM_back (P := (·.canDiverge = false)) hs hinfo fun _ _ _ => visitFun_cleared).2

variable {infos' : FunInfos}

theorem register_cases (h : ds.foldlM (registerFunDeclInfo info) infos = .ok infos') {info' : FunInfo}
    (hf : infos'[f]? = some info') : infos[f]? = some info' ∨ (∃ d ∈ ds, d.defId = f) ∧ info' = info := by
  induction ds generalizing infos with
  | nil =>
    cases h
    exact .inl hf
  | cons d ds ih =>
    obtain ⟨infos₁, hinsert, h⟩ := bind_eq_ok.mp h
    obtain ⟨_, -, hinsert⟩ := bind_eq_ok.mp hinsert
    cases hinsert
    rcases ih h with hold | ⟨⟨d', hd', hid⟩, hinfo⟩
    · rw [getElem?_insert_eq] at hold
      split at hold
      · rename_i hid
        cases hold
        exact .inr ⟨⟨d, by simp, hid⟩, rfl⟩
      · exact .inl hold
    · exact .inr ⟨⟨d', mem_cons_of_mem _ hd', hid⟩, hinfo⟩

theorem lookupFunDecl_bodyOf {id : FunDeclId} {d : FunDecl} (h : lookupFunDecl crate id = .ok d) :
    crate.bodyOf d.defId = d.body := by
  unfold lookupFunDecl at h
  split at h
  · rename_i hd
    cases h
    rw [Crate.bodyOf, crate.defId_eq hd, hd]
    rfl
  · cases h

/-! ## Soundness -/

/-- All the references which are skipped on the way along the visited ones are harmless. -/
def Crate.SkipsLoopFree (crate : Crate) (f : FunDeclId) : Prop :=
  ∀ g, Relation.ReflTransGen crate.Visits f g → ∀ k, crate.Refers g k → ¬ crate.Visits g k → crate.LoopFree k

def Sound (crate : Crate) (infos : FunInfos) : Prop :=
  ∀ f, Cleared infos f → crate.SkipsLoopFree f → crate.LoopFree f

theorem Sound.of_clearedBody (h : Sound crate infos) (hbody : ClearedBody crate infos (crate.bodyOf f))
    (hskips : crate.SkipsLoopFree f) : crate.LoopFree f := by
  refine loopFree_of_refers hbody.1 fun g hg => ?_
  by_cases hvisits : crate.Visits f g
  · exact h g (hbody.2 g hvisits) fun k hk => hskips k (.head hvisits hk)
  · exact hskips f .refl g hg hvisits

theorem Sound.group {ids : List FunDeclId} (h : Sound crate infos)
    (hrun : analyzeFunDeclGroup crate infos ids = .ok infos') : Sound crate infos' := by
  obtain ⟨ds, hds, hrun⟩ := bind_eq_ok.mp hrun
  obtain ⟨info, hinfo, hrun⟩ := bind_eq_ok.mp hrun
  intro f hf hskips
  obtain ⟨info', hinfo', hdiv⟩ := hf
  rcases register_cases hrun hinfo' with hold | ⟨⟨d, hd, rfl⟩, rfl⟩
  · exact h f ⟨info', hold, hdiv⟩ hskips
  · obtain ⟨id, -, hid⟩ := exists_of_forall₂ (mapM_eq_ok_iff.mp hds) hd
    refine h.of_clearedBody ?_ hskips
    rw [lookupFunDecl_bodyOf hid]
    exact analyzeFunDecls_cleared hinfo hdiv d hd

theorem Sound.groups {decls : List DeclarationGroup} (h : Sound crate infos)
    (hrun : analyzeDeclGroups crate infos decls = .ok infos') : Sound crate infos' := by
  induction decls generalizing infos with
  | nil =>
    cases hrun
    exact h
  | cons decl decls ih =>
    cases decl with
    | funGroup ids =>
      rw [analyzeDeclGroups] at hrun
      split at hrun
      · rename_i hgroup
        exact ih (h.group hgroup) hrun
      · exact ih h hrun
      · cases hrun
    | mixedGroup =>
      cases hrun
      exact h
    | otherGroup => exact ih h hrun

/-- A function which is said not to diverge neither has nor reaches a loop or a recursive function if and only if
this is so of what the analysis skips in the functions it visits. -/
theorem analyzeModule_loopFree_iff (h : analyzeModule crate = .ok infos) (hf : infos[f]? = some info)
    (hdiv : info.canDiverge = false) : crate.LoopFree f ↔ crate.SkipsLoopFree f := by
  obtain ⟨decls, -, h⟩ := bind_eq_ok.mp h
  constructor
  · intro hfree g hg k hk _
    have hreach : Relation.ReflTransGen crate.Refers f g := hg.lift id fun _ _ => Crate.Visits.refers
    exact hfree.of_reaches (hreach.tail hk)
  · have hsound : Sound crate ∅ := fun f hf => by
      obtain ⟨info, hinfo, -⟩ := hf
      simp at hinfo
    exact (hsound.groups h) f ⟨info, hf, hdiv⟩

end

/-! ## A function value -/

/-- The function 0 has the body `body`, and the function 1 the only statement `kind`. -/
def twoFuns (body : List Statement) (kind : StatementKind) : Crate where
  funDecls := Std.ExtTreeMap.ofList [(0, FunDecl.mk 0 (.structuredBody body) false none),
    (1, FunDecl.mk 1 (.structuredBody [.mk kind []]) false none)]
  globalDecls := ∅
  declarations := some [.funGroup [0], .funGroup [1]]
  defId_eq {id d} h := by
    rw [getElem?_ofList_iff (by simp)] at h
    simp only [mem_cons, Prod.mk.injEq, not_mem_nil, or_false] at h
    rcases h with ⟨rfl, rfl⟩ | ⟨rfl, rfl⟩
    · rfl
    · rfl

theorem twoFuns_bodyOf (body : List Statement) (kind : StatementKind) (f : FunDeclId) :
    (twoFuns body kind).bodyOf f = .otherBody ∨ (twoFuns body kind).bodyOf f = .structuredBody body ∨
      (twoFuns body kind).bodyOf f = .structuredBody [.mk kind []] := by
  unfold Crate.bodyOf
  cases hd : (twoFuns body kind).funDecls[f]? with
  | none => exact .inl rfl
  | some d =>
    unfold twoFuns at hd
    rw [getElem?_ofList_iff (by simp)] at hd
    simp only [mem_cons, Prod.mk.injEq, not_mem_nil, or_false] at hd
    rcases hd with ⟨-, rfl⟩ | ⟨-, rfl⟩
    · exact .inr (.inl rfl)
    · exact .inr (.inr rfl)

/-- `fn f() { loop {} }` and `fn g() { let h = f; }` -/
def valueCrate : Crate := twoFuns [.mk .loop [[]]] (.assign .placeLocal (.use (.fnItem 0)))

theorem analyzeModule_function_value : valueCrate.inOrder [] [.funGroup [0], .funGroup [1]] = true ∧
    ∃ infos info, analyzeModule valueCrate = .ok infos ∧ infos[1]? = some info ∧ info.canDiverge = false ∧
      ¬ valueCrate.LoopFree 1 := by
  refine ⟨rfl, _, _, rfl, rfl, rfl, fun h => ?_⟩
  have hrefers : valueCrate.Refers 1 0 := mem_cons_self
  cases (h 0 (.single hrefers)).1

/-- `fn f() {}` and `fn g() { f() }` -/
def callCrate : Crate := twoFuns [] (.call (.fnOpRegular 0) [] .placeLocal)

theorem analyzeModule_loopFree_call : ∃ infos info, analyzeModule callCrate = .ok infos ∧ infos[1]? = some info ∧
    info.canDiverge = false ∧ callCrate.LoopFree 1 := by
  refine ⟨_, _, rfl, rfl, rfl, (analyzeModule_loopFree_iff rfl rfl rfl).mpr fun g hg k hk hnot => ?_⟩
  refine absurd ?_ hnot
  unfold Crate.Refers Crate.Visits at *
  rcases twoFuns_bodyOf [] (.call (.fnOpRegular 0) [] .placeLocal) g with hbody | hbody | hbody
  all_goals
    unfold callCrate at *
    rw [hbody] at hk ⊢
    exact hk

end Aeneas.FunsAnalysis
