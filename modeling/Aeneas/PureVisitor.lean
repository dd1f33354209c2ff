import Aeneas.Pure

/-!
# Visitors of the pure AST

A visitor has one method per kind of expression; a method receives what the
visitor computed for the subexpressions in their place, so an effectful visitor
receives computations and chooses when to run them. The subexpressions of a node
come with the patterns of the binder group they are under.
-/

namespace Aeneas.Pure

open List

section
variable {α β : Type}

/-! ## Records of subexpressions -/

def MatchBranch.map (f : α → β) (b : MatchBranch α) : MatchBranch β := { pat := b.pat, branch := f b.branch }

def SwitchBody.map (f : α → β) : SwitchBody α → SwitchBody β
  | .ite thn els => .ite (f thn) (f els)
  | .matchE branches => .matchE (branches.map (MatchBranch.map f))

def LoopBody.map (f : α → β) (b : LoopBody α) : LoopBody β := { inputs := b.inputs, loopBody := f b.loopBody }

def Loop.map (f : α → β) (l : Loop α) : Loop β :=
  { l with inputs := l.inputs.map f, loopBody := l.loopBody.map f }

def StructUpdate.map (f : α → β) (s : StructUpdate α) : StructUpdate β :=
  { s with init := s.init.map f, updates := s.updates.map fun u => (u.1, f u.2) }

def EMeta.map (f : α → β) : EMeta α → EMeta β
  | .assignment dest value origin => .assignment dest (f value) origin
  | .symbolicAssignments l => .symbolicAssignments (l.map fun a => (f a.1, f a.2))
  | .symbolicPlaces l => .symbolicPlaces (l.map fun a => (f a.1, a.2))
  | .mPlace mp => .mPlace mp
  | .tag message => .tag message
  | .typeAnnot => .typeAnnot

end

/-! ## Visitors -/

structure Visitor (ρ τ : Type) where
  visitFVar : FVarId → ρ
  visitBVar : BVar → ρ
  visitCVar : ConstGenericVarId → ρ
  visitConst : Literal → ρ
  visitApp : τ → τ → ρ
  visitLambda : TPat → τ → ρ
  visitQualif : Qualif → ρ
  visitLet : Bool → TPat → τ → τ → ρ
  visitSwitch : τ → SwitchBody τ → ρ
  visitLoop : Loop τ → ρ
  visitStructUpdate : StructUpdate τ → ρ
  visitMeta : EMeta τ → τ → ρ
  visitEError : Option Span → String → ρ
  visitTexpr : ρ → Ty → τ

section
variable {ρ τ : Type} (v : Visitor ρ τ)

mutual

def Expr.visit : Expr → ρ
  | .fvar id => v.visitFVar id
  | .bvar x => v.visitBVar x
  | .cvar id => v.visitCVar id
  | .const l => v.visitConst l
  | .app f x => v.visitApp f.visit x.visit
  | .lambda pat inner => v.visitLambda pat inner.visit
  | .qualif q => v.visitQualif q
  | .letE monadic pat bound next => v.visitLet monadic pat bound.visit next.visit
  | .switch scrut body => v.visitSwitch scrut.visit (visitSwitchBody body)
  | .loop l => v.visitLoop (visitLoop l)
  | .structUpdate s => v.visitStructUpdate (visitStructUpdate s)
  | .emeta m e => v.visitMeta (visitEMeta m) e.visit
  | .eError span message => v.visitEError span message

def Texpr.visit : Texpr → τ
  | .mk e ty => v.visitTexpr e.visit ty

def visitSwitchBody : SwitchBody Texpr → SwitchBody τ
  | .ite thn els => .ite thn.visit els.visit
  | .matchE branches => .matchE (visitBranches branches)

def visitBranches : List (MatchBranch Texpr) → List (MatchBranch τ)
  | [] => []
  | b :: branches => visitBranch b :: visitBranches branches

def visitBranch : MatchBranch Texpr → MatchBranch τ
  | ⟨pat, branch⟩ => ⟨pat, branch.visit⟩

def visitLoop : Loop Texpr → Loop τ
  | ⟨loopId, span, outputTys, numOutputValues, inputs, numInputConts, loopBody, toRec⟩ =>
    ⟨loopId, span, outputTys, numOutputValues, visitTexprs inputs, numInputConts, visitLoopBody loopBody, toRec⟩

def visitTexprs : List Texpr → List τ
  | [] => []
  | e :: l => e.visit :: visitTexprs l

def visitLoopBody : LoopBody Texpr → LoopBody τ
  | ⟨inputs, loopBody⟩ => ⟨inputs, loopBody.visit⟩

def visitStructUpdate : StructUpdate Texpr → StructUpdate τ
  | ⟨structId, init, updates⟩ => ⟨structId, visitInit init, visitUpdates updates⟩

def visitInit : Option Texpr → Option τ
  | none => none
  | some e => some e.visit

def visitUpdates : List (FieldId × Texpr) → List (FieldId × τ)
  | [] => []
  | u :: l => visitUpdate u :: visitUpdates l

def visitUpdate : FieldId × Texpr → FieldId × τ
  | (field, e) => (field, e.visit)

def visitEMeta : EMeta Texpr → EMeta τ
  | .assignment dest value origin => .assignment dest value.visit origin
  | .symbolicAssignments l => .symbolicAssignments (visitAssignments l)
  | .symbolicPlaces l => .symbolicPlaces (visitPlaces l)
  | .mPlace mp => .mPlace mp
  | .tag message => .tag message
  | .typeAnnot => .typeAnnot

def visitAssignments : List (Texpr × Texpr) → List (τ × τ)
  | [] => []
  | a :: l => visitAssignment a :: visitAssignments l

def visitAssignment : Texpr × Texpr → τ × τ
  | (x, value) => (x.visit, value.visit)

def visitPlaces : List (Texpr × String) → List (τ × String)
  | [] => []
  | a :: l => visitPlace a :: visitPlaces l

def visitPlace : Texpr × String → τ × String
  | (x, name) => (x.visit, name)

end

theorem visitBranches_eq : ∀ branches, visitBranches v branches = branches.map (MatchBranch.map (Texpr.visit v))
  | [] => by simp [visitBranches]
  | ⟨pat, branch⟩ :: branches => by simp [visitBranches, visitBranch, MatchBranch.map, visitBranches_eq branches]

theorem visitTexprs_eq : ∀ l, visitTexprs v l = l.map (Texpr.visit v)
  | [] => by simp [visitTexprs]
  | e :: l => by simp [visitTexprs, visitTexprs_eq l]

theorem visitUpdates_eq : ∀ l, visitUpdates v l = l.map fun u => (u.1, u.2.visit v)
  | [] => by simp [visitUpdates]
  | (field, e) :: l => by simp [visitUpdates, visitUpdate, visitUpdates_eq l]

theorem visitAssignments_eq : ∀ l, visitAssignments v l = l.map fun a => (a.1.visit v, a.2.visit v)
  | [] => by simp [visitAssignments]
  | (x, value) :: l => by simp [visitAssignments, visitAssignment, visitAssignments_eq l]

theorem visitPlaces_eq : ∀ l, visitPlaces v l = l.map fun a => (a.1.visit v, a.2)
  | [] => by simp [visitPlaces]
  | (x, name) :: l => by simp [visitPlaces, visitPlace, visitPlaces_eq l]

@[simp] theorem Texpr.visit_mk (e : Expr) (ty : Ty) : (Texpr.mk e ty).visit v = v.visitTexpr (e.visit v) ty := by
  simp [Texpr.visit]

@[simp] theorem Expr.visit_switch (scrut : Texpr) (body : SwitchBody Texpr) :
    (Expr.switch scrut body).visit v = v.visitSwitch (scrut.visit v) (body.map (Texpr.visit v)) := by
  cases body <;> simp [Expr.visit, visitSwitchBody, SwitchBody.map, visitBranches_eq]

@[simp] theorem Expr.visit_loop (l : Loop Texpr) :
    (Expr.loop l).visit v = v.visitLoop (l.map (Texpr.visit v)) := by
  obtain ⟨loopId, span, outputTys, numOutputValues, inputs, numInputConts, ⟨bodyInputs, loopBody⟩, toRec⟩ := l
  simp [Expr.visit, visitLoop, visitLoopBody, Loop.map, LoopBody.map, visitTexprs_eq]

@[simp] theorem Expr.visit_structUpdate (s : StructUpdate Texpr) :
    (Expr.structUpdate s).visit v = v.visitStructUpdate (s.map (Texpr.visit v)) := by
  obtain ⟨structId, init, updates⟩ := s
  cases init <;> simp [Expr.visit, visitStructUpdate, visitInit, StructUpdate.map, visitUpdates_eq]

@[simp] theorem Expr.visit_emeta (m : EMeta Texpr) (e : Texpr) :
    (Expr.emeta m e).visit v = v.visitMeta (m.map (Texpr.visit v)) (e.visit v) := by
  cases m <;> simp [Expr.visit, visitEMeta, EMeta.map, visitAssignments_eq, visitPlaces_eq]

end

/-! ## Subexpressions -/

section
variable {α : Type}

inductive Group where
  | none
  | one (pat : TPat)
  | many (pats : List TPat)

abbrev Scoped (α : Type) := Group × α

def SwitchBody.children : SwitchBody α → List (Scoped α)
  | .ite thn els => [(.none, thn), (.none, els)]
  | .matchE branches => branches.map fun b => (.one b.pat, b.branch)

def Loop.children (l : Loop α) : List (Scoped α) :=
  (l.inputs.map fun e => (.none, e)) ++ [(.many l.loopBody.inputs, l.loopBody.loopBody)]

def StructUpdate.children (s : StructUpdate α) : List (Scoped α) :=
  (s.init.toList.map fun e => (.none, e)) ++ s.updates.map fun u => (.none, u.2)

def EMeta.children : EMeta α → List (Scoped α)
  | .assignment _ value _ => [(.none, value)]
  | .symbolicAssignments l => l.flatMap fun a => [(.none, a.1), (.none, a.2)]
  | .symbolicPlaces l => l.map fun a => (.none, a.1)
  | _ => []

variable {β : Type} (f : α → β)

theorem SwitchBody.children_map (b : SwitchBody α) :
    (b.map f).children = b.children.map fun c => (c.1, f c.2) := by
  cases b <;> simp [SwitchBody.map, children, MatchBranch.map]

theorem Loop.children_map (l : Loop α) : (l.map f).children = l.children.map fun c => (c.1, f c.2) := by
  simp [Loop.map, LoopBody.map, children]

theorem StructUpdate.children_map (s : StructUpdate α) :
    (s.map f).children = s.children.map fun c => (c.1, f c.2) := by
  obtain ⟨structId, init, updates⟩ := s
  cases init <;> simp [StructUpdate.map, children]

theorem EMeta.children_map (m : EMeta α) : (m.map f).children = m.children.map fun c => (c.1, f c.2) := by
  cases m <;> simp [EMeta.map, children, flatMap_map, map_flatMap]

end

def Expr.children : Expr → List (Scoped Texpr)
  | .app f x => [(.none, f), (.none, x)]
  | .lambda pat inner => [(.one pat, inner)]
  | .letE _ pat bound next => [(.none, bound), (.one pat, next)]
  | .switch scrut body => (.none, scrut) :: body.children
  | .loop l => l.children
  | .structUpdate s => s.children
  | .emeta m e => m.children ++ [(.none, e)]
  | _ => []

section
variable {α : Type} [SizeOf α] {c : Scoped α}

theorem SwitchBody.sizeOf_children {b : SwitchBody α} (hc : c ∈ b.children) : sizeOf c.2 < sizeOf b := by
  cases b with
  | ite thn els =>
    simp only [children, mem_cons, not_mem_nil, or_false] at hc
    rcases hc with rfl | rfl <;> simp only [ite.sizeOf_spec] <;> omega
  | matchE branches =>
    obtain ⟨⟨pat, branch⟩, hb, rfl⟩ := mem_map.mp hc
    have := List.sizeOf_lt_of_mem hb
    simp only [MatchBranch.mk.sizeOf_spec, matchE.sizeOf_spec] at this ⊢
    omega

theorem Loop.sizeOf_children {l : Loop α} (hc : c ∈ l.children) : sizeOf c.2 < sizeOf l := by
  obtain ⟨_, _, _, _, inputs, _, ⟨bodyInputs, loopBody⟩, _⟩ := l
  simp only [mk.sizeOf_spec, LoopBody.mk.sizeOf_spec]
  rcases mem_append.mp hc with hc | hc
  · obtain ⟨e, he, rfl⟩ := mem_map.mp hc
    have := List.sizeOf_lt_of_mem he
    simp only at this ⊢
    omega
  · obtain rfl := mem_singleton.mp hc
    simp only
    omega

theorem StructUpdate.sizeOf_children {s : StructUpdate α} (hc : c ∈ s.children) : sizeOf c.2 < sizeOf s := by
  obtain ⟨structId, init, updates⟩ := s
  simp only [mk.sizeOf_spec]
  rcases mem_append.mp hc with hc | hc
  · cases init with
    | none => simp at hc
    | some e =>
      obtain rfl : c = (.none, e) := by simpa using hc
      simp only [Option.some.sizeOf_spec]
      omega
  · obtain ⟨⟨field, e⟩, hu, rfl⟩ := mem_map.mp hc
    have := List.sizeOf_lt_of_mem hu
    simp only [Prod.mk.sizeOf_spec] at this ⊢
    omega

theorem EMeta.sizeOf_children {m : EMeta α} (hc : c ∈ m.children) : sizeOf c.2 < sizeOf m := by
  cases m with
  | assignment dest value origin =>
    obtain rfl := mem_singleton.mp hc
    simp only [assignment.sizeOf_spec]
    omega
  | symbolicAssignments l =>
    obtain ⟨⟨x, value⟩, ha, hc⟩ := mem_flatMap.mp hc
    have := List.sizeOf_lt_of_mem ha
    simp only [Prod.mk.sizeOf_spec, symbolicAssignments.sizeOf_spec] at this ⊢
    simp only [mem_cons, not_mem_nil, or_false] at hc
    rcases hc with rfl | rfl <;> simp only <;> omega
  | symbolicPlaces l =>
    obtain ⟨⟨x, name⟩, ha, rfl⟩ := mem_map.mp hc
    have := List.sizeOf_lt_of_mem ha
    simp only [Prod.mk.sizeOf_spec, symbolicPlaces.sizeOf_spec] at this ⊢
    omega
  | _ => simp [children] at hc

end

theorem Expr.sizeOf_children {e : Expr} {c : Scoped Texpr} (hc : c ∈ e.children) : sizeOf c.2 < sizeOf e := by
  cases e with
  | app f x =>
    simp only [children, mem_cons, not_mem_nil, or_false] at hc
    rcases hc with rfl | rfl <;> simp only [app.sizeOf_spec] <;> omega
  | lambda pat inner =>
    obtain rfl := mem_singleton.mp hc
    simp only [lambda.sizeOf_spec]
    omega
  | letE monadic pat bound next =>
    simp only [children, mem_cons, not_mem_nil, or_false] at hc
    rcases hc with rfl | rfl <;> simp only [letE.sizeOf_spec] <;> omega
  | switch scrut body =>
    rcases mem_cons.mp hc with rfl | hc
    · simp only [switch.sizeOf_spec]
      omega
    · have := SwitchBody.sizeOf_children hc
      simp only [switch.sizeOf_spec]
      omega
  | loop l =>
    have := Loop.sizeOf_children hc
    simp only [loop.sizeOf_spec]
    omega
  | structUpdate s =>
    have := StructUpdate.sizeOf_children hc
    simp only [structUpdate.sizeOf_spec]
    omega
  | emeta m e =>
    simp only [emeta.sizeOf_spec]
    rcases mem_append.mp hc with hc | hc
    · have := EMeta.sizeOf_children hc
      omega
    · obtain rfl := mem_singleton.mp hc
      simp only
      omega
  | _ => simp [children] at hc

theorem Texpr.induct {P : Texpr → Prop} (h : ∀ e ty, (∀ c ∈ e.children, P c.2) → P (.mk e ty)) : ∀ e, P e
  | .mk e ty => h e ty fun c _hc => Texpr.induct h c.2
termination_by e => sizeOf e
decreasing_by
  have := Expr.sizeOf_children _hc
  simp only [Texpr.mk.sizeOf_spec]
  omega

/-! ## Visitors which combine the results of the subexpressions -/

section
variable {β : Type}

/-- The visitor which combines the results of the subexpressions, but for the
variables and the qualifiers. -/
def collector (onFVar : FVarId → β) (onBVar : BVar → β) (onQualif : Qualif → β) (combine : List (Scoped β) → β) :
    Visitor β β where
  visitFVar := onFVar
  visitBVar := onBVar
  visitCVar _ := combine []
  visitConst _ := combine []
  visitApp f x := combine [(.none, f), (.none, x)]
  visitLambda pat inner := combine [(.one pat, inner)]
  visitQualif := onQualif
  visitLet _ pat bound next := combine [(.none, bound), (.one pat, next)]
  visitSwitch scrut body := combine ((.none, scrut) :: body.children)
  visitLoop l := combine l.children
  visitStructUpdate s := combine s.children
  visitMeta m e := combine (m.children ++ [(.none, e)])
  visitEError _ _ := combine []
  visitTexpr e _ := e

variable {onFVar : FVarId → β} {onBVar : BVar → β} {onQualif : Qualif → β} {combine : List (Scoped β) → β}

theorem Texpr.visit_collector (e : Expr) (ty : Ty) :
    (Texpr.mk e ty).visit (collector onFVar onBVar onQualif combine) =
      match e with
      | .fvar id => onFVar id
      | .bvar v => onBVar v
      | .qualif q => onQualif q
      | _ => combine (e.children.map fun c => (c.1, c.2.visit (collector onFVar onBVar onQualif combine))) := by
  cases e with
  | switch scrut body => simp [collector, Expr.children, SwitchBody.children_map]
  | loop l => simp [collector, Expr.children, Loop.children_map]
  | structUpdate s => simp [collector, Expr.children, StructUpdate.children_map]
  | emeta m e => simp [collector, Expr.children, EMeta.children_map]
  | _ => simp [Expr.visit, collector, Expr.children]

end

section
variable {σ : Type} (f : Qualif → σ → σ)

def runAll (l : List (Scoped (σ → σ))) (s : σ) : σ := l.foldl (fun s c => c.2 s) s

/-- The visitor which only overrides the visit of the qualifiers, by an update of a reference. -/
def iterQualif : Visitor (σ → σ) (σ → σ) := collector (fun _ => id) (fun _ => id) f runAll

def Expr.onQualif : Expr → σ → σ
  | .qualif q => f q
  | _ => id

theorem Texpr.visit_iterQualif (e : Expr) (ty : Ty) (s : σ) :
    (Texpr.mk e ty).visit (iterQualif f) s =
      runAll (e.children.map fun c => (c.1, c.2.visit (iterQualif f))) (e.onQualif f s) := by
  rw [iterQualif, Texpr.visit_collector]
  cases e <;> simp [Expr.children, runAll, Expr.onQualif]

end

def Texpr.Mentions (e : Texpr) (q : Qualif) : Prop :=
  ∃ s : Texpr, Relation.ReflTransGen (fun e c => ∃ g, (g, c) ∈ e.e.children) e s ∧ s.e = .qualif q

theorem Texpr.mentions_mk {e : Expr} {ty : Ty} {q : Qualif} :
    (Texpr.mk e ty).Mentions q ↔ e = .qualif q ∨ ∃ c ∈ e.children, c.2.Mentions q := by
  constructor
  · rintro ⟨s, hs, hq⟩
    rcases Relation.ReflTransGen.cases_head hs with rfl | ⟨c, ⟨g, hc⟩, hcs⟩
    · exact .inl hq
    · exact .inr ⟨(g, c), hc, s, hcs, hq⟩
  · rintro (rfl | ⟨⟨g, c⟩, hc, s, hs, hq⟩)
    · exact ⟨_, .refl, rfl⟩
    · exact ⟨s, .head ⟨g, hc⟩ hs, hq⟩

end Aeneas.Pure
