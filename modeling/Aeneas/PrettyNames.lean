import Aeneas.Collections
import Aeneas.Relaxation

/-!
# Propagating the names of the variables (`pure/PureMicroPassesPrettyNames.ml`)

Some variables have a name, with a weight. The naming constraints link the variables, and
a name is propagated along them in both ways until none of them improves a name.
-/

namespace Aeneas.PrettyNames

open Relaxation List

inductive NcNode where
  | pure (id : Nat)
  | llbc (id : Nat)
deriving DecidableEq

def NcNode.isLlbc : NcNode → Bool
  | .pure _ => false
  | .llbc _ => true

def NcNode.id : NcNode → Nat
  | .pure id | .llbc id => id

def compareNcNode : NcNode → NcNode → Ordering := compareLex (compareOn NcNode.isLlbc) (compareOn NcNode.id)

instance : Ord NcNode := ⟨compareNcNode⟩

instance : Std.TransOrd NcNode := inferInstanceAs (Std.TransCmp (compareLex _ _))

instance : Std.LawfulEqOrd NcNode where
  eq_of_compare {a b} h := by
    obtain ⟨hkind, hid⟩ := compareLex_eq_eq.mp h
    have hkind : a.isLlbc = b.isLlbc := Std.LawfulEqCmp.eq_of_compare hkind
    have hid : a.id = b.id := Std.LawfulEqCmp.eq_of_compare hid
    cases a <;> cases b <;> simp_all [NcNode.isLlbc, NcNode.id]

structure NcEdge where
  src : NcNode
  dest : NcNode
  dist : Int

structure NcPEdge where
  dest : NcNode
  dist : Int

def compareNcPEdge : NcPEdge → NcPEdge → Ordering := compareLex (compareOn NcPEdge.dest) (compareOn NcPEdge.dist)

instance : Ord NcPEdge := ⟨compareNcPEdge⟩

instance : Std.TransOrd NcPEdge := inferInstanceAs (Std.TransCmp (compareLex _ _))

instance : Std.LawfulEqOrd NcPEdge where
  eq_of_compare {a b} h := by
    obtain ⟨hdest, hdist⟩ := compareLex_eq_eq.mp h
    have hdest : a.dest = b.dest := Std.LawfulEqCmp.eq_of_compare hdest
    have hdist : a.dist = b.dist := Std.LawfulEqCmp.eq_of_compare hdist
    cases a
    cases b
    simp_all

abbrev NcPEdges := IdMap NcNode (IdSet NcPEdge)

def registerEdge (edges : NcPEdges) (src : NcNode) (dist : Int) (dest : NcNode) : NcPEdges :=
  let e : NcPEdge := { dest, dist }
  match edges[src]? with
  | none => edges.insert src ((∅ : IdSet NcPEdge).insert e)
  | some s => edges.insert src (s.insert e)

def registerEdges (edges0 : List NcEdge) : NcPEdges :=
  edges0.foldl (fun edges c => registerEdge (registerEdge edges c.src c.dist c.dest) c.dest c.dist c.src) ∅

structure PropState where
  nodes : IdMap NcNode (String × Int)
  stack : List NcEdge

section
variable (edges : NcPEdges)

def pushConstraints (src : NcNode) : List NcEdge :=
  match edges[src]? with
  | none => []
  | some cs => cs.toList.map fun e => { src, dist := e.dist, dest := e.dest }

def updateOneWay (src : NcNode) (dist : Int) (dst : NcNode) (st : PropState) : PropState :=
  match st.nodes[src]? with
  | none => st
  | some (name, weight) =>
    let nweight := max weight 0 + dist
    match st.nodes[dst]? with
    | none => { nodes := st.nodes.insert dst (name, nweight), stack := st.stack ++ pushConstraints edges dst }
    | some (_, weight') =>
      if nweight < weight' then
        { nodes := st.nodes.insert dst (name, nweight), stack := st.stack ++ pushConstraints edges dst }
      else st

def go : Nat → PropState → Except Exn (IdMap NcNode (String × Int))
  | 0, _ => .error .outOfFuel
  | fuel + 1, st =>
    match st.stack with
    | [] => .ok st.nodes
    | c :: stack =>
      let st := updateOneWay edges c.src c.dist c.dest { st with stack }
      let st := updateOneWay edges c.dest c.dist c.src st
      go fuel st

end

def pureName : NcNode × String × Int → Option (Nat × String)
  | (.pure id, name, _) => some (id, name)
  | (.llbc _, _, _) => none

def computePrettyNamesPropagateConstraints (fuel : Nat) (nodes : IdMap NcNode (String × Int)) (edges0 : List NcEdge) :
    Except Exn (IdMap Nat String) := do
  let nodes ← go (registerEdges edges0) fuel { nodes, stack := edges0 }
  return .ofList (nodes.toList.filterMap pureName)

/-! ## The edges -/

def NcEdge.Joins (e : NcEdge) (x : NcNode) (d : Int) (y : NcNode) : Prop :=
  e.dist = d ∧ (e.src = x ∧ e.dest = y ∨ e.dest = x ∧ e.src = y)

def Linked (edges0 : List NcEdge) (x : NcNode) (d : Int) (y : NcNode) : Prop := ∃ e ∈ edges0, e.Joins x d y

variable {x y : NcNode} {d : Int}

theorem NcEdge.Joins.symm {e : NcEdge} (h : e.Joins x d y) : e.Joins y d x :=
  ⟨h.1, h.2.symm.imp And.symm And.symm⟩

theorem Linked.symm {edges0 : List NcEdge} (h : Linked edges0 x d y) :
    Linked edges0 y d x := by
  obtain ⟨e, he, hj⟩ := h
  exact ⟨e, he, hj.symm⟩

def Registered (edges : NcPEdges) (x : NcNode) (d : Int) (y : NcNode) : Prop :=
  ({ dest := y, dist := d } : NcPEdge) ∈ (edges[x]?).getD ∅

theorem registered_registerEdge {edges : NcPEdges} {src dest : NcNode} {dist : Int} :
    Registered (registerEdge edges src dist dest) x d y ↔
      (src = x ∧ dest = y ∧ dist = d) ∨ Registered edges x d y := by
  have hget : (registerEdge edges src dist dest)[x]?.getD ∅ =
      if src = x then ((edges[src]?).getD ∅).insert { dest, dist } else (edges[x]?).getD ∅ := by
    unfold registerEdge
    by_cases hx : src = x
    · cases edges[src]? <;> simp [hx]
    · cases edges[src]? <;> simp [getElem?_insert_eq, hx]
  unfold Registered
  rw [hget]
  by_cases hx : src = x
  · subst hx
    rw [if_pos rfl]
    refine (mem_insert_iff _ _ _).trans ?_
    simp
  · rw [if_neg hx]
    simp [hx]

theorem registered_registerEdges (edges0 : List NcEdge) (x : NcNode) (d : Int) (y : NcNode) :
    Registered (registerEdges edges0) x d y ↔ Linked edges0 x d y := by
  induction edges0 using List.reverseRecOn with
  | nil => simp [registerEdges, Registered, Linked]
  | append_singleton edges0 c ih =>
    unfold registerEdges at ih ⊢
    rw [foldl_append, foldl_cons, foldl_nil, registered_registerEdge, registered_registerEdge, ih]
    unfold Linked NcEdge.Joins
    simp only [mem_append, mem_singleton]
    grind

theorem mem_pushConstraints {edges0 : List NcEdge} {src : NcNode} {e : NcEdge} :
    e ∈ pushConstraints (registerEdges edges0) src ↔ e.src = src ∧ Linked edges0 src e.dist e.dest := by
  have hmem : e ∈ pushConstraints (registerEdges edges0) src ↔
      e.src = src ∧ Registered (registerEdges edges0) src e.dist e.dest := by
    unfold pushConstraints Registered
    obtain ⟨esrc, edest, edist⟩ := e
    cases (registerEdges edges0)[src]? with
    | none => simp
    | some cs =>
      simp only [mem_map, Std.ExtTreeSet.mem_toList, Option.getD_some, NcEdge.mk.injEq]
      refine ⟨?_, ?_⟩
      · rintro ⟨p, hp, rfl, rfl, rfl⟩
        exact ⟨rfl, hp⟩
      · rintro ⟨rfl, hp⟩
        exact ⟨_, hp, rfl, rfl, rfl⟩
  rw [hmem, registered_registerEdges]

/-! ## One update -/

def PropState.labels (st : PropState) : Labels NcNode String := fun v => st.nodes[v]?

def Settled (st : PropState) (x : NcNode) (d : Int) (y : NcNode) : Prop :=
  Relaxed st.labels x d y ∨ ∃ e ∈ st.stack, e.Joins x d y

theorem labels_insert (st : PropState) (stack : List NcEdge) (v : NcNode) (p : String × Int) :
    PropState.labels { nodes := st.nodes.insert v p, stack } = Function.update st.labels v (some p) := by
  funext a
  unfold PropState.labels
  rw [getElem?_insert_eq]
  by_cases ha : v = a
  · subst ha
    rw [if_pos rfl, Function.update_self]
  · rw [if_neg ha, Function.update_of_ne (Ne.symm ha)]

inductive Updated (edges : NcPEdges) (src : NcNode) (dist : Int) (dst : NcNode) (st : PropState) : PropState → Prop
  | same (h : Relaxed st.labels src dist dst) : Updated edges src dist dst st st
  | better {st' : PropState} {name : String} {weight : Int} (hsrc : st.labels src = some (name, weight))
    (hless : ∀ name' weight', st.labels dst = some (name', weight') → cost weight dist < weight')
    (hlabels : st'.labels = Function.update st.labels dst (some (name, cost weight dist)))
    (hstack : st'.stack = st.stack ++ pushConstraints edges dst) : Updated edges src dist dst st st'

theorem updateOneWay_updated (edges : NcPEdges) (src : NcNode) (dist : Int) (dst : NcNode) (st : PropState) :
    Updated edges src dist dst st (updateOneWay edges src dist dst st) := by
  unfold updateOneWay
  cases hsrc : st.nodes[src]? with
  | none =>
    refine .same fun name w h => ?_
    have hnone : st.labels src = none := hsrc
    rw [hnone] at h
    cases h
  | some p =>
    obtain ⟨name, weight⟩ := p
    have hlabel : st.labels src = some (name, weight) := hsrc
    dsimp only
    cases hdst : st.nodes[dst]? with
    | none =>
      refine .better hlabel (fun name' weight' h => ?_) (labels_insert st _ dst _) rfl
      have hnone : st.labels dst = none := hdst
      rw [hnone] at h
      cases h
    | some p =>
      obtain ⟨name', weight'⟩ := p
      have hlabel' : st.labels dst = some (name', weight') := hdst
      dsimp only
      by_cases hless : max weight 0 + dist < weight'
      · rw [if_pos hless]
        refine .better hlabel (fun name'' weight'' h => ?_) (labels_insert st _ dst _) rfl
        rw [hlabel'] at h
        obtain ⟨-, rfl⟩ := Prod.mk.inj (Option.some.inj h)
        exact hless
      · rw [if_neg hless]
        refine .same fun name'' weight'' h => ⟨name', weight', hlabel', ?_⟩
        rw [hlabel] at h
        obtain ⟨-, rfl⟩ := Prod.mk.inj (Option.some.inj h)
        exact not_lt.mp hless

section
variable {edges0 : List NcEdge} {src dst : NcNode} {dist : Int} {st st' : PropState}

theorem Updated.settled (h : Updated (registerEdges edges0) src dist dst st st') {x y : NcNode} {d : Int}
    (hlink : Linked edges0 x d y) (hset : Settled st x d y) : Settled st' x d y := by
  cases h with
  | same h => exact hset
  | better hsrc hless hlabels hstack =>
    unfold Settled
    rw [hlabels, hstack]
    rcases hset with hrel | ⟨e, he, hj⟩
    · by_cases hx : x = dst
      · subst hx
        refine .inr ⟨{ src := x, dest := y, dist := d }, mem_append_right _ ?_, rfl, .inl ⟨rfl, rfl⟩⟩
        exact mem_pushConstraints.mpr ⟨rfl, hlink⟩
      · exact .inl (hrel.update hx fun name' w' hw => (hless name' w' hw).le)
    · exact .inr ⟨e, mem_append_left _ he, hj⟩

variable {edges : NcPEdges}

theorem Updated.relaxed (h : Updated edges src dist dst st st') (hdist : 0 ≤ dist) :
    Relaxed st'.labels src dist dst := by
  cases h with
  | same h => exact h
  | @better _ name weight hsrc hless hlabels hstack =>
    rw [hlabels]
    intro name' w' hw
    refine ⟨name, cost weight dist, Function.update_self _ _ _, ?_⟩
    by_cases hsd : src = dst
    · -- a link from a node to itself improves nothing
      have hlt := hless name weight (hsd ▸ hsrc)
      unfold cost at hlt
      omega
    · rw [Function.update_of_ne hsd, hsrc] at hw
      obtain ⟨-, rfl⟩ := Prod.mk.inj (Option.some.inj hw)
      exact le_refl _

theorem Updated.improves {E : NcNode → Int → NcNode → Prop} (hE : ∀ x d y, E x d y → 0 ≤ d)
    (h : Updated edges src dist dst st st') (hlink : E src dist dst) {start : Labels NcNode String}
    (himp : Improves E start st.labels) : Improves E start st'.labels := by
  cases h with
  | same h => exact himp
  | better hsrc hless hlabels hstack =>
    rw [hlabels]
    exact himp.update hE hsrc hlink hless

theorem Updated.rank {V : Finset NcNode} (h : Updated edges src dist dst st st') (hdist : 0 ≤ dist)
    (hdst : dst ∈ V) : Prod.Lex (· < ·) (· < ·) (rank V st'.labels) (rank V st.labels) ∨ st' = st := by
  cases h with
  | same h => exact .inr rfl
  | better hsrc hless hlabels hstack =>
    refine .inl ?_
    rw [hlabels]
    refine rank_update V hdst ?_ hless
    unfold cost
    omega

end

/-! ## The loop -/

section
variable {edges0 : List NcEdge} (hdist : ∀ e ∈ edges0, 0 ≤ e.dist)
include hdist

theorem Linked.nonneg (x : NcNode) (d : Int) (y : NcNode) (h : Linked edges0 x d y) : 0 ≤ d := by
  obtain ⟨e, he, rfl, -⟩ := h
  exact hdist e he

/-- The stack holds edges of the graph, every other link is relaxed, and the labels come from those of the start. -/
structure Propagated (edges0 : List NcEdge) (start : Labels NcNode String) (st : PropState) : Prop where
  stack : ∀ e ∈ st.stack, Linked edges0 e.src e.dist e.dest
  settled : ∀ x d y, Linked edges0 x d y → Settled st x d y
  improves : Improves (Linked edges0) start st.labels

def round (edges : NcPEdges) (c : NcEdge) (st : PropState) : PropState :=
  updateOneWay edges c.dest c.dist c.src (updateOneWay edges c.src c.dist c.dest st)

omit hdist in
theorem Updated.stack_linked {src dst : NcNode} {dist : Int} {st st' : PropState}
    (h : Updated (registerEdges edges0) src dist dst st st') (hst : ∀ e ∈ st.stack, Linked edges0 e.src e.dist e.dest) :
    ∀ e ∈ st'.stack, Linked edges0 e.src e.dist e.dest := by
  cases h with
  | same h => exact hst
  | better hsrc hless hlabels hstack =>
    intro e he
    rw [hstack] at he
    rcases mem_append.mp he with he | he
    · exact hst e he
    · obtain ⟨rfl, hlink⟩ := mem_pushConstraints.mp he
      exact hlink

theorem Propagated.round {start : Labels NcNode String} {st : PropState} {c : NcEdge} {stack : List NcEdge}
    (h : Propagated edges0 start st) (hstack : st.stack = c :: stack) :
    Propagated edges0 start (round (registerEdges edges0) c { st with stack }) := by
  have hc : Linked edges0 c.src c.dist c.dest := h.stack c (by rw [hstack]; exact mem_cons_self)
  have hnonneg := Linked.nonneg hdist _ _ _ hc
  have h₁ := updateOneWay_updated (registerEdges edges0) c.src c.dist c.dest { st with stack }
  have h₂ := updateOneWay_updated (registerEdges edges0) c.dest c.dist c.src
    (updateOneWay (registerEdges edges0) c.src c.dist c.dest { st with stack })
  refine ⟨h₂.stack_linked (h₁.stack_linked ?_), ?_, ?_⟩
  · intro e he
    exact h.stack e (by rw [hstack]; exact mem_cons_of_mem c he)
  · intro x d y hlink
    by_cases hj : c.Joins x d y
    · -- the popped edge is relaxed in both ways
      obtain ⟨rfl, ⟨rfl, rfl⟩ | ⟨rfl, rfl⟩⟩ := hj
      · exact h₂.settled hlink (.inl (h₁.relaxed hnonneg))
      · exact .inl (h₂.relaxed hnonneg)
    · refine h₂.settled hlink (h₁.settled hlink ?_)
      rcases h.settled x d y hlink with hrel | ⟨e, he, hej⟩
      · exact .inl hrel
      · rw [hstack] at he
        rcases mem_cons.mp he with rfl | he
        · exact absurd hej hj
        · exact .inr ⟨e, he, hej⟩
  · exact h₂.improves (Linked.nonneg hdist) hc.symm (h₁.improves (Linked.nonneg hdist) hc h.improves)

def graphNodes (edges0 : List NcEdge) : Finset NcNode := (edges0.flatMap fun e => [e.src, e.dest]).toFinset

omit hdist in
theorem Linked.mem_graphNodes {x y : NcNode} {d : Int} (h : Linked edges0 x d y) : x ∈ graphNodes edges0 := by
  obtain ⟨e, he, -, hends⟩ := h
  unfold graphNodes
  rw [mem_toFinset, mem_flatMap]
  refine ⟨e, he, ?_⟩
  rcases hends with ⟨rfl, -⟩ | ⟨rfl, -⟩ <;> simp

theorem round_rank (st : PropState) {c : NcEdge} (hc : Linked edges0 c.src c.dist c.dest) :
    Prod.Lex (· < ·) (· < ·) (rank (graphNodes edges0) (round (registerEdges edges0) c st).labels)
        (rank (graphNodes edges0) st.labels) ∨
      round (registerEdges edges0) c st = st := by
  have hnonneg := Linked.nonneg hdist _ _ _ hc
  have h₁ := (updateOneWay_updated (registerEdges edges0) c.src c.dist c.dest st).rank hnonneg hc.symm.mem_graphNodes
  have h₂ := (updateOneWay_updated (registerEdges edges0) c.dest c.dist c.src
    (updateOneWay (registerEdges edges0) c.src c.dist c.dest st)).rank hnonneg hc.mem_graphNodes
  unfold round
  rcases h₁ with h₁ | h₁
  · rcases h₂ with h₂ | h₂
    · exact .inl (Trans.trans h₂ h₁)
    · rw [h₂]
      exact .inl h₁
  · rw [h₁] at h₂ ⊢
    exact h₂

theorem go_ok (start : Labels NcNode String) (st : PropState) (h : Propagated edges0 start st) :
    ∃ n st', (∀ fuel ≥ n, go (registerEdges edges0) fuel st = .ok st'.nodes) ∧ st'.stack = [] ∧
      Propagated edges0 start st' := by
  cases hstack : st.stack with
  | nil =>
    refine ⟨1, st, fun fuel hfuel => ?_, hstack, h⟩
    obtain ⟨fuel, rfl⟩ := Nat.exists_eq_add_of_le' hfuel
    rw [go, hstack]
  | cons c stack =>
    obtain ⟨n, st', hrun, hdone, ht⟩ := go_ok start _ (h.round hdist hstack)
    refine ⟨n + 1, st', fun fuel hfuel => ?_, hdone, ht⟩
    obtain ⟨fuel, rfl⟩ := Nat.exists_eq_add_of_le' (Nat.le_of_add_left_le hfuel)
    rw [go, hstack]
    exact hrun fuel (by omega)
termination_by (rank (graphNodes edges0) st.labels, st.stack.length)
decreasing_by
  have hc : Linked edges0 c.src c.dist c.dest := h.stack c (by rw [hstack]; exact mem_cons_self)
  rcases round_rank hdist { st with stack } hc with hlt | heq
  · exact .left _ _ hlt
  · rw [heq, hstack]
    exact .right _ (by simp)

end

/-! ## The names -/

def pureId : NcNode → Option Nat
  | .pure id => some id
  | .llbc _ => none

theorem mem_pureId {v : NcNode} {id : Nat} : pureId v = some id ↔ v = .pure id := by
  cases v <;> simp [pureId]

theorem nodup_pureNames (nodes : IdMap NcNode (String × Int)) :
    ((nodes.toList.filterMap pureName).map Prod.fst).Nodup := by
  have hids : (nodes.toList.filterMap pureName).map Prod.fst = (nodes.toList.map Prod.fst).filterMap pureId := by
    rw [map_filterMap, filterMap_map]
    refine filterMap_congr fun p _ => ?_
    obtain ⟨v, name, w⟩ := p
    cases v <;> rfl
  rw [hids]
  refine (nodup_map_fst_toList nodes).filterMap fun v v' id hv hv' => ?_
  rw [mem_pureId.mp hv, mem_pureId.mp hv']

theorem getElem?_names (nodes : IdMap NcNode (String × Int)) (id : Nat) (name : String) :
    (Std.ExtTreeMap.ofList (nodes.toList.filterMap pureName) : IdMap Nat String)[id]? = some name ↔
      ∃ w, nodes[NcNode.pure id]? = some (name, w) := by
  rw [getElem?_ofList_iff (nodup_pureNames nodes), mem_filterMap]
  refine ⟨?_, ?_⟩
  · rintro ⟨⟨v, name', w⟩, hmem, hv⟩
    cases v with
    | llbc id => cases hv
    | pure id' =>
      obtain ⟨rfl, rfl⟩ := Prod.mk.inj (Option.some.inj hv)
      exact ⟨w, Std.ExtTreeMap.mem_toList_iff_getElem?_eq_some.mp hmem⟩
  · rintro ⟨w, hw⟩
    exact ⟨(.pure id, name, w), Std.ExtTreeMap.mem_toList_iff_getElem?_eq_some.mpr hw, rfl⟩

/-- The propagation terminates. A variable is named if a name can come to it, with a name that comes at the least cost;
a variable keeps its own name unless another one comes at a strictly smaller cost. -/
theorem propagateConstraints_spec (nodes : IdMap NcNode (String × Int)) (edges0 : List NcEdge)
    (hdist : ∀ e ∈ edges0, 0 ≤ e.dist) :
    let comes := Comes (Linked edges0) fun v => nodes[v]?
    ∃ n names, (∀ fuel ≥ n, computePrettyNamesPropagateConstraints fuel nodes edges0 = .ok names) ∧
      (∀ id, id ∈ names ↔ ∃ name c, comes name c (.pure id)) ∧
      (∀ id name, names[id]? = some name →
        ∃ c, comes name c (.pure id) ∧ ∀ name' c', comes name' c' (.pure id) → c ≤ c') ∧
      ∀ (id : Nat) (name : String) (w : Int), nodes[NcNode.pure id]? = some (name, w) →
        (∀ name' c, comes name' c (.pure id) → cost w 0 ≤ c) → names[id]? = some name := by
  intro comes
  have hinit : Propagated edges0 (fun v => nodes[v]?) { nodes, stack := edges0 } := by
    refine ⟨?_, ?_, fun v => .inl rfl⟩
    · intro e he
      exact ⟨e, he, rfl, .inl ⟨rfl, rfl⟩⟩
    · intro x d y hlink
      exact .inr hlink
  obtain ⟨n, st, hrun, hdone, hst⟩ := go_ok hdist _ _ hinit
  have hrelaxed : ∀ x d y, Linked edges0 x d y → Relaxed st.labels x d y := by
    intro x d y hlink
    rcases hst.settled x d y hlink with hrel | ⟨e, he, -⟩
    · exact hrel
    · rw [hdone] at he
      cases he
  have hopt := hst.improves.optimal (Linked.nonneg hdist) hrelaxed
  refine ⟨n, .ofList (st.nodes.toList.filterMap pureName), fun fuel hfuel => ?_, ?_, ?_, ?_⟩
  · exact bind_eq_ok.mpr ⟨st.nodes, hrun fuel hfuel, rfl⟩
  · intro id
    rw [← hopt.labelled, Std.ExtTreeMap.mem_iff_isSome_getElem?, Option.isSome_iff_exists, Option.isSome_iff_exists]
    refine ⟨?_, ?_⟩
    · rintro ⟨name, hname⟩
      obtain ⟨w, hw⟩ := (getElem?_names _ _ _).mp hname
      exact ⟨_, hw⟩
    · rintro ⟨⟨name, w⟩, hw⟩
      exact ⟨name, (getElem?_names _ _ _).mpr ⟨w, hw⟩⟩
  · intro id name hname
    obtain ⟨w, hw⟩ := (getElem?_names _ _ _).mp hname
    exact hopt.least _ name w hw
  · intro id name w hw hleast
    exact (getElem?_names _ _ _).mpr ⟨w, hopt.own _ name w hw hleast⟩

def pairNodes : IdMap NcNode (String × Int) := (∅ : IdMap NcNode (String × Int)).insert (.pure 0) ("x", 1)

def pairEdges : List NcEdge := [{ src := .pure 0, dest := .pure 1, dist := 2 }]

/-- Two variables, the first of which has a name; it comes to the other one at the least cost. -/
theorem propagateConstraints_spec_pair : ∃ n names,
    (∀ fuel ≥ n, computePrettyNamesPropagateConstraints fuel pairNodes pairEdges = .ok names) ∧
    names[0]? = some "x" ∧ names[1]? = some "x" ∧
    ∃ c, Comes (Linked pairEdges) (fun v => pairNodes[v]?) "x" c (.pure 1) ∧
      ∀ name' c', Comes (Linked pairEdges) (fun v => pairNodes[v]?) name' c' (.pure 1) → c ≤ c' := by
  obtain ⟨n, names, hrun, -, hleast, -⟩ := propagateConstraints_spec pairNodes pairEdges (by decide)
  have heval : computePrettyNamesPropagateConstraints (n + 9) pairNodes pairEdges =
      .ok (.ofList [(0, "x"), (1, "x")]) := rfl
  obtain rfl := Except.ok.inj ((hrun (n + 9) (Nat.le_add_right n 9)).symm.trans heval)
  exact ⟨n, _, hrun, rfl, rfl, hleast 1 "x" rfl⟩

end Aeneas.PrettyNames
