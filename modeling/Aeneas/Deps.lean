import Aeneas.Collections

/-!
# The local uses of external items (`utils/Deps.ml`)

The graph maps an item to the items that use it. The local uses of some external items
are found by a traversal of the graph that stops at the local items.
-/

namespace Aeneas.Deps

open List

inductive ItemId where
  | idType (id : Nat)
  | idFun (id : Nat)
  | idGlobal (id : Nat)
  | idTraitDecl (id : Nat)
  | idTraitImpl (id : Nat)
deriving DecidableEq

def ItemId.kind : ItemId → Nat
  | .idType _ => 0
  | .idFun _ => 1
  | .idGlobal _ => 2
  | .idTraitDecl _ => 3
  | .idTraitImpl _ => 4

def ItemId.index : ItemId → Nat
  | .idType id | .idFun id | .idGlobal id | .idTraitDecl id | .idTraitImpl id => id

def compareItemId : ItemId → ItemId → Ordering :=
  compareLex (compareOn ItemId.kind) (compareOn ItemId.index)

instance : Ord ItemId := ⟨compareItemId⟩

instance : Std.TransOrd ItemId := inferInstanceAs (Std.TransCmp (compareLex _ _))

instance : Std.LawfulEqOrd ItemId where
  eq_of_compare {a b} h := by
    obtain ⟨hkind, hindex⟩ := compareLex_eq_eq.mp h
    have hkind : a.kind = b.kind := Std.LawfulEqCmp.eq_of_compare hkind
    have hindex : a.index = b.index := Std.LawfulEqCmp.eq_of_compare hindex
    cases a <;> cases b <;> simp_all [ItemId.kind, ItemId.index]

/-- Spans are only compared. -/
abbrev Span := Nat

structure ItemInfo where
  id : ItemId
  span : Span
  isLocal : Bool
deriving DecidableEq

def compareItemInfo : ItemInfo → ItemInfo → Ordering :=
  compareLex (compareOn ItemInfo.id) (compareLex (compareOn ItemInfo.span) (compareOn ItemInfo.isLocal))

instance : Ord ItemInfo := ⟨compareItemInfo⟩

instance : Std.TransOrd ItemInfo := inferInstanceAs (Std.TransCmp (compareLex _ _))

instance : Std.LawfulEqOrd ItemInfo where
  eq_of_compare {a b} h := by
    obtain ⟨hid, h⟩ := compareLex_eq_eq.mp h
    obtain ⟨hspan, hlocal⟩ := compareLex_eq_eq.mp h
    have hid : a.id = b.id := Std.LawfulEqCmp.eq_of_compare hid
    have hspan : a.span = b.span := Std.LawfulEqCmp.eq_of_compare hspan
    have hlocal : a.isLocal = b.isLocal := Std.LawfulEqCmp.eq_of_compare hlocal
    cases a
    cases b
    simp_all

structure GraphOfUses where
  graph : IdMap ItemId (IdSet ItemInfo)
  locals : IdSet ItemId

/-! ## The graph of a crate

The visitor meets the identifiers of the crate one after the other, each with the item
and the span it is met in. -/

section
variable (isLocal : ItemId → Bool)

def addOptLocal (g : GraphOfUses) (id : ItemId) : GraphOfUses :=
  if isLocal id then { g with locals := g.locals.insert id } else g

def addEdge (g : GraphOfUses) (src : ItemId) (info : Option (ItemId × Span)) : GraphOfUses :=
  let g := addOptLocal isLocal g src
  match info with
  | none => g
  | some (tgt, span) =>
    let g := addOptLocal isLocal g tgt
    let info := { id := tgt, span, isLocal := isLocal tgt }
    let users := match g.graph[src]? with
      | none => (∅ : IdSet ItemInfo).insert info
      | some s => s.insert info
    { g with graph := g.graph.insert src users }

def computeGraphOfUses (visited : List (ItemId × Option (ItemId × Span))) : GraphOfUses :=
  visited.foldl (fun g v => addEdge isLocal g v.1 v.2) { graph := ∅, locals := ∅ }

end

def GraphOfUses.usersOf (g : GraphOfUses) (id : ItemId) : IdSet ItemInfo :=
  (g.graph[id]?).getD ∅

def GraphOfUses.Uses (g : GraphOfUses) (id : ItemId) (user : ItemInfo) : Prop :=
  user ∈ g.usersOf id

structure GraphOfUses.Marked (isLocal : ItemId → Bool) (g : GraphOfUses) : Prop where
  user : ∀ id user, g.Uses id user → user.isLocal = isLocal user.id
  locals : ∀ id ∈ g.locals, isLocal id = true
  source : ∀ id user, g.Uses id user → isLocal id = true → id ∈ g.locals

theorem addOptLocal_graph (isLocal : ItemId → Bool) (g : GraphOfUses) (id : ItemId) :
    (addOptLocal isLocal g id).graph = g.graph := by
  unfold addOptLocal
  split <;> rfl

theorem mem_addOptLocal (isLocal : ItemId → Bool) (g : GraphOfUses) (id a : ItemId) :
    a ∈ (addOptLocal isLocal g id).locals ↔ (id = a ∧ isLocal id = true) ∨ a ∈ g.locals := by
  unfold addOptLocal
  by_cases h : isLocal id = true
  · rw [if_pos h]
    change a ∈ g.locals.insert id ↔ _
    rw [mem_insert_iff]
    simp [h]
  · rw [if_neg h]
    simp [h]

variable {isLocal : ItemId → Bool} {g : GraphOfUses} {id : ItemId}

theorem uses_addOptLocal {src : ItemId} {user : ItemInfo} :
    (addOptLocal isLocal g id).Uses src user ↔ g.Uses src user := by
  unfold GraphOfUses.Uses GraphOfUses.usersOf
  rw [addOptLocal_graph]

theorem addOptLocal_marked (h : g.Marked isLocal) (id : ItemId) :
    (addOptLocal isLocal g id).Marked isLocal := by
  refine ⟨?_, ?_, ?_⟩
  · intro src user hu
    exact h.user src user (uses_addOptLocal.mp hu)
  · intro a ha
    rcases (mem_addOptLocal isLocal g id a).mp ha with ⟨rfl, hl⟩ | ha
    · exact hl
    · exact h.locals a ha
  · intro src user hu hl
    exact (mem_addOptLocal isLocal g id src).mpr (.inr (h.source src user (uses_addOptLocal.mp hu) hl))

theorem uses_addEdge {src tgt : ItemId} {span : Span}
    {user : ItemInfo} :
    (addEdge isLocal g src (some (tgt, span))).Uses id user ↔
      (src = id ∧ user = { id := tgt, span, isLocal := isLocal tgt }) ∨ g.Uses id user := by
  have husers : (addEdge isLocal g src (some (tgt, span))).usersOf id =
      if src = id then (g.usersOf src).insert { id := tgt, span, isLocal := isLocal tgt } else g.usersOf id := by
    unfold addEdge GraphOfUses.usersOf
    dsimp only
    rw [getElem?_insert_eq, addOptLocal_graph, addOptLocal_graph]
    by_cases hid : src = id
    · rw [if_pos hid, if_pos hid]
      cases g.graph[src]? <;> rfl
    · rw [if_neg hid, if_neg hid]
  unfold GraphOfUses.Uses
  rw [husers]
  by_cases hid : src = id
  · subst hid
    rw [if_pos rfl]
    refine (mem_insert_iff _ _ _).trans ?_
    simp [eq_comm]
  · simp [hid]

theorem addEdge_marked (h : g.Marked isLocal) (src : ItemId)
    (info : Option (ItemId × Span)) : (addEdge isLocal g src info).Marked isLocal := by
  have hsrc := addOptLocal_marked h src
  cases info with
  | none => exact hsrc
  | some info =>
    obtain ⟨tgt, span⟩ := info
    have htgt := addOptLocal_marked hsrc tgt
    refine ⟨?_, htgt.locals, ?_⟩
    · intro id user hu
      rcases uses_addEdge.mp hu with ⟨-, rfl⟩ | hu
      · rfl
      · exact h.user id user hu
    · intro id user hu hl
      refine (mem_addOptLocal isLocal _ tgt id).mpr (.inr ?_)
      rcases uses_addEdge.mp hu with ⟨rfl, -⟩ | hu
      · exact (mem_addOptLocal isLocal g src src).mpr (.inl ⟨rfl, hl⟩)
      · exact (mem_addOptLocal isLocal g src id).mpr (.inr (h.source id user hu hl))

theorem computeGraphOfUses_uses (isLocal : ItemId → Bool) (visited : List (ItemId × Option (ItemId × Span)))
    (id : ItemId) (user : ItemInfo) :
    (computeGraphOfUses isLocal visited).Uses id user ↔
      (id, some (user.id, user.span)) ∈ visited ∧ user.isLocal = isLocal user.id := by
  induction visited using List.reverseRecOn with
  | nil => simp [computeGraphOfUses, GraphOfUses.Uses, GraphOfUses.usersOf]
  | append_singleton visited v ih =>
    obtain ⟨src, info⟩ := v
    have hrun : computeGraphOfUses isLocal (visited ++ [(src, info)]) =
        addEdge isLocal (computeGraphOfUses isLocal visited) src info := by
      unfold computeGraphOfUses
      rw [foldl_append]
      rfl
    rw [hrun]
    cases info with
    | none =>
      refine uses_addOptLocal.trans (ih.trans ?_)
      simp
    | some info =>
      obtain ⟨tgt, span⟩ := info
      rw [uses_addEdge, ih]
      obtain ⟨uid, uspan, ulocal⟩ := user
      simp only [mem_append, mem_singleton, Prod.mk.injEq, Option.some.injEq, ItemInfo.mk.injEq]
      grind

theorem computeGraphOfUses_marked (isLocal : ItemId → Bool) (visited : List (ItemId × Option (ItemId × Span))) :
    (computeGraphOfUses isLocal visited).Marked isLocal := by
  unfold computeGraphOfUses
  refine List.foldlRecOn visited _ ?_ ?_
  · refine ⟨?_, ?_, ?_⟩ <;> simp [GraphOfUses.Uses, GraphOfUses.usersOf]
  · intro g hg v _
    exact addEdge_marked hg v.1 v.2

/-! ## The traversal -/

structure UsesState where
  stack : List ItemId
  uses : IdSet ItemInfo
  explored : IdSet ItemId

def visitUser (st : UsesState) (user : ItemInfo) : UsesState :=
  if user.isLocal then { st with uses := st.uses.insert user }
  else { st with stack := user.id :: st.stack }

def exploreItem (g : GraphOfUses) (st : UsesState) (id : ItemId) : UsesState :=
  if st.explored.contains id then st
  else
    let st := { st with explored := st.explored.insert id }
    match g.graph[id]? with
    | none => st
    | some users => users.toList.foldl visitUser st

def computeLocalUsesLoop (g : GraphOfUses) : Nat → UsesState → Except Exn (IdSet ItemInfo)
  | 0, _ => .error .outOfFuel
  | fuel + 1, st =>
    match st.stack with
    | [] => .ok st.uses
    | id :: stack => computeLocalUsesLoop g fuel (exploreItem g { st with stack } id)

def computeLocalUses (fuel : Nat) (g : GraphOfUses) (ids : List ItemId) : Except Exn (IdSet ItemInfo) :=
  let ids := ids.filter fun id => !g.locals.contains id
  computeLocalUsesLoop g fuel { stack := ids, uses := ∅, explored := ∅ }

/-- The user is reached from the item, and all the users in between are external. -/
inductive UsedThroughExternals (g : GraphOfUses) : ItemId → ItemInfo → Prop
  | user {id : ItemId} {user : ItemInfo} : g.Uses id user → UsedThroughExternals g id user
  | through {id : ItemId} {via user : ItemInfo} : g.Uses id via → via.isLocal = false →
    UsedThroughExternals g via.id user → UsedThroughExternals g id user

structure Visited (users : List ItemInfo) (st st' : UsesState) : Prop where
  explored : st'.explored = st.explored
  uses : ∀ u, u ∈ st'.uses ↔ u ∈ st.uses ∨ u ∈ users ∧ u.isLocal = true
  stack : ∀ id, id ∈ st'.stack ↔ id ∈ st.stack ∨ ∃ u ∈ users, u.isLocal = false ∧ u.id = id

theorem visited_foldl (users : List ItemInfo) (st : UsesState) : Visited users st (users.foldl visitUser st) := by
  induction users generalizing st with
  | nil => exact ⟨rfl, by simp, by simp⟩
  | cons u users ih =>
    have hrest := ih (visitUser st u)
    rw [foldl_cons]
    cases hu : u.isLocal with
    | true =>
      have hst : visitUser st u = { st with uses := st.uses.insert u } := if_pos hu
      refine ⟨?_, fun v => ?_, fun id => ?_⟩
      · rw [hrest.explored, hst]
      · rw [hrest.uses, hst]
        dsimp only
        rw [mem_insert_iff]
        grind
      · rw [hrest.stack, hst]
        grind
    | false =>
      have hst : visitUser st u = { st with stack := u.id :: st.stack } := if_neg (by simp [hu])
      refine ⟨?_, fun v => ?_, fun id => ?_⟩
      · rw [hrest.explored, hst]
      · rw [hrest.uses, hst]
        grind
      · rw [hrest.stack, hst]
        grind

theorem exploreItem_cases (g : GraphOfUses) (st : UsesState) (id : ItemId) :
    (id ∈ st.explored ∧ exploreItem g st id = st) ∨
    (id ∉ st.explored ∧
      Visited (g.usersOf id).toList { st with explored := st.explored.insert id } (exploreItem g st id)) := by
  unfold exploreItem
  by_cases hid : id ∈ st.explored
  · exact .inl ⟨hid, if_pos (Std.ExtTreeSet.contains_iff_mem.mpr hid)⟩
  · refine .inr ⟨hid, ?_⟩
    rw [if_neg (fun h => hid (Std.ExtTreeSet.contains_iff_mem.mp h))]
    unfold GraphOfUses.usersOf
    cases g.graph[id]? with
    | none => exact ⟨rfl, by simp, by simp⟩
    | some users => exact visited_foldl _ _

theorem not_contains_iff (s : IdSet ItemId) (id : ItemId) : (!s.contains id) = true ↔ id ∉ s := by
  rw [Bool.not_eq_true', Bool.eq_false_iff, ne_eq, Std.ExtTreeSet.contains_iff_mem]

structure Traversed (g : GraphOfUses) (ids : List ItemId) (st : UsesState) : Prop where
  start : ∀ id ∈ ids, id ∈ st.stack ∨ id ∈ st.explored
  localUser : ∀ id ∈ st.explored, ∀ u, g.Uses id u → u.isLocal = true → u ∈ st.uses
  externalUser : ∀ id ∈ st.explored, ∀ u, g.Uses id u → u.isLocal = false → u.id ∈ st.stack ∨ u.id ∈ st.explored
  reached : ∀ id, id ∈ st.stack ∨ id ∈ st.explored →
    ∀ u, UsedThroughExternals g id u → ∃ start ∈ ids, UsedThroughExternals g start u
  used : ∀ u ∈ st.uses, u.isLocal = true ∧ ∃ start ∈ ids, UsedThroughExternals g start u

theorem Traversed.step {ids stack : List ItemId} {st : UsesState}
    (h : Traversed g ids st) (hstack : st.stack = id :: stack) :
    Traversed g ids (exploreItem g { st with stack } id) := by
  have hpop : ∀ a, a ∈ st.stack ↔ a = id ∨ a ∈ stack := by
    intro a
    rw [hstack, mem_cons]
  rcases exploreItem_cases g { st with stack } id with ⟨hid, heq⟩ | ⟨hid, hv⟩
  · rw [heq]
    refine ⟨?_, h.localUser, ?_, ?_, h.used⟩
    · intro a ha
      rcases h.start a ha with ha | ha
      · rcases (hpop a).mp ha with rfl | ha
        · exact .inr hid
        · exact .inl ha
      · exact .inr ha
    · intro a ha u hu hl
      rcases h.externalUser a ha u hu hl with hs | he
      · rcases (hpop u.id).mp hs with hs | hs
        · exact .inr (hs ▸ hid)
        · exact .inl hs
      · exact .inr he
    · intro a ha
      refine h.reached a (ha.imp_left ?_)
      exact fun hs => (hpop a).mpr (.inr hs)
  · have hexp : ∀ a, a ∈ (exploreItem g { st with stack } id).explored ↔ id = a ∨ a ∈ st.explored := by
      intro a
      rw [hv.explored]
      exact mem_insert_iff _ _ _
    have hmem : ∀ u, u ∈ (g.usersOf id).toList ↔ g.Uses id u := fun u => Std.ExtTreeSet.mem_toList
    refine ⟨?_, ?_, ?_, ?_, ?_⟩
    · intro a ha
      rw [hv.stack, hexp]
      rcases h.start a ha with ha | ha
      · rcases (hpop a).mp ha with rfl | ha
        · exact .inr (.inl rfl)
        · exact .inl (.inl ha)
      · exact .inr (.inr ha)
    · intro a ha u hu hl
      rw [hv.uses, hmem]
      rcases (hexp a).mp ha with rfl | ha
      · exact .inr ⟨hu, hl⟩
      · exact .inl (h.localUser a ha u hu hl)
    · intro a ha u hu hl
      rw [hv.stack, hexp]
      rcases (hexp a).mp ha with rfl | ha
      · exact .inl (.inr ⟨u, (hmem u).mpr hu, hl, rfl⟩)
      · rcases h.externalUser a ha u hu hl with hs | he
        · rcases (hpop u.id).mp hs with hs | hs
          · exact .inr (.inl hs.symm)
          · exact .inl (.inl hs)
        · exact .inr (.inr he)
    · have hidr := h.reached id (.inl ((hpop id).mpr (.inl rfl)))
      intro a ha u hu
      rw [hv.stack, hexp] at ha
      rcases ha with (ha | ⟨via, hvia, hl, rfl⟩) | (rfl | ha)
      · exact h.reached a (.inl ((hpop a).mpr (.inr ha))) u hu
      · exact hidr u (.through ((hmem via).mp hvia) hl hu)
      · exact hidr u hu
      · exact h.reached a (.inr ha) u hu
    · intro u hu
      rcases (hv.uses u).mp hu with hu | ⟨hu, hl⟩
      · exact h.used u hu
      · exact ⟨hl, h.reached id (.inl ((hpop id).mpr (.inl rfl))) u (.user ((hmem u).mp hu))⟩

theorem Traversed.mem_uses {ids : List ItemId} {st : UsesState} (h : Traversed g ids st)
    (hstack : st.stack = []) (u : ItemInfo) :
    u ∈ st.uses ↔ u.isLocal = true ∧ ∃ id ∈ ids, UsedThroughExternals g id u := by
  have hmem : ∀ a, a ∈ st.stack ∨ a ∈ st.explored → a ∈ st.explored := by
    intro a ha
    simpa [hstack] using ha
  refine ⟨h.used u, ?_⟩
  rintro ⟨hl, id, hid, hu⟩
  have hexplored := hmem id (h.start id hid)
  clear hid
  induction hu with
  | user huse => exact h.localUser _ hexplored _ huse hl
  | through huse hvia _ ih => exact ih hl (hmem _ (h.externalUser _ hexplored _ huse hvia))

/-! ## Termination -/

def unexplored (g : GraphOfUses) (st : UsesState) : List ItemId :=
  g.graph.keys.filter fun id => !st.explored.contains id

theorem mem_unexplored (g : GraphOfUses) (st : UsesState) (id : ItemId) :
    id ∈ unexplored g st ↔ id ∈ g.graph ∧ id ∉ st.explored := by
  unfold unexplored
  rw [mem_filter, not_contains_iff, Std.ExtTreeMap.mem_keys]

theorem exploreItem_measure (g : GraphOfUses) (st : UsesState) (id : ItemId) :
    (unexplored g (exploreItem g st id)).length < (unexplored g st).length ∨
    (unexplored g (exploreItem g st id)).length = (unexplored g st).length ∧
      (exploreItem g st id).stack = st.stack := by
  rcases exploreItem_cases g st id with ⟨-, heq⟩ | ⟨hid, hv⟩
  · rw [heq]
    exact .inr ⟨rfl, rfl⟩
  · have hsub : (unexplored g (exploreItem g st id)).Sublist (unexplored g st) := by
      refine List.monotone_filter_right _ fun a => ?_
      rw [hv.explored]
      simp
    by_cases hkey : id ∈ g.graph
    · refine .inl (lt_of_le_of_ne hsub.length_le fun hlen => ?_)
      have hmem : id ∈ unexplored g (exploreItem g st id) := by
        rw [hsub.eq_of_length hlen]
        exact (mem_unexplored g st id).mpr ⟨hkey, hid⟩
      refine ((mem_unexplored g _ id).mp hmem).2 ?_
      rw [hv.explored]
      exact (mem_insert_iff _ _ _).mpr (.inl rfl)
    · have hnone : g.graph[id]? = none := Std.ExtTreeMap.getElem?_eq_none hkey
      have heq : exploreItem g st id = { st with explored := st.explored.insert id } := by
        unfold exploreItem
        rw [if_neg (fun h => hid (Std.ExtTreeSet.contains_iff_mem.mp h)), hnone]
      refine .inr ⟨?_, by rw [heq]⟩
      congr 1
      refine filter_congr fun a ha => ?_
      have hne : id ≠ a := fun h => hkey (h ▸ Std.ExtTreeMap.mem_keys.mp ha)
      rw [heq]
      simp [hne]

theorem computeLocalUsesLoop_ok (g : GraphOfUses) (ids : List ItemId) (st : UsesState) (h : Traversed g ids st) :
    ∃ n st', (∀ fuel ≥ n, computeLocalUsesLoop g fuel st = .ok st'.uses) ∧ st'.stack = [] ∧ Traversed g ids st' := by
  cases hstack : st.stack with
  | nil =>
    refine ⟨1, st, fun fuel hfuel => ?_, hstack, h⟩
    obtain ⟨fuel, rfl⟩ := Nat.exists_eq_add_of_le' hfuel
    rw [computeLocalUsesLoop, hstack]
  | cons id stack =>
    obtain ⟨n, st', hrun, hdone, ht⟩ := computeLocalUsesLoop_ok g ids _ (h.step hstack)
    refine ⟨n + 1, st', fun fuel hfuel => ?_, hdone, ht⟩
    obtain ⟨fuel, rfl⟩ := Nat.exists_eq_add_of_le' (Nat.le_of_add_left_le hfuel)
    rw [computeLocalUsesLoop, hstack]
    exact hrun fuel (by omega)
termination_by ((unexplored g st).length, st.stack.length)
decreasing_by
  have hlex := exploreItem_measure g { st with stack } id
  have hsame : unexplored g { st with stack } = unexplored g st := rfl
  rw [hsame] at hlex
  rcases hlex with hlt | ⟨heq, hst⟩
  · exact .left _ _ hlt
  · rw [heq, hst, hstack]
    exact .right _ (by simp)

theorem computeLocalUses_ok (g : GraphOfUses) (ids : List ItemId) :
    ∃ n uses, (∀ fuel ≥ n, computeLocalUses fuel g ids = .ok uses) ∧ ∀ u, u ∈ uses ↔ u.isLocal = true ∧
      ∃ id ∈ ids.filter fun id => !g.locals.contains id, UsedThroughExternals g id u := by
  have hinit : Traversed g (ids.filter fun id => !g.locals.contains id)
      { stack := ids.filter fun id => !g.locals.contains id, uses := ∅, explored := ∅ } := by
    refine ⟨fun id hid => .inl hid, by simp, by simp, ?_, by simp⟩
    intro id hid u hu
    exact ⟨id, by simpa using hid, hu⟩
  obtain ⟨n, st, hrun, hdone, ht⟩ := computeLocalUsesLoop_ok g _ _ hinit
  exact ⟨n, st.uses, hrun, ht.mem_uses hdone⟩

/-- From the external items among `ids`, exactly the local users that are reached through external ones. -/
theorem computeLocalUses_spec (g : GraphOfUses) (ids : List ItemId) :
    ∃ n uses, (∀ fuel ≥ n, computeLocalUses fuel g ids = .ok uses) ∧
      ∀ u, u ∈ uses ↔ u.isLocal = true ∧ ∃ id ∈ ids, id ∉ g.locals ∧ UsedThroughExternals g id u := by
  obtain ⟨n, uses, hrun, hmem⟩ := computeLocalUses_ok g ids
  refine ⟨n, uses, hrun, fun u => (hmem u).trans (and_congr_right fun _ => exists_congr fun id => ?_)⟩
  rw [mem_filter, not_contains_iff, and_assoc]

/-- In the graph of a crate, what is local and what is external is as the crate says. -/
theorem computeLocalUses_crate (isLocal : ItemId → Bool) (visited : List (ItemId × Option (ItemId × Span)))
    (ids : List ItemId) :
    let g := computeGraphOfUses isLocal visited
    ∃ n uses, (∀ fuel ≥ n, computeLocalUses fuel g ids = .ok uses) ∧
      ∀ u, u ∈ uses ↔ isLocal u.id = true ∧ ∃ id ∈ ids, isLocal id = false ∧ UsedThroughExternals g id u := by
  intro g
  have hg : g.Marked isLocal := computeGraphOfUses_marked isLocal visited
  have huser : ∀ id u, UsedThroughExternals g id u → u.isLocal = isLocal u.id := by
    intro id u hu
    induction hu with
    | user huse => exact hg.user _ _ huse
    | through _ _ _ ih => exact ih
  have hsource : ∀ id u, UsedThroughExternals g id u → (id ∉ g.locals ↔ isLocal id = false) := by
    intro id u hu
    rw [← Bool.not_eq_true, not_iff_not]
    refine ⟨hg.locals id, fun hl => ?_⟩
    cases hu with
    | user huse | through huse _ _ => exact hg.source _ _ huse hl
  obtain ⟨n, uses, hrun, hmem⟩ := computeLocalUses_ok g ids
  have hid : ∀ id, id ∈ ids.filter (fun id => !g.locals.contains id) ↔ id ∈ ids ∧ id ∉ g.locals := fun id => by
    rw [mem_filter, not_contains_iff]
  refine ⟨n, uses, hrun, fun u => (hmem u).trans ⟨?_, ?_⟩⟩
  · rintro ⟨hl, id, hin, hu⟩
    obtain ⟨hin, hext⟩ := (hid id).mp hin
    exact ⟨huser id u hu ▸ hl, id, hin, (hsource id u hu).mp hext, hu⟩
  · rintro ⟨hl, id, hin, hext, hu⟩
    exact ⟨(huser id u hu).trans hl, id, (hid id).mpr ⟨hin, (hsource id u hu).mpr hext⟩, hu⟩

/-- A crate where the local function 0 is used by the local function 1. -/
def localUse : GraphOfUses :=
  computeGraphOfUses (fun _ => true) [(.idFun 0, some (.idFun 1, 0))]

/-- Nothing is explored from a local item, whatever uses it. -/
theorem computeLocalUses_of_local :
    UsedThroughExternals localUse (.idFun 0) { id := .idFun 1, span := 0, isLocal := true } ∧
      ∀ fuel, computeLocalUses (fuel + 1) localUse [.idFun 0] = .ok ∅ := by
  have huse : localUse.Uses (.idFun 0) { id := .idFun 1, span := 0, isLocal := true } :=
    (computeGraphOfUses_uses _ _ _ _).mpr ⟨by simp, rfl⟩
  have hlocal : ItemId.idFun 0 ∈ localUse.locals := (computeGraphOfUses_marked _ _).source _ _ huse rfl
  have hnone : ([.idFun 0] : List ItemId).filter (fun id => !localUse.locals.contains id) = [] :=
    filter_cons_of_neg fun h => (not_contains_iff _ _).mp h hlocal
  refine ⟨.user huse, fun fuel => ?_⟩
  unfold computeLocalUses
  rw [hnone]
  rfl

end Aeneas.Deps
