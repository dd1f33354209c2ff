import Aeneas.Condensation

/-!
# Ordered strongly connected components

The components of a dependency graph come out of the graph library in an
arbitrary order. They are reordered to follow the order of the identifiers as
much as possible: the identifiers of a component are listed as in the input, and
the components are inserted in the order of the input by a depth-first search
which inserts the dependencies first.
-/

namespace Aeneas.Scc

abbrev SccId := Nat

structure Sccs (Id : Type) where
  sccs : IdMap SccId (List Id)
  /-- The dependencies between sccs -/
  sccDeps : IdMap SccId (IdSet SccId)

/-- The references updated by the depth-first search; SCCs are pushed to the
front of `reorderedSccs`. -/
structure Reordering where
  reorderedSccs : List SccId
  sccDeps : IdMap SccId (IdSet SccId)

variable {Id : Type} [Ord Id] [Std.TransOrd Id]

def insertDep (insert : SccId → Reordering → Except Exn Reordering) (idToScc : IdMap Id SccId) (sccId : SccId)
    (r : Reordering) (depId : Id) : Except Exn Reordering := do
  let depSccId ← find idToScc depId
  if depSccId = sccId then .ok r
  else do
    let sccDepsSet ← find r.sccDeps sccId
    -- Explore the parent SCC
    insert depSccId { r with sccDeps := r.sccDeps.insert sccId (sccDepsSet.insert depSccId) }

def insertIdDeps (insert : SccId → Reordering → Except Exn Reordering) (idDeps : IdMap Id (List Id))
    (idToScc : IdMap Id SccId) (sccId : SccId) (r : Reordering) (id : Id) : Except Exn Reordering := do
  let ids ← find idDeps id
  ids.foldlM (insertDep insert idToScc sccId) r

def insertSccWithDeps (idDeps : IdMap Id (List Id)) (sccs : IdMap SccId (List Id)) (idToScc : IdMap Id SccId) :
    Nat → SccId → Reordering → Except Exn Reordering
  | 0, _, _ => .error .outOfFuel
  | fuel + 1, sccId, r =>
    if sccId ∈ r.reorderedSccs then .ok r
    else do
      let scc ← find sccs sccId
      let r ← scc.foldlM (insertIdDeps (insertSccWithDeps idDeps sccs idToScc fuel) idDeps idToScc sccId) r
      .ok { r with reorderedSccs := sccId :: r.reorderedSccs }

def idToSccOf (sccs : List (List Id)) : IdMap Id SccId :=
  .ofList (sccs.mapIdx fun sccId scc => scc.map fun id => (id, sccId)).flatten

def reorderIds (idToScc : IdMap Id SccId) (ids : List Id) (sccs : List (List Id)) :
    Except Exn (IdMap SccId (List Id)) :=
  ids.foldlM (fun m id => do
    let sccId ← find idToScc id
    let sccIds ← find m sccId
    .ok (m.insert sccId (sccIds ++ [id])))
    (.ofList (sccs.mapIdx fun sccId _ => (sccId, [])))

def renumberSccs (reorderedSccs : IdMap SccId (List Id)) (r : Reordering) : Except Exn (Sccs Id) := do
  let reorderedSccsIds := r.reorderedSccs.reverse
  let oldToNewId : IdMap SccId SccId := .ofList (reorderedSccsIds.mapIdx fun newId oldId => (oldId, newId))
  let tgtSccs ← reorderedSccsIds.zipIdx.mapM fun p => do
    .ok (p.2, ← find reorderedSccs p.1)
  let tgtDeps ← r.sccDeps.toList.mapM fun p => do
    let newId ← find oldToNewId p.1
    let newDepsIds ← p.2.toList.mapM (find oldToNewId)
    .ok (newId, (Std.ExtTreeSet.ofList newDepsIds : IdSet SccId))
  .ok { sccs := .ofList tgtSccs, sccDeps := .ofList tgtDeps }

def reorderSccs (fuel : Nat) (idDeps : IdMap Id (List Id)) (ids : List Id) (sccs : List (List Id)) :
    Except Exn (Sccs Id) := do
  let idToScc := idToSccOf sccs
  let reorderedSccs ← reorderIds idToScc ids sccs
  -- Iterate over the ids, and add the corresponding SCCs (with their dependencies)
  let r ← ids.foldlM (fun r id => do
    let sccId ← find idToScc id
    insertSccWithDeps idDeps reorderedSccs idToScc fuel sccId r)
    { reorderedSccs := [], sccDeps := reorderedSccs.map fun _ _ => ∅ }
  renumberSccs reorderedSccs r

abbrev Digraph := List (Nat × Nat)

def Digraph.Vertex (g : Digraph) (v : Nat) : Prop := ∃ e ∈ g, e.1 = v ∨ e.2 = v

def Digraph.Edge (g : Digraph) (u v : Nat) : Prop := (u, v) ∈ g

def pairwiseDisjoint : List (IdSet Id) → Bool
  | [] => true
  | s :: l => l.all (fun t => s.toList.all fun a => !t.contains a) && pairwiseDisjoint l

def idToVertexOf (idl : List Id) : IdMap Id Nat := .ofList (idl.mapIdx fun lbl id => (id, lbl))

def vertexToIdOf (idToVertex : IdMap Id Nat) : IdMap Nat Id := .ofList (idToVertex.toList.map fun p => (p.2, p.1))

def graphOf (idToVertex : IdMap Id Nat) (m : List (Id × IdSet Id)) : Except Exn Digraph :=
  m.foldlM (fun g p => do
    let v ← find idToVertex p.1
    p.2.toList.foldlM (fun g depId => do .ok (g ++ [(v, ← find idToVertex depId)])) (g ++ [(v, v)])) []

def sanityCheck (ids : IdSet Id) (sccs : List (List Id)) : Except Exn Unit := do
  assert (pairwiseDisjoint (sccs.map fun scc => (Std.ExtTreeSet.ofList scc : IdSet Id)))
  assert ((Std.ExtTreeSet.ofList sccs.flatten : IdSet Id) == ids)

/-- Compute the ordered SCC components for a graph, which is a map from
identifier to set of identifiers; `sccList` is the graph library's. -/
def compute (sccList : Digraph → List (List Nat)) (fuel : Nat) (m : List (Id × IdSet Id)) :
    Except Exn (Sccs Id) := do
  let idl := m.map Prod.fst
  let ids : IdSet Id := .ofList idl
  let idToVertex := idToVertexOf idl
  let vertexToId := vertexToIdOf idToVertex
  let g ← graphOf idToVertex m
  let sccs ← (sccList g).mapM (List.mapM (find vertexToId))
  sanityCheck ids sccs
  let idDeps : IdMap Id (List Id) := .ofList (m.map fun p => (p.1, p.2.toList))
  let sccs ← reorderSccs fuel idDeps idl sccs
  sanityCheck ids (sccs.sccs.toList.map Prod.snd)
  .ok sccs

end Aeneas.Scc
