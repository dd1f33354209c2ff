import Aeneas.Scc

/-!
# The reordered components

The depth-first insertion keeps the inserted components in topological order and
records exactly the edges leaving them. The final numbering follows that order,
so every component depends on strictly smaller ones.
-/

namespace Aeneas.Scc

open Relation List

variable {Id : Type} [Ord Id] [Std.TransOrd Id]

/-! ## Identifiers and their components -/

omit [Ord Id] [Std.TransOrd Id] in
theorem map_fst_idToScc (sccs : List (List Id)) :
    ((sccs.mapIdx fun sccId scc => scc.map fun id => (id, sccId)).flatten).map Prod.fst = sccs.flatten := by
  rw [map_flatten]
  congr 1
  refine ext_getElem? fun i => ?_
  cases h : sccs[i]? <;> simp [h, Function.comp_def]

variable {sccs : List (List Id)}

theorem idToSccOf_eq_some [Std.LawfulEqOrd Id] (hn : sccs.flatten.Nodup) {id : Id} {i : SccId} :
    (idToSccOf sccs)[id]? = some i ↔ InComponent sccs id i := by
  rw [idToSccOf, getElem?_ofList_iff (by rw [map_fst_idToScc]; exact hn)]
  simp only [mem_flatten, mem_mapIdx, InComponent]
  constructor
  · rintro ⟨_, ⟨j, hj, rfl⟩, hmem⟩
    obtain ⟨a, ha, heq⟩ := mem_map.mp hmem
    obtain ⟨rfl, rfl⟩ := Prod.mk.inj heq
    exact ⟨_, getElem?_eq_getElem hj, ha⟩
  · rintro ⟨c, hc, hid⟩
    obtain ⟨hi, rfl⟩ := List.getElem?_eq_some_iff.mp hc
    exact ⟨_, ⟨i, hi, rfl⟩, mem_map_of_mem hid⟩

def memberIds (idToScc : IdMap Id SccId) (ids : List Id) (i : SccId) : List Id :=
  ids.filter fun id => idToScc[id]? == some i

variable {idToScc : IdMap Id SccId} {ids : List Id}

theorem mem_memberIds {i : SccId} {id : Id} :
    id ∈ memberIds idToScc ids i ↔ id ∈ ids ∧ idToScc[id]? = some i := by
  simp [memberIds]

theorem memberIds_append (idToScc : IdMap Id SccId) (pre : List Id) (id : Id) (i : SccId) :
    memberIds idToScc (pre ++ [id]) i =
      if idToScc[id]? = some i then memberIds idToScc pre i ++ [id] else memberIds idToScc pre i := by
  unfold memberIds
  rw [filter_append]
  by_cases h : idToScc[id]? = some i <;> simp [h]

theorem reorderIds_ok (htotal : ∀ id ∈ ids, ∃ i < sccs.length, idToScc[id]? = some i) :
    ∃ m, reorderIds idToScc ids sccs = .ok m ∧
      ∀ i, m[i]? = if i < sccs.length then some (memberIds idToScc ids i) else none := by
  refine foldlM_ok (P := fun pre (m : IdMap SccId (List Id)) =>
    ∀ i, m[i]? = if i < sccs.length then some (memberIds idToScc pre i) else none) ?_ ?_
  · intro pre id post m heq hm
    obtain ⟨k, hk, hid⟩ := htotal id (by simp [heq])
    have hmk : m[k]? = some (memberIds idToScc pre k) := by rw [hm, if_pos hk]
    refine ⟨m.insert k (memberIds idToScc pre k ++ [id]), ?_, fun i => ?_⟩
    · rw [bind_eq_of_ok (find_eq_ok.mpr hid), bind_eq_of_ok (find_eq_ok.mpr hmk)]
    · rw [getElem?_insert_eq, hm i, memberIds_append, hid]
      by_cases hki : k = i
      · subst hki
        simp [hk]
      · simp [hki]
  · intro i
    rw [getElem?_ofList_mapIdx]
    by_cases hi : i < sccs.length <;> simp [hi, memberIds]

/-! ## The depth-first insertion -/

section
variable (idDeps : IdMap Id (List Id)) (sccs : IdMap SccId (List Id)) (idToScc : IdMap Id SccId)

def DepEdge (i j : SccId) : Prop :=
  i ≠ j ∧ ∃ scc id ids d, sccs[i]? = some scc ∧ id ∈ scc ∧ idDeps[id]? = some ids ∧ d ∈ ids ∧
    idToScc[d]? = some j

structure Explores (n : Nat) : Prop where
  defined : ∀ i < n, ∃ scc, sccs[i]? = some scc ∧
    ∀ id ∈ scc, ∃ ids, idDeps[id]? = some ids ∧ ∀ d ∈ ids, ∃ j < n, idToScc[d]? = some j
  acyclic : ∀ i, ¬ TransGen (DepEdge idDeps sccs idToScc) i i

end

structure Reordering.Good (n : Nat) (E : SccId → SccId → Prop) (r : Reordering) : Prop where
  nodup : r.reorderedSccs.Nodup
  lt : ∀ i ∈ r.reorderedSccs, i < n
  topological : Topological E r.reorderedSccs
  sound : ∀ i D, r.sccDeps[i]? = some D → ∀ j ∈ D, E i j
  complete : ∀ i ∈ r.reorderedSccs, ∀ D, r.sccDeps[i]? = some D → ∀ j, E i j → j ∈ D
  dom : ∀ i, (∃ D, r.sccDeps[i]? = some D) ↔ i < n

structure Reordering.Extends (E : SccId → SccId → Prop) (i : SccId) (r r' : Reordering) : Prop where
  subset : ∀ k ∈ r.reorderedSccs, k ∈ r'.reorderedSccs
  reached : ∀ k ∈ r'.reorderedSccs, k ∈ r.reorderedSccs ∨ ReflTransGen E i k
  deps : ∀ (k : SccId) (D : IdSet SccId), r.sccDeps[k]? = some D →
    ∃ D' : IdSet SccId, r'.sccDeps[k]? = some D' ∧ ∀ j ∈ D, j ∈ D'

namespace Reordering
variable {n : Nat} {E : SccId → SccId → Prop} {i j : SccId} {r r' r'' : Reordering}

theorem Extends.refl : Extends E i r r := ⟨fun _ h => h, fun _ h => .inl h, fun _ D h => ⟨D, h, fun _ h => h⟩⟩

theorem Extends.trans (h : Extends E i r r') (h' : Extends E i r' r'') : Extends E i r r'' := by
  refine ⟨fun k hk => h'.subset k (h.subset k hk), fun k hk => ?_, fun k D hD => ?_⟩
  · rcases h'.reached k hk with hk | hk
    · exact h.reached k hk
    · exact .inr hk
  · obtain ⟨D', hD', hsub⟩ := h.deps k D hD
    obtain ⟨D'', hD'', hsub'⟩ := h'.deps k D' hD'
    exact ⟨D'', hD'', fun j hj => hsub' j (hsub j hj)⟩

theorem Extends.head (hij : E i j) (h : Extends E j r r') : Extends E i r r' :=
  ⟨h.subset, fun k hk => (h.reached k hk).imp_right (.head hij), h.deps⟩

theorem Good.record (h : r.Good n E) {D : IdSet SccId} (hD : r.sccDeps[i]? = some D) (hij : E i j) :
    Good n E { r with sccDeps := r.sccDeps.insert i (D.insert j) } where
  nodup := h.nodup
  lt := h.lt
  topological := h.topological
  sound k D' hD' l hl := by
    rw [getElem?_insert_eq] at hD'
    split_ifs at hD' with hik
    · subst hik
      cases hD'
      rcases (mem_insert_iff _ _ _).mp hl with rfl | hl
      · exact hij
      · exact h.sound i D hD l hl
    · exact h.sound k D' hD' l hl
  complete k hk D' hD' l hl := by
    rw [getElem?_insert_eq] at hD'
    split_ifs at hD' with hik
    · subst hik
      cases hD'
      exact (mem_insert_iff _ _ _).mpr (.inr (h.complete i hk D hD l hl))
    · exact h.complete k hk D' hD' l hl
  dom k := by
    rw [getElem?_insert_eq, ← h.dom k]
    split_ifs with hik
    · subst hik
      simp [hD]
    · rfl

theorem Extends.record {D : IdSet SccId} (hD : r.sccDeps[i]? = some D) :
    Extends E i r { r with sccDeps := r.sccDeps.insert i (D.insert j) } where
  subset _ h := h
  reached _ h := .inl h
  deps k D' hD' := by
    rw [getElem?_insert_eq]
    split_ifs with hik
    · subst hik
      rw [hD] at hD'
      cases hD'
      exact ⟨_, rfl, fun l hl => (mem_insert_iff _ _ _).mpr (.inr hl)⟩
    · exact ⟨D', hD', fun _ h => h⟩

theorem Good.push (h : r.Good n E) (hi : i < n) (hnew : i ∉ r.reorderedSccs)
    (hdone : ∀ j, E i j → j ∈ r.reorderedSccs ∧ ∀ D, r.sccDeps[i]? = some D → j ∈ D) :
    Good n E { r with reorderedSccs := i :: r.reorderedSccs } where
  nodup := nodup_cons.mpr ⟨hnew, h.nodup⟩
  lt := by simpa using ⟨hi, h.lt⟩
  topological := h.topological.cons fun j hj => (hdone j hj).1
  sound := h.sound
  complete k hk D hD j hj := by
    rcases mem_cons.mp hk with rfl | hk
    · exact (hdone j hj).2 D hD
    · exact h.complete k hk D hD j hj
  dom := h.dom

theorem Extends.push : Extends E i r { r with reorderedSccs := i :: r.reorderedSccs } where
  subset _ h := mem_cons_of_mem _ h
  reached k h := (mem_cons.mp h).symm.imp_right fun (h : k = i) => h ▸ .refl
  deps _ D h := ⟨D, h, fun _ h => h⟩

end Reordering

section
variable {idDeps : IdMap Id (List Id)} {sccs : IdMap SccId (List Id)} {idToScc : IdMap Id SccId} {n : Nat}

structure Exploring (idToScc : IdMap Id SccId) (n : Nat) (E : SccId → SccId → Prop) (i : SccId) (r₀ : Reordering)
    (ds : List Id) (r : Reordering) : Prop where
  good : r.Good n E
  extend : r₀.Extends E i r
  new : i ∉ r.reorderedSccs
  treated : ∀ d ∈ ds, ∀ j, idToScc[d]? = some j → i ≠ j →
    j ∈ r.reorderedSccs ∧ ∀ D, r.sccDeps[i]? = some D → j ∈ D

def Inserts (n : Nat) (E : SccId → SccId → Prop) (insert : SccId → Reordering → Except Exn Reordering)
    (j : SccId) : Prop :=
  ∀ r : Reordering, r.Good n E → ∃ r', insert j r = .ok r' ∧ r'.Good n E ∧ r.Extends E j r' ∧
    j ∈ r'.reorderedSccs

variable {insert : SccId → Reordering → Except Exn Reordering}

theorem Exploring.insertDep {E : SccId → SccId → Prop} (hac : ∀ i, ¬ TransGen E i i) {i : SccId} (hi : i < n)
    {r₀ : Reordering} {ds : List Id} {r : Reordering} (h : Exploring idToScc n E i r₀ ds r) {d : Id} {j : SccId}
    (hj : idToScc[d]? = some j)
    (hE : i ≠ j → E i j ∧ Inserts n E insert j) :
    ∃ r', insertDep insert idToScc i r d = .ok r' ∧ Exploring idToScc n E i r₀ (ds ++ [d]) r' := by
  rw [Scc.insertDep, bind_eq_of_ok (find_eq_ok.mpr hj)]
  by_cases hij : j = i
  · refine ⟨r, if_pos hij, h.good, h.extend, h.new, fun d' hd' j' hj' hne => ?_⟩
    rcases mem_append.mp hd' with hd' | hd'
    · exact h.treated d' hd' j' hj' hne
    · obtain rfl := mem_singleton.mp hd'
      rw [hj] at hj'
      cases hj'
      exact absurd hij.symm hne
  · obtain ⟨hEij, hins⟩ := hE (Ne.symm hij)
    obtain ⟨D, hD⟩ := (h.good.dom i).mpr hi
    obtain ⟨r', hr', hgood, hext, hmem⟩ := hins _ (h.good.record hD hEij)
    have hext' : r.Extends E i r' := (Reordering.Extends.record hD).trans (hext.head hEij)
    refine ⟨r', by rw [if_neg hij, bind_eq_of_ok (find_eq_ok.mpr hD), hr'], hgood, h.extend.trans hext', ?_, ?_⟩
    · intro hnew
      rcases hext.reached i hnew with hk | hk
      · exact h.new hk
      · exact hac i (TransGen.head' hEij hk)
    · intro d' hd' j' hj' hne
      rcases mem_append.mp hd' with hd' | hd'
      · obtain ⟨hin, hdep⟩ := h.treated d' hd' j' hj' hne
        obtain ⟨D₁, hD₁, hsub⟩ := hext'.deps i D hD
        refine ⟨hext'.subset j' hin, fun D' hD' => ?_⟩
        rw [hD₁] at hD'
        cases hD'
        exact hsub j' (hdep D hD)
      · obtain rfl := mem_singleton.mp hd'
        rw [hj] at hj'
        cases hj'
        obtain ⟨D₁, hD₁, hsub⟩ := hext.deps i (D.insert j) (by simp)
        refine ⟨hmem, fun D' hD' => ?_⟩
        rw [hD₁] at hD'
        cases hD'
        exact hsub j ((mem_insert_iff _ _ _).mpr (.inl rfl))

theorem Exploring.loop (h : Explores idDeps sccs idToScc n) {i : SccId} (hi : i < n) {scc : List Id}
    (hscc : sccs[i]? = some scc) {r₀ : Reordering} (hgood : r₀.Good n (DepEdge idDeps sccs idToScc))
    (hnew : i ∉ r₀.reorderedSccs)
    (hins : ∀ j < n, DepEdge idDeps sccs idToScc i j → Inserts n (DepEdge idDeps sccs idToScc) insert j) :
    ∃ r, scc.foldlM (insertIdDeps insert idDeps idToScc i) r₀ = .ok r ∧
      Exploring idToScc n (DepEdge idDeps sccs idToScc) i r₀ (scc.flatMap fun id => idDeps[id]?.getD []) r := by
  obtain ⟨_, hscc', hdef⟩ := h.defined i hi
  cases hscc.symm.trans hscc'
  refine foldlM_ok (P := fun pre r => Exploring idToScc n (DepEdge idDeps sccs idToScc) i r₀
    (pre.flatMap fun id => idDeps[id]?.getD []) r) ?_ ⟨hgood, .refl, hnew, by simp⟩
  intro pre id post r heq hpre
  have hid : id ∈ scc := by simp [heq]
  obtain ⟨ids, hids, hlook⟩ := hdef id hid
  rw [insertIdDeps, bind_eq_of_ok (find_eq_ok.mpr hids)]
  simp only [flatMap_append, flatMap_singleton, hids, Option.getD_some]
  refine foldlM_ok (P := fun pre' r' => Exploring idToScc n (DepEdge idDeps sccs idToScc) i r₀
    ((pre.flatMap fun id => idDeps[id]?.getD []) ++ pre') r') ?_ (by simpa using hpre)
  intro pre' d post' r' heq' hpre'
  have hd : d ∈ ids := by simp [heq']
  obtain ⟨j, hjn, hj⟩ := hlook d hd
  rw [← append_assoc]
  refine hpre'.insertDep h.acyclic hi hj fun hne => ?_
  have hE : DepEdge idDeps sccs idToScc i j := ⟨hne, scc, id, ids, d, hscc, hid, hids, hd, hj⟩
  exact ⟨hE, hins j hjn hE⟩

theorem insertSccWithDeps_ok (h : Explores idDeps sccs idToScc n) {rank : SccId → Nat}
    (hrank : ∀ i j, DepEdge idDeps sccs idToScc i j → rank j < rank i) :
    ∀ (fuel : Nat) (i : SccId), rank i < fuel → i < n →
      Inserts n (DepEdge idDeps sccs idToScc) (insertSccWithDeps idDeps sccs idToScc fuel) i
  | 0, _, hf, _ => absurd hf (Nat.not_lt_zero _)
  | fuel + 1, i, hf, hi => by
    intro r₀ hgood
    rw [insertSccWithDeps]
    by_cases hin : i ∈ r₀.reorderedSccs
    · exact ⟨r₀, if_pos hin, hgood, .refl, hin⟩
    rw [if_neg hin]
    obtain ⟨scc, hscc, -⟩ := h.defined i hi
    obtain ⟨r, hr, hexp⟩ := Exploring.loop h hi hscc hgood hin fun j hj hij =>
      insertSccWithDeps_ok h hrank fuel j (by have := hrank i j hij; omega) hj
    have hdone : ∀ j, DepEdge idDeps sccs idToScc i j →
        j ∈ r.reorderedSccs ∧ ∀ D, r.sccDeps[i]? = some D → j ∈ D := by
      rintro j ⟨hne, scc', id, ids, d, hscc', hid, hids, hd, hj⟩
      cases hscc.symm.trans hscc'
      exact hexp.treated d (mem_flatMap.mpr ⟨id, hid, by simpa [hids] using hd⟩) j hj hne
    refine ⟨_, ?_, hexp.good.push hi hexp.new hdone, hexp.extend.trans .push, mem_cons_self⟩
    rw [bind_eq_of_ok (find_eq_ok.mpr hscc), bind_eq_of_ok hr]

end

/-! ## The renumbering -/

structure Sccs.Sorted (ids : List Id) (E : Id → Id → Prop) (r : Sccs Id) (groups : List (List Id)) : Prop where
  sccs : ∀ i : SccId, r.sccs[i]? = groups[i]?
  components : Components (· ∈ ids) E groups
  sublist : ∀ g ∈ groups, g.Sublist ids
  dom : ∀ i : SccId, (∃ D, r.sccDeps[i]? = some D) ↔ i < groups.length
  deps : ∀ (i : SccId) (D : IdSet SccId), r.sccDeps[i]? = some D →
    ∀ j, j ∈ D ↔ ClassEdge E (InComponent groups) i j
  earlier : ∀ i j, ClassEdge E (InComponent groups) i j → j < i

variable [Std.LawfulEqOrd Id]

section
variable {E : Id → Id → Prop} {ids : List Id} {sccs : List (List Id)} {idDeps : IdMap Id (List Id)}
  {m : IdMap SccId (List Id)} (hcs : Components (· ∈ ids) E sccs)
  (hdeps : ∀ a ∈ ids, ∃ ds, idDeps[a]? = some ds ∧ ∀ b, b ∈ ds ↔ E a b)
  (hm : ∀ i : SccId, m[i]? = if i < sccs.length then some (memberIds (idToSccOf sccs) ids i) else none)
include hcs hdeps hm

theorem depEdge_eq : DepEdge idDeps m (idToSccOf sccs) = ClassEdge E (InComponent sccs) := by
  have hin {a : Id} {i : SccId} : (idToSccOf sccs)[a]? = some i ↔ InComponent sccs a i :=
    idToSccOf_eq_some hcs.nodup
  funext i j
  refine propext ⟨?_, ?_⟩
  · rintro ⟨hne, scc, a, ds, b, hscc, ha, hds, hb, hj⟩
    rw [hm] at hscc
    split_ifs at hscc with hi
    cases hscc
    obtain ⟨haids, hai⟩ := mem_memberIds.mp ha
    obtain ⟨ds', hds', hE⟩ := hdeps a haids
    cases hds.symm.trans hds'
    exact ⟨hne, a, b, hin.mp hai, (hE b).mp hb, hin.mp hj⟩
  · rintro ⟨hne, a, b, ha, hab, hb⟩
    obtain ⟨ds, hds, hE⟩ := hdeps a (hcs.vertex ha)
    exact ⟨hne, _, a, ds, b, by rw [hm, if_pos (inComponent_lt ha)],
      mem_memberIds.mpr ⟨hcs.vertex ha, hin.mpr ha⟩, hds, (hE b).mpr hab, hin.mpr hb⟩

theorem explores (hclosed : ∀ a b, a ∈ ids → E a b → b ∈ ids) :
    Explores idDeps m (idToSccOf sccs) sccs.length where
  defined i hi := by
    refine ⟨_, by rw [hm, if_pos hi], fun a ha => ?_⟩
    obtain ⟨haids, -⟩ := mem_memberIds.mp ha
    obtain ⟨ds, hds, hE⟩ := hdeps a haids
    refine ⟨ds, hds, fun b hb => ?_⟩
    obtain ⟨j, hj⟩ := hcs.total (hclosed a b haids ((hE b).mp hb))
    exact ⟨j, inComponent_lt hj, (idToSccOf_eq_some hcs.nodup).mpr hj⟩
  acyclic i := by
    rw [depEdge_eq hcs hdeps hm]
    exact hcs.acyclic i

theorem insertAll_ok (hclosed : ∀ a b, a ∈ ids → E a b → b ∈ ids) {fuel : Nat} (hfuel : sccs.length ≤ fuel) :
    ∃ r, ids.foldlM (fun r id => do
        let sccId ← find (idToSccOf sccs) id
        insertSccWithDeps idDeps m (idToSccOf sccs) fuel sccId r)
        { reorderedSccs := [], sccDeps := m.map fun _ _ => ∅ } = .ok r ∧
      r.Good sccs.length (ClassEdge E (InComponent sccs)) ∧ ∀ i, i < sccs.length → i ∈ r.reorderedSccs := by
  have hexp := explores hcs hdeps hm hclosed
  have hE := depEdge_eq hcs hdeps hm
  obtain ⟨rank, hrank, hlt⟩ := exists_rank (n := sccs.length)
    (fun i j (h : ClassEdge E (InComponent sccs) i j) => inComponent_lt h.2.choose_spec.choose_spec.2.2) hcs.acyclic
  have hgood : Reordering.Good sccs.length (ClassEdge E (InComponent sccs))
      { reorderedSccs := [], sccDeps := m.map fun _ _ => ∅ } := by
    refine ⟨nodup_nil, by simp, fun l₁ i l₂ h => by simp at h, fun i D hD j hj => ?_, by simp, fun i => ?_⟩
    · simp only [Std.ExtTreeMap.getElem?_map, Option.map_eq_some_iff] at hD
      obtain ⟨_, -, rfl⟩ := hD
      simp at hj
    · simp only [Std.ExtTreeMap.getElem?_map, hm]
      split_ifs with h <;> simp [h]
  refine (foldlM_ok (P := fun pre (r : Reordering) => r.Good sccs.length (ClassEdge E (InComponent sccs)) ∧
    ∀ id ∈ pre, ∀ i, InComponent sccs id i → i ∈ r.reorderedSccs) ?_ ⟨hgood, by simp⟩).imp
    fun r ⟨hr, hgood', hall⟩ => ⟨hr, hgood', fun i hi => ?_⟩
  · rintro pre id post r heq ⟨hgood, hpre⟩
    obtain ⟨i, hi⟩ := hcs.total (show id ∈ ids by simp [heq])
    have hi' := inComponent_lt hi
    have hins := insertSccWithDeps_ok hexp (fun i j h => hrank i j (hE ▸ h)) fuel i
      (by have := hlt i hi'; omega) hi'
    rw [hE] at hins
    obtain ⟨r', hr', hgood', hext, hmem⟩ := hins r hgood
    refine ⟨r', ?_, hgood', fun id' hid' j hj => ?_⟩
    · rw [bind_eq_of_ok (find_eq_ok.mpr ((idToSccOf_eq_some hcs.nodup).mpr hi)), hr']
    · rcases mem_append.mp hid' with hid' | hid'
      · exact hext.subset j (hpre id' hid' j hj)
      · obtain rfl := mem_singleton.mp hid'
        exact inComponent_unique hcs.nodup hi hj ▸ hmem
  · obtain ⟨a, ha⟩ := hcs.exists_mem hi
    exact hall a (hcs.vertex ha) i ha

end

def renumberDeps (new : SccId → SccId) (D : IdSet SccId) : IdSet SccId := .ofList (D.toList.map new)

theorem mem_renumberDeps {new : SccId → SccId} {D : IdSet SccId} {k : SccId} :
    k ∈ renumberDeps new D ↔ ∃ i ∈ D, new i = k := by
  simp only [renumberDeps, mem_ofList_iff, mem_map, Std.ExtTreeSet.mem_toList]

omit [Ord Id] [Std.TransOrd Id] [Std.LawfulEqOrd Id] in
theorem renumberSccs_ok {n : Nat} {E : SccId → SccId → Prop} {m : IdMap SccId (List Id)} {r : Reordering}
    (hgood : r.Good n E) (hall : ∀ i, i < n → i ∈ r.reorderedSccs) (hE : ∀ i j, E i j → j < n)
    {members : SccId → List Id} (hm : ∀ i < n, m[i]? = some (members i)) :
    ∃ r', renumberSccs m r = .ok r' ∧ (∀ k : SccId, r'.sccs[k]? = (r.reorderedSccs.reverse.map members)[k]?) ∧
      (∀ k : SccId, (∃ D, r'.sccDeps[k]? = some D) ↔ k < r.reorderedSccs.length) ∧
      ∀ (k : SccId) (D : IdSet SccId), r'.sccDeps[k]? = some D → ∀ l, l ∈ D ↔
        ∃ i j, r.reorderedSccs.reverse[k]? = some i ∧ r.reorderedSccs.reverse[l]? = some j ∧ E i j := by
  have hn : r.reorderedSccs.reverse.Nodup := nodup_reverse.mpr hgood.nodup
  generalize horder : r.reorderedSccs.reverse = order at *
  have hlt : ∀ i, i ∈ order ↔ i < n := fun i => by
    rw [← horder, mem_reverse]
    exact ⟨hgood.lt i, hall i⟩
  obtain ⟨oldToNew, hmap⟩ : ∃ o : IdMap SccId SccId,
      o = .ofList (order.mapIdx fun newId oldId => (oldId, newId)) := ⟨_, rfl⟩
  have hpos : ∀ i k, oldToNew[i]? = some k ↔ order[k]? = some i := fun i k => by
    rw [hmap]
    exact getElem?_ofList_positions hn i k
  let new (i : SccId) : SccId := oldToNew[i]?.getD 0
  have hnew : ∀ i, i < n → oldToNew[i]? = some (new i) := fun i hi => by
    obtain ⟨k, hk⟩ := mem_iff_getElem?.mp ((hlt i).mpr hi)
    simp only [new, (hpos i k).mpr hk, Option.getD_some]
  have hsccs : order.zipIdx.mapM (fun p => do .ok (p.2, ← find m p.1)) =
      (.ok (order.zipIdx.map fun p => (p.2, members p.1)) : Except Exn _) := mapM_ok _ fun p hp => by
    have hp := (hlt p.1).mp (mem_of_getElem? (mem_zipIdx_iff_getElem?.mp hp))
    exact bind_eq_of_ok (find_eq_ok.mpr (hm p.1 hp)) _
  have hDlt : ∀ i D, (i, D) ∈ r.sccDeps.toList → i < n ∧ ∀ j ∈ D.toList, j < n := fun i D hD => by
    rw [Std.ExtTreeMap.mem_toList_iff_getElem?_eq_some] at hD
    exact ⟨(hgood.dom i).mp ⟨D, hD⟩, fun j hj => hE i j (hgood.sound i D hD j (Std.ExtTreeSet.mem_toList.mp hj))⟩
  have hdeps : r.sccDeps.toList.mapM (fun p => do
      let newId ← find oldToNew p.1
      let newDepsIds ← p.2.toList.mapM (find oldToNew)
      .ok (newId, (Std.ExtTreeSet.ofList newDepsIds : IdSet SccId))) =
      (.ok (r.sccDeps.toList.map fun p => (new p.1, renumberDeps new p.2)) : Except Exn _) :=
    mapM_ok _ fun p hp => by
      obtain ⟨hi, hD⟩ := hDlt p.1 p.2 hp
      have hD' := mapM_ok (f := find oldToNew) new fun j hj => find_eq_ok.mpr (hnew j (hD j hj))
      exact (bind_eq_of_ok (find_eq_ok.mpr (hnew p.1 hi)) _).trans (bind_eq_of_ok hD' _)
  have hinj : ∀ p ∈ r.sccDeps.toList, ∀ q ∈ r.sccDeps.toList, new p.1 = new q.1 → p = q := by
    rintro ⟨i, D⟩ hp ⟨j, D'⟩ hq hij
    have h₁ := (hpos i _).mp (hnew i (hDlt i D hp).1)
    have h₂ := (hpos j _).mp (hnew j (hDlt j D' hq).1)
    obtain rfl : i = j := Option.some.inj (h₁.symm.trans ((congrArg (order[·]?) hij).trans h₂))
    rw [Std.ExtTreeMap.mem_toList_iff_getElem?_eq_some] at hp hq
    cases hp.symm.trans hq
    rfl
  have hlook := getElem?_ofList_bindings (g := fun p => renumberDeps new p.2) hinj
  refine ⟨⟨.ofList (order.zipIdx.map fun p => (p.2, members p.1)),
    .ofList (r.sccDeps.toList.map fun p => (new p.1, renumberDeps new p.2))⟩, ?_, ?_, ?_, ?_⟩
  · rw [renumberSccs, horder, bind_eq_of_ok hsccs]
    subst hmap
    exact bind_eq_of_ok hdeps _
  · intro k
    rw [getElem?_map, ← getElem?_ofList_mapIdx order (fun _ i => members i), mapIdx_eq_zipIdx_map]
  · intro k
    have hlen : order.length = r.reorderedSccs.length := by rw [← horder, length_reverse]
    simp only [hlook, ← hlen]
    constructor
    · rintro ⟨D, i, D₀, hD₀, rfl, -⟩
      exact (List.getElem?_eq_some_iff.mp ((hpos i _).mp (hnew i ((hgood.dom i).mp ⟨D₀, hD₀⟩)))).1
    · intro hk
      have hk' := getElem?_eq_getElem hk
      obtain ⟨D₀, hD₀⟩ := (hgood.dom _).mpr ((hlt _).mp (mem_of_getElem? hk'))
      exact ⟨_, _, D₀, hD₀, by simp only [new, (hpos _ k).mpr hk', Option.getD_some], rfl⟩
  · intro k D hD l
    obtain ⟨i, D₀, hD₀, rfl, rfl⟩ := (hlook k D).mp hD
    have hk := (hpos i _).mp (hnew i ((hgood.dom i).mp ⟨D₀, hD₀⟩))
    have hi : i ∈ r.reorderedSccs := by
      rw [← mem_reverse, horder]
      exact mem_of_getElem? hk
    rw [mem_renumberDeps]
    constructor
    · rintro ⟨j, hj, rfl⟩
      have hij := hgood.sound i D₀ hD₀ j hj
      exact ⟨i, j, hk, (hpos j _).mp (hnew j (hE i j hij)), hij⟩
    · rintro ⟨i', j, hi', hj, hij⟩
      cases hk.symm.trans hi'
      exact ⟨j, hgood.complete i hi D₀ hD₀ j hij, by simp only [new, (hpos j l).mpr hj, Option.getD_some]⟩

variable {E : Id → Id → Prop}

theorem reorderSccs_ok {idDeps : IdMap Id (List Id)}
    (hids : ids.Nodup) (hcs : Components (· ∈ ids) E sccs)
    (hdeps : ∀ a ∈ ids, ∃ ds, idDeps[a]? = some ds ∧ ∀ b, b ∈ ds ↔ E a b)
    (hclosed : ∀ a b, a ∈ ids → E a b → b ∈ ids) {fuel : Nat} (hfuel : sccs.length ≤ fuel) :
    ∃ r groups, reorderSccs fuel idDeps ids sccs = .ok r ∧ r.Sorted ids E groups := by
  have hin {a : Id} {i : SccId} : (idToSccOf sccs)[a]? = some i ↔ InComponent sccs a i :=
    idToSccOf_eq_some hcs.nodup
  have htotal : ∀ id ∈ ids, ∃ i < sccs.length, (idToSccOf sccs)[id]? = some i := fun id hid => by
    obtain ⟨i, hi⟩ := hcs.total hid
    exact ⟨i, inComponent_lt hi, hin.mpr hi⟩
  obtain ⟨m, hm, hmem⟩ := reorderIds_ok htotal
  obtain ⟨r, hr, hgood, hall⟩ := insertAll_ok hcs hdeps hmem hclosed hfuel
  have hn : r.reorderedSccs.reverse.Nodup := nodup_reverse.mpr hgood.nodup
  have hreord : Reorders sccs r.reorderedSccs.reverse (memberIds (idToSccOf sccs) ids) := by
    refine ⟨hn, fun i => ⟨fun h => hgood.lt i (mem_reverse.mp h), fun h => mem_reverse.mpr (hall i h)⟩,
      fun i c hc => ⟨hids.filter _, fun a => ?_⟩⟩
    rw [mem_memberIds, hin]
    constructor
    · rintro ⟨-, c', hc', ha⟩
      cases hc.symm.trans hc'
      exact ha
    · intro ha
      have : InComponent sccs a i := ⟨c, hc, ha⟩
      exact ⟨hcs.vertex this, this⟩
  obtain ⟨r', hr', hsccs, hdom, hdeps'⟩ := renumberSccs_ok hgood hall
    (fun i j h => inComponent_lt h.2.choose_spec.choose_spec.2.2) fun i hi => by rw [hmem, if_pos hi]
  refine ⟨r', _, ?_, hsccs, hcs.reorder hreord, ?_, ?_, ?_, ?_⟩
  · rw [reorderSccs, bind_eq_of_ok hm, bind_eq_of_ok hr, hr']
  · intro g hg
    obtain ⟨i, -, rfl⟩ := mem_map.mp hg
    exact filter_sublist
  · simpa using hdom
  · intro i D hD j
    rw [hreord.classEdge, hdeps' i D hD j]
  · intro i j hij
    obtain ⟨i', j', hi, hj, hE⟩ := hreord.classEdge.mp hij
    exact hgood.topological.lt hgood.nodup hE hi hj

/-! ## The graph of the dependencies -/

def DependsOn (m : List (Id × IdSet Id)) (a b : Id) : Prop := ∃ p ∈ m, p.1 = a ∧ b ∈ p.2

/-- The graph has the dependencies and a loop at every vertex, a vertex being a position in `m`. -/
def IsGraphOf (m : List (Id × IdSet Id)) (g : Digraph) : Prop :=
  ∀ u v, (u, v) ∈ g ↔ ∃ p ∈ m, (m.map Prod.fst)[u]? = some p.1 ∧
    (v = u ∨ ∃ d ∈ p.2, (m.map Prod.fst)[v]? = some d)

theorem pairwiseDisjoint_ofList : ∀ {sccs : List (List Id)}, sccs.Pairwise List.Disjoint →
    pairwiseDisjoint (sccs.map fun scc => (Std.ExtTreeSet.ofList scc : IdSet Id)) = true
  | [], _ => rfl
  | c :: sccs, h => by
    obtain ⟨hc, h⟩ := pairwise_cons.mp h
    simp only [map_cons, pairwiseDisjoint, pairwiseDisjoint_ofList h, Bool.and_true, all_eq_true,
      mem_map, forall_exists_index, and_imp, forall_apply_eq_imp_iff₂]
    intro d hd a ha
    rw [Std.ExtTreeSet.mem_toList, mem_ofList_iff] at ha
    have : a ∉ (Std.ExtTreeSet.ofList d : IdSet Id) := by
      rw [mem_ofList_iff]
      exact fun had => hc d hd ha had
    rw [Bool.not_eq_true', ← Bool.not_eq_true, Std.ExtTreeSet.contains_iff_mem]
    exact this

theorem sanityCheck_ok (hd : sccs.Pairwise List.Disjoint)
    (hm : ∀ a, a ∈ sccs.flatten ↔ a ∈ ids) : sanityCheck (.ofList ids) sccs = .ok () := by
  have heq : (Std.ExtTreeSet.ofList sccs.flatten : IdSet Id) = .ofList ids := by
    refine Std.ExtTreeSet.ext_mem fun a => ?_
    rw [mem_ofList_iff, mem_ofList_iff, hm]
  rw [sanityCheck, bind_eq_of_ok (assert_true (pairwiseDisjoint_ofList hd))]
  exact assert_true (by rw [heq, beq_self_eq_true])

section
variable {m : List (Id × IdSet Id)} (hn : (m.map Prod.fst).Nodup)
include hn

theorem graphOf_ok (hclosed : ∀ p ∈ m, ∀ d ∈ p.2, d ∈ m.map Prod.fst) :
    ∃ g, graphOf (idToVertexOf (m.map Prod.fst)) m = .ok g ∧ IsGraphOf m g := by
  have hv : ∀ a ∈ m.map Prod.fst, ∃ v, (m.map Prod.fst)[v]? = some a ∧
      find (idToVertexOf (m.map Prod.fst)) a = .ok v := fun a ha => by
    obtain ⟨v, hv⟩ := mem_iff_getElem?.mp ha
    exact ⟨v, hv, find_eq_ok.mpr ((getElem?_ofList_positions hn a v).mpr hv)⟩
  have hinj : ∀ {u v : Nat} {a : Id}, (m.map Prod.fst)[u]? = some a → (m.map Prod.fst)[v]? = some a → u = v :=
    fun hu hv => (List.getElem?_inj (List.getElem?_eq_some_iff.mp hu).1 hn).mp (hu.trans hv.symm)
  refine foldlM_ok (P := fun (pre : List (Id × IdSet Id)) (g : Digraph) => ∀ u v, (u, v) ∈ g ↔ ∃ p ∈ pre,
    (m.map Prod.fst)[u]? = some p.1 ∧ (v = u ∨ ∃ d ∈ p.2, (m.map Prod.fst)[v]? = some d)) ?_ (by simp)
  intro pre p post g heq hg
  have hp : p ∈ m := by simp [heq]
  obtain ⟨w, hw, hfind⟩ := hv p.1 (mem_map_of_mem hp)
  rw [bind_eq_of_ok hfind]
  refine (foldlM_ok (P := fun ds (g' : Digraph) => ∀ u v, (u, v) ∈ g' ↔ (u, v) ∈ g ∨ u = w ∧
    (v = u ∨ ∃ d ∈ ds, (m.map Prod.fst)[v]? = some d)) ?_ ?_).imp fun g' ⟨hg', hiff⟩ => ⟨hg', fun u v => ?_⟩
  · intro ds d ds' g' heq' hg'
    obtain ⟨x, hx, hfind'⟩ := hv d (hclosed p hp d (Std.ExtTreeSet.mem_toList.mp (by simp [heq'])))
    refine ⟨g' ++ [(w, x)], by rw [bind_eq_of_ok hfind'], fun u v => ?_⟩
    simp only [mem_append, mem_singleton, Prod.mk.injEq, hg', exists_or, or_and_right]
    have hvx : (m.map Prod.fst)[v]? = some d ↔ v = x := ⟨fun h => hinj h hx, fun h => h ▸ hx⟩
    simp only [exists_eq_left, hvx]
    rw [or_assoc, ← and_or_left, or_assoc]
  · intro u v
    simp only [mem_append, mem_singleton, Prod.mk.injEq, not_mem_nil, false_and, exists_false,
      or_false]
    constructor
    · rintro (h | ⟨rfl, rfl⟩)
      · exact .inl h
      · exact .inr ⟨rfl, rfl⟩
    · rintro (h | ⟨rfl, rfl⟩)
      · exact .inl h
      · exact .inr ⟨rfl, rfl⟩
  · have hup : (m.map Prod.fst)[u]? = some p.1 ↔ u = w := ⟨fun h => hinj h hw, fun h => h ▸ hw⟩
    rw [hiff, hg]
    simp only [mem_append, mem_singleton, or_and_right, exists_or, exists_eq_left, hup,
      Std.ExtTreeSet.mem_toList]

theorem vertexToId_eq {v : Nat} {a : Id} :
    (vertexToIdOf (idToVertexOf (m.map Prod.fst)))[v]? = some a ↔ (m.map Prod.fst)[v]? = some a := by
  have hpos := getElem?_ofList_positions hn
  refine (getElem?_ofList_bindings (m := idToVertexOf (m.map Prod.fst)) (f := Prod.snd) (g := Prod.fst) ?_ v a).trans ?_
  · rintro ⟨a, u⟩ ha ⟨b, v⟩ hb (rfl : u = v)
    rw [Std.ExtTreeMap.mem_toList_iff_getElem?_eq_some] at ha hb
    have ha' := (hpos a u).mp ha
    have hb' := (hpos b u).mp hb
    cases ha'.symm.trans hb'
    rfl
  · constructor
    · rintro ⟨b, u, hb, rfl, rfl⟩
      exact (hpos b u).mp hb
    · exact fun h => ⟨a, v, (hpos a v).mpr h, rfl, rfl⟩

omit [Std.LawfulEqOrd Id] hn in
theorem IsGraphOf.vertex_iff {g : Digraph} (hg : IsGraphOf m g) {v : Nat} :
    g.Vertex v ↔ ∃ a, (m.map Prod.fst)[v]? = some a := by
  constructor
  · rintro ⟨⟨u, w⟩, he, hv⟩
    obtain ⟨p, -, hu, hw⟩ := (hg u w).mp he
    rcases hv with rfl | rfl
    · exact ⟨p.1, hu⟩
    · rcases hw with rfl | ⟨d, -, hd⟩
      · exact ⟨p.1, hu⟩
      · exact ⟨d, hd⟩
  · rintro ⟨a, ha⟩
    obtain ⟨p, hp, rfl⟩ := mem_map.mp (mem_of_getElem? ha)
    exact ⟨(v, v), (hg v v).mpr ⟨p, hp, ha, .inl rfl⟩, .inl rfl⟩

theorem toIds_ok {g : Digraph} (hg : IsGraphOf m g) (hclosed : ∀ p ∈ m, ∀ d ∈ p.2, d ∈ m.map Prod.fst)
    {cs : List (List Nat)} (hcs : Components g.Vertex g.Edge cs) :
    ∃ sccs, cs.mapM (mapM (find (vertexToIdOf (idToVertexOf (m.map Prod.fst))))) = .ok sccs ∧
      Components (· ∈ m.map Prod.fst) (DependsOn m) sccs := by
  have hvertex {v : Nat} : g.Vertex v ↔ ∃ a, (m.map Prod.fst)[v]? = some a := hg.vertex_iff
  rcases hm : m with _ | ⟨p₀, m'⟩
  · have hnil : cs = [] := eq_nil_iff_forall_not_mem.mpr fun c hc => by
      obtain ⟨v, hv⟩ := exists_mem_of_ne_nil c (hcs.ne_nil c hc)
      have := hvertex.mp ((hcs.mem_flatten v).mp (mem_flatten.mpr ⟨c, hc, hv⟩))
      simp [hm] at this
    subst hnil
    exact ⟨[], rfl, nodup_nil, by simp, by simp, by simp⟩
  rw [← hm]
  obtain ⟨f, hf⟩ : ∃ f : Nat → Id, ∀ v a, (m.map Prod.fst)[v]? = some a → f v = a :=
    ⟨fun v => (m.map Prod.fst)[v]?.getD p₀.1, fun v a h => by simp [h]⟩
  refine ⟨cs.map (map f), mapM_ok _ fun c hc => mapM_ok _ fun v hv => ?_, hcs.map f ?_ ?_ ?_ ?_⟩
  · obtain ⟨a, ha⟩ := hvertex.mp ((hcs.mem_flatten v).mp (mem_flatten.mpr ⟨c, hc, hv⟩))
    rw [find_eq_ok, vertexToId_eq hn, hf v a ha, ha]
  · intro u v hu hv huv
    obtain ⟨a, ha⟩ := hvertex.mp hu
    obtain ⟨b, hb⟩ := hvertex.mp hv
    rw [hf u a ha, hf v b hb] at huv
    exact (List.getElem?_inj (List.getElem?_eq_some_iff.mp ha).1 hn).mp (by rw [ha, hb, huv])
  · intro a
    simp only [mem_iff_getElem?, hvertex]
    constructor
    · rintro ⟨v, hv⟩
      exact ⟨v, ⟨a, hv⟩, hf v a hv⟩
    · rintro ⟨v, ⟨b, hb⟩, rfl⟩
      exact ⟨v, by rw [hb, hf v b hb]⟩
  · intro u v hu huv
    obtain ⟨p, hp, hup, huv⟩ := (hg u v).mp huv
    rcases huv with rfl | ⟨d, hd, hv⟩
    · exact ⟨hu, .refl⟩
    · refine ⟨hvertex.mpr ⟨d, hv⟩, .single ⟨p, hp, ?_, ?_⟩⟩
      · rw [hf u _ hup]
      · rw [hf v _ hv]; exact hd
  · rintro u b hu ⟨p, hp, hpu, hb⟩
    obtain ⟨a, ha⟩ := hvertex.mp hu
    obtain ⟨v, hv⟩ := mem_iff_getElem?.mp (hclosed p hp b hb)
    refine ⟨v, hvertex.mpr ⟨b, hv⟩, hf v b hv, .single ((hg u v).mpr ⟨p, hp, ?_, .inr ⟨b, hb, hv⟩⟩)⟩
    rw [ha, hpu, hf u a ha]

end

/-! ## The ordered components -/

/-- The graph library returns the strongly connected components. -/
def SccListCorrect (sccList : Digraph → List (List Nat)) : Prop :=
  ∀ g : Digraph, Components g.Vertex g.Edge (sccList g)

/-- A path takes the first edge of the list, or it does not. -/
def Digraph.reaches : Digraph → Nat → Nat → Bool
  | [], u, v => u == v
  | e :: g, u, v => reaches g u v || reaches g u e.1 && reaches g e.2 v

theorem Digraph.reaches_iff : ∀ (g : Digraph) (u v : Nat), g.reaches u v = true ↔ ReflTransGen g.Edge u v
  | [], u, v => by
    rw [reaches, beq_iff_eq]
    refine ⟨fun h => h ▸ .refl, fun h => ?_⟩
    rcases h.cases_tail with rfl | ⟨w, -, hw⟩
    · rfl
    · cases hw
  | e :: g, u, v => by
    have hmono : ∀ {u v}, ReflTransGen (Edge g) u v → ReflTransGen (Edge (e :: g)) u v := fun h =>
      h.lift id fun _ _ hedge => mem_cons_of_mem e hedge
    rw [reaches, Bool.or_eq_true, Bool.and_eq_true, reaches_iff g, reaches_iff g, reaches_iff g]
    constructor
    · rintro (h | ⟨h, h'⟩)
      · exact hmono h
      · exact (hmono h).trans (.head (b := e.2) mem_cons_self (hmono h'))
    · intro h
      induction h with
      | refl => exact .inl .refl
      | tail _ hedge ih =>
        rcases mem_cons.mp hedge with rfl | hedge
        · exact .inr ⟨ih.elim id And.left, .refl⟩
        · exact ih.imp (·.tail hedge) (.imp_right (·.tail hedge))

def sccListOf (g : Digraph) : List (List Nat) :=
  classes (fun u v => g.reaches u v && g.reaches v u) (g.flatMap fun e => [e.1, e.2])

theorem sccListOf_correct : SccListCorrect sccListOf := by
  intro g
  have hV : g.Vertex = (· ∈ g.flatMap fun e => [e.1, e.2]) := by
    funext v
    simp [Digraph.Vertex, eq_comm]
  rw [hV]
  refine components_classes (fun u v => ?_) _ fun u v huv _ => mem_flatMap.mpr ⟨(u, v), huv, by simp⟩
  rw [Bool.and_eq_true, g.reaches_iff, g.reaches_iff]
  rfl

variable {groups : List (List Id)}

omit [Ord Id] [Std.TransOrd Id] [Std.LawfulEqOrd Id] in
theorem Sccs.Sorted.disjoint_values {r : Sccs Id}
    (h : r.Sorted ids E groups) : (r.sccs.toList.map Prod.snd).Pairwise List.Disjoint := by
  have hk := nodup_map_fst_toList r.sccs
  rw [List.Nodup, pairwise_map] at hk
  refine pairwise_map.mpr (hk.imp_of_mem fun {p q} hp hq hne a ha hb => hne ?_)
  rw [Std.ExtTreeMap.mem_toList_iff_getElem?_eq_some (k := p.1) (v := p.2), h.sccs] at hp
  rw [Std.ExtTreeMap.mem_toList_iff_getElem?_eq_some (k := q.1) (v := q.2), h.sccs] at hq
  exact inComponent_unique h.components.nodup ⟨_, hp, ha⟩ ⟨_, hq, hb⟩

omit [Ord Id] [Std.TransOrd Id] [Std.LawfulEqOrd Id] in
theorem Sccs.Sorted.mem_values {r : Sccs Id}
    (h : r.Sorted ids E groups) (a : Id) : a ∈ (r.sccs.toList.map Prod.snd).flatten ↔ a ∈ ids := by
  rw [← h.components.mem_flatten, show a ∈ groups.flatten ↔ _ from exists_inComponent]
  simp only [mem_flatten, mem_map, Prod.exists, Std.ExtTreeMap.mem_toList_iff_getElem?_eq_some, h.sccs,
    InComponent]
  constructor
  · rintro ⟨c, ⟨i, c, hc, rfl⟩, ha⟩
    exact ⟨i, c, hc, ha⟩
  · rintro ⟨i, c, hc, ha⟩
    exact ⟨c, ⟨i, c, hc, rfl⟩, ha⟩

theorem compute_ok {sccList : Digraph → List (List Nat)} (hscc : SccListCorrect sccList)
    {m : List (Id × IdSet Id)} (hn : (m.map Prod.fst).Nodup)
    (hclosed : ∀ p ∈ m, ∀ d ∈ p.2, d ∈ m.map Prod.fst) {fuel : Nat} (hfuel : m.length ≤ fuel) :
    ∃ r groups, compute sccList fuel m = .ok r ∧ r.Sorted (m.map Prod.fst) (DependsOn m) groups := by
  obtain ⟨g, hg, hgraph⟩ := graphOf_ok hn hclosed
  obtain ⟨sccs, hsccs, hcomp⟩ := toIds_ok hn hgraph hclosed (hscc g)
  have hdeps : ∀ a ∈ m.map Prod.fst, ∃ ds,
      (Std.ExtTreeMap.ofList (m.map fun p => (p.1, p.2.toList)) : IdMap Id (List Id))[a]? = some ds ∧
        ∀ b, b ∈ ds ↔ DependsOn m a b := by
    intro a ha
    obtain ⟨p, hp, rfl⟩ := mem_map.mp ha
    refine ⟨p.2.toList, (getElem?_ofList_iff (by simpa [Function.comp_def] using hn) _ _).mpr
      (mem_map_of_mem hp), fun b => ?_⟩
    rw [Std.ExtTreeSet.mem_toList]
    constructor
    · exact fun hb => ⟨p, hp, rfl, hb⟩
    · rintro ⟨q, hq, hqp, hb⟩
      exact inj_on_of_nodup_map hn hq hp hqp ▸ hb
  have hlen : sccs.length ≤ fuel := by
    have := hcomp.length_le fun a ha => ha
    rw [length_map] at this
    omega
  obtain ⟨r, groups, hr, hsorted⟩ := reorderSccs_ok hn hcomp hdeps
    (fun a b _ ⟨p, hp, _, hb⟩ => hclosed p hp b hb) hlen
  refine ⟨r, groups, ?_, hsorted⟩
  rw [compute, bind_eq_of_ok hg, bind_eq_of_ok hsccs,
    bind_eq_of_ok (sanityCheck_ok (nodup_flatten.mp hcomp.nodup).2 hcomp.mem_flatten), bind_eq_of_ok hr,
    bind_eq_of_ok (sanityCheck_ok hsorted.disjoint_values hsorted.mem_values)]

/-- Every identifier is in exactly one group, the groups are the strongly
connected components and follow the order of the input inside, and their
dependencies are the edges between groups, all to strictly earlier ones. -/
theorem compute_correct {sccList : Digraph → List (List Nat)} (hscc : SccListCorrect sccList)
    {m : List (Id × IdSet Id)} (hn : (m.map Prod.fst).Nodup)
    (hclosed : ∀ p ∈ m, ∀ d ∈ p.2, d ∈ m.map Prod.fst) {fuel : Nat} (hfuel : m.length ≤ fuel) :
    ∃ r groups, compute sccList fuel m = .ok r ∧ (∀ i : SccId, r.sccs[i]? = groups[i]?) ∧
      groups.flatten.Perm (m.map Prod.fst) ∧
      (∀ g ∈ groups, g ≠ [] ∧ g.Sublist (m.map Prod.fst) ∧
        ∀ a ∈ g, ∀ b, b ∈ g ↔ Mutual (DependsOn m) a b) ∧
      (∀ a b i j, InComponent groups a i → DependsOn m a b → InComponent groups b j → j ≤ i) ∧
      (∀ i : SccId, (∃ D, r.sccDeps[i]? = some D) ↔ i < groups.length) ∧
      ∀ (i : SccId) (D : IdSet SccId), r.sccDeps[i]? = some D → ∀ j,
        (j ∈ D ↔ i ≠ j ∧ ∃ a b, InComponent groups a i ∧ DependsOn m a b ∧ InComponent groups b j) ∧
        (j ∈ D → j < i) := by
  obtain ⟨r, groups, hr, h⟩ := compute_ok hscc hn hclosed hfuel
  refine ⟨r, groups, hr, h.sccs, ?_, fun g hg => ⟨h.components.ne_nil g hg, h.sublist g hg,
    h.components.component g hg⟩, ?_, h.dom, fun i D hD j => ⟨h.deps i D hD j, fun hj => ?_⟩⟩
  · exact (perm_ext_iff_of_nodup h.components.nodup hn).mpr h.components.mem_flatten
  · intro a b i j ha hab hb
    by_cases hij : i = j
    · exact hij.ge
    · exact (h.earlier i j ⟨hij, a, b, ha, hab, hb⟩).le
  · exact h.earlier i j ((h.deps i D hD j).mp hj)

/-- `0` and `1` depend on each other, `2` depends on `0`. -/
def cycleDeps : List (Nat × IdSet Nat) := [(2, .ofList [0]), (0, .ofList [1]), (1, .ofList [0])]

theorem compute_correct_cycle : ∃ r, compute sccListOf 3 cycleDeps = .ok r ∧ r.sccs.toList = [(0, [0, 1]), (1, [2])] ∧
    Mutual (DependsOn cycleDeps) 0 1 := by
  obtain ⟨r, groups, hr, hsccs, -, hgroups, -⟩ := compute_correct sccListOf_correct
    (m := cycleDeps) (by decide) (by simp [cycleDeps]) (Nat.le_refl 3)
  have hrun : (compute sccListOf 3 cycleDeps).map (fun r => r.sccs.toList) = .ok [(0, [0, 1]), (1, [2])] := by decide
  rw [hr] at hrun
  have hlist : r.sccs.toList = [(0, [0, 1]), (1, [2])] := Except.ok.inj hrun
  have hgroup : groups[0]? = some [0, 1] := by
    rw [← hsccs, ← Std.ExtTreeMap.mem_toList_iff_getElem?_eq_some, hlist]
    exact mem_cons_self
  exact ⟨r, hr, hlist, ((hgroups _ (mem_of_getElem? hgroup)).2.2 0 mem_cons_self 1).mp (by simp)⟩

end Aeneas.Scc
