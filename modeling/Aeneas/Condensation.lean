import Aeneas.Collections

/-!
# Condensation of a graph

A list of components partitions the vertices of a graph by mutual reachability.
The edges between components form an acyclic relation, which on finitely many
components has a rank, and its paths are the paths of the graph. An order in
which every component comes after the ones it has edges to is topological.
-/

namespace Aeneas

open Relation List

section
variable {α : Type} {E : α → α → Prop}

def Mutual (E : α → α → Prop) (a b : α) : Prop := ReflTransGen E a b ∧ ReflTransGen E b a

theorem Mutual.refl (a : α) : Mutual E a a := ⟨.refl, .refl⟩

variable {a : α}

theorem Mutual.symm {b : α} (h : Mutual E a b) : Mutual E b a := ⟨h.2, h.1⟩

theorem Mutual.trans {b c : α} (h : Mutual E a b) (h' : Mutual E b c) : Mutual E a c :=
  ⟨h.1.trans h'.1, h'.2.trans h.2⟩

def InComponent (cs : List (List α)) (a : α) (i : Nat) : Prop := ∃ c, cs[i]? = some c ∧ a ∈ c

structure Components (V : α → Prop) (E : α → α → Prop) (cs : List (List α)) : Prop where
  nodup : cs.flatten.Nodup
  mem_flatten : ∀ a, a ∈ cs.flatten ↔ V a
  ne_nil : ∀ c ∈ cs, c ≠ []
  component : ∀ c ∈ cs, ∀ a ∈ c, ∀ b, b ∈ c ↔ Mutual E a b

def ClassEdge {ι : Type} (E : α → α → Prop) (In : α → ι → Prop) (i j : ι) : Prop :=
  i ≠ j ∧ ∃ a b, In a i ∧ E a b ∧ In b j

variable {cs : List (List α)}

theorem inComponent_lt {i : Nat} (h : InComponent cs a i) : i < cs.length := by
  obtain ⟨c, hc, -⟩ := h
  exact (List.getElem?_eq_some_iff.mp hc).1

theorem exists_inComponent : a ∈ cs.flatten ↔ ∃ i, InComponent cs a i := by
  rw [mem_flatten]
  constructor
  · rintro ⟨c, hc, ha⟩
    obtain ⟨i, hi⟩ := mem_iff_getElem?.mp hc
    exact ⟨i, c, hi, ha⟩
  · rintro ⟨i, c, hc, ha⟩
    exact ⟨c, mem_of_getElem? hc, ha⟩

theorem inComponent_unique (hn : cs.flatten.Nodup) {i j : Nat}
    (hi : InComponent cs a i) (hj : InComponent cs a j) : i = j := by
  obtain ⟨c, hc, hac⟩ := hi
  obtain ⟨d, hd, had⟩ := hj
  obtain ⟨hi, rfl⟩ := List.getElem?_eq_some_iff.mp hc
  obtain ⟨hj, rfl⟩ := List.getElem?_eq_some_iff.mp hd
  have hdisj := (nodup_flatten.mp hn).2
  rcases Nat.lt_trichotomy i j with hij | hij | hij
  · exact absurd had (pairwise_iff_getElem.mp hdisj i j hi hj hij hac)
  · exact hij
  · exact absurd hac (pairwise_iff_getElem.mp hdisj j i hj hi hij had)

theorem length_le_flatten : ∀ {cs : List (List α)}, (∀ c ∈ cs, c ≠ []) → cs.length ≤ cs.flatten.length
  | [], _ => Nat.le_refl 0
  | c :: cs, h => by
    have hc := length_pos_iff.mpr (h c (by simp))
    have ih := length_le_flatten fun d hd => h d (mem_cons_of_mem c hd)
    simp only [length_cons, flatten_cons, length_append]
    omega

namespace Components
variable {V : α → Prop} {cs : List (List α)} (h : Components V E cs)
include h

variable {a : α}

theorem total (ha : V a) : ∃ i, InComponent cs a i :=
  exists_inComponent.mp ((h.mem_flatten a).mpr ha)

variable {i : Nat}

theorem vertex (ha : InComponent cs a i) : V a :=
  (h.mem_flatten a).mp (exists_inComponent.mpr ⟨i, ha⟩)

variable {b : α}

theorem eq_iff {j : Nat} (ha : InComponent cs a i) (hb : InComponent cs b j) :
    i = j ↔ Mutual E a b := by
  obtain ⟨c, hc, hac⟩ := ha
  have hmem := h.component c (mem_of_getElem? hc) a hac b
  constructor
  · rintro rfl
    obtain ⟨d, hd, hbd⟩ := hb
    rw [hc] at hd
    cases hd
    exact hmem.mp hbd
  · intro hm
    exact inComponent_unique h.nodup ⟨c, hc, hmem.mpr hm⟩ hb

theorem exists_mem (hi : i < cs.length) : ∃ a, InComponent cs a i := by
  obtain ⟨a, ha⟩ := exists_mem_of_ne_nil _ (h.ne_nil _ (getElem_mem hi))
  exact ⟨a, _, getElem?_eq_getElem hi, ha⟩

theorem length_le {ids : List α} (hids : ∀ a, V a → a ∈ ids) : cs.length ≤ ids.length := by
  have hflat := length_le_flatten h.ne_nil
  exact hflat.trans (h.nodup.subperm fun a ha => hids a ((h.mem_flatten a).mp ha)).length_le

theorem reach_of_path {j : Nat} (hp : ReflTransGen (ClassEdge E (InComponent cs)) i j)
    (ha : InComponent cs a i) (hb : InComponent cs b j) : ReflTransGen E a b := by
  induction hp generalizing b with
  | refl => exact ((h.eq_iff ha hb).mp rfl).1
  | tail _ hjk ih =>
    obtain ⟨-, c, d, hc, hcd, hd⟩ := hjk
    exact ((ih hc).tail hcd).trans ((h.eq_iff hd hb).mp rfl).1

theorem acyclic (i : Nat) : ¬ TransGen (ClassEdge E (InComponent cs)) i i := by
  intro hi
  obtain ⟨j, hij, hji⟩ := TransGen.head'_iff.mp hi
  obtain ⟨hne, a, b, ha, hab, hb⟩ := hij
  exact hne ((h.eq_iff ha hb).mpr ⟨.single hab, h.reach_of_path hji hb ha⟩)

theorem exists_edge {c : List α} (hc : c ∈ cs) (ha : a ∈ c) (hb : b ∈ c) (hab : a ≠ b) :
    ∃ x ∈ c, E a x := by
  obtain ⟨hreach, hback⟩ := (h.component c hc a ha b).mp hb
  rcases hreach.cases_head with rfl | ⟨x, hax, hxb⟩
  · exact absurd rfl hab
  · exact ⟨x, (h.component c hc a ha x).mpr ⟨.single hax, hxb.trans hback⟩, hax⟩

end Components

theorem Components.map {β : Type} {V : α → Prop} (h : Components V E cs) {W : β → Prop}
    {F : β → β → Prop} (f : α → β) (hf : ∀ a b, V a → V b → f a = f b → a = b)
    (hV : ∀ b, W b ↔ ∃ a, V a ∧ f a = b)
    (hE : ∀ a b, V a → E a b → V b ∧ ReflTransGen F (f a) (f b))
    (hF : ∀ a y, V a → F (f a) y → ∃ b, V b ∧ f b = y ∧ ReflTransGen E a b) :
    Components W F (cs.map (map f)) := by
  have hflat : (cs.map (List.map f)).flatten = cs.flatten.map f := List.map_flatten.symm
  have hto : ∀ {a b}, V a → ReflTransGen E a b → V b ∧ ReflTransGen F (f a) (f b) := by
    intro a b ha hab
    induction hab with
    | refl => exact ⟨ha, .refl⟩
    | tail _ hbc ih => exact ⟨(hE _ _ ih.1 hbc).1, ih.2.trans (hE _ _ ih.1 hbc).2⟩
  have hfrom : ∀ {a y}, V a → ReflTransGen F (f a) y → ∃ b, V b ∧ f b = y ∧ ReflTransGen E a b := by
    intro a y ha hay
    induction hay with
    | refl => exact ⟨a, ha, rfl, .refl⟩
    | tail _ hyz ih =>
      obtain ⟨b, hb, rfl, hab⟩ := ih
      obtain ⟨c, hc, hcz, hbc⟩ := hF _ _ hb hyz
      exact ⟨c, hc, hcz, hab.trans hbc⟩
  refine ⟨?_, ?_, ?_, ?_⟩
  · rw [hflat]
    exact List.Nodup.map_on (fun a ha b hb =>
      hf a b ((h.mem_flatten a).mp ha) ((h.mem_flatten b).mp hb)) h.nodup
  · intro b
    rw [hflat, mem_map, hV]
    simp only [h.mem_flatten]
  · intro c hc
    obtain ⟨d, hd, rfl⟩ := mem_map.mp hc
    simpa using h.ne_nil d hd
  · intro c hc x hx y
    obtain ⟨d, hd, rfl⟩ := mem_map.mp hc
    obtain ⟨a, ha, rfl⟩ := mem_map.mp hx
    have hVa : V a := (h.mem_flatten a).mp (List.mem_flatten.mpr ⟨d, hd, ha⟩)
    constructor
    · intro hy
      obtain ⟨b, hb, rfl⟩ := mem_map.mp hy
      have hm := (h.component d hd a ha b).mp hb
      have hVb := (hto hVa hm.1).1
      exact ⟨(hto hVa hm.1).2, (hto hVb hm.2).2⟩
    · rintro ⟨hay, hya⟩
      obtain ⟨b, hVb, rfl, hab⟩ := hfrom hVa hay
      obtain ⟨a', hVa', heq, hba⟩ := hfrom hVb hya
      cases hf _ _ hVa' hVa heq
      exact mem_map_of_mem ((h.component d hd a ha b).mpr ⟨hab, hba⟩)

section
variable (rel : α → α → Bool)

/-- One element of each class. -/
def representatives : List α → List α
  | [] => []
  | a :: vs =>
    let reps := representatives vs
    if reps.any (rel · a) then reps else a :: reps

def classes [DecidableEq α] (vs : List α) : List (List α) :=
  (representatives rel vs).map fun r => vs.dedup.filter (rel r)

variable {rel} (hrel : ∀ a b, rel a b = true ↔ Mutual E a b)
include hrel

theorem representatives_spec (vs : List α) : (∀ r ∈ representatives rel vs, r ∈ vs) ∧
    (representatives rel vs).Pairwise (fun a b => ¬ Mutual E a b) ∧
    ∀ a ∈ vs, ∃ r ∈ representatives rel vs, Mutual E r a := by
  induction vs with
  | nil => exact ⟨by simp [representatives], .nil, by simp⟩
  | cons a vs ih =>
    obtain ⟨hsub, hpair, hrep⟩ := ih
    have hany : (representatives rel vs).any (rel · a) = true ↔ ∃ r ∈ representatives rel vs, Mutual E r a := by
      simp [hrel]
    rw [representatives]
    split
    · rename_i h
      refine ⟨fun r hr => mem_cons_of_mem a (hsub r hr), hpair, fun b hb => ?_⟩
      rcases mem_cons.mp hb with rfl | hb
      · exact hany.mp h
      · exact hrep b hb
    · rename_i h
      have hnew : ∀ r ∈ representatives rel vs, ¬ Mutual E a r := fun r hr hm => h (hany.mpr ⟨r, hr, hm.symm⟩)
      refine ⟨forall_mem_cons.mpr ⟨mem_cons_self, fun r hr => mem_cons_of_mem a (hsub r hr)⟩,
        pairwise_cons.mpr ⟨hnew, hpair⟩, fun b hb => ?_⟩
      rcases mem_cons.mp hb with rfl | hb
      · exact ⟨b, mem_cons_self, .refl b⟩
      · obtain ⟨r, hr, hm⟩ := hrep b hb
        exact ⟨r, mem_cons_of_mem a hr, hm⟩

theorem components_classes [DecidableEq α] (vs : List α) (hE : ∀ a b, E a b → a ∈ vs → b ∈ vs) :
    Components (· ∈ vs) E (classes rel vs) := by
  obtain ⟨hsub, hpair, hrep⟩ := representatives_spec hrel vs
  have hV : ∀ {a b}, a ∈ vs → ReflTransGen E a b → b ∈ vs := fun ha hab =>
    hab.rec ha fun _ hbc ih => hE _ _ hbc ih
  have hmem : ∀ r ∈ representatives rel vs, ∀ a, a ∈ vs.dedup.filter (rel r) ↔ Mutual E r a := fun r hr a => by
    simp only [mem_filter, mem_dedup, hrel, and_iff_right_iff_imp]
    exact fun hm => hV (hsub r hr) hm.1
  refine ⟨?_, ?_, ?_, ?_⟩
  · refine nodup_flatten.mpr ⟨fun l hl => ?_, pairwise_map.mpr (hpair.imp_of_mem ?_)⟩
    · obtain ⟨r, -, rfl⟩ := mem_map.mp hl
      exact (nodup_dedup vs).filter _
    · intro r s hr hs hrs a ha hb
      have ha := (hmem r hr a).mp ha
      have hb := (hmem s hs a).mp hb
      exact hrs (ha.trans hb.symm)
  · intro a
    simp only [classes, mem_flatten, mem_map, exists_exists_and_eq_and]
    constructor
    · rintro ⟨r, hr, ha⟩
      exact hV (hsub r hr) ((hmem r hr a).mp ha).1
    · intro ha
      obtain ⟨r, hr, hm⟩ := hrep a ha
      exact ⟨r, hr, (hmem r hr a).mpr hm⟩
  · intro c hc
    obtain ⟨r, hr, rfl⟩ := mem_map.mp hc
    exact ne_nil_of_mem ((hmem r hr r).mpr (.refl r))
  · intro c hc a ha b
    obtain ⟨r, hr, rfl⟩ := mem_map.mp hc
    have ha := (hmem r hr a).mp ha
    rw [hmem r hr]
    exact ⟨fun hb => ha.symm.trans hb, fun hb => ha.trans hb⟩

end

/-! ## Reordering the components -/

/-- `g` lists the members of the components anew and `order` permutes their indices. -/
structure Reorders (cs : List (List α)) (order : List Nat) (g : Nat → List α) : Prop where
  nodup : order.Nodup
  mem_order : ∀ i, i ∈ order ↔ i < cs.length
  members : ∀ i c, cs[i]? = some c → (g i).Nodup ∧ ∀ a, a ∈ g i ↔ a ∈ c

variable {order : List Nat} {g : Nat → List α}

theorem Reorders.inComponent (h : Reorders cs order g) {k : Nat} :
    InComponent (order.map g) a k ↔ ∃ i, order[k]? = some i ∧ InComponent cs a i := by
  simp only [InComponent, getElem?_map, Option.map_eq_some_iff]
  constructor
  · rintro ⟨_, ⟨i, hi, rfl⟩, ha⟩
    have hlt := (h.mem_order i).mp (mem_of_getElem? hi)
    exact ⟨i, hi, cs[i], getElem?_eq_getElem hlt,
      ((h.members i _ (getElem?_eq_getElem hlt)).2 a).mp ha⟩
  · rintro ⟨i, hi, c, hc, ha⟩
    exact ⟨g i, ⟨i, hi, rfl⟩, ((h.members i c hc).2 a).mpr ha⟩

theorem Reorders.classEdge (h : Reorders cs order g) {k l : Nat} :
    ClassEdge E (InComponent (order.map g)) k l ↔
      ∃ i j, order[k]? = some i ∧ order[l]? = some j ∧ ClassEdge E (InComponent cs) i j := by
  simp only [ClassEdge, h.inComponent]
  constructor
  · rintro ⟨hkl, a, b, ⟨i, hi, ha⟩, hab, ⟨j, hj, hb⟩⟩
    refine ⟨i, j, hi, hj, ?_, a, b, ha, hab, hb⟩
    rintro rfl
    have hk := (List.getElem?_eq_some_iff.mp hi).1
    exact hkl ((getElem?_inj hk h.nodup).mp (hi.trans hj.symm))
  · rintro ⟨i, j, hi, hj, hij, a, b, ha, hab, hb⟩
    refine ⟨?_, a, b, ⟨i, hi, ha⟩, hab, ⟨j, hj, hb⟩⟩
    rintro rfl
    exact hij (Option.some.inj (hi.symm.trans hj))

theorem Components.reorder {V : α → Prop} (h : Components V E cs)
    (hr : Reorders cs order g) : Components V E (order.map g) := by
  have hg : ∀ i ∈ order, ∃ c ∈ cs, cs[i]? = some c ∧ (g i).Nodup ∧ ∀ a, a ∈ g i ↔ a ∈ c := by
    intro i hi
    have hc := getElem?_eq_getElem ((hr.mem_order i).mp hi)
    exact ⟨_, mem_of_getElem? hc, hc, hr.members i _ hc⟩
  refine ⟨?_, ?_, ?_, ?_⟩
  · rw [nodup_flatten]
    constructor
    · intro l hl
      obtain ⟨i, hi, rfl⟩ := mem_map.mp hl
      obtain ⟨c, -, -, hn, -⟩ := hg i hi
      exact hn
    · refine pairwise_map.mpr (hr.nodup.imp_of_mem fun hi hj hij a ha hb => hij ?_)
      obtain ⟨c, -, hc, -, hmc⟩ := hg _ hi
      obtain ⟨d, -, hd, -, hmd⟩ := hg _ hj
      exact inComponent_unique h.nodup ⟨c, hc, (hmc a).mp ha⟩ ⟨d, hd, (hmd a).mp hb⟩
  · intro a
    rw [← h.mem_flatten, exists_inComponent, exists_inComponent]
    simp only [hr.inComponent]
    constructor
    · rintro ⟨k, i, -, ha⟩
      exact ⟨i, ha⟩
    · rintro ⟨i, ha⟩
      obtain ⟨k, hk⟩ := mem_iff_getElem?.mp ((hr.mem_order i).mpr (inComponent_lt ha))
      exact ⟨k, i, hk, ha⟩
  · intro l hl
    obtain ⟨i, hi, rfl⟩ := mem_map.mp hl
    obtain ⟨c, hc, -, -, hm⟩ := hg i hi
    obtain ⟨a, ha⟩ := exists_mem_of_ne_nil _ (h.ne_nil c hc)
    exact ne_nil_of_mem ((hm a).mpr ha)
  · intro l hl a ha b
    obtain ⟨i, hi, rfl⟩ := mem_map.mp hl
    obtain ⟨c, hc, -, -, hm⟩ := hg i hi
    rw [hm] at ha ⊢
    exact h.component c hc a ha b

end

/-! ## Rank of a finite acyclic relation -/

variable {R : Nat → Nat → Prop}

theorem exists_rank {n : Nat} (hR : ∀ i j, R i j → j < n)
    (hac : ∀ i, ¬ TransGen R i i) :
    ∃ rank : Nat → Nat, (∀ i j, R i j → rank j < rank i) ∧ ∀ i, i < n → rank i < n := by
  classical
  -- the rank counts what can be reached
  let reach (i : Nat) : Finset Nat := (Finset.range n).filter (TransGen R i)
  refine ⟨fun i => (reach i).card, fun i j hij => Finset.card_lt_card ?_, fun i hi => ?_⟩
  · refine (Finset.ssubset_iff_of_subset fun k hk => ?_).mpr ⟨j, ?_, ?_⟩
    · simp only [reach, Finset.mem_filter, Finset.mem_range] at hk ⊢
      exact ⟨hk.1, .head hij hk.2⟩
    · simpa [reach] using ⟨hR i j hij, .single hij⟩
    · simpa [reach] using fun _ => hac j
  · calc (reach i).card < (Finset.range n).card := Finset.card_lt_card
          ((Finset.ssubset_iff_of_subset (Finset.filter_subset _ _)).mpr
            ⟨i, by simpa using hi, by simpa [reach] using fun _ => hac i⟩)
      _ = n := Finset.card_range n

/-! ## Topological orders -/

def Topological (R : Nat → Nat → Prop) (order : List Nat) : Prop :=
  ∀ l₁ i l₂, order = l₁ ++ i :: l₂ → ∀ j, R i j → j ∈ l₂

theorem Topological.cons {order : List Nat} (h : Topological R order) {i : Nat}
    (hi : ∀ j, R i j → j ∈ order) : Topological R (i :: order) := by
  intro l₁ k l₂ heq j hkj
  cases l₁ with
  | nil =>
    obtain ⟨rfl, rfl⟩ := cons_eq_cons.mp heq
    exact hi j hkj
  | cons _ l₁ =>
    obtain ⟨-, heq⟩ := cons_eq_cons.mp heq
    exact h l₁ k l₂ heq j hkj

theorem Topological.lt {order : List Nat} (h : Topological R order) (hn : order.Nodup)
    {i j p q : Nat} (hij : R i j) (hi : order.reverse[p]? = some i) (hj : order.reverse[q]? = some j) :
    q < p := by
  obtain ⟨hp, hi'⟩ := List.getElem?_eq_some_iff.mp hi
  have hsplit : order = (order.reverse.drop (p + 1)).reverse ++ i :: (order.reverse.take p).reverse := by
    have := take_append_drop p order.reverse
    rw [drop_eq_getElem_cons hp, hi'] at this
    have h2 := congrArg reverse this
    simpa using h2.symm
  have hmem : j ∈ order.reverse.take p := by simpa using h _ _ _ hsplit j hij
  obtain ⟨q', hq', hjq⟩ := mem_take_iff_getElem.mp hmem
  have : order.reverse[q']? = order.reverse[q]? := by
    rw [hj, ← hjq, getElem?_eq_getElem]
  have hlt : q' < order.reverse.length := by omega
  have := (getElem?_inj hlt (nodup_reverse.mpr hn)).mp this
  omega

end Aeneas
