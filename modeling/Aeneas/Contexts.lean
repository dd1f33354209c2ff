import Aeneas.Collections

/-!
# The environments

An environment is a stack of frames, the newest binding first. It holds the values
of the variables, and the region abstractions, which know their parents.
-/

namespace Aeneas.Contexts

open List

inductive VarBinder where
  | bVar (index : Nat) (name : Option String)
  | bDummy (id : Nat)
deriving DecidableEq, Repr

/-- A region abstraction. Its contents are not looked at here. -/
structure Abs (A : Type) where
  absId : Nat
  parents : IdSet Nat
  contents : A

inductive EnvElem (V A : Type) where
  | eBinding (binder : VarBinder) (v : V)
  | eAbs (abs : Abs A)
  | eFrame

abbrev Env (V A : Type) := List (EnvElem V A)

variable {V A : Type}

/-! ## Removing and substituting an abstraction -/

def updateAbs (absId : Nat) (replacement : Env V A) (updateParents : IdSet Nat → IdSet Nat) :
    Env V A → Except Exn (Env V A × Option (Abs A))
  | [] => .error (.failure "Unreachable")
  | .eFrame :: env => .ok (.eFrame :: env, none)
  | .eBinding bv v :: env => do
    let (env, abs) ← updateAbs absId replacement updateParents env
    return (.eBinding bv v :: env, abs)
  | .eAbs abs :: env =>
    if abs.absId = absId then .ok (replacement ++ env, some abs)
    else do
      let (env, found) ← updateAbs absId replacement updateParents env
      return (.eAbs { abs with parents := updateParents abs.parents } :: env, found)

def envRemoveAbs (env : Env V A) (absId : Nat) : Except Exn (Env V A × Option (Abs A)) :=
  updateAbs absId [] (fun parents => parents.erase absId) env

def substParent (absId nabsId : Nat) (parents : IdSet Nat) : IdSet Nat :=
  if absId ∈ parents then (parents.erase absId).insert nabsId else parents

def envSubstAbs (env : Env V A) (absId : Nat) (nabs : Abs A) : Except Exn (Env V A × Option (Abs A)) :=
  updateAbs absId [.eAbs nabs] (substParent absId nabs.absId) env

/-! ## What the updates are for -/

def EnvElem.absId? : EnvElem V A → Option Nat
  | .eAbs abs => some abs.absId
  | _ => none

/-- The elements of one frame, the abstractions having distinct ids. -/
structure IsFrame (fr : Env V A) : Prop where
  noFrame : .eFrame ∉ fr
  distinct : (fr.filterMap EnvElem.absId?).Nodup

def updatedElem (absId : Nat) (replacement : Env V A) (updateParents : IdSet Nat → IdSet Nat) : EnvElem V A → Env V A
  | .eAbs abs =>
    if abs.absId = absId then replacement else [.eAbs { abs with parents := updateParents abs.parents }]
  | e => [e]

def updatedFrame (absId : Nat) (replacement : Env V A) (updateParents : IdSet Nat → IdSet Nat) (fr : Env V A) :
    Env V A :=
  fr.flatMap (updatedElem absId replacement updateParents)

def below (absId : Nat) : Env V A → Env V A
  | [] => []
  | e :: fr => if e.absId? = some absId then fr else below absId fr

variable {fr : Env V A}

theorem IsFrame.tail {e : EnvElem V A} (h : IsFrame (e :: fr)) : IsFrame fr where
  noFrame hmem := h.noFrame (mem_cons_of_mem e hmem)
  distinct := by
    have hd := h.distinct
    cases e with
    | eAbs abs => exact (nodup_cons.mp hd).2
    | _ => exact hd

theorem IsFrame.absId_ne {abs : Abs A} (h : IsFrame (.eAbs abs :: fr)) {b : Abs A} (hb : .eAbs b ∈ fr) :
    b.absId ≠ abs.absId := by
  intro he
  refine (nodup_cons.mp h.distinct).1 (mem_filterMap.mpr ⟨.eAbs b, hb, ?_⟩)
  exact congrArg some he

section
variable {absId : Nat} {replacement rest : Env V A} {updateParents : IdSet Nat → IdSet Nat}

theorem updatedFrame_cons (e : EnvElem V A) (fr : Env V A) :
    updatedFrame absId replacement updateParents (e :: fr) =
      updatedElem absId replacement updateParents e ++ updatedFrame absId replacement updateParents fr :=
  flatMap_cons

theorem updatedFrame_eq_self_iff {fr : Env V A} (h : ∀ b, .eAbs b ∈ fr → b.absId ≠ absId) :
    updatedFrame absId replacement updateParents fr = fr ↔
      ∀ b, .eAbs b ∈ fr → updateParents b.parents = b.parents := by
  induction fr with
  | nil => simp [updatedFrame]
  | cons e fr ih =>
    have hfr := ih fun b hb => h b (mem_cons_of_mem e hb)
    rw [updatedFrame_cons]
    cases e with
    | eAbs abs =>
      have habs := h abs mem_cons_self
      simp only [updatedElem, habs, if_false, cons_append, nil_append, List.cons.injEq, hfr]
      constructor
      · rintro ⟨habs, hfr⟩ b hb
        rcases mem_cons.mp hb with hb | hb
        · cases hb
          exact congrArg Abs.parents (EnvElem.eAbs.inj habs)
        · exact hfr b hb
      · intro hall
        refine ⟨?_, fun b hb => hall b (mem_cons_of_mem _ hb)⟩
        rw [hall abs mem_cons_self]
    | _ => simp [updatedElem, hfr]

theorem map_cons_eq_iff {x : Except Exn (Env V A × Option (Abs A))} {e : EnvElem V A} {env : Env V A} :
    (x >>= fun r => .ok (e :: r.1, r.2)).map Prod.fst = .ok (e :: env) ↔ x.map Prod.fst = .ok env := by
  cases x with
  | error err | ok r => simp [Except.map, bind, Except.bind]

theorem updateAbs_eq_iff {fr : Env V A} (h : IsFrame fr) :
    (updateAbs absId replacement updateParents (fr ++ .eFrame :: rest)).map Prod.fst =
        .ok (updatedFrame absId replacement updateParents fr ++ .eFrame :: rest) ↔
      ∀ b, .eAbs b ∈ below absId fr → updateParents b.parents = b.parents := by
  induction fr with
  | nil => simp [updateAbs, updatedFrame, below, Except.map]
  | cons e fr ih =>
    rw [updatedFrame_cons, cons_append]
    cases e with
    | eFrame => exact absurd mem_cons_self h.noFrame
    | eBinding bv v => exact map_cons_eq_iff.trans (ih h.tail)
    | eAbs abs =>
      by_cases habs : abs.absId = absId
      · subst habs
        have hbelow : below abs.absId (.eAbs abs :: fr) = fr := by simp [below, EnvElem.absId?]
        have hself : updatedFrame abs.absId replacement updateParents fr = fr ↔ _ :=
          updatedFrame_eq_self_iff fun b hb => h.absId_ne hb
        rw [hbelow, ← hself]
        simp only [updateAbs, updatedElem, if_true, Except.map, append_assoc, Except.ok.injEq]
        constructor
        · intro heq
          exact (append_cancel_right (append_cancel_left heq)).symm
        · intro heq
          rw [heq]
      · have hbelow : below absId (.eAbs abs :: fr) = below absId fr := by simp [below, EnvElem.absId?, habs]
        rw [hbelow, ← ih h.tail]
        simp only [updateAbs, updatedElem, habs, if_false]
        exact map_cons_eq_iff

end

/-! ## The parents -/

variable {absId : Nat}

theorem erase_eq_self_iff {parents : IdSet Nat} : parents.erase absId = parents ↔ absId ∉ parents := by
  constructor
  · intro h hmem
    rw [← h] at hmem
    simp at hmem
  · intro h
    ext x
    rw [Std.ExtTreeSet.mem_erase]
    constructor
    · exact And.right
    · intro hx
      refine ⟨fun heq => h ?_, hx⟩
      rwa [Nat.compare_eq_eq.mp heq]

theorem substParent_eq_self_iff {parents : IdSet Nat} {nabsId : Nat} :
    substParent absId nabsId parents = parents ↔ absId ∉ parents ∨ nabsId = absId := by
  unfold substParent
  by_cases h : absId ∈ parents
  · simp only [h, if_true, not_true, false_or]
    constructor
    · intro heq
      have hmem : absId ∈ (parents.erase absId).insert nabsId := by rw [heq]; exact h
      rw [Std.ExtTreeSet.mem_insert] at hmem
      rcases hmem with hmem | hmem
      · exact Nat.compare_eq_eq.mp hmem
      · simp at hmem
    · intro heq
      subst heq
      ext x
      rw [Std.ExtTreeSet.mem_insert, Std.ExtTreeSet.mem_erase]
      constructor
      · intro hx
        rcases hx with hx | hx
        · rwa [← Nat.compare_eq_eq.mp hx]
        · exact hx.2
      · intro hx
        by_cases hcmp : compare nabsId x = .eq
        · exact .inl hcmp
        · exact .inr ⟨hcmp, hx⟩
  · simp [h]

def Unreferenced (absId : Nat) (fr : Env V A) : Prop := ∀ b, .eAbs b ∈ fr → absId ∉ b.parents

def absIds (fr : Env V A) : List Nat := fr.filterMap EnvElem.absId?

theorem mem_absIds {abs : Abs A} (h : .eAbs abs ∈ fr) : abs.absId ∈ absIds fr :=
  mem_filterMap.mpr ⟨_, h, rfl⟩

variable {updateParents : IdSet Nat → IdSet Nat}

theorem mem_updatedFrame {replacement : Env V A}
    {b : Abs A} (h : .eAbs b ∈ updatedFrame absId replacement updateParents fr) :
    absId ∈ absIds fr ∧ .eAbs b ∈ replacement ∨ ∃ parents, b.parents = updateParents parents := by
  obtain ⟨e, hmem, he⟩ := mem_flatMap.mp h
  cases e with
  | eAbs abs =>
    by_cases habs : abs.absId = absId
    · simp only [updatedElem, habs, if_true] at he
      exact .inl ⟨habs ▸ mem_absIds hmem, he⟩
    · simp only [updatedElem, habs, if_false] at he
      cases mem_singleton.mp he
      exact .inr ⟨abs.parents, rfl⟩
  | eBinding | eFrame => cases mem_singleton.mp he

theorem replacement_subset_updatedFrame {replacement : Env V A}
    (h : absId ∈ absIds fr) : replacement ⊆ updatedFrame absId replacement updateParents fr := by
  obtain ⟨e, hmem, he⟩ := mem_filterMap.mp h
  cases e with
  | eAbs abs =>
    cases he
    exact fun b hb => mem_flatMap.mpr ⟨_, hmem, by simpa [updatedElem] using hb⟩
  | eBinding => cases he
  | eFrame => cases he

theorem unreferenced_removed (absId : Nat) (fr : Env V A) :
    Unreferenced absId (updatedFrame absId [] (fun parents => parents.erase absId) fr) := by
  intro b hb
  rcases mem_updatedFrame hb with ⟨-, hmem⟩ | ⟨parents, hparents⟩
  · cases hmem
  · rw [hparents]
    simp

theorem unreferenced_substituted_iff {nabs : Abs A} (hid : nabs.absId ≠ absId) (fr : Env V A) :
    Unreferenced absId (updatedFrame absId [.eAbs nabs] (substParent absId nabs.absId) fr) ↔
      absId ∉ nabs.parents ∨ absId ∉ absIds fr := by
  constructor
  · intro hall
    by_cases hmem : absId ∈ absIds fr
    · exact .inl (hall nabs (replacement_subset_updatedFrame hmem mem_cons_self))
    · exact .inr hmem
  · intro hnabs b hb
    rcases mem_updatedFrame hb with ⟨hfr, hmem⟩ | ⟨parents, hb⟩
    · cases mem_singleton.mp hmem
      exact hnabs.resolve_right (not_not_intro hfr)
    · rw [hb]
      unfold substParent
      split
      · simp [Std.ExtTreeSet.mem_insert, hid]
      · assumption

/-- An abstraction is removed from all the parents, or substituted in them, and no parent set refers to it any
more, if no abstraction below it in its frame has it as a parent, and the new abstraction has not. -/
theorem updateAbs_parents_iff {fr : Env V A} (h : IsFrame fr) (rest : Env V A) (absId : Nat) (nabs : Abs A) :
    let removed := updatedFrame absId [] (fun parents => parents.erase absId) fr
    let substituted := updatedFrame absId [.eAbs nabs] (substParent absId nabs.absId) fr
    ((envRemoveAbs (fr ++ .eFrame :: rest) absId).map Prod.fst = .ok (removed ++ .eFrame :: rest) ∧
        Unreferenced absId removed ↔
      Unreferenced absId (below absId fr)) ∧
    ((envSubstAbs (fr ++ .eFrame :: rest) absId nabs).map Prod.fst = .ok (substituted ++ .eFrame :: rest) ∧
        (nabs.absId = absId ∨ Unreferenced absId substituted) ↔
      nabs.absId = absId ∨ Unreferenced absId (below absId fr) ∧ (absId ∉ nabs.parents ∨ absId ∉ absIds fr)) := by
  constructor
  · rw [envRemoveAbs, updateAbs_eq_iff h, and_iff_left (unreferenced_removed absId fr)]
    simp only [erase_eq_self_iff]
    rfl
  · rw [envSubstAbs, updateAbs_eq_iff h]
    simp only [substParent_eq_self_iff]
    by_cases hid : nabs.absId = absId
    · simp [hid]
    · simp only [hid, unreferenced_substituted_iff hid, or_false, false_or]
      rfl

def childFirst : Env Unit Unit := [.eAbs ⟨2, (∅ : IdSet Nat).insert 1, ()⟩, .eAbs ⟨1, ∅, ()⟩]

/-- The abstraction 2 took the place of an older one with which a child of 1 was merged. -/
def parentFirst : Env Unit Unit := [.eAbs ⟨1, ∅, ()⟩, .eAbs ⟨2, (∅ : IdSet Nat).insert 1, ()⟩]

theorem isFrame_childFirst : IsFrame childFirst where
  noFrame := by simp [childFirst]
  distinct := by simp [childFirst, EnvElem.absId?]

theorem updateAbs_parents_childFirst :
    (envRemoveAbs (childFirst ++ [.eFrame]) 1).map Prod.fst =
      .ok (updatedFrame 1 [] (fun parents => parents.erase 1) childFirst ++ [.eFrame]) ∧
    (envSubstAbs (childFirst ++ [.eFrame]) 1 ⟨3, ∅, ()⟩).map Prod.fst =
      .ok (updatedFrame 1 [.eAbs ⟨3, ∅, ()⟩] (substParent 1 3) childFirst ++ [.eFrame]) := by
  have hbelow : Unreferenced 1 (below 1 childFirst) := by simp [Unreferenced, childFirst, below, EnvElem.absId?]
  have hiff := updateAbs_parents_iff isFrame_childFirst [] 1 ⟨3, ∅, ()⟩
  exact ⟨(hiff.1.mpr hbelow).1, (hiff.2.mpr (.inr ⟨hbelow, .inl (by simp)⟩)).1⟩

/-- The abstraction 1 is gone, and still a parent of 2. -/
theorem updateAbs_parents_parentFirst : IsFrame parentFirst ∧
    (∃ env b, (envRemoveAbs (parentFirst ++ [.eFrame]) 1).map Prod.fst = .ok env ∧ .eAbs b ∈ env ∧ 1 ∈ b.parents) ∧
    ∃ env b, (envSubstAbs (parentFirst ++ [.eFrame]) 1 ⟨3, ∅, ()⟩).map Prod.fst = .ok env ∧ .eAbs b ∈ env ∧
      1 ∈ b.parents := by
  let child : Abs Unit := ⟨2, (∅ : IdSet Nat).insert 1, ()⟩
  have hchild : 1 ∈ child.parents := by simp [child]
  refine ⟨⟨by simp [parentFirst], by simp [parentFirst, EnvElem.absId?]⟩, ?_, ?_⟩
  · exact ⟨[.eAbs child, .eFrame], child, rfl, by simp, hchild⟩
  · exact ⟨[.eAbs ⟨3, ∅, ()⟩, .eAbs child, .eFrame], child, rfl, by simp, hchild⟩

end Aeneas.Contexts
