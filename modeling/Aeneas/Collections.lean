import Mathlib.Data.Finset.Card
import Mathlib.Logic.Relation

/-!
# Ordered collections and exceptions

The maps and sets of the translation are balanced trees over an ordered type of
identifiers. A lookup raises `Not_found`, a failed assertion raises its own
exception; iterations over a list thread the references they update.
-/

namespace Aeneas

open List

/-- What a computation raises. `outOfFuel` belongs to the model: a recursion
that is not structural carries a bound on its depth. -/
inductive Exn where
  | notFound
  | assertFailure
  | invalidArgument (message : String)
  | failure (message : String)
  -- `Failure` of the standard library, where `failure` is `CFailure`
  | stdFailure (message : String)
  | outOfFuel
deriving DecidableEq, Repr

abbrev IdMap (κ : Type) [Ord κ] (α : Type) := Std.ExtTreeMap κ α

abbrev IdSet (κ : Type) [Ord κ] := Std.ExtTreeSet κ

section
variable {κ α : Type} [Ord κ] [Std.TransOrd κ]

def find (m : IdMap κ α) (k : κ) : Except Exn α :=
  match m[k]? with
  | some v => .ok v
  | none => .error .notFound

def assert (b : Bool) : Except Exn Unit := if b then .ok () else .error .assertFailure

def craise {β : Type} (message : String) : Except Exn β := .error (.failure message)

def cassert (b : Bool) (message : String) : Except Exn Unit := if b then .ok () else craise message

def internalError {β : Type} : Except Exn β := craise "Internal error, please file an issue"

def sanityCheck (b : Bool) : Except Exn Unit := cassert b "Internal error, please file an issue"

theorem find_eq_ok {m : IdMap κ α} {k : κ} {v : α} : find m k = .ok v ↔ m[k]? = some v := by
  unfold find
  cases m[k]? <;> simp

theorem sanityCheck_eq_ok {b : Bool} {u : Unit} : sanityCheck b = .ok u ↔ b = true := by
  cases b <;> simp [sanityCheck, cassert, craise]

theorem assert_true {b : Bool} (h : b = true) : assert b = .ok () := by simp [assert, h]

theorem nodup_map_fst_toList (m : IdMap κ α) : (m.toList.map Prod.fst).Nodup := by
  rw [Std.ExtTreeMap.map_fst_toList_eq_keys]
  exact Std.ExtTreeMap.nodup_keys

variable [Std.LawfulEqOrd κ]

theorem getElem?_insert_eq [DecidableEq κ] (m : IdMap κ α) (k a : κ) (v : α) :
    (m.insert k v)[a]? = if k = a then some v else m[a]? := by
  simp [Std.ExtTreeMap.getElem?_insert]

theorem mem_insert_iff (s : IdSet κ) (k a : κ) : a ∈ s.insert k ↔ k = a ∨ a ∈ s := by
  simp [Std.ExtTreeSet.mem_insert]

theorem mem_ofList_iff (l : List κ) (a : κ) : a ∈ (Std.ExtTreeSet.ofList l : IdSet κ) ↔ a ∈ l := by
  classical
  simp [Std.ExtTreeSet.mem_ofList]

theorem getElem?_ofList_iff {l : List (κ × α)} (hl : (l.map Prod.fst).Nodup) (k : κ) (v : α) :
    (Std.ExtTreeMap.ofList l : IdMap κ α)[k]? = some v ↔ (k, v) ∈ l := by
  have hd : l.Pairwise fun a b => ¬ compare a.1 b.1 = .eq := by
    rw [List.Nodup, List.pairwise_map] at hl
    exact hl.imp fun h => by simpa using h
  constructor
  · intro h
    by_cases hk : k ∈ l.map Prod.fst
    · obtain ⟨⟨k', w⟩, hw, rfl⟩ := mem_map.mp hk
      have := Std.ExtTreeMap.getElem?_ofList_of_mem (Std.ReflCmp.compare_self) hd hw
      rw [this] at h
      cases h
      exact hw
    · classical
      have hc : (l.map Prod.fst).contains k = false := by simpa using hk
      rw [Std.ExtTreeMap.getElem?_ofList_of_contains_eq_false hc] at h
      cases h
  · exact fun h => Std.ExtTreeMap.getElem?_ofList_of_mem Std.ReflCmp.compare_self hd h

theorem getElem?_ofList_positions {l : List κ} (hl : l.Nodup) (k : κ) (i : Nat) :
    (Std.ExtTreeMap.ofList (l.mapIdx fun i a => (a, i)) : IdMap κ Nat)[k]? = some i ↔ l[i]? = some k := by
  have hkeys : (l.mapIdx fun i a => (a, i)).map Prod.fst = l := by
    refine ext_getElem? fun i => ?_
    cases h : l[i]? <;> simp [h]
  rw [getElem?_ofList_iff (by rwa [hkeys]), mem_mapIdx, getElem?_eq_some_iff]
  constructor
  · rintro ⟨j, hj, heq⟩
    obtain ⟨rfl, rfl⟩ := Prod.mk.inj heq
    exact ⟨hj, rfl⟩
  · rintro ⟨hi, rfl⟩
    exact ⟨i, hi, rfl⟩

theorem getElem?_ofList_bindings {κ' β : Type} [Ord κ'] [Std.TransOrd κ'] [Std.LawfulEqOrd κ'] {m : IdMap κ α}
    {f : κ × α → κ'} {g : κ × α → β} (hf : ∀ p ∈ m.toList, ∀ q ∈ m.toList, f p = f q → p = q) (k : κ') (b : β) :
    (Std.ExtTreeMap.ofList (m.toList.map fun p => (f p, g p)) : IdMap κ' β)[k]? = some b ↔
      ∃ i a, m[i]? = some a ∧ f (i, a) = k ∧ g (i, a) = b := by
  have hnodup : ((m.toList.map fun p => (f p, g p)).map Prod.fst).Nodup := by
    rw [map_map]
    exact List.Nodup.map_on hf (List.Nodup.of_map Prod.fst (nodup_map_fst_toList m))
  rw [getElem?_ofList_iff hnodup, mem_map]
  constructor
  · rintro ⟨⟨i, a⟩, hp, heq⟩
    obtain ⟨rfl, rfl⟩ := Prod.mk.inj heq
    exact ⟨i, a, Std.ExtTreeMap.mem_toList_iff_getElem?_eq_some.mp hp, rfl, rfl⟩
  · rintro ⟨i, a, ha, rfl, rfl⟩
    exact ⟨(i, a), Std.ExtTreeMap.mem_toList_iff_getElem?_eq_some.mpr ha, rfl⟩

end

theorem getElem?_ofList_mapIdx {α β : Type} (l : List α) (f : Nat → α → β) (i : Nat) :
    (Std.ExtTreeMap.ofList (l.mapIdx fun i a => (i, f i a)) : IdMap Nat β)[i]? = l[i]?.map (f i) := by
  have hkeys : (l.mapIdx fun i a => (i, f i a)).map Prod.fst = List.range l.length := by
    refine ext_getElem? fun i => ?_
    by_cases hi : i < l.length <;> simp [hi]
  refine Option.ext fun b => ?_
  rw [getElem?_ofList_iff (by rw [hkeys]; exact nodup_range), mem_mapIdx, Option.map_eq_some_iff]
  constructor
  · rintro ⟨j, hj, heq⟩
    obtain ⟨rfl, rfl⟩ := Prod.mk.inj heq
    exact ⟨_, getElem?_eq_getElem hj, rfl⟩
  · rintro ⟨a, ha, rfl⟩
    obtain ⟨hi, rfl⟩ := List.getElem?_eq_some_iff.mp ha
    exact ⟨i, hi, rfl⟩

theorem toList_eq_mapIdx {α : Type} {m : IdMap Nat α} {l : List α} (h : ∀ i : Nat, m[i]? = l[i]?) :
    m.toList = l.mapIdx fun i a => (i, a) := by
  have hmem : ∀ p : Nat × α, p ∈ m.toList ↔ p ∈ l.mapIdx fun i a => (i, a) := by
    intro p
    rw [show p = (p.1, p.2) from rfl, Std.ExtTreeMap.mem_toList_iff_getElem?_eq_some, h, mem_mapIdx,
      getElem?_eq_some_iff]
    simp [Prod.ext_iff]
  have hlt : m.toList.Pairwise (fun a b => a.1 < b.1) :=
    Std.ExtTreeMap.ordered_keys_toList.imp fun h => Nat.compare_eq_lt.mp h
  have hlt' : (l.mapIdx fun i a => (i, a)).Pairwise (fun a b => a.1 < b.1) := by
    simp [List.pairwise_iff_getElem]
  have hne : ∀ {l : List (Nat × α)}, l.Pairwise (fun a b => a.1 < b.1) → l.Nodup := fun h =>
    h.imp fun h heq => by simp [heq] at h
  refine List.Perm.eq_of_pairwise (fun a b _ _ hab hba => absurd hab (Nat.lt_asymm hba)) hlt hlt' ?_
  exact (perm_ext_iff_of_nodup (hne hlt) (hne hlt')).mpr hmem

/-! ## Iterations over a list -/

section
variable {ε α β σ : Type}

theorem bind_eq_of_ok {x : Except ε α} {a : α} (h : x = .ok a) (f : α → Except ε β) : (x >>= f) = f a := by
  rw [h]
  rfl

theorem bind_eq_ok {x : Except ε α} {f : α → Except ε β} {b : β} :
    (x >>= f) = .ok b ↔ ∃ a, x = .ok a ∧ f a = .ok b := by
  cases x with
  | error e => exact ⟨nofun, nofun⟩
  | ok a => exact ⟨fun h => ⟨a, rfl, h⟩, fun ⟨_, ha, h⟩ => by cases ha; exact h⟩

theorem bind_eq_error {x : Except ε α} {f : α → Except ε β} {e : ε} (h : (x >>= f) = .error e) :
    x = .error e ∨ ∃ a, x = .ok a ∧ f a = .error e := by
  cases x with
  | error e' => exact .inl (by cases h; rfl)
  | ok a => exact .inr ⟨a, rfl, h⟩

theorem mapM_ok {f : α → Except ε β} (g : α → β) :
    ∀ {l : List α}, (∀ a ∈ l, f a = .ok (g a)) → l.mapM f = .ok (l.map g)
  | [], _ => rfl
  | a :: l, h => by
    rw [mapM_cons, h a (by simp), mapM_ok g fun b hb => h b (by simp [hb])]
    rfl

theorem exists_of_forall₂ {R : α → β → Prop} {l : List α} {r : List β} (h : List.Forall₂ R l r) {b : β} (hb : b ∈ r) :
    ∃ a ∈ l, R a b := by
  induction h with
  | nil => simp at hb
  | cons hab _ ih =>
    rcases mem_cons.mp hb with rfl | hb
    · exact ⟨_, mem_cons_self .., hab⟩
    · obtain ⟨a, ha, hab⟩ := ih hb
      exact ⟨a, mem_cons_of_mem _ ha, hab⟩

theorem mapM_eq_ok_iff {f : α → Except ε β} : ∀ {l : List α} {r : List β},
    l.mapM f = .ok r ↔ List.Forall₂ (fun a b => f a = .ok b) l r
  | [], r => by
    rw [mapM_nil, forall₂_nil_left_iff]
    exact ⟨fun h => (Except.ok.inj h).symm, fun h => by rw [h]; rfl⟩
  | a :: l, r => by
    rw [mapM_cons, bind_eq_ok, forall₂_cons_left_iff]
    constructor
    · rintro ⟨b, hb, h⟩
      obtain ⟨bs, hbs, h⟩ := bind_eq_ok.mp h
      exact ⟨b, bs, hb, mapM_eq_ok_iff.mp hbs, (Except.ok.inj h).symm⟩
    · rintro ⟨b, bs, hb, hbs, rfl⟩
      exact ⟨b, hb, bind_eq_ok.mpr ⟨bs, mapM_eq_ok_iff.mpr hbs, rfl⟩⟩

theorem mapM_eq_error {f : α → Except ε β} {e : ε} : ∀ {l : List α}, l.mapM f = .error e → ∃ a ∈ l, f a = .error e
  | [], h => by cases h
  | a :: l, h => by
    rw [mapM_cons] at h
    rcases bind_eq_error h with ha | ⟨b, -, h⟩
    · exact ⟨a, by simp, ha⟩
    · rcases bind_eq_error h with hl | ⟨bs, -, ⟨⟩⟩
      obtain ⟨c, hc, hx⟩ := mapM_eq_error hl
      exact ⟨c, by simp [hc], hx⟩

theorem foldlM_ok {f : σ → α → Except ε σ} {P : List α → σ → Prop} {l : List α}
    (step : ∀ pre a post s, l = pre ++ a :: post → P pre s → ∃ s', f s a = .ok s' ∧ P (pre ++ [a]) s')
    {s : σ} (h : P [] s) : ∃ s', l.foldlM f s = .ok s' ∧ P l s' := by
  suffices ∀ post pre s, l = pre ++ post → P pre s → ∃ s', post.foldlM f s = .ok s' ∧ P l s' from
    this l [] s rfl h
  intro post
  induction post with
  | nil => intro pre s hl hp; exact ⟨s, rfl, by simpa [hl] using hp⟩
  | cons a post ih =>
    intro pre s hl hp
    obtain ⟨s₁, h₁, hp₁⟩ := step pre a post s hl hp
    obtain ⟨s₂, h₂, hp₂⟩ := ih (pre ++ [a]) s₁ (by simp [hl]) hp₁
    exact ⟨s₂, by rw [foldlM_cons, h₁]; exact h₂, hp₂⟩

end

theorem mapM_congr {m : Type → Type} [Monad m] [LawfulMonad m] {α β : Type} {f g : α → m β} :
    ∀ {l : List α}, (∀ a ∈ l, f a = g a) → l.mapM f = l.mapM g
  | [], _ => rfl
  | a :: l, h => by
    obtain ⟨ha, hl⟩ := forall_mem_cons.mp h
    rw [mapM_cons, mapM_cons, ha, mapM_congr hl]

theorem mapM_bind_congr {m : Type → Type} [Monad m] [LawfulMonad m] {α β γ : Type} {f : α → m γ} :
    ∀ {l : List α} {k k' : List γ → m β},
    (∀ cs, cs.length = l.length → k cs = k' cs) → (l.mapM f >>= k) = (l.mapM f >>= k')
  | [], k, k', h => by simpa using h [] rfl
  | a :: l, k, k', h => by
    simp only [mapM_cons, bind_assoc, pure_bind]
    congr 1
    funext c
    exact mapM_bind_congr fun cs hcs => h (c :: cs) (by simp [hcs])

/-! ## Passes with a state -/

abbrev EnvM (σ : Type) := StateT σ (Except Exn)

section
variable {σ α β : Type} {s s' : σ} {a : α}

theorem run_bind {x : EnvM σ α} (h : x s = .ok (a, s')) (f : α → EnvM σ β) : (x >>= f) s = f a s' := by
  show Except.bind (x s) _ = _
  rw [h]
  rfl

variable {f : α → EnvM σ β}

theorem run_bind_eq_ok {x : EnvM σ α} {b : β} (h : (x >>= f) s = .ok (b, s')) :
    ∃ a s₁, x s = .ok (a, s₁) ∧ f a s₁ = .ok (b, s') := by
  have h' : Except.bind (x s) (fun p => f p.1 p.2) = .ok (b, s') := h
  cases hx : x s with
  | error e => rw [hx] at h'; cases h'
  | ok p => rw [hx] at h'; exact ⟨p.1, p.2, rfl, h'⟩

theorem run_liftM {x : Except Exn α} (h : (liftM x : EnvM σ α) s = .ok (a, s')) : x = .ok a ∧ s' = s := by
  cases x with
  | error e => cases h
  | ok b => cases h; exact ⟨rfl, rfl⟩

theorem run_liftM_ok {x : Except Exn α} (h : x = .ok a) (s : σ) : (liftM x : EnvM σ α) s = .ok (a, s) := by
  rw [h]
  rfl

theorem run_optionMapM {o : Option α} {r : Option β} (h : o.mapM f s = .ok (r, s')) :
    (o = none ∧ r = none ∧ s' = s) ∨ ∃ a b, o = some a ∧ f a s = .ok (b, s') ∧ r = some b := by
  cases o with
  | none => cases h; exact .inl ⟨rfl, rfl, rfl⟩
  | some a =>
    rw [Option.mapM_some, map_eq_pure_bind] at h
    obtain ⟨b, s₁, hf, h⟩ := run_bind_eq_ok h
    cases h
    exact .inr ⟨a, b, rfl, hf, rfl⟩

theorem run_pure (a : α) : (pure a : EnvM σ α) s = .ok (a, s) := rfl

theorem run_mapM {g : α → β} {I : List α → σ → Prop} : ∀ {pre l : List α} {s : σ},
    (∀ pre' a post, pre ++ l = pre' ++ a :: post → ∀ s, I pre' s →
      ∃ s', f a s = .ok (g a, s') ∧ I (pre' ++ [a]) s') →
    I pre s → ∃ s', l.mapM f s = .ok (l.map g, s') ∧ I (pre ++ l) s'
  | pre, [], s, _, h => ⟨s, rfl, by simpa using h⟩
  | pre, a :: l, s, hstep, h => by
    obtain ⟨s₁, hrun₁, h₁⟩ := hstep pre a l rfl s h
    have hstep' : ∀ pre' b post, (pre ++ [a]) ++ l = pre' ++ b :: post → ∀ s, I pre' s →
        ∃ s', f b s = .ok (g b, s') ∧ I (pre' ++ [b]) s' :=
      fun pre' b post heq => hstep pre' b post (by simpa using heq)
    obtain ⟨s₂, hrun₂, h₂⟩ := run_mapM hstep' h₁
    refine ⟨s₂, ?_, by simpa using h₂⟩
    rw [mapM_cons, run_bind hrun₁, run_bind hrun₂]
    rfl

end

end Aeneas
