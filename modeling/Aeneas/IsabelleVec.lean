import Aeneas.IsabelleSlice

/-!
# The vectors of the Isabelle prelude

A vector is the list of its elements. A history of operations is run in the
prelude and on a vector of Rust, which has a capacity, whose `insert` shifts the
elements after the index and whose `extend_from_slice` clones the elements of the
slice.
-/

namespace Aeneas.Isabelle

abbrev Usize := { i : Int // scalarInBounds .usize i = true }

structure Clone (α : Type) where
  clone : α → Result α

/-! ## The prelude -/

namespace AllocVecVec
variable {α : Type}

def new : List α := []

def len (v : List α) : Int :=
  let n : Int := v.length
  if n ≤ usizeMax then n else 0

def push (v : List α) (x : α) : Result (List α) :=
  let l := v ++ [x]
  if (l.length : Int) ≤ usizeMax then pure l else .fail .outOfFuel

def insert (v : List α) (i : Int) (x : α) : Result (List α) :=
  if 0 ≤ i ∧ i < v.length then pure (v.set i.toNat x) else .fail .failure

def indexUsize (v : List α) (i : Int) : Result α :=
  if h : 0 ≤ i ∧ i < v.length then pure (v.get ⟨i.toNat, toNat_lt_length h⟩) else .fail .failure

def updateUsize (v : List α) (i : Int) (x : α) : Result (List α) :=
  if 0 ≤ i ∧ i < v.length then pure (v.set i.toNat x) else .fail .failure

def update (v : List α) (i : Int) (x : α) : List α :=
  if 0 ≤ i ∧ i < v.length then v.set i.toNat x else v

def indexMutUsize (v : List α) (i : Int) : Result (α × (α → List α)) :=
  if h : 0 ≤ i ∧ i < v.length then pure (v.get ⟨i.toNat, toNat_lt_length h⟩, update v i) else .fail .failure

def withCapacity (_ : Int) : List α := new

def clear (_ : List α) : List α := []

-- The dictionary is ignored: cloning is the identity.
def extendFromSlice (_ : Clone α) (v s : List α) : Result (List α) :=
  let l := v ++ s
  if (l.length : Int) ≤ usizeMax then .ok l else .fail .failure

end AllocVecVec

/-! ## Histories -/

inductive VecOp (α : Type) where
  | new
  | withCapacity (n : Usize)
  | push (x : α)
  | insert (i : Usize) (x : α)
  | index (i : Usize)
  | update (i : Usize) (x : α)
  | indexMut (i : Usize) (x : α)
  | len
  | clear
  | extendFromSlice (s : List α)

inductive VecOut (α : Type) where
  | unit
  | elem (x : α)
  | usize (n : Int)
deriving DecidableEq

section
variable {α : Type} (inst : Clone α)

def vecStep (v : List α) : VecOp α → Result (VecOut α × List α)
  | .new => .ok (.unit, AllocVecVec.new)
  | .withCapacity n => .ok (.unit, AllocVecVec.withCapacity n)
  | .push x => do
    let v ← AllocVecVec.push v x
    pure (.unit, v)
  | .insert i x => do
    let v ← AllocVecVec.insert v i x
    pure (.unit, v)
  | .index i => do
    let x ← AllocVecVec.indexUsize v i
    pure (.elem x, v)
  | .update i x => do
    let v ← AllocVecVec.updateUsize v i x
    pure (.unit, v)
  | .indexMut i x => do
    let r ← AllocVecVec.indexMutUsize v i
    pure (.elem r.1, r.2 x)
  | .len => .ok (.usize (AllocVecVec.len v), v)
  | .clear => .ok (.unit, AllocVecVec.clear v)
  | .extendFromSlice s => do
    let v ← AllocVecVec.extendFromSlice inst v s
    pure (.unit, v)

/-- A vector of Rust, which has memory for `cap` elements. -/
structure RustVec (α : Type) where
  cap : Nat
  elems : List α

-- The size of an element in bytes, and the capacity that a vector with some capacity gets for some length.
variable (size : Nat) (grow : Nat → Nat → Nat)

def RustVec.Fits (v : RustVec α) (n : Nat) : Prop := n ≤ v.cap ∨ (grow v.cap n * size : Int) ≤ isizeMax

instance (v : RustVec α) (n : Nat) : Decidable (v.Fits size grow n) := inferInstanceAs (Decidable (_ ∨ _))

/-- Make room for `n` elements: a capacity of more than `isize::MAX` bytes panics. -/
def RustVec.reserve (v : RustVec α) (n : Nat) : Result (RustVec α) :=
  if v.Fits size grow n then .ok { v with cap := if n ≤ v.cap then v.cap else grow v.cap n } else .fail .failure

/-- An operation on a vector of Rust; a panic is a failure. The allocator always succeeds. -/
def rustStep (v : RustVec α) : VecOp α → Result (VecOut α × RustVec α)
  | .new => .ok (.unit, ⟨0, []⟩)
  | .withCapacity n => if n.1 * size ≤ isizeMax then .ok (.unit, ⟨n.1.toNat, []⟩) else .fail .failure
  | .push x => do
    let v ← v.reserve size grow (v.elems.length + 1)
    pure (.unit, { v with elems := v.elems ++ [x] })
  | .insert i x =>
    if i.1.toNat ≤ v.elems.length then do
      let v ← v.reserve size grow (v.elems.length + 1)
      pure (.unit, { v with elems := v.elems.take i.1.toNat ++ x :: v.elems.drop i.1.toNat })
    else .fail .failure
  | .index i =>
    match v.elems[i.1.toNat]? with
    | some x => .ok (.elem x, v)
    | none => .fail .failure
  | .update i x =>
    if i.1.toNat < v.elems.length then .ok (.unit, { v with elems := v.elems.set i.1.toNat x }) else .fail .failure
  | .indexMut i x =>
    match v.elems[i.1.toNat]? with
    | some y => .ok (.elem y, { v with elems := v.elems.set i.1.toNat x })
    | none => .fail .failure
  | .len => .ok (.usize v.elems.length, v)
  | .clear => .ok (.unit, { v with elems := [] })
  | .extendFromSlice s => do
    let v ← v.reserve size grow (v.elems.length + s.length)
    let s ← s.mapM inst.clone
    pure (.unit, { v with elems := v.elems ++ s })

section
variable {σ : Type} (contents : σ → List α) (step : σ → VecOp α → Result (VecOut α × σ))

def observe (r : Result (VecOut α × σ)) : Result (VecOut α × List α) := r >>= fun r => .ok (r.1, contents r.2)

/-- The results of a history, and the contents after each operation, up to the first failure. -/
def runHistory (v : σ) : List (VecOp α) → List (Result (VecOut α × List α))
  | [] => []
  | op :: ops => observe contents (step v op) ::
    match step v op with
    | .ok r => runHistory r.2 ops
    | _ => []

/-- A property of the operations of a history and of the vectors they apply to. -/
def Along (P : σ → VecOp α → Prop) (v : σ) : List (VecOp α) → Prop
  | [] => True
  | op :: ops => P v op ∧ ∀ r, step v op = .ok r → Along P r.2 ops

end

def VecOp.newLength (v : RustVec α) : VecOp α → Nat
  | .push _ => v.elems.length + 1
  | .insert _ _ => v.elems.length + 1
  | .extendFromSlice s => v.elems.length + s.length
  | _ => v.elems.length

/-- The memory is not exhausted, an insertion is past the end, where it panics, and cloning the elements of
a slice gives the same elements. An insertion at the end panics too, if there is no memory for it. -/
def VecOp.Agrees (v : RustVec α) : VecOp α → Prop
  | .withCapacity n => n.1 * size ≤ isizeMax
  | .push _ => v.Fits size grow (v.elems.length + 1)
  | .insert i _ => v.elems.length < i.1.toNat ∨ i.1.toNat = v.elems.length ∧ ¬ v.Fits size grow (v.elems.length + 1)
  | .extendFromSlice s => v.Fits size grow (v.elems.length + s.length) ∧ ∀ x ∈ s, inst.clone x = .ok x
  | _ => True

variable {inst size grow} {v : RustVec α}

attribute [local simp] VecOp.Agrees rustStep vecStep observe RustVec.reserve

theorem Usize.nonneg (i : Usize) : 0 ≤ i.1 := (scalarInBounds_iff.mp i.2).1

theorem mapM_clone_eq {s : List α} : s.mapM inst.clone = .ok s ↔ ∀ x ∈ s, inst.clone x = .ok x := by
  induction s with
  | nil => simp
  | cons x s ih =>
    rw [List.mapM_cons, Result.bind_eq_ok]
    simp only [Result.bind_eq_ok, Result.pure_eq, Result.ok.injEq, List.cons.injEq, List.forall_mem_cons, ← ih]
    constructor
    · rintro ⟨y, hy, s', hs', rfl, rfl⟩
      exact ⟨hy, hs'⟩
    · rintro ⟨hx, hs⟩
      exact ⟨x, hx, s, hs, rfl, rfl⟩

theorem insert_eq_rust_iff (i : Usize) (x : α) :
    vecStep inst v.elems (.insert i x) = observe RustVec.elems (rustStep inst size grow v (.insert i x)) ↔
      VecOp.Agrees inst size grow v (.insert i x) := by
  have hnonneg := i.nonneg
  by_cases hlt : i.1.toNat < v.elems.length
  · -- the prelude overwrites, and Rust makes the vector longer
    have hi : i.1 < v.elems.length := by omega
    by_cases hfits : v.Fits size grow (v.elems.length + 1)
    · simp only [vecStep, AllocVecVec.insert, hnonneg, hi, rustStep, hlt.le, RustVec.reserve, hfits, VecOp.Agrees]
      refine iff_of_false (fun h => ?_) (by omega)
      have hlen := congrArg List.length (Prod.mk.inj (Result.ok.inj h)).2
      simp at hlen
      omega
    · simp [AllocVecVec.insert, hnonneg, hi, hlt.le, hfits]
      omega
  · have hi : ¬ i.1 < v.elems.length := by omega
    by_cases heq : i.1.toNat = v.elems.length
    · by_cases hfits : v.Fits size grow (v.elems.length + 1) <;> simp [AllocVecVec.insert, hi, heq, hfits]
    · have hlt' : v.elems.length < i.1.toNat := by omega
      simp [AllocVecVec.insert, hi, hlt', Nat.not_le.mpr hlt']

theorem VecOp.length_le_newLength (op : VecOp α) : v.elems.length ≤ op.newLength v := by
  cases op <;> simp [VecOp.newLength]

theorem vecStep_eq_rustStep_iff {op : VecOp α} (hop : (op.newLength v : Int) < usizeMax) :
    vecStep inst v.elems op = observe RustVec.elems (rustStep inst size grow v op) ↔ op.Agrees inst size grow v := by
  have hv : (v.elems.length : Int) < usizeMax := by
    have hle : v.elems.length ≤ op.newLength v := op.length_le_newLength
    omega
  cases op with
  | new => simp [AllocVecVec.new]
  | withCapacity n => by_cases hn : n.1 * size ≤ isizeMax <;> simp [AllocVecVec.new, AllocVecVec.withCapacity, hn]
  | push x =>
    have hlen : (v.elems.length : Int) + 1 ≤ usizeMax := by
      simp only [VecOp.newLength] at hop
      omega
    by_cases hfits : v.Fits size grow (v.elems.length + 1) <;> simp [AllocVecVec.push, hlen, hfits]
  | insert i x => exact insert_eq_rust_iff i x
  | index i =>
    have hnonneg := i.nonneg
    by_cases hi : i.1 < v.elems.length
    · have hi' : i.1.toNat < v.elems.length := by omega
      simp [AllocVecVec.indexUsize, hnonneg, hi, hi']
    · have hi' : v.elems.length ≤ i.1.toNat := by omega
      simp [AllocVecVec.indexUsize, hi, hi']
  | update i x =>
    have hnonneg := i.nonneg
    by_cases hi : i.1 < v.elems.length
    · have hi' : i.1.toNat < v.elems.length := by omega
      simp [AllocVecVec.updateUsize, hnonneg, hi, hi']
    · have hi' : v.elems.length ≤ i.1.toNat := by omega
      simp [AllocVecVec.updateUsize, hi, Nat.not_lt.mpr hi']
  | indexMut i x =>
    have hnonneg := i.nonneg
    by_cases hi : i.1 < v.elems.length
    · have hi' : i.1.toNat < v.elems.length := by omega
      simp [AllocVecVec.indexMutUsize, AllocVecVec.update, hnonneg, hi, hi']
    · have hi' : v.elems.length ≤ i.1.toNat := by omega
      simp [AllocVecVec.indexMutUsize, hi, hi']
  | len => simp [AllocVecVec.len, Int.le_of_lt hv]
  | clear => simp [AllocVecVec.clear]
  | extendFromSlice s =>
    have hlen : ((v.elems ++ s).length : Int) ≤ usizeMax := by
      rw [List.length_append]
      exact Int.le_of_lt hop
    rw [VecOp.Agrees, ← mapM_clone_eq]
    simp only [vecStep, rustStep, observe, RustVec.reserve, AllocVecVec.extendFromSlice, hlen, if_true,
      Result.bind_ok, Result.pure_eq]
    by_cases hfits : v.Fits size grow (v.elems.length + s.length)
    · cases s.mapM inst.clone <;> simp [hfits, eq_comm]
    · simp [hfits]

theorem runHistory_eq_iff_along {ops : List (VecOp α)}
    (hlen : Along (rustStep inst size grow) (fun v op => (op.newLength v : Int) < usizeMax) v ops) :
    runHistory id (vecStep inst) v.elems ops = runHistory RustVec.elems (rustStep inst size grow) v ops ↔
      Along (rustStep inst size grow) (VecOp.Agrees inst size grow) v ops := by
  induction ops generalizing v with
  | nil => simp [runHistory, Along]
  | cons op ops ih =>
    have hstep : vecStep inst v.elems op = observe RustVec.elems (rustStep inst size grow v op) ↔
        op.Agrees inst size grow v := vecStep_eq_rustStep_iff hlen.1
    have hself : observe id (vecStep inst v.elems op) = vecStep inst v.elems op := by
      cases h : vecStep inst v.elems op <;> rfl
    rw [runHistory, runHistory, List.cons.injEq, hself, hstep, Along]
    refine and_congr_right fun hagrees => ?_
    rw [hstep.mpr hagrees]
    cases hr : rustStep inst size grow v op with
    | ok r => simpa using ih (hlen.2 r hr)
    | _ => simp

end

theorem vec_history_eq_iff {α : Type} (inst : Clone α) (size : Nat) (grow : Nat → Nat → Nat) (ops : List (VecOp α))
    (hlen : Along (rustStep inst size grow) (fun v op => (op.newLength v : Int) < usizeMax) ⟨0, []⟩ ops) :
    runHistory id (vecStep inst) [] ops = runHistory RustVec.elems (rustStep inst size grow) ⟨0, []⟩ ops ↔
      Along (rustStep inst size grow) (VecOp.Agrees inst size grow) ⟨0, []⟩ ops :=
  runHistory_eq_iff_along hlen

def copyInst (α : Type) : Clone α := { clone := .ok }

/-- The capacity is doubled, or is what is needed. -/
def amortized (cap n : Nat) : Nat := max (2 * cap) n

def insertHistory (i : Usize) : List (VecOp Nat) := [.withCapacity ⟨1, by decide⟩, .push 1, .push 2, .insert i 3]

theorem insertHistory_bounded (i : Usize) :
    Along (rustStep (copyInst Nat) 8 amortized) (fun v op => (op.newLength v : Int) < usizeMax) ⟨0, []⟩
      (insertHistory i) := by
  simp [Along, insertHistory, rustStep, VecOp.newLength, RustVec.reserve, RustVec.Fits, amortized, isizeMax, usizeMax]

/-- An insertion past the end panics in both. -/
theorem vec_history_eq_iff_pastEnd :
    runHistory id (vecStep (copyInst Nat)) [] (insertHistory ⟨5, by decide⟩) =
      runHistory RustVec.elems (rustStep (copyInst Nat) 8 amortized) ⟨0, []⟩ (insertHistory ⟨5, by decide⟩) := by
  refine (vec_history_eq_iff _ 8 amortized _ (insertHistory_bounded _)).mpr ?_
  simp [Along, insertHistory, rustStep, VecOp.Agrees, RustVec.Fits, RustVec.reserve, amortized, isizeMax]

/-- Inserting between two elements overwrites the second one, and inserting at the end fails. -/
theorem vec_insert_overwrites :
    (runHistory id (vecStep (copyInst Nat)) [] (insertHistory ⟨1, by decide⟩)).getLast? = some (.ok (.unit, [1, 3])) ∧
    (runHistory RustVec.elems (rustStep (copyInst Nat) 8 amortized) ⟨0, []⟩ (insertHistory ⟨1, by decide⟩)).getLast? =
      some (.ok (.unit, [1, 3, 2])) ∧
    (runHistory id (vecStep (copyInst Nat)) [] (insertHistory ⟨2, by decide⟩)).getLast? = some (.fail .failure) ∧
    (runHistory RustVec.elems (rustStep (copyInst Nat) 8 amortized) ⟨0, []⟩ (insertHistory ⟨2, by decide⟩)).getLast? =
      some (.ok (.unit, [1, 2, 3])) := by
  decide

/-! ## Equality -/

structure PartialEq (α β : Type) where
  eq : α → β → Result Bool
  ne : α → β → Result Bool

section
variable {α β : Type}

def listAll2Result (eq : α → β → Result Bool) : List α → List β → Result Bool
  | [], [] => .ok true
  | x :: xs, y :: ys => do
    let b ← eq x y
    if b then listAll2Result eq xs ys else .ok false
  | _, _ => .ok false

def PartialEqVec.eq (inst : PartialEq α β) (xs : List α) (ys : List β) : Result Bool := listAll2Result inst.eq xs ys

def comparePairs (eq : α → β → Result Bool) : List (α × β) → Result Bool
  | [] => .ok true
  | p :: ps => do
    let b ← eq p.1 p.2
    if b then comparePairs eq ps else .ok false

/-- Equality of vectors in Rust, which compares the lengths first. -/
def rustVecEq (eq : α → β → Result Bool) (xs : List α) (ys : List β) : Result Bool :=
  if xs.length = ys.length then comparePairs eq (xs.zip ys) else .ok false

/-- All comparisons up to the first pair which is unequal return. -/
def Compares (eq : α → β → Result Bool) (ps : List (α × β)) : Prop :=
  ∀ (n : Nat) (p : α × β), ps[n]? = some p →
    (∀ (m : Nat) (q : α × β), m < n → ps[m]? = some q → eq q.1 q.2 = .ok true) → ∃ b, eq p.1 p.2 = .ok b

variable {eq : α → β → Result Bool}

theorem compares_cons {p : α × β} {ps : List (α × β)} :
    Compares eq (p :: ps) ↔ eq p.1 p.2 = .ok false ∨ (eq p.1 p.2 = .ok true ∧ Compares eq ps) := by
  constructor
  · intro h
    obtain ⟨b, hb⟩ := h 0 p rfl (by simp)
    cases b with
    | false => exact .inl hb
    | true =>
      refine .inr ⟨hb, fun n q hq hbefore => h (n + 1) q hq ?_⟩
      intro m r hm hr
      cases m with
      | zero =>
        obtain rfl := Option.some.inj hr
        exact hb
      | succ m => exact hbefore m r (by omega) hr
  · rintro h (_ | n) q hq hbefore
    · obtain rfl := Option.some.inj hq
      rcases h with h | h
      · exact ⟨_, h⟩
      · exact ⟨_, h.1⟩
    · have hp := hbefore 0 p (by omega) rfl
      rcases h with h | h
      · rw [hp] at h
        cases h
      · exact h.2 n q hq fun m r hm hr => hbefore (m + 1) r (by omega) hr

theorem listAll2Result_eq_compare {xs : List α} {ys : List β} (h : xs.length = ys.length) :
    listAll2Result eq xs ys = comparePairs eq (xs.zip ys) := by
  induction xs generalizing ys with
  | nil =>
    obtain rfl := List.length_eq_zero_iff.mp h.symm
    rfl
  | cons x xs ih =>
    cases ys with
    | nil => simp at h
    | cons y ys =>
      rw [listAll2Result, List.zip_cons_cons, comparePairs, ih (by simpa using h)]

theorem listAll2Result_eq_false_iff {xs : List α} {ys : List β} (h : xs.length ≠ ys.length) :
    listAll2Result eq xs ys = .ok false ↔ Compares eq (xs.zip ys) := by
  induction xs generalizing ys with
  | nil =>
    cases ys with
    | nil => simp at h
    | cons y ys => simp [listAll2Result, Compares]
  | cons x xs ih =>
    cases ys with
    | nil => simp [listAll2Result, Compares]
    | cons y ys =>
      have ih := @ih ys (by simpa using h)
      rw [listAll2Result, List.zip_cons_cons, compares_cons, ← ih]
      cases hxy : eq x y with
      | ok b => cases b <;> simp
      | _ => simp

end

theorem vecEq_asInRust_iff {α β : Type} (inst : PartialEq α β) (xs : List α) (ys : List β) :
    PartialEqVec.eq inst xs ys = rustVecEq inst.eq xs ys ↔
      (xs.length ≠ ys.length → Compares inst.eq (xs.zip ys)) := by
  rw [PartialEqVec.eq, rustVecEq]
  by_cases h : xs.length = ys.length
  · simp [h, listAll2Result_eq_compare]
  · simp [h, listAll2Result_eq_false_iff]

/-- Comparing two vectors of different lengths whose elements cannot be compared. -/
theorem vecEq_calls_elements :
    let inst : PartialEq Nat Nat := { eq := fun _ _ => .fail .failure, ne := fun _ _ => .fail .failure }
    PartialEqVec.eq inst [1, 2] [1] = .fail .failure ∧ rustVecEq inst.eq [1, 2] [1] = .ok false := by
  decide

end Aeneas.Isabelle
