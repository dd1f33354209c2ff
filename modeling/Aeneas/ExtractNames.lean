import Aeneas.Collections
import Mathlib.Algebra.Order.BigOperators.Group.List
import Mathlib.Algebra.Order.Group.Nat

/-!
# The names of the variables in the extracted code (`extract/ExtractBase.ml`)

A variable is given a name which no other identifier has, and the name is registered
under the identifier of the variable, where its uses look it up. The name is printed at
the binder as well.
-/

namespace Aeneas.Extract

open List

inductive Backend where
  | fStar | coq | lean | hol4 | isabelle
deriving DecidableEq

/-- The identifiers with a name. The kinds which the maps of names treat alike are one constructor. -/
inductive Id where
  | fVarId (id : Nat)
  | keywordId
  | typeId (id : Nat)
  | pureFunId (id : Nat)
  -- the fields of the structures and the items of the traits
  | memberId (id : Nat)
  | otherId (id : Nat)
deriving DecidableEq

def Id.kind : Id → Nat
  | .fVarId _ => 0
  | .keywordId => 1
  | .typeId _ => 2
  | .pureFunId _ => 3
  | .memberId _ => 4
  | .otherId _ => 5

def Id.index : Id → Nat
  | .keywordId => 0
  | .fVarId id | .typeId id | .pureFunId id | .memberId id | .otherId id => id

def compareId : Id → Id → Ordering := compareLex (compareOn Id.kind) (compareOn Id.index)

instance : Ord Id := ⟨compareId⟩

instance : Std.TransOrd Id := inferInstanceAs (Std.TransCmp (compareLex _ _))

instance : Std.LawfulEqOrd Id where
  eq_of_compare {a b} h := by
    obtain ⟨hkind, hindex⟩ := compareLex_eq_eq.mp h
    have hkind : a.kind = b.kind := Std.LawfulEqCmp.eq_of_compare hkind
    have hindex : a.index = b.index := Std.LawfulEqCmp.eq_of_compare hindex
    cases a <;> cases b <;> simp_all [Id.kind, Id.index]

/-! ## The maps of names -/

/-- The set may have more names than the map: `ctx_reserve_names` adds names to it which no identifier has. -/
structure NamesMap where
  idToName : IdMap Id String
  nameToId : IdMap String Id
  namesSet : IdSet String
  mem_namesSet : ∀ name ∈ nameToId, name ∈ namesSet

theorem mem_insert_both {nameToId : IdMap String Id} {namesSet : IdSet String}
    (h : ∀ name ∈ nameToId, name ∈ namesSet) (id : Id) (added : String) :
    ∀ name ∈ nameToId.insert added id, name ∈ namesSet.insert added := by
  intro name
  rw [Std.ExtTreeSet.mem_insert, Std.ExtTreeMap.mem_insert]
  exact Or.imp_right (h name)

def emptyNamesMap : NamesMap where
  idToName := ∅
  nameToId := ∅
  namesSet := ∅
  mem_namesSet := by simp

inductive NameError where
  | nameClash (id₁ id₂ : Id) (name : String)
  | nameInNamesSet (id : Id) (name : String)
  | notFound (id : Id)
deriving DecidableEq

def namesMapCheckCollision (id : Id) (name : String) (nm : NamesMap) : List NameError :=
  match nm.nameToId[name]? with
  | none => []
  | some clash => [.nameClash clash id name]

def namesMapAddUnchecked (id : Id) (name : String) (nm : NamesMap) : NamesMap where
  idToName := nm.idToName.insert id name
  nameToId := nm.nameToId.insert name id
  namesSet := nm.namesSet.insert name
  mem_namesSet := mem_insert_both nm.mem_namesSet id name

def namesMapAdd (id : Id) (name : String) (nm : NamesMap) : NamesMap × List NameError :=
  let clash := namesMapCheckCollision id name nm
  let inSet := if nm.namesSet.contains name then [.nameInNamesSet id name] else []
  (namesMapAddUnchecked id name nm, clash ++ inSet)

structure NamesMaps where
  namesMap : NamesMap
  unsafeNamesMap : IdMap Id String
  strictNamesMap : NamesMap

def strictCollisions : Id → Bool
  | .keywordId | .typeId _ => true
  | _ => false

section
variable (recordFieldsShortNames : Bool)

def allowCollisions : Id → Bool
  | .memberId _ => recordFieldsShortNames
  | .pureFunId _ => true
  | _ => false

def namesMapsAdd (id : Id) (name : String) (nm : NamesMaps) : NamesMaps × List NameError :=
  if allowCollisions recordFieldsShortNames id then
    ({ nm with unsafeNamesMap := nm.unsafeNamesMap.insert id name }, namesMapCheckCollision id name nm.strictNamesMap)
  else
    let (strictNamesMap, strictErrors) :=
      if strictCollisions id then namesMapAdd id name nm.strictNamesMap else (nm.strictNamesMap, [])
    let (namesMap, errors) := namesMapAdd id name nm.namesMap
    ({ nm with strictNamesMap, namesMap }, strictErrors ++ errors)

/-- The name, and the error which is saved if there is none. -/
def namesMapsGet (backend : Backend) (idToString : Id → String) (id : Id) (nm : NamesMaps) : String × List NameError :=
  if allowCollisions recordFieldsShortNames id then
    match nm.unsafeNamesMap[id]? with
    | some s => (s, [])
    | none =>
      let text := match backend with
        | .lean => "sorry /- ERROR: unknown identifier\": " ++ idToString id ++ "-/)"
        | _ => "(%%%ERROR: unknown identifier\": " ++ idToString id ++ "\"%%%)"
      (text, [.notFound id])
  else
    match nm.namesMap.idToName[id]? with
    | some s => (s, [])
    | none =>
      let text := match backend with
        | .lean => "sorry /- " ++ ("Could not find: " ++ idToString id) ++ "-/"
        | _ => "(ERROR: " ++ idToString id ++ ")"
      (text, [.notFound id])

end

structure ExtractionCtx where
  namesMaps : NamesMaps
  errors : List NameError

/-! ## Registering a variable -/

def endsWithUnderscore (name : String) : Bool := name.toList.getLast? = some '_'

def registeredName (backend : Backend) (name : String) : String :=
  match backend with
  | .isabelle => if endsWithUnderscore name then name ++ "'" else name
  | .lean | .fStar | .coq | .hol4 => name

/-- `basename_to_unique_aux`: the candidates are tried from the index 1 on. -/
def basenameToUniqueGen (collision : String → Bool) (append : String → Nat → String) (basename : String) :
    Nat → Nat → Except Exn String
  | 0, _ => .error .outOfFuel
  | fuel + 1, i =>
    let s := append basename i
    if collision s then basenameToUniqueGen collision append basename fuel (i + 1) else .ok s

def basenameToUniqueAux (fuel : Nat) (collision : String → Bool) (append : String → Nat → String) (basename : String) :
    Except Exn String :=
  if collision basename then basenameToUniqueGen collision append basename fuel 1 else .ok basename

def nameAppendIndex (basename : String) (i : Nat) : String := basename ++ i.repr

def ExtractionCtx.collision (ctx : ExtractionCtx) (s : String) : Bool :=
  ctx.namesMaps.namesMap.namesSet.contains s || ctx.namesMaps.strictNamesMap.namesSet.contains s

def basenameToUnique (fuel : Nat) (ctx : ExtractionCtx) (name : String) : Except Exn String :=
  basenameToUniqueAux fuel ctx.collision nameAppendIndex name

section
variable (recordFieldsShortNames : Bool) (leanEscape : String → String) (idToString : Id → String) (backend : Backend)

def escapeName (name : String) : String :=
  match backend with
  | .lean => leanEscape name
  | .fStar | .coq | .hol4 | .isabelle => name

def ctxAdd (id : Id) (name : String) (ctx : ExtractionCtx) : ExtractionCtx :=
  let name := registeredName backend name
  let (namesMaps, errors) := namesMapsAdd recordFieldsShortNames id name ctx.namesMaps
  { namesMaps, errors := ctx.errors ++ errors }

def ctxGetVar (id : Nat) (ctx : ExtractionCtx) : String × List NameError :=
  let (name, errors) := namesMapsGet recordFieldsShortNames backend idToString (.fVarId id) ctx.namesMaps
  (escapeName leanEscape backend name, errors)

def ctxAddVar (fuel : Nat) (basename : String) (id : Nat) (ctx : ExtractionCtx) :
    Except Exn (ExtractionCtx × String) := do
  let name ← basenameToUnique fuel ctx basename
  let ctx := ctxAdd recordFieldsShortNames backend (.fVarId id) name ctx
  return (ctx, escapeName leanEscape backend name)

def ctxAddVars (fuel : Nat) : List (String × Nat) → ExtractionCtx → Except Exn (ExtractionCtx × List String)
  | [], ctx => .ok (ctx, [])
  | (basename, id) :: vars, ctx => do
    let (ctx, name) ← ctxAddVar recordFieldsShortNames leanEscape backend fuel basename id ctx
    let (ctx, names) ← ctxAddVars fuel vars ctx
    return (ctx, name :: names)

end

/-! ## Unique names -/

theorem basenameToUniqueGen_ok {collision : String → Bool} {append : String → Nat → String} {basename : String}
    {last i : Nat} (hi : i ≤ last) (hlast : collision (append basename last) = false) :
    ∃ j, collision (append basename j) = false ∧
      ∀ fuel > last - i, basenameToUniqueGen collision append basename fuel i = .ok (append basename j) := by
  induction hd : last - i generalizing i with
  | zero =>
    obtain rfl : i = last := by omega
    refine ⟨i, hlast, fun fuel hfuel => ?_⟩
    obtain ⟨fuel, rfl⟩ := Nat.exists_eq_add_of_le' hfuel
    rw [basenameToUniqueGen]
    simp [hlast]
  | succ d ih =>
    cases hc : collision (append basename i) with
    | false =>
      refine ⟨i, hc, fun fuel hfuel => ?_⟩
      obtain ⟨fuel, rfl⟩ := Nat.exists_eq_add_of_le' (Nat.lt_of_le_of_lt (Nat.zero_le _) hfuel)
      rw [basenameToUniqueGen]
      simp [hc]
    | true =>
      obtain ⟨j, hj, hrun⟩ := ih (i := i + 1) (by omega) (by omega)
      refine ⟨j, hj, fun fuel hfuel => ?_⟩
      obtain ⟨fuel, rfl⟩ := Nat.exists_eq_add_of_le' (Nat.lt_of_le_of_lt (Nat.zero_le _) hfuel)
      rw [basenameToUniqueGen]
      simp only [hc, if_true]
      exact hrun fuel (by omega)

theorem getLast?_repr (i : Nat) : ∃ d < 10, (i.repr).toList.getLast? = some (Nat.digitChar d) := by
  rw [Nat.repr_eq_ofList_toDigits, String.toList_ofList, Nat.toDigits_eq_if (by omega)]
  split
  · exact ⟨i, by omega, by simp⟩
  · exact ⟨i % 10, by omega, by simp⟩

theorem endsWithUnderscore_nameAppendIndex (basename : String) (i : Nat) :
    endsWithUnderscore (nameAppendIndex basename i) = false := by
  obtain ⟨d, hd, hlast⟩ := getLast?_repr i
  unfold endsWithUnderscore nameAppendIndex
  rw [String.toList_append, getLast?_append, hlast]
  simp only [Option.some_or, decide_eq_false_iff_not, Option.some.injEq]
  have hdigits : ∀ d < 10, Nat.digitChar d ≠ '_' := by decide
  exact hdigits d hd

def ExtractionCtx.Taken (ctx : ExtractionCtx) (name : String) : Prop :=
  name ∈ ctx.namesMaps.namesMap.namesSet ∨ name ∈ ctx.namesMaps.strictNamesMap.namesSet

theorem ExtractionCtx.collision_iff (ctx : ExtractionCtx) (name : String) :
    ctx.collision name = true ↔ ctx.Taken name := by
  unfold ExtractionCtx.collision ExtractionCtx.Taken
  rw [Bool.or_eq_true, Std.ExtTreeSet.contains_iff_mem, Std.ExtTreeSet.contains_iff_mem]

/-- A number that is longer than all the names makes a name which is not taken. -/
theorem ExtractionCtx.exists_not_taken (ctx : ExtractionCtx) (basename : String) :
    ∃ last, 1 ≤ last ∧ ¬ ctx.Taken (nameAppendIndex basename last) := by
  let names := ctx.namesMaps.namesMap.namesSet.toList ++ ctx.namesMaps.strictNamesMap.namesSet.toList
  let bound := (names.map String.length).sum + 1
  refine ⟨10 ^ bound, Nat.one_le_pow _ _ (by decide), fun htaken => ?_⟩
  have hmem : nameAppendIndex basename (10 ^ bound) ∈ names := by simpa [names, ExtractionCtx.Taken] using htaken
  have hle := le_sum_of_mem (mem_map_of_mem (f := String.length) hmem)
  have hlong : ¬ (10 ^ bound).repr.length ≤ bound := by simp [Nat.length_repr_le_iff, bound]
  rw [nameAppendIndex, String.length_append] at hle
  omega

structure Unique (ctx : ExtractionCtx) (basename name : String) : Prop where
  notTaken : ¬ ctx.Taken name
  shape : name = basename ∨ ctx.Taken basename ∧ endsWithUnderscore name = false

theorem basenameToUnique_ok (ctx : ExtractionCtx) (basename : String) :
    ∃ n name, (∀ fuel ≥ n, basenameToUnique fuel ctx basename = .ok name) ∧ Unique ctx basename name := by
  unfold basenameToUnique basenameToUniqueAux
  cases hc : ctx.collision basename with
  | false =>
    have hfree : ¬ ctx.Taken basename := by
      rw [← ctx.collision_iff, hc]
      decide
    exact ⟨0, basename, fun _ _ => rfl, hfree, .inl rfl⟩
  | true =>
    obtain ⟨last, hpos, hlast⟩ := ctx.exists_not_taken basename
    rw [← ctx.collision_iff, Bool.not_eq_true] at hlast
    obtain ⟨j, hj, hrun⟩ := basenameToUniqueGen_ok (i := 1) hpos hlast
    refine ⟨last, nameAppendIndex basename j, fun fuel hfuel => ?_, ?_, ?_⟩
    · rw [if_pos rfl]
      exact hrun fuel (by omega)
    · rw [← ctx.collision_iff, hj]
      decide
    · exact .inr ⟨(ctx.collision_iff basename).mp hc, endsWithUnderscore_nameAppendIndex basename j⟩

/-! ## One variable -/

theorem registeredName_eq_of_not (backend : Backend) {name : String} (h : endsWithUnderscore name = false) :
    registeredName backend name = name := by
  cases backend <;> simp [registeredName, h]

theorem endsWithUnderscore_prime (name : String) : endsWithUnderscore (name ++ "'") = false := by
  unfold endsWithUnderscore
  simp

theorem registeredName_registeredName (backend : Backend) (name : String) :
    registeredName backend (registeredName backend name) = registeredName backend name := by
  cases backend with
  | isabelle =>
    cases h : endsWithUnderscore name with
    | false => rw [registeredName_eq_of_not _ h, registeredName_eq_of_not _ h]
    | true =>
      have hprime : registeredName .isabelle name = name ++ "'" := by simp [registeredName, h]
      rw [hprime, registeredName_eq_of_not _ (endsWithUnderscore_prime name)]
  | _ => rfl

theorem registeredName_ne {name : String} (h : endsWithUnderscore name = true) :
    registeredName .isabelle name ≠ name := by
  intro heq
  have hnot := endsWithUnderscore_prime name
  have hprime : registeredName .isabelle name = name ++ "'" := by simp [registeredName, h]
  rw [← hprime, heq, h] at hnot
  cases hnot

def ExtractionCtx.nameOf (ctx : ExtractionCtx) (id : Nat) : Option String :=
  ctx.namesMaps.namesMap.idToName[Id.fVarId id]?

section
variable {recordFieldsShortNames : Bool} {leanEscape : String → String} {idToString : Id → String} {backend : Backend}
  {ctx : ExtractionCtx}

theorem ctxAdd_nameOf (id a : Nat) (name : String) :
    (ctxAdd recordFieldsShortNames backend (.fVarId id) name ctx).nameOf a =
      if id = a then some (registeredName backend name) else ctx.nameOf a := by
  change (ctx.namesMaps.namesMap.idToName.insert (.fVarId id) _)[Id.fVarId a]? = _
  rw [getElem?_insert_eq]
  simp only [Id.fVarId.injEq]
  rfl

theorem ctxAdd_taken (id : Nat) (name s : String) :
    (ctxAdd recordFieldsShortNames backend (.fVarId id) name ctx).Taken s ↔
      registeredName backend name = s ∨ ctx.Taken s := by
  change s ∈ ctx.namesMaps.namesMap.namesSet.insert _ ∨ s ∈ ctx.namesMaps.strictNamesMap.namesSet ↔ _
  rw [mem_insert_iff, or_assoc]
  rfl

theorem ctxAdd_errors {id : Nat} {name : String} (h : ¬ ctx.Taken (registeredName backend name)) :
    (ctxAdd recordFieldsShortNames backend (.fVarId id) name ctx).errors = ctx.errors := by
  have hset : registeredName backend name ∉ ctx.namesMaps.namesMap.namesSet := fun hmem => h (.inl hmem)
  have hmap : ctx.namesMaps.namesMap.nameToId[registeredName backend name]? = none :=
    Std.ExtTreeMap.getElem?_eq_none fun hmem => hset (ctx.namesMaps.namesMap.mem_namesSet _ hmem)
  have hcontains : ctx.namesMaps.namesMap.namesSet.contains (registeredName backend name) = false := by
    rw [Bool.eq_false_iff]
    exact fun hc => hset (Std.ExtTreeSet.contains_iff_mem.mp hc)
  change ctx.errors ++ ([] ++ (namesMapAdd _ _ ctx.namesMaps.namesMap).2) = ctx.errors
  unfold namesMapAdd namesMapCheckCollision
  dsimp only
  rw [hmap, hcontains]
  simp

theorem ctxGetVar_of_nameOf {id : Nat} {name : String} (hb : backend ≠ .lean) (h : ctx.nameOf id = some name) :
    ctxGetVar recordFieldsShortNames leanEscape idToString backend id ctx = (name, []) := by
  have hget : namesMapsGet recordFieldsShortNames backend idToString (.fVarId id) ctx.namesMaps = (name, []) := by
    unfold ExtractionCtx.nameOf at h
    unfold namesMapsGet
    rw [if_neg (by simp [allowCollisions]), h]
  unfold ctxGetVar
  rw [hget]
  cases backend <;> first | rfl | exact absurd rfl hb

variable (recordFieldsShortNames leanEscape) in
theorem ctxAddVar_ok (hb : backend ≠ .lean) (basename : String) (id : Nat) (ctx : ExtractionCtx) :
    ∃ n name, Unique ctx basename name ∧
      ∀ fuel ≥ n, ctxAddVar recordFieldsShortNames leanEscape backend fuel basename id ctx =
        .ok (ctxAdd recordFieldsShortNames backend (.fVarId id) name ctx, name) := by
  obtain ⟨n, name, hrun, hunique⟩ := basenameToUnique_ok ctx basename
  refine ⟨n, name, hunique, fun fuel hfuel => bind_eq_ok.mpr ⟨name, hrun fuel hfuel, ?_⟩⟩
  cases backend <;> first | rfl | exact absurd rfl hb

/-! ## A sequence of variables -/

structure AddedVars (backend : Backend) (ctx : ExtractionCtx) (vars : List (String × Nat)) (ctx' : ExtractionCtx)
    (names : List String) : Prop where
  taken : ∀ s, ctx.Taken s → ctx'.Taken s
  others : ∀ id, id ∉ vars.map Prod.snd → ctx'.nameOf id = ctx.nameOf id
  registered : List.Forall₂ (fun v name => ctx'.nameOf v.2 = some (registeredName backend name)) vars names
  -- a name which is not registered as it is can only be taken from the start
  kept : List.Forall₂ (fun v name => registeredName backend v.1 ≠ v.1 → ¬ ctx.Taken v.1 → name = v.1) vars names

structure NamedVars (ctx : ExtractionCtx) (ctx' : ExtractionCtx) (names : List String) : Prop where
  nodup : names.Nodup
  fresh : ∀ name ∈ names, ¬ ctx.Taken name
  errors : ctx'.errors = ctx.errors

variable (recordFieldsShortNames leanEscape) in
theorem ctxAddVars_ok (hb : backend ≠ .lean) (vars : List (String × Nat)) (hids : (vars.map Prod.snd).Nodup)
    (ctx : ExtractionCtx) :
    ∃ n ctx' names,
      (∀ fuel ≥ n, ctxAddVars recordFieldsShortNames leanEscape backend fuel vars ctx = .ok (ctx', names)) ∧
      AddedVars backend ctx vars ctx' names ∧
      ((∀ v ∈ vars, registeredName backend v.1 = v.1 ∨ ctx.Taken v.1) →
        NamedVars ctx ctx' names ∧ ∀ name ∈ names, registeredName backend name = name) := by
  induction vars generalizing ctx with
  | nil =>
    refine ⟨0, ctx, [], fun _ _ => rfl, ⟨fun _ h => h, fun _ _ => rfl, .nil, .nil⟩, fun _ => ⟨⟨?_, ?_, rfl⟩, ?_⟩⟩
    · exact nodup_nil
    · simp
    · simp
  | cons v vars ih =>
    obtain ⟨basename, id⟩ := v
    rw [map_cons, nodup_cons] at hids
    obtain ⟨n₁, name, hunique, hrun₁⟩ := ctxAddVar_ok recordFieldsShortNames leanEscape hb basename id ctx
    obtain ⟨n₂, ctx', names, hrun₂, hadded, hnamed⟩ :=
      ih hids.2 (ctxAdd recordFieldsShortNames backend (.fVarId id) name ctx)
    have htaken : ∀ s, ctx.Taken s → (ctxAdd recordFieldsShortNames backend (.fVarId id) name ctx).Taken s :=
      fun s hs => (ctxAdd_taken id name s).mpr (.inr hs)
    refine ⟨max n₁ n₂, ctx', name :: names, ?_, ⟨?_, ?_, ?_, ?_⟩, ?_⟩
    · intro fuel hfuel
      exact bind_eq_ok.mpr ⟨_, hrun₁ fuel (by omega), bind_eq_ok.mpr ⟨_, hrun₂ fuel (by omega), rfl⟩⟩
    · exact fun s hs => hadded.taken s (htaken s hs)
    · intro a ha
      rw [map_cons, mem_cons, not_or] at ha
      rw [hadded.others a ha.2, ctxAdd_nameOf, if_neg (Ne.symm ha.1)]
    · refine .cons ?_ hadded.registered
      rw [hadded.others id hids.1, ctxAdd_nameOf, if_pos rfl]
    · refine .cons ?_ (hadded.kept.imp ?_)
      · intro _ hfree
        exact hunique.shape.resolve_right fun h => hfree h.1
      · intro v name' hkept hne hfree
        refine hkept hne fun ht => ?_
        rcases (ctxAdd_taken id name v.1).mp ht with heq | ht
        · exact hne (heq ▸ registeredName_registeredName backend name)
        · exact hfree ht
    · intro hgood
      have hname : registeredName backend name = name := by
        rcases hunique.shape with rfl | ⟨-, hnot⟩
        · exact (hgood (name, id) mem_cons_self).resolve_right hunique.notTaken
        · exact registeredName_eq_of_not backend hnot
      obtain ⟨hnames, hall⟩ := hnamed fun v hv => (hgood v (mem_cons_of_mem _ hv)).imp_right (htaken v.1)
      refine ⟨⟨?_, ?_, ?_⟩, ?_⟩
      · refine nodup_cons.mpr ⟨fun hmem => hnames.fresh name hmem ?_, hnames.nodup⟩
        exact (ctxAdd_taken id name name).mpr (.inl hname)
      · intro a ha
        rcases mem_cons.mp ha with rfl | ha
        · exact hunique.notTaken
        · exact fun ht => hnames.fresh a ha (htaken a ht)
      · rw [hnames.errors]
        exact ctxAdd_errors (by rw [hname]; exact hunique.notTaken)
      · intro a ha
        rcases mem_cons.mp ha with rfl | ha
        · exact hname
        · exact hall a ha

end

section
variable (recordFieldsShortNames : Bool) (leanEscape : String → String) (idToString : Id → String)

/-- The name printed at the binder of a variable is the one which its uses look up, the names differ from each other
and from all those in the context, and no error is reported. -/
def NamesVars (backend : Backend) (ctx : ExtractionCtx) (vars : List (String × Nat)) : Prop :=
  ∃ n, ∀ fuel ≥ n, ∃ ctx' names,
    ctxAddVars recordFieldsShortNames leanEscape backend fuel vars ctx = .ok (ctx', names) ∧
    vars.map (fun v => ctxGetVar recordFieldsShortNames leanEscape idToString backend v.2 ctx') = names.map (·, []) ∧
    names.Nodup ∧ (∀ name ∈ names, ¬ ctx.Taken name) ∧ ctx'.errors = ctx.errors

theorem lookups_eq {backend : Backend} (hb : backend ≠ .lean) {ctx' : ExtractionCtx} {vars : List (String × Nat)}
    {names : List String}
    (h : List.Forall₂ (fun v name => ctx'.nameOf v.2 = some (registeredName backend name)) vars names) :
    vars.map (fun v => ctxGetVar recordFieldsShortNames leanEscape idToString backend v.2 ctx') =
      names.map (registeredName backend ·, []) := by
  induction h with
  | nil => rfl
  | cons hv _ ih => rw [map_cons, map_cons, ih, ctxGetVar_of_nameOf hb hv]

theorem namesVars_iff {backend : Backend} (hb : backend ≠ .lean) (ctx : ExtractionCtx) (vars : List (String × Nat))
    (hids : (vars.map Prod.snd).Nodup) :
    NamesVars recordFieldsShortNames leanEscape idToString backend ctx vars ↔
      ∀ v ∈ vars, registeredName backend v.1 = v.1 ∨ ctx.Taken v.1 := by
  obtain ⟨n, ctx', names, hrun, hadded, hnamed⟩ := ctxAddVars_ok recordFieldsShortNames leanEscape hb vars hids ctx
  have hlookups := lookups_eq recordFieldsShortNames leanEscape idToString hb hadded.registered
  refine ⟨?_, fun hgood => ?_⟩
  · rintro ⟨m, h⟩ v hv
    obtain ⟨ctx'', names'', hrun', hsame, -⟩ := h (max n m) (Nat.le_max_right _ _)
    rw [hrun (max n m) (Nat.le_max_left _ _)] at hrun'
    obtain ⟨rfl, rfl⟩ := Prod.mk.inj (Except.ok.inj hrun')
    rw [hlookups] at hsame
    by_contra hbad
    rw [not_or] at hbad
    -- the base name is the name of the variable, and it is not the one which is registered
    obtain ⟨name, hname, hkept⟩ := exists_of_forall₂ hadded.kept.flip hv
    obtain rfl : name = v.1 := hkept hbad.1 hbad.2
    exact hbad.1 (Prod.mk.inj (map_inj_left.mp hsame v.1 hname)).1
  · obtain ⟨hnames, hall⟩ := hnamed hgood
    refine ⟨n, fun fuel hfuel => ⟨ctx', names, hrun fuel hfuel, ?_, hnames.nodup, hnames.fresh, hnames.errors⟩⟩
    rw [hlookups]
    exact map_congr_left fun name hname => congrArg (·, []) (hall name hname)

/-- For Isabelle, a base name that ends in an underscore must be taken already. -/
theorem namesVars_isabelle_iff (ctx : ExtractionCtx) (vars : List (String × Nat)) (hids : (vars.map Prod.snd).Nodup) :
    NamesVars recordFieldsShortNames leanEscape idToString .isabelle ctx vars ↔
      ∀ v ∈ vars, endsWithUnderscore v.1 = true → ctx.Taken v.1 := by
  rw [namesVars_iff recordFieldsShortNames leanEscape idToString (by decide) ctx vars hids]
  refine forall₂_congr fun v _ => ⟨fun h hend => h.resolve_left (registeredName_ne hend), fun h => ?_⟩
  cases hend : endsWithUnderscore v.1 with
  | false => exact .inl (registeredName_eq_of_not .isabelle hend)
  | true => exact .inr (h hend)

end

def emptyCtx : ExtractionCtx where
  namesMaps := { namesMap := emptyNamesMap, unsafeNamesMap := ∅, strictNamesMap := emptyNamesMap }
  errors := []

theorem not_taken_emptyCtx (name : String) : ¬ emptyCtx.Taken name := by
  simp [ExtractionCtx.Taken, emptyCtx, emptyNamesMap]

theorem namesVars_isabelle_twice :
    NamesVars false id (fun _ => "") .isabelle emptyCtx [("x", 0), ("x", 1)] := by
  have hends : ∀ v ∈ [("x", 0), ("x", 1)], endsWithUnderscore v.1 = false := by decide
  refine (namesVars_isabelle_iff false id (fun _ => "") emptyCtx [("x", 0), ("x", 1)] (by decide)).mpr ?_
  intro v hv hend
  rw [hends v hv] at hend
  cases hend

/-- Both variables are printed `foo_` at their binder and `foo_'` at their uses, and a clash is reported. -/
theorem ctxAddVars_underscore :
    (ctxAddVars false id .isabelle 0 [("foo_", 0), ("foo_", 1)] emptyCtx).map
        (fun r =>
          (r.2, ctxGetVar false id (fun _ => "") .isabelle 0 r.1, ctxGetVar false id (fun _ => "") .isabelle 1 r.1,
          r.1.errors)) =
      .ok (["foo_", "foo_"], ("foo_'", []), ("foo_'", []),
        [.nameClash (.fVarId 0) (.fVarId 1) "foo_'", .nameInNamesSet (.fVarId 1) "foo_'"]) ∧
    ¬ NamesVars false id (fun _ => "") .isabelle emptyCtx [("foo_", 0), ("foo_", 1)] := by
  refine ⟨by decide, fun h => ?_⟩
  have hne : Backend.isabelle ≠ .lean := by decide
  have hiff := namesVars_iff false id (fun _ => "") hne emptyCtx [("foo_", 0), ("foo_", 1)] (by decide)
  rcases hiff.mp h ("foo_", 0) mem_cons_self with hreg | htaken
  · exact registeredName_ne (by decide) hreg
  · exact not_taken_emptyCtx "foo_" htaken

end Aeneas.Extract
