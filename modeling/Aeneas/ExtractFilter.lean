import Aeneas.Collections

/-!
# Filtering the generics of a builtin function (`extract/Extract.ml`)

The builtin information of a function says which type arguments and which trait clauses
to keep. It is registered with the names of the functions and applied at each call.
-/

namespace Aeneas.Extract

structure BuiltinFunInfo where
  keepParams : Option (List Bool)
  keepTraitClauses : Option (List Bool)

structure FunTranslation where
  defId : Nat
  name : String
  builtinInfo : Option BuiltinFunInfo

/-- Only translated functions have filters. -/
structure FilterCtx where
  transFuns : IdMap Nat FunTranslation
  funsFilterTypeArgsMap : IdMap Nat (List Bool)
  funsFilterTraitClausesMap : IdMap Nat (List Bool)
  typeArgsKnown : ∀ id ∈ funsFilterTypeArgsMap, id ∈ transFuns
  traitClausesKnown : ∀ id ∈ funsFilterTraitClausesMap, id ∈ transFuns

theorem insert_known {transFuns : IdMap Nat FunTranslation} {m : IdMap Nat (List Bool)} {id : Nat}
    (h : ∀ id ∈ m, id ∈ transFuns) (hid : id ∈ transFuns) (keep : List Bool) :
    ∀ a ∈ m.insert id keep, a ∈ transFuns := by
  intro a ha
  rcases Std.ExtTreeMap.mem_insert.mp ha with heq | ha
  · exact Std.LawfulEqCmp.eq_of_compare heq ▸ hid
  · exact h a ha

def FilterCtx.registerTypeArgs (ctx : FilterCtx) (id : Nat) (hid : id ∈ ctx.transFuns) : Option (List Bool) → FilterCtx
  | some keep => { ctx with
      funsFilterTypeArgsMap := ctx.funsFilterTypeArgsMap.insert id keep
      typeArgsKnown := insert_known ctx.typeArgsKnown hid keep }
  | none => ctx

def FilterCtx.registerTraitClauses (ctx : FilterCtx) (id : Nat) (hid : id ∈ ctx.transFuns) :
    Option (List Bool) → FilterCtx
  | some keep => { ctx with
      funsFilterTraitClausesMap := ctx.funsFilterTraitClausesMap.insert id keep
      traitClausesKnown := insert_known ctx.traitClausesKnown hid keep }
  | none => ctx

theorem FilterCtx.registerTypeArgs_transFuns (ctx : FilterCtx) (id : Nat) (hid : id ∈ ctx.transFuns)
    (keep : Option (List Bool)) : (ctx.registerTypeArgs id hid keep).transFuns = ctx.transFuns := by
  cases keep <;> rfl

/-- The filters which `extract_fun_decl_register_names` registers for a translated function. -/
def FilterCtx.registerFilters (ctx : FilterCtx) (f : FunTranslation) (hid : f.defId ∈ ctx.transFuns) : FilterCtx :=
  match f.builtinInfo with
  | some info =>
    (ctx.registerTypeArgs f.defId hid info.keepParams).registerTraitClauses f.defId
      (ctx.registerTypeArgs_transFuns f.defId hid info.keepParams ▸ hid) info.keepTraitClauses
  | none => ctx

def combine {α β : Type} (l : List α) (l' : List β) : Except Exn (List (α × β)) :=
  if l.length = l'.length then .ok (l.zip l') else .error (.invalidArgument "List.combine")

def filterF {α : Type} (filter : List Bool) (ls : List α) : Except Exn (List α) := do
  let l ← combine filter ls
  return l.filterMap fun p => if p.1 then some p.2 else none

inductive Explicit where
  | explicit
  | implicit
deriving DecidableEq

structure ExplicitInfo where
  explicitTypes : List Explicit
  explicitConstGenerics : List Explicit
deriving DecidableEq

def ctxLookupFunDeclInfo (ctx : FilterCtx) (id : Nat) : Option FunTranslation := ctx.transFuns[id]?

def silentUnwrap {α : Type} : Option α → Except Exn α
  | some x => .ok x
  | none => craise "Internal error: please file an issue"

/-- The message for a filter that does not fit the arguments `args`, which are `kind`. -/
def illFormed {α : Type} (toText : α → String) (kind name : String) (filter : List Bool) (args : List α) : String :=
  "Ill-formed builtin information for function " ++ name ++ ": " ++ toString filter.length ++
    " filtering arguments provided for " ++ toString args.length ++ " " ++ kind ++ " (" ++
    String.intercalate ", " (args.map toText) ++ ")"

/-- With `-abort-on-error` an error that is saved is raised too. The place of the error is left out. -/
def saveError (failHard : Bool) (msg : String) : Except Exn Unit := if failHard then .error (.failure msg) else .ok ()

section
variable {α β : Type} (failHard : Bool) (tyToString : α → String) (clauseToString : β → String)

def filterClauses (id : Nat) (types : List α) (clauses : List β) (ctx : FilterCtx) :
    Except Exn (Except String (List β)) :=
  match ctx.funsFilterTraitClausesMap[id]? with
  | none => .ok (.ok clauses)
  | some filter =>
    -- the length of the list of types is the one the source compares
    if filter.length ≠ types.length then do
      let decl ← silentUnwrap (ctxLookupFunDeclInfo ctx id)
      let err := illFormed clauseToString "trait clauses" decl.name filter clauses
      saveError failHard err
      return .error err
    else do
      return .ok (← filterF filter clauses)

def filterTypes (id : Nat) (types : List α) (explicit : Option ExplicitInfo) (ctx : FilterCtx) :
    Except Exn (Except String (List α × Option ExplicitInfo)) :=
  match ctx.funsFilterTypeArgsMap[id]? with
  | none => .ok (.ok (types, explicit))
  | some filter =>
    if filter.length ≠ types.length then do
      let decl ← silentUnwrap (ctxLookupFunDeclInfo ctx id)
      let err := illFormed tyToString "type arguments" decl.name filter types
      saveError failHard err
      return .error err
    else do
      let types ← filterF filter types
      let explicit ← explicit.mapM fun e => do
        return { e with explicitTypes := ← filterF filter e.explicitTypes }
      return .ok (types, explicit)

/-- Exceptions are the outer errors, and the inner ones the results `Error`. -/
def funBuiltinFilterTypesTraitClauses (id : Nat) (types : List α) (explicit : Option ExplicitInfo) (clauses : List β)
    (ctx : FilterCtx) : Except Exn (Except String (List α × Option ExplicitInfo × List β)) := do
  let clauses ← filterClauses failHard clauseToString id types clauses ctx
  let types ← filterTypes failHard tyToString id types explicit ctx
  match clauses, types with
  | .ok clauses, .ok (types, explicit) => return .ok (types, explicit, clauses)
  | .error msg, _ => return .error msg
  | _, .error msg => return .error msg

end

/-! ## What is kept -/

def kept {α : Type} (filter : List Bool) (ls : List α) : List α :=
  (ls.zipIdx.filter fun p => filter[p.2]? = some true).map Prod.fst

def keptBy {α : Type} (filter : Option (List Bool)) (ls : List α) : List α :=
  filter.elim ls fun filter => kept filter ls

def fits {α : Type} (filter : Option (List Bool)) (ls : List α) : Prop :=
  ∀ f, filter = some f → f.length = ls.length

theorem kept_cons {α : Type} (b : Bool) (filter : List Bool) (x : α) (ls : List α) :
    kept (b :: filter) (x :: ls) = if b then x :: kept filter ls else kept filter ls := by
  unfold kept
  rw [List.zipIdx_cons']
  cases b <;> simp [List.filter_map, Function.comp_def]

theorem filterF_eq {α : Type} {filter : List Bool} {ls : List α} (h : filter.length = ls.length) :
    filterF filter ls = .ok (kept filter ls) := by
  have hcombine : combine filter ls = .ok (filter.zip ls) := if_pos h
  refine bind_eq_ok.mpr ⟨_, hcombine, congrArg Except.ok ?_⟩
  clear hcombine
  induction filter generalizing ls with
  | nil =>
    obtain rfl : ls = [] := List.length_eq_zero_iff.mp h.symm
    rfl
  | cons b filter ih =>
    cases ls with
    | nil => simp at h
    | cons x ls =>
      rw [kept_cons, List.zip_cons_cons, List.filterMap_cons, ih (by simpa using h)]
      cases b <;> rfl

theorem filterF_error {α : Type} {filter : List Bool} {ls : List α} (h : filter.length ≠ ls.length) :
    filterF filter ls = .error (.invalidArgument "List.combine") := by
  have hcombine : combine filter ls = .error (.invalidArgument "List.combine") := if_neg h
  unfold filterF
  rw [hcombine]
  rfl

theorem FilterCtx.lookup {ctx : FilterCtx} {id : Nat} (h : id ∈ ctx.transFuns) :
    ∃ decl, silentUnwrap (ctxLookupFunDeclInfo ctx id) = .ok decl := by
  refine ⟨ctx.transFuns[id], ?_⟩
  unfold ctxLookupFunDeclInfo
  rw [Std.ExtTreeMap.getElem?_eq_some_getElem h]
  rfl

section
variable {α β : Type} {failHard : Bool} {tyToString : α → String} {clauseToString : β → String} {ctx : FilterCtx}
  {id : Nat} {types : List α} {explicit : Option ExplicitInfo} {clauses : List β}

def ExplicitInfo.filter (filter : Option (List Bool)) (e : ExplicitInfo) : ExplicitInfo :=
  { e with explicitTypes := keptBy filter e.explicitTypes }

theorem filterTypes_of_fits (h : fits ctx.funsFilterTypeArgsMap[id]? types)
    (hexplicit : ∀ e, explicit = some e → e.explicitTypes.length = types.length) :
    filterTypes failHard tyToString id types explicit ctx =
      .ok (.ok (keptBy ctx.funsFilterTypeArgsMap[id]? types,
        explicit.map (.filter ctx.funsFilterTypeArgsMap[id]?))) := by
  unfold filterTypes
  cases hf : ctx.funsFilterTypeArgsMap[id]? with
  | none => cases explicit <;> rfl
  | some filter =>
    have hlen := h filter hf
    dsimp only
    rw [if_neg (not_not.mpr hlen), filterF_eq hlen]
    cases explicit with
    | none => rfl
    | some e =>
      rw [Option.mapM_some, filterF_eq (hlen.trans (hexplicit e rfl).symm)]
      rfl

theorem filterTypes_of_not_fits (h : ¬ fits ctx.funsFilterTypeArgsMap[id]? types) :
    ∃ msg, filterTypes failHard tyToString id types explicit ctx =
      saveError failHard msg >>= fun _ => .ok (.error msg) := by
  unfold filterTypes fits at *
  cases hf : ctx.funsFilterTypeArgsMap[id]? with
  | none => simp [hf] at h
  | some filter =>
    have hlen : filter.length ≠ types.length := by simpa [hf] using h
    obtain ⟨decl, hdecl⟩ := FilterCtx.lookup (ctx.typeArgsKnown id
      (Std.ExtTreeMap.mem_iff_isSome_getElem?.mpr (by rw [hf]; rfl)))
    refine ⟨illFormed tyToString "type arguments" decl.name filter types, ?_⟩
    dsimp only
    rw [if_pos hlen, hdecl]
    rfl

theorem filterClauses_of_fits (h : fits ctx.funsFilterTraitClausesMap[id]? types)
    (hclauses : fits ctx.funsFilterTraitClausesMap[id]? clauses) :
    filterClauses failHard clauseToString id types clauses ctx =
      .ok (.ok (keptBy ctx.funsFilterTraitClausesMap[id]? clauses)) := by
  unfold filterClauses
  cases hf : ctx.funsFilterTraitClausesMap[id]? with
  | none => rfl
  | some filter =>
    dsimp only
    rw [if_neg (not_not.mpr (h filter hf)), filterF_eq (hclauses filter hf)]
    rfl

theorem filterClauses_raises (h : fits ctx.funsFilterTraitClausesMap[id]? types)
    (hclauses : ¬ fits ctx.funsFilterTraitClausesMap[id]? clauses) :
    filterClauses failHard clauseToString id types clauses ctx = .error (.invalidArgument "List.combine") := by
  unfold filterClauses fits at *
  cases hf : ctx.funsFilterTraitClausesMap[id]? with
  | none => simp [hf] at hclauses
  | some filter =>
    have hlen : filter.length ≠ clauses.length := by simpa [hf] using hclauses
    dsimp only
    rw [if_neg (not_not.mpr (h filter hf)), filterF_error hlen]
    rfl

theorem filterClauses_of_not_fits (h : ¬ fits ctx.funsFilterTraitClausesMap[id]? types) :
    ∃ msg, filterClauses failHard clauseToString id types clauses ctx =
      saveError failHard msg >>= fun _ => .ok (.error msg) := by
  unfold filterClauses fits at *
  cases hf : ctx.funsFilterTraitClausesMap[id]? with
  | none => simp [hf] at h
  | some filter =>
    have hlen : filter.length ≠ types.length := by simpa [hf] using h
    obtain ⟨decl, hdecl⟩ := FilterCtx.lookup (ctx.traitClausesKnown id
      (Std.ExtTreeMap.mem_iff_isSome_getElem?.mpr (by rw [hf]; rfl)))
    refine ⟨illFormed clauseToString "trait clauses" decl.name filter clauses, ?_⟩
    dsimp only
    rw [if_pos hlen, hdecl]
    rfl

/-- Filters of the right lengths are applied, others are reported, and nothing is raised. -/
def FiltersGenerics (failHard : Bool) (tyToString : α → String) (clauseToString : β → String) (id : Nat)
    (types : List α) (explicit : Option ExplicitInfo) (clauses : List β) (ctx : FilterCtx) : Prop :=
  let typeFilter := ctx.funsFilterTypeArgsMap[id]?
  let clauseFilter := ctx.funsFilterTraitClausesMap[id]?
  let result := funBuiltinFilterTypesTraitClauses failHard tyToString clauseToString id types explicit clauses ctx
  (fits typeFilter types ∧ fits clauseFilter clauses →
    result = .ok (.ok (keptBy typeFilter types, explicit.map (.filter typeFilter), keptBy clauseFilter clauses))) ∧
  (¬ (fits typeFilter types ∧ fits clauseFilter clauses) → ∃ msg, result = .ok (.error msg))

/-- An error that is saved is only returned without `-abort-on-error`. -/
theorem filtersGenerics_iff_of_saved {msg : String}
    (h : funBuiltinFilterTypesTraitClauses failHard tyToString clauseToString id types explicit clauses ctx =
      saveError failHard msg >>= fun _ => .ok (.error msg)) :
    FiltersGenerics failHard tyToString clauseToString id types explicit clauses ctx ↔ failHard = false ∧
      ¬ (fits ctx.funsFilterTypeArgsMap[id]? types ∧ fits ctx.funsFilterTraitClausesMap[id]? clauses) := by
  unfold FiltersGenerics
  rw [h]
  cases failHard with
  | false => simp [saveError, bind, Except.bind]
  | true =>
    simp only [saveError, bind, Except.bind, if_true]
    tauto

end

/-- The filter of the clauses is only compared with the types: it has to fit both or none of them,
or else the filter of the types reports an error. With `-abort-on-error` both filters have to fit. -/
theorem funBuiltinFilter_iff {α β : Type} (failHard : Bool) (tyToString : α → String) (clauseToString : β → String)
    (id : Nat) (types : List α) (explicit : Option ExplicitInfo) (clauses : List β) (ctx : FilterCtx)
    (hexplicit : ∀ e, explicit = some e → e.explicitTypes.length = types.length) :
    FiltersGenerics failHard tyToString clauseToString id types explicit clauses ctx ↔
      ((fits ctx.funsFilterTraitClausesMap[id]? types ↔ fits ctx.funsFilterTraitClausesMap[id]? clauses) ∨
        ¬ fits ctx.funsFilterTraitClausesMap[id]? types ∧ ¬ fits ctx.funsFilterTypeArgsMap[id]? types) ∧
      (failHard = false ∨
        fits ctx.funsFilterTypeArgsMap[id]? types ∧ fits ctx.funsFilterTraitClausesMap[id]? clauses) := by
  by_cases hct : fits ctx.funsFilterTraitClausesMap[id]? types
  · by_cases hcc : fits ctx.funsFilterTraitClausesMap[id]? clauses
    · -- the clauses are filtered, and the types decide
      by_cases htypes : fits ctx.funsFilterTypeArgsMap[id]? types
      · refine iff_of_true ⟨fun _ => ?_, fun h => absurd ⟨htypes, hcc⟩ h⟩
          ⟨.inl (iff_of_true hct hcc), .inr ⟨htypes, hcc⟩⟩
        rw [funBuiltinFilterTypesTraitClauses, filterClauses_of_fits hct hcc, filterTypes_of_fits htypes hexplicit]
        rfl
      · obtain ⟨msg, hmsg⟩ := filterTypes_of_not_fits htypes
        refine (filtersGenerics_iff_of_saved (?_ : _ = saveError failHard msg >>= _)).trans (by simp [hct, hcc, htypes])
        rw [funBuiltinFilterTypesTraitClauses, filterClauses_of_fits hct hcc, hmsg]
        cases failHard <;> rfl
    · refine iff_of_false (fun h => ?_) (by simp [hct, hcc])
      obtain ⟨msg, hmsg⟩ := h.2 fun hfit => hcc hfit.2
      rw [funBuiltinFilterTypesTraitClauses, filterClauses_raises hct hcc] at hmsg
      cases hmsg
  · -- an error is reported, whatever the types are
    obtain ⟨msg, hmsg⟩ := filterClauses_of_not_fits hct
    refine (filtersGenerics_iff_of_saved (?_ : _ = saveError failHard msg >>= _)).trans (by tauto)
    rw [funBuiltinFilterTypesTraitClauses, hmsg]
    cases failHard with
    | true => rfl
    | false =>
      by_cases htypes : fits ctx.funsFilterTypeArgsMap[id]? types
      · rw [filterTypes_of_fits htypes hexplicit]
        rfl
      · obtain ⟨msg', hmsg'⟩ := filterTypes_of_not_fits htypes
        rw [hmsg']
        rfl

/-- A function with two trait clauses and one type argument, whose builtin information keeps the first clause. -/
def oneOfTwo : FunTranslation :=
  { defId := 0, name := "f", builtinInfo := some { keepParams := none, keepTraitClauses := some [true, false] } }

def noFilters (f : FunTranslation) : FilterCtx where
  transFuns := (∅ : IdMap Nat FunTranslation).insert f.defId f
  funsFilterTypeArgsMap := ∅
  funsFilterTraitClausesMap := ∅
  typeArgsKnown := by simp
  traitClausesKnown := by simp

def oneOfTwoCtx : FilterCtx := (noFilters oneOfTwo).registerFilters oneOfTwo (by simp [noFilters])

theorem oneOfTwoCtx_filters : oneOfTwoCtx.funsFilterTypeArgsMap[0]? = none ∧
    oneOfTwoCtx.funsFilterTraitClausesMap[0]? = some [true, false] := by
  decide

theorem funBuiltinFilter_iff_twoTypes : FiltersGenerics true id id 0 ["T", "U"] none ["A", "B"] oneOfTwoCtx :=
  (funBuiltinFilter_iff true id id 0 ["T", "U"] none ["A", "B"] oneOfTwoCtx (by simp)).mpr
    ⟨.inl Iff.rfl, .inr ⟨by simp [fits, oneOfTwoCtx_filters], by simp [fits, oneOfTwoCtx_filters]⟩⟩

/-- The filter fits the two clauses and is refused for one type; with two types and one clause it is applied and
raises. -/
theorem funBuiltinFilter_oneOfTwo :
    ¬ FiltersGenerics false id id 0 ["T"] none ["A", "B"] oneOfTwoCtx ∧
    funBuiltinFilterTypesTraitClauses false id id 0 ["T"] none ["A", "B"] oneOfTwoCtx = .ok (.error
      "Ill-formed builtin information for function f: 2 filtering arguments provided for 2 trait clauses (A, B)") ∧
    ¬ FiltersGenerics false id id 0 ["T", "U"] none ["A"] oneOfTwoCtx ∧
    funBuiltinFilterTypesTraitClauses false id id 0 ["T", "U"] none ["A"] oneOfTwoCtx =
      .error (.invalidArgument "List.combine") := by
  have hreported : funBuiltinFilterTypesTraitClauses false id id 0 ["T"] none ["A", "B"] oneOfTwoCtx = .ok (.error
      "Ill-formed builtin information for function f: 2 filtering arguments provided for 2 trait clauses (A, B)") := by
    decide
  have hraised : funBuiltinFilterTypesTraitClauses false id id 0 ["T", "U"] none ["A"] oneOfTwoCtx =
      .error (.invalidArgument "List.combine") := by
    decide
  refine ⟨?_, hreported, ?_, hraised⟩
  · intro h
    have hfit := h.1 ⟨by simp [fits, oneOfTwoCtx_filters], by simp [fits, oneOfTwoCtx_filters]⟩
    rw [hreported] at hfit
    cases hfit
  · intro h
    obtain ⟨msg, hmsg⟩ := h.2 fun hfit => absurd hfit.2 (by simp [fits, oneOfTwoCtx_filters])
    rw [hraised] at hmsg
    cases hmsg

end Aeneas.Extract
