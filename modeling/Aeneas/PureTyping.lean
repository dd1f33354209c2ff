import Aeneas.PureFreeVars

/-!
# Types of the pure AST

The type which an expression or a pattern records has to be the one its
subexpressions give it. Every identifier of an opened body has one binder, so
the variables are typed by a single assignment.
-/

namespace Aeneas.Pure

open List

attribute [local simp] Expr.children

structure TypingCtx where
  varTy : FVarId → Ty
  cvarTy : ConstGenericVarId → Ty
  fieldTys : TypeDeclId → Option VariantId → GenericArgs → Option (List Ty)

def sumLeftId : VariantId := 0
def sumRightId : VariantId := 1
def errorFailureId : VariantId := 0

def Literal.HasTy : Literal → LiteralType → Prop
  | .scalar _ (.signed ty), .int ty' => ty = ty'
  | .scalar _ (.unsigned ty), .uInt ty' => ty = ty'
  | .bool _, .bool => True
  | .char _, .char => True
  | _, _ => False

def letTy (monadic : Bool) (ty : Ty) : Ty := if monadic then mkResultTy ty else ty

def Ty.IsMonadic (ty : Ty) : Prop := ty.adtId = some (.builtin .result) ∨ ty.adtId = some (.builtin .loopResult)

section
variable (tc : TypingCtx)

/-- The types of the fields of a constructor. There is no tuple with one component. -/
def getAdtFieldTypes : TypeId → Option VariantId → GenericArgs → Option (List Ty)
  | .tuple, none, .mk types [] [] => if types.length = 1 then none else some types
  | .adtId id, variantId, generics => tc.fieldTys id variantId generics
  | .builtin .result, some variantId, .mk [ty] _ _ =>
    if variantId = resultOkId then some [ty] else if variantId = resultFailId then some [mkErrorTy] else none
  | .builtin .sum, some variantId, .mk [left, right] _ _ =>
    if variantId = sumLeftId then some [left] else if variantId = sumRightId then some [right] else none
  | .builtin .loopResult, some variantId, .mk [continueTy, breakTy] _ _ =>
    if variantId = loopResultContinueId then some [continueTy]
    else if variantId = loopResultBreakId then some [breakTy] else none
  | .builtin .error, some variantId, .mk [] [] [] =>
    if variantId = errorFailureId ∨ variantId = errorOutOfFuelId then some [] else none
  | .builtin .fuel, some variantId, _ =>
    if variantId = fuelZeroId then some []
    else if variantId = fuelSuccId then some [.adt (.builtin .fuel) emptyGenericArgs] else none
  | _, _, _ => none

/-! ## Patterns -/

mutual

def Pat.WellTyped : Pat → Ty → Prop
  | .constant l, ty => ∃ lty, ty = .literal lty ∧ l.HasTy lty
  | .bound v _, ty => v.ty = ty
  | .ignored, _ => True
  | .opened v _, ty => v.ty = ty ∧ tc.varTy v.id = ty
  | .adt variantId fields, ty => ∃ id generics, ty = .adt id generics ∧
    getAdtFieldTypes tc id variantId generics = some (fields.map TPat.ty) ∧ tpatsWellTyped fields

def TPat.WellTyped : TPat → Prop
  | .mk pat ty => pat.WellTyped ty

def tpatsWellTyped : List TPat → Prop
  | [] => True
  | p :: ps => p.WellTyped ∧ tpatsWellTyped ps

end

/-! ## Expressions -/

def Qualif.TypedAs (q : Qualif) (ty : Ty) : Prop :=
  match q.id with
  | .adtCons id => ∃ tys, getAdtFieldTypes tc id.adtId id.variantId q.generics = some tys ∧
    ty = mkArrows tys (.adt id.adtId q.generics)
  | .proj p => ∃ tys fieldTy, getAdtFieldTypes tc p.adtId none q.generics = some tys ∧ tys[p.fieldId]? = some fieldTy ∧
    ty = .arrow (.adt p.adtId q.generics) fieldTy
  | _ => True

def StructUpdate.TypedAs (s : StructUpdate Texpr) (ty : Ty) : Prop :=
  (∀ init ∈ s.init, init.ty = ty) ∧ ty.adtId = some s.structId ∧
    match ty with
    | .adt (.adtId id) generics => ∃ tys, tc.fieldTys id none generics = some tys ∧
      ∀ u ∈ s.updates, tys[u.1]? = some u.2.ty
    | .adt (.builtin .array) generics => ∀ u ∈ s.updates, generics.types = [u.2.ty]
    | _ => False

/-- The type which a node records fits the ones of its subexpressions. -/
def Expr.TypedAs : Expr → Ty → Prop
  | .fvar id, ty => tc.varTy id = ty
  -- Only the opened expressions are considered
  | .bvar _, _ => False
  | .cvar id, ty => tc.cvarTy id = ty
  | .const l, ty => ∃ lty, ty = .literal lty ∧ l.HasTy lty
  | .app f x, ty => f.ty = .arrow x.ty ty
  | .lambda pat inner, ty => ty = .arrow pat.ty inner.ty
  | .qualif q, ty => q.TypedAs tc ty
  | .letE monadic pat bound next, ty => bound.ty = letTy monadic pat.ty ∧ next.ty = ty ∧ (monadic = true → ty.IsMonadic)
  | .switch scrut (.ite thn els), ty => scrut.ty = mkBoolTy ∧ thn.ty = ty ∧ els.ty = ty
  | .switch scrut (.matchE branches), ty => ∀ b ∈ branches, b.pat.ty = scrut.ty ∧ b.branch.ty = ty
  | .loop _, _ => True
  | .structUpdate s, ty => s.TypedAs tc ty
  | .emeta _ e, ty => e.ty = ty
  | .eError _ _, _ => True

inductive Texpr.WellTyped : Texpr → Prop
  | mk {e : Expr} {ty : Ty} (typed : e.TypedAs tc ty) (pats : ∀ c ∈ e.children, tpatsWellTyped tc c.1.pats)
    (children : ∀ c ∈ e.children, c.2.WellTyped) : WellTyped (.mk e ty)

structure LetTyped (monadic : Bool) (pat : TPat) (bound : Texpr) : Prop where
  ty : bound.ty = letTy monadic pat.ty
  pat : pat.WellTyped tc
  bound : bound.WellTyped tc

inductive Texpr.LetsTyped : Texpr → Prop
  | mk {e : Expr} {ty : Ty}
    (lets : ∀ monadic pat bound next, e = .letE monadic pat bound next → LetTyped tc monadic pat bound)
    (children : ∀ c ∈ e.children, c.2.LetsTyped) : LetsTyped (.mk e ty)

end

section
variable {tc : TypingCtx} {e : Expr} {ty : Ty}

theorem Texpr.WellTyped.typed (h : (Texpr.mk e ty).WellTyped tc) : e.TypedAs tc ty := by
  cases h with
  | mk typed _ _ => exact typed

variable {c : Scoped Texpr}

theorem Texpr.WellTyped.pats (h : (Texpr.mk e ty).WellTyped tc) (hc : c ∈ e.children) :
    tpatsWellTyped tc c.1.pats := by
  cases h with
  | mk _ pats _ => exact pats c hc

theorem Texpr.WellTyped.child (h : (Texpr.mk e ty).WellTyped tc) (hc : c ∈ e.children) :
    c.2.WellTyped tc := by
  cases h with
  | mk _ _ children => exact children c hc

theorem Texpr.Within.wellTyped {d e : Texpr} (h : d.Within e) (he : e.WellTyped tc) : d.WellTyped tc := by
  induction h with
  | refl => exact he
  | child hc _ ih => exact ih (he.child hc)

theorem Texpr.WellTyped.letsTyped {e : Texpr} (h : e.WellTyped tc) : e.LetsTyped tc := by
  induction h with
  | mk typed pats children ih =>
    refine .mk (fun monadic pat bound next he => ?_) ih
    subst he
    exact ⟨typed.1, (pats (.one pat, next) (by simp)).1, children (.none, bound) (by simp)⟩

theorem Texpr.LetsTyped.child (h : (Texpr.mk e ty).LetsTyped tc) (hc : c ∈ e.children) :
    c.2.LetsTyped tc := by
  cases h with
  | mk _ children => exact children c hc

variable {monadic : Bool}

theorem Texpr.LetsTyped.letTyped {pat : TPat} {bound next : Texpr}
    (h : (Texpr.mk (.letE monadic pat bound next) ty).LetsTyped tc) : LetTyped tc monadic pat bound := by
  cases h with
  | mk lets _ => exact lets _ _ _ _ rfl

theorem mkArrows_inj {id id' : TypeId} {g g' : GenericArgs} : ∀ {tys tys' : List Ty},
    mkArrows tys (.adt id g) = mkArrows tys' (.adt id' g') → tys = tys' ∧ id = id' ∧ g = g'
  | [], [], h => by
    cases h
    exact ⟨rfl, rfl, rfl⟩
  | [], _ :: _, h => by cases h
  | _ :: _, [], h => by cases h
  | ty :: tys, ty' :: tys', h => by
    simp only [mkArrows, foldr_cons, Ty.arrow.injEq] at h
    obtain ⟨rfl, h⟩ := h
    obtain ⟨rfl, hid, hg⟩ := mkArrows_inj h
    exact ⟨rfl, hid, hg⟩

variable {args : List Texpr}

theorem IsApps.head_ty {f e : Texpr} (h : IsApps f args e) :
    e.WellTyped tc → f.ty = mkArrows (args.map Texpr.ty) e.ty := by
  induction h with
  | nil f => exact fun _ => rfl
  | @cons f x e args ty happs ih =>
    intro he
    have happ : f.ty = .arrow x.ty ty := (happs.within.1.wellTyped he).typed
    have hrest : ty = mkArrows (args.map Texpr.ty) e.ty := ih he
    rw [happ, hrest]
    rfl

variable {q : Qualif} {generics : GenericArgs}

theorem IsApps.typed {id : AdtConsId} {e : Texpr} {ty' : Ty} {tid : TypeId}
    (h : IsApps (.mk (.qualif q) ty') args e) (hq : q.id = .adtCons id) (he : e.WellTyped tc)
    (hty : e.ty = .adt tid generics) : tid = id.adtId ∧ generics = q.generics ∧
      getAdtFieldTypes tc id.adtId id.variantId q.generics = some (args.map Texpr.ty) := by
  have hhead : ty' = mkArrows (args.map Texpr.ty) e.ty := h.head_ty he
  have htyped : q.TypedAs tc ty' := (h.within.1.wellTyped he).typed
  simp only [Qualif.TypedAs, hq] at htyped
  obtain ⟨tys, hfields, hty'⟩ := htyped
  rw [hty, hty'] at hhead
  obtain ⟨rfl, rfl, rfl⟩ := mkArrows_inj hhead
  exact ⟨rfl, rfl, hfields⟩

variable {variantId : Option VariantId}

theorem getAdtFieldTypes_tuple {tys : List Ty}
    (h : getAdtFieldTypes tc .tuple variantId generics = some tys) :
    variantId = none ∧ generics = .mk tys [] [] ∧ tys.length ≠ 1 := by
  obtain ⟨types, constGenerics, traitRefs⟩ := generics
  cases variantId <;> cases constGenerics <;> cases traitRefs <;> simp [getAdtFieldTypes] at h
  obtain ⟨hlen, rfl⟩ := h
  exact ⟨rfl, rfl, hlen⟩

theorem getAdtFieldTypes_ok {tys : List Ty}
    (h : getAdtFieldTypes tc (.builtin .result) (some resultOkId) generics = some tys) : generics.types = tys := by
  obtain ⟨types, constGenerics, traitRefs⟩ := generics
  rcases types with _ | ⟨ty, _ | ⟨ty', types⟩⟩ <;> simp [getAdtFieldTypes] at h
  exact h

theorem letTy_isMonadic (h : (letTy monadic (.adt .tuple generics)).IsMonadic) : monadic = true := by
  cases monadic with
  | true => rfl
  | false => simp [Ty.IsMonadic, letTy, Ty.adtId] at h

theorem IsApps.letTyped {id : AdtConsId} {e : Texpr} {ty' : Ty}
    (h : IsApps (.mk (.qualif q) ty') args e) (hq : q.id = .adtCons id)
    (he : e.WellTyped tc) (hty : e.ty = letTy monadic (.adt .tuple generics)) :
    (monadic = true ∧ id.adtId = .builtin .result ∧ q.generics = mkGenericArgsFromTypes [.adt .tuple generics] ∨
      monadic = false ∧ id.adtId = .tuple ∧ q.generics = generics) ∧
      getAdtFieldTypes tc id.adtId id.variantId q.generics = some (args.map Texpr.ty) := by
  cases monadic with
  | true =>
    obtain ⟨hid, hgenerics, hfields⟩ := h.typed hq he hty
    exact ⟨.inl ⟨rfl, hid.symm, hgenerics.symm⟩, hfields⟩
  | false =>
    obtain ⟨hid, hgenerics, hfields⟩ := h.typed hq he hty
    exact ⟨.inr ⟨rfl, hid.symm, hgenerics.symm⟩, hfields⟩

theorem tpatsWellTyped_iff : ∀ {pats : List TPat}, tpatsWellTyped tc pats ↔ ∀ p ∈ pats, p.WellTyped tc
  | [] => by simp [tpatsWellTyped]
  | p :: pats => by rw [tpatsWellTyped, tpatsWellTyped_iff, forall_mem_cons]

theorem TPat.WellTyped.tuple {pats : List TPat}
    (h : (TPat.mk (.adt variantId pats) (.adt .tuple generics)).WellTyped tc) :
    variantId = none ∧ generics = .mk (pats.map TPat.ty) [] [] ∧ pats.length ≠ 1 ∧ tpatsWellTyped tc pats := by
  obtain ⟨id, generics', hty, hfields, hpats⟩ := h
  cases hty
  obtain ⟨hvariant, hgenerics, hlen⟩ := getAdtFieldTypes_tuple hfields
  exact ⟨hvariant, hgenerics, by simpa using hlen, hpats⟩

theorem Texpr.wellTyped_letE {pat : TPat} {bound next : Texpr} :
    (Texpr.mk (.letE monadic pat bound next) ty).WellTyped tc ↔ (Expr.letE monadic pat bound next).TypedAs tc ty ∧
      pat.WellTyped tc ∧ bound.WellTyped tc ∧ next.WellTyped tc := by
  constructor
  · intro h
    have hpat := tpatsWellTyped_iff.mp (h.pats (c := (.one pat, next)) (by simp)) pat (by simp [Group.pats])
    exact ⟨h.typed, hpat, h.child (c := (.none, bound)) (by simp),
      h.child (c := (.one pat, next)) (by simp)⟩
  · rintro ⟨htyped, hpat, hbound, hnext⟩
    refine .mk htyped ?_ (by simpa using ⟨hbound, hnext⟩)
    simp [Group.pats, tpatsWellTyped, hpat]

theorem Texpr.wellTyped_app {f x : Texpr} : (Texpr.mk (.app f x) ty).WellTyped tc ↔
    f.ty = .arrow x.ty ty ∧ f.WellTyped tc ∧ x.WellTyped tc := by
  constructor
  · intro h
    exact ⟨h.typed, h.child (c := (.none, f)) (by simp), h.child (c := (.none, x)) (by simp)⟩
  · rintro ⟨htyped, hf, hx⟩
    refine .mk htyped ?_ (by simpa using ⟨hf, hx⟩)
    simp [Group.pats, tpatsWellTyped]

theorem Texpr.WellTyped.result {fty : Ty} {x : Texpr} {variantId : VariantId}
    (h : (Texpr.mk (.app (.mk (.qualif q) fty) x) ty).WellTyped tc)
    (hq : q.id = .adtCons { adtId := .builtin .result, variantId := some variantId }) :
    ty = .adt (.builtin .result) q.generics ∧
      getAdtFieldTypes tc (.builtin .result) (some variantId) q.generics = some [x.ty] := by
  obtain ⟨harrow, hf, -⟩ := wellTyped_app.mp h
  have htyped : q.TypedAs tc fty := hf.typed
  simp only [Qualif.TypedAs, hq] at htyped
  obtain ⟨tys, hfields, hfty⟩ := htyped
  have hone : ∃ ty, tys = [ty] := by
    unfold getAdtFieldTypes at hfields
    split at hfields <;> simp_all
    split at hfields
    · exact ⟨_, (Option.some.inj hfields).symm⟩
    · split at hfields
      · exact ⟨_, (Option.some.inj hfields).symm⟩
      · cases hfields
  obtain ⟨ty', rfl⟩ := hone
  have heq : Ty.arrow ty' (.adt (.builtin .result) q.generics) = .arrow x.ty ty := hfty.symm.trans harrow
  cases heq
  exact ⟨rfl, hfields⟩

end

/-! ## Replacing the subexpressions of a node -/

section
variable {tc : TypingCtx} {ty : Ty}

def SameTy (c c' : Scoped Texpr) : Prop := c'.1 = c.1 ∧ c'.2.ty = c.2.ty

variable {cs : List (Scoped Texpr)}

theorem sameTy_cons {c : Scoped Texpr} {ds : List (Scoped Texpr)} (h : List.Forall₂ SameTy (c :: cs) ds) :
    ∃ e ds', ds = (c.1, e) :: ds' ∧ e.ty = c.2.ty ∧ List.Forall₂ SameTy cs ds' := by
  obtain ⟨⟨g, e⟩, ds', ⟨rfl, hty⟩, h', rfl⟩ := forall₂_cons_left_iff.mp h
  exact ⟨e, ds', rfl, hty, h'⟩

theorem sameTy_branches {sty : Ty} : ∀ {branches : List (MatchBranch Texpr)} {cs : List (Scoped Texpr)},
    List.Forall₂ SameTy (branches.map fun b => (.one b.pat, b.branch)) cs →
    (∀ b ∈ branches, b.pat.ty = sty ∧ b.branch.ty = ty) →
    ∀ b ∈ List.zipWith MatchBranch.rebuild branches cs, b.pat.ty = sty ∧ b.branch.ty = ty
  | [], cs, _, _, b, hb => by cases hb
  | b₀ :: branches, cs, hcs, h, b, hb => by
    obtain ⟨e, cs', rfl, hty, hcs'⟩ := sameTy_cons hcs
    obtain ⟨h₀, h⟩ := forall_mem_cons.mp h
    rcases mem_cons.mp hb with rfl | hb
    · exact ⟨h₀.1, hty.trans h₀.2⟩
    · exact sameTy_branches hcs' h b hb

theorem sameTy_updates {P : FieldId → Ty → Prop} : ∀ {us : List (FieldId × Texpr)} {cs : List (Scoped Texpr)},
    List.Forall₂ SameTy (us.map fun u => (.none, u.2)) cs → (∀ u ∈ us, P u.1 u.2.ty) →
    ∀ u ∈ List.zipWith (fun u c => (u.1, c.2)) us cs, P u.1 u.2.ty
  | [], cs, _, _, u, hu => by cases hu
  | u₀ :: us, cs, hcs, h, u, hu => by
    obtain ⟨e, cs', rfl, hty, hcs'⟩ := sameTy_cons hcs
    obtain ⟨h₀, h⟩ := forall_mem_cons.mp h
    rcases mem_cons.mp hu with rfl | hu
    · exact hty ▸ h₀
    · exact sameTy_updates hcs' h u hu

variable {us : List (FieldId × Texpr)}

theorem StructUpdate.TypedAs.of_updates {structId : TypeId} {init init' : Option Texpr} {us' : List (FieldId × Texpr)}
    (h : StructUpdate.TypedAs tc { structId, init, updates := us } ty) (hinit : ∀ x ∈ init', x.ty = ty)
    (hus : ∀ P : FieldId → Ty → Prop, (∀ u ∈ us, P u.1 u.2.ty) → ∀ u ∈ us', P u.1 u.2.ty) :
    StructUpdate.TypedAs tc { structId, init := init', updates := us' } ty := by
  obtain ⟨-, hid, hfields⟩ := h
  refine ⟨hinit, hid, ?_⟩
  split at hfields
  · obtain ⟨tys, htys, hfields⟩ := hfields
    exact ⟨tys, htys, hus (fun fid ty => tys[fid]? = some ty) hfields⟩
  · exact hus (fun _ ty => _ = [ty]) hfields
  · exact hfields

theorem StructUpdate.TypedAs.append {structId : TypeId} {init init' : Option Texpr} {vs : List (FieldId × Texpr)}
    (h : StructUpdate.TypedAs tc { structId, init, updates := vs } ty)
    (h' : StructUpdate.TypedAs tc { structId, init := init', updates := us } ty) :
    StructUpdate.TypedAs tc { structId, init, updates := vs ++ us } ty := by
  obtain ⟨hinit, hid, hvs⟩ := h
  obtain ⟨-, -, hus⟩ := h'
  refine ⟨hinit, hid, ?_⟩
  split at hvs
  · obtain ⟨tys, htys, hvs⟩ := hvs
    obtain ⟨tys', htys', hus⟩ := hus
    obtain rfl := Option.some.inj (htys.symm.trans htys')
    exact ⟨tys, htys, forall_mem_append.mpr ⟨hvs, hus⟩⟩
  · exact forall_mem_append.mpr ⟨hvs, hus⟩
  · exact hvs

theorem StructUpdate.TypedAs.rebuild {s : StructUpdate Texpr} (h : s.TypedAs tc ty)
    (hcs : List.Forall₂ SameTy s.children cs) : (s.rebuild cs).TypedAs tc ty := by
  obtain ⟨structId, init, us⟩ := s
  cases init with
  | none => exact h.of_updates (fun x hx => by cases hx) fun P hP => sameTy_updates hcs hP
  | some x =>
    obtain ⟨e, cs', rfl, hty, hcs'⟩ := sameTy_cons hcs
    refine h.of_updates (fun y hy => ?_) fun P hP => sameTy_updates hcs' hP
    obtain rfl := Option.some.inj hy
    exact hty.trans (h.1 x rfl)

theorem Expr.TypedAs.rebuild {e : Expr} (h : e.TypedAs tc ty)
    (hcs : List.Forall₂ SameTy e.children cs) : (e.rebuild cs).TypedAs tc ty := by
  cases e with
  | app f x =>
    obtain ⟨f', cs₁, rfl, hf, hcs₁⟩ := sameTy_cons hcs
    obtain ⟨x', cs₂, rfl, hx, hcs₂⟩ := sameTy_cons hcs₁
    obtain rfl := forall₂_nil_left_iff.mp hcs₂
    exact hf.trans (h.trans (by rw [← hx]))
  | lambda pat inner =>
    obtain ⟨inner', cs₁, rfl, hinner, hcs₁⟩ := sameTy_cons hcs
    obtain rfl := forall₂_nil_left_iff.mp hcs₁
    exact h.trans (by rw [← hinner])
  | letE monadic pat bound next =>
    obtain ⟨bound', cs₁, rfl, hbound, hcs₁⟩ := sameTy_cons hcs
    obtain ⟨next', cs₂, rfl, hnext, hcs₂⟩ := sameTy_cons hcs₁
    obtain rfl := forall₂_nil_left_iff.mp hcs₂
    exact ⟨hbound.trans h.1, hnext.trans h.2.1, h.2.2⟩
  | switch scrut body =>
    obtain ⟨scrut', cs₁, rfl, hscrut, hcs₁⟩ := sameTy_cons hcs
    cases body with
    | ite thn els =>
      obtain ⟨thn', cs₂, rfl, hthn, hcs₂⟩ := sameTy_cons hcs₁
      obtain ⟨els', cs₃, rfl, hels, hcs₃⟩ := sameTy_cons hcs₂
      obtain rfl := forall₂_nil_left_iff.mp hcs₃
      exact ⟨hscrut.trans h.1, hthn.trans h.2.1, hels.trans h.2.2⟩
    | matchE branches =>
      have hbranches := sameTy_branches hcs₁ h
      exact fun b hb => ⟨(hbranches b hb).1.trans hscrut.symm, (hbranches b hb).2⟩
  | loop l => trivial
  | structUpdate s => exact StructUpdate.TypedAs.rebuild h hcs
  | emeta m e =>
    have hdrop : List.Forall₂ SameTy [(.none, e)] (cs.drop m.children.length) := by
      have := forall₂_drop m.children.length hcs
      rwa [Expr.children, drop_left] at this
    obtain ⟨e', cs', hcs', he, hnil⟩ := sameTy_cons hdrop
    obtain rfl := forall₂_nil_left_iff.mp hnil
    have hrebuild : (Expr.emeta m e).rebuild cs = .emeta (m.rebuild (cs.take m.children.length)) e' := by
      simp only [Expr.rebuild, hcs']
    rw [hrebuild]
    exact he.trans h
  | _ => exact h

theorem Texpr.WellTyped.rebuild {e : Expr} (h : (Texpr.mk e ty).WellTyped tc)
    (hcs : List.Forall₂ (fun c c' => SameTy c c' ∧ c'.2.WellTyped tc) e.children cs) :
    (Texpr.mk (e.rebuild cs) ty).WellTyped tc := by
  have hfits : Fits e.children cs := hcs.imp fun c c' hc => hc.1.1 ▸ c.1.like_refl
  refine .mk (h.typed.rebuild (hcs.imp fun _ _ hc => hc.1)) ?_ ?_
  all_goals
    rw [(Expr.children_rebuild hfits hfits).1]
    intro c' hc'
    obtain ⟨c, hc, hsame, htyped⟩ := exists_of_forall₂ hcs hc'
  · rw [hsame.1]
    exact h.pats hc
  · exact htyped

end

/-! ## Small expressions -/

def boolVar (id : FVarId) : Texpr := .mk (.fvar id) mkBoolTy

def boolPat (id : FVarId) : TPat := .mk (.opened { id, basename := none, ty := mkBoolTy } none) mkBoolTy

def boolCtx : TypingCtx where
  varTy _ := mkBoolTy
  cvarTy _ := mkBoolTy
  fieldTys _ _ _ := none

def leanConfig : FuelConfig :=
  { backend := .lean, useFuel := false, failHard := true, decomposeMonadicLetBindings := false }

theorem boolVar_typed (x : FVarId) : (boolVar x).WellTyped boolCtx :=
  .mk rfl (by simp) (by simp)

variable {tc : TypingCtx}

theorem mkCons_typed {adtId : TypeId} {variantId : VariantId} {types : List Ty} {x : Texpr}
    (hx : x.WellTyped tc)
    (hfields : getAdtFieldTypes tc adtId (some variantId) (mkGenericArgsFromTypes types) = some [x.ty]) :
    (mkCons adtId variantId types x).WellTyped tc := by
  refine .mk rfl (by simp [Group.pats, tpatsWellTyped]) ?_
  simp only [Expr.children, forall_mem_cons]
  refine ⟨.mk ⟨[x.ty], hfields, rfl⟩ (by simp) (by simp), hx, by simp⟩

theorem boolPat_typed (x : FVarId) : (boolPat x).WellTyped boolCtx := ⟨rfl, rfl⟩

def mkFailure (ty : Ty) : Texpr := mkCons (.builtin .result) resultFailId [ty] (mkError errorFailureId)

theorem mkTrue_typed : mkTrue.WellTyped tc :=
  .mk ⟨.bool, rfl, trivial⟩ (by simp) (by simp)

theorem mkFailure_typed (ty : Ty) : (mkFailure ty).WellTyped tc :=
  mkCons_typed (.mk ⟨[], rfl, rfl⟩ (by simp) (by simp)) rfl

end Aeneas.Pure
