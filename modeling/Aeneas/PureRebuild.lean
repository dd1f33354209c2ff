import Aeneas.PureVisitor

/-!
# Replacing the subexpressions of a node

`rebuild` puts new subexpressions, with the patterns of their binder groups, in
the place of the ones of a node. A list of subexpressions fits a node if it has
its length and the same kinds of binder groups; rebuilding with a fitting list
is undone by rebuilding with the original subexpressions.
-/

namespace Aeneas.Pure

open List

def Group.Like : Group → Group → Prop
  | .none, .none => True
  | .one _, .one _ => True
  | .many _, .many _ => True
  | _, _ => False

theorem Group.like_refl (g : Group) : g.Like g := by
  cases g <;> trivial

theorem Group.Like.symm {g g' : Group} (h : g.Like g') : g'.Like g := by
  cases g <;> cases g' <;> trivial

section
variable {α : Type}

def MatchBranch.rebuild (b : MatchBranch α) (c : Scoped α) : MatchBranch α :=
  match c.1 with
  | .one pat => { pat, branch := c.2 }
  | _ => b

def SwitchBody.rebuild : SwitchBody α → List (Scoped α) → SwitchBody α
  | .ite _ _, [c, d] => .ite c.2 d.2
  | .matchE branches, cs => .matchE (List.zipWith MatchBranch.rebuild branches cs)
  | b, _ => b

def Loop.rebuild (l : Loop α) (cs : List (Scoped α)) : Loop α :=
  { l with
    inputs := (cs.take l.inputs.length).map Prod.snd
    loopBody := match cs.drop l.inputs.length with
      | [(.many pats, e)] => ⟨pats, e⟩
      | _ => l.loopBody }

def StructUpdate.rebuild (s : StructUpdate α) (cs : List (Scoped α)) : StructUpdate α :=
  match s.init, cs with
  | some _, c :: cs => { s with init := some c.2, updates := List.zipWith (fun u c => (u.1, c.2)) s.updates cs }
  | _, cs => { s with updates := List.zipWith (fun u c => (u.1, c.2)) s.updates cs }

def pairUp : List (Scoped α) → List (α × α)
  | c :: d :: cs => (c.2, d.2) :: pairUp cs
  | _ => []

def EMeta.rebuild : EMeta α → List (Scoped α) → EMeta α
  | .assignment dest _ origin, [c] => .assignment dest c.2 origin
  | .symbolicAssignments _, cs => .symbolicAssignments (pairUp cs)
  | .symbolicPlaces l, cs => .symbolicPlaces (List.zipWith (fun a c => (c.2, a.2)) l cs)
  | m, _ => m

abbrev Fits (cs ds : List (Scoped α)) : Prop := List.Forall₂ (fun c d => c.1.Like d.1) cs ds

variable {cs ds : List (Scoped α)}

theorem Fits.symm (h : Fits cs ds) : Fits ds cs := h.flip.imp fun _ _ => Group.Like.symm

theorem fits_refl (cs : List (Scoped α)) : Fits cs cs := forall₂_same.mpr fun c _ => c.1.like_refl

theorem fits_nil (h : Fits [] ds) : ds = [] := forall₂_nil_left_iff.mp h

variable {e : α}

theorem fits_none (h : Fits ((.none, e) :: cs) ds) :
    ∃ e' ds', ds = (.none, e') :: ds' ∧ Fits cs ds' := by
  obtain ⟨⟨g, e'⟩, ds', hlike, h', rfl⟩ := forall₂_cons_left_iff.mp h
  cases g with
  | none => exact ⟨e', ds', rfl, h'⟩
  | _ => simp [Group.Like] at hlike

theorem fits_one {p : TPat} (h : Fits ((.one p, e) :: cs) ds) :
    ∃ p' e' ds', ds = (.one p', e') :: ds' ∧ Fits cs ds' := by
  obtain ⟨⟨g, e'⟩, ds', hlike, h', rfl⟩ := forall₂_cons_left_iff.mp h
  cases g with
  | one p' => exact ⟨p', e', ds', rfl, h'⟩
  | _ => simp [Group.Like] at hlike

theorem fits_many {ps : List TPat} (h : Fits ((.many ps, e) :: cs) ds) :
    ∃ ps' e' ds', ds = (.many ps', e') :: ds' ∧ Fits cs ds' := by
  obtain ⟨⟨g, e'⟩, ds', hlike, h', rfl⟩ := forall₂_cons_left_iff.mp h
  cases g with
  | many ps' => exact ⟨ps', e', ds', rfl, h'⟩
  | _ => simp [Group.Like] at hlike

theorem fits_append : ∀ {cs₁ cs₂ ds : List (Scoped α)}, Fits (cs₁ ++ cs₂) ds →
    ∃ ds₁ ds₂, ds = ds₁ ++ ds₂ ∧ Fits cs₁ ds₁ ∧ Fits cs₂ ds₂
  | [], cs₂, ds, h => ⟨[], ds, rfl, .nil, h⟩
  | c :: cs₁, cs₂, ds, h => by
    obtain ⟨d, ds', hlike, h', rfl⟩ := forall₂_cons_left_iff.mp h
    obtain ⟨ds₁, ds₂, rfl, h₁, h₂⟩ := fits_append h'
    exact ⟨d :: ds₁, ds₂, rfl, .cons hlike h₁, h₂⟩

theorem fits_noBinder {β : Type} {f : β → α} : ∀ {l : List β} {ds : List (Scoped α)},
    Fits (l.map fun b => (.none, f b)) ds → ∃ es : List α, ds = (es.map fun e => (.none, e)) ∧ es.length = l.length
  | [], ds, h => ⟨[], fits_nil h, rfl⟩
  | b :: l, ds, h => by
    obtain ⟨e', ds', rfl, h'⟩ := fits_none h
    obtain ⟨es, rfl, hlen⟩ := fits_noBinder h'
    exact ⟨e' :: es, rfl, by simp [hlen]⟩

theorem SwitchBody.rebuild_children (b : SwitchBody α) : b.rebuild b.children = b := by
  cases b with
  | ite thn els => rfl
  | matchE branches =>
    simp only [children, rebuild, matchE.injEq]
    induction branches with
    | nil => rfl
    | cons b branches ih => simp [MatchBranch.rebuild, ih]

variable {ds' : List (Scoped α)}

theorem SwitchBody.children_rebuild {b : SwitchBody α} (h : Fits b.children ds)
    (h' : Fits b.children ds') : (b.rebuild ds).children = ds ∧ (b.rebuild ds).rebuild ds' = b.rebuild ds' := by
  cases b with
  | ite thn els =>
    obtain ⟨e₁, ds₁, rfl, h₁⟩ := fits_none h
    obtain ⟨e₂, ds₂, rfl, h₂⟩ := fits_none h₁
    obtain rfl := fits_nil h₂
    obtain ⟨e₁', ds₁', rfl, h₁'⟩ := fits_none h'
    obtain ⟨e₂', ds₂', rfl, h₂'⟩ := fits_none h₁'
    obtain rfl := fits_nil h₂'
    exact ⟨rfl, rfl⟩
  | matchE branches =>
    simp only [children, rebuild, matchE.injEq] at h h' ⊢
    induction branches generalizing ds ds' with
    | nil =>
      obtain rfl := fits_nil h
      exact ⟨rfl, rfl⟩
    | cons b branches ih =>
      obtain ⟨p, e, ds₁, rfl, h₁⟩ := fits_one h
      obtain ⟨p', e', ds₁', rfl, h₁'⟩ := fits_one h'
      simp [MatchBranch.rebuild, ih h₁ h₁']

theorem Loop.rebuild_children (l : Loop α) : l.rebuild l.children = l := by
  simp [rebuild, children]

theorem Loop.children_rebuild {l : Loop α} (h : Fits l.children ds)
    (h' : Fits l.children ds') : (l.rebuild ds).children = ds ∧ (l.rebuild ds).rebuild ds' = l.rebuild ds' := by
  obtain ⟨ds₁, ds₂, rfl, h₁, h₂⟩ := fits_append h
  obtain ⟨es, rfl, hlen⟩ := fits_noBinder h₁
  obtain ⟨ps, e, ds₃, rfl, h₃⟩ := fits_many h₂
  obtain rfl := fits_nil h₃
  obtain ⟨ds₁', ds₂', rfl, h₁', h₂'⟩ := fits_append h'
  obtain ⟨es', rfl, hlen'⟩ := fits_noBinder h₁'
  obtain ⟨ps', e', ds₃', rfl, h₃'⟩ := fits_many h₂'
  obtain rfl := fits_nil h₃'
  simp [rebuild, children, ← hlen, ← hlen'.trans hlen.symm]

theorem zipWith_updates : ∀ (us : List (FieldId × α)) (es es' : List α), es.length = us.length →
    es'.length = us.length →
    ((List.zipWith (fun u c => (u.1, c.2)) us (es.map fun e => ((Group.none, e) : Scoped α))).map
      fun u => ((Group.none, u.2) : Scoped α)) = (es.map fun e => (Group.none, e)) ∧
    List.zipWith (fun u c => (u.1, c.2))
      (List.zipWith (fun u c => (u.1, c.2)) us (es.map fun e => ((Group.none, e) : Scoped α)))
      (es'.map fun e => ((Group.none, e) : Scoped α)) =
        List.zipWith (fun u c => (u.1, c.2)) us (es'.map fun e => ((Group.none, e) : Scoped α))
  | [], [], [], _, _ => ⟨rfl, rfl⟩
  | u :: us, e :: es, e' :: es', h, h' => by
    have ih := zipWith_updates us es es' (by simpa using h) (by simpa using h')
    simp only [map_cons, zipWith_cons_cons, ih, true_and]

theorem StructUpdate.rebuild_children (s : StructUpdate α) : s.rebuild s.children = s := by
  obtain ⟨structId, init, updates⟩ := s
  have hupdates : List.zipWith (fun u c => (u.1, c.2)) updates
      (updates.map fun u => ((Group.none, u.2) : Scoped α)) = updates := by
    induction updates with
    | nil => rfl
    | cons u us ih => simp [ih]
  cases init <;> simp only [rebuild, children, Option.toList, map_nil, map_cons, nil_append,
    cons_append, hupdates]

theorem StructUpdate.children_rebuild {s : StructUpdate α} (h : Fits s.children ds)
    (h' : Fits s.children ds') : (s.rebuild ds).children = ds ∧ (s.rebuild ds).rebuild ds' = s.rebuild ds' := by
  obtain ⟨structId, init, updates⟩ := s
  cases init with
  | none =>
    obtain ⟨es, rfl, hlen⟩ := fits_noBinder (f := Prod.snd) h
    obtain ⟨es', rfl, hlen'⟩ := fits_noBinder (f := Prod.snd) h'
    have := zipWith_updates updates es es' hlen hlen'
    simp_all [rebuild, children]
  | some e₀ =>
    obtain ⟨e, ds₁, rfl, h₁⟩ := fits_none h
    obtain ⟨e', ds₁', rfl, h₁'⟩ := fits_none h'
    obtain ⟨es, rfl, hlen⟩ := fits_noBinder (f := Prod.snd) h₁
    obtain ⟨es', rfl, hlen'⟩ := fits_noBinder (f := Prod.snd) h₁'
    have := zipWith_updates updates es es' hlen hlen'
    simp_all [rebuild, children]

theorem EMeta.rebuild_children (m : EMeta α) : m.rebuild m.children = m := by
  cases m with
  | symbolicAssignments l =>
    simp only [children, rebuild, symbolicAssignments.injEq]
    induction l with
    | nil => rfl
    | cons a l ih => simp [pairUp, ih]
  | symbolicPlaces l =>
    simp only [children, rebuild, symbolicPlaces.injEq]
    induction l with
    | nil => rfl
    | cons a l ih => simp [ih]
  | _ => rfl

theorem EMeta.children_rebuild {m : EMeta α} (h : Fits m.children ds)
    (h' : Fits m.children ds') : (m.rebuild ds).children = ds ∧ (m.rebuild ds).rebuild ds' = m.rebuild ds' := by
  cases m with
  | assignment dest value origin =>
    obtain ⟨e, ds₁, rfl, h₁⟩ := fits_none h
    obtain rfl := fits_nil h₁
    obtain ⟨e', ds₁', rfl, h₁'⟩ := fits_none h'
    obtain rfl := fits_nil h₁'
    exact ⟨rfl, rfl⟩
  | symbolicAssignments l =>
    simp only [children, rebuild, and_true] at h ⊢
    clear h'
    induction l generalizing ds with
    | nil =>
      obtain rfl := fits_nil h
      rfl
    | cons a l ih =>
      obtain ⟨e₁, ds₁, rfl, h₁⟩ := fits_none h
      obtain ⟨e₂, ds₂, rfl, h₂⟩ := fits_none h₁
      simp [pairUp, ih h₂]
  | symbolicPlaces l =>
    simp only [children, rebuild, symbolicPlaces.injEq] at h h' ⊢
    induction l generalizing ds ds' with
    | nil =>
      obtain rfl := fits_nil h
      exact ⟨rfl, rfl⟩
    | cons a l ih =>
      obtain ⟨e, ds₁, rfl, h₁⟩ := fits_none h
      obtain ⟨e', ds₁', rfl, h₁'⟩ := fits_none h'
      simp [ih h₁ h₁']
  | _ =>
    obtain rfl := fits_nil h
    exact ⟨rfl, rfl⟩

end

def Expr.rebuild : Expr → List (Scoped Texpr) → Expr
  | .app _ _, [c, d] => .app c.2 d.2
  | .lambda _ _, [(.one pat, inner)] => .lambda pat inner
  | .letE monadic _ _ _, [c, (.one pat, next)] => .letE monadic pat c.2 next
  | .switch _ body, c :: cs => .switch c.2 (body.rebuild cs)
  | .loop l, cs => .loop (l.rebuild cs)
  | .structUpdate s, cs => .structUpdate (s.rebuild cs)
  | .emeta m e, cs =>
    match cs.drop m.children.length with
    | [c] => .emeta (m.rebuild (cs.take m.children.length)) c.2
    | _ => .emeta m e
  | e, _ => e

theorem Expr.rebuild_ctorIdx (e : Expr) (cs : List (Scoped Texpr)) : (e.rebuild cs).ctorIdx = e.ctorIdx := by
  fun_cases Expr.rebuild e cs <;> rfl

theorem Expr.rebuild_children (e : Expr) : e.rebuild e.children = e := by
  cases e with
  | switch scrut body => simp [rebuild, children, SwitchBody.rebuild_children]
  | loop l => simp [rebuild, children, Loop.rebuild_children]
  | structUpdate s => simp [rebuild, children, StructUpdate.rebuild_children]
  | emeta m e => simp [rebuild, children, EMeta.rebuild_children]
  | _ => rfl

theorem Expr.children_rebuild {e : Expr} {ds ds' : List (Scoped Texpr)} (h : Fits e.children ds)
    (h' : Fits e.children ds') : (e.rebuild ds).children = ds ∧ (e.rebuild ds).rebuild ds' = e.rebuild ds' := by
  cases e with
  | app f x =>
    obtain ⟨e₁, ds₁, rfl, h₁⟩ := fits_none h
    obtain ⟨e₂, ds₂, rfl, h₂⟩ := fits_none h₁
    obtain rfl := fits_nil h₂
    obtain ⟨e₁', ds₁', rfl, h₁'⟩ := fits_none h'
    obtain ⟨e₂', ds₂', rfl, h₂'⟩ := fits_none h₁'
    obtain rfl := fits_nil h₂'
    exact ⟨rfl, rfl⟩
  | lambda pat inner =>
    obtain ⟨p, e₁, ds₁, rfl, h₁⟩ := fits_one h
    obtain rfl := fits_nil h₁
    obtain ⟨p', e₁', ds₁', rfl, h₁'⟩ := fits_one h'
    obtain rfl := fits_nil h₁'
    exact ⟨rfl, rfl⟩
  | letE monadic pat bound next =>
    obtain ⟨e₁, ds₁, rfl, h₁⟩ := fits_none h
    obtain ⟨p, e₂, ds₂, rfl, h₂⟩ := fits_one h₁
    obtain rfl := fits_nil h₂
    obtain ⟨e₁', ds₁', rfl, h₁'⟩ := fits_none h'
    obtain ⟨p', e₂', ds₂', rfl, h₂'⟩ := fits_one h₁'
    obtain rfl := fits_nil h₂'
    exact ⟨rfl, rfl⟩
  | switch scrut body =>
    obtain ⟨e₁, ds₁, rfl, h₁⟩ := fits_none h
    obtain ⟨e₁', ds₁', rfl, h₁'⟩ := fits_none h'
    simp [rebuild, children, SwitchBody.children_rebuild h₁ h₁']
  | loop l => simp [rebuild, children, Loop.children_rebuild h h']
  | structUpdate s => simp [rebuild, children, StructUpdate.children_rebuild h h']
  | emeta m e =>
    obtain ⟨ds₁, ds₂, rfl, h₁, h₂⟩ := fits_append h
    obtain ⟨e₁, ds₃, rfl, h₃⟩ := fits_none h₂
    obtain rfl := fits_nil h₃
    obtain ⟨ds₁', ds₂', rfl, h₁', h₂'⟩ := fits_append h'
    obtain ⟨e₁', ds₃', rfl, h₃'⟩ := fits_none h₂'
    obtain rfl := fits_nil h₃'
    have hlen := h₁.length_eq
    have hlen' : ds₁.length = ds₁'.length := hlen.symm.trans h₁'.length_eq
    obtain ⟨hchildren, hrebuild⟩ := EMeta.children_rebuild h₁ h₁'
    simp [rebuild, children, hlen, hlen', hchildren, hrebuild]
  | _ =>
    obtain rfl := fits_nil h
    exact ⟨rfl, rfl⟩

end Aeneas.Pure
