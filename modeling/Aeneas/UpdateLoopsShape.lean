import Aeneas.UpdateLoopsScan

/-!
# The shape of the updated loops

At the level of the function the visitor rewrites the loops. A survey of the block
tells which problem it meets first. What it does on success is a relation, from
which the shape of the result is derived.
-/

namespace Aeneas.UpdateLoops

open LlbcAst Fuel Bool
open LlbcAst.Statement (isReturn isBreak isContinue isFarJump)

variable {α δ : Type}

/-! ## The loops that are rewritten well -/

def surveyRewritten (body after : Block α δ) (returnSt : Statement α δ) : Except (Raised α δ) Bool :=
  if blockHasNoBreaks body then do
    scanLoops body
    scan 0 (replaced [] body)
    return true
  else do
    let after ← decomposeAfter after
    let body ← replaceBlock after body
    if occurs true isReturn body then .error (.foundStatement returnSt) else do
      scan 0 body
      return false

def surveyLoop (body after : Block α δ) : Except (Raised α δ) Bool :=
  match scan 1 body with
  | .ok _ => .ok true
  | .error (.foundStatement returnSt) => surveyRewritten body after returnSt
  | .error e => .error e

mutual

/-- The first problem that the visitor meets. An unsupported construct is reported
as an error. A return is raised for a loop whose rewriting leaves a return inside
of it: one that stands in an inner loop, or in the code which is moved into a break. -/
def survey : Block α δ → Except (Raised α δ) Unit
  | [] => .ok ()
  | st :: ls => do
    if ← surveyStatement st ls then survey ls else return

def surveyStatement : Statement α δ → Block α δ → Except (Raised α δ) Bool
  | .switch _ _ branches, _ => do
    surveyBlocks branches
    return true
  | .loop _ body, after => surveyLoop body after
  | st, _ => do
    scanStatement 0 st
    return true

def surveyBlocks : List (Block α δ) → Except (Raised α δ) Unit
  | [] => .ok ()
  | b :: bs => do
    survey b
    surveyBlocks bs

end

def Clear {β : Type} (x : Except (Raised α δ) β) : Prop := ∀ st, x ≠ .error (.foundStatement st)

variable {β γ : Type} {x : Except (Raised α δ) β} {f : β → Except (Raised α δ) γ}

theorem Clear.left (h : Clear (x >>= f)) : Clear x := by
  intro st hx
  exact h st (by rw [hx]; rfl)

theorem Clear.right (h : Clear (x >>= f)) {a : β} (hx : x = .ok a) : Clear (f a) := by
  intro st hf
  exact h st (by rw [hx, ← hf]; rfl)

variable {body : Block α δ}

theorem computes_visitLoop (info : Info) (h : occurs true isReturn body = false) :
    Computes (.exn .outOfFuel) (fun n => visitStatement n 0 (.loop info body))
      (scan 0 body >>= fun _ => .ok (.loop info body)) := by
  refine computes_succ (by simp [visitStatement]) ?_
  rw [← bind_ok_bind _ body fun body' => .ok (Statement.loop info body')]
  exact (computes_visitBlock 0 body fun _ => h).bind fun _ _ => computes_const _

def Leaves (after : Block α δ) : Bool → Block α δ × Block α δ → Prop
  | true, r => r.2 = after
  | false, r => r.2 = []

variable {info : Info} {returnSt : Statement α δ}

variable {after : Block α δ}

theorem yields_rewriteLoop
    (h : Clear (surveyRewritten body after returnSt)) :
    Yields (.exn .outOfFuel) (Leaves after)
      (fun n => rewriteLoop (visitBlock n) (visitStatement n) 0 info body after returnSt)
      (surveyRewritten body after returnSt) := by
  unfold rewriteLoop surveyRewritten at *
  by_cases hbrk : blockHasNoBreaks body = true
  · simp only [hbrk, if_true] at h ⊢
    have hnone : occurs true isBreak body = false := by simpa [blockHasNoBreaks] using hbrk
    refine ((computes_blockReplace body hnone).yields (Q := fun _ b => b = replaced [] body) fun _ => rfl).bind
      fun _ _ hloops hb => ?_
    subst hb
    refine ((computes_visitLoop info (occurs_replaced_nil hloops)).yields (Q := fun _ _ => True) fun _ =>
      trivial).bind fun _ _ _ _ => ?_
    exact yields_ok rfl
  · simp only [hbrk] at h ⊢
    refine (yields_const (decomposeAfter after)).bind fun after' _ hafter hafter' => ?_
    subst hafter'
    refine (yields_const (replaceBlock after' body)).bind fun body' _ hbody hbody' => ?_
    subst hbody'
    by_cases hret : occurs true isReturn body' = true
    · exact absurd (by simp [hret]) (((h.right hafter).right hbody) returnSt)
    · simp only [hret]
      refine ((computes_visitLoop info (eq_false_iff.mpr hret)).yields (Q := fun _ _ => True) fun _ => trivial).bind
        fun _ _ _ _ => ?_
      exact yields_ok rfl

variable {st : Statement α δ}

theorem yields_leaf (after : Block α δ)
    (hvisit : ∀ n, visitStatement (n + 1) 0 st = scanStatement 0 st >>= fun _ => .ok st)
    (hloop : ∀ info body, st ≠ .loop info body) :
    Yields (.exn .outOfFuel) (Leaves after) (fun n => updateStatement n 0 st after)
      (scanStatement 0 st >>= fun _ => .ok true) := by
  have hst := computes_update _ (computes_jump hvisit) hloop after
  exact (hst.yields (Q := fun _ r => r.2 = after) fun _ => rfl).map fun _ _ hr => by exact hr

mutual

theorem yields_visitBlock : ∀ ls : Block α δ, Clear (survey ls) →
    Yields (.exn .outOfFuel) (fun _ _ => True) (fun n => visitBlock n 0 ls) (survey ls)
  | [], _ => ⟨[], trivial, computes_succ rfl (computes_const _)⟩
  | st :: ls, h => by
    refine yields_succ rfl ?_
    refine (yields_updateStatement st ls h.left).bind fun stays r hst hr => ?_
    obtain ⟨ls0, ls1⟩ := r
    cases stays with
    | true =>
      obtain rfl : ls = ls1 := hr.symm
      exact (yields_visitBlock ls (h.right hst)).post fun _ _ _ => trivial
    | false =>
      obtain rfl : ls1 = [] := hr
      exact ⟨ls0 ++ [], trivial, computes_succ rfl (computes_const _)⟩

theorem yields_updateStatement : ∀ (st : Statement α δ) (after : Block α δ), Clear (surveyStatement st after) →
    Yields (.exn .outOfFuel) (Leaves after) (fun n => updateStatement n 0 st after) (surveyStatement st after)
  | .switch info data branches, after, h => by
    have hbs := yields_visitBlocks branches h.left
    have hst : Yields (.exn .outOfFuel) (fun _ _ => True) (fun n => visitStatement n 0 (.switch info data branches))
        (surveyBlocks branches) :=
      yields_succ (by simp [visitStatement]) (hbs.post fun _ _ _ => trivial)
    exact yields_succ rfl (hst.bind fun _ _ _ _ => yields_ok rfl)
  | .loop info body, after, h => by
    have hbody := computes_visitBlock 1 body (fun h0 => absurd h0 (by omega))
    refine yields_succ rfl (Yields.elim (F := fun n visited =>
      updateLoop (visitBlock n) (visitStatement n) visited 0 info body after) hbody (fun _ => rfl) ?_)
    rw [surveyStatement, surveyLoop] at *
    match hscan : scan 1 body with
    | .ok _ => exact yields_ok rfl
    | .error (.foundStatement returnSt) =>
      rw [hscan] at h
      exact yields_rewriteLoop h
    | .error (.exn e) => exact computes_const _
  | .ret info, after, _ | .basic _ _, after, _ | .abort _ _, after, _ | .unwindResume _, after, _ | .brk _ _, after, _
  | .cont _ _, after, _ => yields_leaf after (fun _ => rfl) (by simp)

theorem yields_visitBlocks : ∀ bs : List (Block α δ), Clear (surveyBlocks bs) →
    Yields (.exn .outOfFuel) (fun _ _ => True) (fun n => bs.mapM (visitBlock n 0)) (surveyBlocks bs)
  | [], _ => ⟨[], trivial, computes_const _⟩
  | b :: bs, h => by
    simp only [List.mapM_cons]
    refine (yields_visitBlock b h.left).bind fun _ b' hb _ => ?_
    exact (yields_visitBlocks bs (h.right hb)).post fun _ _ _ => trivial

end

/-! ## What is returned -/

def isLeaf : Statement α δ → Bool
  | .switch _ _ _ | .loop _ _ => false
  | _ => true

inductive Visited : Block α δ → Block α δ → Prop
  | nil : Visited [] []
  | leaf {st ls ls'} : isLeaf st = true → scanStatement 0 st = .ok () → Visited ls ls' → Visited (st :: ls) (st :: ls')
  | switch {info data bs bs' ls ls'} : bs.length = bs'.length →
      (∀ i (h : i < bs.length) (h' : i < bs'.length), Visited (bs.get ⟨i, h⟩) (bs'.get ⟨i, h'⟩)) → Visited ls ls' →
      Visited (.switch info data bs :: ls) (.switch info data bs' :: ls')
  | loop {info body ls ls'} : scan 1 body = .ok () → Visited ls ls' →
      Visited (.loop info body :: ls) (.loop info body :: ls')
  -- the first transformation
  | moved {info body returnSt ls ls'} : scan 1 body = .error (.foundStatement returnSt) →
      blockHasNoBreaks body = true → scanLoops body = .ok () → scan 0 (replaced [] body) = .ok () →
      Visited ls ls' → Visited (.loop info body :: ls) (.loop info (replaced [] body) :: returnAfter info :: ls')
  -- the second and the third one
  | inlined {info body body' returnSt ls after} : scan 1 body = .error (.foundStatement returnSt) →
      blockHasNoBreaks body = false → decomposeAfter ls = .ok after →
        replaceBlock after body = .ok (replaced after body) →
      occurs false isFarBreak body = false → Visited (replaced after body) body' →
        Visited (.loop info body :: ls) [.loop info body', returnSt]

variable {n : Nat}

theorem visitLoop_ok (h : visitStatement n 0 (.loop info body) = .ok st) :
    ∃ m < n, ∃ body', visitBlock m 0 body = .ok body' ∧ st = .loop info body' := by
  cases n with
  | zero => cases h
  | succ n =>
    obtain ⟨body', hbody, h⟩ := bind_eq_ok.mp h
    cases h
    exact ⟨n, by omega, body', hbody, rfl⟩

theorem visitLeaf_ok {st' : Statement α δ} (hleaf : isLeaf st = true)
    (h : visitStatement n 0 st = .ok st') : st' = st ∧ scanStatement 0 st = .ok () := by
  have hvisit : ∀ n, visitStatement (n + 1) 0 st = scanStatement 0 st >>= fun _ => .ok st := by
    intro n
    cases st with
    | switch | loop => cases hleaf
    | _ => rfl
  have hcomp := (computes_jump hvisit).eq_of_ne h (by simp)
  obtain ⟨_, hscan, hst⟩ := bind_eq_ok.mp hcomp.symm
  cases hst
  exact ⟨rfl, hscan⟩

variable {ls' : Block α δ}

theorem visited_rewritten (ih : ∀ m < n, ∀ {ls ls' : Block α δ}, visitBlock m 0 ls = .ok ls' → Visited ls ls')
    {ls0 ls1 : Block α δ}
    (hscan : scan 1 body = .error (.foundStatement returnSt))
    (h : rewriteLoop (visitBlock n) (visitStatement n) 0 info body after returnSt = .ok (ls0, ls1))
    (hrest : Visited ls1 ls') : Visited (.loop info body :: after) (ls0 ++ ls') := by
  unfold rewriteLoop at h
  by_cases hbrk : blockHasNoBreaks body = true
  · rw [if_pos hbrk] at h
    obtain ⟨body', hbody, h⟩ := bind_eq_ok.mp h
    obtain ⟨st, hst, h⟩ := bind_eq_ok.mp h
    cases h
    have hnone : occurs true isBreak body = false := by simpa [blockHasNoBreaks] using hbrk
    have hcomp := (computes_blockReplace body hnone).eq_of_ne hbody (by simp)
    obtain ⟨_, hloops, hbody'⟩ := bind_eq_ok.mp hcomp.symm
    cases hbody'
    have hvisit := (computes_visitLoop info (occurs_replaced_nil hloops)).eq_of_ne hst (by simp)
    obtain ⟨_, hscan', hst'⟩ := bind_eq_ok.mp hvisit.symm
    cases hst'
    exact .moved hscan hbrk hloops hscan' hrest
  · rw [if_neg hbrk] at h
    obtain ⟨after', hafter, h⟩ := bind_eq_ok.mp h
    obtain ⟨body', hbody, h⟩ := bind_eq_ok.mp h
    obtain ⟨st, hst, h⟩ := bind_eq_ok.mp h
    cases h
    cases hrest
    rcases replaceBlock_replaces after' body with ⟨hrep, hfar⟩ | hrep
    · rw [hrep] at hbody
      cases hbody
      obtain ⟨m, hm, body'', hvisit, rfl⟩ := visitLoop_ok hst
      exact .inlined hscan (eq_false_iff.mpr hbrk) hafter hrep hfar (ih m hm hvisit)
    · rw [hrep] at hbody
      cases hbody

variable {ls : Block α δ}

theorem visited_of_ok (h : visitBlock n 0 ls = .ok ls') : Visited ls ls' := by
  induction n using Nat.strong_induction_on generalizing ls ls' with
  | _ n ih =>
    match n, ls with
    | 0, _ => cases h
    | n + 1, [] =>
      cases h
      exact .nil
    | 1, st :: ls => cases h
    | n + 2, st :: ls =>
      obtain ⟨⟨ls0, ls1⟩, hst, h⟩ := bind_eq_ok.mp h
      obtain ⟨ls2, hls, h⟩ := bind_eq_ok.mp h
      cases h
      have hrest := ih (n + 1) (by omega) hls
      cases st with
      | loop info body =>
        change updateLoop _ _ (visitBlock n 1 body) 0 info body ls = _ at hst
        have hcomp := computes_visitBlock 1 body fun h0 => absurd h0 (by omega)
        match hbody : visitBlock n 1 body with
        | .ok body' =>
          rw [hbody] at hst
          cases hst
          obtain ⟨_, hscan, hbody'⟩ := bind_eq_ok.mp (hcomp.eq_of_ne hbody (by simp)).symm
          cases hbody'
          exact .loop hscan hrest
        | .error (.foundStatement returnSt) =>
          rw [hbody] at hst
          have hscan : scan 1 body = .error (.foundStatement returnSt) :=
            eq_error_of_bind (hcomp.eq_of_ne hbody (by simp)).symm
          exact visited_rewritten (fun m hm _ _ => ih m (by omega)) hscan hst hrest
        | .error (.exn e) =>
          rw [hbody] at hst
          cases hst
      | switch info data branches =>
        obtain ⟨st', hst', hst⟩ := bind_eq_ok.mp hst
        cases hst
        cases n with
        | zero => cases hst'
        | succ n =>
          obtain ⟨bs', hbs, hst'⟩ := bind_eq_ok.mp hst'
          cases hst'
          obtain ⟨hlen, hget⟩ := List.forall₂_iff_get.mp (mapM_eq_ok_iff.mp hbs)
          exact .switch hlen (fun i hi hi' => ih n (by omega) (hget i hi hi')) hrest
      | _ =>
        obtain ⟨st', hst', hst⟩ := bind_eq_ok.mp hst
        cases hst
        obtain ⟨rfl, hscan⟩ := visitLeaf_ok rfl hst'
        exact .leaf rfl hscan hrest

theorem occurs_of_found (h : scan 1 body = .error (.foundStatement st)) :
    occurs true isReturn body = true := by
  rw [occurs_true, (scan_found h).2.2 rfl, Bool.true_or]

variable {bs bs' : List (Block α δ)}

theorem blocks_eq_of_clean
    (h : List.Forall₂ (fun b b' => occurs true isReturn b = false → b' = b ∧ scan 0 b = .ok ()) bs bs')
    (hret : occursInBlocks true isReturn bs = false) : bs' = bs ∧ scanBlocks 0 bs = .ok () := by
  induction h with
  | nil => exact ⟨rfl, rfl⟩
  | cons hb _ ih =>
    obtain ⟨hret₁, hret₂⟩ := or_eq_false_iff.mp hret
    obtain ⟨rfl, hscan⟩ := hb hret₁
    obtain ⟨rfl, hscans⟩ := ih hret₂
    exact ⟨rfl, bind_eq_ok.mpr ⟨(), hscan, hscans⟩⟩

theorem Visited.eq_of_clean (h : Visited ls ls') (hret : occurs true isReturn ls = false) :
    ls' = ls ∧ scan 0 ls = .ok () := by
  induction h with
  | nil => exact ⟨rfl, rfl⟩
  | leaf _ hscan _ ih =>
    obtain ⟨rfl, hls⟩ := ih (or_eq_false_iff.mp hret).2
    exact ⟨rfl, bind_eq_ok.mpr ⟨(), hscan, hls⟩⟩
  | switch hlen _ _ ihbs ih =>
    obtain ⟨hret₁, hret₂⟩ := or_eq_false_iff.mp hret
    obtain ⟨rfl, hls⟩ := ih hret₂
    obtain ⟨rfl, hbs⟩ := blocks_eq_of_clean (List.forall₂_iff_get.mpr ⟨hlen, fun i hi hi' hb => ihbs i hi hi' hb⟩) hret₁
    exact ⟨rfl, bind_eq_ok.mpr ⟨(), hbs, hls⟩⟩
  | loop hscan _ ih =>
    obtain ⟨rfl, hls⟩ := ih (or_eq_false_iff.mp hret).2
    exact ⟨rfl, bind_eq_ok.mpr ⟨(), hscan, hls⟩⟩
  | moved hscan | inlined hscan => simp [occurs, occursIn, occurs_of_found hscan] at hret

theorem blocks_keep_returns
    (h : List.Forall₂ (fun b b' => occurs true isReturn b' = false → occurs true isReturn b = false)
      bs bs') (hret : occursInBlocks true isReturn bs' = false) :
    occursInBlocks true isReturn bs = false := by
  induction h with
  | nil => rfl
  | cons hb _ ih =>
    obtain ⟨hret₁, hret₂⟩ := or_eq_false_iff.mp hret
    rw [occursInBlocks, hb hret₁, ih hret₂, Bool.or_false]

theorem Visited.keeps_returns (h : Visited ls ls') (hret : occurs true isReturn ls' = false) :
    occurs true isReturn ls = false := by
  induction h with
  | nil => rfl
  | leaf _ _ _ ih =>
    obtain ⟨hret₁, hret₂⟩ := or_eq_false_iff.mp hret
    rw [occurs, hret₁, ih hret₂, Bool.or_false]
  | switch hlen _ _ ihbs ih =>
    obtain ⟨hret₁, hret₂⟩ := or_eq_false_iff.mp hret
    have hbs := blocks_keep_returns (List.forall₂_iff_get.mpr ⟨hlen, fun i hi hi' hb => ihbs i hi hi' hb⟩) hret₁
    rw [occurs, occursIn, hbs, ih hret₂, Bool.or_false]
  | loop _ _ ih =>
    obtain ⟨hret₁, hret₂⟩ := or_eq_false_iff.mp hret
    rw [occurs, hret₁, ih hret₂, Bool.or_false]
  | moved => simp [occurs, occursIn, returnAfter, isReturn] at hret
  | inlined hscan =>
    obtain ⟨_, ⟨info, rfl⟩, _⟩ := scan_found hscan
    simp [occurs, occursIn, isReturn] at hret

def Surveyed (x : Except (Raised α δ) Unit) (ret : Bool) : Prop :=
  (x = .ok () ∧ ret = false) ∨ (∃ st, x = .error (.foundStatement st)) ∧ ret = true

theorem Surveyed.bind {x y : Except (Raised α δ) Unit} {r₁ r₂ : Bool} (hx : Surveyed x r₁) (hy : Surveyed y r₂) :
    Surveyed (x >>= fun _ => y) (r₁ || r₂) := by
  rcases hx with ⟨rfl, rfl⟩ | ⟨⟨st, rfl⟩, rfl⟩
  · exact hy
  · exact .inr ⟨⟨st, rfl⟩, rfl⟩

theorem survey_cons (h : surveyStatement st ls = .ok true) :
    survey (st :: ls) = survey ls := by
  rw [survey, h]
  rfl

theorem blocks_shape (h : List.Forall₂ (fun b b' => occurs true isFarJump b' = false ∧
      Surveyed (survey b) (inLoops isReturn b')) bs bs') :
    occursInBlocks true isFarJump bs' = false ∧
      Surveyed (surveyBlocks bs) (inLoopsOfBlocks isReturn bs') := by
  induction h with
  | nil => exact ⟨rfl, .inl ⟨rfl, rfl⟩⟩
  | cons hb _ ih => exact ⟨by rw [occursInBlocks, hb.1, ih.1, Bool.or_false], hb.2.bind ih.2⟩

theorem Visited.shape (h : Visited ls ls') : occurs true isFarJump ls' = false ∧
    Surveyed (survey ls) (inLoops isReturn ls') := by
  induction h with
  | nil => exact ⟨rfl, .inl ⟨rfl, rfl⟩⟩
  | @leaf st ls ls' hleaf hscan _ ih =>
    have hfar : occursIn true isFarJump st = false := by
      have hscanned := scanStatement_scanned 0 st
      rw [hscan] at hscanned
      exact hscanned.2
    have hst : surveyStatement st ls = .ok true ∧ inLoopsOf isReturn st = false := by
      cases st with
      | switch | loop => cases hleaf
      | _ => exact ⟨bind_eq_ok.mpr ⟨(), hscan, rfl⟩, rfl⟩
    rw [survey_cons hst.1, occurs, inLoops, hfar, hst.2, ih.1]
    exact ⟨rfl, ih.2⟩
  | @switch info data bs bs' ls ls' hlen _ _ ihbs ih =>
    obtain ⟨hfar, hbs⟩ := blocks_shape (List.forall₂_iff_get.mpr ⟨hlen, ihbs⟩)
    have hsurvey : survey (.switch info data bs :: ls) = surveyBlocks bs >>= fun _ => survey ls := by
      rw [survey, surveyStatement]
      cases surveyBlocks bs <;> rfl
    rw [hsurvey, occurs, occursIn, hfar, ih.1]
    exact ⟨rfl, hbs.bind ih.2⟩
  | @loop info body ls ls' hscan _ ih =>
    obtain ⟨hret, hfar⟩ := scan_ok hscan
    have hst : surveyStatement (.loop info body) ls = .ok true := by rw [surveyStatement, surveyLoop, hscan]
    rw [survey_cons hst, occurs, inLoops, occursIn, inLoopsOf, hret (by omega), hfar, ih.1]
    exact ⟨rfl, ih.2⟩
  | @moved info body returnSt ls ls' hscan hbrk hloops hscan' _ ih =>
    have hst : surveyStatement (.loop info body) ls = .ok true := by
      rw [surveyStatement, surveyLoop, hscan]
      simp only [surveyRewritten, hbrk, if_true]
      rw [hloops, hscan']
      rfl
    rw [survey_cons hst, occurs, inLoops, occursIn, inLoopsOf, occurs_replaced_nil hloops, (scan_ok hscan').2]
    exact ⟨ih.1, ih.2⟩
  | @inlined info body body' returnSt ls after hscan hbrk hafter hrep hfar hbody ih =>
    obtain ⟨_, ⟨returnInfo, rfl⟩, _⟩ := scan_found hscan
    refine ⟨by simp [occurs, occursIn, ih.1, isFarJump], ?_⟩
    have hst : surveyStatement (.loop info body) ls =
        if occurs true isReturn (replaced after body) then .error (.foundStatement (.ret returnInfo)) else do
          scan 0 (replaced after body)
          return false := by
      rw [surveyStatement, surveyLoop, hscan]
      simp only [surveyRewritten, hbrk]
      rw [hafter]
      change (replaceBlock after body >>= _) = _
      rw [hrep]
      rfl
    have hin : inLoops isReturn [.loop info body', .ret returnInfo] = occurs true isReturn body' := by
      simp [inLoops, inLoopsOf]
    rw [survey, hst, hin]
    by_cases hret : occurs true isReturn (replaced after body) = true
    · have hbody' : occurs true isReturn body' = true := by
        by_contra hnone
        rw [hbody.keeps_returns (eq_false_iff.mpr hnone)] at hret
        cases hret
      simp only [hret, if_true]
      exact .inr ⟨⟨_, rfl⟩, hbody'⟩
    · obtain ⟨rfl, hclean⟩ := hbody.eq_of_clean (eq_false_iff.mpr hret)
      simp only [hret, hclean]
      exact .inl ⟨rfl, rfl⟩

/-! ## The loops that are rewritten well, from the syntax -/

/-- The code that is moved into the breaks of a loop, but for the return or the panic at its end. -/
def movedCode : Block α δ → Block α δ
  | [] => []
  | .ret _ :: _ => []
  | .abort _ _ :: _ => []
  | st :: ls => st :: movedCode ls

/-- A loop with a return of its own has no return in an inner loop, nor, if it has a break of its own, in the
code that follows it. -/
def loopRewritesWell (body after : Block α δ) : Bool :=
  !occurs false isReturn body || !(inLoops isReturn body ||
    occurs false isBreak body && occurs true isReturn (movedCode after))

/-- The code after a loop with a return of its own and a break is moved into it. -/
def endsBlock : Statement α δ → Bool
  | .loop _ body => occurs false isReturn body && occurs true isBreak body
  | _ => false

mutual

def rewritesWell : Block α δ → Bool
  | [] => true
  | st :: ls => rewritesWellIn st ls && (endsBlock st || rewritesWell ls)

def rewritesWellIn : Statement α δ → Block α δ → Bool
  | .switch _ _ branches, _ => rewritesWellBlocks branches
  | .loop _ body, after => loopRewritesWell body after
  | _, _ => true

def rewritesWellBlocks : List (Block α δ) → Bool
  | [] => true
  | b :: bs => rewritesWell b && rewritesWellBlocks bs

end

/-- A survey stops at no return if all is well, it only succeeds then, and it reports unsupported constructs. -/
structure Judged {β : Type} (well : Bool) (x : Except (Raised α δ) β) : Prop where
  clear : well = true → Clear x
  well : ∀ a, x = .ok a → well = true
  reported : ∀ e, x = .error (.exn e) → ∃ msg ∈ unsupported, e = .failure msg

theorem judged_ok (a : β) : Judged true (.ok a : Except (Raised α δ) β) :=
  ⟨fun _ _ h => (by cases h), fun _ _ => rfl, fun _ h => by cases h⟩

theorem judged_found (st : Statement α δ) : Judged false (.error (.foundStatement st) : Except (Raised α δ) β) :=
  ⟨fun h => (by cases h), fun _ h => (by cases h), fun _ h => by cases h⟩

theorem judged_error (well : Bool) {msg : String} (h : msg ∈ unsupported) :
    Judged well (.error (.exn (.failure msg)) : Except (Raised α δ) β) := by
  refine ⟨fun _ _ h => (by cases h), fun _ h => (by cases h), fun e he => ?_⟩
  cases he
  exact ⟨msg, h, rfl⟩

theorem Judged.bind {w w' : Bool} (hx : Judged w x) (hf : ∀ a, x = .ok a → Judged w' (f a)) :
    Judged (w && w') (x >>= f) := by
  cases x with
  | ok a =>
    rw [hx.well a rfl, Bool.true_and]
    exact hf a rfl
  | error e =>
    refine ⟨fun h st hst => hx.clear (and_eq_true_iff.mp h).1 st ?_, fun _ h => (by cases h), fun e he => ?_⟩
    · cases hst
      rfl
    · cases he
      exact hx.reported e rfl

variable {depth : Nat}

theorem Scanned.judged {ret anyRet far : Bool} {x : Except (Raised α δ) Unit} (hdepth : depth ≠ 0)
    (h : Scanned depth ret anyRet far x) : Judged (!anyRet) x := by
  match x, h with
  | .ok _, h =>
    rw [h.1 hdepth]
    exact judged_ok ()
  | .error (.foundStatement st), h =>
    rw [h.2.2.1]
    exact judged_found st
  | .error (.exn _), ⟨_, hmsg, rfl⟩ => exact judged_error _ hmsg

theorem Scanned.judged_none {ret far : Bool} {x : Except (Raised α δ) Unit}
    (h : Scanned depth ret false far x) : Judged true x := by
  match x, h with
  | .ok _, _ => exact judged_ok ()
  | .error (.foundStatement _), h => cases h.2.2.1
  | .error (.exn _), ⟨_, hmsg, rfl⟩ => exact judged_error _ hmsg

theorem judged_scan (h : occurs true isReturn ls = false) : Judged true (scan depth ls) := by
  have hscanned := scan_scanned depth ls
  rw [h] at hscanned
  exact hscanned.judged_none

theorem occurs_decomposeAfter (h : decomposeAfter ls = .ok after) :
    occurs true isReturn after = occurs true isReturn (movedCode ls) := by
  induction ls generalizing after with
  | nil => cases h
  | cons st ls ih =>
    cases st with
    | ret | abort =>
      cases h
      rfl
    | _ =>
      obtain ⟨after', hafter, h⟩ := bind_eq_ok.mp h
      cases h
      exact congrArg (occursIn true isReturn _ || ·) (ih hafter)

theorem judged_surveyRewritten (hret : occurs false isReturn body = true) (after : Block α δ) :
    Judged (loopRewritesWell body after) (surveyRewritten body after returnSt) := by
  unfold surveyRewritten loopRewritesWell
  rw [hret, Bool.not_true, Bool.false_or]
  by_cases hbrk : blockHasNoBreaks body = true
  · have hnone : occurs false isBreak body = false := by
      have hnone : occurs true isBreak body = false := by simpa [blockHasNoBreaks] using hbrk
      exact (or_eq_false_iff.mp ((occurs_true _ body).symm.trans hnone)).1
    rw [if_pos hbrk, hnone, Bool.false_and, Bool.or_false, ← Bool.and_true (!inLoops _ _)]
    refine ((scanLoops_scanned body).judged one_ne_zero).bind fun _ hloops => ?_
    exact (judged_scan (occurs_replaced_nil hloops)).bind fun _ _ => judged_ok true
  · rw [if_neg hbrk]
    match hafter : decomposeAfter after with
    | .error e =>
      cases decomposeAfter_error hafter
      exact judged_error _ (by simp [unsupported])
    | .ok after' =>
      rw [← occurs_decomposeAfter hafter, ← occurs_replaced after' body]
      change Judged _ (replaceBlock after' body >>= _)
      rcases replaceBlock_replaces after' body with ⟨hbody, _⟩ | hbody
      · rw [hbody]
        change Judged _ (if _ then _ else _)
        cases hret : occurs true isReturn (replaced after' body) with
        | true => exact judged_found returnSt
        | false => exact (judged_scan hret).bind fun _ _ => judged_ok false
      · rw [hbody]
        exact judged_error _ (by simp [unsupported])

theorem judged_surveyLoop (body after : Block α δ) : Judged (loopRewritesWell body after) (surveyLoop body after) := by
  unfold surveyLoop
  match hscan : scan 1 body with
  | .ok _ =>
    have hnone := (scan_ok hscan).1 one_ne_zero
    rw [occurs_true] at hnone
    rw [loopRewritesWell, (or_eq_false_iff.mp hnone).1]
    exact judged_ok true
  | .error (.foundStatement returnSt) => exact judged_surveyRewritten ((scan_found hscan).2.2 rfl) after
  | .error (.exn e) =>
    obtain ⟨_, hmsg, rfl⟩ := ((scan_scanned 1 body).judged one_ne_zero).reported e hscan
    exact judged_error _ hmsg

theorem surveyLoop_stays {stays : Bool} (h : surveyLoop body after = .ok stays) :
    stays = !endsBlock (.loop info body) := by
  unfold surveyLoop at h
  rw [endsBlock]
  match hscan : scan 1 body, h with
  | .ok _, h =>
    have hnone := (scan_ok hscan).1 one_ne_zero
    rw [occurs_true] at hnone
    rw [(or_eq_false_iff.mp hnone).1]
    exact (Except.ok.inj h).symm
  | .error (.foundStatement returnSt), h =>
    rw [(scan_found hscan).2.2 rfl, Bool.true_and]
    simp only [surveyRewritten] at h
    by_cases hbrk : blockHasNoBreaks body = true
    · rw [if_pos hbrk] at h
      obtain ⟨_, _, h⟩ := bind_eq_ok.mp h
      obtain ⟨_, _, h⟩ := bind_eq_ok.mp h
      cases h
      exact hbrk.symm
    · rw [if_neg hbrk] at h
      obtain ⟨_, _, h⟩ := bind_eq_ok.mp h
      obtain ⟨_, _, h⟩ := bind_eq_ok.mp h
      split at h
      · cases h
      · obtain ⟨_, _, h⟩ := bind_eq_ok.mp h
        cases h
        exact (eq_false_iff.mpr hbrk).symm

theorem surveyStatement_stays {stays : Bool} (h : surveyStatement st after = .ok stays) :
    stays = !endsBlock st := by
  cases st with
  | loop => exact surveyLoop_stays h
  | _ =>
    obtain ⟨_, _, h⟩ := bind_eq_ok.mp h
    cases h
    rfl

theorem judged_leaf (hleaf : isLeaf st = true) : Judged true (scanStatement 0 st >>= fun _ => .ok true) := by
  have hscanned := scanStatement_scanned 0 st
  cases st with
  | switch | loop => cases hleaf
  | ret => exact judged_ok true
  | _ => exact (Scanned.judged_none hscanned).bind fun _ _ => judged_ok true

mutual

theorem judged_survey : ∀ ls : Block α δ, Judged (rewritesWell ls) (survey ls)
  | [] => judged_ok ()
  | st :: ls => by
    refine (judged_surveyStatement st ls).bind fun stays hstays => ?_
    obtain rfl := surveyStatement_stays hstays
    cases endsBlock st with
    | true => exact judged_ok ()
    | false => exact judged_survey ls

theorem judged_surveyStatement : ∀ (st : Statement α δ) (after : Block α δ),
    Judged (rewritesWellIn st after) (surveyStatement st after)
  | .switch _ _ branches, _ => by
    rw [rewritesWellIn, ← Bool.and_true (rewritesWellBlocks _)]
    exact (judged_surveyBlocks branches).bind fun _ _ => judged_ok true
  | .loop _ body, after => judged_surveyLoop body after
  | .ret _, _ | .basic _ _, _ | .abort _ _, _ | .unwindResume _, _ | .brk _ _, _ | .cont _ _, _ => judged_leaf rfl

theorem judged_surveyBlocks : ∀ bs : List (Block α δ), Judged (rewritesWellBlocks bs) (surveyBlocks bs)
  | [] => judged_ok ()
  | b :: bs => (judged_survey b).bind fun _ _ => judged_surveyBlocks bs

end

/-! ## The pass -/

/-- No return is in a loop, and the jumps belong to the innermost one. -/
def Shaped (body : Block α δ) : Prop :=
  inLoops isReturn body = false ∧ occurs true isFarJump body = false

/-- The body is replaced by an error that names an unsupported construct, or it gets its shape. -/
def Handled (failHard : Bool) (span : Nat) (body : Block α δ) : Prop :=
  ∃ f, (∃ N, ∀ n, N ≤ n → applyFunctionPass failHard span (updateLoops n) (.structuredBody body) = .ok f) ∧
    ((∃ msg ∈ unsupported, f = .errorBody span msg) ∨ ∃ body', f = .structuredBody body' ∧ Shaped body')

theorem handled_of_clear (span : Nat) (h : Clear (survey body)) : Handled false span body := by
  have hvisit := yields_visitBlock body h
  match hs : survey body, h with
  | .ok _, _ =>
    rw [hs] at hvisit
    obtain ⟨body', _, _, N, hN⟩ := hvisit
    obtain ⟨hfar, hret⟩ := (visited_of_ok (hN N (Nat.le_refl N))).shape
    rw [hs] at hret
    rcases hret with ⟨_, hret⟩ | ⟨⟨st, hst⟩, _⟩
    · refine ⟨.structuredBody body', ⟨N, fun n hn => ?_⟩, .inr ⟨body', rfl, hret, hfar⟩⟩
      simp [applyFunctionPass, updateLoops, Body.update, hN n hn]
    · cases hst
  | .error (.foundStatement st), h => exact absurd rfl (h st)
  | .error (.exn e), _ =>
    rw [hs] at hvisit
    obtain ⟨msg, hmsg, rfl⟩ := (judged_survey body).reported e hs
    obtain ⟨_, N, hN⟩ := hvisit
    refine ⟨.errorBody span msg, ⟨N, fun n hn => ?_⟩, .inl ⟨msg, hmsg, rfl⟩⟩
    simp [applyFunctionPass, updateLoops, Body.update, hN n hn]

theorem updateLoops_ok {body' : Block α δ}
    (h : updateLoops n (.structuredBody body) = .ok (.structuredBody body')) : visitBlock n 0 body = .ok body' := by
  obtain ⟨body'', hbody, h⟩ := bind_eq_ok.mp h
  cases h
  exact hbody

/-- `loop { if _ { return } else {}; loop { return } }` -/
def innerReturn : Block Unit Nat :=
  let info : Info := ⟨0, 0, []⟩
  [.loop info [.switch info 0 [[.ret info], []], .loop info [.ret info]]]

/-- `loop { if _ { return } else { break } }; if _ { return } else {}; return` -/
def laterReturn : Block Unit Nat :=
  let info : Info := ⟨0, 0, []⟩
  [.loop info [.switch info 0 [[.ret info], [.brk info 0]]], .switch info 1 [[.ret info], []], .ret info]

def outerBreak : Block Unit Nat := [.brk ⟨0, 0, []⟩ 1]

end Aeneas.UpdateLoops
