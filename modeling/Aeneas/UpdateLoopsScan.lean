import Aeneas.UpdateLoops
import Aeneas.Fuel

/-!
# What the updates of the loops compute

Below a loop the visitor only looks for returns: it raises the first one, or
returns its block as it is. The transformations are substitutions, unless they
meet a construct that is not supported.
-/

namespace Aeneas.UpdateLoops

open LlbcAst Fuel
open LlbcAst.Statement (isReturn isBreak isContinue isFarJump)

variable {α δ : Type}

def unsupported : List String :=
  [breaksUnsupported, continueUnsupported, nestedReturnsUnsupported, earlyReturnsUnsupported]

/-! ## Below a loop -/

mutual

def scan : Nat → Block α δ → Except (Raised α δ) Unit
  | _, [] => .ok ()
  | depth, st :: ls => do
    scanStatement depth st
    scan depth ls

def scanStatement : Nat → Statement α δ → Except (Raised α δ) Unit
  | depth, .ret info => do
    cassert (depth ≤ 1) nestedReturnsUnsupported
    if depth = 1 then .error (.foundStatement (.ret info)) else .ok ()
  | _, .brk _ i => cassert (i = 0) breaksUnsupported
  | _, .cont _ i => cassert (i = 0) continueUnsupported
  | depth, .switch _ _ branches => scanBlocks depth branches
  | depth, .loop _ body => scan (depth + 1) body
  | _, _ => .ok ()

def scanBlocks : Nat → List (Block α δ) → Except (Raised α δ) Unit
  | _, [] => .ok ()
  | depth, b :: bs => do
    scan depth b
    scanBlocks depth bs

end

/-- What the result of a scan says, where `ret` are the returns which are not in
an inner loop. At the level of the function the returns are not looked for. -/
def Scanned (depth : Nat) (ret anyRet far : Bool) : Except (Raised α δ) Unit → Prop
  | .ok _ => (depth ≠ 0 → anyRet = false) ∧ far = false
  | .error (.foundStatement st) => depth ≤ 1 ∧ (∃ info, st = .ret info) ∧ anyRet = true ∧ (depth = 1 → ret = true)
  | .error (.exn e) => ∃ msg ∈ unsupported, e = .failure msg

variable {depth : Nat}

theorem Scanned.bind {r₁ r₂ a₁ a₂ f₁ f₂ : Bool} {x y : Except (Raised α δ) Unit}
    (hx : Scanned depth r₁ a₁ f₁ x) (hy : Scanned depth r₂ a₂ f₂ y) :
    Scanned depth (r₁ || r₂) (a₁ || a₂) (f₁ || f₂) (x >>= fun _ => y) := by
  match x, hx with
  | .ok _, hx =>
    obtain ⟨ha, rfl⟩ := hx
    match y, hy with
    | .ok _, hy => exact ⟨fun h0 => by rw [ha h0, hy.1 h0, Bool.or_false], hy.2⟩
    | .error (.foundStatement _), ⟨h, hst, hany, hret⟩ =>
      exact ⟨h, hst, by rw [hany, Bool.or_true], fun h1 => by rw [hret h1, Bool.or_true]⟩
    | .error (.exn _), hy => exact hy
  | .error (.foundStatement _), ⟨h, hst, hany, hret⟩ =>
    exact ⟨h, hst, by rw [hany, Bool.true_or], fun h1 => by rw [hret h1, Bool.true_or]⟩
  | .error (.exn _), hx => exact hx

theorem scanned_cassert (depth : Nat) (ret far : Bool) {msg : String} (hmsg : msg ∈ unsupported) :
    Scanned depth ret false far (cassert (!far) msg : Except (Raised α δ) Unit) := by
  cases far with
  | false => exact ⟨fun _ => rfl, rfl⟩
  | true => exact ⟨msg, hmsg, rfl⟩

theorem scanned_nothing (depth : Nat) (ret : Bool) :
    Scanned depth ret false false (.ok () : Except (Raised α δ) Unit) :=
  ⟨fun _ => rfl, rfl⟩

mutual

theorem scan_scanned : ∀ (depth : Nat) (ls : Block α δ), Scanned depth (occurs false isReturn ls)
    (occurs true isReturn ls) (occurs true isFarJump ls) (scan depth ls)
  | depth, [] => scanned_nothing depth _
  | depth, st :: ls => (scanStatement_scanned depth st).bind (scan_scanned depth ls)

theorem scanStatement_scanned : ∀ (depth : Nat) (st : Statement α δ), Scanned depth
    (occursIn false isReturn st) (occursIn true isReturn st)
    (occursIn true isFarJump st) (scanStatement depth st)
  | 0, .ret _ => ⟨fun h0 => absurd rfl h0, rfl⟩
  | 1, .ret info => ⟨Nat.le_refl 1, ⟨info, rfl⟩, rfl, fun _ => rfl⟩
  | depth + 2, .ret info => ⟨nestedReturnsUnsupported, by simp [unsupported], by simp⟩
  | depth, .brk _ i => by
    have hmsg : breaksUnsupported ∈ unsupported := by simp [unsupported]
    simpa [occursIn, isReturn, isFarJump, scanStatement] using
      scanned_cassert depth false (decide (i ≠ 0)) hmsg
  | depth, .cont _ i => by
    have hmsg : continueUnsupported ∈ unsupported := by simp [unsupported]
    simpa [occursIn, isReturn, isFarJump, scanStatement] using
      scanned_cassert depth false (decide (i ≠ 0)) hmsg
  | depth, .switch _ _ branches => scanBlocks_scanned depth branches
  | depth, .loop _ body => by
    -- a return below two loops is reported and not raised
    have h := scan_scanned (depth + 1) body
    rw [scanStatement]
    match scan (depth + 1) body, h with
    | .ok _, h => exact ⟨fun _ => h.1 (by omega), h.2⟩
    | .error (.foundStatement _), ⟨h, hst, hany, _⟩ => exact ⟨by omega, hst, hany, fun h1 => by omega⟩
    | .error (.exn _), h => exact h
  | depth, .basic _ _ | depth, .abort _ _ | depth, .unwindResume _ => scanned_nothing depth _

theorem scanBlocks_scanned : ∀ (depth : Nat) (bs : List (Block α δ)), Scanned depth
    (occursInBlocks false isReturn bs) (occursInBlocks true isReturn bs)
    (occursInBlocks true isFarJump bs) (scanBlocks depth bs)
  | depth, [] => scanned_nothing depth _
  | depth, b :: bs => (scan_scanned depth b).bind (scanBlocks_scanned depth bs)

end

variable {ls : Block α δ}

theorem scan_ok (h : scan depth ls = .ok ()) :
    (depth ≠ 0 → occurs true isReturn ls = false) ∧ occurs true isFarJump ls = false := by
  have hscan := scan_scanned depth ls
  rw [h] at hscan
  exact hscan

variable {st : Statement α δ}

theorem scan_found (h : scan depth ls = .error (.foundStatement st)) :
    depth ≤ 1 ∧ (∃ info, st = .ret info) ∧ (depth = 1 → occurs false isReturn ls = true) := by
  have hscan := scan_scanned depth ls
  rw [h] at hscan
  exact ⟨hscan.1, hscan.2.1, hscan.2.2.2⟩

def Looks (depth : Nat) (anyRet : Bool) : Prop := depth = 0 → anyRet = false

theorem Looks.left {a b : Bool} (h : Looks depth (a || b)) : Looks depth a :=
  fun h0 => (Bool.or_eq_false_iff.mp (h h0)).1

theorem Looks.right {a b : Bool} (h : Looks depth (a || b)) : Looks depth b :=
  fun h0 => (Bool.or_eq_false_iff.mp (h h0)).2

theorem not_found_of_looks {body : Block α δ} (h : Looks depth (occurs true isReturn body)) :
    scan (depth + 1) body ≠ .error (.foundStatement st) := by
  intro hfound
  obtain ⟨h0, _, hret⟩ := scan_found hfound
  have hclean := h (by omega)
  rw [occurs_true, hret (by omega), Bool.true_or] at hclean
  cases hclean

variable {β γ : Type}

theorem bind_ok_bind (x : Except (Raised α δ) Unit) (b : β) (f : β → Except (Raised α δ) γ) :
    ((x >>= fun _ => .ok b) >>= f) = x >>= fun _ => f b := by
  cases x <;> rfl

theorem computes_jump {check : Except (Raised α δ) Unit}
    (hvisit : ∀ n, visitStatement (n + 1) depth st = check >>= fun _ => .ok st) :
    Computes (.exn .outOfFuel) (fun n => visitStatement n depth st) (check >>= fun _ => .ok st) := by
  refine computes_succ (by simp [visitStatement]) ?_
  simp only [hvisit]
  exact computes_const _

theorem computes_update (check : Except (Raised α δ) Unit)
    (hst : Computes (.exn .outOfFuel) (fun n => visitStatement n depth st) (check >>= fun _ => .ok st))
    (hloop : ∀ info body, st ≠ .loop info body) (after : Block α δ) :
    Computes (.exn .outOfFuel) (fun n => updateStatement n depth st after) (check >>= fun _ => .ok ([st], after)) := by
  refine computes_succ (by simp [updateStatement]) ?_
  have hupdate : ∀ n, updateStatement (n + 1) depth st after =
      visitStatement n depth st >>= fun st' => .ok ([st'], after) := by
    intro n
    cases st with
    | loop info body => exact absurd rfl (hloop info body)
    | _ => rfl
  simp only [hupdate]
  rw [← bind_ok_bind check st fun st' => .ok ([st'], after)]
  exact hst.bind fun _ _ => computes_const _

mutual

theorem computes_visitBlock : ∀ (depth : Nat) (ls : Block α δ), Looks depth (occurs true isReturn ls) →
    Computes (.exn .outOfFuel) (fun n => visitBlock n depth ls) (scan depth ls >>= fun _ => .ok ls)
  | depth, [], _ => computes_succ rfl (computes_const _)
  | depth, st :: ls, h => by
    refine computes_succ rfl ?_
    have hst := computes_updateStatement depth st ls h.left
    have hls := computes_visitBlock depth ls h.right
    have hres : (scan depth (st :: ls) >>= fun _ => .ok (st :: ls)) =
        (scanStatement depth st >>= fun _ => .ok ([st], ls)) >>= fun r : Block α δ × Block α δ =>
          (scan depth ls >>= fun _ => .ok ls) >>= fun ls1 => .ok ([st] ++ ls1) := by
      rw [scan, bind_ok_bind, bind_ok_bind]
      cases scanStatement depth st <;> rfl
    rw [hres]
    refine hst.bind fun r hr => ?_
    obtain ⟨_, _, hr⟩ := bind_eq_ok.mp hr
    cases hr
    exact hls.bind fun _ _ => computes_const _

theorem computes_updateStatement : ∀ (depth : Nat) (st : Statement α δ) (after : Block α δ),
    Looks depth (occursIn true isReturn st) →
    Computes (.exn .outOfFuel) (fun n => updateStatement n depth st after)
      (scanStatement depth st >>= fun _ => .ok ([st], after))
  | depth, .loop info body, after, h => by
    refine computes_succ rfl ?_
    have hbody := computes_visitBlock (depth + 1) body (fun h0 => absurd h0 (by omega))
    refine Computes.elim (F := fun n visited =>
      updateLoop (visitBlock n) (visitStatement n) visited depth info body after) hbody (fun _ => rfl) ?_
    rw [scanStatement]
    match hscan : scan (depth + 1) body with
    | .ok _ => exact computes_const _
    | .error (.foundStatement st) => exact absurd hscan (not_found_of_looks h)
    | .error (.exn e) => exact computes_const _
  | depth, .ret info, after, h => by
    refine computes_update _ (computes_jump fun n => ?_) (by simp) after
    rw [visitStatement, scanStatement]
    cases depth with
    | zero => rfl
    | succ depth =>
      cases depth with
      | zero => rfl
      | succ depth => rfl
  | depth, .basic _ _, after, _
  | depth, .abort _ _, after, _ => computes_update (.ok ()) (computes_jump fun _ => rfl) (by simp) after
  | depth, .unwindResume _, after, _ =>
    computes_update (.ok ()) (computes_jump fun _ => rfl) (by simp) after
  | depth, .brk _ i, after, _
  | depth, .cont _ i, after, _ => computes_update _ (computes_jump fun _ => rfl) (by simp) after
  | depth, .switch info data branches, after, h => by
    refine computes_update _ (computes_succ (by simp [visitStatement]) ?_) (by simp) after
    have hbs := computes_visitBlocks depth branches h
    have hres : (scanStatement depth (.switch info data branches) >>= fun _ =>
        .ok (Statement.switch info data branches)) = (scanBlocks depth branches >>= fun _ => .ok branches) >>=
        fun bs => .ok (Statement.switch info data bs) := by rw [bind_ok_bind, scanStatement]
    rw [hres]
    exact hbs.bind fun _ _ => computes_const _

theorem computes_visitBlocks : ∀ (depth : Nat) (bs : List (Block α δ)),
    Looks depth (occursInBlocks true isReturn bs) →
    Computes (.exn .outOfFuel) (fun n => bs.mapM (visitBlock n depth)) (scanBlocks depth bs >>= fun _ => .ok bs)
  | depth, [], _ => computes_const _
  | depth, b :: bs, h => by
    simp only [List.mapM_cons]
    have hres : (scanBlocks depth (b :: bs) >>= fun _ => .ok (b :: bs)) =
        (scan depth b >>= fun _ => .ok b) >>= fun b' =>
          (scanBlocks depth bs >>= fun _ => .ok bs) >>= fun bs' => .ok (b' :: bs') := by
      rw [scanBlocks, bind_ok_bind, bind_ok_bind]
      cases scan depth b <;> rfl
    rw [hres]
    refine (computes_visitBlock depth b h.left).bind fun b' _ => ?_
    exact (computes_visitBlocks depth bs h.right).bind fun _ _ => computes_const _

end

/-! ## The first transformation -/

mutual

/-- The inner loops of a loop are passed to the visitor as if they were not in one. -/
def scanLoops : Block α δ → Except (Raised α δ) Unit
  | [] => .ok ()
  | st :: ls => do
    scanLoopsOf st
    scanLoops ls

def scanLoopsOf : Statement α δ → Except (Raised α δ) Unit
  | .switch _ _ branches => scanLoopsOfBlocks branches
  | .loop _ body => scan 1 body
  | _ => .ok ()

def scanLoopsOfBlocks : List (Block α δ) → Except (Raised α δ) Unit
  | [] => .ok ()
  | b :: bs => do
    scanLoops b
    scanLoopsOfBlocks bs

end

mutual

theorem scanLoops_scanned : ∀ ls : Block α δ,
    Scanned 1 true (inLoops isReturn ls) (inLoops isFarJump ls) (scanLoops ls)
  | [] => scanned_nothing 1 _
  | st :: ls => (scanLoopsOf_scanned st).bind (scanLoops_scanned ls)

theorem scanLoopsOf_scanned : ∀ st : Statement α δ,
    Scanned 1 true (inLoopsOf isReturn st) (inLoopsOf isFarJump st) (scanLoopsOf st)
  | .switch _ _ branches => scanLoopsOfBlocks_scanned branches
  | .loop _ body => by
    have h := scan_scanned 1 body
    rw [scanLoopsOf]
    match scan 1 body, h with
    | .ok _, h => exact h
    | .error (.foundStatement _), ⟨h, hst, hany, _⟩ => exact ⟨h, hst, hany, fun _ => rfl⟩
    | .error (.exn _), h => exact h
  | .basic _ _ | .abort _ _ | .ret _ | .unwindResume _ | .brk _ _ | .cont _ _ => scanned_nothing 1 _

theorem scanLoopsOfBlocks_scanned : ∀ bs : List (Block α δ),
    Scanned 1 true (inLoopsOfBlocks isReturn bs) (inLoopsOfBlocks isFarJump bs)
      (scanLoopsOfBlocks bs)
  | [] => scanned_nothing 1 _
  | b :: bs => (scanLoops_scanned b).bind (scanLoopsOfBlocks_scanned bs)

end

mutual

def replaced (after : Block α δ) : Block α δ → Block α δ
  | [] => []
  | st :: ls => replacedStatement after st ++ replaced after ls

def replacedStatement (after : Block α δ) : Statement α δ → Block α δ
  | .ret info => [.brk info 0]
  | .brk _ _ => after
  | .switch info data branches => [.switch info data (replacedBlocks after branches)]
  | st => [st]

def replacedBlocks (after : Block α δ) : List (Block α δ) → List (Block α δ)
  | [] => []
  | b :: bs => replaced after b :: replacedBlocks after bs

end

mutual

theorem computes_blockReplace : ∀ ls : Block α δ, occurs true isBreak ls = false →
    Computes (.exn .outOfFuel) (fun n => blockReplace (visitBlock n) 0 ls)
      (scanLoops ls >>= fun _ => .ok (replaced [] ls))
  | [], _ => computes_const _
  | st :: ls, h => by
    obtain ⟨hst, hls⟩ := Bool.or_eq_false_iff.mp h
    obtain ⟨st', hst', hcst⟩ := computes_statementReplace st hst
    have hcls := computes_blockReplace ls hls
    have hres : (scanLoops (st :: ls) >>= fun _ => .ok (replaced [] (st :: ls))) =
        (scanLoopsOf st >>= fun _ => .ok st') >>= fun st₂ =>
          (scanLoops ls >>= fun _ => .ok (replaced [] ls)) >>= fun ls₂ => .ok (st₂ :: ls₂) := by
      rw [scanLoops, bind_ok_bind, bind_ok_bind, replaced, hst']
      cases scanLoopsOf st <;> rfl
    rw [hres]
    exact hcst.bind fun _ _ => hcls.bind fun _ _ => computes_const _

theorem computes_statementReplace : ∀ st : Statement α δ, occursIn true isBreak st = false →
    ∃ st', replacedStatement [] st = [st'] ∧ Computes (.exn .outOfFuel)
      (fun n => statementReplace (visitBlock n) 0 st) (scanLoopsOf st >>= fun _ => .ok st')
  | .switch info data branches, h => by
    have hcbs := computes_blocksReplace branches h
    refine ⟨_, rfl, ?_⟩
    rw [scanLoopsOf, ← bind_ok_bind _ (replacedBlocks [] branches) fun bs => .ok (Statement.switch info data bs)]
    exact hcbs.bind fun _ _ => computes_const _
  | .loop info body, _ => by
    have hbody := computes_visitBlock 1 body fun h0 => absurd h0 (by omega)
    refine ⟨_, rfl, ?_⟩
    rw [scanLoopsOf, ← bind_ok_bind _ body fun body' => .ok (Statement.loop info body')]
    exact hbody.bind fun _ _ => computes_const _
  | .ret info, _ => ⟨.brk info 0, rfl, computes_const _⟩
  | .brk _ _, h => by cases h
  | .basic info b, _ => ⟨.basic info b, rfl, computes_const _⟩
  | .abort info args, _ => ⟨.abort info args, rfl, computes_const _⟩
  | .unwindResume info, _ => ⟨.unwindResume info, rfl, computes_const _⟩
  | .cont info i, _ => ⟨.cont info i, rfl, computes_const _⟩

theorem computes_blocksReplace : ∀ bs : List (Block α δ), occursInBlocks true isBreak bs = false →
    Computes (.exn .outOfFuel) (fun n => blocksReplace (visitBlock n) 0 bs)
      (scanLoopsOfBlocks bs >>= fun _ => .ok (replacedBlocks [] bs))
  | [], _ => computes_const _
  | b :: bs, h => by
    obtain ⟨hb, hbs⟩ := Bool.or_eq_false_iff.mp h
    have hcb := computes_blockReplace b hb
    have hcbs := computes_blocksReplace bs hbs
    have hres : (scanLoopsOfBlocks (b :: bs) >>= fun _ => .ok (replacedBlocks [] (b :: bs))) =
        (scanLoops b >>= fun _ => .ok (replaced [] b)) >>= fun b₂ =>
          (scanLoopsOfBlocks bs >>= fun _ => .ok (replacedBlocks [] bs)) >>= fun bs₂ => .ok (b₂ :: bs₂) := by
      rw [scanLoopsOfBlocks, bind_ok_bind, bind_ok_bind, replacedBlocks]
      cases scanLoops b <;> rfl
    rw [hres]
    exact hcb.bind fun _ _ => hcbs.bind fun _ _ => computes_const _

end

/-! ## The other transformations -/

variable {x : Except (Raised α δ) β}

theorem eq_error_of_bind {f : β → γ} {e : Raised α δ}
    (h : (x >>= fun a => .ok (f a)) = .error e) : x = .error e := by
  cases x with
  | ok a => cases h
  | error e' =>
    cases h
    rfl

theorem decomposeAfter_error {e : Raised α δ} (h : decomposeAfter ls = .error e) :
    e = .exn (.failure earlyReturnsUnsupported) := by
  induction ls with
  | nil =>
    cases h
    rfl
  | cons st ls ih =>
    cases st with
    | ret | abort => cases h
    | _ => exact ih (eq_error_of_bind h)

/-- The replacement fails on a break to an outer loop, and otherwise it is a substitution. -/
def Replaces {β : Type} (far : Bool) (r : β) (x : Except (Raised α δ) β) : Prop :=
  (x = .ok r ∧ far = false) ∨ x = .error (.exn (.failure breaksUnsupported))

theorem Replaces.bind {f₁ f₂ : Bool} {r : β}
    {f : β → Except (Raised α δ) γ} {r' : γ} (hx : Replaces f₁ r x) (hf : Replaces f₂ r' (f r)) :
    Replaces (f₁ || f₂) r' (x >>= f) := by
  rcases hx with ⟨rfl, rfl⟩ | rfl
  · exact hf
  · exact .inr rfl

theorem Replaces.map {far : Bool} {r : β} {f : β → γ}
    (hx : Replaces far r x) : Replaces far (f r) (x >>= fun a => .ok (f a)) := by
  rcases hx with ⟨rfl, rfl⟩ | rfl
  · exact .inl ⟨rfl, rfl⟩
  · exact .inr rfl

def isFarBreak : Statement α δ → Bool
  | .brk _ i => i ≠ 0
  | _ => false

mutual

theorem replaceBlock_replaces (after : Block α δ) : ∀ ls : Block α δ,
    Replaces (occurs false isFarBreak ls) (replaced after ls) (replaceBlock after ls)
  | [] => .inl ⟨rfl, rfl⟩
  | st :: ls => by
    have hst := replaceStatement_replaces after st
    have hls := (replaceBlock_replaces after ls).map (f := fun ls' => replacedStatement after st ++ ls')
    have hblock := hst.bind (f := fun ls0 => replaceBlock after ls >>= fun ls' => .ok (ls0 ++ ls')) hls
    rw [bind_assoc] at hblock
    exact hblock

theorem replaceStatement_replaces (after : Block α δ) : ∀ st : Statement α δ,
    Replaces (occursIn false isFarBreak st) (replacedStatement after st) (replaceStatement after st >>= replace after)
  | .switch info data branches => by
    have hbs := (replaceBlocks_replaces after branches).map (f := fun bs => [Statement.switch info data bs])
    have hst : (replaceStatement after (.switch info data branches) >>= replace after) =
        replaceBlocks after branches >>= fun bs => .ok [.switch info data bs] := by
      rw [replaceStatement]
      cases replaceBlocks after branches <;> rfl
    rw [hst]
    exact hbs
  | .brk info 0 => .inl ⟨rfl, rfl⟩
  | .brk info (i + 1) => .inr rfl
  | .ret info | .basic info b | .abort info args | .unwindResume info | .cont info i
  | .loop info body => .inl ⟨rfl, rfl⟩

theorem replaceBlocks_replaces (after : Block α δ) : ∀ bs : List (Block α δ),
    Replaces (occursInBlocks false isFarBreak bs) (replacedBlocks after bs) (replaceBlocks after bs)
  | [] => .inl ⟨rfl, rfl⟩
  | b :: bs => (replaceBlock_replaces after b).bind (replaceBlocks_replaces after bs).map

end

mutual

theorem occurs_replaced (after : Block α δ) : ∀ ls : Block α δ,
    occurs true isReturn (replaced after ls) = (inLoops isReturn ls ||
      (occurs false isBreak ls && occurs true isReturn after))
  | [] => rfl
  | st :: ls => by
    rw [replaced, occurs_append, occursIn_replaced after st, occurs_replaced after ls, inLoops, occurs]
    grind

theorem occursIn_replaced (after : Block α δ) : ∀ st : Statement α δ,
    occurs true isReturn (replacedStatement after st) = (inLoopsOf isReturn st ||
      (occursIn false isBreak st && occurs true isReturn after))
  | .switch _ _ branches => by
    simp [replacedStatement, occurs, occursIn, inLoopsOf, occursInBlocks_replaced after branches]
  | .brk _ _ => by simp [replacedStatement, occursIn, inLoopsOf, isBreak]
  | .loop _ _ => by simp [replacedStatement, occurs, occursIn, inLoopsOf]
  | .ret _ | .basic _ _ | .abort _ _ | .unwindResume _ | .cont _ _ => rfl

theorem occursInBlocks_replaced (after : Block α δ) : ∀ bs : List (Block α δ),
    occursInBlocks true isReturn (replacedBlocks after bs) = (inLoopsOfBlocks isReturn bs ||
      (occursInBlocks false isBreak bs && occurs true isReturn after))
  | [] => rfl
  | b :: bs => by
    rw [replacedBlocks, occursInBlocks, occurs_replaced after b, occursInBlocks_replaced after bs, inLoopsOfBlocks,
      occursInBlocks]
    grind

end

theorem occurs_replaced_nil {body : Block α δ} (h : scanLoops body = .ok ()) :
    occurs true isReturn (replaced [] body) = false := by
  have hscanned := scanLoops_scanned body
  rw [h] at hscanned
  rw [occurs_replaced, hscanned.1 (by omega), occurs, Bool.and_false, Bool.or_false]

end Aeneas.UpdateLoops
