import Aeneas.LlbcAst

/-!
# Removing the useless joins

The code that follows a switch is moved into its branches, if it is short enough
to be copied. The statements to inline are passed down into nested blocks, and
a block says whether what follows the switch before it may be moved.
-/

namespace Aeneas.RemoveUselessJoins

open LlbcAst

variable {α δ : Type}

/-- Some assignments are inlined, otherwise the pass would be too restrictive. -/
def inlined : RvalueKind → Bool
  | .use | .rvRef | .rawPtr | .nullaryOp | .aggregate => true
  | .binaryOp | .unaryOp | .discriminant | .len | .repeated => false

def updateBasic (canInline : Bool) : BasicKind → Except Exn Bool
  | .nop | .storageLive | .storageDead | .placeMention | .borrowck | .drop => .ok canInline
  | .assign rv => .ok (inlined rv && canInline)
  | .setDiscriminant | .assertion | .call => .ok false
  | .other shown => craise ("unsupported statement: " ++ shown)

mutual

def updateStatements (toInline : Block α δ) : Block α δ → Except Exn (Bool × Block α δ)
  | [] => .ok (true, toInline)
  | st :: ls => do
    let (canInline, ls) ← updateStatements toInline ls
    updateStatement canInline ls st

def updateStatement (canInline : Bool) (ls : Block α δ) : Statement α δ → Except Exn (Bool × Block α δ)
  | .basic info b => do return (← updateBasic canInline b.kind, .basic info b :: ls)
  | .abort info args => .ok (true, [.abort info args])
  | .ret info => .ok (true, [.ret info])
  | .unwindResume info => .ok (true, [.unwindResume info])
  | .brk info i => .ok (true, [.brk info i])
  | .cont info i => .ok (true, [.cont info i])
  | .switch info data branches => do
    let (toInline, ls) := if canInline then (ls, []) else ([], ls)
    return (false, .switch info data (← updateBlocks toInline branches) :: ls)
  | .loop info body => do
    let (_, body) ← updateStatements [] body
    return (false, .loop info body :: ls)

def updateBlocks (toInline : Block α δ) : List (Block α δ) → Except Exn (List (Block α δ))
  | [] => .ok []
  | b :: bs => do
    let (_, b) ← updateStatements toInline b
    return b :: (← updateBlocks toInline bs)

end

def removeUselessJoins : Body α δ → Except Exn (Body α δ) :=
  Body.update fun body => do return (← updateStatements [] body).2

/-! ## The bodies on which the pass returns -/

mutual

def supported : Block α δ → Bool
  | [] => true
  | st :: ls => supportedStatement st && supported ls

def supportedStatement : Statement α δ → Bool
  | .basic _ ⟨.other _, _⟩ => false
  | .switch _ _ branches => supportedBlocks branches
  | .loop _ body => supported body
  | _ => true

def supportedBlocks : List (Block α δ) → Bool
  | [] => true
  | b :: bs => supported b && supportedBlocks bs

end

/-- The pass returns if and only if it supports the statements, and says so otherwise. -/
def Decided {β : Type} (ok : Bool) (r : Except Exn β) : Prop :=
  match ok with
  | true => ∃ x, r = .ok x
  | false => ∃ shown, r = craise ("unsupported statement: " ++ shown)

theorem Decided.bind {β γ : Type} {a b : Bool} {r : Except Exn β} {k : β → Except Exn γ} (hr : Decided a r)
    (hk : ∀ x, r = .ok x → Decided b (k x)) : Decided (a && b) (r >>= k) := by
  cases a with
  | false =>
    obtain ⟨shown, rfl⟩ := hr
    exact ⟨shown, rfl⟩
  | true =>
    obtain ⟨x, rfl⟩ := hr
    exact hk x rfl

theorem decided_ok {β : Type} (x : β) : Decided true (.ok x : Except Exn β) := ⟨x, rfl⟩

theorem decided_updateBasic (canInline : Bool) (b : Basic α) (info : Info) :
    Decided (supportedStatement (.basic info b : Statement α δ)) (updateBasic canInline b.kind) := by
  obtain ⟨kind, args⟩ := b
  cases kind with
  | other shown => exact ⟨shown, rfl⟩
  | _ => exact decided_ok _

mutual

theorem decided_updateStatements (toInline : Block α δ) : ∀ ls : Block α δ,
    Decided (supported ls) (updateStatements toInline ls)
  | [] => decided_ok _
  | st :: ls => by
    rw [supported, updateStatements, Bool.and_comm]
    exact (decided_updateStatements toInline ls).bind fun r _ => decided_updateStatement r.1 r.2 st

theorem decided_updateStatement (canInline : Bool) (ls : Block α δ) : ∀ st : Statement α δ,
    Decided (supportedStatement st) (updateStatement canInline ls st)
  | .basic info b => by
    rw [updateStatement, ← Bool.and_true (supportedStatement _)]
    exact (decided_updateBasic canInline b info).bind fun c _ => decided_ok _
  | .abort _ _ | .ret _ | .unwindResume _ | .brk _ _ | .cont _ _ => decided_ok _
  | .switch info data branches => by
    rw [updateStatement, supportedStatement, ← Bool.and_true (supportedBlocks _)]
    exact (decided_updateBlocks _ branches).bind fun bs _ => decided_ok _
  | .loop info body => by
    rw [updateStatement, supportedStatement, ← Bool.and_true (supported _)]
    exact (decided_updateStatements [] body).bind fun r _ => decided_ok _

theorem decided_updateBlocks (toInline : Block α δ) : ∀ bs : List (Block α δ),
    Decided (supportedBlocks bs) (updateBlocks toInline bs)
  | [] => decided_ok _
  | b :: bs => by
    rw [supportedBlocks, updateBlocks]
    refine (decided_updateStatements toInline b).bind fun r _ => ?_
    rw [← Bool.and_true (supportedBlocks _)]
    exact (decided_updateBlocks toInline bs).bind fun bs' _ => decided_ok _

end

/-! ## The pass keeps the meaning -/

section
variable {S : Type} {I : Interp α δ S}

mutual

theorem updateStatements_same (toInline : Block α δ) : ∀ (ls : Block α δ) {c : Bool} {ls' : Block α δ},
    updateStatements toInline ls = .ok (c, ls') → Same I (ls ++ toInline) ls'
  | [], c, ls', h => by
    cases h
    exact same_refl _
  | st :: ls, c, ls', h => by
    rw [updateStatements, bind_eq_ok] at h
    obtain ⟨⟨canInline, rest⟩, hrest, hst⟩ := h
    have hls : Same I (ls ++ toInline) rest := updateStatements_same toInline ls hrest
    exact (Same.cons (same_refl [st]) hls).trans (updateStatement_same canInline rest st hst)

theorem updateStatement_same (canInline : Bool) (ls : Block α δ) : ∀ (st : Statement α δ) {c : Bool}
    {ls' : Block α δ}, updateStatement canInline ls st = .ok (c, ls') → Same I (st :: ls) ls'
  | .basic info b, c, ls', h => by
    rw [updateStatement, bind_eq_ok] at h
    obtain ⟨_, _, h⟩ := h
    cases h
    exact same_refl _
  | .abort info args, c, ls', h | .ret info, c, ls', h | .unwindResume info, c, ls', h | .brk info i, c, ls', h
  | .cont info i, c, ls', h => by
    cases h
    exact same_dead _ _ fun s t hrun => by cases hrun
  | .switch info data branches, c, ls', h => by
    cases canInline with
    | true =>
      -- what follows goes into the branches, nothing stays behind
      simp only [updateStatement, ↓reduceIte, bind_eq_ok] at h
      obtain ⟨bs, hbs, h⟩ := h
      cases h
      exact (same_switch_append info data branches ls).trans (Same.switch (updateBlocks_same ls branches hbs))
    | false =>
      simp only [updateStatement, Bool.false_eq_true, ↓reduceIte, bind_eq_ok] at h
      obtain ⟨bs, hbs, h⟩ := h
      cases h
      have hbranches := updateBlocks_same [] branches hbs
      simp only [List.append_nil, List.map_id'] at hbranches
      exact Same.cons (Same.switch hbranches) (same_refl ls)
  | .loop info body, c, ls', h => by
    rw [updateStatement, bind_eq_ok] at h
    obtain ⟨⟨_, body'⟩, hbody, h⟩ := h
    cases h
    have hsame := updateStatements_same [] body hbody
    rw [List.append_nil] at hsame
    exact Same.cons (Same.loop hsame) (same_refl ls)

theorem updateBlocks_same (toInline : Block α δ) : ∀ (bs : List (Block α δ)) {bs' : List (Block α δ)},
    updateBlocks toInline bs = .ok bs' → List.Forall₂ (Same I) (bs.map (· ++ toInline)) bs'
  | [], bs', h => by
    cases h
    exact .nil
  | b :: bs, bs', h => by
    rw [updateBlocks, bind_eq_ok] at h
    obtain ⟨⟨_, b'⟩, hb, h⟩ := h
    obtain ⟨bs'', hbs, h⟩ := bind_eq_ok.mp h
    cases h
    exact .cons (updateStatements_same toInline b hb) (updateBlocks_same toInline bs hbs)

end

end

/-- The body that the pass returns has the runs of the one it is given, under
every interpretation. The pass only fails on the statements that it does not know. -/
theorem removeUselessJoins_same (body : Block α δ) :
    (∃ body', removeUselessJoins (.structuredBody body) = .ok (.structuredBody body') ∧
      ∀ (S : Type) (I : Interp α δ S), Same I body body') ∨
    (supported body = false ∧
      ∃ shown, removeUselessJoins (.structuredBody body) = craise ("unsupported statement: " ++ shown)) := by
  have hdecided := decided_updateStatements [] body
  cases hs : supported body with
  | true =>
    rw [hs] at hdecided
    obtain ⟨⟨c, body'⟩, h⟩ := hdecided
    refine .inl ⟨body', ?_, ?_⟩
    · simp [removeUselessJoins, Body.update, h]
    · intro S I
      have hsame := updateStatements_same (I := I) [] body h
      rwa [List.append_nil] at hsame
  | false =>
    rw [hs] at hdecided
    obtain ⟨shown, h⟩ := hdecided
    refine .inr ⟨rfl, shown, ?_⟩
    simp [removeUselessJoins, Body.update, h, craise]

end Aeneas.RemoveUselessJoins
