import Aeneas.LlbcAst

/-!
# Updating the loops

The symbolic execution wants loops without returns, whose breaks and continues
belong to the innermost loop. A loop in which a return is found is rewritten: the
returns become breaks, and the code that follows the loop is moved into the
breaks it had before. The rewritten loop is visited again, so the visitor is a
recursion whose depth is bounded here.
-/

namespace Aeneas.UpdateLoops

open LlbcAst

variable {α δ : Type}

/-- The visitor raises the return it found in a loop, and errors. -/
inductive Raised (α δ : Type) where
  | foundStatement (st : Statement α δ)
  | exn (e : Exn)

def cassert (b : Bool) (message : String) : Except (Raised α δ) Unit :=
  if b then .ok () else .error (.exn (.failure message))

def breaksUnsupported : String := "Breaks to outer loops are not supported yet"

def continueUnsupported : String := "Continue to outer loops are not supported yet"

def nestedReturnsUnsupported : String := "Returns inside of nested loops are not supported yet"

def earlyReturnsUnsupported : String := "Early returns inside of loops are not supported yet"

/-! ## The rewritten loop -/

def blockHasNoBreaks (b : Block α δ) : Bool := !occurs true Statement.isBreak b

section
-- the visitor of the whole pass, which the inner loops are passed to
variable (visitBlock : Nat → Block α δ → Except (Raised α δ) (Block α δ))

mutual

def blockReplace (i : Nat) : Block α δ → Except (Raised α δ) (Block α δ)
  | [] => .ok []
  | st :: ls => do
    let st ← statementReplace i st
    return st :: (← blockReplace i ls)

def statementReplace (i : Nat) : Statement α δ → Except (Raised α δ) (Statement α δ)
  | .ret info => do
    cassert (i = 0) "Internal error, please file an issue"
    return .brk info i
  | .switch info data branches => do return .switch info data (← blocksReplace i branches)
  | .loop info body => do return .loop info (← visitBlock (i + 1) body)
  | st => .ok st

def blocksReplace (i : Nat) : List (Block α δ) → Except (Raised α δ) (List (Block α δ))
  | [] => .ok []
  | b :: bs => do
    let b ← blockReplace i b
    return b :: (← blocksReplace i bs)

end

end

/-- The statements with which to replace the breaks: those after the loop, up to a return or a panic. -/
def decomposeAfter : Block α δ → Except (Raised α δ) (Block α δ)
  | [] => .error (.exn (.failure earlyReturnsUnsupported))
  | .ret info :: _ => .ok [.brk info 0]
  | .abort info args :: _ => .ok [.abort info args]
  | st :: after => do return st :: (← decomposeAfter after)

def replace (after : Block α δ) : Statement α δ → Except (Raised α δ) (Block α δ)
  | .ret info => .ok [.brk info 0]
  | .brk _ i => do
    cassert (i = 0) breaksUnsupported
    return after
  | st => .ok [st]

mutual

def replaceBlock (after : Block α δ) : Block α δ → Except (Raised α δ) (Block α δ)
  | [] => .ok []
  | st :: ls => do
    let st ← replaceStatement after st
    let ls0 ← replace after st
    return ls0 ++ (← replaceBlock after ls)

def replaceStatement (after : Block α δ) : Statement α δ → Except (Raised α δ) (Statement α δ)
  | .switch info data branches => do return .switch info data (← replaceBlocks after branches)
  | st => .ok st

def replaceBlocks (after : Block α δ) : List (Block α δ) → Except (Raised α δ) (List (Block α δ))
  | [] => .ok []
  | b :: bs => do
    let b ← replaceBlock after b
    return b :: (← replaceBlocks after bs)

end

/-! ## The visitor -/

def returnAfter (info : Info) : Statement α δ := .ret ⟨info.span, 0, []⟩

section
variable (visitBlock : Nat → Block α δ → Except (Raised α δ) (Block α δ))
  (visitStatement : Nat → Statement α δ → Except (Raised α δ) (Statement α δ))

/-- A return was found in the loop. The rewritten loop is visited at the depth of the loop itself. -/
def rewriteLoop (depth : Nat) (info : Info) (body after : Block α δ) (returnSt : Statement α δ) :
    Except (Raised α δ) (Block α δ × Block α δ) :=
  if blockHasNoBreaks body then do
    let body ← blockReplace visitBlock 0 body
    let loop ← visitStatement depth (.loop info body)
    return ([loop, returnAfter info], after)
  else do
    let after ← decomposeAfter after
    let body ← replaceBlock after body
    let loop ← visitStatement depth (.loop info body)
    return ([loop, returnSt], [])

def updateLoop (visited : Except (Raised α δ) (Block α δ)) (depth : Nat) (info : Info) (body after : Block α δ) :
    Except (Raised α δ) (Block α δ × Block α δ) :=
  match visited with
  | .ok body => .ok ([.loop info body], after)
  | .error (.foundStatement returnSt) => rewriteLoop visitBlock visitStatement depth info body after returnSt
  | .error e => .error e

end

mutual

def visitBlock : Nat → Nat → Block α δ → Except (Raised α δ) (Block α δ)
  | 0, _, _ => .error (.exn .outOfFuel)
  | _ + 1, _, [] => .ok []
  | n + 1, depth, st :: ls => do
    let (ls0, ls1) ← updateStatement n depth st ls
    return ls0 ++ (← visitBlock n depth ls1)

/-- The statements that replace the first one, and those that are yet to be updated. -/
def updateStatement : Nat → Nat → Statement α δ → Block α δ → Except (Raised α δ) (Block α δ × Block α δ)
  | 0, _, _, _ => .error (.exn .outOfFuel)
  | n + 1, depth, .loop info body, after =>
    updateLoop (visitBlock n) (visitStatement n) (visitBlock n (depth + 1) body) depth info body after
  | n + 1, depth, st, after => do return ([← visitStatement n depth st], after)

def visitStatement : Nat → Nat → Statement α δ → Except (Raised α δ) (Statement α δ)
  | 0, _, _ => .error (.exn .outOfFuel)
  | _ + 1, depth, .ret info => do
    cassert (depth ≤ 1) nestedReturnsUnsupported
    if depth = 1 then .error (.foundStatement (.ret info)) else .ok (.ret info)
  | _ + 1, _, .brk info i => do
    cassert (i = 0) breaksUnsupported
    return .brk info i
  | _ + 1, _, .cont info i => do
    cassert (i = 0) continueUnsupported
    return .cont info i
  | n + 1, depth, .switch info data branches => do
    return .switch info data (← branches.mapM (visitBlock n depth))
  -- only the rewritten loops come here
  | n + 1, depth, .loop info body => do return .loop info (← visitBlock n depth body)
  | _ + 1, _, st => .ok st

end

def updateLoops (n : Nat) : Body α δ → Except (Raised α δ) (Body α δ) := Body.update (visitBlock n 0)

/-- The errors of a pass are caught, and the body is replaced. What else the pass raises escapes, as do the
errors with `-abort-on-error`, which are not of the exception that is caught. -/
def applyFunctionPass (failHard : Bool) (span : Nat) (pass : Body α δ → Except (Raised α δ) (Body α δ))
    (body : Body α δ) : Except (Raised α δ) (Body α δ) :=
  match pass body with
  | .error (.exn (.failure msg)) => if failHard then .error (.exn (.failure msg)) else .ok (.errorBody span msg)
  | r => r

end Aeneas.UpdateLoops
