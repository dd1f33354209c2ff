import Mathlib.Data.List.Basic

/-!
# The result monad of the Isabelle prelude

A computation returns, fails, or diverges; `diverge` is the bottom element of
the flat order in which the recursive functions are least fixed points.
-/

namespace Aeneas

inductive Error where
  | failure | outOfFuel
deriving DecidableEq

inductive Result (α : Type) where
  | ok (x : α)
  | fail (e : Error)
  | diverge
deriving DecidableEq

namespace Result
variable {α β : Type}

def bind : Result α → (α → Result β) → Result β
  | .fail e, _ => .fail e
  | .ok x, f => f x
  | .diverge, _ => .diverge

instance : Monad Result where
  pure := .ok
  bind := bind

@[simp] theorem pure_eq (x : α) : (pure x : Result α) = .ok x := rfl

@[simp] theorem bind_ok (x : α) (f : α → Result β) : (Result.ok x >>= f) = f x := rfl

@[simp] theorem bind_fail (e : Error) (f : α → Result β) : (Result.fail e >>= f) = .fail e := rfl

@[simp] theorem bind_diverge (f : α → Result β) : (Result.diverge >>= f) = .diverge := rfl

theorem bind_eq_ok {x : Result α} {f : α → Result β} {b : β} :
    (x >>= f) = .ok b ↔ ∃ a, x = .ok a ∧ f a = .ok b := by
  cases x <;> simp

instance : LawfulMonad Result := LawfulMonad.mk' Result
  (fun x => by cases x <;> rfl) (fun _ _ => rfl) (fun x _ _ => by cases x <;> rfl)

end Result

end Aeneas
