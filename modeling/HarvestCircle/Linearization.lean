import Mathlib.Data.List.Basic

/-! # One object and many callers

Calls to an object are numbered in the order in which they are made, so a call that has returned
has a smaller number than all that are made afterwards: a history in the order of the numbers
keeps the order of calls in real time.
-/
namespace Linearization
variable {σ α ρ : Type}

/-- The answers to the operations in turn, and the state they leave. -/
def run (step : α → σ → ρ × σ) : List α → σ → List ρ × σ
  | [], s => ([], s)
  | a :: rest, s =>
    let (answer, s') := step a s
    let (answers, last) := run step rest s'
    (answer :: answers, last)

variable {step : α → σ → ρ × σ}

theorem run_concat (l : List α) (a : α) (s : σ) :
    run step (l ++ [a]) s = ((run step l s).1 ++ [(step a (run step l s).2).1],
      (step a (run step l s).2).2) := by
  induction l generalizing s with
  | nil => rfl
  | cons b rest ih => simp [run, ih]

/-- The calls of a history were answered as if they had been made one after the other, and
whatever was returned to a caller is the answer to their call. -/
structure Linearizes (step : α → σ → ρ × σ) (initial : σ) (asked : Nat → α)
    (returned : Nat → ρ → Prop) (history : List (Nat × ρ)) : Prop where
  ordered : (history.map Prod.fst).Pairwise (· < ·)
  answers : (run step (history.map fun entry => asked entry.1) initial).1 = history.map Prod.snd
  completed : ∀ call answer, returned call answer → (call, answer) ∈ history

end Linearization
