import Mathlib.Logic.Basic

/-!
# Runs that answer alike

Two machines take the same operations and answer each. A relation between their states that every
operation keeps, with equal answers, is kept by whole runs, with equal lists of answers. The
relation may depend on how many operations are still to come.
-/

namespace Simulation

variable {σ τ o r : Type}

/-- The state after the operations, and the answers. -/
def answers (step : σ → o → σ × r) : σ → List o → σ × List r
  | s, [] => (s, [])
  | s, op :: ops =>
    let next := step s op
    let rest := answers step next.1 ops
    (rest.1, next.2 :: rest.2)

theorem answers_eq {step : σ → o → σ × r} {step' : τ → o → τ × r} {R : Nat → σ → τ → Prop}
    (hstep : ∀ {n s t} (op : o), R (n + 1) s t →
      R n (step s op).1 (step' t op).1 ∧ (step s op).2 = (step' t op).2)
    {ops : List o} {s : σ} {t : τ} (h : R ops.length s t) :
    R 0 (answers step s ops).1 (answers step' t ops).1 ∧
      (answers step s ops).2 = (answers step' t ops).2 := by
  induction ops generalizing s t with
  | nil => exact ⟨h, rfl⟩
  | cons op ops ih =>
    obtain ⟨hnext, hanswer⟩ := hstep op h
    obtain ⟨hrest, hanswers⟩ := ih hnext
    exact ⟨hrest, congrArg₂ List.cons hanswer hanswers⟩

end Simulation
