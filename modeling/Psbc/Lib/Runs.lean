import Mathlib.Data.List.Infix
import Mathlib.Data.List.Induction

/-!
# Runs of a labelled step

A system moves by a step that a label picks and that need not apply. A run takes the steps of
a list of labels; what it reaches is what every invariant of the step says.
-/

namespace Runs

variable {σ ℓ : Type} (step : σ → ℓ → Option σ)

def run (s : σ) (labels : List ℓ) : Option σ := labels.foldlM step s

theorem run_concat (s : σ) (labels : List ℓ) (l : ℓ) :
    run step s (labels ++ [l]) = (run step s labels).bind (step · l) := by
  rw [run, List.foldlM_append]
  refine Option.bind_congr fun s' _ => ?_
  rw [List.foldlM_cons]
  exact Option.bind_fun_some (step s' l)

/-- The part of a run that goes through goes through. -/
theorem exists_run_of_part {s : σ} {labels part : List ℓ} (hrun : (run step s labels).isSome)
    (hpart : part <+: labels) : ∃ s', run step s part = some s' := by
  obtain ⟨rest, rfl⟩ := hpart
  rw [run, List.foldlM_append] at hrun
  cases hrun' : run step s part with
  | some s' => exact ⟨s', rfl⟩
  | none =>
    rw [run] at hrun'
    rw [hrun'] at hrun
    cases hrun

/-- Some run leads from `s` to `s'`. -/
def Reaches (s s' : σ) : Prop := ∃ labels, run step s labels = some s'

variable {step} {s s' s'' : σ} {l : ℓ}

theorem Reaches.next (h : Reaches step s s') (hstep : step s' l = some s'') :
    Reaches step s s'' := by
  obtain ⟨labels, hrun⟩ := h
  refine ⟨labels ++ [l], ?_⟩
  rw [run_concat, hrun]
  exact hstep

/-- What holds at the start and is kept by every step that is taken holds all along. -/
theorem Reaches.induct {P : σ → Prop} (hstart : P s)
    (hstep : ∀ {t l t'}, Reaches step s t → P t → step t l = some t' → P t')
    (h : Reaches step s s') : P s' := by
  obtain ⟨labels, hrun⟩ := h
  induction labels using List.reverseRecOn generalizing s' with
  | nil =>
    obtain rfl := Option.some.inj hrun
    exact hstart
  | append_singleton labels l ih =>
    rw [run_concat] at hrun
    obtain ⟨t, ht, hl⟩ := Option.bind_eq_some_iff.mp hrun
    exact hstep ⟨labels, ht⟩ (ih ht) hl

end Runs
