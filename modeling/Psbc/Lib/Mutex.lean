import Mathlib.Logic.Basic

/-!
# Who is in the critical section

A lock has at most one owner. When a thread that is in the critical section always owns the
lock, no two threads are there; taking the lock while it is free, giving it back and moving
about without it keep that.
-/

namespace Mutex

variable {τ : Type} {owner : Option τ} {inside inside' : τ → Prop} {t u : τ}

/-- Whoever is inside owns the lock. -/
def Exclusive (owner : Option τ) (inside : τ → Prop) : Prop := ∀ t, inside t → owner = some t

namespace Exclusive

theorem eq (h : Exclusive owner inside) (ht : inside t) (hu : inside u) : t = u :=
  Option.some.inj ((h t ht).symm.trans (h u hu))

theorem keep (h : Exclusive owner inside) (hin : ∀ u, inside' u → inside u) :
    Exclusive owner inside' := fun u hu => h u (hin u hu)

/-- A thread takes the free lock and goes in. -/
theorem take (h : Exclusive none inside) (hin : ∀ u ≠ t, inside' u → inside u) :
    Exclusive (some t) inside' := by
  intro u hu
  by_cases hut : u = t
  · rw [hut]
  · exact nomatch h u (hin u hut hu)

/-- The thread inside leaves and gives the lock back. -/
theorem give (h : Exclusive owner inside) (ht : inside t) (hout : ¬ inside' t)
    (hin : ∀ u ≠ t, inside' u → inside u) : Exclusive none inside' := by
  intro u hu
  by_cases hut : u = t
  · exact absurd (hut ▸ hu) hout
  · exact absurd (h.eq (hin u hut hu) ht) hut

end Exclusive

end Mutex
