import Psbc.Lib.Traced

/-!
# Pre- and postconditions of traced computations

The events of a `Traced` computation act on a state. `Triple P x Q E` says that from a state
with `P` the computation ends in one with `Q`, or fails in one with `E`; since a failure keeps
the events that were done, `E` is where the cleaning up of an exit shows. There is a rule for
each way to build a computation; the rule for sequences lets the second part assume that the
first one succeeded.
-/

namespace Contract

open Traced

variable {ε ev α σ : Type} (step : σ → ev → σ)

/-- The state after the events. -/
def replay (s : σ) (t : List ev) : σ := t.foldl step s

theorem replay_append (s : σ) (t t' : List ev) :
    replay step s (t ++ t') = replay step (replay step s t) t' := List.foldl_append

/-- From `P` to `Q`, or with an error to `E`. -/
def Triple (P : σ → Prop) (x : Traced ε ev Unit) (Q E : σ → Prop) : Prop :=
  ∀ s, P s → (x.result = .ok () → Q (replay step s x.trace)) ∧
    ∀ e, x.result = .error e → E (replay step s x.trace)

variable {step} {P P' Q Q' R E E' : σ → Prop} {x y : Traced ε ev Unit} {b : Bool}

theorem Triple.imp (h : Triple step P x Q E) (hP : ∀ s, P' s → P s) (hQ : ∀ s, Q s → Q' s)
    (hE : ∀ s, E s → E' s) : Triple step P' x Q' E' := fun s hs =>
  ⟨fun hok => hQ _ ((h s (hP s hs)).1 hok), fun e herr => hE _ ((h s (hP s hs)).2 e herr)⟩

theorem Triple.bind (hx : Triple step P x Q E)
    (hy : x.result = .ok () → Triple step Q y R E) :
    Triple step P (x >>= fun _ => y) R E := by
  intro s hs
  obtain ⟨hok, herr⟩ := hx s hs
  cases hres : x.result with
  | error e =>
    rw [trace_bind_of_error hres, result_bind, hres]
    exact ⟨fun h => (by cases h), fun _ _ => herr e hres⟩
  | ok u =>
    rw [trace_bind_of_ok hres, result_bind, hres, replay_append]
    exact hy hres _ (hok hres)

theorem Triple.of_ok (hok : x.result = .ok ()) (h : Triple step P x Q E) :
    Triple step P x Q E' := fun s hs =>
  ⟨(h s hs).1, fun e herr => by rw [hok] at herr; cases herr⟩

theorem triple_pure (h : ∀ s, P s → Q s) : Triple step P (pure () : Traced ε ev Unit) Q E :=
  fun s hs => ⟨fun _ => h s hs, fun _ herr => (by cases herr)⟩

theorem triple_acts {t : List ev} (h : ∀ s, P s → Q (replay step s t)) :
    Triple step P (acts t : Traced ε ev Unit) Q E :=
  fun s hs => ⟨fun _ => h s hs, fun _ herr => (by cases herr)⟩

theorem triple_exit {t : List ev} {e : ε} (h : ∀ s, P s → E (replay step s t)) :
    Triple step P (exitIf true t e) Q E :=
  fun s hs => ⟨fun hok => (by cases hok), fun _ _ => h s hs⟩

theorem triple_exitIf {t : List ev} {e : ε} (h : b = true → ∀ s, P s → E (replay step s t)) :
    Triple step P (exitIf b t e) P E := by
  cases b with
  | false => exact triple_pure fun _ hs => hs
  | true => exact triple_exit (h rfl)

theorem triple_onlyIf (htrue : b = true → Triple step P x Q E)
    (hfalse : b = false → ∀ s, P s → Q s) : Triple step P (onlyIf b x) Q E := by
  cases b with
  | false => exact triple_pure (hfalse rfl)
  | true => exact htrue rfl

/-- A loop keeps what each of its turns keeps. -/
theorem triple_each {f : α → Traced ε ev Unit} {l : List α}
    (h : ∀ a ∈ l, Triple step P (f a) P E) : Triple step P (each f l) P E := by
  induction l with
  | nil => exact triple_pure fun _ hs => hs
  | cons a l ih =>
    obtain ⟨ha, hl⟩ := List.forall_mem_cons.mp h
    exact ha.bind fun _ => ih hl

theorem replay_of_forall {t : List ev} (h : ∀ e ∈ t, ∀ s, step s e = s) (s : σ) :
    replay step s t = s := by
  induction t generalizing s with
  | nil => rfl
  | cons e t ih =>
    obtain ⟨he, ht⟩ := List.forall_mem_cons.mp h
    rw [replay, List.foldl_cons, he s]
    exact ih ht s

theorem triple_of_forall (h : ∀ e ∈ x.trace, ∀ s, step s e = s) : Triple step P x P P := by
  intro s hs
  rw [replay_of_forall h s]
  exact ⟨fun _ => hs, fun _ _ => hs⟩

/-! ## States that are known in part

What is known of a state can follow the events on its own, where they are known to apply. -/

theorem replay_of_foldlM {κ : Type} {know : κ → ev → Option κ} {Holds : κ → σ → Prop}
    (hstep : ∀ {k s e k'}, Holds k s → know k e = some k' → Holds k' (step s e))
    {t : List ev} {k k' : κ} {s : σ} (hk : Holds k s) (hrun : t.foldlM know k = some k') :
    Holds k' (replay step s t) := by
  induction t generalizing k s with
  | nil =>
    obtain rfl := Option.some.inj hrun
    exact hk
  | cons e t ih =>
    rw [List.foldlM_cons] at hrun
    obtain ⟨k₁, he, ht⟩ := Option.bind_eq_some_iff.mp hrun
    exact ih (hstep hk he) ht

end Contract
