import Psbc.Lib.Atomic
import Mathlib.Algebra.BigOperators.Fin
import Mathlib.Algebra.Group.Pi.Basic

/-!
# Threads that only add

A thread of `Adds` reads only cells that no thread changes (`still`) and
otherwise adds to cells without using what it read. Such threads commute: every
interleaving ends where running them one after another ends
(`exec_isSeq_of_adds`).

A thread of `Owes` has settled on its result and only gives back what it still holds of
some cells, each at most once.
-/

namespace Atomic

variable {C V α : Type} [DecidableEq C] [AddCommMonoid V]

/-- The thread returns `a` and adds `δ` to the memory, whatever the other cells
than the `still` ones hold; `m` gives the values of the `still` cells. -/
inductive Adds (still : C → Prop) (m : C → V) : Prog C V α → α → (C → V) → Prop
  | ret (a : α) : Adds still m (.ret a) a 0
  | peek {c : C} {f : V → V} {k : V → Prog C V α} {a : α} {δ : C → V} (hc : still c)
      (hf : f (m c) = m c) (hk : Adds still m (k (m c)) a δ) : Adds still m (.rmw c f k) a δ
  | add {c : C} {f : V → V} {k : V → Prog C V α} {a : α} {δ : C → V} (v : V) (hc : ¬ still c)
      (hf : ∀ x, f x = x + v) (hk : ∀ x, Adds still m (k x) a δ) :
      Adds still m (.rmw c f k) a (Pi.single c v + δ)

variable {still : C → Prop} {m : C → V}

theorem update_add_single (mem : C → V) (c : C) (v : V) :
    Function.update mem c (mem c + v) = mem + Pi.single c v := by
  funext x
  by_cases h : x = c
  · subst h; simp
  · simp [h]

omit [AddCommMonoid V] in
theorem agree_update {mem : C → V} {c : C} (hc : ¬ still c) (hm : ∀ x, still x → mem x = m x)
    (v : V) (x : C) (hx : still x) : Function.update mem c v x = m x := by
  rw [Function.update_of_ne (by rintro rfl; exact hc hx), hm x hx]

theorem Adds.still_zero {p : Prog C V α} {a : α} {δ : C → V} (h : Adds still m p a δ) {x : C}
    (hx : still x) : δ x = 0 := by
  induction h with
  | ret a => rfl
  | peek _ _ _ ih => exact ih
  | @add c f k a δ v hc _ _ ih =>
    rw [Pi.add_apply, ih 0, Pi.single_eq_of_ne (by rintro rfl; exact hc hx), zero_add]

theorem Adds.run {p : Prog C V α} {a : α} {δ mem : C → V} (h : Adds still m p a δ)
    (hm : ∀ x, still x → mem x = m x) : p.run mem = (a, mem + δ) := by
  induction h generalizing mem with
  | ret a => simp
  | peek hc hf _ ih =>
    rw [Prog.run_rmw, hm _ hc, hf, ← hm _ hc, Function.update_eq_self, hm _ hc, ih hm]
  | add v hc hf _ ih =>
    rw [Prog.run_rmw, ih _ (agree_update hc hm _), hf, update_add_single, add_assoc]

theorem Adds.bind {β : Type} {p : Prog C V α} {g : α → Prog C V β} {a : α} {b : β} {δ ε : C → V}
    (hp : Adds still m p a δ) (hg : Adds still m (g a) b ε) :
    Adds still m (p.bind g) b (δ + ε) := by
  induction hp with
  | ret a => simpa using hg
  | peek hc hf _ ih => exact .peek hc hf (ih hg)
  | add v hc hf _ ih =>
    rw [add_assoc]
    exact .add v hc hf fun x => ih x hg

section Pool

variable {n : Nat} {out : Nat → α} {tot : Nat → C → V}

/-- The `still` cells hold what they held, and what is left to add, thread by
thread, makes up the whole. -/
def Pending (still : C → Prop) (m : C → V) (out : Nat → α) (tot : Nat → C → V)
    (s : Pool (Fin n) C V α) : Prop :=
  (∀ x, still x → s.mem x = m x) ∧ ∃ rem : Fin n → C → V,
    (∀ i : Fin n, Adds still m (s.progs i) (out i) (rem i)) ∧
      s.mem + ∑ i, rem i = m + ∑ i : Fin n, tot i

theorem Pending.step {s : Pool (Fin n) C V α} (h : Pending still m out tot s) (i : Fin n) :
    Pending still m out tot (s.step i) := by
  obtain ⟨hm, rem, hrem, hsum⟩ := h
  have hi := hrem i
  generalize hp : s.progs i = p, ha : out i = a, hδ : rem i = δ at hi
  cases hi with
  | ret a => rw [Pool.step_ret hp]; exact ⟨hm, rem, hrem, hsum⟩
  | @peek c f k a δ hc hf hk =>
    rw [Pool.step_rmw hp, hm _ hc, hf, ← hm _ hc, Function.update_eq_self, hm _ hc]
    refine ⟨hm, rem, fun j => ?_, hsum⟩
    by_cases hji : j = i
    · subst hji; rw [Pool.set_progs_self, ha, hδ]; exact hk
    · rw [Pool.set_progs_ne hji]; exact hrem j
  | @add c f k a δ v hc hf hk =>
    rw [Pool.step_rmw hp, hf, update_add_single]
    refine ⟨fun x hx => ?_, Function.update rem i δ, fun j => ?_, ?_⟩
    · rw [Pool.set_mem, ← update_add_single]; exact agree_update hc hm _ x hx
    · by_cases hji : j = i
      · subst hji; rw [Pool.set_progs_self, ha, Function.update_self]; exact hk _
      · rw [Pool.set_progs_ne hji, Function.update_of_ne hji]; exact hrem j
    · rw [Pool.set_mem, ← hsum, Finset.sum_update_of_mem (Finset.mem_univ i),
        ← Finset.add_sum_erase _ rem (Finset.mem_univ i), hδ, Finset.sdiff_singleton_eq_erase,
        add_assoc, add_assoc]

variable {p : Nat → Prog C V α}

theorem seqMem_of_adds (h : ∀ i < n, Adds still m (p i) (out i) (tot i)) :
    ∀ k ≤ n, (∀ x, still x → seqMem p m k x = m x) ∧
      seqMem p m k = m + ∑ i ∈ Finset.range k, tot i
  | 0, _ => ⟨fun _ _ => rfl, by simp [seqMem]⟩
  | k + 1, hk => by
    obtain ⟨hm, hsum⟩ := seqMem_of_adds h k (by omega)
    have hp := h k (by omega)
    simp only [seqMem, hp.run hm]
    refine ⟨fun x hx => ?_, ?_⟩
    · rw [Pi.add_apply, hp.still_zero hx, add_zero, hm x hx]
    · rw [hsum, Finset.sum_range_succ, add_assoc]

/-- **Threads that only add commute**: every interleaving of them ends as running
them one after another does. -/
theorem exec_isSeq_of_adds (h : ∀ i < n, Adds still m (p i) (out i) (tot i))
    (sched : List (Fin n))
    (hdone : ((⟨fun i => p i, m⟩ : Pool (Fin n) C V α).exec sched).Finished) :
    ((⟨fun i => p i, m⟩ : Pool (Fin n) C V α).exec sched).IsSeq p m := by
  have hstart : Pending still m out tot (⟨fun i => p i, m⟩ : Pool (Fin n) C V α) :=
    ⟨fun _ _ => rfl, fun i => tot i, fun i => h i i.isLt, rfl⟩
  obtain ⟨hm, rem, hrem, hsum⟩ := Pool.exec_invariant (fun s i hs => hs.step i) hstart sched
  have hret : ∀ i : Fin n, (((⟨fun i => p i, m⟩ : Pool (Fin n) C V α).exec sched).progs i) =
      .ret (out i) ∧ rem i = 0 := fun i => by
    obtain ⟨a, ha⟩ := Prog.isDone_iff.mp (hdone i)
    have hi := hrem i
    rw [ha] at hi
    generalize out i = b, rem i = δ at hi
    cases hi with
    | ret a => exact ⟨ha, rfl⟩
  constructor
  · intro i
    rw [(hret i).1, seqOut, (h i i.isLt).run (seqMem_of_adds h i i.isLt.le).1]
  · rw [(seqMem_of_adds h n le_rfl).2, Finset.sum_range, ← hsum]
    simp [fun i => (hret i).2]

end Pool

/-! ## Threads that give back -/

section Owes

variable {C V α : Type} [DecidableEq C] [AddGroup V]

/-- The thread returns `a`, and of the cells of interest it subtracts `u`. -/
inductive Owes (care : C → Prop) (a : α) : (C → V) → Prog C V α → Prop
  | done {u : C → V} (hu : ∀ c, care c → u c = 0) : Owes care a u (.ret a)
  | other {u : C → V} {c : C} {f : V → V} {k : V → Prog C V α} (hc : ¬ care c)
      (hk : ∀ x, Owes care a u (k x)) : Owes care a u (.rmw c f k)
  | pay {u : C → V} {c : C} {f : V → V} {k : V → Prog C V α} (hc : care c)
      (hf : ∀ x, f x = x - u c) (hk : ∀ x, Owes care a (Function.update u c 0) (k x)) :
      Owes care a u (.rmw c f k)

variable {care : C → Prop} {a : α}

theorem Owes.bind_of_avoids {β : Type} {u : C → V} {q : Prog C V β} {g : β → Prog C V α}
    (hq : ∀ c, care c → q.Avoids c) (hg : ∀ b, Owes care a u (g b)) : Owes care a u (q.bind g) := by
  induction q with
  | ret b => exact hg b
  | rmw c f k ih =>
    exact .other (fun hc => (hq c hc).1 rfl) fun x => ih x fun c' hc' => (hq c' hc').2 x

end Owes

end Atomic
