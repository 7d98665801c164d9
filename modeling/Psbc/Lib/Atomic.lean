import Mathlib.Logic.Function.Basic
import Mathlib.Data.Fintype.Basic

/-!
# Programs of atomic operations on shared cells

`Prog C V α` is a thread as a tree of atomic read-modify-write operations on
cells `C` holding values `V`; between two operations a thread only computes.
`Prog.run` executes a thread alone. `Pool` is a family of threads over one
memory; `Pool.exec` runs it under a schedule, one atomic operation per entry, so
a statement about every schedule is a statement about every interleaving.

`Prog.Avoids c` says that no path of a thread operates on cell `c`; such a
thread leaves `c` alone and its result does not depend on the other threads'
use of `c`.
-/

namespace Atomic

variable {ι C V α β : Type}

/-- A thread: return a value, or apply `f` to cell `c` and continue with the
value the cell held before. -/
inductive Prog (C V α : Type) where
  | ret (a : α)
  | rmw (c : C) (f : V → V) (k : V → Prog C V α)

namespace Prog

def bind : Prog C V α → (α → Prog C V β) → Prog C V β
  | ret a, g => g a
  | rmw c f k, g => rmw c f fun v => (k v).bind g

@[simp] theorem ret_bind (a : α) (g : α → Prog C V β) : (ret a).bind g = g a := rfl

@[simp] theorem rmw_bind (c : C) (f : V → V) (k : V → Prog C V α) (g : α → Prog C V β) :
    (rmw c f k).bind g = rmw c f fun v => (k v).bind g := rfl

theorem bind_assoc {γ : Type} (p : Prog C V α) (g : α → Prog C V β) (h : β → Prog C V γ) :
    (p.bind g).bind h = p.bind fun a => (g a).bind h := by
  induction p with
  | ret a => rfl
  | rmw c f k ih => simp only [rmw_bind, ih]

def isDone : Prog C V α → Bool
  | ret _ => true
  | rmw .. => false

theorem isDone_iff {p : Prog C V α} : p.isDone = true ↔ ∃ a, p = ret a := by
  cases p <;> simp [isDone]

def result? : Prog C V α → Option α
  | ret a => some a
  | rmw .. => none

theorem result?_eq_some {p : Prog C V α} {a : α} : p.result? = some a ↔ p = ret a := by
  cases p <;> simp [result?]

section Run

variable [DecidableEq C]

def run : Prog C V α → (C → V) → α × (C → V)
  | ret a, m => (a, m)
  | rmw c f k, m => (k (m c)).run (Function.update m c (f (m c)))

@[simp] theorem run_ret (a : α) (m : C → V) : (ret a).run m = (a, m) := rfl

@[simp] theorem run_rmw (c : C) (f : V → V) (k : V → Prog C V α) (m : C → V) :
    (rmw c f k).run m = (k (m c)).run (Function.update m c (f (m c))) := rfl

theorem run_bind (p : Prog C V α) (g : α → Prog C V β) (m : C → V) :
    (p.bind g).run m = (g (p.run m).1).run (p.run m).2 := by
  induction p generalizing m with
  | ret a => rfl
  | rmw c f k ih => exact ih _ _

end Run

/-! ## Cells a thread leaves alone -/

/-- No path of the thread operates on cell `c`. -/
def Avoids (c : C) : Prog C V α → Prop
  | ret _ => True
  | rmw c' _ k => c' ≠ c ∧ ∀ v, (k v).Avoids c

@[simp] theorem avoids_ret (c : C) (a : α) : (ret a : Prog C V α).Avoids c := trivial

@[simp] theorem avoids_rmw {c c' : C} {f : V → V} {k : V → Prog C V α} :
    (rmw c' f k).Avoids c ↔ c' ≠ c ∧ ∀ v, (k v).Avoids c := Iff.rfl

theorem Avoids.bind {c : C} {p : Prog C V α} {g : α → Prog C V β} (hp : p.Avoids c)
    (hg : ∀ a, (g a).Avoids c) : (p.bind g).Avoids c := by
  induction p with
  | ret a => exact hg a
  | rmw c' f k ih => exact ⟨hp.1, fun v => ih v (hp.2 v)⟩

end Prog

/-! ## Pools of threads -/

structure Pool (ι C V α : Type) where
  progs : ι → Prog C V α
  mem : C → V

namespace Pool

variable [DecidableEq ι] [DecidableEq C]

def set (s : Pool ι C V α) (i : ι) (p : Prog C V α) (mem : C → V) : Pool ι C V α :=
  ⟨Function.update s.progs i p, mem⟩

/-- One atomic operation of thread `i`; a thread that has returned does nothing. -/
def step (s : Pool ι C V α) (i : ι) : Pool ι C V α :=
  match s.progs i with
  | .ret _ => s
  | .rmw c f k => s.set i (k (s.mem c)) (Function.update s.mem c (f (s.mem c)))

/-- The pool after the scheduled operations, in order. -/
def exec (s : Pool ι C V α) (sched : List ι) : Pool ι C V α := sched.foldl step s

def Finished (s : Pool ι C V α) : Prop := ∀ i, (s.progs i).isDone = true

instance [Fintype ι] (s : Pool ι C V α) : Decidable s.Finished :=
  inferInstanceAs (Decidable (∀ i, (s.progs i).isDone = true))

omit [DecidableEq C] in
@[simp] theorem set_mem (s : Pool ι C V α) (i : ι) (p : Prog C V α) (mem : C → V) :
    (s.set i p mem).mem = mem := rfl

omit [DecidableEq C] in
@[simp] theorem set_progs_self (s : Pool ι C V α) (i : ι) (p : Prog C V α) (mem : C → V) :
    (s.set i p mem).progs i = p := Function.update_self ..

omit [DecidableEq C] in
theorem set_progs_ne {i j : ι} (h : j ≠ i) (s : Pool ι C V α) (p : Prog C V α) (mem : C → V) :
    (s.set i p mem).progs j = s.progs j := Function.update_of_ne h ..

omit [DecidableEq C] in
theorem set_set (s : Pool ι C V α) (i : ι) (p q : Prog C V α) (mem mem' : C → V) :
    (s.set i p mem).set i q mem' = s.set i q mem' := by
  simp [set]

theorem step_ret {s : Pool ι C V α} {i : ι} {a : α} (h : s.progs i = .ret a) : s.step i = s := by
  simp [step, h]

theorem step_rmw {s : Pool ι C V α} {i : ι} {c : C} {f : V → V} {k : V → Prog C V α}
    (h : s.progs i = .rmw c f k) :
    s.step i = s.set i (k (s.mem c)) (Function.update s.mem c (f (s.mem c))) := by
  simp [step, h]

@[simp] theorem exec_nil (s : Pool ι C V α) : s.exec [] = s := rfl

@[simp] theorem exec_cons (s : Pool ι C V α) (i : ι) (rest : List ι) :
    s.exec (i :: rest) = (s.step i).exec rest := rfl

theorem exec_append (s : Pool ι C V α) (l l' : List ι) :
    s.exec (l ++ l') = (s.exec l).exec l' := List.foldl_append ..

/-- What every operation preserves holds after every schedule. -/
theorem exec_invariant {P : Pool ι C V α → Prop} (hstep : ∀ s i, P s → P (s.step i))
    {s : Pool ι C V α} (hs : P s) (sched : List ι) : P (s.exec sched) := by
  induction sched generalizing s with
  | nil => exact hs
  | cons i rest ih => exact ih (hstep s i hs)

/-- Every operation of the run is made in a state that meets the condition `ok`. -/
def Meets (ok : Pool ι C V α → ι → Prop) : Pool ι C V α → List ι → Prop
  | _, [] => True
  | s, i :: rest => ok s i ∧ Meets ok (s.step i) rest

instance instDecidableMeets (ok : Pool ι C V α → ι → Prop) [∀ s i, Decidable (ok s i)] :
    ∀ (s : Pool ι C V α) (sched : List ι), Decidable (s.Meets ok sched)
  | _, [] => .isTrue trivial
  | s, i :: rest =>
    have := instDecidableMeets ok (s.step i) rest
    inferInstanceAs (Decidable (ok s i ∧ Meets ok (s.step i) rest))

theorem Meets.mono {ok ok' : Pool ι C V α → ι → Prop} (h : ∀ s i, ok s i → ok' s i)
    {s : Pool ι C V α} {sched : List ι} (hs : s.Meets ok sched) : s.Meets ok' sched := by
  induction sched generalizing s with
  | nil => trivial
  | cons i rest ih => exact ⟨h s i hs.1, ih hs.2⟩

theorem Meets.of_forall {ok : Pool ι C V α → ι → Prop} (h : ∀ s i, ok s i) (s : Pool ι C V α)
    (sched : List ι) : s.Meets ok sched := by
  induction sched generalizing s with
  | nil => trivial
  | cons i rest ih => exact ⟨h s i, ih (s.step i)⟩

theorem Meets.append {ok : Pool ι C V α → ι → Prop} {s : Pool ι C V α} {l l' : List ι}
    (h : s.Meets ok l) (h' : (s.exec l).Meets ok l') : s.Meets ok (l ++ l') := by
  induction l generalizing s with
  | nil => exact h'
  | cons i rest ih => exact ⟨h.1, ih h.2 h'⟩

theorem exec_invariant_of_meets {ok : Pool ι C V α → ι → Prop} {P : Pool ι C V α → Prop}
    (hstep : ∀ s i, ok s i → P s → P (s.step i)) {s : Pool ι C V α} (hs : P s) {sched : List ι}
    (hok : s.Meets ok sched) : P (s.exec sched) := by
  induction sched generalizing s with
  | nil => exact hs
  | cons i rest ih => exact ih (hstep s i hok.1 hs) hok.2

end Pool

/-! ## Running threads one after another -/

section Sequential

variable [DecidableEq C]

/-- The memory after the first `k` threads ran alone, in order. -/
def seqMem (p : Nat → Prog C V α) (m : C → V) : Nat → C → V
  | 0 => m
  | k + 1 => ((p k).run (seqMem p m k)).2

/-- What thread `k` returns when the threads run alone, in order. -/
def seqOut (p : Nat → Prog C V α) (m : C → V) (k : Nat) : α := ((p k).run (seqMem p m k)).1

/-- The pool ended as the threads `p` end when they run alone, in order. -/
structure Pool.IsSeq {n : Nat} (s : Pool (Fin n) C V α) (p : Nat → Prog C V α) (m : C → V) :
    Prop where
  progs : ∀ i : Fin n, s.progs i = .ret (seqOut p m i)
  mem : s.mem = seqMem p m n

theorem seqMem_congr {p q : Nat → Prog C V α} {k : Nat} (h : ∀ i < k, p i = q i) (m : C → V) :
    seqMem p m k = seqMem q m k := by
  induction k with
  | zero => rfl
  | succ k ih => rw [seqMem, seqMem, ih fun i hi => h i (by omega), h k (by omega)]

theorem Pool.IsSeq.congr {n : Nat} {s : Pool (Fin n) C V α} {p q : Nat → Prog C V α} {m : C → V}
    (hs : s.IsSeq p m) (h : ∀ i < n, p i = q i) : s.IsSeq q m where
  progs i := by
    rw [hs.progs i, seqOut, seqOut, h i i.isLt, seqMem_congr fun j hj => h j (by omega)]
  mem := hs.mem.trans (seqMem_congr h m)

end Sequential

end Atomic
