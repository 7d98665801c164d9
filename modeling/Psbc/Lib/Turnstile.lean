import Psbc.Lib.Atomic
import Mathlib.Data.Finset.Card
import Mathlib.Data.Fintype.Card
import Mathlib.Logic.Function.Iterate

/-!
# Critical sections served in turn

`n` threads share a turn cell. Thread `i` polls it until it reads `turn i`, runs
its body and hands over by storing `turn (i + 1)`. Polling is bounded: a thread
whose bound is used up applies `bump` to the fault cell and runs its body out of
turn.

`Turnstile.exec_isSeq`: in every interleaving that ends with no fault, each
thread returns what it returns when the bodies run alone one after another, and
the memory is the one that sequential execution leaves. The invariant (`Served`)
says that the pool is the sequential execution with one body in progress: running
the rest of that body alone gives what the whole body gives from the memory its
predecessors left.
-/

namespace Atomic

variable {C V α : Type}

/-- Poll cell `c` until it reads `v`, at most the given number of times; past the
bound apply `bump` to the fault cell. -/
def wait [DecidableEq V] (c fault : C) (bump : V → V) (v : V) : Nat → Prog C V Unit
  | 0 => .rmw fault bump fun _ => .ret ()
  | fuel + 1 => .rmw c id fun t => if t = v then .ret () else wait c fault bump v fuel

/-- Threads that take turns at bodies which leave the turn and fault cells alone. -/
structure Turnstile (C V α : Type) where
  n : Nat
  turnCell : C
  faultCell : C
  bump : V → V
  bound : Nat
  turn : Nat → V
  body : Nat → Prog C V α
  bound_pos : 0 < bound
  cells_ne : turnCell ≠ faultCell
  turn_inj : ∀ i < n, ∀ j < n, turn i = turn j → i = j
  body_turn : ∀ i, (body i).Avoids turnCell
  body_fault : ∀ i, (body i).Avoids faultCell

namespace Turnstile

variable (T : Turnstile C V α)

def release (i : Nat) (a : α) : Prog C V α :=
  .rmw T.turnCell (fun _ => T.turn (i + 1)) fun _ => .ret a

/-- The body of thread `i` and its hand-over. -/
def critical (i : Nat) : Prog C V α := (T.body i).bind (T.release i)

section Threads

variable [DecidableEq V]

/-- Thread `i` with at most `fuel` polls left. -/
def waiting (i fuel : Nat) : Prog C V α :=
  (wait T.turnCell T.faultCell T.bump (T.turn i) fuel).bind fun _ => T.critical i

def thread (i : Nat) : Prog C V α := T.waiting i T.bound

variable {T}

@[simp] theorem waiting_zero (i : Nat) :
    T.waiting i 0 = .rmw T.faultCell T.bump fun _ => T.critical i := rfl

@[simp] theorem waiting_succ (i fuel : Nat) :
    T.waiting i (fuel + 1) =
      .rmw T.turnCell id fun t => if t = T.turn i then T.critical i else T.waiting i fuel := by
  simp only [waiting, wait, Prog.rmw_bind]
  congr 1
  funext t
  split <;> rfl

omit [DecidableEq V] in
theorem critical_avoids_fault (i : Nat) : (T.critical i).Avoids T.faultCell :=
  (T.body_fault i).bind fun _ => ⟨T.cells_ne, fun _ => trivial⟩

theorem waiting_not_avoids [Nontrivial V] (i fuel : Nat) :
    ¬ (T.waiting i fuel).Avoids T.faultCell := by
  induction fuel with
  | zero => simp
  | succ fuel ih =>
    obtain ⟨v, hv⟩ := exists_ne (T.turn i)
    intro h
    rw [waiting_succ, Prog.avoids_rmw] at h
    exact ih (by simpa [hv] using h.2 v)

end Threads

/-! ## The sequential execution -/

section Sequential

variable [DecidableEq C]

/-- The memory after the first `k` critical sections run alone, in order. -/
def critMem (m : C → V) : Nat → C → V
  | 0 => m
  | k + 1 => Function.update ((T.body k).run (critMem m k)).2 T.turnCell (T.turn (k + 1))

/-- What the body of thread `k` returns in that execution. -/
def critOut (m : C → V) (k : Nat) : α := ((T.body k).run (T.critMem m k)).1

variable {T} {m : C → V}

theorem critMem_turn (h0 : m T.turnCell = T.turn 0) (k : Nat) :
    T.critMem m k T.turnCell = T.turn k := by
  cases k with
  | zero => exact h0
  | succ k => exact Function.update_self ..

/-- A thread run alone when it is its turn polls once. -/
theorem thread_run [DecidableEq V] {i : Nat} {m' : C → V} (ht : m' T.turnCell = T.turn i) :
    (T.thread i).run m' =
      (((T.body i).run m').1,
        Function.update ((T.body i).run m').2 T.turnCell (T.turn (i + 1))) := by
  obtain ⟨fuel, hfuel⟩ := Nat.exists_eq_add_of_lt T.bound_pos
  rw [thread, show T.bound = fuel + 1 by omega, waiting_succ, Prog.run_rmw, if_pos ht, id,
    Function.update_eq_self, critical, Prog.run_bind]
  rfl

/-- Run alone in order, no thread waits: only the critical sections matter. -/
theorem seqMem_thread [DecidableEq V] (h0 : m T.turnCell = T.turn 0) (k : Nat) :
    seqMem T.thread m k = T.critMem m k := by
  induction k with
  | zero => rfl
  | succ k ih => rw [seqMem, ih, thread_run (critMem_turn h0 k)]; rfl

theorem seqOut_thread [DecidableEq V] (h0 : m T.turnCell = T.turn 0) (k : Nat) :
    seqOut T.thread m k = T.critOut m k := by
  rw [seqOut, seqMem_thread h0, thread_run (critMem_turn h0 k)]; rfl

end Sequential

/-! ## The invariant -/

section Invariant

variable [DecidableEq C] [DecidableEq V]

/-- Thread `k` is next: it still waits and the memory is the sequential one, or
it is inside its body, the rest of which alone does what the whole body does. -/
inductive AtTurn (m : C → V) (k : Nat) : Prog C V α → (C → V) → Prop
  | waits (fuel : Nat) : AtTurn m k (T.waiting k fuel) (T.critMem m k)
  | inside (q : Prog C V α) (mem : C → V) (hq : q.Avoids T.turnCell)
      (hturn : mem T.turnCell = T.turn k)
      (hrun : q.run mem = (T.body k).run (T.critMem m k)) :
      AtTurn m k (q.bind (T.release k)) mem

/-- Threads below `k` have returned, those above wait, and `k` is at its turn. -/
structure ServedAt (m : C → V) (k : Nat) (s : Pool (Fin T.n) C V α) : Prop where
  le : k ≤ T.n
  before : ∀ i : Fin T.n, i.val < k → s.progs i = .ret (T.critOut m i)
  after : ∀ i : Fin T.n, k < i.val → ∃ fuel, s.progs i = T.waiting i fuel
  turn : ∀ i : Fin T.n, i.val = k → T.AtTurn m k (s.progs i) s.mem
  last : T.n ≤ k → s.mem = T.critMem m k

/-- The pool is the sequential execution with at most one body in progress. -/
def Served (m : C → V) (s : Pool (Fin T.n) C V α) : Prop := ∃ k, T.ServedAt m k s

/-- Every thread waits or is past its wait, the faults recorded so far are those
of a set of threads past their wait, and while there is none the pool is served
in turn. -/
structure Counted (m : C → V) (s : Pool (Fin T.n) C V α) : Prop where
  shape : ∀ i : Fin T.n,
    (∃ fuel, s.progs i = T.waiting i fuel) ∨ (s.progs i).Avoids T.faultCell
  faults : ∃ F : Finset (Fin T.n), (∀ i ∈ F, (s.progs i).Avoids T.faultCell) ∧
    s.mem T.faultCell = T.bump^[F.card] (m T.faultCell) ∧ (F = ∅ → T.Served m s)

variable {T} {m : C → V} {s : Pool (Fin T.n) C V α} {k : Nat} {i : Fin T.n}

theorem ServedAt.set_turn (h : T.ServedAt m k s) (hi : i.val = k) {p : Prog C V α}
    {mem : C → V} (hp : T.AtTurn m k p mem) : T.ServedAt m k (s.set i p mem) where
  le := h.le
  before j hj := by
    rw [Pool.set_progs_ne (by rintro rfl; omega)]; exact h.before j hj
  after j hj := by
    rw [Pool.set_progs_ne (by rintro rfl; omega)]; exact h.after j hj
  turn j hj := by
    obtain rfl : j = i := Fin.ext (hj.trans hi.symm)
    simpa using hp
  last hk := absurd i.isLt (by omega)

theorem ServedAt.set_after (h : T.ServedAt m k s) (hi : k < i.val) (fuel : Nat) :
    T.ServedAt m k (s.set i (T.waiting i fuel) s.mem) where
  le := h.le
  before j hj := by
    rw [Pool.set_progs_ne (by rintro rfl; omega)]; exact h.before j hj
  after j hj := by
    by_cases hji : j = i
    · subst hji; exact ⟨fuel, by simp⟩
    · rw [Pool.set_progs_ne hji]; exact h.after j hj
  turn j hj := by
    rw [Pool.set_progs_ne (by rintro rfl; omega)]; exact h.turn j hj
  last := h.last

/-- The thread whose turn it is returns and the next one is at its turn. -/
theorem ServedAt.advance (h : T.ServedAt m k s) (hi : i.val = k) :
    T.ServedAt m (k + 1) (s.set i (.ret (T.critOut m k)) (T.critMem m (k + 1))) where
  le := hi ▸ i.isLt
  before j hj := by
    by_cases hji : j = i
    · subst hji; simp [hi]
    · have : j.val ≠ i.val := fun e => hji (Fin.ext e)
      rw [Pool.set_progs_ne hji]; exact h.before j (by omega)
  after j hj := by
    rw [Pool.set_progs_ne (by rintro rfl; omega)]; exact h.after j (by omega)
  turn j hj := by
    rw [Pool.set_progs_ne (by rintro rfl; omega)]
    obtain ⟨fuel, hf⟩ := h.after j (by omega)
    rw [hf, hj]
    exact .waits fuel
  last _ := rfl

theorem ServedAt.turnCell_eq (h : T.ServedAt m k s) (h0 : m T.turnCell = T.turn 0) (hk : k < T.n) :
    s.mem T.turnCell = T.turn k := by
  have hturn := h.turn ⟨k, hk⟩ rfl
  generalize s.progs ⟨k, hk⟩ = p, s.mem = mem at hturn
  cases hturn with
  | waits fuel => exact critMem_turn h0 k
  | inside q mem hq hturn hrun => exact hturn

/-- An operation that is not the record of a fault keeps the pool served in turn. -/
theorem ServedAt.step (h : T.ServedAt m k s) (h0 : m T.turnCell = T.turn 0)
    (hi : s.progs i ≠ T.waiting i 0) : T.Served m (s.step i) := by
  rcases Nat.lt_trichotomy i.val k with hlt | heq | hgt
  · exact ⟨k, by rw [Pool.step_ret (h.before i hlt)]; exact h⟩
  · have hturn := h.turn i heq
    generalize hp : s.progs i = p, hmem : s.mem = mem at hturn
    cases hturn with
    | waits fuel =>
      cases fuel with
      | zero => exact absurd hp (heq ▸ hi)
      | succ fuel =>
        -- the turn cell reads this thread's turn: it enters its body
        rw [waiting_succ] at hp
        refine ⟨k, ?_⟩
        rw [Pool.step_rmw hp, hmem, critMem_turn h0, if_pos rfl, id, ← critMem_turn h0,
          Function.update_eq_self]
        exact h.set_turn heq (.inside _ _ (T.body_turn k) (critMem_turn h0 k) rfl)
    | inside q mem hq hturn hrun =>
      cases q with
      | ret a =>
        -- the body is over: the hand-over makes the memory the next sequential one
        refine ⟨k + 1, ?_⟩
        rw [Pool.step_rmw hp, hmem]
        have hout : a = T.critOut m k := congrArg Prod.fst hrun
        have hm : mem = ((T.body k).run (T.critMem m k)).2 := congrArg Prod.snd hrun
        rw [hout, hm]
        exact h.advance heq
      | rmw c f q =>
        refine ⟨k, ?_⟩
        rw [Pool.step_rmw hp, hmem]
        refine h.set_turn heq (.inside _ _ (hq.2 _) ?_ hrun)
        rw [Function.update_of_ne (Ne.symm hq.1), hturn]
  · obtain ⟨fuel, hf⟩ := h.after i hgt
    cases fuel with
    | zero => exact absurd hf hi
    | succ fuel =>
      -- the turn cell reads the turn of an earlier thread: it keeps waiting
      have hk : k < T.n := by omega
      have hne : T.turn k ≠ T.turn i := fun e =>
        absurd (T.turn_inj _ hk _ i.isLt e) (by omega)
      have hcell := h.turnCell_eq h0 hk
      rw [waiting_succ] at hf
      refine ⟨k, ?_⟩
      rw [Pool.step_rmw hf, id, Function.update_eq_self, hcell, if_neg hne]
      exact h.set_after hgt fuel

theorem Counted.set (h : T.Counted m s) (h0 : m T.turnCell = T.turn 0)
    (hi : s.progs i ≠ T.waiting i 0) {p : Prog C V α} {mem : C → V}
    (hstep : s.step i = s.set i p mem)
    (hp : (∃ fuel, p = T.waiting i fuel) ∨ p.Avoids T.faultCell)
    (hkeep : (s.progs i).Avoids T.faultCell → p.Avoids T.faultCell)
    (hmem : mem T.faultCell = s.mem T.faultCell) : T.Counted m (s.step i) := by
  obtain ⟨F, hF, hcount, hserved⟩ := h.faults
  refine ⟨fun j => ?_, F, fun j hj => ?_, ?_, fun hempty => ?_⟩
  · by_cases hji : j = i
    · subst hji; rw [hstep, Pool.set_progs_self]; exact hp
    · rw [hstep, Pool.set_progs_ne hji]; exact h.shape j
  · by_cases hji : j = i
    · subst hji; rw [hstep, Pool.set_progs_self]; exact hkeep (hF j hj)
    · rw [hstep, Pool.set_progs_ne hji]; exact hF j hj
  · rw [hstep, Pool.set_mem, hmem, hcount]
  · obtain ⟨k, hk⟩ := hserved hempty
    exact hk.step h0 hi

theorem Counted.fault [Nontrivial V] (h : T.Counted m s) (hi : s.progs i = T.waiting i 0) :
    T.Counted m (s.step i) := by
  obtain ⟨F, hF, hcount, -⟩ := h.faults
  have hmem : i ∉ F := fun hiF => waiting_not_avoids i.val 0 (hi ▸ hF i hiF)
  have hstep := Pool.step_rmw (hi.trans (waiting_zero i.val))
  have hcrit := T.critical_avoids_fault i.val
  refine ⟨fun j => ?_, insert i F, fun j hj => ?_, ?_, fun hempty => ?_⟩
  · by_cases hji : j = i
    · subst hji; rw [hstep, Pool.set_progs_self]; exact .inr hcrit
    · rw [hstep, Pool.set_progs_ne hji]; exact h.shape j
  · by_cases hji : j = i
    · subst hji; rw [hstep, Pool.set_progs_self]; exact hcrit
    · rw [hstep, Pool.set_progs_ne hji]; exact hF j ((Finset.mem_insert.mp hj).resolve_left hji)
  · rw [hstep, Pool.set_mem, Function.update_self, Finset.card_insert_of_notMem hmem,
      Function.iterate_succ_apply', hcount]
  · exact absurd hempty (Finset.insert_ne_empty i F)

theorem Counted.step [Nontrivial V] (h : T.Counted m s) (h0 : m T.turnCell = T.turn 0)
    (i : Fin T.n) : T.Counted m (s.step i) := by
  rcases h.shape i with ⟨fuel, hf⟩ | havoid
  · cases fuel with
    | zero => exact h.fault hf
    | succ fuel =>
      have hnot := waiting_not_avoids (T := T) i.val (fuel + 1)
      rw [← hf] at hnot
      have hne : s.progs i ≠ T.waiting i 0 := by
        rw [hf, waiting_succ, waiting_zero]
        exact fun e => T.cells_ne (Prog.rmw.inj e).1
      have hstep := Pool.step_rmw (hf.trans (waiting_succ i.val fuel))
      refine h.set h0 hne hstep ?_ (fun ha => absurd ha hnot) ?_
      · split
        · exact .inr (T.critical_avoids_fault i.val)
        · exact .inl ⟨fuel, rfl⟩
      · rw [Function.update_of_ne (Ne.symm T.cells_ne)]
  · cases hp : s.progs i with
    | ret a => rw [Pool.step_ret hp]; exact h
    | rmw c f q =>
      have hne : s.progs i ≠ T.waiting i 0 := fun e =>
        waiting_not_avoids (T := T) i.val 0 (e ▸ havoid)
      rw [hp] at havoid
      refine h.set h0 hne (Pool.step_rmw hp) (.inr (havoid.2 _)) (fun _ => havoid.2 _) ?_
      rw [Function.update_of_ne (Ne.symm havoid.1)]

def start (T : Turnstile C V α) (m : C → V) : Pool (Fin T.n) C V α := ⟨fun i => T.thread i, m⟩

theorem counted_start : T.Counted m (T.start m) where
  shape _ := .inl ⟨_, rfl⟩
  faults := ⟨∅, by simp, rfl, fun _ => ⟨0, ⟨Nat.zero_le _, fun _ h => absurd h (Nat.not_lt_zero _),
    fun _ _ => ⟨_, rfl⟩, fun j hj => by simp only [start, thread, hj]; exact .waits _,
    fun _ => rfl⟩⟩⟩

theorem Served.isSeq (h : T.Served m s) (h0 : m T.turnCell = T.turn 0) (hdone : s.Finished) :
    s.IsSeq T.thread m := by
  obtain ⟨k, hk⟩ := h
  have hnk : T.n ≤ k := by
    by_contra hlt
    -- thread `k` is at its turn, so it has an operation left
    have hturn := hk.turn ⟨k, by omega⟩ rfl
    obtain ⟨a, ha⟩ := Prog.isDone_iff.mp (hdone ⟨k, by omega⟩)
    generalize hp : s.progs ⟨k, by omega⟩ = p, s.mem = mem at hturn
    rw [ha] at hp
    cases hturn with
    | waits fuel => cases fuel <;> simp at hp
    | inside q mem _ _ _ => cases q <;> simp [release] at hp
  obtain rfl : k = T.n := Nat.le_antisymm hk.le hnk
  exact ⟨fun i => by rw [seqOut_thread h0]; exact hk.before i i.isLt,
    by rw [seqMem_thread h0]; exact hk.last hnk⟩

/-- **Every interleaving that ends without a fault is the sequential execution.**
`hbump` says that the value the fault cell is read at in the end is not one that
some of the `n` threads' faults produce. -/
theorem exec_isSeq [Nontrivial V] (h0 : m T.turnCell = T.turn 0)
    (sched : List (Fin T.n)) (hdone : ((T.start m).exec sched).Finished)
    (hbump : ∀ t ≤ T.n, ((T.start m).exec sched).mem T.faultCell = T.bump^[t] (m T.faultCell) →
      t = 0) :
    ((T.start m).exec sched).IsSeq T.thread m := by
  have hinv : T.Counted m ((T.start m).exec sched) :=
    Pool.exec_invariant (fun s i hs => hs.step h0 i) counted_start sched
  obtain ⟨F, -, hcount, hserved⟩ := hinv.faults
  have hcard : F.card ≤ T.n := (Finset.card_le_univ F).trans_eq (Fintype.card_fin T.n)
  exact (hserved (Finset.card_eq_zero.mp (hbump _ hcard hcount))).isSeq h0 hdone

end Invariant

end Turnstile

end Atomic
