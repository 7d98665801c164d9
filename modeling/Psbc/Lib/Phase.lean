import Psbc.Lib.Atomic

/-!
# Phases between barriers

Threads over one memory that no barrier separates run in a phase. `Phase p m out m'`: under some
schedule the threads `p` all return, with the results `out` and the memory `m'`. `Touches` and
`Stores` are the cells that a thread operates on and those whose value it changes when it runs
alone. In a phase without races each thread ends as it ends alone, whatever the schedule.
-/

namespace Atomic

variable {ι C V α β : Type}

namespace Prog

section Footprint

variable [DecidableEq C]

/-- Running alone from `m`, the thread operates on cell `c`. -/
def Touches (c : C) : Prog C V α → (C → V) → Prop
  | ret _, _ => False
  | rmw c' f k, m => c' = c ∨ (k (m c')).Touches c (Function.update m c' (f (m c')))

/-- Running alone from `m`, the thread gives cell `c` another value. -/
def Stores (c : C) : Prog C V α → (C → V) → Prop
  | ret _, _ => False
  | rmw c' f k, m =>
    (c' = c ∧ f (m c') ≠ m c') ∨ (k (m c')).Stores c (Function.update m c' (f (m c')))

variable {c : C}

theorem touches_bind (p : Prog C V α) (g : α → Prog C V β) (m : C → V) :
    (p.bind g).Touches c m ↔ p.Touches c m ∨ (g (p.run m).1).Touches c (p.run m).2 := by
  induction p generalizing m with
  | ret a => simp [Touches]
  | rmw c' f k ih => simp [Touches, ih, or_assoc]

theorem stores_bind (p : Prog C V α) (g : α → Prog C V β) (m : C → V) :
    (p.bind g).Stores c m ↔ p.Stores c m ∨ (g (p.run m).1).Stores c (p.run m).2 := by
  induction p generalizing m with
  | ret a => simp [Stores]
  | rmw c' f k ih => simp [Stores, ih, or_assoc]

end Footprint

/-! ## Loads and stores -/

section Accesses

variable [DecidableEq C]

def loadAll : List C → Prog C V (List V)
  | [] => ret []
  | c :: cs => rmw c id fun v => (loadAll cs).bind fun vs => ret (v :: vs)

def storeAll : List (C × V) → Prog C V Unit
  | [] => ret ()
  | w :: ws => rmw w.1 (fun _ => w.2) fun _ => storeAll ws

/-- The memory after the stores. -/
def written (m : C → V) (ws : List (C × V)) : C → V :=
  ws.foldl (fun m w => Function.update m w.1 w.2) m

variable {c : C} {m : C → V}

@[simp] theorem run_loadAll (cs : List C) (m : C → V) : (loadAll cs).run m = (cs.map m, m) := by
  induction cs with
  | nil => rfl
  | cons c cs ih => simp [loadAll, run_bind, ih]

@[simp] theorem touches_loadAll {cs : List C} : (loadAll cs : Prog C V _).Touches c m ↔ c ∈ cs := by
  induction cs with
  | nil => simp [loadAll, Touches]
  | cons c' cs ih => simp [loadAll, Touches, touches_bind, ih, eq_comm]

@[simp] theorem stores_loadAll {cs : List C} : ¬(loadAll cs : Prog C V _).Stores c m := by
  induction cs with
  | nil => simp [loadAll, Stores]
  | cons c' cs ih => simp [loadAll, Stores, stores_bind, ih]

@[simp] theorem run_storeAll (ws : List (C × V)) (m : C → V) :
    (storeAll ws).run m = ((), written m ws) := by
  induction ws generalizing m with
  | nil => rfl
  | cons w ws ih => simp [storeAll, ih, written]

@[simp] theorem touches_storeAll {ws : List (C × V)} :
    (storeAll ws).Touches c m ↔ c ∈ ws.map (·.1) := by
  induction ws generalizing m with
  | nil => simp [storeAll, Touches]
  | cons w ws ih => simp only [storeAll, Touches, ih, List.map_cons, List.mem_cons, eq_comm]

theorem mem_of_stores_storeAll {ws : List (C × V)} (h : (storeAll ws).Stores c m) :
    c ∈ ws.map (·.1) := by
  induction ws generalizing m with
  | nil => exact h.elim
  | cons w ws ih =>
    rcases h with ⟨hc, _⟩ | hrest
    · exact List.mem_cons.mpr (.inl hc.symm)
    · exact List.mem_cons_of_mem _ (ih hrest)

theorem written_of_not_mem {ws : List (C × V)} (h : c ∉ ws.map (·.1)) :
    written m ws c = m c := by
  induction ws generalizing m with
  | nil => rfl
  | cons w ws ih =>
    rw [List.map_cons, List.mem_cons, not_or] at h
    exact (ih h.2).trans (Function.update_of_ne h.1 _ _)

/-- The last store to a cell, if the cells differ the only one. -/
theorem written_of_mem {ws : List (C × V)} (hnodup : (ws.map (·.1)).Nodup) {w : C × V}
    (h : w ∈ ws) : written m ws w.1 = w.2 := by
  induction ws generalizing m with
  | nil => cases h
  | cons w' ws ih =>
    rw [List.map_cons, List.nodup_cons] at hnodup
    rcases List.mem_cons.mp h with rfl | hmem
    · exact (written_of_not_mem hnodup.1).trans (Function.update_self _ _ _)
    · exact ih hnodup.2 hmem

theorem written_filter {m m' : C → V} (h : m c = m' c) (ws : List (C × V)) :
    written m ws c = written m' (ws.filter (·.1 = c)) c := by
  induction ws generalizing m m' with
  | nil => exact h
  | cons w ws ih =>
    by_cases hw : w.1 = c
    · rw [List.filter_cons_of_pos (by simpa using hw)]
      refine ih ?_
      dsimp only
      rw [hw, Function.update_self, Function.update_self]
    · rw [List.filter_cons_of_neg (by simpa using hw)]
      exact ih ((Function.update_of_ne (Ne.symm hw) _ _).trans h)

/-- A cell whose value after the stores is known has been stored to. -/
theorem mem_of_written_eq [Nontrivial V] {ws : List (C × V)} {v : V}
    (h : ∀ m, written m ws c = v) : c ∈ ws.map (·.1) := by
  obtain ⟨v', hne⟩ := exists_ne v
  by_contra hmem
  exact hne ((written_of_not_mem (m := fun _ => v') hmem).symm.trans (h _))

/-! ## Lanes -/

/-- The programs of the lanes, one lane after the other. -/
def each (p : Nat → Prog C V α) : Nat → Prog C V (List α)
  | 0 => ret []
  | n + 1 => (each p n).bind fun as => (p n).bind fun a => ret (as ++ [a])

section Each

variable {p : Nat → Prog C V α} {n : Nat} (hkeep : ∀ i < n, ((p i).run m).2 = m)
include hkeep

theorem run_each :
    (each p n).run m = ((List.range n).map fun i => ((p i).run m).1, m) := by
  induction n with
  | zero => rfl
  | succ n ih =>
    rw [each, run_bind, ih fun i hi => hkeep i (Nat.lt_succ_of_lt hi)]
    simp only [run_bind, run_ret, hkeep n (Nat.lt_succ_self n), List.range_succ, List.map_append,
      List.map_cons, List.map_nil]

theorem touches_each : (each p n).Touches c m ↔ ∃ i < n, (p i).Touches c m := by
  induction n with
  | zero => simp [each, Touches]
  | succ n ih =>
    have hfirst : ∀ i < n, ((p i).run m).2 = m := fun i hi => hkeep i (Nat.lt_succ_of_lt hi)
    simp only [each, touches_bind, ih hfirst, run_each hfirst, Touches, or_false]
    constructor
    · rintro (⟨i, hi, h⟩ | h)
      · exact ⟨i, Nat.lt_succ_of_lt hi, h⟩
      · exact ⟨n, Nat.lt_succ_self n, h⟩
    · rintro ⟨i, hi, h⟩
      rcases Nat.lt_succ_iff_lt_or_eq.mp hi with hlt | rfl
      · exact .inl ⟨i, hlt, h⟩
      · exact .inr h

theorem not_stores_each (hstores : ∀ i < n, ¬(p i).Stores c m) : ¬(each p n).Stores c m := by
  induction n with
  | zero => simp [each, Stores]
  | succ n ih =>
    have hfirst : ∀ i < n, ((p i).run m).2 = m := fun i hi => hkeep i (Nat.lt_succ_of_lt hi)
    simp only [each, stores_bind, run_each hfirst, Stores, or_false, not_or]
    exact ⟨ih hfirst fun i hi => hstores i (Nat.lt_succ_of_lt hi), hstores n (Nat.lt_succ_self n)⟩

end Each

end Accesses

end Prog

/-! ## Phases -/

section Phases

variable [DecidableEq ι] [DecidableEq C]

/-- Under some schedule the threads `p` return `out` and leave the memory `m'`. -/
def Phase (p : ι → Prog C V α) (m : C → V) (out : ι → α) (m' : C → V) : Prop :=
  ∃ sched, (Pool.mk p m).exec sched = ⟨fun i => .ret (out i), m'⟩

/-- No thread operates on a cell that another changes. -/
def RaceFree (p : ι → Prog C V α) (m : C → V) : Prop :=
  ∀ {i j : ι}, i ≠ j → ∀ {c : C}, (p i).Touches c m → ¬(p j).Stores c m

/-- Every thread is where it is at some point of its run alone, with the memory `ms i`. -/
structure Apart (p : ι → Prog C V α) (m : C → V) (s : Pool ι C V α) (ms : ι → C → V) : Prop where
  run : ∀ i, (s.progs i).run (ms i) = (p i).run m
  mem : ∀ {i c}, (p i).Touches c m → s.mem c = ms i c
  touches : ∀ {i c}, (s.progs i).Touches c (ms i) → (p i).Touches c m
  stores : ∀ {i c}, (s.progs i).Stores c (ms i) → (p i).Stores c m
  frame : ∀ {c}, (∀ i, ¬(p i).Stores c m) → s.mem c = m c

variable {p : ι → Prog C V α} {m : C → V}

omit [DecidableEq ι] in
theorem apart_start : Apart p m ⟨p, m⟩ fun _ => m where
  run _ := rfl
  mem _ := rfl
  touches h := h
  stores h := h
  frame _ := rfl

/-- An operation of one thread leaves the cells of the others. -/
theorem Apart.step (hrace : RaceFree p m) {s : Pool ι C V α} {ms : ι → C → V}
    (h : Apart p m s ms) (i : ι) : ∃ ms', Apart p m (s.step i) ms' := by
  cases hi : s.progs i with
  | ret a => exact ⟨ms, by rwa [Pool.step_ret hi]⟩
  | rmw c f k =>
    have htouch : (p i).Touches c m := h.touches (by rw [hi]; exact .inl rfl)
    have hmem : s.mem c = ms i c := h.mem htouch
    -- a cell that the operation changes is one that thread `i` stores to
    have hsame : ∀ {c'}, ¬(p i).Stores c' m →
        Function.update s.mem c (f (s.mem c)) c' = s.mem c' := fun {c'} hstore => by
      by_cases hc : c' = c
      · subst hc
        rw [Function.update_self, hmem]
        by_contra hne
        exact hstore (h.stores (by rw [hi]; exact .inl ⟨rfl, hne⟩))
      · exact Function.update_of_ne hc _ _
    rw [Pool.step_rmw hi]
    refine ⟨Function.update ms i (Function.update (ms i) c (f (ms i c))), ?_, ?_, ?_, ?_, ?_⟩
    · intro j
      by_cases hj : j = i
      · subst hj
        rw [Pool.set_progs_self, Function.update_self, hmem, ← h.run j, hi, Prog.run_rmw]
      · rw [Pool.set_progs_ne hj, Function.update_of_ne hj, h.run j]
    · intro j c' hj'
      rw [Pool.set_mem]
      by_cases hj : j = i
      · subst hj
        rw [Function.update_self, hmem]
        by_cases hc : c' = c
        · subst hc
          rw [Function.update_self, Function.update_self]
        · rw [Function.update_of_ne hc, Function.update_of_ne hc, h.mem hj']
      · rw [Function.update_of_ne hj, ← h.mem hj']
        exact hsame (hrace hj hj')
    · intro j c' hj'
      by_cases hj : j = i
      · subst hj
        rw [Pool.set_progs_self, Function.update_self, hmem] at hj'
        exact h.touches (by rw [hi]; exact .inr hj')
      · rw [Pool.set_progs_ne hj, Function.update_of_ne hj] at hj'
        exact h.touches hj'
    · intro j c' hj'
      by_cases hj : j = i
      · subst hj
        rw [Pool.set_progs_self, Function.update_self, hmem] at hj'
        exact h.stores (by rw [hi]; exact .inr hj')
      · rw [Pool.set_progs_ne hj, Function.update_of_ne hj] at hj'
        exact h.stores hj'
    · intro c' hframe
      rw [Pool.set_mem, hsame (hframe i)]
      exact h.frame hframe

theorem Apart.exec (hrace : RaceFree p m) {s : Pool ι C V α} {ms : ι → C → V}
    (h : Apart p m s ms) (sched : List ι) : ∃ ms', Apart p m (s.exec sched) ms' :=
  Pool.exec_invariant (P := fun s => ∃ ms, Apart p m s ms)
    (fun _ i ⟨_, h⟩ => h.step hrace i) ⟨ms, h⟩ sched

section Race

variable {out : ι → α} {m' : C → V} (hrace : RaceFree p m) (h : Phase p m out m')
include hrace h

theorem Phase.out_eq (i : ι) : out i = ((p i).run m).1 := by
  obtain ⟨sched, hexec⟩ := h
  obtain ⟨ms, hapart⟩ := apart_start.exec hrace sched
  have hrun := hapart.run i
  rw [hexec] at hrun
  exact congrArg Prod.fst hrun

theorem Phase.mem_eq {i : ι} {c : C} (hc : (p i).Touches c m) : m' c = ((p i).run m).2 c := by
  obtain ⟨sched, hexec⟩ := h
  obtain ⟨ms, hapart⟩ := apart_start.exec hrace sched
  have hrun := hapart.run i
  have hmem := hapart.mem hc
  rw [hexec] at hrun hmem
  exact hmem.trans (congrFun (congrArg Prod.snd hrun) c)

theorem Phase.frame {c : C} (hc : ∀ i, ¬(p i).Stores c m) : m' c = m c := by
  obtain ⟨sched, hexec⟩ := h
  obtain ⟨ms, hapart⟩ := apart_start.exec hrace sched
  have hframe := hapart.frame hc
  rwa [hexec] at hframe

end Race

/-! ## Phases end -/

/-- A thread that is scheduled alone returns, and the others stay where they are. -/
theorem Pool.exec_alone (s : Pool ι C V α) (i : ι) :
    ∃ sched a, (s.exec sched).progs = Function.update s.progs i (.ret a) := by
  generalize hp : s.progs i = q
  induction q generalizing s with
  | ret a => exact ⟨[], a, by rw [Pool.exec_nil, ← hp, Function.update_eq_self]⟩
  | rmw c f k ih =>
    obtain ⟨sched, a, hsched⟩ := ih (s.mem c) (s.step i)
      (by rw [Pool.step_rmw hp, Pool.set_progs_self])
    refine ⟨i :: sched, a, ?_⟩
    rw [Pool.exec_cons, hsched, Pool.step_rmw hp, Pool.set, Function.update_idem]

theorem Pool.exists_finished (s : Pool ι C V α) (threads : List ι) :
    ∃ sched, ∀ i, i ∈ threads ∨ (s.progs i).isDone = true →
      ((s.exec sched).progs i).isDone = true := by
  induction threads generalizing s with
  | nil => exact ⟨[], fun i hi => hi.resolve_left List.not_mem_nil⟩
  | cons j threads ih =>
    obtain ⟨sched, a, hsched⟩ := s.exec_alone j
    obtain ⟨sched', hrest⟩ := ih (s.exec sched)
    refine ⟨sched ++ sched', fun i hi => ?_⟩
    rw [Pool.exec_append]
    apply hrest
    by_cases hij : i = j
    · subst hij
      rw [hsched, Function.update_self]
      exact .inr rfl
    · rw [hsched, Function.update_of_ne hij]
      exact hi.imp_left fun hmem => (List.mem_cons.mp hmem).resolve_left hij

theorem exists_phase (p : ι → Prog C V α) (m : C → V) {threads : List ι}
    (hall : ∀ i, i ∈ threads) : ∃ out m', Phase p m out m' := by
  obtain ⟨sched, hdone⟩ := (Pool.mk p m).exists_finished threads
  choose out hout using fun i => Prog.isDone_iff.mp (hdone i (.inl (hall i)))
  exact ⟨out, ((Pool.mk p m).exec sched).mem, sched, by rw [← funext hout]⟩

end Phases

end Atomic
