import Psbc.Util.LostWake

/-!
# Moves of the futex machine

What a waiter knows of the wakes that are due to it is history: no step of the code looks at it.
`Config.bare` forgets it, and `Move` says what a step does to what is left, one constructor for
each kind of step. The invariants of programs over the futex are proved by the cases of a `Move`.
-/

namespace Psbc.Util

open Mutex Runs

variable {T A σ : Type}

namespace Place

def bare : Place T A → Place T A
  | condWait w _ => condWait w .fresh
  | asleep w _ => asleep w .fresh
  | p => p

/-- The call of the futex that the place is in. -/
def call : Place T A → Option (Call A)
  | program => none
  | waitLock w | waitCheck w | condWait w _ | asleep w _ | woken w _ | waitUnlock w _
  | waitReturn w _ => some (.futexWait w.addr w.value w.timed)
  | wakeLock a n | wakeSignal a n | wakeUnlock a n => some (.futexWake a n)

/-- The places at which a thread takes the mutex, with the place behind. -/
def locks : Place T A → Option (Place T A)
  | waitLock w => some (waitCheck w)
  | woken w result => some (if result = 0 then waitCheck w else waitUnlock w result)
  | wakeLock a n => some (wakeSignal a n)
  | _ => none

/-- The places at which a waiter gives the mutex back, with the place behind. -/
def unlocks : Place T A → Option (Place T A)
  | condWait w k => some (asleep w k)
  | waitUnlock w result => some (waitReturn w result)
  | _ => none

variable {p : Place T A} {f : Wait A → Watch T → Watch T}

@[simp] theorem bare_note : (p.note f).bare = p.bare := by cases p <;> rfl

@[simp] theorem bare_bare : p.bare.bare = p.bare := by cases p <;> rfl

@[simp] theorem call_bare : p.bare.call = p.call := by cases p <;> rfl

@[simp] theorem isAsleep_bare : p.bare.isAsleep = p.isAsleep := by cases p <;> rfl

theorem holds_bare : p.bare.Holds ↔ p.Holds := by cases p <;> exact Iff.rfl

theorem bare_rouse : p.rouse.bare = p.bare.rouse := by cases p <;> rfl

theorem holds_rouse_iff : p.rouse.Holds ↔ p.Holds := by cases p <;> exact Iff.rfl

theorem call_rouse : p.rouse.call = p.call := by cases p <;> rfl

theorem call_of_locks {q : Place T A} (h : p.locks = some q) :
    p ≠ program ∧ q.call = p.call := by
  cases p with
  | waitLock w | wakeLock a n =>
    obtain rfl := Option.some.inj h
    exact ⟨nofun, rfl⟩
  | woken w result =>
    obtain rfl := Option.some.inj h
    refine ⟨nofun, ?_⟩
    split <;> rfl
  | _ => cases h

theorem call_of_unlocks {q : Place T A} (h : p.unlocks = some q) :
    p ≠ program ∧ q.call = p.call := by
  cases p with
  | condWait w k | waitUnlock w result =>
    obtain rfl := Option.some.inj h
    exact ⟨nofun, rfl⟩
  | _ => cases h

end Place

namespace Config

/-- The configuration without the history of the waiters. -/
def bare (s : Config T A σ) : Config T A σ := { s with place := fun t => (s.place t).bare }

@[simp] theorem bare_mem (s : Config T A σ) : s.bare.mem = s.mem := rfl

@[simp] theorem bare_mutex (s : Config T A σ) : s.bare.mutex = s.mutex := rfl

@[simp] theorem bare_place (s : Config T A σ) (t : T) : s.bare.place t = (s.place t).bare := rfl

@[simp] theorem bare_state (s : Config T A σ) : s.bare.state = s.state := rfl

theorem bare_note (s : Config T A σ) (f : Wait A → Watch T → Watch T) :
    (s.note f).bare = s.bare := by
  simp [note, bare]

variable [DecidableEq T]

theorem bare_setPlace (s : Config T A σ) (t : T) (p : Place T A) :
    (s.setPlace t p).bare = s.bare.setPlace t p.bare := by
  simp only [bare, setPlace, mk.injEq, true_and, and_true]
  funext u
  by_cases hu : u = t
  · rw [hu, Function.update_self, Function.update_self]
  · rw [Function.update_of_ne hu, Function.update_of_ne hu]

theorem bare_resume (prog : Program A σ) (s : Config T A σ) (t : T) (r : Int) :
    (s.resume prog t r).bare = s.bare.resume prog t r := by
  have h := bare_setPlace s t .program
  simp only [bare, setPlace, mk.injEq, true_and, and_true] at h
  simp only [bare, resume, setPlace, mk.injEq, true_and, and_true]
  exact h

end Config

section Move

variable [DecidableEq T] [DecidableEq A] (prog : Program A σ)

/-- The steps of the machine without the history of the waiters. -/
inductive Move : Config T A σ → Config T A σ → Prop where
  | rmw {s t a f} (ht : s.place t = .program) (hcall : prog.call (s.state t) = some (.rmw a f)) :
    Move s { s with
      mem := Function.update s.mem a (f (s.mem a))
      state := Function.update s.state t (prog.resume (s.state t) (s.mem a).toNat) }
  | wait {s t w} (ht : s.place t = .program)
    (hcall : prog.call (s.state t) = some (.futexWait w.addr w.value w.timed)) :
    Move s (s.setPlace t (.waitLock w))
  | wake {s t a n} (ht : s.place t = .program)
    (hcall : prog.call (s.state t) = some (.futexWake a n)) (hn : 0 < n) :
    Move s (s.setPlace t (.wakeLock a n))
  | wakeNone {s t a n} (ht : s.place t = .program)
    (hcall : prog.call (s.state t) = some (.futexWake a n)) (hn : n ≤ 0) :
    Move s (s.resume prog t 0)
  | lock {s t p} (ht : (s.place t).locks = some p) (hfree : s.mutex = none) :
    Move s { s.setPlace t p with mutex := some t }
  | check {s t w} (ht : s.place t = .waitCheck w) :
    Move s (s.setPlace t
      (if s.mem w.addr = w.value then .condWait w .fresh else .waitUnlock w 0))
  | unlock {s t p} (ht : (s.place t).unlocks = some p) :
    Move s { s.setPlace t p with mutex := none }
  | waitReturn {s t w result r} (ht : s.place t = .waitReturn w result) :
    Move s (s.resume prog t r)
  | signal {s t u a w k} (ht : s.place t = .wakeSignal a 1) (hu : s.place u = .asleep w k) :
    Move s ((s.setPlace u (.woken w 0)).setPlace t (.wakeUnlock a 1))
  | signalNone {s t a} (ht : s.place t = .wakeSignal a 1)
    (hnone : ∀ u, (s.place u).isAsleep = false) :
    Move s (s.setPlace t (.wakeUnlock a 1))
  | broadcast {s t a n} (ht : s.place t = .wakeSignal a n) (hn : n ≠ 1) :
    Move s ({ s with place := fun u => (s.place u).rouse }.setPlace t (.wakeUnlock a n))
  | wakeReturn {s t a n} (ht : s.place t = .wakeUnlock a n) :
    Move s { s.resume prog t n with mutex := none }
  | rouse {s u w k result} (hu : s.place u = .asleep w k) :
    Move s (s.setPlace u (.woken w result))

variable {prog} {s s' : Config T A σ} {t : T}

theorem move_lock {p : Place T A} (ht : (s.bare.place t).locks = some p.bare)
    (hlock : s.lock t p = some s') : Move prog s.bare s'.bare := by
  obtain ⟨hfree, hs'⟩ := Option.ite_none_right_eq_some.mp hlock
  obtain rfl := Option.some.inj hs'
  have hbare : ({ s.setPlace t p with mutex := some t } : Config T A σ).bare =
      { s.bare.setPlace t p.bare with mutex := some t } := by
    rw [← Config.bare_setPlace]
    rfl
  rw [hbare]
  exact .lock ht hfree

theorem move_unlock {p : Place T A} (ht : (s.bare.place t).unlocks = some p.bare) :
    Move prog s.bare (s.unlock t p).bare := by
  have hbare : (s.unlock t p).bare = { s.bare.setPlace t p.bare with mutex := none } := by
    rw [← Config.bare_setPlace]
    rfl
  rw [hbare]
  exact .unlock ht

theorem move_perform {c : Call A} (ht : s.place t = .program)
    (hcall : prog.call (s.state t) = some c) : Move prog s.bare (perform prog s t c).bare := by
  have ht' : s.bare.place t = .program := congrArg Place.bare ht
  cases c with
  | rmw a f =>
    have hbare : (perform prog s t (.rmw a f)).bare = { s.bare with
        mem := Function.update s.mem a (f (s.mem a))
        state := Function.update s.state t (prog.resume (s.state t) (s.mem a).toNat) } := by
      refine congrArg (fun place => (⟨Function.update s.mem a (f (s.mem a)), s.mutex, place,
        Function.update s.state t (prog.resume (s.state t) (s.mem a).toNat)⟩ : Config T A σ)) ?_
      have hplace : (perform prog s t (.rmw a f)).place = Function.update
          (fun u => (s.place u).note (noteWrite a (f (s.mem a)))) t .program := rfl
      funext u
      rw [hplace]
      by_cases hu : u = t
      · rw [hu, Function.update_self, ht']
        rfl
      · rw [Function.update_of_ne hu, Place.bare_note]
        rfl
    rw [hbare]
    exact .rmw ht' hcall
  | futexWait a value timed =>
    rw [perform, Config.bare_setPlace]
    exact .wait (w := ⟨a, value, timed⟩) ht' hcall
  | futexWake a n =>
    rw [perform]
    split
    next hn =>
      rw [Config.bare_resume]
      exact .wakeNone ht' hcall hn
    next hn =>
      have hmove : Move prog s.bare (s.bare.setPlace t (.wakeLock a n)) :=
        .wake ht' hcall (by omega)
      split
      next =>
        rw [Config.bare_setPlace, Config.bare_note]
        exact hmove
      next =>
        rw [Config.bare_setPlace]
        exact hmove

variable [Fintype T]

theorem move_act (hact : act prog s t = some s') : Move prog s.bare s'.bare := by
  cases hplace : s.place t with
  | program =>
    simp only [act, hplace] at hact
    obtain ⟨c, hcall, rfl⟩ := Option.map_eq_some_iff.mp hact
    exact move_perform hplace hcall
  | waitLock w =>
    simp only [act, hplace] at hact
    exact move_lock (by rw [Config.bare_place, hplace]; rfl) hact
  | waitCheck w =>
    simp only [act, hplace, Option.some_inj] at hact
    subst hact
    have ht : s.bare.place t = .waitCheck w := congrArg Place.bare hplace
    have hmove : Move prog s.bare _ := Move.check ht
    rw [Config.bare_setPlace]
    split
    next hval =>
      rw [Config.bare_mem, if_pos hval] at hmove
      exact hmove
    next hval =>
      rw [Config.bare_mem, if_neg hval] at hmove
      exact hmove
  | condWait w k =>
    simp only [act, hplace, Option.some_inj] at hact
    subst hact
    exact move_unlock (by rw [Config.bare_place, hplace]; rfl)
  | asleep w k => simp only [act, hplace, reduceCtorEq] at hact
  | woken w result =>
    simp only [act, hplace] at hact
    refine move_lock ?_ hact
    rw [Config.bare_place, hplace]
    split <;> rename_i hresult <;> simp only [Place.bare, Place.locks, hresult, if_true, if_false]
  | waitUnlock w result =>
    simp only [act, hplace, Option.some_inj] at hact
    subst hact
    exact move_unlock (by rw [Config.bare_place, hplace]; rfl)
  | waitReturn w result =>
    simp only [act, hplace, Option.some_inj] at hact
    subst hact
    rw [Config.bare_resume]
    exact .waitReturn (congrArg Place.bare hplace)
  | wakeLock a n =>
    simp only [act, hplace] at hact
    exact move_lock (by rw [Config.bare_place, hplace]; rfl) hact
  | wakeSignal a n =>
    have ht : s.bare.place t = .wakeSignal a n := congrArg Place.bare hplace
    simp only [act, hplace] at hact
    split at hact
    next hone =>
      obtain ⟨hnone, hs'⟩ := Option.ite_none_right_eq_some.mp hact
      obtain rfl := Option.some.inj hs'
      subst hone
      rw [Config.bare_setPlace]
      exact .signalNone ht fun u => Place.isAsleep_bare.trans (hnone u)
    next hmany =>
      obtain rfl := Option.some.inj hact
      have hmove : Move prog s.bare _ := Move.broadcast ht hmany
      rw [Config.bare_setPlace]
      simp only [Config.bare, ← Place.bare_rouse] at hmove ⊢
      exact hmove
  | wakeUnlock a n =>
    simp only [act, hplace, Option.some_inj] at hact
    subst hact
    have hbare : ({ (s.note (noteReturn t)).resume prog t n with mutex := none } :
        Config T A σ).bare = { s.bare.resume prog t n with mutex := none } := by
      rw [← Config.bare_note s (noteReturn t), ← Config.bare_resume]
      rfl
    rw [hbare]
    exact .wakeReturn (congrArg Place.bare hplace)

/-- **Every step is a move.** -/
theorem move_of_step {l : Label T} (hstep : step prog s l = some s') :
    Move prog s.bare s'.bare := by
  cases l with
  | act t => exact move_act hstep
  | signal t u =>
    obtain ⟨a, w, k, ht, hu, rfl⟩ := Config.step_signal hstep
    rw [Config.bare_setPlace]
    have hmove : Move prog s.bare
        ((s.bare.setPlace u (.woken w 0)).setPlace t (.wakeUnlock a 1)) :=
      .signal (congrArg Place.bare ht) (congrArg Place.bare hu)
    split
    next =>
      rw [Config.bare_note, Config.bare_setPlace]
      exact hmove
    next =>
      rw [Config.bare_setPlace]
      exact hmove
  | spurious u =>
    obtain ⟨w, k, hu, rfl⟩ := Config.step_spurious hstep
    rw [Config.bare_setPlace]
    exact .rouse (congrArg Place.bare hu)
  | timeout u =>
    obtain ⟨w, k, hu, rfl⟩ := Config.step_timeout hstep
    rw [Config.bare_setPlace]
    exact .rouse (congrArg Place.bare hu)

theorem bare_of_reaches {P : Config T A σ → Prop} {mem : A → Word} {state : T → σ}
    (hstart : P (.start mem state)) (hmove : ∀ {s s'}, P s → Move prog s s' → P s')
    (hs : Reaches (step prog) (.start mem state) s) : P s.bare :=
  hs.induct (P := fun s => P s.bare) hstart fun _ h hstep => hmove h (move_of_step hstep)

end Move

/-! ## The holder of the mutex -/

/-- The owner of the mutex is the thread between lock and unlock. -/
def Config.Held (s : Config T A σ) : Prop := ∀ t, (s.place t).Holds ↔ s.mutex = some t

theorem Config.Held.of_bare {s : Config T A σ} (h : s.bare.Held) : s.Held := fun t =>
  Place.holds_bare.symm.trans (h t)

section Held

variable [DecidableEq T] {s : Config T A σ} {t : T} {p : Place T A}

theorem Config.place_setPlace (s : Config T A σ) (t : T) (p : Place T A) :
    (s.setPlace t p).place t = p := Function.update_self ..

theorem Config.place_setPlace_of_ne (s : Config T A σ) {u : T} (hu : u ≠ t) (p : Place T A) :
    (s.setPlace t p).place u = s.place u := Function.update_of_ne hu ..

namespace Config.Held

theorem setPlace (h : s.Held) (hp : p.Holds ↔ (s.place t).Holds) : (s.setPlace t p).Held := by
  intro u
  by_cases hu : u = t
  · subst hu
    rw [place_setPlace]
    exact hp.trans (h u)
  · rw [place_setPlace_of_ne s hu]
    exact h u

theorem take (h : s.Held) (hfree : s.mutex = none) (hp : p.Holds) :
    ({ s.setPlace t p with mutex := some t } : Config T A σ).Held := by
  intro u
  by_cases hu : u = t
  · subst hu
    rw [place_setPlace]
    exact iff_of_true hp rfl
  · rw [place_setPlace_of_ne s hu, h u, hfree]
    exact iff_of_false nofun fun heq => hu (Option.some.inj heq).symm

theorem give (h : s.Held) (ht : (s.place t).Holds) (hp : ¬ p.Holds) :
    ({ s.setPlace t p with mutex := none } : Config T A σ).Held := by
  intro u
  by_cases hu : u = t
  · subst hu
    rw [place_setPlace]
    exact iff_of_false hp nofun
  · rw [place_setPlace_of_ne s hu, h u, (h t).mp ht]
    exact iff_of_false (fun heq => hu (Option.some.inj heq).symm) nofun

variable [DecidableEq A] {s' : Config T A σ} {prog : Program A σ}

theorem move (h : s.Held) (hmove : Move prog s s') : s'.Held := by
  cases hmove with
  | rmw => exact h
  | wait ht | wake ht => exact h.setPlace (iff_of_false id (ht ▸ id))
  | wakeNone ht => exact h.setPlace (p := .program) (iff_of_false id (ht ▸ id))
  | @lock t p ht hfree =>
    refine h.take hfree ?_
    revert ht
    cases s.place t with
    | waitLock w | wakeLock a n =>
      intro ht
      obtain rfl := Option.some.inj ht
      trivial
    | woken w result =>
      intro ht
      obtain rfl := Option.some.inj ht
      split <;> trivial
    | _ => exact nofun
  | check ht =>
    refine h.setPlace (iff_of_true ?_ (ht ▸ trivial))
    split <;> trivial
  | @unlock t p ht =>
    revert ht
    cases hplace : s.place t with
    | condWait w k | waitUnlock w result =>
      intro ht
      obtain rfl := Option.some.inj ht
      exact h.give (hplace ▸ trivial) id
    | _ => exact nofun
  | waitReturn ht => exact h.setPlace (p := .program) (iff_of_false id (ht ▸ id))
  | @signal t u a w k ht hu =>
    have hne : t ≠ u := by
      rintro rfl
      cases ht.symm.trans hu
    have hplace : (s.setPlace u (.woken w 0)).place t = .wakeSignal a 1 :=
      (Function.update_of_ne hne ..).trans ht
    have hwoken : (s.setPlace u (.woken w 0)).Held := h.setPlace (iff_of_false id (hu ▸ id))
    exact hwoken.setPlace (iff_of_true trivial (hplace ▸ trivial))
  | signalNone ht => exact h.setPlace (iff_of_true trivial (ht ▸ trivial))
  | @broadcast t a n ht =>
    have hroused : ({ s with place := fun u => (s.place u).rouse } : Config T A σ).Held :=
      fun u => Place.holds_rouse_iff.trans (h u)
    refine hroused.setPlace (iff_of_true trivial ?_)
    exact Place.holds_rouse_iff.mpr (ht ▸ trivial)
  | wakeReturn ht => exact h.give (ht ▸ trivial) id
  | rouse hu => exact h.setPlace (iff_of_false id (hu ▸ id))

end Config.Held

end Held

/-! ## Threads inside a call -/

/-- A thread in the code of the futex is there for the call its program makes. -/
def Config.InCalls (prog : Program A σ) (s : Config T A σ) : Prop :=
  ∀ t, s.place t = .program ∨ prog.call (s.state t) = (s.place t).call

section InCalls

variable {prog : Program A σ} {s s' : Config T A σ} {t : T} {p : Place T A}

namespace Config.InCalls

theorem call (h : s.InCalls prog) {c : Call A} (hc : (s.place t).call = some c) :
    prog.call (s.state t) = some c := by
  obtain ht | ht := h t
  · rw [ht] at hc
    cases hc
  · exact ht.trans hc

variable [DecidableEq T]

theorem setPlace (h : s.InCalls prog) (hp : prog.call (s.state t) = p.call) :
    (s.setPlace t p).InCalls prog := by
  intro u
  by_cases hu : u = t
  · subst hu
    exact .inr (hp.trans (congrArg Place.call (Function.update_self u p s.place)).symm)
  · have hplace : (s.setPlace t p).place u = s.place u := Function.update_of_ne hu ..
    rw [hplace]
    exact h u

theorem resume (h : s.InCalls prog) (r : Int) : (s.resume prog t r).InCalls prog := by
  intro u
  by_cases hu : u = t
  · subst hu
    exact .inl (Function.update_self ..)
  · have hplace : (s.resume prog t r).place u = s.place u := Function.update_of_ne hu ..
    have hstate : (s.resume prog t r).state u = s.state u := Function.update_of_ne hu ..
    rw [hplace, hstate]
    exact h u

variable [DecidableEq A]

theorem move (h : s.InCalls prog) (hmove : Move prog s s') : s'.InCalls prog := by
  cases hmove with
  | @rmw t a f ht hcall =>
    intro u
    by_cases hu : u = t
    · subst hu
      exact .inl ht
    · have hstate := Function.update_of_ne hu (prog.resume (s.state t) (s.mem a).toNat) s.state
      exact (h u).imp_right (congrArg prog.call hstate).trans
  | wait ht hcall | wake ht hcall => exact h.setPlace hcall
  | wakeNone => exact h.resume 0
  | @lock t p ht hfree =>
    obtain ⟨hne, hcall⟩ := Place.call_of_locks ht
    exact h.setPlace (s := s) (((h t).resolve_left hne).trans hcall.symm)
  | check ht =>
    refine h.setPlace (h.call (congrArg Place.call ht) |>.trans ?_)
    split <;> rfl
  | @unlock t p ht =>
    obtain ⟨hne, hcall⟩ := Place.call_of_unlocks ht
    exact h.setPlace (s := s) (((h t).resolve_left hne).trans hcall.symm)
  | waitReturn => exact h.resume _
  | @signal t u a w k ht hu =>
    have hwoken : (s.setPlace u (.woken w 0)).InCalls prog :=
      h.setPlace (h.call (congrArg Place.call hu))
    exact hwoken.setPlace (h.call (congrArg Place.call ht))
  | signalNone ht => exact h.setPlace (h.call (congrArg Place.call ht))
  | @broadcast t a n ht =>
    have hroused :
        ({ s with place := fun u => (s.place u).rouse } : Config T A σ).InCalls prog := by
      intro u
      exact (h u).imp (congrArg Place.rouse) fun hu => hu.trans Place.call_rouse.symm
    exact hroused.setPlace (h.call (congrArg Place.call ht))
  | wakeReturn => exact h.resume (s := s) _
  | rouse hu => exact h.setPlace (h.call (congrArg Place.call hu))

end Config.InCalls

variable [DecidableEq T] [DecidableEq A]

/-- A move changes a value by a call of the program, brings a call of the futex back to its
program, or does neither. -/
theorem Move.effect (hmove : Move prog s s') (h : s.InCalls prog) :
    (∃ t a f, s.place t = .program ∧ prog.call (s.state t) = some (.rmw a f) ∧
      s'.mem = Function.update s.mem a (f (s.mem a)) ∧
      s'.state = Function.update s.state t (prog.resume (s.state t) (s.mem a).toNat)) ∨
    s'.mem = s.mem ∧ (s'.state = s.state ∨ ∃ t c r, prog.call (s.state t) = some c ∧
      (∀ a f, c ≠ .rmw a f) ∧
        s'.state = Function.update s.state t (prog.resume (s.state t) r)) := by
  cases hmove with
  | rmw ht hcall => exact .inl ⟨_, _, _, ht, hcall, rfl, rfl⟩
  | wakeNone ht hcall => exact .inr ⟨rfl, .inr ⟨_, _, _, hcall, nofun, rfl⟩⟩
  | waitReturn ht | wakeReturn ht =>
    exact .inr ⟨rfl, .inr ⟨_, _, _, h.call (congrArg Place.call ht), nofun, rfl⟩⟩
  | _ => exact .inr ⟨rfl, .inl rfl⟩

end InCalls

/-! ## Threads that cannot go on -/

section Stuck

variable [DecidableEq T] [Fintype T] [DecidableEq A] (prog : Program A σ) {s : Config T A σ} {t : T}

/-- A thread can go on with its own code, or be signalled by another. -/
def Config.CanStep (s : Config T A σ) : Prop :=
  (∃ t, (act prog s t).isSome) ∨ ∃ t u, (step prog s (.signal t u)).isSome

variable {prog}

/-- The thread between lock and unlock goes on. -/
theorem canStep_of_holds (ht : (s.place t).Holds) : s.CanStep prog := by
  cases hplace : s.place t with
  | waitCheck w | condWait w k | waitUnlock w result | wakeUnlock a n =>
    refine .inl ⟨t, ?_⟩
    rw [act, hplace]
    rfl
  | wakeSignal a n =>
    by_cases hone : n = 1
    · subst hone
      by_cases hnone : ∀ u, (s.place u).isAsleep = false
      · refine .inl ⟨t, ?_⟩
        rw [act, hplace]
        dsimp only
        rw [if_pos rfl, if_pos hnone]
        rfl
      · simp only [not_forall, Bool.not_eq_false] at hnone
        obtain ⟨u, hu⟩ := hnone
        refine .inr ⟨t, u, ?_⟩
        cases hasleep : s.place u with
        | asleep w k =>
          rw [step, hplace, hasleep]
          rfl
        | _ =>
          rw [hasleep] at hu
          cases hu
    · refine .inl ⟨t, ?_⟩
      rw [act, hplace]
      dsimp only
      rw [if_neg hone]
      rfl
  | _ =>
    rw [hplace] at ht
    exact ht.elim

/-- Where no thread can go on, all have ended or are asleep. -/
theorem ended_or_asleep (hheld : s.Held) (hstuck : ¬ s.CanStep prog) (t : T) :
    s.place t = .program ∧ prog.call (s.state t) = none ∨ ∃ w k, s.place t = .asleep w k := by
  have hfree : s.mutex = none := by
    refine Option.eq_none_iff_forall_ne_some.mpr fun u hu => hstuck ?_
    exact canStep_of_holds ((hheld u).mpr hu)
  have hact : act prog s t = none :=
    Option.not_isSome_iff_eq_none.mp fun hsome => hstuck (.inl ⟨t, hsome⟩)
  cases hplace : s.place t with
  | program =>
    simp only [act, hplace, Option.map_eq_none_iff] at hact
    exact .inl ⟨rfl, hact⟩
  | asleep w k => exact .inr ⟨w, k, rfl⟩
  | wakeSignal a n =>
    have hholds : (s.place t).Holds := hplace ▸ trivial
    exact absurd (canStep_of_holds hholds) hstuck
  | _ => simp [act, hplace, Config.lock, hfree] at hact

end Stuck

end Psbc.Util
