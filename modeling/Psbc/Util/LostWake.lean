import Psbc.Util.Futex

/-!
# Lost wake-ups

`Lost` is a sleeper whose value was changed and for whose address a wake of one waiter began
after that and ended, without releasing a waiter of the address. `Astray` is the state in which
that can happen: a signal is about to be given that is due to a sleeper of its address while a
sleeper of another address may take it.

As long as no state is astray, a wake that is due to a sleeper does not come to its end: the
waiter sleeps by the time the mutex is taken for the signal, since it holds the mutex from its
check on, and the signal releases it or another waiter of the address.
-/

namespace Psbc.Util

open Mutex Runs

variable {T A σ : Type}

namespace Config

def start (mem : A → Word) (state : T → σ) : Config T A σ := ⟨mem, none, fun _ => .program, state⟩

/-- A thread sleeps although a wake for its address began after the change of the value, ended
and released no waiter of the address. -/
def Lost (s : Config T A σ) : Prop := ∃ u w k, s.place u = .asleep w k ∧ k.missed = true

/-- A signal that is due to a sleeper may release a waiter of another address. -/
def Astray (s : Config T A σ) : Prop :=
  ∃ t a, s.place t = .wakeSignal a 1 ∧
    (∃ u w k, s.place u = .asleep w k ∧ w.addr = a ∧ t ∈ k.due) ∧
    ∃ v w k, s.place v = .asleep w k ∧ w.addr ≠ a

end Config

/-! ## Wakes that are due -/

/-- A wake that is due to a waiter has yet to signal, and none was missed. -/
def Watched (place : T → Place T A) : Prop :=
  ∀ u w k, (place u).watch = some (w, k) →
    k.missed = false ∧ ∀ t ∈ k.due, (place t).WakesOne w.addr

namespace Watched

variable {place : T → Place T A} {t : T} {p : Place T A}

theorem rouse (h : Watched place) : Watched fun u => (place u).rouse := by
  intro u w k hk
  obtain ⟨hmissed, hdue⟩ := h u w k (Place.watch_of_rouse hk)
  exact ⟨hmissed, fun t ht => Place.wakesOne_rouse (hdue t ht)⟩

theorem note {f : Wait A → Watch T → Watch T} (h : Watched place)
    (hf : ∀ u w k, (place u).watch = some (w, k) →
      (f w k).missed = k.missed ∧ ∀ t ∈ (f w k).due, t ∈ k.due) :
    Watched fun u => (place u).note f := by
  intro u w k' hk
  obtain ⟨k, hold, rfl⟩ := Place.exists_of_watch_note hk
  obtain ⟨hmissed, hdue⟩ := h u w k hold
  obtain ⟨hsame, hsub⟩ := hf u w k hold
  exact ⟨hsame.trans hmissed, fun t ht => Place.wakesOne_note.mpr (hdue t (hsub t ht))⟩

variable [DecidableEq T]

/-- A thread moves on; as a waiter it keeps what is known of it or begins afresh. -/
theorem set (h : Watched place)
    (hwatch : ∀ w k, p.watch = some (w, k) → k = .fresh ∨ (place t).watch = some (w, k))
    (hwake : ∀ a, (place t).WakesOne a →
      p.WakesOne a ∨ ∀ u w k, (place u).watch = some (w, k) → t ∉ k.due) :
    Watched (Function.update place t p) := by
  -- a wake that is due keeps its place, or is the one that moves
  have hdue : ∀ {u w k}, (place u).watch = some (w, k) → ∀ t' ∈ k.due,
      (Function.update place t p t').WakesOne w.addr := by
    intro u w k hk t' ht'
    have hwakes := (h u w k hk).2 t' ht'
    by_cases heq : t' = t
    · subst heq
      rw [Function.update_self]
      exact (hwake _ hwakes).resolve_right fun hnot => hnot u w k hk ht'
    · rwa [Function.update_of_ne heq]
  intro u w k hk
  by_cases heq : u = t
  · subst heq
    rw [Function.update_self] at hk
    rcases hwatch w k hk with rfl | hold
    · exact ⟨rfl, nofun⟩
    · exact ⟨(h u w k hold).1, hdue hold⟩
  · rw [Function.update_of_ne heq] at hk
    exact ⟨(h u w k hk).1, hdue hk⟩

/-- A thread begins to wake one waiter, which is due to those whose value was changed. -/
theorem issue [DecidableEq A] (h : Watched place) (ht : place t = .program) (a : A) :
    Watched (Function.update (fun u => (place u).note (noteWake t a)) t (.wakeLock a 1)) := by
  intro u w k' hk
  by_cases heq : u = t
  · subst heq
    rw [Function.update_self] at hk
    cases hk
  rw [Function.update_of_ne heq] at hk
  obtain ⟨k, hold, rfl⟩ := Place.exists_of_watch_note hk
  obtain ⟨hmissed, hdue⟩ := h u w k hold
  have hold : ∀ t' ∈ k.due,
      (Function.update (fun u => (place u).note (noteWake t a)) t (.wakeLock a 1) t').WakesOne
        w.addr := by
    intro t' ht'
    have hwakes := hdue t' ht'
    have hne : t' ≠ t := by
      rintro rfl
      rw [ht] at hwakes
      exact hwakes
    rw [Function.update_of_ne hne]
    exact Place.wakesOne_note.mpr hwakes
  dsimp only [noteWake]
  split
  next hchanged =>
    refine ⟨hmissed, List.forall_mem_cons.mpr ⟨?_, hold⟩⟩
    rw [Function.update_self]
    exact ⟨hchanged.1.symm, rfl⟩
  next => exact ⟨hmissed, hold⟩

end Watched

/-! ## The invariant -/

/-- Whoever is between lock and unlock owns the mutex, and the wakes that are due are yet to
signal. -/
structure Inv (mutex : Option T) (place : T → Place T A) : Prop where
  exclusive : Exclusive mutex fun t => (place t).Holds
  watched : Watched place

/-- What a thread takes along when it moves from `q` to `p`. -/
structure Place.Follows (q p : Place T A) : Prop where
  watch : ∀ w k, p.watch = some (w, k) → k = .fresh ∨ q.watch = some (w, k)
  wake : ∀ a, q.WakesOne a → p.WakesOne a

theorem Place.follows {q p : Place T A} (hq : ∀ a, ¬ q.WakesOne a) (hp : p.watch = none) :
    q.Follows p where
  watch w k h := by
    rw [hp] at h
    cases h
  wake a h := absurd h (hq a)

namespace Inv

variable {mutex : Option T} {place : T → Place T A} {t : T} {p : Place T A}

theorem start : Inv none fun _ : T => (.program : Place T A) := ⟨nofun, nofun⟩

theorem rouse (h : Inv mutex place) : Inv mutex fun u => (place u).rouse :=
  ⟨h.exclusive.keep fun _ => Place.holds_rouse, h.watched.rouse⟩

theorem note {f : Wait A → Watch T → Watch T} (h : Inv mutex place)
    (hf : ∀ u w k, (place u).watch = some (w, k) →
      (f w k).missed = k.missed ∧ ∀ t ∈ (f w k).due, t ∈ k.due) :
    Inv mutex fun u => (place u).note f :=
  ⟨h.exclusive.keep fun _ => Place.holds_note.mp, h.watched.note hf⟩

theorem asleep_of_watch {a : A} {n : Int} {u : T} {w : Wait A} {k : Watch T} (h : Inv mutex place)
    (ht : place t = .wakeSignal a n) (hu : (place u).watch = some (w, k)) :
    place u = .asleep w k := by
  cases hplace : place u with
  | asleep w k =>
    rw [hplace] at hu
    cases hu
    rfl
  | condWait w k =>
    -- both would hold the mutex
    have hboth : u = t := h.exclusive.eq (by rw [hplace]; trivial) (by rw [ht]; trivial)
    rw [hboth, ht] at hplace
    cases hplace
  | _ =>
    rw [hplace] at hu
    cases hu

variable [DecidableEq T]

theorem holds_of_update {u : T} (hne : u ≠ t) (hu : (Function.update place t p u).Holds) :
    (place u).Holds := by
  rwa [Function.update_of_ne hne] at hu

theorem set (h : Inv mutex place) (hp : (place t).Follows p)
    (hholds : p.Holds → (place t).Holds) : Inv mutex (Function.update place t p) := by
  refine ⟨h.exclusive.keep fun u hu => ?_, h.watched.set hp.watch fun a ha => .inl (hp.wake a ha)⟩
  by_cases heq : u = t
  · subst heq
    rw [Function.update_self] at hu
    exact hholds hu
  · exact holds_of_update heq hu

theorem take (h : Inv none place) (hp : (place t).Follows p) :
    Inv (some t) (Function.update place t p) :=
  ⟨h.exclusive.take fun _ => holds_of_update,
    h.watched.set hp.watch fun a ha => .inl (hp.wake a ha)⟩

theorem give (h : Inv mutex place) (hp : (place t).Follows p) (ht : (place t).Holds)
    (hout : ¬ p.Holds) : Inv none (Function.update place t p) := by
  refine ⟨h.exclusive.give ht ?_ fun _ => holds_of_update,
    h.watched.set hp.watch fun a ha => .inl (hp.wake a ha)⟩
  rwa [Function.update_self]

theorem signalled {a : A} {n : Int} (h : Inv mutex place) (ht : place t = .wakeSignal a n)
    (hnot : ∀ u w k, (place u).watch = some (w, k) → t ∉ k.due) :
    Inv mutex (Function.update place t (.wakeUnlock a n)) := by
  refine ⟨h.exclusive.keep fun u hu => ?_, h.watched.set nofun fun _ _ => .inr hnot⟩
  by_cases heq : u = t
  · subst heq
    rw [ht]
    trivial
  · exact holds_of_update heq hu

theorem issue [DecidableEq A] (h : Inv mutex place) (ht : place t = .program) (a : A) :
    Inv mutex
      (Function.update (fun u => (place u).note (noteWake t a)) t (.wakeLock a 1)) := by
  refine ⟨h.exclusive.keep fun u hu => ?_, h.watched.issue ht a⟩
  by_cases heq : u = t
  · subst heq
    rw [Function.update_self] at hu
    exact hu.elim
  · exact Place.holds_note.mp (holds_of_update heq hu)

end Inv

/-! ## Steps -/

theorem noteWrite_due [DecidableEq A] (a : A) (v : Word) (w : Wait A) (k : Watch T) :
    (noteWrite a v w k).missed = k.missed ∧ ∀ t ∈ (noteWrite a v w k).due, t ∈ k.due := by
  unfold noteWrite
  split <;> exact ⟨rfl, fun _ => id⟩

theorem noteRelease_due [DecidableEq T] [DecidableEq A] (t : T) (a : A) (w : Wait A)
    (k : Watch T) :
    (noteRelease t a w k).missed = k.missed ∧ ∀ u ∈ (noteRelease t a w k).due, u ∈ k.due := by
  unfold noteRelease
  split
  next => exact ⟨rfl, fun _ hu => (List.mem_filter.mp hu).1⟩
  next => exact ⟨rfl, fun _ => id⟩

namespace Config

abbrev Inv (s : Config T A σ) : Prop := Util.Inv s.mutex s.place

variable [DecidableEq T] {s s' : Config T A σ} {t : T} {p : Place T A}

theorem Inv.setPlace (h : s.Inv) (hp : (s.place t).Follows p)
    (hholds : p.Holds → (s.place t).Holds) : (s.setPlace t p).Inv := Util.Inv.set h hp hholds

theorem Inv.unlock (h : s.Inv) (hp : (s.place t).Follows p) (ht : (s.place t).Holds)
    (hout : ¬ p.Holds) : (s.unlock t p).Inv := Util.Inv.give h hp ht hout

theorem Inv.lock (h : s.Inv) (hp : (s.place t).Follows p) (hlock : s.lock t p = some s') :
    s'.Inv := by
  obtain ⟨hfree, hs'⟩ := Option.ite_none_right_eq_some.mp hlock
  obtain rfl := Option.some.inj hs'
  unfold Inv at h
  rw [hfree] at h
  exact h.take hp

theorem Inv.resume {prog : Program A σ} {result : Int} (h : s.Inv)
    (hp : ∀ a, ¬ (s.place t).WakesOne a) : (s.resume prog t result).Inv :=
  Util.Inv.set h (Place.follows hp rfl) nofun

variable [DecidableEq A] {prog : Program A σ}

theorem Inv.perform (h : s.Inv) (ht : s.place t = .program) (c : Call A) :
    (perform prog s t c).Inv := by
  have hprogram : ∀ a, ¬ (s.place t).WakesOne a := by
    rw [ht]
    exact fun _ => id
  cases c with
  | rmw a f =>
    have hnoted : (s.note (noteWrite a (f (s.mem a)))).Inv :=
      Util.Inv.note h fun u w k _ => noteWrite_due a (f (s.mem a)) w k
    exact Util.Inv.set hnoted
      (Place.follows (fun a' hwakes => hprogram a' (Place.wakesOne_note.mp hwakes)) rfl) nofun
  | futexWait a value timed => exact h.setPlace (Place.follows hprogram rfl) nofun
  | futexWake a count =>
    rw [Util.perform]
    split
    next => exact h.resume hprogram
    next =>
      split
      next hone =>
        subst hone
        exact Util.Inv.issue h ht a
      next => exact h.setPlace (Place.follows hprogram rfl) nofun

variable [Fintype T]

theorem Inv.act (h : s.Inv) (hact : act prog s t = some s') : s'.Inv := by
  cases hplace : s.place t with
  | program =>
    simp only [Util.act, hplace] at hact
    obtain ⟨c, _, rfl⟩ := Option.map_eq_some_iff.mp hact
    exact h.perform hplace c
  | waitLock w =>
    simp only [Util.act, hplace] at hact
    exact h.lock (hplace ▸ Place.follows (fun _ => id) rfl) hact
  | waitCheck w =>
    simp only [Util.act, hplace, Option.some_inj] at hact
    subst hact
    split
    next =>
      exact h.setPlace (hplace ▸ ⟨fun _ _ hk => .inl (Prod.mk.inj (Option.some.inj hk)).2.symm,
        fun _ => False.elim⟩) fun _ => hplace ▸ trivial
    next => exact h.setPlace (hplace ▸ Place.follows (fun _ => id) rfl) fun _ => hplace ▸ trivial
  | condWait w k =>
    simp only [Util.act, hplace, Option.some_inj] at hact
    subst hact
    exact h.unlock (hplace ▸ ⟨fun _ _ hk => .inr hk, fun _ => False.elim⟩) (hplace ▸ trivial) id
  | asleep w k =>
    simp only [Util.act, hplace, reduceCtorEq] at hact
  | woken w result =>
    simp only [Util.act, hplace] at hact
    refine h.lock (hplace ▸ Place.follows (fun _ => id) ?_) hact
    split <;> rfl
  | waitUnlock w result =>
    simp only [Util.act, hplace, Option.some_inj] at hact
    subst hact
    exact h.unlock (hplace ▸ Place.follows (fun _ => id) rfl) (hplace ▸ trivial) id
  | waitReturn w result =>
    simp only [Util.act, hplace, Option.some_inj] at hact
    subst hact
    exact h.resume (hplace ▸ fun _ => id)
  | wakeLock a n =>
    simp only [Util.act, hplace] at hact
    exact h.lock (hplace ▸ ⟨nofun, fun _ => id⟩) hact
  | wakeSignal a n =>
    simp only [Util.act, hplace] at hact
    split at hact
    next =>
      -- nobody is asleep, so the signal is due to nobody
      obtain ⟨hnone, hs'⟩ := Option.ite_none_right_eq_some.mp hact
      obtain rfl := Option.some.inj hs'
      refine Util.Inv.signalled h hplace fun u w k hu _ => ?_
      have hasleep := hnone u
      rw [h.asleep_of_watch hplace hu] at hasleep
      cases hasleep
    next hmany =>
      obtain rfl := Option.some.inj hact
      have hfollows : (s.place t).rouse.Follows (.wakeUnlock a n) := by
        rw [hplace]
        exact ⟨nofun, fun _ hwakes => absurd hwakes.2 hmany⟩
      have hholds : (s.place t).rouse.Holds := by
        rw [hplace]
        trivial
      exact Util.Inv.set h.rouse hfollows fun _ => hholds
  | wakeUnlock a n =>
    simp only [Util.act, hplace, Option.some_inj] at hact
    subst hact
    have hnoted : (s.note (noteReturn t)).Inv := by
      -- the wake is due to nobody, so nothing is noted
      refine Util.Inv.note h fun u w k hu => ?_
      have hnot : t ∉ k.due := fun ht => by
        have hwakes := (h.watched u w k hu).2 t ht
        rw [hplace] at hwakes
        exact hwakes
      rw [noteReturn, if_neg hnot]
      exact ⟨rfl, fun _ => id⟩
    have hfollows : ((s.place t).note (noteReturn t)).Follows .program := by
      rw [hplace]
      exact Place.follows (fun _ => id) rfl
    exact Util.Inv.give hnoted hfollows (Place.holds_note.mpr (hplace ▸ trivial)) id

theorem step_signal {u : T} (hstep : step prog s (.signal t u) = some s') :
    ∃ a w k, s.place t = .wakeSignal a 1 ∧ s.place u = .asleep w k ∧
      s' = (if w.addr = a then (s.setPlace u (.woken w 0)).note (noteRelease t a)
        else s.setPlace u (.woken w 0)).setPlace t (.wakeUnlock a 1) := by
  rw [Util.step] at hstep
  split at hstep
  next a w k ht hu => exact ⟨a, w, k, ht, hu, (Option.some.inj hstep).symm⟩
  next => cases hstep

theorem step_spurious {u : T} (hstep : step prog s (.spurious u) = some s') :
    ∃ w k, s.place u = .asleep w k ∧ s' = s.setPlace u (.woken w 0) := by
  rw [Util.step] at hstep
  split at hstep
  next w k hu => exact ⟨w, k, hu, (Option.some.inj hstep).symm⟩
  next => cases hstep

theorem step_timeout {u : T} (hstep : step prog s (.timeout u) = some s') :
    ∃ w k, s.place u = .asleep w k ∧ s' = s.setPlace u (.woken w ETIMEDOUT) := by
  rw [Util.step] at hstep
  split at hstep
  next w k hu =>
    obtain ⟨_, hs'⟩ := Option.ite_none_right_eq_some.mp hstep
    exact ⟨w, k, hu, (Option.some.inj hs').symm⟩
  next => cases hstep

/-- Where no signal can go astray, every signal is due to those it is given for. -/
theorem Inv.signal {u : T} (h : s.Inv) (hsafe : ¬ s.Astray)
    (hstep : step prog s (.signal t u) = some s') : s'.Inv := by
  obtain ⟨a, w, k, ht, hu, rfl⟩ := step_signal hstep
  have hne : t ≠ u := by
    rintro rfl
    rw [ht] at hu
    cases hu
  have hwoken : (s.setPlace u (.woken w 0)).Inv :=
    h.setPlace (hu ▸ Place.follows (fun _ => id) rfl) False.elim
  have ht' : (s.setPlace u (.woken w 0)).place t = .wakeSignal a 1 :=
    (Function.update_of_ne hne ..).trans ht
  split
  next haddr =>
    -- a waiter of the address is released, and the signal is due to no other
    have hnoted := Util.Inv.note hwoken fun _ w k _ => noteRelease_due t a w k
    have ht'' := congrArg (Place.note (noteRelease t a)) ht'
    refine Util.Inv.signalled hnoted ht'' fun v w' k' hv hdue => ?_
    obtain ⟨k', hold, rfl⟩ := Place.exists_of_watch_note hv
    have hwakes := (hwoken.watched v w' k' hold).2 t ((noteRelease_due t a w' k').2 t hdue)
    rw [ht'] at hwakes
    rw [noteRelease, if_pos hwakes.1.symm] at hdue
    simp at hdue
  next haddr =>
    -- nobody it is due to sleeps, since a waiter of another address does
    refine Util.Inv.signalled hwoken ht' fun v w' k' hv hdue => ?_
    have hwakes := (hwoken.watched v w' k' hv).2 t hdue
    rw [ht'] at hwakes
    have hasleep := hwoken.asleep_of_watch ht' hv
    have hvu : v ≠ u := by
      rintro rfl
      cases (Function.update_self ..).symm.trans hasleep
    have hv : s.place v = .asleep w' k' := (Function.update_of_ne hvu ..).symm.trans hasleep
    exact hsafe ⟨t, a, ht, ⟨v, w', k', hv, hwakes.1.symm, hdue⟩, u, w, k, hu, haddr⟩

/-- **A step keeps the invariant** where no signal can go astray. -/
theorem Inv.step {l : Label T} (h : s.Inv) (hsafe : ¬ s.Astray)
    (hstep : step prog s l = some s') : s'.Inv := by
  cases l with
  | act t => exact h.act hstep
  | signal t u => exact h.signal hsafe hstep
  | spurious u =>
    obtain ⟨w, k, hu, rfl⟩ := step_spurious hstep
    exact h.setPlace (hu ▸ Place.follows (fun _ => id) rfl) False.elim
  | timeout u =>
    obtain ⟨w, k, hu, rfl⟩ := step_timeout hstep
    exact h.setPlace (hu ▸ Place.follows (fun _ => id) rfl) False.elim

end Config

/-! ## Lost wake-ups -/

section Lost

variable [DecidableEq T] [Fintype T] [DecidableEq A] {prog : Program A σ}
  {s s' : Config T A σ}

/-- A signal that goes astray loses the wake-up. -/
theorem exists_lost_of_astray (prog : Program A σ) (h : s.Astray) :
    ∃ l₁ s₁ l₂ s₂, step prog s l₁ = some s₁ ∧ step prog s₁ l₂ = some s₂ ∧ s₂.Lost := by
  obtain ⟨t, a, ht, ⟨u, w, k, hu, hw, hdue⟩, v, w', k', hv, haddr⟩ := h
  have htv : t ≠ v := by
    rintro rfl
    cases ht.symm.trans hv
  have hut : u ≠ t := by
    rintro rfl
    cases ht.symm.trans hu
  have huv : u ≠ v := by
    rintro rfl
    cases hu.symm.trans hv
    exact haddr hw
  let s₁ := (s.setPlace v (.woken w' 0)).setPlace t (.wakeUnlock a 1)
  have h₁ : step prog s (.signal t v) = some s₁ := by
    simp only [step, ht, hv, if_neg haddr, s₁]
  have ht₁ : s₁.place t = .wakeUnlock a 1 := Function.update_self ..
  have hu₁ : s₁.place u = .asleep w k :=
    (Function.update_of_ne hut ..).trans ((Function.update_of_ne huv ..).trans hu)
  have h₂ : step prog s₁ (.act t) =
      some { (s₁.note (noteReturn t)).resume prog t 1 with mutex := none } := by
    simp only [step, act, ht₁]
  refine ⟨_, _, _, _, h₁, h₂, u, w, noteReturn t w k, ?_, ?_⟩
  · exact (Function.update_of_ne hut ..).trans (congrArg (Place.note (noteReturn t)) hu₁)
  · rw [noteReturn, if_pos hdue]

/-- Where no signal can go astray, no wake-up is lost. -/
theorem not_lost_of_never_astray {prog : Program A σ} {mem : A → Word} {state : T → σ}
    (hsafe : ∀ s, Reaches (step prog) (.start mem state) s → ¬ s.Astray)
    (hs : Reaches (step prog) (.start mem state) s) : ¬ s.Lost := by
  rintro ⟨u, w, k, hu, hmissed⟩
  have hinv : s.Inv := hs.induct (P := Config.Inv) Inv.start fun hreach hinv hstep =>
    hinv.step (hsafe _ hreach) hstep
  have hkept := (hinv.watched u w k (by rw [hu]; rfl)).1
  rw [hmissed] at hkept
  cases hkept

/-- **No wake-up is lost exactly if no signal can go astray**: in no state that is reached is a
signal about to be given for an address while a waiter it is due to and a waiter of another
address are asleep. -/
theorem never_lost_iff (prog : Program A σ) (mem : A → Word) (state : T → σ) :
    (∀ s, Reaches (step prog) (.start mem state) s → ¬ s.Lost) ↔
      ∀ s, Reaches (step prog) (.start mem state) s → ¬ s.Astray := by
  constructor
  · intro hlost s hs hastray
    obtain ⟨l₁, s₁, l₂, s₂, h₁, h₂, hs₂⟩ := exists_lost_of_astray prog hastray
    exact hlost s₂ ((hs.next h₁).next h₂) hs₂
  · exact fun hsafe _ => not_lost_of_never_astray hsafe

end Lost

/-! ## One address -/

namespace Place

def At (a : A) : Place T A → Prop
  | program => True
  | waitLock w | waitCheck w | condWait w _ | asleep w _ | woken w _ | waitUnlock w _
  | waitReturn w _ => w.addr = a
  | wakeLock b _ | wakeSignal b _ | wakeUnlock b _ => b = a

variable {a : A} {p : Place T A} {f : Wait A → Watch T → Watch T}

theorem at_note (h : p.At a) : (p.note f).At a := by
  cases p <;> exact h

theorem at_rouse (h : p.At a) : p.rouse.At a := by
  cases p <;> exact h

end Place

/-- The programs call the futex for one address only: a property of their states says so. -/
structure Program.Only (prog : Program A σ) (a : A) (Q : σ → Prop) : Prop where
  wait : ∀ x, Q x → ∀ b v timed, prog.call x = some (.futexWait b v timed) → b = a
  wake : ∀ x, Q x → ∀ b n, prog.call x = some (.futexWake b n) → b = a
  resume : ∀ x, Q x → ∀ r, Q (prog.resume x r)

/-- All threads are in calls for one address. -/
structure Config.Only (s : Config T A σ) (a : A) (Q : σ → Prop) : Prop where
  place : ∀ t, (s.place t).At a
  state : ∀ t, Q (s.state t)

section One

variable [DecidableEq T] {prog : Program A σ} {s s' : Config T A σ} {t : T} {a : A}
  {Q : σ → Prop} {p : Place T A}

theorem forall_update {β : Type} {P : β → Prop} {f : T → β} {b : β} (hf : ∀ u, P (f u)) (hb : P b)
    (u : T) : P (Function.update f t b u) :=
  (Function.forall_update_iff f fun _ => P).mpr ⟨hb, fun u _ => hf u⟩ u

namespace Config.Only

theorem setPlace (h : s.Only a Q) (hp : p.At a) : (s.setPlace t p).Only a Q :=
  ⟨forall_update h.place hp, h.state⟩

theorem lock (h : s.Only a Q) (hp : p.At a) (hlock : s.lock t p = some s') : s'.Only a Q := by
  obtain ⟨_, hs'⟩ := Option.ite_none_right_eq_some.mp hlock
  obtain rfl := Option.some.inj hs'
  exact ⟨forall_update h.place hp, h.state⟩

theorem resume (h : s.Only a Q) (hprog : prog.Only a Q) (r : Int) :
    (s.resume prog t r).Only a Q :=
  ⟨forall_update h.place trivial, forall_update h.state (hprog.resume _ (h.state t) r)⟩

variable [DecidableEq A]

theorem perform (h : s.Only a Q) (hprog : prog.Only a Q) {c : Call A}
    (hcall : prog.call (s.state t) = some c) : (perform prog s t c).Only a Q := by
  cases c with
  | rmw b f =>
    have hnoted : (s.note (noteWrite b (f (s.mem b)))).Only a Q :=
      ⟨fun u => Place.at_note (h.place u), h.state⟩
    exact ⟨forall_update hnoted.place trivial,
      forall_update h.state (hprog.resume _ (h.state t) _)⟩
  | futexWait b v timed => exact h.setPlace (hprog.wait _ (h.state t) b v timed hcall)
  | futexWake b n =>
    have hb : b = a := hprog.wake _ (h.state t) b n hcall
    rw [Util.perform]
    split
    next => exact h.resume hprog 0
    next =>
      split
      next =>
        exact setPlace ⟨fun u => Place.at_note (h.place u), h.state⟩ hb
      next => exact h.setPlace hb

variable [Fintype T]

theorem act (h : s.Only a Q) (hprog : prog.Only a Q) (hact : act prog s t = some s') :
    s'.Only a Q := by
  have hat := h.place t
  cases hplace : s.place t with
  | program =>
    simp only [Util.act, hplace] at hact
    obtain ⟨c, hcall, rfl⟩ := Option.map_eq_some_iff.mp hact
    exact h.perform hprog hcall
  | waitLock w =>
    rw [hplace] at hat
    simp only [Util.act, hplace] at hact
    refine h.lock ?_ hact
    exact hat
  | waitCheck w =>
    rw [hplace] at hat
    simp only [Util.act, hplace, Option.some_inj] at hact
    subst hact
    refine h.setPlace ?_
    split <;> exact hat
  | condWait w k =>
    rw [hplace] at hat
    simp only [Util.act, hplace, Option.some_inj] at hact
    subst hact
    exact ⟨forall_update h.place hat, h.state⟩
  | asleep w k => simp only [Util.act, hplace, reduceCtorEq] at hact
  | woken w result =>
    rw [hplace] at hat
    simp only [Util.act, hplace] at hact
    refine h.lock ?_ hact
    split <;> exact hat
  | waitUnlock w result =>
    rw [hplace] at hat
    simp only [Util.act, hplace, Option.some_inj] at hact
    subst hact
    exact ⟨forall_update h.place hat, h.state⟩
  | waitReturn w result =>
    simp only [Util.act, hplace, Option.some_inj] at hact
    subst hact
    exact h.resume hprog _
  | wakeLock b n =>
    rw [hplace] at hat
    simp only [Util.act, hplace] at hact
    refine h.lock ?_ hact
    exact hat
  | wakeSignal b n =>
    rw [hplace] at hat
    simp only [Util.act, hplace] at hact
    split at hact
    next =>
      obtain ⟨_, hs'⟩ := Option.ite_none_right_eq_some.mp hact
      obtain rfl := Option.some.inj hs'
      exact h.setPlace hat
    next =>
      obtain rfl := Option.some.inj hact
      exact ⟨forall_update (fun u => Place.at_rouse (h.place u)) hat, h.state⟩
  | wakeUnlock b n =>
    simp only [Util.act, hplace, Option.some_inj] at hact
    subst hact
    exact ⟨forall_update (fun u => Place.at_note (h.place u)) trivial,
      forall_update h.state (hprog.resume _ (h.state t) n)⟩

theorem signal {u : T} (h : s.Only a Q) (hstep : Util.step prog s (.signal t u) = some s') :
    s'.Only a Q := by
  obtain ⟨b, w, k, ht, hu, rfl⟩ := Config.step_signal hstep
  have hb := h.place t
  have hw := h.place u
  rw [ht] at hb
  rw [hu] at hw
  have hwoken : (s.setPlace u (.woken w 0)).Only a Q := h.setPlace hw
  refine setPlace ?_ hb
  split
  next => exact ⟨fun v => Place.at_note (hwoken.place v), h.state⟩
  next => exact hwoken

theorem step {l : Label T} (h : s.Only a Q) (hprog : prog.Only a Q)
    (hstep : Util.step prog s l = some s') : s'.Only a Q := by
  cases l with
  | act t => exact h.act hprog hstep
  | signal t u => exact h.signal hstep
  | spurious u =>
    obtain ⟨w, k, hu, rfl⟩ := Config.step_spurious hstep
    have hat := h.place u
    rw [hu] at hat
    exact h.setPlace hat
  | timeout u =>
    obtain ⟨w, k, hu, rfl⟩ := Config.step_timeout hstep
    have hat := h.place u
    rw [hu] at hat
    exact h.setPlace hat

end Config.Only

/-- **Threads that wait for one address lose no wake-up.** -/
theorem never_lost_of_only [DecidableEq A] [Fintype T] (hprog : prog.Only a Q) (mem : A → Word)
    (state : T → σ) (hstate : ∀ t, Q (state t))
    (hs : Reaches (step prog) (.start mem state) s) : ¬ s.Lost := by
  refine not_lost_of_never_astray (fun s hs => ?_) hs
  have hstart : (Config.start mem state).Only a Q := ⟨fun _ => trivial, hstate⟩
  have honly : s.Only a Q :=
    hs.induct (P := fun s => s.Only a Q) hstart fun _ h hstep => h.step hprog hstep
  rintro ⟨t, b, ht, _, v, w, k, hv, haddr⟩
  have hb := honly.place t
  have hw := honly.place v
  rw [ht] at hb
  rw [hv] at hw
  exact haddr (hw.trans hb.symm)

end One

end Psbc.Util
