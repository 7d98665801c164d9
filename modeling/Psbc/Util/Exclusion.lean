import Psbc.Util.Moves
import Psbc.Util.SimpleMtx

/-!
# The simple mutex excludes

A thread that uses the mutexes of `simple_mtx.h` has, beside the calls it has yet to make, the
mutexes it holds: from the operation that lets its lock return to the one that lets the mutex go,
which is the decrement of an unlock that finds no waiters and the store of one that does.

Whatever the threads, their mutexes and the wake-ups, a mutex has at most one holder, and its
value is 0 exactly while it has none. Threads that share one mutex and give it back do not come
to a standstill: while one of them sleeps, the value is 2, so that the holder will wake one of
them, or a thread is awake that will wake one or store 2.
-/

namespace Psbc.Util

open Mutex Runs

variable {A : Type}

/-! ## Threads with what they hold -/

structure Client (A : Type) where
  held : List A
  calls : List (MtxCall A)
  deriving DecidableEq, Repr

section Rules

variable [DecidableEq A]

/-- What is held once the first of the calls went on with `c`. -/
def heldAfter (held : List A) : List (MtxCall A) → Int → List A
  | .lock mtx place :: _, c => if place.next c = none then mtx :: held else held
  | .unlock mtx .fetchAdd :: _, c => if c = 1 then held.erase mtx else held
  | .unlock mtx .store :: _, _ => held.erase mtx
  | _, _ => held

/-- The calls of `simpleMtx`, with what is held on the side. -/
def client : Program A (Client A) where
  call x := simpleMtx.call x.calls
  resume x c := ⟨heldAfter x.held x.calls c, simpleMtx.resume x.calls c⟩

theorem calls_eq_nil_of_call {x : Client A} (h : client.call x = none) : x.calls = [] := by
  obtain ⟨held, calls⟩ := x
  match calls with
  | [] => rfl
  | .lock mtx place :: calls | .unlock mtx place :: calls => cases h

/-- A thread locks what it does not hold and unlocks what it holds. -/
def Proper : List A → List (MtxCall A) → Prop
  | _, [] => True
  | held, .lock mtx _ :: calls => mtx ∉ held ∧ Proper (mtx :: held) calls
  | held, .unlock mtx .fetchAdd :: calls => mtx ∈ held ∧ Proper (held.erase mtx) calls
  | held, .unlock mtx .store :: calls => mtx ∈ held ∧ Proper (held.erase mtx) calls
  | held, .unlock _ .wake :: calls => Proper held calls

instance decidableProper : (held : List A) → (calls : List (MtxCall A)) →
    Decidable (Proper held calls)
  | _, [] => .isTrue trivial
  | held, .lock mtx _ :: calls =>
    have := decidableProper (mtx :: held) calls
    inferInstanceAs (Decidable (_ ∧ _))
  | held, .unlock mtx .fetchAdd :: calls =>
    have := decidableProper (held.erase mtx) calls
    inferInstanceAs (Decidable (_ ∧ _))
  | held, .unlock mtx .store :: calls =>
    have := decidableProper (held.erase mtx) calls
    inferInstanceAs (Decidable (_ ∧ _))
  | held, .unlock _ .wake :: calls => decidableProper held calls

def left : List A → List (MtxCall A) → List A
  | held, [] => held
  | held, .lock mtx _ :: calls => left (mtx :: held) calls
  | held, .unlock mtx .fetchAdd :: calls => left (held.erase mtx) calls
  | held, .unlock mtx .store :: calls => left (held.erase mtx) calls
  | held, .unlock _ .wake :: calls => left held calls

/-- A thread that goes by the rules and has one entry for each mutex it holds. -/
structure Client.Proper (x : Client A) : Prop where
  nodup : x.held.Nodup
  calls : Util.Proper x.held x.calls

theorem Client.Proper.resume {x : Client A} (h : x.Proper) (c : Int) :
    (client.resume x c).Proper ∧
      left (client.resume x c).held (client.resume x c).calls = left x.held x.calls := by
  obtain ⟨held, calls⟩ := x
  obtain ⟨hnodup, hcalls⟩ := h
  match calls with
  | [] => exact ⟨⟨hnodup, trivial⟩, rfl⟩
  | .lock mtx place :: calls =>
    cases hnext : place.next c with
    | none =>
      simp only [client, heldAfter, simpleMtx, hnext, if_true, Option.map_none, Option.toList_none,
        List.nil_append]
      exact ⟨⟨List.nodup_cons.mpr ⟨hcalls.1, hnodup⟩, hcalls.2⟩, rfl⟩
    | some place =>
      simp only [client, heldAfter, simpleMtx, hnext, reduceCtorEq, if_false, Option.map_some,
        Option.toList_some, List.singleton_append]
      exact ⟨⟨hnodup, hcalls⟩, rfl⟩
  | .unlock mtx .fetchAdd :: calls =>
    by_cases hc : c = 1
    · simp only [client, heldAfter, simpleMtx, UnlockPlace.next, hc, if_true, ne_eq,
        not_true_eq_false, if_false, Option.map_none, Option.toList_none, List.nil_append]
      exact ⟨⟨hnodup.erase mtx, hcalls.2⟩, rfl⟩
    · simp only [client, heldAfter, simpleMtx, UnlockPlace.next, hc, if_false, ne_eq,
        not_false_eq_true, if_true, Option.map_some, Option.toList_some, List.singleton_append]
      exact ⟨⟨hnodup, hcalls⟩, rfl⟩
  | .unlock mtx .store :: calls => exact ⟨⟨hnodup.erase mtx, hcalls.2⟩, rfl⟩
  | .unlock mtx .wake :: calls => exact ⟨⟨hnodup, hcalls⟩, rfl⟩

theorem held_resume_futex {x : Client A} {c : Call A} (hcall : client.call x = some c)
    (hc : ∀ a f, c ≠ .rmw a f) (r : Int) : (client.resume x r).held = x.held := by
  obtain ⟨held, calls⟩ := x
  match calls with
  | .lock mtx .cmpxchg :: calls | .lock mtx .xchg :: calls | .unlock mtx .fetchAdd :: calls
  | .unlock mtx .store :: calls =>
    exact absurd (Option.some.inj hcall).symm (hc _ _)
  | .lock mtx .wait :: calls | .unlock mtx .wake :: calls => rfl

/-- An operation on the value of a mutex takes the mutex, leaves it locked, or gives it back. -/
inductive Exchange (a : A) (val val' : Word) (held held' : List A) : Prop where
  | take (hval : val = 0) (hval' : val' = 1 ∨ val' = 2) (hheld : held' = a :: held)
  | keep (hval : val ≠ 0) (hval' : val' = 1 ∨ val' = 2) (hheld : held' = held)
  | give (hheld : a ∈ held) (hval' : val' = 0) (hheld' : held' = held.erase a)

theorem exchange_of_rmw {x : Client A} {a : A} {f : Word → Word} {val : Word} (h : x.Proper)
    (hcall : client.call x = some (.rmw a f)) (hlocked : a ∈ x.held → val ≠ 0)
    (hrange : val = 0 ∨ val = 1 ∨ val = 2) :
    Exchange a val (f val) x.held (client.resume x val.toNat).held := by
  obtain ⟨held, calls⟩ := x
  match calls with
  | .lock mtx .cmpxchg :: calls =>
    cases hcall
    obtain rfl | rfl | rfl := hrange
    · exact .take rfl (.inl rfl) rfl
    · exact .keep (by decide) (.inl rfl) rfl
    · exact .keep (by decide) (.inr rfl) rfl
  | .lock mtx .xchg :: calls =>
    cases hcall
    obtain rfl | rfl | rfl := hrange
    · exact .take rfl (.inr rfl) rfl
    · exact .keep (by decide) (.inr rfl) rfl
    · exact .keep (by decide) (.inr rfl) rfl
  | .unlock mtx .fetchAdd :: calls =>
    cases hcall
    obtain rfl | rfl | rfl := hrange
    · exact absurd rfl (hlocked h.calls.1)
    · exact .give h.calls.1 rfl rfl
    · exact .keep (by decide) (.inl rfl) rfl
  | .unlock mtx .store :: calls =>
    cases hcall
    exact .give h.calls.1 rfl rfl

end Rules

/-! ## At most one holder -/

/-- The value of a mutex that the threads hold: 0 exactly if nobody does, else 1 or 2. -/
structure Owned {T : Type} (val : Word) (holds : T → Prop) (owner : Option T) : Prop where
  holder : ∀ u, holds u ↔ owner = some u
  free : val = 0 ↔ owner = none
  range : val = 0 ∨ val = 1 ∨ val = 2

namespace Owned

variable {T : Type} {val val' : Word} {holds holds' : T → Prop} {owner : Option T} {t : T}

theorem congr (h : Owned val holds owner) (hholds : ∀ u, holds' u ↔ holds u) :
    Owned val holds' owner where
  holder u := (hholds u).trans (h.holder u)
  free := h.free
  range := h.range

theorem keep (h : Owned val holds owner) (hval : val ≠ 0) (hval' : val' = 1 ∨ val' = 2)
    (hholds : ∀ u, holds' u ↔ holds u) : Owned val' holds' owner where
  holder u := (hholds u).trans (h.holder u)
  free := by
    refine iff_of_false ?_ fun hnone => hval (h.free.mpr hnone)
    obtain rfl | rfl := hval' <;> decide
  range := .inr hval'

theorem take (h : Owned 0 holds owner) (hval' : val' = 1 ∨ val' = 2) (ht : holds' t)
    (hholds : ∀ u ≠ t, holds' u ↔ holds u) : Owned val' holds' (some t) where
  holder u := by
    have hnone : owner = none := h.free.mp rfl
    by_cases hu : u = t
    · exact iff_of_true (hu ▸ ht) (congrArg some hu.symm)
    · rw [hholds u hu, h.holder, hnone]
      exact iff_of_false nofun fun heq => hu (Option.some.inj heq).symm
  free := by
    refine iff_of_false ?_ nofun
    obtain rfl | rfl := hval' <;> decide
  range := .inr hval'

theorem give (h : Owned val holds owner) (ht : holds t) (ht' : ¬ holds' t)
    (hholds : ∀ u ≠ t, holds' u ↔ holds u) : Owned 0 holds' none where
  holder u := by
    refine iff_of_false ?_ nofun
    by_cases hu : u = t
    · exact hu ▸ ht'
    · rw [hholds u hu, h.holder, (h.holder t).mp ht]
      exact fun heq => hu (Option.some.inj heq).symm
  free := iff_of_true rfl rfl
  range := .inl rfl

end Owned

section Exclusion

variable {T : Type} [DecidableEq A]

def Config.Holds (s : Config T A (Client A)) (mtx : A) (t : T) : Prop := mtx ∈ (s.state t).held

/-- The threads go by the rules, and every mutex is held by nobody or by one of them. -/
structure Config.Sound (s : Config T A (Client A)) : Prop where
  inCalls : s.InCalls client
  proper : ∀ t, (s.state t).Proper
  owned : ∀ mtx, ∃ owner, Owned (s.mem mtx) (s.Holds mtx) owner

namespace Config.Sound

variable {s s' : Config T A (Client A)} {t : T}

theorem start {calls : T → List (MtxCall A)} (hcalls : ∀ t, Proper [] (calls t)) :
    (Config.start (fun _ => 0) fun t => ⟨[], calls t⟩ : Config T A (Client A)).Sound where
  inCalls _ := .inl rfl
  proper t := ⟨.nil, hcalls t⟩
  owned _ := ⟨none, fun _ => iff_of_false List.not_mem_nil nofun, iff_of_true rfl rfl, .inl rfl⟩

theorem locked (h : s.Sound) {mtx : A} (ht : s.Holds mtx t) : s.mem mtx ≠ 0 := by
  obtain ⟨owner, howned⟩ := h.owned mtx
  intro hval
  cases ((howned.holder t).mp ht).symm.trans (howned.free.mp hval)

variable [DecidableEq T]

theorem rmw (h : s.Sound) {a : A} {f : Word → Word}
    (hcall : client.call (s.state t) = some (.rmw a f)) (mtx : A) :
    ∃ owner, Owned (Function.update s.mem a (f (s.mem a)) mtx)
      (fun u => mtx ∈ (Function.update s.state t
        (client.resume (s.state t) (s.mem a).toNat) u).held) owner := by
  obtain ⟨owner, howned⟩ := h.owned mtx
  have hother : ∀ u ≠ t, (mtx ∈ (Function.update s.state t
      (client.resume (s.state t) (s.mem a).toNat) u).held ↔ s.Holds mtx u) := by
    intro u hu
    rw [Function.update_of_ne hu]
    exact Iff.rfl
  have hself : ∀ {held}, (client.resume (s.state t) (s.mem a).toNat).held = held →
      (mtx ∈ (Function.update s.state t
        (client.resume (s.state t) (s.mem a).toNat) t).held ↔ mtx ∈ held) := by
    intro held hheld
    rw [Function.update_self, hheld]
  have hall : (mtx ∈ (Function.update s.state t
      (client.resume (s.state t) (s.mem a).toNat) t).held ↔ s.Holds mtx t) →
      ∀ u, (mtx ∈ (Function.update s.state t
        (client.resume (s.state t) (s.mem a).toNat) u).held ↔ s.Holds mtx u) := by
    intro ht u
    by_cases hu : u = t
    · exact hu ▸ ht
    · exact hother u hu
  have hexchange := exchange_of_rmw (h.proper t) hcall h.locked (h.owned a).choose_spec.range
  by_cases hmtx : mtx = a
  · subst hmtx
    rw [Function.update_self]
    cases hexchange with
    | take hval hval' hheld =>
      rw [hval] at howned
      exact ⟨some t, howned.take hval' ((hself hheld).mpr List.mem_cons_self) hother⟩
    | keep hval hval' hheld => exact ⟨owner, howned.keep hval hval' (hall (hself hheld))⟩
    | give hheld hval' hheld' =>
      rw [hval']
      refine ⟨none, howned.give (t := t) hheld (fun hmem => ?_) hother⟩
      exact (h.proper t).nodup.not_mem_erase ((hself hheld').mp hmem)
  · -- what is held of the other mutexes is what was
    rw [Function.update_of_ne hmtx]
    refine ⟨owner, howned.congr (hall ?_)⟩
    cases hexchange with
    | take _ _ hheld => exact (hself hheld).trans (List.mem_cons.trans (or_iff_right hmtx))
    | keep _ _ hheld => exact hself hheld
    | give _ _ hheld' => exact (hself hheld').trans (List.mem_erase_of_ne hmtx)

theorem move (h : s.Sound) (hmove : Move client s s') : s'.Sound := by
  have hproper : ∀ t r,
      ∀ u, (Function.update s.state t (client.resume (s.state t) r) u).Proper :=
    fun t r => forall_update h.proper ((h.proper t).resume r).1
  refine ⟨h.inCalls.move hmove, ?_, fun mtx => ?_⟩
  · obtain ⟨t, a, f, _, _, _, hstate⟩ | ⟨_, hstate | ⟨t, c, r, _, _, hstate⟩⟩ :=
      hmove.effect h.inCalls
    · exact hstate ▸ hproper t _
    · exact hstate ▸ h.proper
    · exact hstate ▸ hproper t r
  · unfold Config.Holds
    obtain ⟨t, a, f, _, hcall, hmem, hstate⟩ | ⟨hmem, hstate | ⟨t, c, r, hcall, hc, hstate⟩⟩ :=
      hmove.effect h.inCalls
    · rw [hmem, hstate]
      exact h.rmw hcall mtx
    · rw [hmem, hstate]
      exact h.owned mtx
    · rw [hmem, hstate]
      obtain ⟨owner, howned⟩ := h.owned mtx
      refine ⟨owner, howned.congr fun u => ?_⟩
      by_cases hu : u = t
      · rw [hu, Function.update_self, held_resume_futex hcall hc]
        exact Iff.rfl
      · rw [Function.update_of_ne hu]
        exact Iff.rfl

end Config.Sound

variable [DecidableEq T] [Fintype T]

theorem sound_of_reaches {calls : T → List (MtxCall A)} (hcalls : ∀ t, Proper [] (calls t))
    {s : Config T A (Client A)}
    (hs : Reaches (step client) (.start (fun _ => 0) fun t => ⟨[], calls t⟩) s) : s.bare.Sound :=
  bare_of_reaches (P := Config.Sound) (.start hcalls) Config.Sound.move hs

/-- The configuration of the plain calls. -/
def Config.forget (s : Config T A (Client A)) : Config T A (List (MtxCall A)) :=
  ⟨s.mem, s.mutex, s.place, fun t => (s.state t).calls⟩

omit [Fintype T] in
theorem forget_resume (s : Config T A (Client A)) (t : T) (r : Int) :
    (s.resume client t r).forget = s.forget.resume simpleMtx t r := by
  refine congrArg (Config.mk s.mem s.mutex (Function.update s.place t .program)) ?_
  exact funext fun u => Function.apply_update (fun _ => Client.calls) s.state t _ u

/-- What is held on the side changes nothing. -/
theorem step_forget (s : Config T A (Client A)) (l : Label T) :
    (step client s l).map Config.forget = step simpleMtx s.forget l := by
  have hlock : ∀ t p, (s.lock t p).map Config.forget = s.forget.lock t p := by
    exact fun t p => apply_ite (Option.map Config.forget) (s.mutex = none) _ _
  cases l with
  | act t =>
    have hplace : s.forget.place t = s.place t := rfl
    rw [step, step, act, act, hplace]
    cases s.place t with
    | program =>
      have hcall : client.call (s.state t) = simpleMtx.call (s.forget.state t) := rfl
      dsimp only
      rw [hcall, Option.map_map]
      refine Option.map_congr fun c _ => ?_
      cases c with
      | rmw a f => exact forget_resume { s.note _ with mem := _ } t _
      | futexWait a value timed => rfl
      | futexWake a n =>
        dsimp only [Function.comp_apply, perform]
        split
        next => exact forget_resume s t 0
        next => split <;> rfl
    | waitLock w | woken w result | wakeLock a n => exact hlock t _
    | waitCheck w | condWait w k | asleep w k | waitUnlock w result => rfl
    | waitReturn w result => exact congrArg some (forget_resume s t _)
    | wakeSignal a n =>
      dsimp only
      split
      next => exact apply_ite (Option.map Config.forget) _ _ _
      next => rfl
    | wakeUnlock a n =>
      exact congrArg (fun s' : Config T A _ => some { s' with mutex := none })
        (forget_resume (s.note (noteReturn t)) t n)
  | signal t u =>
    have ht : s.forget.place t = s.place t := rfl
    have hu : s.forget.place u = s.place u := rfl
    rw [step, step, ht, hu]
    split
    next =>
      dsimp only
      split <;> rfl
    next => rfl
  | spurious u =>
    have hu : s.forget.place u = s.place u := rfl
    rw [step, step, hu]
    split <;> rfl
  | timeout u =>
    have hu : s.forget.place u = s.place u := rfl
    rw [step, step, hu]
    split
    next => split <;> rfl
    next => rfl

/-- **A mutex has at most one holder, and its value says whether it has one.** -/
theorem simpleMtx_excludes {calls : T → List (MtxCall A)} (hcalls : ∀ t, Proper [] (calls t))
    {s : Config T A (Client A)}
    (hs : Reaches (step client) (.start (fun _ => 0) fun t => ⟨[], calls t⟩) s) (mtx : A) :
    (∀ t u, s.Holds mtx t → s.Holds mtx u → t = u) ∧
      (s.mem mtx = 0 ↔ ∀ t, ¬ s.Holds mtx t) ∧
      (s.mem mtx = 0 ∨ s.mem mtx = 1 ∨ s.mem mtx = 2) := by
  obtain ⟨owner, hholder, hfree, hrange⟩ := (sound_of_reaches hcalls hs).owned mtx
  refine ⟨fun t u ht hu => ?_, hfree.trans ⟨fun hnone t ht => ?_, fun hnobody => ?_⟩, hrange⟩
  · exact Option.some.inj (((hholder t).mp ht).symm.trans ((hholder u).mp hu))
  · cases hnone.symm.trans ((hholder t).mp ht)
  · cases owner with
    | none => rfl
    | some t => exact absurd ((hholder t).mpr rfl) (hnobody t)

/-! Two threads that want one mutex: the first takes it, and the second goes to sleep. -/

def contenders : Bool → List (MtxCall Unit) := fun _ => [.lock () .cmpxchg, .unlock () .fetchAdd]

def contention : List (Label Bool) := .act false :: List.replicate 6 (.act true)

def contended : Option (Config Bool Unit (Client Unit)) :=
  run (step client) (.start (fun _ => 0) fun t => ⟨[], contenders t⟩) contention

/-- Only the first holds the mutex, which has a waiter. -/
theorem contention_excludes :
    contended.map (fun s => (s.mem (), (s.state false).held)) = some (2, [()]) ∧
      ∀ s, contended = some s → ∀ t u, s.Holds () t → s.Holds () u → t = u :=
  have hcalls : ∀ t, Proper [] (contenders t) := by decide
  ⟨by decide, fun _ hs => (simpleMtx_excludes hcalls ⟨contention, hs⟩ ()).1⟩

end Exclusion

/-! ## No standstill -/

section Progress

variable {T : Type}

def Place.Sleeps : Place T A → Prop
  | condWait .. | asleep .. => True
  | _ => False

/-- The thread is on its way to wake a waiter, to store 2 or to find the value 2. -/
def Busy : Place T A → List (MtxCall A) → Prop
  | .program, .lock _ .xchg :: _ | .program, .lock _ .wait :: _ => True
  | .program, .unlock _ .store :: _ | .program, .unlock _ .wake :: _ => True
  | .waitLock _, _ | .waitCheck _, _ | .woken .., _ | .waitUnlock .., _ | .waitReturn .., _ => True
  | .wakeLock .., _ | .wakeSignal .., _ => True
  | _, _ => False

/-- While a thread sleeps, the value is 2 or a thread is busy. -/
def Awake (val : Word) (place : T → Place T A) (state : T → Client A) : Prop :=
  (∃ u, (place u).Sleeps) → val = 2 ∨ ∃ t, Busy (place t) (state t).calls

theorem Awake.of_busy {val : Word} {place : T → Place T A} {state : T → Client A} {t : T}
    (h : Busy (place t) (state t).calls) : Awake val place state := fun _ => .inr ⟨t, h⟩

variable [DecidableEq T]

theorem Awake.move {val val' : Word} {place : T → Place T A} {state : T → Client A} {t : T}
    {p : Place T A} {x : Client A} (h : Awake val place state)
    (hsleep : p.Sleeps → (place t).Sleeps ∨ val' = 2) (hval : val = 2 → val' = 2 ∨ Busy p x.calls)
    (hbusy : Busy (place t) (state t).calls → val' = 2 ∨ Busy p x.calls) :
    Awake val' (Function.update place t p) (Function.update state t x) := by
  have hmoved : Busy p x.calls → ∃ u,
      Busy (Function.update place t p u) (Function.update state t x u).calls := by
    intro hp
    refine ⟨t, ?_⟩
    rw [Function.update_self, Function.update_self]
    exact hp
  rintro ⟨u, hu⟩
  have hslept : (∃ u, (place u).Sleeps) ∨ val' = 2 := by
    by_cases hut : u = t
    · subst hut
      rw [Function.update_self] at hu
      exact (hsleep hu).imp_left fun hold => ⟨u, hold⟩
    · rw [Function.update_of_ne hut] at hu
      exact .inl ⟨u, hu⟩
  obtain hslept | htwo := hslept
  · obtain htwo | ⟨b, hb⟩ := h hslept
    · exact (hval htwo).imp_right hmoved
    · by_cases hbt : b = t
      · subst hbt
        exact (hbusy hb).imp_right hmoved
      · refine .inr ⟨b, ?_⟩
        rw [Function.update_of_ne hbt, Function.update_of_ne hbt]
        exact hb
  · exact .inl htwo

variable [DecidableEq A]

omit [DecidableEq T] in
/-- An operation on the mutex leaves 2 there or its thread busy, if 2 was there or its thread was
busy. -/
theorem busy_of_rmw {x : Client A} {mtx a : A} {f : Word → Word} (val : Word)
    (honly : ∀ c ∈ x.calls, c.mtx = mtx) (hcall : client.call x = some (.rmw a f)) :
    a = mtx ∧ (val = 2 ∨ Busy (.program : Place T A) x.calls →
      f val = 2 ∨ Busy (.program : Place T A) (client.resume x val.toNat).calls) := by
  obtain ⟨held, calls⟩ := x
  match calls with
  | .lock mtx' .cmpxchg :: calls =>
    cases hcall
    refine ⟨honly _ (.head _), ?_⟩
    rintro (rfl | hbusy)
    · exact .inl rfl
    · exact hbusy.elim
  | .lock mtx' .xchg :: calls =>
    cases hcall
    exact ⟨honly _ (.head _), fun _ => .inl rfl⟩
  | .unlock mtx' .fetchAdd :: calls =>
    cases hcall
    refine ⟨honly _ (.head _), ?_⟩
    rintro (rfl | hbusy)
    · exact .inr trivial
    · exact hbusy.elim
  | .unlock mtx' .store :: calls =>
    cases hcall
    exact ⟨honly _ (.head _), fun _ => .inr trivial⟩

/-- The threads share one mutex and give it back, and while one sleeps another will wake it. -/
structure Config.Live (s : Config T A (Client A)) (mtx : A) : Prop where
  sound : s.Sound
  held : s.Held
  only : ∀ t, ∀ c ∈ (s.state t).calls, c.mtx = mtx
  left : ∀ t, Util.left (s.state t).held (s.state t).calls = []
  awake : Awake (s.mem mtx) s.place s.state

namespace Config.Live

variable {s s' : Config T A (Client A)} {mtx : A} {t : T}

omit [DecidableEq T] in
theorem wait_of_call (h : s.Live mtx) {w : Wait A}
    (hcall : client.call (s.state t) = some (.futexWait w.addr w.value w.timed)) :
    w.addr = mtx ∧ w.value = 2 ∧ ∃ calls, (s.state t).calls = .lock mtx .wait :: calls := by
  have honly := h.only t
  revert hcall honly
  generalize s.state t = x
  obtain ⟨held, calls⟩ := x
  intro hcall honly
  match calls with
  | .lock mtx' .wait :: calls =>
    obtain rfl : mtx' = mtx := honly _ (.head _)
    simp only [client, simpleMtx, simpleMtxLock, Option.some.injEq, Call.futexWait.injEq] at hcall
    exact ⟨hcall.1.symm, hcall.2.1.symm, calls, rfl⟩

omit [DecidableEq T] in
theorem wake_of_call (h : s.Live mtx) {a : A} {n : Int}
    (hcall : client.call (s.state t) = some (.futexWake a n)) :
    n = 1 ∧ ∃ calls, (s.state t).calls = .unlock mtx .wake :: calls := by
  have honly := h.only t
  revert hcall honly
  generalize s.state t = x
  obtain ⟨held, calls⟩ := x
  intro hcall honly
  match calls with
  | .unlock mtx' .wake :: calls =>
    obtain rfl : mtx' = mtx := honly _ (.head _)
    simp only [client, simpleMtx, simpleMtxUnlock, Option.some.injEq,
      Call.futexWake.injEq] at hcall
    exact ⟨hcall.2.symm, calls, rfl⟩

theorem awake_rmw (h : s.Live mtx) {a : A} {f : Word → Word} (ht : s.place t = .program)
    (hcall : client.call (s.state t) = some (.rmw a f)) :
    Awake (Function.update s.mem a (f (s.mem a)) mtx) s.place
      (Function.update s.state t (client.resume (s.state t) (s.mem a).toNat)) := by
  obtain ⟨rfl, hbusy⟩ := busy_of_rmw (T := T) (s.mem a) (h.only t) hcall
  have hmoved := h.awake.move (t := t) (p := .program) nofun (fun hval => hbusy (.inl hval))
    fun hold => hbusy (.inr (ht ▸ hold))
  rw [← ht, Function.update_eq_self] at hmoved
  rw [Function.update_self]
  exact hmoved

omit [DecidableEq A] in
theorem awake_setPlace {p : Place T A} (hp : ∀ calls, Busy p calls) :
    Awake (s.mem mtx) (s.setPlace t p).place s.state := by
  refine .of_busy (t := t) ?_
  rw [place_setPlace]
  exact hp _

theorem awake_move (h : s.Live mtx) (hmove : Move client s s') :
    Awake (s'.mem mtx) s'.place s'.state := by
  cases hmove with
  | rmw ht hcall => exact h.awake_rmw ht hcall
  | wait ht hcall => exact awake_setPlace fun _ => trivial
  | wake ht hcall => exact awake_setPlace fun _ => trivial
  | wakeNone ht hcall hn =>
    obtain ⟨rfl, _⟩ := h.wake_of_call hcall
    exact absurd hn (by decide)
  | @lock t p ht hfree =>
    refine awake_setPlace (t := t) ?_
    revert ht
    cases s.place t with
    | waitLock w | wakeLock a n =>
      intro ht
      obtain rfl := Option.some.inj ht
      exact fun _ => trivial
    | woken w result =>
      intro ht
      obtain rfl := Option.some.inj ht
      split <;> exact fun _ => trivial
    | _ => exact nofun
  | @check t w ht =>
    split
    next hval =>
      obtain ⟨haddr, htwo, _⟩ := h.wait_of_call (h.sound.inCalls.call (congrArg Place.call ht))
      rw [haddr, htwo] at hval
      exact fun _ => .inl hval
    next => exact awake_setPlace fun _ => trivial
  | @unlock t p ht =>
    revert ht
    cases hplace : s.place t with
    | waitUnlock w result =>
      intro ht
      obtain rfl := Option.some.inj ht
      exact awake_setPlace (t := t) fun _ => trivial
    | condWait w k =>
      intro ht
      obtain rfl := Option.some.inj ht
      have hmoved := h.awake.move (t := t) (p := .asleep w k) (x := s.state t)
        (fun _ => .inl (hplace ▸ trivial)) .inl (hplace ▸ nofun)
      rw [Function.update_eq_self] at hmoved
      exact hmoved
    | _ => exact nofun
  | @waitReturn t w result r ht =>
    obtain ⟨_, _, calls, hcalls⟩ := h.wait_of_call (h.sound.inCalls.call (congrArg Place.call ht))
    have hbusy : Busy (.program : Place T A) (client.resume (s.state t) r).calls := by
      simp only [client, hcalls, simpleMtx, LockPlace.next]
      trivial
    exact h.awake.move nofun (fun _ => .inr hbusy) fun _ => .inr hbusy
  | @signal t u a w k ht hu =>
    have hne : u ≠ t := by
      rintro rfl
      cases ht.symm.trans hu
    refine .of_busy (t := u) ?_
    rw [place_setPlace_of_ne _ hne, place_setPlace]
    trivial
  | @signalNone t a ht hnone =>
    rintro ⟨u, hu⟩
    -- the thread that signals has the mutex, so nobody is on the way to sleep
    by_cases hut : u = t
    · subst hut
      rw [place_setPlace] at hu
      exact hu.elim
    · rw [place_setPlace_of_ne s hut] at hu
      have hasleep := hnone u
      have howner : s.mutex = some t := (h.held t).mp (ht ▸ trivial)
      revert hu hasleep
      cases hplace : s.place u with
      | asleep => exact nofun
      | condWait =>
        have hmutex := (h.held u).mp (hplace ▸ trivial)
        exact fun _ _ => absurd (Option.some.inj (hmutex.symm.trans howner)) hut
      | _ => exact nofun
  | broadcast ht hn =>
    obtain ⟨rfl, _⟩ := h.wake_of_call (h.sound.inCalls.call (congrArg Place.call ht))
    exact absurd rfl hn
  | @wakeReturn t a n ht => exact h.awake.move nofun .inl (ht ▸ nofun)
  | rouse hu => exact awake_setPlace fun _ => trivial

omit [DecidableEq T] in
theorem start {calls : T → List (MtxCall A)} (hcalls : ∀ t, Proper [] (calls t))
    (hleft : ∀ t, Util.left [] (calls t) = []) (honly : ∀ t, ∀ c ∈ calls t, c.mtx = mtx) :
    (Config.start (fun _ => 0) fun t => ⟨[], calls t⟩ : Config T A (Client A)).Live mtx where
  sound := .start hcalls
  held _ := iff_of_false id nofun
  only := honly
  left := hleft
  awake := fun ⟨_, hu⟩ => hu.elim

theorem move (h : s.Live mtx) (hmove : Move client s s') : s'.Live mtx := by
  have hresume : ∀ t r u,
      (∀ c ∈ (Function.update s.state t (client.resume (s.state t) r) u).calls, c.mtx = mtx) ∧
      Util.left (Function.update s.state t (client.resume (s.state t) r) u).held
        (Function.update s.state t (client.resume (s.state t) r) u).calls = [] := fun t r =>
    forall_update (P := fun x : Client A => (∀ c ∈ x.calls, c.mtx = mtx) ∧
      Util.left x.held x.calls = []) (fun u => ⟨h.only u, h.left u⟩)
      ⟨mtx_of_mem_resume (h.only t) r, ((h.sound.proper t).resume r).2.trans (h.left t)⟩
  have hstate : ∀ u, (∀ c ∈ (s'.state u).calls, c.mtx = mtx) ∧
      Util.left (s'.state u).held (s'.state u).calls = [] := by
    obtain ⟨t, a, f, _, _, _, hstate⟩ | ⟨_, hstate | ⟨t, c, r, _, _, hstate⟩⟩ :=
      hmove.effect h.sound.inCalls
    · exact hstate ▸ hresume t _
    · exact hstate ▸ fun u => ⟨h.only u, h.left u⟩
    · exact hstate ▸ hresume t r
  exact ⟨h.sound.move hmove, h.held.move hmove, fun u => (hstate u).1, fun u => (hstate u).2,
    h.awake_move hmove⟩

end Config.Live

/-- **Threads that share one mutex and give it back never come to a standstill.** As long as one
of them has calls to make, some thread goes on with its own code or is signalled. -/
theorem simpleMtx_proceeds [Fintype T] {calls : T → List (MtxCall A)} {mtx : A}
    (hcalls : ∀ t, Proper [] (calls t)) (hleft : ∀ t, left [] (calls t) = [])
    (honly : ∀ t, ∀ c ∈ calls t, c.mtx = mtx) {s : Config T A (Client A)}
    (hs : Reaches (step client) (.start (fun _ => 0) fun t => ⟨[], calls t⟩) s) {t : T}
    (ht : (s.state t).calls ≠ []) : s.CanStep client := by
  by_contra hstuck
  have hlive : s.bare.Live mtx :=
    bare_of_reaches (P := fun s => s.Live mtx) (.start hcalls hleft honly) Config.Live.move hs
  have hended := ended_or_asleep hlive.held.of_bare hstuck
  -- the thread sleeps, nobody is busy, so the value is 2
  obtain ⟨_, hcall⟩ | ⟨w, k, hasleep⟩ := hended t
  · exact ht (calls_eq_nil_of_call hcall)
  have hsleeps : ∃ u, (s.bare.place u).Sleeps := by
    refine ⟨t, ?_⟩
    rw [Config.bare_place, hasleep]
    trivial
  have htwo : s.mem mtx = 2 := by
    refine (hlive.awake hsleeps).resolve_right ?_
    rintro ⟨b, hb⟩
    rw [Config.bare_place, Config.bare_state] at hb
    obtain ⟨hplace, hcall⟩ | ⟨w, k, hplace⟩ := hended b
    · rw [hplace, calls_eq_nil_of_call hcall] at hb
      exact hb
    · rw [hplace] at hb
      exact hb
  -- the holder has calls to make and does not sleep
  obtain ⟨owner, howned⟩ := hlive.sound.owned mtx
  cases owner with
  | none =>
    rw [Config.bare_mem, htwo] at howned
    exact absurd (howned.free.mpr rfl) (by decide)
  | some h =>
    have hheld : mtx ∈ (s.state h).held := (howned.holder h).mpr rfl
    obtain ⟨_, hcall⟩ | ⟨w, k, hplace⟩ := hended h
    · have hnil := hlive.left h
      rw [Config.bare_state, calls_eq_nil_of_call hcall] at hnil
      rw [show (s.state h).held = [] from hnil] at hheld
      cases hheld
    · have hcall := hlive.sound.inCalls.call (t := h)
        (congrArg (fun p : Place T A => p.bare.call) hplace)
      obtain ⟨_, _, calls, hwait⟩ := hlive.wait_of_call hcall
      have hproper := (hlive.sound.proper h).calls
      rw [hwait] at hproper
      exact hproper.1 hheld

/-- The holder can go on while the other sleeps. -/
theorem contention_proceeds :
    contended.map (fun s => (s.state true).calls) = some [.lock () .wait, .unlock () .fetchAdd] ∧
      ∀ s, contended = some s → s.CanStep client := by
  have hcalls : contended.map (fun s => (s.state true).calls) =
      some [.lock () .wait, .unlock () .fetchAdd] := by decide
  refine ⟨hcalls, fun s hs => ?_⟩
  rw [hs, Option.map_some, Option.some.injEq] at hcalls
  have hproper : ∀ t, Proper [] (contenders t) := by decide
  have honly : ∀ t, ∀ c ∈ contenders t, c.mtx = () := fun _ _ _ => rfl
  have hmore : (s.state true).calls ≠ [] := by
    rw [hcalls]
    exact nofun
  exact simpleMtx_proceeds hproper (by decide) honly ⟨contention, hs⟩ hmore

end Progress

end Psbc.Util
