import Mathlib.Data.Fintype.Basic
import Psbc.Lib.Mutex
import Psbc.Lib.Runs

/-!
# The futex over one condition variable

The Orbis backend of `futex.c` has one mutex and one condition variable for all addresses. A
waiter checks the value while it holds the mutex and goes to sleep on the condition variable; a
wake takes the mutex and signals one sleeper, or all when more than one thread shall be woken.
A signal releases any one sleeper, whatever its address.

The threads run any programs that change values and call `futex_wait` and `futex_wake`. A
`Config` has each thread at its place in the code, and each waiter with the history that a lost
wake-up is about: whether the value was changed since it found the expected one, which calls of
`futex_wake` for one waiter of its address began after that, and whether one of them ended
without releasing a waiter of the address.

A wake-up is lost exactly if a signal can go astray: it is given for an address while its waiter
and a waiter of another address are asleep.
-/

namespace Psbc.Util

open Mutex Runs

/-! ## Programs -/

abbrev Word := BitVec 32

/-- What a program does next: change a value in one atomic operation, or call the futex. -/
inductive Call (A : Type) where
  | rmw (addr : A) (f : Word → Word)
  | futexWait (addr : A) (value : Word) (timed : Bool)
  | futexWake (addr : A) (count : Int)

/-- The program of the threads; a state without a call has ended. The program goes on with what
the call returned, for a change of a value with the one before. -/
structure Program (A σ : Type) where
  call : σ → Option (Call A)
  resume : σ → Int → σ

/-! ## Threads -/

structure Wait (A : Type) where
  addr : A
  value : Word
  timed : Bool
  deriving DecidableEq, Repr

/-- What happened since a waiter found the value it expects. -/
structure Watch (T : Type) where
  /-- The value was changed to another one. -/
  changed : Bool
  /-- The wakes of one waiter that began since the change and have not released one. -/
  due : List T
  /-- One of them ended. -/
  missed : Bool
  deriving DecidableEq, Repr

def Watch.fresh {T : Type} : Watch T := ⟨false, [], false⟩

inductive Place (T A : Type) where
  | program
  | waitLock (w : Wait A)
  | waitCheck (w : Wait A)
  | condWait (w : Wait A) (k : Watch T)
  | asleep (w : Wait A) (k : Watch T)
  | woken (w : Wait A) (result : Int)
  | waitUnlock (w : Wait A) (result : Int)
  | waitReturn (w : Wait A) (result : Int)
  | wakeLock (addr : A) (count : Int)
  | wakeSignal (addr : A) (count : Int)
  | wakeUnlock (addr : A) (count : Int)
  deriving DecidableEq, Repr

namespace Place

variable {T A : Type}

def Holds : Place T A → Prop
  | waitCheck _ | condWait .. | waitUnlock .. | wakeSignal .. | wakeUnlock .. => True
  | _ => False

/-- The thread found the expected value and has not been woken. -/
def watch : Place T A → Option (Wait A × Watch T)
  | condWait w k => some (w, k)
  | asleep w k => some (w, k)
  | _ => none

/-- The thread has yet to signal one waiter, for the address. -/
def WakesOne (a : A) : Place T A → Prop
  | wakeLock b n | wakeSignal b n => b = a ∧ n = 1
  | _ => False

def isAsleep : Place T A → Bool
  | asleep .. => true
  | _ => false

def note (f : Wait A → Watch T → Watch T) : Place T A → Place T A
  | condWait w k => condWait w (f w k)
  | asleep w k => asleep w (f w k)
  | p => p

def rouse : Place T A → Place T A
  | asleep w _ => woken w 0
  | p => p

section Note

variable {f : Wait A → Watch T → Watch T} {p : Place T A} {a : A} {w : Wait A} {k : Watch T}

theorem holds_note : (p.note f).Holds ↔ p.Holds := by
  cases p <;> exact Iff.rfl

theorem wakesOne_note : (p.note f).WakesOne a ↔ p.WakesOne a := by
  cases p <;> exact Iff.rfl

theorem exists_of_watch_note (h : (p.note f).watch = some (w, k)) :
    ∃ k', p.watch = some (w, k') ∧ f w k' = k := by
  cases p <;> cases h <;> exact ⟨_, rfl, rfl⟩

theorem holds_rouse : p.rouse.Holds → p.Holds := by
  cases p <;> exact id

theorem wakesOne_rouse : p.WakesOne a → p.rouse.WakesOne a := by
  cases p <;> exact id

theorem watch_of_rouse (h : p.rouse.watch = some (w, k)) : p.watch = some (w, k) := by
  cases p <;> first | exact h | cases h

end Note

end Place

/-! ## Steps -/

structure Config (T A σ : Type) where
  mem : A → Word
  mutex : Option T
  place : T → Place T A
  state : T → σ

/-- What happens next: a step of a thread's own code, a signal of `t` that releases `u`, or a
sleeper that is released by no signal. -/
inductive Label (T : Type) where
  | act (t : T)
  | signal (t u : T)
  | spurious (u : T)
  | timeout (u : T)
  deriving DecidableEq, Repr

def ETIMEDOUT : Int := 60

section Steps

variable {T A σ : Type} [DecidableEq T] [Fintype T] [DecidableEq A]

/-- The value at `a` is now `v`. -/
def noteWrite (a : A) (v : Word) (w : Wait A) (k : Watch T) : Watch T :=
  if w.addr = a ∧ v ≠ w.value then { k with changed := true } else k

/-- `t` begins to wake one waiter of `a`. -/
def noteWake (t : T) (a : A) (w : Wait A) (k : Watch T) : Watch T :=
  if w.addr = a ∧ k.changed then { k with due := t :: k.due } else k

/-- `t` has released a waiter of `a`. -/
def noteRelease (t : T) (a : A) (w : Wait A) (k : Watch T) : Watch T :=
  if w.addr = a then { k with due := k.due.filter (· ≠ t) } else k

/-- The wake of `t` ends. -/
def noteReturn (t : T) (_ : Wait A) (k : Watch T) : Watch T :=
  if t ∈ k.due then { k with due := k.due.filter (· ≠ t), missed := true } else k

namespace Config

def setPlace (s : Config T A σ) (t : T) (p : Place T A) : Config T A σ :=
  { s with place := Function.update s.place t p }

def note (s : Config T A σ) (f : Wait A → Watch T → Watch T) : Config T A σ :=
  { s with place := fun u => (s.place u).note f }

/-- `pthread_mutex_lock`, which blocks while the mutex is taken. -/
def lock (s : Config T A σ) (t : T) (p : Place T A) : Option (Config T A σ) :=
  if s.mutex = none then some { s.setPlace t p with mutex := some t } else none

def unlock (s : Config T A σ) (t : T) (p : Place T A) : Config T A σ :=
  { s.setPlace t p with mutex := none }

end Config

variable (prog : Program A σ)

def Config.resume (s : Config T A σ) (t : T) (result : Int) : Config T A σ :=
  { s.setPlace t .program with
    state := Function.update s.state t (prog.resume (s.state t) result) }

def perform (s : Config T A σ) (t : T) : Call A → Config T A σ
  | .rmw a f =>
    let v := f (s.mem a)
    Config.resume prog { s.note (noteWrite a v) with mem := Function.update s.mem a v } t
      (s.mem a).toNat
  | .futexWait a value timed => s.setPlace t (.waitLock ⟨a, value, timed⟩)
  | .futexWake a count =>
    if count ≤ 0 then s.resume prog t 0
    else if count = 1 then (s.note (noteWake t a)).setPlace t (.wakeLock a count)
    else s.setPlace t (.wakeLock a count)

/-- The next step of the thread's own code. -/
def act (s : Config T A σ) (t : T) : Option (Config T A σ) :=
  match s.place t with
  | .program => (prog.call (s.state t)).map (perform prog s t)
  | .waitLock w => s.lock t (.waitCheck w)
  | .waitCheck w =>
    some (s.setPlace t
      (if s.mem w.addr = w.value then .condWait w .fresh else .waitUnlock w 0))
  | .condWait w k => some (s.unlock t (.asleep w k))
  | .asleep .. => none
  | .woken w result =>
    -- the condition variable takes the mutex again, and the loop goes on without an error
    s.lock t (if result = 0 then .waitCheck w else .waitUnlock w result)
  | .waitUnlock w result => some (s.unlock t (.waitReturn w result))
  | .waitReturn w result =>
    some (s.resume prog t
      (if result = ETIMEDOUT ∧ s.mem w.addr ≠ w.value then 0
      else if result ≠ 0 then -1 else 0))
  | .wakeLock a count => s.lock t (.wakeSignal a count)
  | .wakeSignal a count =>
    if count = 1 then
      -- a signal that finds nobody asleep
      if ∀ u, (s.place u).isAsleep = false then some (s.setPlace t (.wakeUnlock a count)) else none
    else some (({ s with place := fun u => (s.place u).rouse }).setPlace t (.wakeUnlock a count))
  | .wakeUnlock _ count =>
    some ({ (s.note (noteReturn t)).resume prog t count with mutex := none })

def step (s : Config T A σ) : Label T → Option (Config T A σ)
  | .act t => act prog s t
  | .signal t u =>
    match s.place t, s.place u with
    | .wakeSignal a 1, .asleep w _ =>
      let s := s.setPlace u (.woken w 0)
      let s := if w.addr = a then s.note (noteRelease t a) else s
      some (s.setPlace t (.wakeUnlock a 1))
    | _, _ => none
  | .spurious u =>
    match s.place u with
    | .asleep w _ => some (s.setPlace u (.woken w 0))
    | _ => none
  | .timeout u =>
    match s.place u with
    | .asleep w _ => if w.timed then some (s.setPlace u (.woken w ETIMEDOUT)) else none
    | _ => none

end Steps

end Psbc.Util
