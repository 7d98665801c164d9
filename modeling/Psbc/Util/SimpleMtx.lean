import Mathlib.Data.Fintype.Option
import Psbc.Util.LostWake

/-!
# The simple mutex over the futex

`simple_mtx.h` keeps 0 in a free mutex, 1 in one that is locked and 2 in one that is locked and
has waiters. A thread that finds it locked stores 2 and waits for the value to change; the
thread that unlocks a mutex with waiters stores 0 and wakes one of them.

Threads that share one mutex lose no wake-up. With two, a thread can sleep for good on a mutex
that is free.
-/

namespace Psbc.Util

open Runs

variable {A : Type}

inductive LockPlace where
  | cmpxchg
  | xchg
  | wait
  deriving DecidableEq, Repr

inductive UnlockPlace where
  | fetchAdd
  | store
  | wake
  deriving DecidableEq, Repr

def simpleMtxLock (mtx : A) : LockPlace → Call A
  | .cmpxchg => .rmw mtx fun val => if val = 0 then 1 else val
  | .xchg => .rmw mtx fun _ => 2
  | .wait => .futexWait mtx 2 false

/-- Where the lock goes on with the value `c`; it has the mutex when nowhere. -/
def LockPlace.next : LockPlace → Int → Option LockPlace
  | .cmpxchg, c => if c ≠ 0 then if c ≠ 2 then some .xchg else some .wait else none
  | .xchg, c => if c ≠ 0 then some .wait else none
  | .wait, _ => some .xchg

def simpleMtxUnlock (mtx : A) : UnlockPlace → Call A
  | .fetchAdd => .rmw mtx fun val => val - 1
  | .store => .rmw mtx fun _ => 0
  | .wake => .futexWake mtx 1

def UnlockPlace.next : UnlockPlace → Int → Option UnlockPlace
  | .fetchAdd, c => if c ≠ 1 then some .store else none
  | .store, _ => some .wake
  | .wake, _ => none

inductive MtxCall (A : Type) where
  | lock (mtx : A) (place : LockPlace)
  | unlock (mtx : A) (place : UnlockPlace)
  deriving DecidableEq, Repr

def MtxCall.mtx : MtxCall A → A
  | lock mtx _ | unlock mtx _ => mtx

def simpleMtx : Program A (List (MtxCall A)) where
  call
    | [] => none
    | .lock mtx place :: _ => some (simpleMtxLock mtx place)
    | .unlock mtx place :: _ => some (simpleMtxUnlock mtx place)
  resume
    | [], _ => []
    | .lock mtx place :: calls, c => ((place.next c).map (.lock mtx)).toList ++ calls
    | .unlock mtx place :: calls, c => ((place.next c).map (.unlock mtx)).toList ++ calls

theorem mtx_of_mem_next {γ : Type} {f : γ → MtxCall A} {calls : List (MtxCall A)} {mtx : A}
    (hf : ∀ place, (f place).mtx = mtx) (h : ∀ c ∈ calls, c.mtx = mtx) (next : Option γ) :
    ∀ c ∈ (next.map f).toList ++ calls, c.mtx = mtx := by
  refine List.forall_mem_append.mpr ⟨fun c hc => ?_, h⟩
  obtain ⟨place, _, rfl⟩ := Option.map_eq_some_iff.mp (Option.mem_toList.mp hc)
  exact hf place

theorem mtx_of_mem_resume {calls : List (MtxCall A)} {mtx : A} (h : ∀ c ∈ calls, c.mtx = mtx)
    (r : Int) : ∀ c ∈ simpleMtx.resume calls r, c.mtx = mtx := by
  match calls, h with
  | [], h => exact h
  | .lock mtx' place :: calls, h =>
    obtain ⟨hhead, htail⟩ := List.forall_mem_cons.mp h
    exact mtx_of_mem_next (f := .lock mtx') (fun _ => hhead) htail (place.next r)
  | .unlock mtx' place :: calls, h =>
    obtain ⟨hhead, htail⟩ := List.forall_mem_cons.mp h
    exact mtx_of_mem_next (f := .unlock mtx') (fun _ => hhead) htail (place.next r)

theorem simpleMtx_only (mtx : A) :
    (simpleMtx : Program A _).Only mtx fun calls => ∀ c ∈ calls, c.mtx = mtx where
  wait calls hcalls b v timed hcall := by
    match calls with
    | .lock mtx' .wait :: calls =>
      cases hcall
      exact hcalls _ (.head _)
  wake calls hcalls b n hcall := by
    match calls with
    | .unlock mtx' .wake :: calls =>
      cases hcall
      exact hcalls _ (.head _)
  resume _ hcalls r := mtx_of_mem_resume hcalls r

/-- **Threads that share one mutex lose no wake-up.** -/
theorem simpleMtx_never_lost [DecidableEq A] {T : Type} [DecidableEq T] [Fintype T] (mtx : A)
    (mem : A → Word) (calls : T → List (MtxCall A)) (hcalls : ∀ t, ∀ c ∈ calls t, c.mtx = mtx)
    {s : Config T A (List (MtxCall A))} (hs : Reaches (step simpleMtx) (.start mem calls) s) :
    ¬ s.Lost :=
  never_lost_of_only (simpleMtx_only mtx) mem calls hcalls hs

/-! ## Two mutexes -/

/-- Two threads that want a mutex each, and one that holds both and unlocks the first. -/
def twoMutexes : Option Bool → List (MtxCall Bool)
  | some mtx => [.lock mtx .cmpxchg]
  | none => [.lock false .cmpxchg, .lock true .cmpxchg, .unlock false .fetchAdd]

/-- Both wait, the holder unlocks the mutex of the first, and the signal releases the second,
which goes back to sleep. -/
def strayWake : List (Label (Option Bool)) :=
  List.replicate 2 (.act none) ++ List.replicate 6 (.act (some false)) ++
    List.replicate 6 (.act (some true)) ++ List.replicate 4 (.act none) ++
    [.signal none (some true), .act none] ++ List.replicate 3 (.act (some true))

/-- The first thread sleeps on a mutex that is free, and its wake-up was lost. -/
theorem strayWake_lost :
    ∃ s : Config (Option Bool) Bool (List (MtxCall Bool)),
      Reaches (step simpleMtx) (.start (fun _ => 0) twoMutexes) s ∧ s.Lost ∧ s.mem false = 0 ∧
        s.place (some false) = .asleep ⟨false, 2, false⟩ ⟨true, [], true⟩ ∧ s.state none = [] := by
  have hrun : ((run (step simpleMtx) (.start (fun _ => 0) twoMutexes) strayWake).map
        fun s => (s.mem false, s.place (some false), s.state none)) =
      some (0, .asleep ⟨false, 2, false⟩ ⟨true, [], true⟩, []) := by
    decide +kernel
  obtain ⟨s, hs, heq⟩ := Option.map_eq_some_iff.mp hrun
  obtain ⟨hmem, hplace, hstate⟩ := by simpa only [Prod.mk.injEq] using heq
  exact ⟨s, ⟨strayWake, hs⟩, ⟨_, _, _, hplace, rfl⟩, hmem, hplace, hstate⟩

end Psbc.Util
