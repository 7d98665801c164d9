import Mathlib.Data.List.Basic
import Mathlib.Logic.Function.Basic

/-!
# Who owns what

Objects are acquired, freed, put under another object that takes them along when it is freed,
or handed out. `Books` has the status of every object while the operations go on; an operation
on an object that it does not apply to (a second free, a free of what was never acquired)
leaves it `misused` for good.

A `Tally` is what a program knows between its operations: which objects it has not acquired
yet, and which it holds and has handed out. `Tally.step` is the operation on what is known,
where it applies; `Owns.step` says that the books follow, and `Owns.settled_iff` that they are
settled when nothing is held.
-/

namespace Ledger

variable {ρ : Type} [DecidableEq ρ]

inductive Op (ρ : Type) where
  | acquire (x : ρ)
  | free (x : ρ)
  | steal (x parent : ρ)
  | handOut (x : ρ)
  deriving DecidableEq, Repr

inductive Status (ρ : Type) where
  | absent
  | held
  | under (parent : ρ)
  | handedOut
  | freed
  | misused
  deriving DecidableEq, Repr

abbrev Books (ρ : Type) := ρ → Status ρ

/-- No object was acquired yet. -/
def blank : Books ρ := fun _ => .absent

def Status.free : Status ρ → Status ρ
  | held => freed
  | handedOut => freed
  | _ => misused

def step (b : Books ρ) : Op ρ → Books ρ
  | .acquire x => Function.update b x (if b x = .absent then .held else .misused)
  | .free x => fun y => if y = x then (b x).free else if b y = .under x then .freed else b y
  | .steal x p => fun y =>
      if y = x then if b x = .held ∧ b p = .held ∧ x ≠ p then .under p else .misused
      else if b y = .under x then .under p else b y
  | .handOut x => Function.update b x (if b x = .held then .handedOut else .misused)

/-- Every object that was acquired is freed or handed out, with what is under it. -/
def Settled (b : Books ρ) : Prop :=
  ∀ x, b x = .absent ∨ b x = .freed ∨ b x = .handedOut ∨ ∃ p, b x = .under p ∧ b p = .handedOut

/-- What is known of the books. -/
structure Tally (ρ : Type) where
  absent : List ρ
  held : List ρ
  handedOut : List ρ
  deriving DecidableEq, Repr

/-- The operation, if it applies. -/
def Tally.step (t : Tally ρ) : Op ρ → Option (Tally ρ)
  | .acquire x =>
    if x ∈ t.absent then
      some { t with absent := t.absent.filter (· ≠ x), held := x :: t.held }
    else none
  | .free x =>
    if x ∈ t.held then some { t with held := t.held.filter (· ≠ x) }
    else if x ∈ t.handedOut then some { t with handedOut := t.handedOut.filter (· ≠ x) }
    else none
  | .steal x p =>
    if x ∈ t.held ∧ p ∈ t.held ∧ x ≠ p then some { t with held := t.held.filter (· ≠ x) }
    else none
  | .handOut x =>
    if x ∈ t.held then
      some { t with held := t.held.filter (· ≠ x), handedOut := x :: t.handedOut }
    else none

/-- The books are as the tally says; an object that it does not list is freed, or under one
that is held or handed out. -/
structure Owns (t : Tally ρ) (b : Books ρ) : Prop where
  absent : ∀ x ∈ t.absent, b x = .absent
  held_iff : ∀ x, b x = .held ↔ x ∈ t.held
  handedOut_iff : ∀ x, b x = .handedOut ↔ x ∈ t.handedOut
  under : ∀ x p, b x = .under p → p ∈ t.held ∨ p ∈ t.handedOut
  sound : ∀ x, b x ≠ .misused

omit [DecidableEq ρ] in
theorem owns_blank (absent : List ρ) : Owns ⟨absent, [], []⟩ blank := by
  constructor <;> simp [blank]

variable {t t' : Tally ρ} {b : Books ρ} {x p : ρ}

/-! ## The operations where they apply -/

theorem step_acquire (h : b x = .absent) (y : ρ) :
    step b (.acquire x) y = if y = x then .held else b y := by
  rw [step, if_pos h, Function.update_apply]

theorem step_free (h : b x = .held ∨ b x = .handedOut) (y : ρ) :
    step b (.free x) y = if y = x ∨ b y = .under x then .freed else b y := by
  have hfree : (b x).free = .freed := by rcases h with h | h <;> rw [h] <;> rfl
  rw [step, hfree, ite_or]

theorem step_steal (hx : b x = .held) (hp : b p = .held) (hne : x ≠ p) (y : ρ) :
    step b (.steal x p) y = if y = x ∨ b y = .under x then .under p else b y := by
  rw [step, if_pos (⟨hx, hp, hne⟩ : b x = .held ∧ b p = .held ∧ x ≠ p), ite_or]

theorem step_handOut (h : b x = .held) (y : ρ) :
    step b (.handOut x) y = if y = x then .handedOut else b y := by
  rw [step, if_pos h, Function.update_apply]

/-! ## The books follow the tally -/

namespace Owns

omit [DecidableEq ρ] in
theorem forget {absent : List ρ} (h : Owns t b) (hsub : absent ⊆ t.absent) :
    Owns { t with absent := absent } b :=
  { h with absent := fun y hy => h.absent y (hsub hy) }

theorem step {op : Op ρ} (h : Owns t b) (hstep : t.step op = some t') :
    Owns t' (Ledger.step b op) := by
  obtain ⟨habsent, hheld, hout, hunder, hsound⟩ := h
  cases op with
  | acquire x =>
    obtain ⟨hx, ⟨⟩⟩ := Option.ite_none_right_eq_some.mp hstep
    have hbooks := step_acquire (habsent x hx)
    constructor <;> grind
  | free x =>
    have hx : x ∈ t.held ∨ x ∈ t.handedOut := by
      by_contra hnot
      obtain ⟨hheld, hout⟩ := not_or.mp hnot
      rw [Tally.step, if_neg hheld, if_neg hout] at hstep
      cases hstep
    have hbooks := step_free (hx.imp (hheld x).mpr (hout x).mpr)
    unfold Tally.step at hstep
    constructor <;> grind
  | steal x p =>
    obtain ⟨⟨hx, hp, hne⟩, ⟨⟩⟩ := Option.ite_none_right_eq_some.mp hstep
    have hbooks := step_steal ((hheld x).mpr hx) ((hheld p).mpr hp) hne
    constructor <;> grind
  | handOut x =>
    obtain ⟨hx, ⟨⟩⟩ := Option.ite_none_right_eq_some.mp hstep
    have hbooks := step_handOut ((hheld x).mpr hx)
    constructor <;> grind

omit [DecidableEq ρ] in
theorem settled_iff (h : Owns t b) : Settled b ↔ t.held = [] := by
  constructor
  · intro hsettled
    refine List.eq_nil_iff_forall_not_mem.mpr fun x hx => ?_
    have hheld := (h.held_iff x).mpr hx
    have hx := hsettled x
    simp [hheld] at hx
  · intro hnone x
    have hheld := h.held_iff x
    have hsound := h.sound x
    have hunder := h.under x
    have hout := h.handedOut_iff
    cases hstatus : b x <;> grind

end Owns

end Ledger
