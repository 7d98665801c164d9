import Mathlib.Data.List.Nodup
import Mathlib.Data.List.Perm.Subperm
import Mathlib.Data.Nat.ModEq

/-!
# Walks around a ring of slots

A walk visits `n` slots by strides of `d`, from the slot `s` and around the end. When `d` has no
factor with `n` in common, the first `n` slots of the walk are all the slots, each once, and only
then does the walk come back to where it began. A loop over the slots that ends when it is back
at its start is then a scan of that list.
-/

namespace Probing

variable {n s d i j : Nat}

def slot (n s d i : Nat) : Nat := (s + i * d) % n

def path (n s d : Nat) : List Nat := (List.range n).map (slot n s d)

theorem slot_lt (hn : 0 < n) (i : Nat) : slot n s d i < n := Nat.mod_lt _ hn

theorem slot_succ (hs : slot n s d i < n) (hd : d ≤ n) :
    slot n s d (i + 1) =
      if n ≤ slot n s d i + d then slot n s d i + d - n else slot n s d i + d := by
  have hstep : slot n s d (i + 1) = (slot n s d i + d) % n := by
    rw [slot, slot, Nat.mod_add_mod, Nat.succ_mul, Nat.add_assoc]
  rw [hstep]
  split
  next hwrap =>
    rw [Nat.mod_eq_sub_mod hwrap, Nat.mod_eq_of_lt]
    omega
  next hlt => exact Nat.mod_eq_of_lt (by omega)

theorem slot_round : slot n s d n = slot n s d 0 := by
  rw [slot, slot, Nat.add_mul_mod_self_left, Nat.zero_mul, Nat.add_zero]

theorem slot_inj (hd : n.Coprime d) (hi : i < n) (hj : j < n)
    (h : slot n s d i = slot n s d j) : i = j := by
  have hmul : i * d ≡ j * d [MOD n] := Nat.ModEq.add_left_cancel' s h
  have heq : i ≡ j [MOD n] := Nat.ModEq.cancel_right_of_coprime hd hmul
  exact Nat.ModEq.eq_of_lt_of_lt heq hi hj

theorem slot_ne_start (hd : n.Coprime d) (hi : 0 < i) (hin : i < n) :
    slot n s d i ≠ slot n s d 0 := by
  intro h
  have hzero : i = 0 := slot_inj hd hin (by omega) h
  omega

theorem path_nodup (hd : n.Coprime d) : (path n s d).Nodup := by
  refine (List.nodup_map_iff_inj_on List.nodup_range).mpr fun i hi j hj h => ?_
  exact slot_inj hd (List.mem_range.mp hi) (List.mem_range.mp hj) h

theorem lt_of_mem_path {a : Nat} (h : a ∈ path n s d) : a < n := by
  obtain ⟨i, hi, rfl⟩ := List.mem_map.mp h
  have hin := List.mem_range.mp hi
  exact slot_lt (by omega) i

/-- **A round visits all slots.** -/
theorem path_perm (hd : n.Coprime d) : (path n s d).Perm (List.range n) := by
  have hsub : (path n s d).Subperm (List.range n) := by
    refine List.subperm_of_subset (path_nodup hd) fun a ha => ?_
    exact List.mem_range.mpr (lt_of_mem_path ha)
  refine hsub.perm_of_length_le ?_
  rw [path, List.length_map]

theorem mem_path (hd : n.Coprime d) {a : Nat} : a ∈ path n s d ↔ a < n := by
  rw [(path_perm hd).mem_iff, List.mem_range]

/-! ## Loops -/

section Loops

variable {σ β : Type} (body : Nat → σ → β ⊕ σ) (next : Nat → Nat)

/-- A loop over the slots that returns a result, or comes back to its start with a state. -/
def doWhile (start : Nat) : Nat → Nat → σ → β ⊕ σ
  | 0, _, x => .inr x
  | fuel + 1, a, x =>
    match body a x with
    | .inl r => .inl r
    | .inr y => if next a = start then .inr y else doWhile start fuel (next a) y

def scan : List Nat → σ → β ⊕ σ
  | [], x => .inr x
  | a :: rest, x =>
    match body a x with
    | .inl r => .inl r
    | .inr y => scan rest y

/-- A loop that ends with a result only. -/
def loop (body : Nat → Option β) (next : Nat → Nat) : Nat → Nat → Option β
  | 0, _ => none
  | fuel + 1, a => (body a).or (loop body next fuel (next a))

variable {body next}

/-- The slots of a round from the `i`-th one on. -/
theorem doWhile_from (hnext : ∀ i, next (slot n s d i) = slot n s d (i + 1)) (hd : n.Coprime d)
    (k : Nat) (hk : i + (k + 1) = n) (x : σ) :
    doWhile body next (slot n s d 0) (k + 1) (slot n s d i) x =
      scan body ((List.range' i (k + 1)).map (slot n s d)) x := by
  induction k generalizing i x with
  | zero =>
    have hback : next (slot n s d i) = slot n s d 0 := by
      rw [hnext, hk, slot_round]
    rw [doWhile, List.range'_succ, List.map_cons, scan]
    cases body (slot n s d i) x with
    | inl r => rfl
    | inr y => exact if_pos hback
  | succ k ih =>
    have hon : next (slot n s d i) ≠ slot n s d 0 := by
      rw [hnext]
      exact slot_ne_start hd (by omega) (by omega)
    rw [doWhile, List.range'_succ, List.map_cons, scan]
    cases body (slot n s d i) x with
    | inl r => rfl
    | inr y =>
      dsimp only
      rw [if_neg hon, hnext]
      exact ih (by omega) y

/-- **A loop around the ring is a scan of one round.** -/
theorem doWhile_eq_scan (hn : 0 < n) (hnext : ∀ i, next (slot n s d i) = slot n s d (i + 1))
    (hd : n.Coprime d) (x : σ) :
    doWhile body next (slot n s d 0) n (slot n s d 0) x = scan body (path n s d) x := by
  obtain ⟨k, rfl⟩ : ∃ k, n = k + 1 := ⟨n - 1, by omega⟩
  rw [path, List.range_eq_range']
  exact doWhile_from hnext hd k (by omega) x

theorem loop_eq_findSome {body : Nat → Option β}
    (hnext : ∀ i, next (slot n s d i) = slot n s d (i + 1)) (k : Nat) :
    loop body next k (slot n s d i) = ((List.range' i k).map (slot n s d)).findSome? body := by
  induction k generalizing i with
  | zero => rfl
  | succ k ih =>
    rw [loop, hnext, ih, List.range'_succ, List.map_cons, List.findSome?_cons]
    cases body (slot n s d i) <;> rfl

end Loops

end Probing
