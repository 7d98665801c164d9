import Mathlib.Data.List.GetD

/-!
# Lanes of a word

A word is a row of lanes of `k` bits, lane `i` in the bits from `k * i` on. `Holds v fs`
says that the lanes of `v` are the values `fs`, and zero above them. A word is packed from
the bottom by shifting a value in front of what it holds (`Holds.push`), and its lanes
determine it (`Holds.unique`).
-/

namespace Lanes

variable {w k : Nat}

def lane (k : Nat) (v : BitVec w) (i : Nat) : BitVec k := v.extractLsb' (k * i) k

def lanes (k n : Nat) (v : BitVec w) : List (BitVec k) := (List.range n).map (lane k v)

/-- The lanes of `v` are `fs`, and zero above. -/
def Holds (v : BitVec w) (fs : List (BitVec k)) : Prop := ∀ i, lane k v i = fs.getD i 0

theorem getLsbD_lane (v : BitVec w) (i j : Nat) :
    (lane k v i).getLsbD j = (decide (j < k) && v.getLsbD (k * i + j)) := by
  rw [lane, BitVec.getLsbD_extractLsb']

@[simp] theorem length_lanes (n : Nat) (v : BitVec w) : (lanes k n v).length = n := by
  simp [lanes]

theorem lanes_succ (n : Nat) (v : BitVec w) : lanes k (n + 1) v = lanes k n v ++ [lane k v n] := by
  simp [lanes, List.range_succ]

/-- A value shifted to lane `s` is there and nowhere else. -/
theorem lane_shifted (f : BitVec k) {s : Nat} (h : k * (s + 1) ≤ w) (i : Nat) :
    lane k (f.setWidth w <<< (k * s)) i = if i = s then f else 0 := by
  refine BitVec.eq_of_getLsbD_eq fun j hj => ?_
  rw [Nat.mul_succ] at h
  rw [getLsbD_lane, BitVec.getLsbD_shiftLeft, BitVec.getLsbD_setWidth]
  rcases Nat.lt_trichotomy i s with his | rfl | his
  · have hrow : k * i + k ≤ k * s := Nat.mul_le_mul_left k his
    have hbelow : k * i + j < k * s := by omega
    simp [hbelow, Nat.ne_of_lt his]
  · have hin : k * i + j < w := by omega
    have hj' : j < w := by omega
    simp [hj, hin, hj']
  · have hrow : k * s + k ≤ k * i := Nat.mul_le_mul_left k his
    have habove : f.getLsbD (k * i + j - k * s) = false := BitVec.getLsbD_of_ge _ _ (by omega)
    simp [habove, Nat.ne_of_gt his]

theorem lane_or (v v' : BitVec w) (i : Nat) : lane k (v ||| v') i = lane k v i ||| lane k v' i :=
  BitVec.extractLsb'_or

/-! ## Packing -/

theorem holds_zero : Holds (0 : BitVec w) ([] : List (BitVec k)) := by
  intro i
  refine BitVec.eq_of_getLsbD_eq fun j _ => ?_
  simp [getLsbD_lane]

/-- A value is packed in front of those the word holds. -/
theorem Holds.push {v : BitVec w} {fs : List (BitVec k)} (h : Holds v fs) (f : BitVec k)
    (hfit : k * (fs.length + 1) ≤ w) :
    Holds (v ||| (f.setWidth w <<< (k * fs.length))) (fs ++ [f]) := by
  intro i
  rw [lane_or, h i, lane_shifted f hfit]
  rcases Nat.lt_trichotomy i fs.length with hi | rfl | hi
  · rw [if_neg (Nat.ne_of_lt hi), List.getD_append _ _ _ _ hi]
    exact BitVec.or_zero
  · rw [if_pos rfl, List.getD_eq_default _ _ (Nat.le_refl _),
      List.getD_append_right _ _ _ _ (Nat.le_refl _), Nat.sub_self]
    exact BitVec.zero_or
  · rw [if_neg (Nat.ne_of_gt hi), List.getD_eq_default _ _ (Nat.le_of_lt hi),
      List.getD_eq_default _ _ (by rw [List.length_append, List.length_singleton]; omega)]
    exact BitVec.or_zero

theorem Holds.unique {v v' : BitVec w} {fs : List (BitVec k)} (hk : 0 < k) (h : Holds v fs)
    (h' : Holds v' fs) : v = v' := by
  refine BitVec.eq_of_getLsbD_eq fun p _ => ?_
  have hlane : lane k v (p / k) = lane k v' (p / k) := (h _).trans (h' _).symm
  have hbit := congrArg (·.getLsbD (p % k)) hlane
  simpa only [getLsbD_lane, Nat.mod_lt p hk, decide_true, Bool.true_and, Nat.div_add_mod]
    using hbit

theorem Holds.lanes_eq {v : BitVec w} {fs : List (BitVec k)} (h : Holds v fs) {n : Nat}
    (hn : fs.length ≤ n) : lanes k n v = fs ++ List.replicate (n - fs.length) 0 := by
  refine List.ext_getElem (by simp; omega) fun i hi _ => ?_
  rw [length_lanes] at hi
  have hlane : (lanes k n v)[i] = fs.getD i 0 := by simp [lanes, h i]
  rw [hlane, List.getElem_append]
  split
  · next hlt => rw [List.getD_eq_getElem _ _ hlt]
  · next hge => rw [List.getD_eq_default _ _ (Nat.le_of_not_lt hge), List.getElem_replicate]

end Lanes
