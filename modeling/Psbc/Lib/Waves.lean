import Mathlib.Algebra.Order.Floor.Div
import Mathlib.Data.Set.Card
import Mathlib.Order.Interval.Finset.Nat

/-!
# Numbered sets cut into waves

A finite set is numbered by a bijection onto the numbers below `n`. `rowMajor` numbers a
product of two numbered sets, row by row. Cut into waves of `w` numbers, the set has
`n ⌈/⌉ w` waves; all of them are full but the last, which has at least one member.
-/

namespace Waves

/-! ## Row-major numbers -/

/-- The number of place `p.1` in row `p.2`, in rows of `w`. -/
def rowMajor (w : ℕ) (p : ℕ × ℕ) : ℕ := p.1 + w * p.2

theorem rowMajor_lt {w n : ℕ} {p : ℕ × ℕ} (hp : p.1 < w) (hrow : p.2 < n) :
    rowMajor w p < w * n := by
  calc rowMajor w p
      < w + w * p.2 := Nat.add_lt_add_right hp _
    _ = w * (p.2 + 1) := by rw [Nat.mul_succ, Nat.add_comm]
    _ ≤ w * n := Nat.mul_le_mul_left w hrow

theorem bijOn_rowMajor (w n : ℕ) :
    Set.BijOn (rowMajor w) (Set.Iio w ×ˢ Set.Iio n) (Set.Iio (w * n)) := by
  refine ⟨fun p hp => rowMajor_lt hp.1 hp.2, fun p hp q hq heq => ?_, fun i hi => ?_⟩
  · have hw : 0 < w := Nat.zero_lt_of_lt hp.1
    have hplace := congrArg (· % w) heq
    have hrow := congrArg (· / w) heq
    simp only [rowMajor, Nat.add_mul_mod_self_left, Nat.add_mul_div_left _ _ hw,
      Nat.mod_eq_of_lt hp.1, Nat.mod_eq_of_lt hq.1, Nat.div_eq_of_lt hp.1,
      Nat.div_eq_of_lt hq.1, Nat.zero_add] at hplace hrow
    exact Prod.ext hplace hrow
  · have hi : i < w * n := hi
    have hw : 0 < w := Nat.pos_of_ne_zero fun h => by rw [h, Nat.zero_mul] at hi; omega
    refine ⟨(i % w, i / w), ⟨Nat.mod_lt i hw, ?_⟩, Nat.mod_add_div i w⟩
    exact (Nat.div_lt_iff_lt_mul hw).mpr (by rwa [Nat.mul_comm])

/-! ## Waves -/

section

variable {α : Type} {f : α → ℕ} {s : Set α} {n w k : ℕ}

def wave (f : α → ℕ) (s : Set α) (w k : ℕ) : Set α := {a ∈ s | f a / w = k}

theorem ncard_wave (hf : Set.BijOn f s (Set.Iio n)) (hw : 0 < w) (k : ℕ) :
    (wave f s w k).ncard = min n ((k + 1) * w) - k * w := by
  have himage : f '' wave f s w k = Set.Ico (k * w) (min n ((k + 1) * w)) := by
    ext i
    rw [Nat.succ_mul]
    simp only [wave, Set.mem_image, Set.mem_ofPred_eq, Set.mem_Ico, lt_min_iff]
    constructor
    · rintro ⟨a, ⟨ha, hwave⟩, rfl⟩
      have hlt : f a < n := hf.mapsTo ha
      have hbounds := (Nat.div_eq_iff hw).mp hwave
      omega
    · rintro ⟨hle, hlt, hlt'⟩
      obtain ⟨a, ha, rfl⟩ := hf.surjOn hlt
      exact ⟨a, ⟨ha, (Nat.div_eq_iff hw).mpr (by omega)⟩, rfl⟩
  have hinj : Set.InjOn f (wave f s w k) := hf.injOn.mono fun _ ha => ha.1
  rw [← hinj.ncard_image, himage, ← Finset.coe_Ico, Set.ncard_coe_finset, Nat.card_Ico]

theorem mul_ceilDiv_bounds (hw : 0 < w) : n ≤ (n ⌈/⌉ w) * w ∧ (n ⌈/⌉ w) * w < n + w := by
  have hdiv := Nat.div_add_mod (n + w - 1) w
  have hmod := Nat.mod_lt (n + w - 1) hw
  rw [Nat.ceilDiv_eq_add_pred_div, Nat.mul_comm]
  omega

theorem ncard_wave_of_lt (hf : Set.BijOn f s (Set.Iio n)) (hw : 0 < w)
    (hk : k + 1 < n ⌈/⌉ w) : (wave f s w k).ncard = w := by
  have hceil := (mul_ceilDiv_bounds (n := n) hw).2
  have hnext : (k + 1) * w + w ≤ (n ⌈/⌉ w) * w := by
    rw [← Nat.succ_mul]
    exact Nat.mul_le_mul_right w hk
  have hfull : (k + 1) * w ≤ n := by omega
  rw [ncard_wave hf hw, Nat.min_eq_right hfull, Nat.succ_mul, Nat.add_sub_cancel_left]

theorem ncard_wave_last (hf : Set.BijOn f s (Set.Iio n)) (hw : 0 < w) (hn : 0 < n) :
    1 ≤ (wave f s w (n ⌈/⌉ w - 1)).ncard ∧ (wave f s w (n ⌈/⌉ w - 1)).ncard ≤ w := by
  obtain ⟨hle, hlt⟩ := mul_ceilDiv_bounds (n := n) hw
  obtain ⟨k, hk⟩ : ∃ k, n ⌈/⌉ w = k + 1 :=
    Nat.exists_eq_succ_of_ne_zero fun h => by rw [h, Nat.zero_mul] at hle; omega
  rw [hk] at hle hlt ⊢
  rw [Nat.add_sub_cancel, ncard_wave hf hw, Nat.min_eq_left hle]
  rw [Nat.succ_mul] at hle hlt
  omega

theorem div_lt_ceilDiv (hw : 0 < w) {i : ℕ} (hi : i < n) : i / w < n ⌈/⌉ w :=
  (Nat.div_lt_iff_lt_mul hw).mpr (Nat.lt_of_lt_of_le hi (mul_ceilDiv_bounds hw).1)

end

end Waves
