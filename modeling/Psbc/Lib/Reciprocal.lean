import Mathlib.Algebra.Order.Ring.Int
import Mathlib.Algebra.Order.Ring.Nat
import Mathlib.Tactic.Linarith
import Mathlib.Tactic.Ring

/-!
# Division by multiplication

A multiplier `m` with `m * d` near `P` turns `a * m / P` into `a / d`. Rounded up, `m * d` is
`P + e` and the quotient is exact while `a * e` stays below `P`; rounded down, `m * d` is `P - r`
and it is exact for `a + 1` in place of `a`. The last section bounds the error from its value at
the largest `c` below the range that is one less than a multiple of `d`.
-/

namespace Psbc.Reciprocal

/-! ## Doubling -/

theorem two_mul_eq (n d : Nat) : 2 * n = 2 * (n % d) + d * (2 * (n / d)) := by
  have hn := Nat.div_add_mod n d
  rw [Nat.mul_left_comm]
  omega

/-- The doubled remainder wraps. -/
theorem two_mul_div_of_le {n d : Nat} (hd : 0 < d) (h : d ≤ 2 * (n % d)) :
    2 * n / d = 2 * (n / d) + 1 ∧ 2 * n % d = 2 * (n % d) - d := by
  have hlt : n % d < d := Nat.mod_lt n hd
  rw [two_mul_eq n d, Nat.add_mul_div_left _ _ hd, Nat.add_mul_mod_self_left]
  generalize n % d = r, n / d = q at h hlt
  rw [Nat.div_eq_sub_div hd h, Nat.mod_eq_sub_mod h, Nat.div_eq_of_lt (by omega),
    Nat.mod_eq_of_lt (by omega), Nat.zero_add, Nat.add_comm]
  exact ⟨rfl, rfl⟩

/-- The doubled remainder does not wrap. -/
theorem two_mul_div_of_lt {n d : Nat} (h : 2 * (n % d) < d) :
    2 * n / d = 2 * (n / d) ∧ 2 * n % d = 2 * (n % d) := by
  rw [two_mul_eq n d, Nat.add_mul_div_left _ _ (Nat.zero_lt_of_lt h), Nat.add_mul_mod_self_left]
  generalize n % d = r, n / d = q at h
  rw [Nat.div_eq_of_lt h, Nat.mod_eq_of_lt h, Nat.zero_add]
  exact ⟨rfl, rfl⟩

/-! ## Rounding -/

section Round

variable {a d m P : Nat}

theorem le_mul_of_roundUp {e : Nat} (hd : 0 < d) (hm : m * d = P + e) : a / d * P ≤ a * m := by
  refine Nat.le_of_mul_le_mul_right ?_ hd
  calc a / d * P * d = a / d * d * P := Nat.mul_right_comm ..
    _ ≤ a * P := Nat.mul_le_mul_right P (Nat.div_mul_le_self a d)
    _ ≤ a * (P + e) := Nat.mul_le_mul_left a (Nat.le_add_right P e)
    _ = a * m * d := by rw [← hm, Nat.mul_assoc]

theorem mul_eq_of_roundUp {e : Nat} (hm : m * d = P + e) :
    a * m * d = a / d * P * d + (a % d * P + a * e) := by
  calc a * m * d = a * P + a * e := by rw [Nat.mul_assoc, hm, Nat.mul_add]
    _ = (d * (a / d) + a % d) * P + a * e := by rw [Nat.div_add_mod]
    _ = a / d * P * d + (a % d * P + a * e) := by ring

theorem mul_lt_of_roundUp {e : Nat} (hm : m * d = P + e) (h : a % d * P + a * e < d * P) :
    a * m < (a / d + 1) * P := by
  refine Nat.lt_of_mul_lt_mul_right (a := d) ?_
  rw [mul_eq_of_roundUp hm]
  calc a / d * P * d + (a % d * P + a * e) < a / d * P * d + d * P := Nat.add_lt_add_left h _
    _ = (a / d + 1) * P * d := by ring

theorem mul_le_of_roundUp {e : Nat} (hd : 0 < d) (hm : m * d = P + e)
    (h : a % d * P + a * e ≤ d * P) : a * m ≤ (a / d + 1) * P := by
  refine Nat.le_of_mul_le_mul_right ?_ hd
  rw [mul_eq_of_roundUp hm]
  calc a / d * P * d + (a % d * P + a * e) ≤ a / d * P * d + d * P := Nat.add_le_add_left h _
    _ = (a / d + 1) * P * d := by ring

theorem error_lt {e : Nat} (hd : 0 < d) (h : a * e < P) : a % d * P + a * e < d * P := by
  have hlt : a % d < d := Nat.mod_lt a hd
  calc a % d * P + a * e < a % d * P + P := Nat.add_lt_add_left h _
    _ = (a % d + 1) * P := (Nat.succ_mul _ _).symm
    _ ≤ d * P := Nat.mul_le_mul_right P hlt

/-- **Rounded up.** -/
theorem div_of_roundUp {e : Nat} (hd : 0 < d) (hm : m * d = P + e) (h : a * e < P) :
    a * m / P = a / d :=
  Nat.div_eq_of_lt_le (le_mul_of_roundUp hd hm) (mul_lt_of_roundUp hm (error_lt hd h))

theorem mul_eq_of_roundDown {r : Nat} (hm : m * d + r = P) : a * m * d + a * r = a * P := by
  rw [Nat.mul_assoc, ← Nat.mul_add, hm]

/-- **Rounded down**, with the dividend incremented. -/
theorem div_of_roundDown {r : Nat} (hd : 0 < d) (hm : m * d + r = P) (hr : 0 < r)
    (h : (a + 1) * r ≤ P) : (a + 1) * m / P = a / d := by
  have hprod := mul_eq_of_roundDown (a := a + 1) hm
  have hsplit : (a + 1) * P = a / d * P * d + (a % d + 1) * P := by
    conv => lhs; rw [← Nat.div_add_mod a d]
    ring
  refine Nat.div_eq_of_lt_le (Nat.le_of_mul_le_mul_right ?_ hd)
    (Nat.lt_of_mul_lt_mul_right (a := d) ?_)
  · have hone : P ≤ (a % d + 1) * P := Nat.le_mul_of_pos_left P (Nat.succ_pos _)
    omega
  · have hpos : 0 < (a + 1) * r := Nat.mul_pos (Nat.succ_pos a) hr
    have hrem : (a % d + 1) * P ≤ d * P := Nat.mul_le_mul_right P (Nat.mod_lt a hd)
    calc (a + 1) * m * d < (a + 1) * P := by omega
      _ ≤ a / d * P * d + d * P := by omega
      _ = (a / d + 1) * P * d := by ring

/-- Rounded down, the dividend itself is enough unless it is a multiple. -/
theorem div_of_roundDown_of_mod_ne {r : Nat} (hd : 0 < d) (hm : m * d + r = P) (hP : 0 < P)
    (h : a * r ≤ P) (ha : a % d ≠ 0) : a * m / P = a / d := by
  have hprod := mul_eq_of_roundDown (a := a) hm
  have hsplit : a * P = a / d * P * d + a % d * P := by
    conv => lhs; rw [← Nat.div_add_mod a d]
    ring
  refine Nat.div_eq_of_lt_le (Nat.le_of_mul_le_mul_right ?_ hd)
    (Nat.lt_of_mul_lt_mul_right (a := d) ?_)
  · have hone : P ≤ a % d * P := Nat.le_mul_of_pos_left P (Nat.pos_of_ne_zero ha)
    omega
  · have hrem : (a % d + 1) * P ≤ d * P := Nat.mul_le_mul_right P (Nat.mod_lt a hd)
    rw [Nat.succ_mul] at hrem
    calc a * m * d ≤ a * P := by omega
      _ < a / d * P * d + d * P := by omega
      _ = (a / d + 1) * P * d := by ring

end Round

/-! ## The largest dividend -/

section Largest

variable {a c d e m P : Nat}

/-- Up to the next multiple less one, the error is that of `c` or twice as large. -/
theorem error_lt_of_largest (hc : d ∣ c + 1) (hcd : d ≤ c + 1) (herr : c * e < P) (ha : a < c + d) :
    a % d * P + a * e < d * P := by
  have hd : 0 < d := by
    rcases Nat.eq_zero_or_pos d with rfl | hd
    · have hzero := Nat.eq_zero_of_zero_dvd hc
      omega
    · exact hd
  rcases Nat.lt_or_ge c a with hlt | hge
  · obtain ⟨s, rfl⟩ : ∃ s, a = c + 1 + s := ⟨a - (c + 1), by omega⟩
    have hmod : (c + 1 + s) % d = s := by
      obtain ⟨k, hk⟩ := hc
      rw [hk, Nat.mul_add_mod, Nat.mod_eq_of_lt (by omega)]
    have hbound : (c + 1 + s) * e ≤ 2 * (c * e) := by
      calc (c + 1 + s) * e ≤ (2 * c) * e := Nat.mul_le_mul_right e (by omega)
        _ = 2 * (c * e) := Nat.mul_assoc ..
    have htwo : (s + 2) * P ≤ d * P := Nat.mul_le_mul_right P (by omega)
    rw [hmod]
    calc s * P + (c + 1 + s) * e < s * P + 2 * P := by omega
      _ = (s + 2) * P := (Nat.add_mul ..).symm
      _ ≤ d * P := htwo
  · exact error_lt hd ((Nat.mul_le_mul_right e hge).trans_lt herr)

theorem lt_mul_of_roundUp (hm : m * d = P + e) (he : 0 < e) (ha : 0 < a) :
    a / d * P < a * m := by
  refine Nat.lt_of_mul_lt_mul_right (a := d) ?_
  have hpos : 0 < a * e := Nat.mul_pos ha he
  have heq := mul_eq_of_roundUp (a := a) hm
  omega

theorem neg_ediv_eq {x k : Nat} (hP : 0 < P) (hlt : k * P < x) (hle : x ≤ (k + 1) * P) :
    -(x : Int) / (P : Int) = -(k : Int) - 1 := by
  rw [Int.ediv_eq_iff_of_pos (by exact_mod_cast hP)]
  have hlt' : (k : Int) * P < x := by exact_mod_cast hlt
  have hle' : (x : Int) ≤ (k + 1) * P := by exact_mod_cast hle
  constructor <;> linarith

end Largest

end Psbc.Reciprocal
