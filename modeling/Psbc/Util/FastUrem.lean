import Mathlib.Algebra.Group.Nat.Defs

/-!
# Remainders by multiplication

`fast_urem_by_const.h` takes the remainder of a 32-bit number by two multiplications with a
constant that belongs to the divisor. The constant is the 64-bit reciprocal of the divisor
rounded up; its error is less than the divisor, too small to show in the result.
-/

namespace Psbc.Util

def REMAINDER_MAGIC (divisor : Nat) : Nat := ((2 ^ 64 - 1) / divisor + 1) % 2 ^ 64

/-- With 128-bit products. -/
def mul32by64Hi (a b : Nat) : Nat := a * b / 2 ^ 64 % 2 ^ 32

/-- Without them, from the halves of `b`. -/
def mul32by64HiHalves (a b : Nat) : Nat :=
  let b0 := b % 2 ^ 32
  let b1 := b / 2 ^ 32 % 2 ^ 32
  (a * b0 / 2 ^ 32 + a * b1) % 2 ^ 64 / 2 ^ 32 % 2 ^ 32

def utilFastUrem32 (n d magic : Nat) : Nat :=
  let lowbits := magic * n % 2 ^ 64
  mul32by64Hi d lowbits

/-- The two ways to the high bits agree, and the sum of the halves does not overflow. -/
theorem mul32by64HiHalves_eq {a b : Nat} (ha : a < 2 ^ 32) (hb : b < 2 ^ 64) :
    mul32by64HiHalves a b = mul32by64Hi a b := by
  have hhigh : b / 2 ^ 32 % 2 ^ 32 = b / 2 ^ 32 := Nat.mod_eq_of_lt (by omega)
  have hlow : a * (b % 2 ^ 32) ≤ (2 ^ 32 - 1) * (2 ^ 32 - 1) :=
    Nat.mul_le_mul (by omega) (by omega)
  have hmul : a * (b / 2 ^ 32) ≤ (2 ^ 32 - 1) * (2 ^ 32 - 1) :=
    Nat.mul_le_mul (by omega) (by omega)
  have hsplit : a * b = 2 ^ 32 * (a * (b / 2 ^ 32)) + a * (b % 2 ^ 32) := by
    conv => lhs; rw [← Nat.div_add_mod b (2 ^ 32)]
    rw [Nat.mul_add, Nat.mul_left_comm]
  simp only [mul32by64HiHalves, mul32by64Hi, hhigh]
  omega

theorem magic_mul {d : Nat} (hd : 1 < d) :
    ∃ e < d, REMAINDER_MAGIC d * d = 2 ^ 64 + e := by
  have hquot : (2 ^ 64 - 1) / d ≤ (2 ^ 64 - 1) / 2 := Nat.div_le_div_left hd (by omega)
  have hmagic : REMAINDER_MAGIC d = (2 ^ 64 - 1) / d + 1 := Nat.mod_eq_of_lt (by omega)
  have hdiv := Nat.div_add_mod (2 ^ 64 - 1) d
  have hmod : (2 ^ 64 - 1) % d < d := Nat.mod_lt _ (by omega)
  refine ⟨d - 1 - (2 ^ 64 - 1) % d, by omega, ?_⟩
  rw [hmagic, Nat.succ_mul, Nat.mul_comm]
  omega

theorem utilFastUrem32_of_one_lt {n d : Nat} (hn : n < 2 ^ 32) (hd : 1 < d) (hd' : d < 2 ^ 32) :
    utilFastUrem32 n d (REMAINDER_MAGIC d) = n % d := by
  obtain ⟨e, he, hmul⟩ := magic_mul hd
  have hr : n % d < d := Nat.mod_lt _ (by omega)
  have hen : e * n < 2 ^ 64 := by
    calc e * n ≤ (2 ^ 32 - 1) * (2 ^ 32 - 1) := Nat.mul_le_mul (by omega) (by omega)
      _ < 2 ^ 64 := by decide
  -- the low bits, times the divisor: the remainder and an error below 2 ^ 64
  have hprod : REMAINDER_MAGIC d * n =
      2 ^ 64 * (n / d) + (e * (n / d) + REMAINDER_MAGIC d * (n % d)) := by
    conv => lhs; rw [← Nat.div_add_mod n d, Nat.mul_add, ← Nat.mul_assoc, hmul]
    rw [Nat.add_mul, Nat.add_assoc]
  have hlow : d * (e * (n / d) + REMAINDER_MAGIC d * (n % d)) = 2 ^ 64 * (n % d) + e * n := by
    have hn' : e * n = e * (d * (n / d)) + e * (n % d) := by
      rw [← Nat.mul_add, Nat.div_add_mod]
    rw [Nat.mul_add, ← Nat.mul_assoc d (REMAINDER_MAGIC d), Nat.mul_comm d (REMAINDER_MAGIC d),
      hmul, Nat.add_mul, hn', Nat.mul_left_comm d e]
    omega
  have hlt : e * (n / d) + REMAINDER_MAGIC d * (n % d) < 2 ^ 64 := by
    refine Nat.lt_of_not_le fun hge => ?_
    have hbig : d * 2 ^ 64 ≤ d * (e * (n / d) + REMAINDER_MAGIC d * (n % d)) :=
      Nat.mul_le_mul_left d hge
    have hrem : 2 ^ 64 * (n % d) ≤ 2 ^ 64 * (d - 1) := Nat.mul_le_mul_left _ (by omega)
    rw [hlow] at hbig
    omega
  rw [utilFastUrem32, hprod, Nat.mul_add_mod, Nat.mod_eq_of_lt hlt, mul32by64Hi, hlow]
  omega

/-- The constant of the divisor 1 overflows to 0. -/
theorem utilFastUrem32_eq {n d : Nat} (hn : n < 2 ^ 32) (hd : 0 < d) (hd' : d < 2 ^ 32) :
    utilFastUrem32 n d (REMAINDER_MAGIC d) = n % d := by
  obtain rfl | hlt : d = 1 ∨ 1 < d := by omega
  · have hmagic : REMAINDER_MAGIC 1 = 0 := by decide
    rw [hmagic, utilFastUrem32, Nat.zero_mul, Nat.mod_one]
    decide
  · exact utilFastUrem32_of_one_lt hn hlt hd'

/-- **The fast remainder is the remainder**, for every number and divisor of 32 bits and with
either way to the high bits of the product. -/
theorem utilFastUrem32_builds {n d : Nat} (hn : n < 2 ^ 32) (hd : 0 < d) (hd' : d < 2 ^ 32) :
    utilFastUrem32 n d (REMAINDER_MAGIC d) = n % d ∧
      mul32by64HiHalves d (REMAINDER_MAGIC d * n % 2 ^ 64) = n % d := by
  have hlow : REMAINDER_MAGIC d * n % 2 ^ 64 < 2 ^ 64 := Nat.mod_lt _ (by decide)
  refine ⟨utilFastUrem32_eq hn hd hd', ?_⟩
  rw [mul32by64HiHalves_eq hd' hlow]
  exact utilFastUrem32_eq hn hd hd'

theorem utilFastUrem32_builds_largest :
    utilFastUrem32 4294967295 4294967294 (REMAINDER_MAGIC 4294967294) = 1 ∧
      mul32by64HiHalves 4294967294 (REMAINDER_MAGIC 4294967294 * 4294967295 % 2 ^ 64) = 1 :=
  utilFastUrem32_builds (by decide) (by decide) (by decide)

end Psbc.Util
