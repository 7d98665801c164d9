import Mathlib.Algebra.Ring.Nat
import Mathlib.Data.Nat.Prime.Basic

/-!
# Primes by one common divisor

A number is prime if it has no factor in common with the product of all numbers up to its square
root. The product of the odd ones is taken in halves, so that it can be evaluated.
-/

namespace Trial

/-- The product of the `2 ^ k` numbers `lo`, `lo + 2` and so on. -/
def product : Nat → Nat → Nat
  | 0, lo => lo
  | k + 1, lo => product k lo * product k (lo + 2 * 2 ^ k)

def isPrime (k n : Nat) : Bool :=
  Nat.ble 2 n && Nat.beq (Nat.gcd n (2 * product k 3)) 1 && Nat.blt n ((3 + 2 * 2 ^ k) ^ 2)

theorem dvd_product {k lo i : Nat} (hi : i < 2 ^ k) : lo + 2 * i ∣ product k lo := by
  induction k generalizing lo i with
  | zero =>
    obtain rfl : i = 0 := by omega
    exact dvd_rfl
  | succ k ih =>
    rw [pow_succ] at hi
    rcases Nat.lt_or_ge i (2 ^ k) with hlt | hge
    · exact (ih hlt).mul_right _
    · have hupper : lo + 2 * 2 ^ k + 2 * (i - 2 ^ k) ∣ product k (lo + 2 * 2 ^ k) :=
        ih (by omega)
      have heq : lo + 2 * 2 ^ k + 2 * (i - 2 ^ k) = lo + 2 * i := by omega
      rw [heq] at hupper
      exact hupper.mul_left _

theorem dvd_two_mul_product {k m : Nat} (hm : m.Prime) (hlt : m < 3 + 2 * 2 ^ k) :
    m ∣ 2 * product k 3 := by
  rcases hm.eq_two_or_odd with rfl | hodd
  · exact dvd_mul_right 2 _
  · have hge := hm.two_le
    have hdvd : 3 + 2 * ((m - 3) / 2) ∣ product k 3 := dvd_product (by omega)
    have heq : 3 + 2 * ((m - 3) / 2) = m := by omega
    rw [heq] at hdvd
    exact hdvd.mul_left 2

theorem prime_of_isPrime {k n : Nat} (h : isPrime k n = true) : n.Prime := by
  simp only [isPrime, Bool.and_eq_true, Nat.ble_eq, Nat.beq_eq, Nat.blt_eq] at h
  obtain ⟨⟨hn, hgcd⟩, hlt⟩ := h
  by_contra hprime
  have hfac : n.minFac.Prime := Nat.minFac_prime (by omega)
  have hsq : n.minFac ^ 2 < (3 + 2 * 2 ^ k) ^ 2 :=
    (Nat.minFac_sq_le_self (by omega) hprime).trans_lt hlt
  have hdvd : n.minFac ∣ Nat.gcd n (2 * product k 3) :=
    Nat.dvd_gcd n.minFac_dvd
      (dvd_two_mul_product hfac ((Nat.pow_lt_pow_iff_left (by omega)).mp hsq))
  rw [hgcd] at hdvd
  exact hfac.one_lt.ne' (Nat.dvd_one.mp hdvd)

end Trial
