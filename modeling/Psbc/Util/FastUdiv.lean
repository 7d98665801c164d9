import Mathlib.Data.Nat.Bitwise
import Mathlib.Data.Nat.Prime.Basic
import Psbc.Lib.Reciprocal

/-!
# Constants for unsigned division by multiplication

`fast_idiv_by_const.c` looks for the multiplier and the shifts that replace a division by a
constant. The search doubles a power of two until its reciprocal, rounded up, is close enough for
all dividends. An odd divisor for which that takes one bit too many uses a reciprocal that is
rounded down, and an even one shifts the dividend first. Arithmetic is in 64 bits, and only
quotients that are not used overflow.
-/

namespace Psbc.Util

open Reciprocal

/-- `IS_POT`. -/
def utilIsPowerOfTwoOrZero64 (v : Nat) : Bool := v &&& (v - 1) == 0

def utilLogbase2_64 (n : Nat) : Nat := Nat.log2 (n ||| 1)

theorem utilIsPowerOfTwoOrZero64_iff {v : Nat} (hv : v ≠ 0) :
    utilIsPowerOfTwoOrZero64 v = true ↔ ∃ k, v = 2 ^ k := by
  rw [utilIsPowerOfTwoOrZero64, beq_iff_eq]
  exact Nat.and_sub_one_eq_zero_iff_isPowerOfTwo hv

theorem utilLogbase2_64_two_pow (k : Nat) : utilLogbase2_64 (2 ^ k) = k := by
  rw [utilLogbase2_64]
  rcases Nat.eq_zero_or_pos k with rfl | hk
  · decide
  · have hlt : 1 < 2 ^ k := Nat.one_lt_two_pow (by omega)
    have hor := Nat.two_pow_add_eq_or_of_lt hlt 1
    rw [Nat.mul_one] at hor
    rw [← hor, Nat.log2_eq_iff (by omega), pow_succ]
    omega

/-! ## Unsigned divisors -/

structure FastUdivInfo where
  multiplier : Nat
  preShift : Nat
  postShift : Nat
  increment : Nat
  deriving DecidableEq, Repr, Inhabited

/-- `for (tmp = D; tmp > 0; tmp >>= 1) ceil_log_2_D += 1` -/
def ceilLog2 : Nat → Nat → Nat
  | 0, _ => 0
  | fuel + 1, tmp => if tmp = 0 then 0 else ceilLog2 fuel (tmp / 2) + 1

/-- The quotient and the remainder of the next power of two. -/
def udivDouble (D quotient remainder : Nat) : Nat × Nat :=
  if D - remainder ≤ remainder then
    ((quotient * 2 + 1) % 2 ^ 64, (remainder * 2 % 2 ^ 64 + 2 ^ 64 - D) % 2 ^ 64)
  else (quotient * 2 % 2 ^ 64, remainder * 2 % 2 ^ 64)

/-- The loop over the exponents: the exponent and the quotient that end it, and the first exponent
with its quotient that a reciprocal rounded down can use. -/
def udivSearch (D extraShift ceilLog2D : Nat) :
    Nat → Nat → Nat → Nat → Option (Nat × Nat) → Nat × Nat × Option (Nat × Nat)
  | 0, exponent, quotient, _, down => (exponent, quotient, down)
  | fuel + 1, exponent, quotient, remainder, down =>
    let next := udivDouble D quotient remainder
    if ceilLog2D ≤ exponent + extraShift ∨ D - next.2 ≤ 2 ^ (exponent + extraShift) then
      (exponent, next.1, down)
    else
      udivSearch D extraShift ceilLog2D fuel (exponent + 1) next.1 next.2
        (if down.isNone ∧ next.2 ≤ 2 ^ (exponent + extraShift) then some (next.1, exponent)
          else down)

/-- `while ((shifted_D & 1) == 0)`: the odd part and its shift. -/
def shiftOut : Nat → Nat → Nat × Nat
  | 0, D => (D, 0)
  | fuel + 1, D =>
    if D % 2 = 0 then
      let rest := shiftOut fuel (D / 2)
      (rest.1, rest.2 + 1)
    else (D, 0)

/-- The body of `util_compute_fast_udiv_info`, with the call it makes for an even divisor. -/
def udivInfoBody (again : Nat → Nat → FastUdivInfo) (D numBits uintBits : Nat) : FastUdivInfo :=
  if utilIsPowerOfTwoOrZero64 D then
    let divShift := utilLogbase2_64 D
    if divShift ≠ 0 then ⟨2 ^ (uintBits - divShift), 0, 0, 0⟩
    else ⟨2 ^ uintBits - 1, 0, 0, 1⟩
  else
    let extraShift := uintBits - numBits
    let ceilLog2D := ceilLog2 64 D
    let power := 2 ^ (uintBits - 1)
    let found := udivSearch D extraShift ceilLog2D 65 0 (power / D) (power % D) none
    if found.1 < ceilLog2D then ⟨(found.2.1 + 1) % 2 ^ 64, 0, found.1, 0⟩
    else if D % 2 = 1 then
      let down := found.2.2.getD (0, 0)
      ⟨down.1, 0, down.2, 1⟩
    else
      let shifted := shiftOut 64 D
      { again shifted.1 (numBits - shifted.2) with preShift := shifted.2 }

/-- The shifted divisor is odd, and a call with an odd divisor makes no other. -/
def utilComputeFastUdivInfo (D numBits uintBits : Nat) : FastUdivInfo :=
  udivInfoBody (fun D numBits => udivInfoBody (fun _ _ => default) D numBits uintBits)
    D numBits uintBits

/-! ## The unsigned search -/

theorem ceilLog2_spec {fuel tmp : Nat} (h : tmp < 2 ^ fuel) :
    tmp < 2 ^ ceilLog2 fuel tmp ∧ (tmp ≠ 0 → 2 ^ ceilLog2 fuel tmp ≤ 2 * tmp) ∧
      ceilLog2 fuel tmp ≤ fuel := by
  induction fuel generalizing tmp with
  | zero =>
    rw [pow_zero] at h
    exact ⟨h, fun hne => absurd h (by omega), Nat.le_refl 0⟩
  | succ fuel ih =>
    rw [pow_succ] at h
    rw [ceilLog2]
    split
    next hzero => exact ⟨by omega, fun hne => absurd hzero hne, Nat.zero_le _⟩
    next hne =>
      have hhalf : tmp / 2 < 2 ^ fuel := by omega
      obtain ⟨hlt, hge, hle⟩ := ih hhalf
      rw [pow_succ]
      refine ⟨by omega, fun _ => ?_, Nat.succ_le_succ hle⟩
      rcases Nat.eq_zero_or_pos (tmp / 2) with hzero | hpos
      · have hone : ceilLog2 fuel (tmp / 2) = 0 := by
          rw [hzero]
          cases fuel <;> rfl
        rw [hone]
        omega
      · have hdouble := hge (by omega)
        omega

theorem udivDouble_eq {D N : Nat} (hD : 0 < D) (hD' : D < 2 ^ 64) :
    udivDouble D (N / D % 2 ^ 64) (N % D) = (2 * N / D % 2 ^ 64, 2 * N % D) := by
  have hlt : N % D < D := Nat.mod_lt N hD
  rw [udivDouble]
  split
  next hwrap =>
    obtain ⟨hquot, hrem⟩ := two_mul_div_of_le (n := N) hD (by omega)
    rw [hquot, hrem]
    congr 1 <;> omega
  next hwrap =>
    obtain ⟨hquot, hrem⟩ := two_mul_div_of_lt (n := N) (d := D) (by omega)
    rw [hquot, hrem]
    congr 1 <;> omega

section Search

variable {w D extraShift ceilLog2D : Nat}

/-- The exponent `e` ends the search. -/
def Ends (w D extraShift ceilLog2D e : Nat) : Prop :=
  ceilLog2D ≤ e + extraShift ∨ D - 2 ^ (w + e) % D ≤ 2 ^ (e + extraShift)

/-- What the loop has in its variables before the exponent `e`. -/
structure DownBefore (w D extraShift e : Nat) (down : Option (Nat × Nat)) : Prop where
  some : ∀ p, down = some p → p.1 = 2 ^ (w + p.2) / D % 2 ^ 64 ∧ p.2 < e ∧
    2 ^ (w + p.2) % D ≤ 2 ^ (p.2 + extraShift)
  none : down = none → ∀ f < e, 2 ^ (f + extraShift) < 2 ^ (w + f) % D

theorem DownBefore.next {e : Nat} {down : Option (Nat × Nat)}
    (h : DownBefore w D extraShift e down) :
    DownBefore w D extraShift (e + 1)
      (if down.isNone ∧ 2 ^ (w + e) % D ≤ 2 ^ (e + extraShift) then
        .some (2 ^ (w + e) / D % 2 ^ 64, e) else down) := by
  split
  next hset =>
    refine ⟨fun p hp => ?_, nofun⟩
    obtain rfl := Option.some.inj hp
    exact ⟨rfl, Nat.lt_succ_self e, hset.2⟩
  next hkept =>
    refine ⟨fun p hp => ?_, fun hnone f hf => ?_⟩
    · obtain ⟨hquot, hlt, hle⟩ := h.some p hp
      exact ⟨hquot, Nat.lt_succ_of_lt hlt, hle⟩
    · rcases Nat.lt_succ_iff_lt_or_eq.mp hf with hlt | rfl
      · exact h.none hnone f hlt
      · exact Nat.lt_of_not_le fun hle => hkept ⟨by rw [hnone]; rfl, hle⟩

theorem udivSearch_spec (hw : 0 < w) (hD : 0 < D) (hD' : D < 2 ^ 64) {fuel e : Nat}
    {down : Option (Nat × Nat)} (hfuel : ceilLog2D < e + fuel)
    (hbefore : ∀ f < e, ¬ Ends w D extraShift ceilLog2D f)
    (hdown : DownBefore w D extraShift e down) :
    ∃ e' quotient down', udivSearch D extraShift ceilLog2D fuel e (2 ^ (w - 1 + e) / D % 2 ^ 64)
        (2 ^ (w - 1 + e) % D) down = (e', quotient, down') ∧
      quotient = 2 ^ (w + e') / D % 2 ^ 64 ∧ Ends w D extraShift ceilLog2D e' ∧
      (∀ f < e', ¬ Ends w D extraShift ceilLog2D f) ∧ DownBefore w D extraShift e' down' := by
  induction fuel generalizing e down with
  | zero =>
    rcases Nat.eq_zero_or_pos e with rfl | he
    · exact absurd hfuel (Nat.not_lt_zero _)
    · exact absurd (.inl (by omega)) (hbefore (e - 1) (by omega))
  | succ fuel ih =>
    have hpow : 2 * 2 ^ (w - 1 + e) = 2 ^ (w + e) := by
      rw [← pow_succ', show w - 1 + e + 1 = w + e by omega]
    rw [udivSearch, udivDouble_eq hD hD', hpow]
    split
    next hends => exact ⟨e, _, down, rfl, rfl, hends, hbefore, hdown⟩
    next hgoes =>
      have hnext : w - 1 + (e + 1) = w + e := by omega
      rw [← hnext]
      refine ih (by omega) (fun f hf => ?_) ?_
      · rcases Nat.lt_succ_iff_lt_or_eq.mp hf with hlt | rfl
        · exact hbefore f hlt
        · exact hgoes
      · rw [hnext]
        exact hdown.next

end Search

/-! ## The unsigned constants -/

/-- The constants divide by `D`: the shifts and the multiplier fit the word, the sequence of
`util_fast_udiv32` gives the quotient, and so does the one whose increment is clamped. -/
structure UdivExact (info : FastUdivInfo) (D numBits w : Nat) : Prop where
  multiplier_lt : info.multiplier < 2 ^ w
  preShift_lt : info.preShift < w
  postShift_lt : info.postShift < w
  increment : info.increment = 0 ∨ info.increment = 1 ∧ info.preShift = 0
  exact : ∀ n < 2 ^ numBits, (n / 2 ^ info.preShift + info.increment) * info.multiplier / 2 ^ w /
    2 ^ info.postShift = n / D
  clamped : info.increment = 1 → D ≠ 1 →
    (2 ^ w - 1) * info.multiplier / 2 ^ w / 2 ^ info.postShift = (2 ^ w - 1) / D

theorem udivExact_one {numBits w : Nat} (hw : 0 < w) (hbits : numBits ≤ w) :
    UdivExact ⟨2 ^ w - 1, 0, 0, 1⟩ 1 numBits w := by
  have hpos : 0 < 2 ^ w := Nat.two_pow_pos w
  have hword : 2 ^ numBits ≤ 2 ^ w := Nat.pow_le_pow_right (by decide) hbits
  refine ⟨Nat.sub_lt hpos Nat.one_pos, hw, hw, .inr ⟨rfl, rfl⟩, fun n hn => ?_,
    fun _ h => absurd rfl h⟩
  have hprod : (n + 1) * (2 ^ w - 1) = 2 ^ w - (n + 1) + n * 2 ^ w := by
    rw [Nat.mul_sub_one, Nat.succ_mul]
    omega
  show (n / 2 ^ 0 + 1) * (2 ^ w - 1) / 2 ^ w / 2 ^ 0 = n / 1
  rw [pow_zero, Nat.div_one, Nat.div_one, hprod, Nat.add_mul_div_right _ _ hpos,
    Nat.div_eq_of_lt (by omega), Nat.zero_add]

theorem udivExact_two_pow {k numBits w : Nat} (hk : 0 < k) (hkw : k < w) :
    UdivExact ⟨2 ^ (w - k), 0, 0, 0⟩ (2 ^ k) numBits w := by
  have hw : 0 < w := by omega
  refine ⟨Nat.pow_lt_pow_right (by decide) (by omega), hw, hw, .inl rfl, fun n _ => ?_, nofun⟩
  have hpow : 2 ^ w = 2 ^ (w - k) * 2 ^ k := by
    rw [← pow_add, Nat.sub_add_cancel hkw.le]
  show (n / 2 ^ 0 + 0) * 2 ^ (w - k) / 2 ^ w / 2 ^ 0 = n / 2 ^ k
  rw [pow_zero, Nat.div_one, Nat.div_one, Nat.add_zero, hpow, Nat.mul_comm n,
    Nat.mul_div_mul_left _ _ (Nat.two_pow_pos _)]

section Constants

variable {w D numBits : Nat}

theorem two_pow_mod_pos (hD : 0 < D) (hpot : utilIsPowerOfTwoOrZero64 D ≠ true) (k : Nat) :
    0 < 2 ^ k % D := by
  refine Nat.pos_of_ne_zero fun hzero => hpot ?_
  rw [utilIsPowerOfTwoOrZero64_iff hD.ne']
  obtain ⟨j, _, hj⟩ := (Nat.dvd_prime_pow Nat.prime_two).mp (Nat.dvd_of_mod_eq_zero hzero)
  exact ⟨j, hj⟩

/-- A divisor that is no power of two lies strictly between two of them. -/
structure Between (D L : Nat) : Prop where
  lower : 2 ^ (L - 1) < D
  upper : D < 2 ^ L
  pos : 0 < L

theorem between_ceilLog2 (hD : 0 < D) (hD' : D < 2 ^ 64)
    (hpot : utilIsPowerOfTwoOrZero64 D ≠ true) : Between D (ceilLog2 64 D) := by
  obtain ⟨hlt, hge, _⟩ := ceilLog2_spec hD'
  have hpos : 0 < ceilLog2 64 D := by
    refine Nat.pos_of_ne_zero fun hzero => ?_
    rw [hzero] at hlt
    omega
  have hdouble : 2 ^ ceilLog2 64 D = 2 * 2 ^ (ceilLog2 64 D - 1) := by
    rw [← pow_succ', Nat.sub_add_cancel hpos]
  have hne : D ≠ 2 ^ (ceilLog2 64 D - 1) := fun heq =>
    hpot ((utilIsPowerOfTwoOrZero64_iff hD.ne').mpr ⟨_, heq⟩)
  have hle := hge hD.ne'
  exact ⟨by omega, hlt, hpos⟩

variable {L e : Nat}

theorem quotient_lt (hL : Between D L) (hD : D < 2 ^ w) (he : e < L) :
    2 ^ (w + e) / D + 1 < 2 ^ w := by
  have hlower := hL.lower
  have hDpos : 0 < D := Nat.zero_lt_of_lt hlower
  have hprod : 2 ^ (w + e) / D * D + D < 2 ^ w * D := by
    calc 2 ^ (w + e) / D * D + D ≤ 2 ^ (w + e) + D :=
          Nat.add_le_add_right (Nat.div_mul_le_self _ D) D
      _ < 2 ^ w * 2 ^ (L - 1) + 2 ^ w := by
          rw [pow_add]
          have hpow : 2 ^ e ≤ 2 ^ (L - 1) := Nat.pow_le_pow_right (by decide) (by omega)
          exact Nat.add_lt_add_of_le_of_lt (Nat.mul_le_mul_left _ hpow) hD
      _ = 2 ^ w * (2 ^ (L - 1) + 1) := (Nat.mul_succ ..).symm
      _ ≤ 2 ^ w * D := Nat.mul_le_mul_left _ hlower
  rw [← Nat.succ_mul] at hprod
  exact Nat.lt_of_mul_lt_mul_right hprod

theorem udivExact_up (hw : w ≤ 64) (hD : D < 2 ^ w) (hbits : numBits ≤ w) (hL : Between D L)
    (hLw : L ≤ w) (he : e < L) (hends : Ends w D (w - numBits) L e) :
    UdivExact ⟨(2 ^ (w + e) / D % 2 ^ 64 + 1) % 2 ^ 64, 0, e, 0⟩ D numBits w := by
  have hDpos : 0 < D := Nat.zero_lt_of_lt hL.lower
  have hquot := quotient_lt hL hD he
  have hword : 2 ^ w ≤ 2 ^ 64 := Nat.pow_le_pow_right (by decide) hw
  have hmul : (2 ^ (w + e) / D % 2 ^ 64 + 1) % 2 ^ 64 = 2 ^ (w + e) / D + 1 := by
    rw [Nat.mod_eq_of_lt (by omega : 2 ^ (w + e) / D < 2 ^ 64), Nat.mod_eq_of_lt (by omega)]
  rw [hmul]
  have hrem : 2 ^ (w + e) % D < D := Nat.mod_lt _ hDpos
  have herr : D - 2 ^ (w + e) % D ≤ 2 ^ (e + (w - numBits)) := by
    rcases hends with hbig | hsmall
    · have hpow : 2 ^ L ≤ 2 ^ (e + (w - numBits)) := Nat.pow_le_pow_right (by decide) hbig
      have hupper := hL.upper
      omega
    · exact hsmall
  have hm : (2 ^ (w + e) / D + 1) * D = 2 ^ (w + e) + (D - 2 ^ (w + e) % D) := by
    have hdiv := Nat.div_add_mod (2 ^ (w + e)) D
    rw [Nat.succ_mul, Nat.mul_comm]
    omega
  refine ⟨hquot, Nat.zero_lt_of_lt (he.trans_le hLw), he.trans_le hLw, .inl rfl,
    fun n hn => ?_, nofun⟩
  have hbound : n * (D - 2 ^ (w + e) % D) < 2 ^ (w + e) := by
    calc n * (D - 2 ^ (w + e) % D) ≤ n * 2 ^ (e + (w - numBits)) := Nat.mul_le_mul_left n herr
      _ < 2 ^ numBits * 2 ^ (e + (w - numBits)) :=
          Nat.mul_lt_mul_of_pos_right hn (Nat.two_pow_pos _)
      _ = 2 ^ (w + e) := by rw [← pow_add, show numBits + (e + (w - numBits)) = w + e by omega]
  rw [pow_zero, Nat.div_one, Nat.add_zero, Nat.div_div_eq_div_mul, ← pow_add]
  exact div_of_roundUp hDpos hm hbound

/-- The exponent below the bit length ends the search when the divisor divides the largest
dividend. -/
theorem ends_of_dvd (hL : Between D L) (hdvd : (2 ^ w - 1) % D = 0) : Ends w D 0 L (L - 1) := by
  have hlower := hL.lower
  have hupper := hL.upper
  have hdouble : 2 ^ L = 2 * 2 ^ (L - 1) := by
    rw [← pow_succ', Nat.sub_add_cancel hL.pos]
  have hmod : 2 ^ (w + (L - 1)) % D = 2 ^ (L - 1) := by
    obtain ⟨k, hk⟩ := Nat.dvd_of_mod_eq_zero hdvd
    have hone : 2 ^ w = D * k + 1 := by
      have hpos := Nat.two_pow_pos w
      omega
    rw [pow_add, hone, Nat.succ_mul, Nat.mul_assoc, Nat.mul_add_mod, Nat.mod_eq_of_lt hlower]
  refine .inr ?_
  rw [hmod, Nat.add_zero]
  omega

theorem udivExact_down (hw : w ≤ 64) (hD : D < 2 ^ w) (hL : Between D L) (hLw : L ≤ w)
    (hpot : utilIsPowerOfTwoOrZero64 D ≠ true) (he : e < L)
    (hrem : 2 ^ (w + e) % D ≤ 2 ^ e) (hends : ¬ Ends w D 0 L (L - 1)) :
    UdivExact ⟨2 ^ (w + e) / D % 2 ^ 64, 0, e, 1⟩ D w w := by
  have hDpos : 0 < D := Nat.zero_lt_of_lt hL.lower
  have hquot := quotient_lt hL hD he
  have hword : 2 ^ w ≤ 2 ^ 64 := Nat.pow_le_pow_right (by decide) hw
  rw [Nat.mod_eq_of_lt (by omega : 2 ^ (w + e) / D < 2 ^ 64)]
  have hm : 2 ^ (w + e) / D * D + 2 ^ (w + e) % D = 2 ^ (w + e) := by
    rw [Nat.mul_comm]
    exact Nat.div_add_mod _ D
  have hbound : ∀ n ≤ 2 ^ w, n * (2 ^ (w + e) % D) ≤ 2 ^ (w + e) := fun n hn => by
    rw [pow_add]
    exact Nat.mul_le_mul hn (by rw [← pow_add]; exact hrem)
  refine ⟨Nat.lt_of_succ_lt hquot, Nat.zero_lt_of_lt (he.trans_le hLw), he.trans_le hLw,
    .inr ⟨rfl, rfl⟩, fun n hn => ?_, fun _ _ => ?_⟩
  · rw [pow_zero, Nat.div_one, Nat.div_div_eq_div_mul, ← pow_add]
    exact div_of_roundDown hDpos hm (two_pow_mod_pos hDpos hpot _) (hbound _ hn)
  · rw [Nat.div_div_eq_div_mul, ← pow_add]
    exact div_of_roundDown_of_mod_ne hDpos hm (Nat.two_pow_pos _) (hbound _ (Nat.sub_le _ _))
      fun hdvd => hends (ends_of_dvd hL hdvd)

/-- What the search finds for a divisor that is no power of two. -/
theorem exists_search (numBits : Nat) (hw : 0 < w) (hw' : w ≤ 64) (hD : 0 < D)
    (hD' : D < 2 ^ w) :
    ∃ e quotient down, udivSearch D (w - numBits) (ceilLog2 64 D) 65 0 (2 ^ (w - 1) / D)
        (2 ^ (w - 1) % D) none = (e, quotient, down) ∧
      quotient = 2 ^ (w + e) / D % 2 ^ 64 ∧ Ends w D (w - numBits) (ceilLog2 64 D) e ∧
      (∀ f < e, ¬ Ends w D (w - numBits) (ceilLog2 64 D) f) ∧
      DownBefore w D (w - numBits) e down := by
  have hword : 2 ^ w ≤ 2 ^ 64 := Nat.pow_le_pow_right (by decide) hw'
  have hfuel := (ceilLog2_spec (hD'.trans_le hword)).2.2
  have hpower : 2 ^ (w - 1) / D = 2 ^ (w - 1 + 0) / D % 2 ^ 64 := by
    refine (Nat.mod_eq_of_lt ?_).symm
    calc 2 ^ (w - 1 + 0) / D ≤ 2 ^ (w - 1) := Nat.div_le_self _ _
      _ < 2 ^ w := Nat.pow_lt_pow_right (by decide) (by omega)
      _ ≤ 2 ^ 64 := hword
  rw [hpower]
  exact udivSearch_spec hw hD (hD'.trans_le hword) (by omega) (fun _ => nofun)
    ⟨nofun, fun _ _ => nofun⟩

/-- An exponent of the whole bit length comes from dividends of the whole word. -/
theorem le_of_not_ends {extraShift : Nat} (hL : 0 < L) (he : L ≤ e)
    (hbefore : ∀ f < e, ¬ Ends w D extraShift L f) : e = L ∧ extraShift = 0 := by
  have hlast : ¬ L ≤ L - 1 + extraShift := fun h => hbefore (L - 1) (by omega) (.inl h)
  have hle : e ≤ L := Nat.le_of_not_lt fun h => hbefore L h (.inl (Nat.le_add_right _ _))
  omega

theorem ceilLog2_le (hD : 0 < D) (hD' : D < 2 ^ w) (hw : w ≤ 64) : ceilLog2 64 D ≤ w := by
  have hword : 2 ^ w ≤ 2 ^ 64 := Nat.pow_le_pow_right (by decide) hw
  have hle := (ceilLog2_spec (hD'.trans_le hword)).2.1 hD.ne'
  have hlt : 2 ^ ceilLog2 64 D < 2 ^ (w + 1) := by
    rw [pow_succ]
    omega
  exact Nat.le_of_lt_succ ((Nat.pow_lt_pow_iff_right (by decide)).mp hlt)

theorem shiftOut_spec {fuel : Nat} (hD : 0 < D) (hD' : D < 2 ^ fuel) :
    D = (shiftOut fuel D).1 * 2 ^ (shiftOut fuel D).2 ∧ (shiftOut fuel D).1 % 2 = 1 := by
  induction fuel generalizing D with
  | zero =>
    rw [pow_zero] at hD'
    omega
  | succ fuel ih =>
    rw [pow_succ] at hD'
    rw [shiftOut]
    split
    next heven =>
      obtain ⟨heq, hodd⟩ := ih (D := D / 2) (by omega) (by omega)
      refine ⟨?_, hodd⟩
      show D = (shiftOut fuel (D / 2)).1 * 2 ^ ((shiftOut fuel (D / 2)).2 + 1)
      rw [pow_succ, ← Nat.mul_assoc, ← heq]
      omega
    next hodd => exact ⟨(Nat.mul_one D).symm, by omega⟩

end Constants

theorem udivInfoBody_odd {again again' : Nat → Nat → FastUdivInfo} {D numBits w : Nat}
    (hD : D % 2 = 1) : udivInfoBody again D numBits w = udivInfoBody again' D numBits w := by
  simp only [udivInfoBody, if_pos hD]

/-- The definition is the recursive one. -/
theorem utilComputeFastUdivInfo_eq {D numBits w : Nat} (hD : 0 < D) (hD' : D < 2 ^ 64) :
    utilComputeFastUdivInfo D numBits w =
      udivInfoBody (fun D numBits => utilComputeFastUdivInfo D numBits w) D numBits w := by
  have hodd := (shiftOut_spec hD hD').2
  have hcall : udivInfoBody (fun _ _ => default) (shiftOut 64 D).1 (numBits - (shiftOut 64 D).2) w =
      utilComputeFastUdivInfo (shiftOut 64 D).1 (numBits - (shiftOut 64 D).2) w :=
    udivInfoBody_odd hodd
  rw [utilComputeFastUdivInfo]
  simp only [udivInfoBody.eq_1 (fun _ _ => udivInfoBody ..), hcall]
  rfl

section Exact

variable {again : Nat → Nat → FastUdivInfo} {w D numBits : Nat}

theorem udivInfoBody_two_pow (hw : 0 < w) (hbits : numBits ≤ w) (hD : 0 < D) (hD' : D < 2 ^ w)
    (hpot : utilIsPowerOfTwoOrZero64 D = true) :
    UdivExact (udivInfoBody again D numBits w) D numBits w := by
  obtain ⟨k, rfl⟩ := (utilIsPowerOfTwoOrZero64_iff hD.ne').mp hpot
  have hk : k < w := (Nat.pow_lt_pow_iff_right (by decide)).mp hD'
  rw [udivInfoBody, if_pos hpot, utilLogbase2_64_two_pow]
  rcases Nat.eq_zero_or_pos k with rfl | hpos
  · rw [if_neg (by decide)]
    exact udivExact_one hw hbits
  · rw [if_pos hpos.ne']
    exact udivExact_two_pow hpos hk

/-- An even divisor: the dividend is shifted first. -/
theorem UdivExact.shifted {info : FastUdivInfo} {s : Nat} (h : UdivExact info D (w - s) w)
    (hinc : info.increment = 0) (hpre : info.preShift = 0) (hs : s < w) :
    UdivExact { info with preShift := s } (D * 2 ^ s) w w := by
  refine ⟨h.multiplier_lt, hs, h.postShift_lt, .inl hinc, fun n hn => ?_, fun hone => ?_⟩
  · have hlt : n / 2 ^ s < 2 ^ (w - s) := by
      rw [Nat.div_lt_iff_lt_mul (Nat.two_pow_pos s), ← pow_add, Nat.sub_add_cancel hs.le]
      exact hn
    have hexact := h.exact _ hlt
    rw [hpre, pow_zero, Nat.div_one, Nat.div_div_eq_div_mul n, Nat.mul_comm (2 ^ s)] at hexact
    exact hexact
  · exact absurd (hone.symm.trans hinc) (by decide)

theorem udivInfoBody_exact (hw : 0 < w) (hw' : w ≤ 64) (hbits : numBits ≤ w) (hD : 0 < D)
    (hD' : D < 2 ^ w) (hpot : utilIsPowerOfTwoOrZero64 D ≠ true)
    (hagain : ∀ D' s, D = D' * 2 ^ s → D' % 2 = 1 → 0 < s →
      UdivExact (again D' (w - s)) D' (w - s) w ∧ (again D' (w - s)).increment = 0 ∧
        (again D' (w - s)).preShift = 0) :
    UdivExact (udivInfoBody again D numBits w) D numBits w ∧
      (numBits < w → (udivInfoBody again D numBits w).increment = 0 ∧
        (udivInfoBody again D numBits w).preShift = 0) := by
  have hword : 2 ^ w ≤ 2 ^ 64 := Nat.pow_le_pow_right (by decide) hw'
  have hL := between_ceilLog2 hD (hD'.trans_le hword) hpot
  have hLw := ceilLog2_le hD hD' hw'
  obtain ⟨e, _, down, hsearch, rfl, hends, hbefore, hdown⟩ :=
    exists_search numBits hw hw' hD hD'
  simp only [udivInfoBody, if_neg hpot, hsearch]
  generalize ceilLog2 64 D = L at *
  rcases Nat.lt_or_ge e L with hlt | hge
  · rw [if_pos hlt]
    exact ⟨udivExact_up hw' hD' hbits hL hLw hlt hends, fun _ => ⟨rfl, rfl⟩⟩
  · obtain ⟨rfl, hextra⟩ := le_of_not_ends hL.pos hge hbefore
    obtain rfl : numBits = w := by omega
    rw [if_neg (Nat.lt_irrefl e)]
    refine ⟨?_, fun h => absurd h (Nat.lt_irrefl _)⟩
    rw [hextra] at hbefore hdown
    have hlast := hbefore (e - 1) (Nat.sub_lt hL.pos Nat.one_pos)
    split
    next hodd =>
      cases hsome : down with
      | none =>
        have hrem := hdown.none hsome (e - 1) (Nat.sub_lt hL.pos Nat.one_pos)
        have hupper := hL.upper
        have hdouble : 2 ^ e = 2 * 2 ^ (e - 1) := by
          rw [← pow_succ', Nat.sub_add_cancel hL.pos]
        refine absurd (.inr ?_) hlast
        rw [Nat.add_zero] at hrem ⊢
        omega
      | some p =>
        obtain ⟨hquot, hlt, hle⟩ := hdown.some p hsome
        rw [Nat.add_zero] at hle
        rw [Option.getD_some, hquot]
        exact udivExact_down hw' hD' hL hLw hpot hlt hle hlast
    next heven =>
      obtain ⟨heq, hodd⟩ := shiftOut_spec hD (hD'.trans_le hword)
      generalize shiftOut 64 D = shifted at heq hodd
      obtain ⟨D', s⟩ := shifted
      have hs : 0 < s := by
        refine Nat.pos_of_ne_zero fun hzero => heven ?_
        rw [heq, hzero, pow_zero, Nat.mul_one]
        exact hodd
      obtain ⟨hexact, hinc, hpre⟩ := hagain D' s heq hodd hs
      have hlt : s < numBits := by
        refine (Nat.pow_lt_pow_iff_right (by decide)).mp (Nat.lt_of_le_of_lt ?_ hD')
        rw [heq]
        exact Nat.le_mul_of_pos_left _ (by omega)
      have hshifted := hexact.shifted hinc hpre hlt
      rw [← heq] at hshifted
      exact hshifted

theorem udivInfoBody_exact_of_odd (again : Nat → Nat → FastUdivInfo) (hw : 0 < w) (hw' : w ≤ 64)
    (hbits : numBits ≤ w) (hD : D % 2 = 1) (hD' : D < 2 ^ w)
    (hpot : utilIsPowerOfTwoOrZero64 D ≠ true) :
    UdivExact (udivInfoBody again D numBits w) D numBits w ∧
      (numBits < w → (udivInfoBody again D numBits w).increment = 0 ∧
        (udivInfoBody again D numBits w).preShift = 0) := by
  refine udivInfoBody_exact hw hw' hbits (by omega) hD' hpot fun D' s heq _ hs => ?_
  obtain ⟨t, rfl⟩ : ∃ t, s = t + 1 := ⟨s - 1, by omega⟩
  rw [heq, pow_succ, ← Nat.mul_assoc, Nat.mul_mod_left] at hD
  exact absurd hD (by decide)

theorem utilComputeFastUdivInfo_spec (hw : 0 < w) (hw' : w ≤ 64) (hbits : numBits ≤ w)
    (hD : 0 < D) (hD' : D < 2 ^ w) (hpot : utilIsPowerOfTwoOrZero64 D ≠ true) :
    UdivExact (utilComputeFastUdivInfo D numBits w) D numBits w ∧
      (numBits < w → (utilComputeFastUdivInfo D numBits w).increment = 0 ∧
        (utilComputeFastUdivInfo D numBits w).preShift = 0) := by
  refine udivInfoBody_exact hw hw' hbits hD hD' hpot fun D' s heq hodd hs => ?_
  have hle : D' ≤ D := by
    rw [heq]
    exact Nat.le_mul_of_pos_right _ (Nat.two_pow_pos s)
  have hpot' : utilIsPowerOfTwoOrZero64 D' ≠ true := fun h => hpot <| by
    obtain ⟨k, hk⟩ := (utilIsPowerOfTwoOrZero64_iff (by omega)).mp h
    exact (utilIsPowerOfTwoOrZero64_iff hD.ne').mpr ⟨k + s, by rw [heq, hk, pow_add]⟩
  obtain ⟨hexact, hplain⟩ := udivInfoBody_exact_of_odd (fun _ _ => default) hw hw'
    (Nat.sub_le w s) hodd (hle.trans_lt hD') hpot'
  exact ⟨hexact, hplain (Nat.sub_lt hw hs)⟩

theorem utilComputeFastUdivInfo_exact (hw : 0 < w) (hw' : w ≤ 64) (hbits : numBits ≤ w)
    (hD : 0 < D) (hD' : D < 2 ^ w) :
    UdivExact (utilComputeFastUdivInfo D numBits w) D numBits w := by
  by_cases hpot : utilIsPowerOfTwoOrZero64 D = true
  · exact udivInfoBody_two_pow hw hbits hD hD' hpot
  · exact (utilComputeFastUdivInfo_spec hw hw' hbits hD hD' hpot).1

/-- With a spare bit, a divisor other than 1 needs neither a shift before nor an increment. -/
theorem utilComputeFastUdivInfo_plain (hw' : w ≤ 64) (hbits : numBits < w) (hD : 1 < D)
    (hD' : D < 2 ^ w) :
    (utilComputeFastUdivInfo D numBits w).increment = 0 ∧
      (utilComputeFastUdivInfo D numBits w).preShift = 0 := by
  by_cases hpot : utilIsPowerOfTwoOrZero64 D = true
  · obtain ⟨k, rfl⟩ := (utilIsPowerOfTwoOrZero64_iff (by omega)).mp hpot
    have hk : k ≠ 0 := fun hzero => by
      rw [hzero] at hD
      exact absurd hD (by decide)
    rw [utilComputeFastUdivInfo, udivInfoBody, if_pos hpot, utilLogbase2_64_two_pow, if_pos hk]
    exact ⟨rfl, rfl⟩
  · exact (utilComputeFastUdivInfo_spec (by omega) hw' hbits.le (by omega) hD' hpot).2 hbits

end Exact

/-! ## Divisions of 32 bits -/

section Udiv32

variable {D n : Nat}

def utilFastUdiv32 (n : Nat) (info : FastUdivInfo) : Nat :=
  let n := n / 2 ^ info.preShift
  let n := (n + info.increment) * info.multiplier % 2 ^ 64 / 2 ^ 32 % 2 ^ 32
  n / 2 ^ info.postShift

/-- The increment in 32 bits. -/
def utilFastUdiv32Nuw (n : Nat) (info : FastUdivInfo) : Nat :=
  let n := n / 2 ^ info.preShift
  let n := (n + info.increment) % 2 ^ 32
  let n := n * info.multiplier % 2 ^ 64 / 2 ^ 32 % 2 ^ 32
  n / 2 ^ info.postShift

/-- For operands of 31 bits and constants that were computed for them. -/
def utilFastUdiv32U31DNotOne (n : Nat) (info : FastUdivInfo) : Nat :=
  let n := n * info.multiplier % 2 ^ 64 / 2 ^ 32 % 2 ^ 32
  n / 2 ^ info.postShift

theorem high_word {a m : Nat} (ha : a ≤ 2 ^ 32) (hm : m < 2 ^ 32) :
    a * m % 2 ^ 64 / 2 ^ 32 % 2 ^ 32 = a * m / 2 ^ 32 := by
  have hprod : a * m ≤ 2 ^ 32 * (2 ^ 32 - 1) := Nat.mul_le_mul ha (by omega)
  omega

/-- **The fast divisions are exact**: the full one for every dividend, the one without wraparound
for all but the largest, and the plain one for dividends of 31 bits. -/
theorem utilFastUdiv32_quotient (hD : 0 < D) (hD' : D < 2 ^ 32) (hn : n < 2 ^ 32) :
    utilFastUdiv32 n (utilComputeFastUdivInfo D 32 32) = n / D ∧
      (n ≠ 2 ^ 32 - 1 → utilFastUdiv32Nuw n (utilComputeFastUdivInfo D 32 32) = n / D) ∧
      (n < 2 ^ 31 → 1 < D →
        utilFastUdiv32U31DNotOne n (utilComputeFastUdivInfo D 31 32) = n / D) := by
  have h32 : UdivExact (utilComputeFastUdivInfo D 32 32) D 32 32 :=
    utilComputeFastUdivInfo_exact (by decide) (by decide) (by decide) hD hD'
  have hshift : n / 2 ^ (utilComputeFastUdivInfo D 32 32).preShift ≤ n := Nat.div_le_self _ _
  have hinc : (utilComputeFastUdivInfo D 32 32).increment ≤ 1 := by
    rcases h32.increment with hzero | ⟨hone, _⟩ <;> omega
  refine ⟨?_, fun hlast => ?_, fun hn' hD1 => ?_⟩
  · rw [utilFastUdiv32, high_word (by omega) h32.multiplier_lt]
    exact h32.exact n hn
  · have hlt : n / 2 ^ (utilComputeFastUdivInfo D 32 32).preShift +
        (utilComputeFastUdivInfo D 32 32).increment < 2 ^ 32 := by omega
    rw [utilFastUdiv32Nuw, Nat.mod_eq_of_lt hlt, high_word hlt.le h32.multiplier_lt]
    exact h32.exact n hn
  · have h31 : UdivExact (utilComputeFastUdivInfo D 31 32) D 31 32 :=
      utilComputeFastUdivInfo_exact (by decide) (by decide) (by decide) hD hD'
    obtain ⟨hzero, hpre⟩ : (utilComputeFastUdivInfo D 31 32).increment = 0 ∧
        (utilComputeFastUdivInfo D 31 32).preShift = 0 :=
      utilComputeFastUdivInfo_plain (by decide) (by decide) hD1 hD'
    have hexact := h31.exact n hn'
    rw [hzero, hpre, pow_zero, Nat.div_one, Nat.add_zero] at hexact
    rw [utilFastUdiv32U31DNotOne, high_word (by omega) h31.multiplier_lt]
    exact hexact

/-- The divisor 7 takes the increment, and 28 the shift before. -/
theorem utilFastUdiv32_quotient_seven :
    utilComputeFastUdivInfo 7 32 32 = ⟨1227133513, 0, 1, 1⟩ ∧
      utilComputeFastUdivInfo 28 32 32 = ⟨613566757, 2, 0, 0⟩ ∧
      utilFastUdiv32 4294967295 (utilComputeFastUdivInfo 7 32 32) = 613566756 :=
  ⟨by decide, by decide, (utilFastUdiv32_quotient (by decide) (by decide) (by decide)).1⟩

end Udiv32

end Psbc.Util
