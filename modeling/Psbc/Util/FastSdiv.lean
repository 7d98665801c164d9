import Mathlib.Data.Int.Bitwise
import Psbc.Util.FastUdiv

/-!
# Constants for signed division by multiplication

The search of `fast_idiv_by_const.c` for a signed divisor doubles a power of two until it exceeds
the error of the reciprocal at the largest dividend with the largest remainder. That one dividend
is enough: the quotient is then right for all of them, and for the most negative one, which has no
counterpart, by a divisibility argument.
-/

namespace Psbc.Util

open Reciprocal

structure FastSdivInfo where
  multiplier : Int
  shift : Nat
  deriving DecidableEq, Repr

def utilSignExtend (val width : Nat) : Int :=
  ((BitVec.ofNat 64 val <<< (64 - width)).sshiftRight (64 - width)).toInt

/-- The quotient and the remainder of the next power of two. -/
def sdivDouble (d quotient remainder : Nat) : Nat × Nat :=
  let quotient := quotient * 2 % 2 ^ 64
  let remainder := remainder * 2 % 2 ^ 64
  if d ≤ remainder then ((quotient + 1) % 2 ^ 64, remainder - d) else (quotient, remainder)

/-- The loop: the exponent that ends it, and the quotient of the divisor. -/
def sdivSearch (absD absTestNumer : Nat) : Nat → Nat → Nat → Nat → Nat → Nat → Nat × Nat
  | 0, exponent, _, _, quotient2, _ => (exponent, quotient2)
  | fuel + 1, exponent, quotient1, remainder1, quotient2, remainder2 =>
    let one := sdivDouble absTestNumer quotient1 remainder1
    let two := sdivDouble absD quotient2 remainder2
    let delta := absD - two.2
    if one.1 < delta ∨ one.1 = delta ∧ one.2 = 0 then
      sdivSearch absD absTestNumer fuel (exponent + 1) one.1 one.2 two.1 two.2
    else (exponent + 1, two.1)

/-- The largest dividend whose remainder is the divisor less one. -/
def absTestNumer (D : Int) (sintBits : Nat) : Nat :=
  let tmp := 2 ^ (sintBits - 1) + if D < 0 then 1 else 0
  tmp - 1 - tmp % D.natAbs

def utilComputeFastSdivInfo (D : Int) (sintBits : Nat) : FastSdivInfo :=
  let absD := D.natAbs
  let initialPowerOf2 := 2 ^ (sintBits - 1)
  let test := absTestNumer D sintBits
  let found := sdivSearch absD test 64 (sintBits - 1) (initialPowerOf2 / test)
    (initialPowerOf2 % test) (initialPowerOf2 / absD) (initialPowerOf2 % absD)
  let multiplier := utilSignExtend ((found.2 + 1) % 2 ^ 64) sintBits
  ⟨if D < 0 then -multiplier else multiplier, found.1 - sintBits⟩

example : utilComputeFastSdivInfo 7 32 = ⟨-1840700269, 2⟩ := by decide

example : utilComputeFastSdivInfo (-7) 32 = ⟨1840700269, 2⟩ := by decide

/-! ## The signed search -/

theorem sdivDouble_eq {d N : Nat} (hd : 0 < d) (hd' : d ≤ 2 ^ 63) (hN : N / d < 2 ^ 63) :
    sdivDouble d (N / d) (N % d) = (2 * N / d, 2 * N % d) := by
  have hlt : N % d < d := Nat.mod_lt N hd
  simp only [sdivDouble]
  rw [Nat.mod_eq_of_lt (by omega : N % d * 2 < 2 ^ 64),
    Nat.mod_eq_of_lt (by omega : N / d * 2 < 2 ^ 64)]
  split
  next hwrap =>
    obtain ⟨hquot, hrem⟩ := two_mul_div_of_le (n := N) hd (by omega)
    rw [hquot, hrem, Nat.mod_eq_of_lt (by omega), Nat.mul_comm, Nat.mul_comm (N % d)]
  next hwrap =>
    obtain ⟨hquot, hrem⟩ := two_mul_div_of_lt (n := N) (d := d) (by omega)
    rw [hquot, hrem, Nat.mul_comm, Nat.mul_comm (N % d)]

/-- The loop goes on while the power of two is too small. -/
theorem goes_on_iff {c P delta : Nat} (hc : 0 < c) :
    (P / c < delta ∨ P / c = delta ∧ P % c = 0) ↔ P ≤ c * delta := by
  have hdiv := Nat.div_add_mod P c
  have hlt : P % c < c := Nat.mod_lt P hc
  constructor
  · rintro (hless | ⟨rfl, hzero⟩)
    · have hle : c * (P / c + 1) ≤ c * delta := Nat.mul_le_mul_left c hless
      rw [Nat.mul_succ] at hle
      omega
    · omega
  · intro hle
    rcases Nat.lt_trichotomy (P / c) delta with hless | heq | hmore
    · exact .inl hless
    · rw [← heq] at hle
      exact .inr ⟨heq, by omega⟩
    · have hge : c * (delta + 1) ≤ c * (P / c) := Nat.mul_le_mul_left c hmore
      rw [Nat.mul_succ] at hge
      omega

section SignedSearch

variable {w c d : Nat}

/-- The power of two is large enough for the test dividend `c`. -/
def LargeEnough (c d p : Nat) : Prop := c * (d - 2 ^ p % d) < 2 ^ p

theorem quotient_lt_of_not_largeEnough {p : Nat} (hd : 0 < d) (hrem : 0 < 2 ^ p % d)
    (hc : 0 < c) (h : ¬ LargeEnough c d p) : 2 ^ p / d < c ∧ 2 ^ p / c < d := by
  have hle : 2 ^ p ≤ c * (d - 2 ^ p % d) := Nat.le_of_not_lt h
  have hlt : 2 ^ p < c * d :=
    hle.trans_lt (Nat.mul_lt_mul_of_pos_left (Nat.sub_lt hd hrem) hc)
  exact ⟨(Nat.div_lt_iff_lt_mul hd).mpr hlt,
    (Nat.div_lt_iff_lt_mul hc).mpr (Nat.mul_comm c d ▸ hlt)⟩

theorem sdivSearch_spec (hd : 0 < d) (hd' : d ≤ 2 ^ 63) (hc : 0 < c) (hc' : c ≤ 2 ^ 63)
    (hrem : ∀ p, 0 < 2 ^ p % d) {fuel p top : Nat} (htop : LargeEnough c d top) (hp : p < top)
    (hfuel : top ≤ p + fuel) (hone : 2 ^ p / c < 2 ^ 63) (htwo : 2 ^ p / d < 2 ^ 63) :
    ∃ p', sdivSearch d c fuel p (2 ^ p / c) (2 ^ p % c) (2 ^ p / d) (2 ^ p % d) =
        (p', 2 ^ p' / d) ∧ p < p' ∧ p' ≤ top ∧ LargeEnough c d p' ∧
      ∀ f, p < f → f < p' → ¬ LargeEnough c d f := by
  induction fuel generalizing p with
  | zero => omega
  | succ fuel ih =>
    rw [sdivSearch, sdivDouble_eq hc hc' hone, sdivDouble_eq hd hd' htwo, ← pow_succ']
    simp only [goes_on_iff hc]
    split
    next hgoes =>
      have hnot : ¬ LargeEnough c d (p + 1) := Nat.not_lt.mpr hgoes
      have hne : p + 1 ≠ top := fun heq => hnot (heq ▸ htop)
      obtain ⟨hq2, hq1⟩ := quotient_lt_of_not_largeEnough hd (hrem (p + 1)) hc hnot
      obtain ⟨p', hsearch, hlt, hle, hreach, hbefore⟩ :=
        ih (p := p + 1) (by omega) (by omega) (by omega) (by omega)
      refine ⟨p', hsearch, by omega, hle, hreach, fun f hf hf' => ?_⟩
      rcases Nat.lt_or_ge (p + 1) f with hmore | hless
      · exact hbefore f hmore hf'
      · obtain rfl : f = p + 1 := by omega
        exact hnot
    next hends =>
      exact ⟨p + 1, rfl, Nat.lt_succ_self p, hp, Nat.lt_of_not_le hends, fun f hf hf' => by omega⟩

theorem largeEnough_top (hw : 0 < w) (hc : c ≤ 2 ^ (w - 1)) (hd : d ≤ 2 ^ (w - 1)) :
    LargeEnough c d (2 * w - 1) := by
  calc c * (d - 2 ^ (2 * w - 1) % d) ≤ 2 ^ (w - 1) * 2 ^ (w - 1) :=
        Nat.mul_le_mul hc ((Nat.sub_le _ _).trans hd)
    _ = 2 ^ (2 * w - 2) := by rw [← pow_add, show w - 1 + (w - 1) = 2 * w - 2 by omega]
    _ < 2 ^ (2 * w - 1) := Nat.pow_lt_pow_right (by decide) (by omega)

/-- The multiplier of the first exponent that is large enough fits the word. -/
theorem multiplier_lt {p : Nat} (hd : 3 ≤ d) (hcd : d ≤ c + 1) (hw : 2 ≤ w)
    (hc : c ≤ 2 ^ (w - 1)) (hrem : ∀ p, 0 < 2 ^ p % d) (hp : w ≤ p)
    (hbefore : ∀ f, w - 1 < f → f < p → ¬ LargeEnough c d f) : 2 ^ p / d + 1 < 2 ^ w := by
  have hmul : 2 ^ p / d * d ≤ 2 ^ p := Nat.div_mul_le_self _ d
  rcases Nat.eq_or_lt_of_le hp with rfl | hlt
  · have hthree : 2 ^ w / d * 3 ≤ 2 ^ w := (Nat.mul_le_mul_left _ hd).trans hmul
    have hfour : 2 ^ 2 ≤ 2 ^ w := Nat.pow_le_pow_right (by decide) hw
    omega
  · have hnot : 2 ^ (p - 1) ≤ c * (d - 2 ^ (p - 1) % d) :=
      Nat.le_of_not_lt (hbefore (p - 1) (by omega) (by omega))
    have hless : c * (d - 2 ^ (p - 1) % d) ≤ c * (d - 1) :=
      Nat.mul_le_mul_left c (by have := hrem (p - 1); omega)
    have hpow : 2 ^ p = 2 * 2 ^ (p - 1) := by
      rw [← pow_succ', Nat.sub_add_cancel (by omega)]
    have hdouble : 2 ^ w = 2 * 2 ^ (w - 1) := by
      rw [← pow_succ', Nat.sub_add_cancel (by omega)]
    refine Nat.lt_of_lt_of_le (m := 2 * c) (Nat.lt_of_mul_lt_mul_right (a := d) ?_) (by omega)
    calc (2 ^ p / d + 1) * d = 2 ^ p / d * d + d := Nat.succ_mul ..
      _ ≤ 2 * (c * (d - 1)) + d := by omega
      _ < 2 * (c * (d - 1)) + 2 * c := by omega
      _ = 2 * c * (d - 1 + 1) := by ring
      _ = 2 * c * d := by rw [Nat.sub_add_cancel (by omega)]

theorem multiplier_mul {p : Nat} (hd : 0 < d) :
    (2 ^ p / d + 1) * d = 2 ^ p + (d - 2 ^ p % d) := by
  have hdiv := Nat.div_add_mod (2 ^ p) d
  have hlt : 2 ^ p % d < d := Nat.mod_lt _ hd
  rw [Nat.succ_mul, Nat.mul_comm]
  omega

/-- The multiplier is never the sign bit alone, whose negation overflows. -/
theorem multiplier_ne {p : Nat} (hd0 : 0 < d) (hd : d < 2 ^ (w - 1)) (hrem : 0 < 2 ^ p % d)
    (hp : w ≤ p) : 2 ^ p / d + 1 ≠ 2 ^ (w - 1) := by
  intro heq
  have hlt : 2 ^ p % d < d := Nat.mod_lt _ hd0
  have hmul := multiplier_mul (p := p) hd0
  rw [heq, Nat.mul_comm] at hmul
  have hdvd : 2 ^ (w - 1) ∣ d - 2 ^ p % d := by
    refine (Nat.dvd_add_right (pow_dvd_pow 2 (by omega : w - 1 ≤ p))).mp ?_
    rw [← hmul]
    exact Nat.dvd_mul_left _ _
  have hle := Nat.le_of_dvd (by omega) hdvd
  omega

end SignedSearch

/-! ## The signed constants -/

section SignedExact

variable {w : Nat} {D : Int}

/-- The largest dividend and its place below the range. -/
structure TestNumer (c d tmp : Nat) : Prop where
  dvd : d ∣ c + 1
  le : d ≤ c + 1
  eq : c + 1 + tmp % d = tmp

theorem testNumer {d tmp : Nat} (hd : 0 < d) (h : d ≤ tmp) :
    TestNumer (tmp - 1 - tmp % d) d tmp := by
  have hdiv := Nat.div_add_mod tmp d
  have hlt : tmp % d < d := Nat.mod_lt _ hd
  have hpos : d * 1 ≤ d * (tmp / d) := Nat.mul_le_mul_left d (Nat.div_pos h hd)
  have heq : tmp - 1 - tmp % d + 1 = d * (tmp / d) := by omega
  exact ⟨⟨_, heq⟩, by omega, by omega⟩

variable {c d tmp m p a : Nat}

theorem TestNumer.error_lt (h : TestNumer c d tmp) (hp : LargeEnough c d p) (hd : 0 < d)
    (ha : a < tmp) : a % d * 2 ^ p + a * (d - 2 ^ p % d) < d * 2 ^ p := by
  have hlt : tmp % d < d := Nat.mod_lt _ hd
  have heq := h.eq
  exact error_lt_of_largest h.dvd h.le hp (by omega)

theorem TestNumer.error_le (h : TestNumer c d (2 ^ (w - 1))) (hp : LargeEnough c d p)
    (hd : 0 < d) (hwp : w ≤ p) :
    2 ^ (w - 1) % d * 2 ^ p + 2 ^ (w - 1) * (d - 2 ^ p % d) ≤ d * 2 ^ p := by
  have hlt : 2 ^ (w - 1) % d < d := Nat.mod_lt _ hd
  have heq := h.eq
  rcases Nat.lt_or_ge (2 ^ (w - 1)) (c + d) with hless | hmore
  · exact (error_lt_of_largest h.dvd h.le hp hless).le
  · -- the divisor divides `2 ^ (w - 1) + 1`, and the error at most doubles with the exponent
    have hlast : 2 ^ (w - 1) % d + 1 = d := by omega
    have hpow : 2 ^ p = 2 ^ (w - 1) * 2 ^ (p - (w - 1)) := by
      rw [← pow_add, Nat.add_sub_cancel' (by omega)]
    have hdvd : d ∣ 2 ^ p % d + 2 ^ (p - (w - 1)) := by
      have hone : d ∣ 2 ^ (w - 1) + 1 := by
        have hmul := Nat.div_add_mod (2 ^ (w - 1)) d
        exact ⟨2 ^ (w - 1) / d + 1, by rw [Nat.mul_succ]; omega⟩
      have hsum : d ∣ 2 ^ p + 2 ^ (p - (w - 1)) := by
        rw [hpow, ← Nat.succ_mul]
        exact hone.mul_right _
      rw [← Nat.div_add_mod (2 ^ p) d, Nat.add_assoc] at hsum
      exact (Nat.dvd_add_right (Nat.dvd_mul_right _ _)).mp hsum
    have hdelta : d - 2 ^ p % d ≤ 2 ^ (p - (w - 1)) := by
      have hpos := Nat.two_pow_pos (p - (w - 1))
      have hle := Nat.le_of_dvd (by omega) hdvd
      omega
    calc 2 ^ (w - 1) % d * 2 ^ p + 2 ^ (w - 1) * (d - 2 ^ p % d)
        ≤ 2 ^ (w - 1) % d * 2 ^ p + 2 ^ (w - 1) * 2 ^ (p - (w - 1)) :=
          Nat.add_le_add_left (Nat.mul_le_mul_left _ hdelta) _
      _ = (2 ^ (w - 1) % d + 1) * 2 ^ p := by rw [← hpow, Nat.succ_mul]
      _ = d * 2 ^ p := by rw [hlast]

/-- The search has ended with the exponent `p`; `tmp` is the end of the range of dividends. -/
structure Found (c d tmp w p : Nat) : Prop where
  test : TestNumer c d tmp
  pos : 0 < d
  largeEnough : LargeEnough c d p
  le : w ≤ p
  rem : 0 < 2 ^ p % d

theorem Found.mul_ediv (h : Found c d tmp w p) (ha : a < tmp) :
    a * (2 ^ p / d + 1) / 2 ^ p = a / d :=
  Nat.div_eq_of_lt_le (le_mul_of_roundUp h.pos (multiplier_mul h.pos))
    (mul_lt_of_roundUp (multiplier_mul h.pos) (h.test.error_lt h.largeEnough h.pos ha))

theorem Found.neg_mul_ediv (h : Found c d tmp w p) (ha : 0 < a)
    (ha' : a < tmp ∨ a = tmp ∧ tmp = 2 ^ (w - 1)) :
    -((a * (2 ^ p / d + 1) : Nat) : Int) / (2 ^ p : Nat) = -((a / d : Nat) : Int) - 1 := by
  have hlt : 2 ^ p % d < d := Nat.mod_lt _ h.pos
  refine neg_ediv_eq (Nat.two_pow_pos p)
    (lt_mul_of_roundUp (multiplier_mul h.pos) (by omega) ha) ?_
  rcases ha' with hless | ⟨rfl, hrange⟩
  · exact (mul_lt_of_roundUp (multiplier_mul h.pos)
      (h.test.error_lt h.largeEnough h.pos hless)).le
  · refine mul_le_of_roundUp h.pos (multiplier_mul h.pos) ?_
    have htest := h.test
    rw [hrange] at htest ⊢
    exact htest.error_le h.largeEnough h.pos h.le

/-- A floor, moved up when it is negative. -/
def towardZero (x P : Int) : Int := x / P + if x / P < 0 then 1 else 0

theorem Found.towardZero_mul (h : Found c d tmp w p) (ha : a < tmp) :
    towardZero ((a : Int) * ((2 ^ p / d + 1 : Nat) : Int)) (2 ^ p : Nat) =
      ((a / d : Nat) : Int) := by
  have hdiv : (a : Int) * ((2 ^ p / d + 1 : Nat) : Int) / (2 ^ p : Nat) =
      ((a / d : Nat) : Int) := by
    rw [← h.mul_ediv ha]
    norm_cast
  rw [towardZero, hdiv, if_neg (Int.not_lt.mpr (Int.natCast_nonneg _)), Int.add_zero]

theorem Found.towardZero_neg_mul (h : Found c d tmp w p)
    (ha : a < tmp ∨ a = tmp ∧ tmp = 2 ^ (w - 1)) :
    towardZero (-((a : Int) * ((2 ^ p / d + 1 : Nat) : Int))) (2 ^ p : Nat) =
      -((a / d : Nat) : Int) := by
  rcases Nat.eq_zero_or_pos a with rfl | hpos
  · simp [towardZero]
  · have hdiv := h.neg_mul_ediv hpos ha
    have hquot := Int.natCast_nonneg (a / d)
    rw [Int.natCast_mul] at hdiv
    rw [towardZero, hdiv, if_pos (by omega)]
    omega

/-- The floor of the product, corrected by its sign, is the truncated quotient. -/
theorem Found.tdiv {n : Int} (h : Found c D.natAbs tmp w p)
    (htmp : tmp = 2 ^ (w - 1) + if D < 0 then 1 else 0) (hn : -2 ^ (w - 1) ≤ n)
    (hn' : n < 2 ^ (w - 1)) :
    towardZero (n * (D.sign * ((2 ^ p / D.natAbs + 1 : Nat) : Int))) (2 ^ p : Nat) = n.tdiv D := by
  have hrange : ((2 ^ (w - 1) : Nat) : Int) = 2 ^ (w - 1) := by norm_cast
  have hd := h.pos
  rcases lt_or_ge D 0 with hneg | hpos
  · rw [if_pos hneg] at htmp
    have hD : D = -(D.natAbs : Int) := by omega
    rw [Int.sign_eq_neg_one_of_neg hneg]
    generalize D.natAbs = d at h hD hd
    subst hD
    rcases Int.le_total 0 n with hge | hle
    · obtain ⟨a, rfl⟩ := Int.eq_ofNat_of_zero_le hge
      rw [Int.neg_one_mul, Int.mul_neg, Int.tdiv_neg, ← Int.ofNat_tdiv]
      exact h.towardZero_neg_mul (.inl (by omega))
    · obtain ⟨a, rfl⟩ := Int.exists_eq_neg_ofNat hle
      rw [Int.neg_one_mul, Int.neg_mul_neg, Int.tdiv_neg, Int.neg_tdiv, Int.neg_neg,
        ← Int.ofNat_tdiv]
      exact h.towardZero_mul (by omega)
  · rw [if_neg (Int.not_lt.mpr hpos), Nat.add_zero] at htmp
    have hD : D = (D.natAbs : Int) := by omega
    rw [Int.sign_eq_one_of_pos (by omega), Int.one_mul]
    generalize D.natAbs = d at h hD hd
    subst hD
    rcases Int.le_total 0 n with hge | hle
    · obtain ⟨a, rfl⟩ := Int.eq_ofNat_of_zero_le hge
      rw [← Int.ofNat_tdiv]
      exact h.towardZero_mul (by omega)
    · obtain ⟨a, rfl⟩ := Int.exists_eq_neg_ofNat hle
      rw [Int.neg_mul, Int.neg_tdiv, ← Int.ofNat_tdiv]
      exact h.towardZero_neg_mul (by omega)

def signed (w m : Nat) : Int := if m < 2 ^ (w - 1) then m else m - 2 ^ w

theorem utilSignExtend_eq {val : Nat} (hw : 0 < w) (hw' : w ≤ 64) (hval : val < 2 ^ w) :
    utilSignExtend val w = signed w val := by
  have hpow : 2 ^ 64 = 2 ^ w * 2 ^ (64 - w) := by
    rw [← pow_add, Nat.add_sub_cancel' hw']
  have hhalf : 2 ^ w = 2 * 2 ^ (w - 1) := by
    rw [← pow_succ', Nat.sub_add_cancel hw]
  have hshift : 0 < 2 ^ (64 - w) := Nat.two_pow_pos _
  have hword : 2 ^ w ≤ 2 ^ 64 := Nat.pow_le_pow_right (by decide) hw'
  have hlt : val * 2 ^ (64 - w) < 2 ^ 64 := by
    rw [hpow]
    exact Nat.mul_lt_mul_of_pos_right hval hshift
  have hnat : (BitVec.ofNat 64 val <<< (64 - w)).toNat = val * 2 ^ (64 - w) := by
    rw [BitVec.toNat_shiftLeft, BitVec.toNat_ofNat, Nat.mod_eq_of_lt (hval.trans_le hword),
      Nat.shiftLeft_eq, Nat.mod_eq_of_lt hlt]
  have hshift' : ((2 ^ (64 - w) : Nat) : Int) ≠ 0 := by exact_mod_cast hshift.ne'
  rw [utilSignExtend, BitVec.toInt_sshiftRight, BitVec.toInt_eq_toNat_cond, hnat,
    Int.shiftRight_eq_div_pow, signed]
  have hiff : 2 * (val * 2 ^ (64 - w)) < 2 ^ 64 ↔ val < 2 ^ (w - 1) := by
    rw [hpow, hhalf, Nat.mul_assoc, Nat.mul_lt_mul_left (by decide), Nat.mul_lt_mul_right hshift]
  simp only [hiff]
  split
  next => rw [Int.natCast_mul, Int.mul_ediv_cancel _ hshift']
  next =>
    rw [hpow, Int.natCast_mul, Int.natCast_mul, ← Int.sub_mul, Int.mul_ediv_cancel _ hshift']
    norm_cast

/-- The constants divide by `D`: with the multiplier read as an unsigned word `m`, the product is
shifted by the word and the shift, and rounded toward zero. -/
structure SdivExact (info : FastSdivInfo) (D : Int) (w m : Nat) : Prop where
  shift_lt : info.shift < w
  lt : m < 2 ^ w
  ne : m ≠ 2 ^ (w - 1)
  multiplier : info.multiplier = D.sign * signed w m
  exact : ∀ n : Int, -2 ^ (w - 1) ≤ n → n < 2 ^ (w - 1) →
    towardZero (n * (D.sign * m)) (2 ^ (w + info.shift) : Nat) = n.tdiv D

theorem utilComputeFastSdivInfo_exact (hw : 2 ≤ w) (hw' : w ≤ 64) (hD : 0 < D.natAbs)
    (hD' : D.natAbs < 2 ^ (w - 1)) (hpot : utilIsPowerOfTwoOrZero64 D.natAbs ≠ true) :
    ∃ m, SdivExact (utilComputeFastSdivInfo D w) D w m := by
  have hthree : 3 ≤ D.natAbs := by
    have hone : D.natAbs ≠ 1 := fun h => hpot (by rw [h]; rfl)
    have htwo : D.natAbs ≠ 2 := fun h => hpot (by rw [h]; rfl)
    omega
  have hrem := two_pow_mod_pos hD hpot
  have hhalf : 2 ^ w = 2 * 2 ^ (w - 1) := by
    rw [← pow_succ', Nat.sub_add_cancel (by omega)]
  have hword : 2 ^ (w - 1) ≤ 2 ^ 63 := Nat.pow_le_pow_right (by decide) (by omega)
  obtain ⟨tmp, htmp⟩ : ∃ tmp, tmp = 2 ^ (w - 1) + if D < 0 then 1 else 0 := ⟨_, rfl⟩
  have hrange : 2 ^ (w - 1) ≤ tmp ∧ tmp ≤ 2 ^ (w - 1) + 1 := by
    rw [htmp]
    split <;> omega
  have htest : TestNumer (absTestNumer D w) D.natAbs tmp := by
    rw [absTestNumer, ← htmp]
    exact testNumer hD (by omega)
  simp only [utilComputeFastSdivInfo]
  generalize absTestNumer D w = c at htest
  have hle := htest.le
  have heq := htest.eq
  have hquot : ∀ d ≥ 2, 2 ^ (w - 1) / d < 2 ^ 63 := fun d hd => by
    have hle : 2 ^ (w - 1) / d ≤ 2 ^ (w - 1) / 2 := Nat.div_le_div_left hd (by decide)
    omega
  obtain ⟨p, hsearch, hlt, htop, hreach, hbefore⟩ :=
    sdivSearch_spec hD (by omega) (by omega : 0 < c) (by omega) hrem
      (largeEnough_top (by omega) (by omega) hD'.le) (by omega : w - 1 < 2 * w - 1)
      (by omega : 2 * w - 1 ≤ w - 1 + 64) (hquot c (by omega)) (hquot D.natAbs (by omega))
  have hwp : w ≤ p := by omega
  have hfound : Found c D.natAbs tmp w p := ⟨htest, hD, hreach, hwp, hrem p⟩
  have hmlt := multiplier_lt hthree hle hw (by omega) hrem hwp hbefore
  refine ⟨2 ^ p / D.natAbs + 1, ?_, hmlt, multiplier_ne hD hD' (hrem p) hwp, ?_,
    fun n hn hn' => ?_⟩
  · rw [hsearch]
    show p - w < w
    omega
  · rw [hsearch, Nat.mod_eq_of_lt (by omega), utilSignExtend_eq (by omega) hw' hmlt]
    rcases lt_or_ge D 0 with hneg | hpos
    · rw [Int.sign_eq_neg_one_of_neg hneg, Int.neg_one_mul]
      exact if_pos hneg
    · rw [Int.sign_eq_one_of_pos (by omega), Int.one_mul]
      exact if_neg (Int.not_lt.mpr hpos)
  · rw [hsearch]
    show towardZero _ (2 ^ (w + (p - w)) : Nat) = _
    rw [Nat.add_sub_cancel' hwp]
    exact hfound.tdiv htmp hn hn'

end SignedExact

end Psbc.Util
