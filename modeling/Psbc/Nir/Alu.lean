import Mathlib.Data.Int.Bitwise
import Psbc.Util.BigMath
import Psbc.Util.FastUdiv

/-!
# Integer operations of NIR

The operations that the passes over integer divisions read and build, with the meaning that
`nir_opcodes.py` gives them, and the functions of `nir_builder.h` that build them with an
immediate operand. A scalar is an expression over the channels of other values; booleans are
values of one bit.
-/

namespace Psbc.Nir

open Util

/-- The bit sizes of integers other than booleans. -/
inductive BitSize : Nat → Prop where
  | int8 : BitSize 8
  | int16 : BitSize 16
  | int32 : BitSize 32
  | int64 : BitSize 64

def uUintNMax (bitSize : Nat) : Nat := (2 ^ 64 - 1) / 2 ^ (64 - bitSize)

def uIntNMax (bitSize : Nat) : Int := (2 ^ 63 - 1) / 2 ^ (64 - bitSize)

def uIntNMin (bitSize : Nat) : Int := -uIntNMax bitSize - 1

/-! ## Operations -/

inductive UnOp where
  | ineg
  | inot
  | iabs
  deriving DecidableEq, Repr

inductive BinOp where
  | iadd
  | isub
  | imul
  | uaddSat
  | umulHigh
  | imulHigh
  | iand
  | ior
  | udiv
  | idiv
  | umod
  | irem
  | imod
  deriving DecidableEq, Repr

inductive CompareOp where
  | ieq
  | ilt
  | ige
  | ult
  | uge
  deriving DecidableEq, Repr

inductive ShiftOp where
  | ishl
  | ishr
  | ushr
  deriving DecidableEq, Repr

section Meaning

variable {w : Nat}

/-- The third and fourth limb. -/
def highLimbs (prod : List Nat) : Nat := prod.getD 2 0 ||| (prod.getD 3 0 <<< 32)

def umulHigh (x y : BitVec w) : BitVec w :=
  if w = 64 then
    let limbsOf := fun z : BitVec w => [z.toNat % 2 ^ 32, z.toNat / 2 ^ 32 % 2 ^ 32]
    BitVec.ofNat w (highLimbs (ubmMulU32arr 4 (limbsOf x) (limbsOf y)).1)
  else BitVec.ofNat w (x.toNat * y.toNat % 2 ^ 64 / 2 ^ w)

def signedLimbs (x : Int) : List Nat :=
  [(x % 2 ^ 32).toNat, (x / 2 ^ 32 % 2 ^ 32).toNat, (x / 2 ^ 63 % 2 ^ 32).toNat,
    (x / 2 ^ 63 % 2 ^ 32).toNat]

def imulHigh (x y : BitVec w) : BitVec w :=
  if w = 64 then
    BitVec.ofNat w (highLimbs (ubmMulU32arr 4 (signedLimbs x.toInt) (signedLimbs y.toInt)).1)
  else
    BitVec.ofNat w ((x.toInt % 2 ^ 64).toNat * (y.toInt % 2 ^ 64).toNat % 2 ^ 64 / 2 ^ w)

def UnOp.eval (op : UnOp) (x : BitVec w) : BitVec w :=
  match op with
  | ineg => if x.toInt = uIntNMin w then x else -x
  | inot => ~~~x
  | iabs => if x.toInt < 0 then -x else x

/-- `src1 == 0 || (src0 == u_intN_min(bit_size) && src1 == -1)` -/
def undefinedQuotient (x y : BitVec w) : Prop :=
  y = 0 ∨ x.toInt = uIntNMin w ∧ y.toInt = -1

instance (x y : BitVec w) : Decidable (undefinedQuotient x y) :=
  inferInstanceAs (Decidable (y = 0 ∨ x.toInt = uIntNMin w ∧ y.toInt = -1))

def BinOp.eval (op : BinOp) (x y : BitVec w) : BitVec w :=
  match op with
  | iadd => x + y
  | isub => x - y
  | imul => x * y
  | uaddSat => if 2 ^ w ≤ x.toNat + y.toNat then BitVec.ofNat w (uUintNMax w) else x + y
  | umulHigh => Nir.umulHigh x y
  | imulHigh => Nir.imulHigh x y
  | iand => x &&& y
  | ior => x ||| y
  | udiv => if y = 0 then 0 else BitVec.ofNat w (x.toNat / y.toNat)
  | umod => if y = 0 then 0 else BitVec.ofNat w (x.toNat % y.toNat)
  | idiv => if undefinedQuotient x y then 0 else BitVec.ofInt w (x.toInt.tdiv y.toInt)
  | irem => if undefinedQuotient x y then 0 else BitVec.ofInt w (x.toInt.tmod y.toInt)
  | imod =>
    if undefinedQuotient x y then 0
    else if x.toInt.tmod y.toInt = 0 ∨ (0 ≤ x.toInt ↔ 0 ≤ y.toInt) then
      BitVec.ofInt w (x.toInt.tmod y.toInt)
    else BitVec.ofInt w (x.toInt.tmod y.toInt + y.toInt)

def CompareOp.eval (op : CompareOp) (x y : BitVec w) : BitVec 1 :=
  BitVec.ofBool <|
    match op with
    | ieq => x == y
    | ilt => decide (x.toInt < y.toInt)
    | ige => decide (y.toInt ≤ x.toInt)
    | ult => decide (x.toNat < y.toNat)
    | uge => decide (y.toNat ≤ x.toNat)

def ShiftOp.eval (op : ShiftOp) (x : BitVec w) (amount : BitVec 32) : BitVec w :=
  let amount := amount.toNat &&& (w - 1)
  match op with
  | ishl => x <<< amount
  | ishr => x.sshiftRight amount
  | ushr => x >>> amount

end Meaning

/-! ## Scalars -/

/-- An expression over the channels of other values. -/
inductive Scalar : Nat → Type where
  | chan {w : Nat} (ssa comp : Nat) : Scalar w
  | imm {w : Nat} (x : BitVec w) : Scalar w
  | un {w : Nat} (op : UnOp) (a : Scalar w) : Scalar w
  | bin {w : Nat} (op : BinOp) (a b : Scalar w) : Scalar w
  | shift {w : Nat} (op : ShiftOp) (a : Scalar w) (amount : Scalar 32) : Scalar w
  | compare {w : Nat} (op : CompareOp) (a b : Scalar w) : Scalar 1
  | bcsel {w : Nat} (c : Scalar 1) (a b : Scalar w) : Scalar w
  | b2i {w : Nat} (c : Scalar 1) : Scalar w

/-- The components of every value, in 64 bits as `nir_const_value` has them. -/
abbrev Values := Nat → Nat → BitVec 64

def Scalar.eval (values : Values) {w : Nat} : Scalar w → BitVec w
  | chan ssa comp => (values ssa comp).setWidth w
  | imm x => x
  | un op a => op.eval (a.eval values)
  | bin op a b => op.eval (a.eval values) (b.eval values)
  | shift op a amount => op.eval (a.eval values) (amount.eval values)
  | compare op a b => op.eval (a.eval values) (b.eval values)
  | bcsel c a b => if c.eval values = 1#1 then a.eval values else b.eval values
  | b2i c => (c.eval values).setWidth w

/-! ## Immediate operands

A 64-bit immediate is given as an integer; every function below takes it modulo the word. -/

section Builder

variable {w : Nat}

def nirImmIntN (x : Int) : Scalar w := .imm (BitVec.ofInt w x)

def nirIaddImm (x : Scalar w) (y : Int) : Scalar w :=
  let y := y % 2 ^ w
  if y = 0 then x else .bin .iadd x (nirImmIntN y)

def ffsll (y : Nat) : Nat := (shiftOut 64 y).2 + 1

/-- `lowerBitops` is the option of the shader. -/
def nirImulImm (lowerBitops : Bool) (x : Scalar w) (y : Int) : Scalar w :=
  let y := (y % 2 ^ w).toNat
  if y = 0 then .imm 0
  else if y = 1 then x
  else if !lowerBitops && utilIsPowerOfTwoOrZero64 y then
    .shift .ishl x (.imm (BitVec.ofNat 32 (ffsll y - 1)))
  else .bin .imul x (nirImmIntN y)

def nirIandImm (x : Scalar w) (y : Int) : Scalar w :=
  let y := y % 2 ^ w
  if y = 0 then .imm 0
  else if y = 2 ^ w - 1 then x
  else .bin .iand x (nirImmIntN y)

def nirIshrImm (x : Scalar w) (y : Nat) : Scalar w :=
  if y = 0 then x else .shift .ishr x (.imm (BitVec.ofNat 32 y))

def nirUshrImm (x : Scalar w) (y : Nat) : Scalar w :=
  if y = 0 then x else .shift .ushr x (.imm (BitVec.ofNat 32 y))

/-- `nir_ieq_imm`, `nir_ilt_imm` and `nir_uge_imm`. -/
def nirCompareImm (op : CompareOp) (x : Scalar w) (y : Int) : Scalar 1 :=
  .compare op x (nirImmIntN y)

end Builder

/-! ## Facts of the bit sizes -/

namespace BitSize

variable {w : Nat}

theorem le (h : BitSize w) : w ≤ 64 := by
  cases h <;> decide

theorem three_le (h : BitSize w) : 3 ≤ w := by
  cases h <;> decide

theorem uUintNMax_eq (h : BitSize w) : uUintNMax w = 2 ^ w - 1 := by
  cases h <;> decide

theorem uIntNMin_eq (h : BitSize w) : uIntNMin w = -2 ^ (w - 1) := by
  cases h <;> decide

/-- A shift by less than the bit size is not masked. -/
theorem amount_eq (h : BitSize w) {y : Nat} (hy : y < w) :
    (BitVec.ofNat 32 y).toNat &&& (w - 1) = y := by
  have hle := h.le
  have hsmall : (BitVec.ofNat 32 y).toNat = y := by
    rw [BitVec.toNat_ofNat, Nat.mod_eq_of_lt (by omega)]
  obtain ⟨k, rfl⟩ : ∃ k, w = 2 ^ k := by
    cases h
    exacts [⟨3, rfl⟩, ⟨4, rfl⟩, ⟨5, rfl⟩, ⟨6, rfl⟩]
  rw [hsmall, Nat.and_two_pow_sub_one_eq_mod, Nat.mod_eq_of_lt hy]

theorem two_pow_eq (h : BitSize w) : 2 ^ w = 2 * 2 ^ (w - 1) := by
  have hw := h.three_le
  rw [← pow_succ', Nat.sub_add_cancel (by omega)]

theorem eq_or_le (h : BitSize w) : w = 64 ∨ w ≤ 32 := by
  cases h <;> decide

end BitSize

/-! ## High halves of products -/

section High

variable {w : Nat}

theorem highLimbs_eq {prod : List Nat} (hlength : prod.length = 4)
    (hlt : ∀ x ∈ prod, x < 2 ^ 32) : highLimbs prod = limbs prod / 2 ^ 64 := by
  match prod, hlength with
  | [p0, p1, p2, p3], _ =>
    have h0 : p0 < 2 ^ 32 := hlt p0 (by simp)
    have h1 : p1 < 2 ^ 32 := hlt p1 (by simp)
    have h2 : p2 < 2 ^ 32 := hlt p2 (by simp)
    have hor := Nat.two_pow_add_eq_or_of_lt h2 p3
    have hhigh : highLimbs [p0, p1, p2, p3] = 2 ^ 32 * p3 + p2 := by
      rw [hor, Nat.lor_comm, highLimbs, Nat.shiftLeft_eq, Nat.mul_comm (2 ^ 32)]
      rfl
    rw [hhigh]
    simp only [limbs_cons, show limbs [] = 0 from rfl]
    omega

theorem highLimbs_mul {a b : List Nat} (ha : ∀ x ∈ a, x < 2 ^ 32) (hb : ∀ x ∈ b, x < 2 ^ 32) :
    highLimbs (ubmMulU32arr 4 a b).1 = limbs a * limbs b % 2 ^ 128 / 2 ^ 64 := by
  obtain ⟨hdst, _⟩ := ubmMulU32arr_stored 4 ha hb
  rw [highLimbs_eq hdst.length hdst.limb_lt, limbs_ubmMulU32arr 4 ha hb]
  rfl

theorem umulHigh_eq (h : BitSize w) (x y : BitVec w) :
    umulHigh x y = BitVec.ofNat w (x.toNat * y.toNat / 2 ^ w) := by
  have hx := x.isLt
  have hy := y.isLt
  have hprod : x.toNat * y.toNat < 2 ^ w * 2 ^ w := Nat.mul_lt_mul'' hx hy
  rw [umulHigh]
  rcases h.eq_or_le with rfl | hle
  · have hlimbs : ∀ z : BitVec 64, limbs [z.toNat % 2 ^ 32, z.toNat / 2 ^ 32 % 2 ^ 32] = z.toNat :=
      fun z => by
        have hz := z.isLt
        simp only [limbs_cons, show limbs [] = 0 from rfl]
        omega
    have hlt : ∀ z : BitVec 64, ∀ l ∈ [z.toNat % 2 ^ 32, z.toNat / 2 ^ 32 % 2 ^ 32], l < 2 ^ 32 :=
      fun z l hl => by
        simp only [List.mem_cons, List.not_mem_nil, or_false] at hl
        omega
    rw [if_pos rfl]
    simp only [highLimbs_mul (hlt x) (hlt y), hlimbs]
    rw [Nat.mod_eq_of_lt (by omega)]
  · have hpow : 2 ^ w * 2 ^ w ≤ 2 ^ 64 := by
      rw [← pow_add]
      exact Nat.pow_le_pow_right (by decide) (by omega)
    rw [if_neg (by omega), Nat.mod_eq_of_lt (by omega)]

theorem toNat_mul_emod {a b : Int} (k : Nat) :
    (a % 2 ^ k).toNat * (b % 2 ^ k).toNat % 2 ^ k = (a * b % 2 ^ k).toNat := by
  have hpow : (0 : Int) < 2 ^ k := by positivity
  have ha := Int.emod_nonneg a hpow.ne'
  have hb := Int.emod_nonneg b hpow.ne'
  have hab := Int.emod_nonneg (a * b) hpow.ne'
  zify
  rw [Int.toNat_of_nonneg ha, Int.toNat_of_nonneg hb, Int.toNat_of_nonneg hab, ← Int.mul_emod]

theorem ofNat_emod_ediv {p : Int} {k : Nat} (hk : 2 * w ≤ k) :
    BitVec.ofNat w ((p % 2 ^ k).toNat / 2 ^ w) = BitVec.ofInt w (p / 2 ^ w) := by
  apply BitVec.eq_of_toNat_eq
  have hpow : (0 : Int) < 2 ^ k := by positivity
  have hword : (0 : Int) < 2 ^ w := by positivity
  have hp := Int.emod_nonneg p hpow.ne'
  have hsplit : p / 2 ^ w = p % 2 ^ k / 2 ^ w + 2 ^ w * (2 ^ (k - 2 * w) * (p / 2 ^ k)) := by
    conv => lhs; rw [← Int.emod_add_mul_ediv p (2 ^ k)]
    have hk' : (2 : Int) ^ k = 2 ^ w * (2 ^ w * 2 ^ (k - 2 * w)) := by
      rw [← pow_add, ← pow_add]
      congr 1
      omega
    rw [hk', Int.mul_assoc, Int.add_mul_ediv_left _ _ hword.ne', ← hk', Int.mul_assoc]
  rw [BitVec.toNat_ofNat, BitVec.toNat_ofInt, hsplit, Int.natCast_pow]
  have hmod : (p % 2 ^ k / 2 ^ w + 2 ^ w * (2 ^ (k - 2 * w) * (p / 2 ^ k))) %
      ((2 : Nat) : Int) ^ w = p % 2 ^ k / 2 ^ w % 2 ^ w := Int.add_mul_emod_self_left _ _ _
  rw [hmod]
  have hq : 0 ≤ p % 2 ^ k / 2 ^ w := Int.ediv_nonneg hp hword.le
  zify
  rw [Int.toNat_of_nonneg hp, Int.toNat_of_nonneg (Int.emod_nonneg _ hword.ne')]

theorem limbs_signedLimbs {x : Int} (hx : -2 ^ 63 ≤ x) (hx' : x < 2 ^ 63) :
    limbs (signedLimbs x) = (x % 2 ^ 128).toNat ∧ ∀ l ∈ signedLimbs x, l < 2 ^ 32 := by
  constructor
  · simp only [signedLimbs, limbs_cons, show limbs [] = 0 from rfl]
    rcases lt_or_ge x 0 with hneg | hpos
    · rw [show x / 2 ^ 63 = -1 by omega]
      omega
    · rw [show x / 2 ^ 63 = 0 by omega]
      omega
  · intro l hl
    simp only [signedLimbs, List.mem_cons, List.not_mem_nil, or_false] at hl
    omega

theorem imulHigh_eq (h : BitSize w) (x y : BitVec w) :
    imulHigh x y = BitVec.ofInt w (x.toInt * y.toInt / 2 ^ w) := by
  rw [imulHigh]
  rcases h.eq_or_le with rfl | hle
  · obtain ⟨hx, hxlt⟩ := limbs_signedLimbs (BitVec.le_toInt x) BitVec.toInt_lt
    obtain ⟨hy, hylt⟩ := limbs_signedLimbs (BitVec.le_toInt y) BitVec.toInt_lt
    rw [if_pos rfl, highLimbs_mul hxlt hylt, hx, hy, toNat_mul_emod]
    exact ofNat_emod_ediv (by decide)
  · rw [if_neg (by omega), toNat_mul_emod]
    exact ofNat_emod_ediv (by omega)

end High

/-! ## What the immediates mean -/

section Immediates

variable {w : Nat} (values : Values) (x : Scalar w)

@[simp] theorem eval_nirImmIntN (y : Int) :
    (nirImmIntN y : Scalar w).eval values = BitVec.ofInt w y := rfl

theorem emod_two_pow_nonneg (y : Int) : 0 ≤ y % 2 ^ w := Int.emod_nonneg y (by positivity)

theorem ofInt_emod (y : Int) : BitVec.ofInt w (y % 2 ^ w) = BitVec.ofInt w y := by
  apply BitVec.eq_of_toNat_eq
  rw [BitVec.toNat_ofInt, BitVec.toNat_ofInt, Int.natCast_pow]
  exact congrArg Int.toNat (Int.emod_emod_of_dvd y (dvd_refl _))

theorem ofInt_eq_ofNat (y : Int) : BitVec.ofInt w y = BitVec.ofNat w (y % 2 ^ w).toNat := by
  rw [← ofInt_emod, ← BitVec.ofInt_natCast, Int.toNat_of_nonneg (emod_two_pow_nonneg y)]

theorem ofInt_zero : BitVec.ofInt w 0 = 0#w := BitVec.ofInt_natCast w 0

theorem ofInt_sub (y z : Int) : BitVec.ofInt w (y - z) = BitVec.ofInt w y - BitVec.ofInt w z := by
  refine (BitVec.sub_eq_iff_eq_add.mpr ?_).symm
  rw [← BitVec.ofInt_add, Int.sub_add_cancel]

@[simp] theorem eval_nirIaddImm (y : Int) :
    (nirIaddImm x y).eval values = x.eval values + BitVec.ofInt w y := by
  simp only [nirIaddImm]
  split
  next hzero =>
    rw [ofInt_eq_ofNat, hzero]
    exact (BitVec.add_zero _).symm
  next =>
    show x.eval values + BitVec.ofInt w (y % 2 ^ w) = _
    rw [ofInt_emod]

@[simp] theorem eval_nirIandImm (y : Int) :
    (nirIandImm x y).eval values = x.eval values &&& BitVec.ofInt w y := by
  simp only [nirIandImm]
  split
  next hzero =>
    rw [ofInt_eq_ofNat, hzero]
    exact BitVec.and_zero.symm
  next =>
    split
    next hones =>
      have hall : BitVec.ofInt w y = BitVec.allOnes w := by
        apply BitVec.eq_of_toNat_eq
        have hpow := Nat.two_pow_pos w
        have hcast : ((2 ^ w : Nat) : Int) = 2 ^ w := Int.natCast_pow 2 w
        have hnat : ((2 : Int) ^ w - 1).toNat = 2 ^ w - 1 := by omega
        rw [ofInt_eq_ofNat, hones, hnat, BitVec.toNat_ofNat, BitVec.toNat_allOnes,
          Nat.mod_eq_of_lt (by omega)]
      rw [hall, BitVec.and_allOnes]
    next =>
      show x.eval values &&& BitVec.ofInt w (y % 2 ^ w) = _
      rw [ofInt_emod]

theorem ffsll_two_pow {k : Nat} (hk : k < 64) : ffsll (2 ^ k) - 1 = k := by
  obtain ⟨heq, hodd⟩ := shiftOut_spec (Nat.two_pow_pos k) (Nat.pow_lt_pow_right (by decide) hk)
  rw [ffsll, Nat.add_sub_cancel]
  obtain ⟨j, hj, hpow⟩ := (Nat.dvd_prime_pow Nat.prime_two).mp ⟨_, heq⟩
  have hone : (shiftOut 64 (2 ^ k)).1 = 1 := by
    rcases Nat.eq_zero_or_pos j with rfl | hpos
    · exact hpow
    · obtain ⟨i, rfl⟩ : ∃ i, j = i + 1 := ⟨j - 1, by omega⟩
      rw [hpow, pow_succ, Nat.mul_mod_left] at hodd
      exact absurd hodd (by decide)
  rw [hone, Nat.one_mul] at heq
  exact (Nat.pow_right_injective (Nat.le_refl 2) heq).symm

theorem shiftLeft_eq_mul (z : BitVec w) (k : Nat) : z <<< k = z * BitVec.ofNat w (2 ^ k) := by
  apply BitVec.eq_of_toNat_eq
  rw [BitVec.toNat_shiftLeft, BitVec.toNat_mul, BitVec.toNat_ofNat, Nat.shiftLeft_eq,
    Nat.mul_mod_mod]

theorem eval_nirImulImm (h : BitSize w) (lowerBitops : Bool) (y : Int) :
    (nirImulImm lowerBitops x y).eval values = x.eval values * BitVec.ofInt w y := by
  have hword : 2 ^ w ≤ 2 ^ 64 := Nat.pow_le_pow_right (by decide) h.le
  have hlt : (y % 2 ^ w).toNat < 2 ^ w := by
    have hmod : y % 2 ^ w < 2 ^ w := Int.emod_lt_of_pos y (by positivity)
    have hnonneg := emod_two_pow_nonneg (w := w) y
    zify
    rw [Int.toNat_of_nonneg hnonneg]
    exact hmod
  rw [ofInt_eq_ofNat]
  simp only [nirImulImm]
  generalize (y % 2 ^ w).toNat = m at hlt
  split
  next hzero =>
    rw [hzero]
    exact BitVec.mul_zero.symm
  next hpos =>
    split
    next hone =>
      rw [hone]
      exact (BitVec.mul_one _).symm
    next =>
      split
      next hpot =>
        rw [Bool.and_eq_true] at hpot
        obtain ⟨k, rfl⟩ := (utilIsPowerOfTwoOrZero64_iff hpos).mp hpot.2
        have hk : k < w := (Nat.pow_lt_pow_iff_right (by decide)).mp hlt
        have hle := h.le
        rw [ffsll_two_pow (by omega), ← shiftLeft_eq_mul]
        show x.eval values <<< ((BitVec.ofNat 32 k).toNat &&& (w - 1)) = _
        rw [h.amount_eq hk]
      next =>
        show x.eval values * BitVec.ofInt w (m : Int) = _
        rw [BitVec.ofInt_natCast]

variable {y : Nat}

theorem eval_nirUshrImm (h : BitSize w) (hy : y < w) :
    (nirUshrImm x y).eval values = x.eval values >>> y := by
  rw [nirUshrImm]
  split
  next hzero => rw [hzero, BitVec.ushiftRight_zero]
  next =>
    show x.eval values >>> ((BitVec.ofNat 32 y).toNat &&& (w - 1)) = _
    rw [h.amount_eq hy]

theorem eval_nirIshrImm (h : BitSize w) (hy : y < w) :
    (nirIshrImm x y).eval values = (x.eval values).sshiftRight y := by
  rw [nirIshrImm]
  split
  next hzero => rw [hzero, BitVec.sshiftRight_zero]
  next =>
    show (x.eval values).sshiftRight ((BitVec.ofNat 32 y).toNat &&& (w - 1)) = _
    rw [h.amount_eq hy]

end Immediates

end Psbc.Nir
