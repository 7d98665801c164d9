import Psbc.Nir.Alu
import Psbc.Util.FastSdiv

/-!
# Division by constants

`nir_opt_idiv_const` replaces the integer divisions and remainders of a shader whose divisor is a
constant by multiplications, shifts and selections. Each value that it builds is the one of the
operation it replaces, for every dividend and every divisor. The one exception is the most
negative number over -1, a quotient that does not exist in the word: the constant folder makes it
0, and the negation that replaces it gives the number back.
-/

namespace Psbc.Nir

open Util

/-! ## The replacements -/

section Build

variable {w : Nat}

/-- The last branch of `build_udiv`. -/
def buildUdivMagic (n : Scalar w) (m : FastUdivInfo) : Scalar w :=
  let n := if m.preShift ≠ 0 then nirUshrImm n m.preShift else n
  let n := if m.increment ≠ 0 then .bin .uaddSat n (nirImmIntN m.increment) else n
  let n := .bin .umulHigh n (nirImmIntN m.multiplier)
  if m.postShift ≠ 0 then nirUshrImm n m.postShift else n

def buildUdiv (n : Scalar w) (d : Nat) : Scalar w :=
  let uintMax := uUintNMax w
  if d = 0 then nirImmIntN 0
  else if d = uintMax then .b2i (nirCompareImm .ieq n uintMax)
  else if uintMax / 2 < d then .b2i (nirCompareImm .uge n d)
  else if utilIsPowerOfTwoOrZero64 d then nirUshrImm n (utilLogbase2_64 d)
  else buildUdivMagic n (utilComputeFastUdivInfo d w w)

/-- The branch of `build_idiv` for a power of two: the magnitude is shifted. -/
def buildIdivPot (n : Scalar w) (d : Int) : Scalar w :=
  let uq := nirUshrImm (.un .iabs n) (utilLogbase2_64 d.natAbs)
  let nNeg := nirCompareImm .ilt n 0
  let neg := if d < 0 then .un .inot nNeg else nNeg
  .bcsel neg (.un .ineg uq) uq

/-- The high half of the product with the multiplier, which is read as a signed number. -/
def buildIdivHigh (n : Scalar w) (d : Int) (m : FastSdivInfo) : Scalar w :=
  let res := .bin .imulHigh n (nirImmIntN m.multiplier)
  let res := if 0 < d ∧ m.multiplier < 0 then .bin .iadd res n else res
  if d < 0 ∧ 0 < m.multiplier then .bin .isub res n else res

/-- The last branch of `build_idiv`. -/
def buildIdivMagic (n : Scalar w) (d : Int) (m : FastSdivInfo) : Scalar w :=
  let res := buildIdivHigh n d m
  let res := if m.shift ≠ 0 then nirIshrImm res m.shift else res
  .bin .iadd res (nirUshrImm res (w - 1))

def buildIdiv (n : Scalar w) (d : Int) : Scalar w :=
  let intMin := uIntNMin w
  if d = intMin then .b2i (nirCompareImm .ieq n intMin)
  else if d = 0 then nirImmIntN 0
  else if d = 1 then n
  else if d = -1 then .un .ineg n
  else if utilIsPowerOfTwoOrZero64 d.natAbs then buildIdivPot n d
  else buildIdivMagic n d (utilComputeFastSdivInfo d w)

variable (lowerBitops : Bool)

def buildUmod (n : Scalar w) (d : Nat) : Scalar w :=
  if d = 0 then nirImmIntN 0
  else if utilIsPowerOfTwoOrZero64 d then nirIandImm n (d - 1)
  else .bin .isub n (nirImulImm lowerBitops (buildUdiv n d) d)

def buildIrem (n : Scalar w) (d : Int) : Scalar w :=
  let intMin := uIntNMin w
  if d = 0 then nirImmIntN 0
  else if d = intMin then .bcsel (nirCompareImm .ieq n intMin) (nirImmIntN 0) n
  else
    let d := d.natAbs
    if utilIsPowerOfTwoOrZero64 d then
      let tmp := .bcsel (nirCompareImm .ilt n 0) (nirIaddImm n (d - 1)) n
      .bin .isub n (nirIandImm tmp (-d))
    else .bin .isub n (nirImulImm lowerBitops (buildIdiv n d) d)

def buildImod (n : Scalar w) (d : Int) : Scalar w :=
  let intMin := uIntNMin w
  if d = 0 then nirImmIntN 0
  else if d = intMin then
    let intMinDef := nirImmIntN intMin
    let isNegNotIntMin := .compare .ult intMinDef n
    let isZero := nirCompareImm .ieq n 0
    .bcsel (.bin .ior isNegNotIntMin isZero) n (.bin .iadd intMinDef n)
  else if 0 < d ∧ utilIsPowerOfTwoOrZero64 d.toNat then nirIandImm n (d - 1)
  else if d < 0 ∧ utilIsPowerOfTwoOrZero64 (-d).toNat then
    let dDef := nirImmIntN d
    let res := .bin .ior n dDef
    .bcsel (.compare .ieq res dDef) (nirImmIntN 0) res
  else
    let rem := buildIrem lowerBitops n d
    let zero := nirImmIntN 0
    let signSame := if d < 0 then .compare .ilt n zero else .compare .ige n zero
    let remZero := .compare .ieq rem zero
    .bcsel (.bin .ior remZero signSame) rem (nirIaddImm rem d)

end Build

/-! ## Unsigned divisions -/

section Unsigned

variable {w : Nat} (values : Values) (n : Scalar w)

@[simp] theorem ofBool_eq_one {b : Bool} : BitVec.ofBool b = 1#1 ↔ b = true := by
  cases b <;> decide

theorem toNat_setWidth_ofBool (h : BitSize w) (b : Bool) :
    ((BitVec.ofBool b).setWidth w).toNat = b.toNat := by
  cases h <;> cases b <;> rfl

theorem toNat_ofInt_natCast {m : Nat} (hm : m < 2 ^ w) : (BitVec.ofInt w (m : Int)).toNat = m := by
  rw [BitVec.ofInt_natCast, BitVec.toNat_ofNat, Nat.mod_eq_of_lt hm]

theorem eval_shift_or_self (h : BitSize w) {y : Nat} (hy : y < w) :
    (if y ≠ 0 then nirUshrImm n y else n).eval values = n.eval values >>> y := by
  split
  next => exact eval_nirUshrImm values n h hy
  next hzero => rw [Decidable.not_not.mp hzero, BitVec.ushiftRight_zero]

theorem toNat_uaddSat (h : BitSize w) (x : BitVec w) :
    (BinOp.uaddSat.eval x (BitVec.ofInt w ((1 : Nat) : Int))).toNat =
      if x.toNat = 2 ^ w - 1 then 2 ^ w - 1 else x.toNat + 1 := by
  have hx := x.isLt
  have hone : (1 : Nat) < 2 ^ w := Nat.one_lt_two_pow (by have := h.three_le; omega)
  simp only [BinOp.eval, toNat_ofInt_natCast hone]
  split
  next hbig =>
    rw [if_pos (by omega), h.uUintNMax_eq, BitVec.toNat_ofNat, Nat.mod_eq_of_lt (by omega)]
  next hsmall =>
    rw [if_neg (by omega), BitVec.toNat_add, toNat_ofInt_natCast hone, Nat.mod_eq_of_lt (by omega)]

theorem toNat_umulHigh (h : BitSize w) (x : BitVec w) {m : Nat} (hm : m < 2 ^ w) :
    (BinOp.umulHigh.eval x (BitVec.ofInt w (m : Int))).toNat = x.toNat * m / 2 ^ w := by
  have hlt : x.toNat * m / 2 ^ w < 2 ^ w := by
    rw [Nat.div_lt_iff_lt_mul (Nat.two_pow_pos w)]
    exact Nat.mul_lt_mul'' x.isLt hm
  show (umulHigh x _).toNat = _
  rw [umulHigh_eq h, toNat_ofInt_natCast hm, BitVec.toNat_ofNat, Nat.mod_eq_of_lt hlt]

/-- The multiplication and the shifts give the quotient. -/
theorem eval_buildUdivMagic (h : BitSize w) {m : FastUdivInfo} {d : Nat} (hm : UdivExact m d w w)
    (hd : d ≠ 1) :
    ((buildUdivMagic n m).eval values).toNat = (n.eval values).toNat / d := by
  have hn := (n.eval values).isLt
  simp only [buildUdivMagic]
  rw [eval_shift_or_self values _ h hm.postShift_lt, BitVec.toNat_ushiftRight,
    Nat.shiftRight_eq_div_pow, Scalar.eval, eval_nirImmIntN, toNat_umulHigh h _ hm.multiplier_lt]
  rcases hm.increment with hzero | ⟨hone, hpre⟩
  · rw [if_neg (not_not.mpr hzero), eval_shift_or_self values _ h hm.preShift_lt,
      BitVec.toNat_ushiftRight, Nat.shiftRight_eq_div_pow]
    have hexact := hm.exact _ hn
    rw [hzero, Nat.add_zero] at hexact
    exact hexact
  · rw [hone, hpre, if_pos (by decide), if_neg (by decide)]
    show (BinOp.uaddSat.eval (n.eval values) (BitVec.ofInt w ((1 : Nat) : Int))).toNat *
      m.multiplier / 2 ^ w / 2 ^ m.postShift = _
    rw [toNat_uaddSat h]
    split
    next hlast =>
      rw [hlast]
      exact hm.clamped hone hd
    next =>
      have hexact := hm.exact _ hn
      rw [hone, hpre, pow_zero, Nat.div_one] at hexact
      exact hexact

theorem toNat_udiv (x y : BitVec w) : (BinOp.udiv.eval x y).toNat = x.toNat / y.toNat := by
  have hx := x.isLt
  simp only [BinOp.eval]
  split
  next hzero =>
    subst hzero
    exact (Nat.div_zero _).symm
  next => rw [BitVec.toNat_ofNat, Nat.mod_eq_of_lt ((Nat.div_le_self _ _).trans_lt hx)]

theorem toNat_compare (h : BitSize w) (op : CompareOp) (y : Int) {b : Bool}
    (hc : op.eval (n.eval values) (BitVec.ofInt w y) = BitVec.ofBool b) :
    ((Scalar.b2i (nirCompareImm op n y) : Scalar w).eval values).toNat = b.toNat := by
  show ((op.eval (n.eval values) (BitVec.ofInt w y)).setWidth w).toNat = _
  rw [hc, toNat_setWidth_ofBool h]

/-- A divisor above half of a number goes into it once or not at all. -/
theorem toNat_decide_le {a d : Nat} (hd : 0 < d) (ha : a < 2 * d) :
    (decide (d ≤ a)).toNat = a / d := by
  by_cases hle : d ≤ a
  · rw [decide_eq_true hle, Nat.div_eq_sub_div hd hle, Nat.div_eq_of_lt (by omega)]
    rfl
  · rw [decide_eq_false hle, Nat.div_eq_of_lt (by omega)]
    rfl

theorem eval_buildUdiv (h : BitSize w) {d : Nat} (hd : d < 2 ^ w) :
    (buildUdiv n d).eval values = BinOp.udiv.eval (n.eval values) (BitVec.ofNat w d) := by
  have hn := (n.eval values).isLt
  have hnat : (BitVec.ofNat w d).toNat = d := by rw [BitVec.toNat_ofNat, Nat.mod_eq_of_lt hd]
  have hpow := Nat.two_pow_pos w
  have hhalf := h.two_pow_eq
  have hle := h.le
  apply BitVec.eq_of_toNat_eq
  rw [toNat_udiv, hnat]
  simp only [buildUdiv, h.uUintNMax_eq]
  split
  next hzero =>
    rw [hzero, Nat.div_zero, eval_nirImmIntN]
    exact toNat_ofInt_natCast hpow
  next hzero =>
    split
    next hmax =>
      rw [← toNat_decide_le (by omega : 0 < d) (by omega)]
      refine toNat_compare values n h _ _ (congrArg BitVec.ofBool ?_)
      rw [← hmax, Bool.eq_iff_iff, beq_iff_eq, decide_eq_true_eq, ← BitVec.toNat_inj,
        toNat_ofInt_natCast hd]
      omega
    next hmax =>
      split
      next hbig =>
        rw [← toNat_decide_le (by omega : 0 < d) (by omega)]
        refine toNat_compare values n h _ _ (congrArg BitVec.ofBool ?_)
        rw [toNat_ofInt_natCast hd]
      next hbig =>
        split
        next hpot =>
          obtain ⟨k, rfl⟩ := (utilIsPowerOfTwoOrZero64_iff hzero).mp hpot
          have hk : k < w := (Nat.pow_lt_pow_iff_right (by decide)).mp hd
          rw [utilLogbase2_64_two_pow, eval_nirUshrImm values n h hk, BitVec.toNat_ushiftRight,
            Nat.shiftRight_eq_div_pow]
        next hpot =>
          have hone : d ≠ 1 := fun heq => hpot (by rw [heq]; rfl)
          have hw := h.three_le
          exact eval_buildUdivMagic values n h
            (utilComputeFastUdivInfo_exact (by omega) hle (Nat.le_refl w)
              (Nat.pos_of_ne_zero hzero) hd) hone

theorem toNat_umod (x y : BitVec w) (hy : y ≠ 0) :
    (BinOp.umod.eval x y).toNat = x.toNat % y.toNat := by
  simp only [BinOp.eval, if_neg hy]
  rw [BitVec.toNat_ofNat, Nat.mod_eq_of_lt ((Nat.mod_le _ _).trans_lt x.isLt)]

theorem eval_buildUmod (h : BitSize w) (lowerBitops : Bool) {d : Nat} (hd : d < 2 ^ w) :
    (buildUmod lowerBitops n d).eval values =
      BinOp.umod.eval (n.eval values) (BitVec.ofNat w d) := by
  have hnat : (BitVec.ofNat w d).toNat = d := by rw [BitVec.toNat_ofNat, Nat.mod_eq_of_lt hd]
  rw [buildUmod]
  split
  next hzero =>
    rw [hzero, eval_nirImmIntN, ofInt_zero, BinOp.eval]
    exact (if_pos rfl).symm
  next hzero =>
    have hne : BitVec.ofNat w d ≠ 0 := fun heq => hzero (by rw [← hnat, heq]; rfl)
    split
    next hpot =>
      obtain ⟨k, rfl⟩ := (utilIsPowerOfTwoOrZero64_iff hzero).mp hpot
      apply BitVec.eq_of_toNat_eq
      have hcast : ((2 ^ k : Nat) : Int) - 1 = ((2 ^ k - 1 : Nat) : Int) :=
        (Int.natCast_pred_of_pos (Nat.two_pow_pos k)).symm
      rw [toNat_umod _ _ hne, hnat, eval_nirIandImm, hcast, BitVec.toNat_and,
        toNat_ofInt_natCast (by omega), Nat.and_two_pow_sub_one_eq_mod]
    next =>
      show n.eval values - (nirImulImm lowerBitops (buildUdiv n d) d).eval values = _
      have hudiv : BinOp.udiv.eval (n.eval values) (BitVec.ofNat w d) =
          BitVec.ofNat w ((n.eval values).toNat / d) := by
        rw [BinOp.eval, if_neg hne, hnat]
      have humod : BinOp.umod.eval (n.eval values) (BitVec.ofNat w d) =
          BitVec.ofNat w ((n.eval values).toNat % d) := by
        rw [BinOp.eval, if_neg hne, hnat]
      rw [eval_nirImulImm _ _ h, eval_buildUdiv values n h hd, BitVec.ofInt_natCast, hudiv, humod,
        BitVec.sub_eq_iff_eq_add, ← BitVec.ofNat_mul, ← BitVec.ofNat_add, Nat.mul_comm,
        Nat.mod_add_div, BitVec.ofNat_toNat, BitVec.setWidth_eq]

end Unsigned

/-! ## Signed quotients -/

section Signed

variable {w : Nat} (values : Values) (n : Scalar w)

theorem toInt_ofInt (h : BitSize w) {i : Int} (hi : -2 ^ (w - 1) ≤ i) (hi' : i < 2 ^ (w - 1)) :
    (BitVec.ofInt w i).toInt = i :=
  BitVec.toInt_ofInt_eq_self (by have := h.three_le; omega) hi hi'

theorem tdiv_eq (x d : Int) :
    x.tdiv d = if (decide (x < 0) ^^ decide (d < 0)) = true
      then -((x.natAbs / d.natAbs : Nat) : Int) else ((x.natAbs / d.natAbs : Nat) : Int) := by
  rcases lt_or_ge x 0 with hx | hx <;> rcases lt_or_ge d 0 with hd | hd
  · obtain ⟨a, rfl⟩ := Int.exists_eq_neg_ofNat hx.le
    obtain ⟨b, rfl⟩ := Int.exists_eq_neg_ofNat hd.le
    rw [decide_eq_true hx, decide_eq_true hd, if_neg (by decide), Int.neg_tdiv, Int.tdiv_neg,
      Int.neg_neg, ← Int.ofNat_tdiv, Int.natAbs_neg, Int.natAbs_neg]
    rfl
  · obtain ⟨a, rfl⟩ := Int.exists_eq_neg_ofNat hx.le
    obtain ⟨b, rfl⟩ := Int.eq_ofNat_of_zero_le hd
    rw [decide_eq_true hx, decide_eq_false (Int.not_lt.mpr hd), if_pos (by decide), Int.neg_tdiv,
      ← Int.ofNat_tdiv, Int.natAbs_neg]
    rfl
  · obtain ⟨a, rfl⟩ := Int.eq_ofNat_of_zero_le hx
    obtain ⟨b, rfl⟩ := Int.exists_eq_neg_ofNat hd.le
    rw [decide_eq_false (Int.not_lt.mpr hx), decide_eq_true hd, if_pos (by decide), Int.tdiv_neg,
      ← Int.ofNat_tdiv, Int.natAbs_neg]
    rfl
  · obtain ⟨a, rfl⟩ := Int.eq_ofNat_of_zero_le hx
    obtain ⟨b, rfl⟩ := Int.eq_ofNat_of_zero_le hd
    rw [decide_eq_false (Int.not_lt.mpr hx), decide_eq_false (Int.not_lt.mpr hd),
      if_neg (by decide), ← Int.ofNat_tdiv]
    rfl

theorem idiv_eq (h : BitSize w) (x : BitVec w) {d : Int} (hd : -2 ^ (w - 1) ≤ d)
    (hd' : d < 2 ^ (w - 1)) (hne : d ≠ 0) (hdef : ¬ (x.toInt = uIntNMin w ∧ d = -1)) :
    BinOp.idiv.eval x (BitVec.ofInt w d) = BitVec.ofInt w (x.toInt.tdiv d) := by
  have htoInt := toInt_ofInt h hd hd'
  have hundef : ¬ undefinedQuotient x (BitVec.ofInt w d) := by
    rintro (hzero | ⟨hmin, hone⟩)
    · rw [hzero] at htoInt
      exact hne (htoInt.symm.trans BitVec.toInt_zero)
    · exact hdef ⟨hmin, htoInt.symm.trans hone⟩
  rw [BinOp.eval, if_neg hundef, htoInt]

theorem toNat_iabs (x : BitVec w) : (UnOp.iabs.eval x).toNat = x.toInt.natAbs := by
  have hx := x.isLt
  have htoInt := BitVec.toInt_eq_toNat_cond x
  have hcast : ((2 ^ w : Nat) : Int) = 2 ^ w := Int.natCast_pow 2 w
  simp only [UnOp.eval]
  split
  next hneg =>
    rw [BitVec.toNat_neg]
    split at htoInt
    next => omega
    next hbig =>
      rw [Nat.mod_eq_of_lt (by omega)]
      omega
  next hpos =>
    split at htoInt <;> omega

theorem eval_ilt_zero : (nirCompareImm .ilt n 0).eval values =
    BitVec.ofBool (decide ((n.eval values).toInt < 0)) := by
  show BitVec.ofBool (decide ((n.eval values).toInt < (BitVec.ofInt w 0).toInt)) = _
  rw [ofInt_zero, BitVec.toInt_zero]

theorem eval_buildIdivPot (h : BitSize w) {d : Int} {k : Nat} (hk : 0 < k) (hkw : k < w)
    (hd : d.natAbs = 2 ^ k) :
    (buildIdivPot n d).eval values = BitVec.ofInt w ((n.eval values).toInt.tdiv d) := by
  have hlower := BitVec.le_toInt (n.eval values)
  have hupper : (n.eval values).toInt < 2 ^ (w - 1) := BitVec.toInt_lt
  have hcast : ((2 ^ (w - 1) : Nat) : Int) = 2 ^ (w - 1) := Int.natCast_pow 2 (w - 1)
  obtain ⟨u, hu⟩ : ∃ u, u = (n.eval values).toInt.natAbs / d.natAbs := ⟨_, rfl⟩
  -- the quotient of the magnitude is below the sign bit, so that its negation is exact
  have hle : 2 * u ≤ 2 ^ (w - 1) := by
    have htwo : (n.eval values).toInt.natAbs / 2 ^ k ≤ (n.eval values).toInt.natAbs / 2 :=
      Nat.div_le_div_left (Nat.le_self_pow hk.ne' 2) (by decide)
    rw [hu, hd]
    omega
  have hpos := Nat.two_pow_pos (w - 1)
  have huq : (nirUshrImm (.un .iabs n) (utilLogbase2_64 d.natAbs)).eval values =
      BitVec.ofInt w (u : Int) := by
    apply BitVec.eq_of_toNat_eq
    have hword := h.two_pow_eq
    rw [hd, utilLogbase2_64_two_pow, eval_nirUshrImm _ _ h hkw, BitVec.toNat_ushiftRight,
      Scalar.eval, toNat_iabs, Nat.shiftRight_eq_div_pow, toNat_ofInt_natCast (by omega), hu, hd]
  have hneg : (if d < 0 then .un .inot (nirCompareImm .ilt n 0) else
      nirCompareImm .ilt n 0 : Scalar 1).eval values =
      BitVec.ofBool (decide ((n.eval values).toInt < 0) ^^ decide (d < 0)) := by
    split
    next hlt =>
      rw [Scalar.eval, eval_ilt_zero, decide_eq_true hlt, Bool.xor_true]
      exact BitVec.not_ofBool
    next hge => rw [eval_ilt_zero, decide_eq_false hge, Bool.xor_false]
  have hineg : UnOp.ineg.eval (BitVec.ofInt w (u : Int)) = BitVec.ofInt w (-(u : Int)) := by
    rw [UnOp.eval, toInt_ofInt h (by omega) (by omega), h.uIntNMin_eq, if_neg (by omega),
      BitVec.ofInt_neg]
  rw [tdiv_eq, ← hu]
  simp only [buildIdivPot, Scalar.eval, hneg, huq, hineg, ofBool_eq_one]
  split <;> rfl

/-- The sign bit is added to the floor. -/
theorem add_sign (h : BitSize w) (x : BitVec w) :
    x + x >>> (w - 1) = BitVec.ofInt w (x.toInt + if x.toInt < 0 then 1 else 0) := by
  have hx := x.isLt
  have htoInt := BitVec.toInt_eq_toNat_cond x
  have hcast : ((2 ^ w : Nat) : Int) = 2 ^ w := Int.natCast_pow 2 w
  have hhalf := h.two_pow_eq
  have hpos := Nat.two_pow_pos (w - 1)
  have hsign : x >>> (w - 1) = BitVec.ofInt w (if x.toInt < 0 then 1 else 0) := by
    apply BitVec.eq_of_toNat_eq
    rw [BitVec.toNat_ushiftRight, Nat.shiftRight_eq_div_pow]
    split
    next hneg =>
      have hone : (BitVec.ofInt w 1).toNat = 1 :=
        toNat_ofInt_natCast (Nat.one_lt_two_pow (by have := h.three_le; omega))
      rw [hone]
      split at htoInt
      next => omega
      next => exact Nat.div_eq_of_lt_le (by omega) (by omega)
    next hge =>
      rw [ofInt_zero]
      split at htoInt
      next => exact Nat.div_eq_of_lt (by omega)
      next => omega
  rw [BitVec.ofInt_add, BitVec.ofInt_toInt, hsign]

/-- The signed reading of a multiplier keeps away from the most negative number. -/
theorem signed_bounds (h : BitSize w) {m : Nat} (hm : m < 2 ^ w) (hne : m ≠ 2 ^ (w - 1)) :
    -2 ^ (w - 1) < signed w m ∧ signed w m < 2 ^ (w - 1) := by
  have hcast : ((2 ^ (w - 1) : Nat) : Int) = 2 ^ (w - 1) := Int.natCast_pow 2 (w - 1)
  have hcast' : ((2 ^ w : Nat) : Int) = 2 ^ w := Int.natCast_pow 2 w
  have hhalf := h.two_pow_eq
  rw [signed]
  split <;> omega

/-- A multiple of the word moves out of the quotient. -/
theorem mul_ediv_word (x m : Int) (w : Nat) : x * (m + 2 ^ w) / 2 ^ w = x * m / 2 ^ w + x := by
  rw [Int.mul_add, Int.add_mul_ediv_right _ _ (by positivity)]

/-- A multiplier of the wrong sign is corrected by the dividend. -/
theorem eval_buildIdivHigh (h : BitSize w) {d : Int} {m : FastSdivInfo} {multiplier : Nat}
    (hm : SdivExact m d w multiplier) (hd : d ≠ 0) :
    (buildIdivHigh n d m).eval values =
      BitVec.ofInt w ((n.eval values).toInt * (d.sign * multiplier) / 2 ^ w) := by
  obtain ⟨hlower, hupper⟩ := signed_bounds h hm.lt hm.ne
  have hmultiplier := hm.multiplier
  have hlt := hm.lt
  have hcast : ((2 ^ (w - 1) : Nat) : Int) = 2 ^ (w - 1) := Int.natCast_pow 2 (w - 1)
  have hcast' : ((2 ^ w : Nat) : Int) = 2 ^ w := Int.natCast_pow 2 w
  have hhigh : ∀ i : Int, -2 ^ (w - 1) ≤ i → i < 2 ^ (w - 1) →
      BinOp.imulHigh.eval (n.eval values) (BitVec.ofInt w i) =
        BitVec.ofInt w ((n.eval values).toInt * i / 2 ^ w) := fun i hi hi' => by
    show imulHigh _ _ = _
    rw [imulHigh_eq h, toInt_ofInt h hi hi']
  have hsmall : multiplier < 2 ^ (w - 1) → signed w multiplier = multiplier := fun hlt => if_pos hlt
  have hbig : ¬ multiplier < 2 ^ (w - 1) → signed w multiplier = multiplier - 2 ^ w :=
    fun hge => if_neg hge
  simp only [buildIdivHigh]
  rcases lt_or_gt_of_ne hd with hneg | hpos
  · rw [Int.sign_eq_neg_one_of_neg hneg, Int.neg_one_mul] at hmultiplier ⊢
    have hno : ¬ (0 < d ∧ m.multiplier < 0) := fun hboth => absurd hneg hboth.1.not_gt
    rw [if_neg hno]
    by_cases hcase : multiplier < 2 ^ (w - 1)
    · rw [hsmall hcase] at hmultiplier
      rw [if_neg fun hboth => by omega, hmultiplier]
      exact hhigh _ (by omega) (by omega)
    · rw [hbig hcase] at hmultiplier
      rw [if_pos ⟨hneg, by omega⟩, hmultiplier, Scalar.eval, Scalar.eval, eval_nirImmIntN,
        hhigh _ (by omega) (by omega)]
      have hsum : -((multiplier : Int) - 2 ^ w) = -(multiplier : Int) + 2 ^ w := by omega
      rw [hsum, mul_ediv_word, BitVec.ofInt_add, BitVec.ofInt_toInt]
      exact BitVec.add_sub_cancel _ _
  · rw [Int.sign_eq_one_of_pos hpos, Int.one_mul] at hmultiplier ⊢
    have hno : ¬ (d < 0 ∧ 0 < m.multiplier) := fun hboth => absurd hpos hboth.1.not_gt
    rw [if_neg hno]
    by_cases hcase : multiplier < 2 ^ (w - 1)
    · rw [hsmall hcase] at hmultiplier
      rw [if_neg fun hboth => by omega, hmultiplier]
      exact hhigh _ (by omega) (by omega)
    · rw [hbig hcase] at hmultiplier
      rw [if_pos ⟨hpos, by omega⟩, hmultiplier, Scalar.eval, Scalar.eval, eval_nirImmIntN,
        hhigh _ (by omega) (by omega)]
      have hsum : (multiplier : Int) = multiplier - 2 ^ w + 2 ^ w := by omega
      conv => rhs; rw [hsum, mul_ediv_word, BitVec.ofInt_add, BitVec.ofInt_toInt]
      rfl

theorem high_bounds {x d : Int} {m : Nat} (hx : -2 ^ (w - 1) ≤ x) (hx' : x < 2 ^ (w - 1))
    (hm : m < 2 ^ w) (hd : d ≠ 0) :
    -2 ^ (w - 1) ≤ x * (d.sign * m) / 2 ^ w ∧ x * (d.sign * m) / 2 ^ w < 2 ^ (w - 1) := by
  have hcast : ((2 ^ w : Nat) : Int) = 2 ^ w := Int.natCast_pow 2 w
  have hword : (0 : Int) < 2 ^ w := by positivity
  have hhalf : (0 : Int) < 2 ^ (w - 1) := by positivity
  have hm' : (m : Int) < 2 ^ w := by omega
  have hm0 : (0 : Int) ≤ m := Int.natCast_nonneg m
  rw [Int.le_ediv_iff_mul_le hword, Int.ediv_lt_iff_lt_mul hword]
  rcases lt_or_gt_of_ne hd with hneg | hpos
  · rw [Int.sign_eq_neg_one_of_neg hneg]
    constructor <;> nlinarith
  · rw [Int.sign_eq_one_of_pos hpos]
    constructor <;> nlinarith

theorem eval_buildIdivMagic (h : BitSize w) {d : Int} {m : FastSdivInfo} {multiplier : Nat}
    (hm : SdivExact m d w multiplier) (hd : d ≠ 0) :
    (buildIdivMagic n d m).eval values = BitVec.ofInt w ((n.eval values).toInt.tdiv d) := by
  have hw := h.three_le
  have hx := BitVec.le_toInt (n.eval values)
  have hx' : (n.eval values).toInt < 2 ^ (w - 1) := BitVec.toInt_lt
  obtain ⟨hlower, hupper⟩ := high_bounds hx hx' hm.lt hd
  have hshift : ∀ res : Scalar w,
      (if m.shift ≠ 0 then nirIshrImm res m.shift else res).eval values =
        (res.eval values).sshiftRight m.shift := fun res => by
    split
    next => exact eval_nirIshrImm values res h hm.shift_lt
    next hzero => rw [Decidable.not_not.mp hzero, BitVec.sshiftRight_zero]
  simp only [buildIdivMagic, Scalar.eval, eval_nirUshrImm _ _ h (by omega : w - 1 < w), hshift,
    eval_buildIdivHigh values n h hm hd]
  have hexact := hm.exact _ hx hx'
  generalize (n.eval values).toInt * (d.sign * multiplier) = product at *
  show BitVec.sshiftRight (BitVec.ofInt w (product / 2 ^ w)) m.shift +
    BitVec.sshiftRight (BitVec.ofInt w (product / 2 ^ w)) m.shift >>> (w - 1) = _
  have hfloor : (BitVec.sshiftRight (BitVec.ofInt w (product / 2 ^ w)) m.shift).toInt =
      product / (2 ^ (w + m.shift) : Nat) := by
    have hcast : ((2 ^ (w + m.shift) : Nat) : Int) = 2 ^ w * (2 ^ m.shift : Nat) := by
      rw [pow_add, Int.natCast_mul]
      norm_cast
    rw [BitVec.toInt_sshiftRight, toInt_ofInt h hlower hupper, Int.shiftRight_eq_div_pow, hcast,
      Int.ediv_ediv_of_nonneg (by positivity)]
  rw [add_sign h, hfloor]
  exact congrArg (BitVec.ofInt w) hexact

theorem eval_ieq_intMin (h : BitSize w) :
    (nirCompareImm .ieq n (uIntNMin w)).eval values =
      BitVec.ofBool (decide ((n.eval values).toInt = -2 ^ (w - 1))) := by
  have hpos : (0 : Int) < 2 ^ (w - 1) := by positivity
  refine congrArg BitVec.ofBool ?_
  rw [Bool.eq_iff_iff, beq_iff_eq, decide_eq_true_eq, ← BitVec.toInt_inj, eval_nirImmIntN,
    h.uIntNMin_eq, toInt_ofInt h (by omega) (by omega)]

/-- Only the most negative number contains itself. -/
theorem tdiv_intMin {x : Int} {k : Nat} (hx : -2 ^ k ≤ x) (hx' : x < 2 ^ k) :
    x.tdiv (-2 ^ k) = if x = -2 ^ k then 1 else 0 := by
  have hcast : ((2 ^ k : Nat) : Int) = 2 ^ k := Int.natCast_pow 2 k
  have hpos := Nat.two_pow_pos k
  have habs : (-2 ^ k : Int).natAbs = 2 ^ k := by omega
  split
  next hmin =>
    rw [hmin]
    exact Int.tdiv_self (by omega)
  next hother =>
    rw [tdiv_eq, habs, Nat.div_eq_of_lt (by omega)]
    split <;> rfl

theorem setWidth_ofBool (h : BitSize w) (p : Prop) [Decidable p] :
    (BitVec.ofBool (decide p)).setWidth w = BitVec.ofInt w (if p then 1 else 0) := by
  apply BitVec.eq_of_toNat_eq
  rw [toNat_setWidth_ofBool h]
  by_cases hp : p
  · rw [decide_eq_true hp, if_pos hp]
    exact (toNat_ofInt_natCast (Nat.one_lt_two_pow (by have := h.three_le; omega))).symm
  · rw [decide_eq_false hp, if_neg hp, ofInt_zero]
    rfl

/-- The quotients agree wherever the word has one. -/
theorem eval_buildIdiv (h : BitSize w) {d : Int} (hd : -2 ^ (w - 1) ≤ d) (hd' : d < 2 ^ (w - 1))
    (hdef : ¬ ((n.eval values).toInt = uIntNMin w ∧ d = -1)) :
    (buildIdiv n d).eval values = BinOp.idiv.eval (n.eval values) (BitVec.ofInt w d) := by
  have hw := h.three_le
  have hx := BitVec.le_toInt (n.eval values)
  have hx' : (n.eval values).toInt < 2 ^ (w - 1) := BitVec.toInt_lt
  rw [buildIdiv]
  split
  next hmin =>
    have hcast : ((2 ^ (w - 1) : Nat) : Int) = 2 ^ (w - 1) := Int.natCast_pow 2 (w - 1)
    have htwo : 2 ^ 1 ≤ 2 ^ (w - 1) := Nat.pow_le_pow_right (by decide) (by omega)
    rw [h.uIntNMin_eq] at hmin
    rw [idiv_eq h _ hd hd' (by omega) (by omega), hmin, tdiv_intMin hx hx', ← setWidth_ofBool h,
      Scalar.eval, eval_ieq_intMin values n h]
  next hmin =>
    split
    next hzero =>
      rw [hzero, eval_nirImmIntN, ofInt_zero, BinOp.eval]
      exact (if_pos (.inl rfl)).symm
    next hzero =>
      rw [idiv_eq h _ hd hd' hzero hdef]
      split
      next hone => rw [hone, Int.tdiv_one, BitVec.ofInt_toInt]
      next hone =>
        split
        next hnegone =>
          rw [hnegone, Int.tdiv_neg, Int.tdiv_one, BitVec.ofInt_neg, BitVec.ofInt_toInt]
          exact if_neg fun hmin => hdef ⟨hmin, hnegone⟩
        next hnegone =>
          rw [h.uIntNMin_eq] at hmin
          have hcast : ((2 ^ (w - 1) : Nat) : Int) = 2 ^ (w - 1) := Int.natCast_pow 2 (w - 1)
          have habs : d.natAbs < 2 ^ (w - 1) := by omega
          split
          next hpot =>
            obtain ⟨k, hk⟩ := (utilIsPowerOfTwoOrZero64_iff (by omega)).mp hpot
            rw [hk] at habs
            have hkw : k < w - 1 := (Nat.pow_lt_pow_iff_right (by decide)).mp habs
            have hk0 : 0 < k := Nat.pos_of_ne_zero fun hzero => by
              rw [hzero, pow_zero] at hk
              omega
            exact eval_buildIdivPot values n h hk0 (by omega) hk
          next hpot =>
            obtain ⟨multiplier, hm⟩ :=
              utilComputeFastSdivInfo_exact (by omega) h.le (by omega) habs hpot
            exact eval_buildIdivMagic values n h hm hzero

/-- **Where the pass and the constant folder part.** The signed quotient that is built is the one
of `idiv` for every dividend and divisor but the most negative number over -1. -/
theorem buildIdiv_agrees_iff (h : BitSize w) {d : Int} (hd : -2 ^ (w - 1) ≤ d)
    (hd' : d < 2 ^ (w - 1)) :
    (buildIdiv n d).eval values = BinOp.idiv.eval (n.eval values) (BitVec.ofInt w d) ↔
      ¬((n.eval values).toInt = uIntNMin w ∧ d = -1) := by
  refine ⟨?_, eval_buildIdiv values n h hd hd'⟩
  rintro hagree ⟨hmin, rfl⟩
  have hw := h.three_le
  have hpos : (0 : Int) < 2 ^ (w - 1) := by positivity
  have hone : -1 ≠ uIntNMin w := by
    have hle : (2 : Int) ^ 2 ≤ 2 ^ (w - 1) := pow_le_pow_right₀ (by decide) (by omega)
    rw [h.uIntNMin_eq]
    omega
  -- the negation gives the number back, the constant folder gives zero
  have hbuilt : (buildIdiv n (-1)).eval values = n.eval values := by
    simp only [buildIdiv, if_neg hone]
    exact if_pos hmin
  have hfolded : BinOp.idiv.eval (n.eval values) (BitVec.ofInt w (-1)) = 0 :=
    if_pos (.inr ⟨hmin, toInt_ofInt h hd hd'⟩)
  rw [hbuilt, hfolded] at hagree
  rw [hagree, h.uIntNMin_eq] at hmin
  have hzero : (0 : BitVec w).toInt = 0 := BitVec.toInt_zero
  omega

/-- -128 and -127 over -1, and -100 over 7, which takes a multiplier. -/
theorem buildIdiv_agrees_iff_byte :
    (buildIdiv (.imm 128#8) (-1)).eval (fun _ _ => 0) ≠
      BinOp.idiv.eval 128#8 (BitVec.ofInt 8 (-1)) ∧
    (buildIdiv (.imm 129#8) (-1)).eval (fun _ _ => 0) =
      BinOp.idiv.eval 129#8 (BitVec.ofInt 8 (-1)) ∧
    (buildIdiv (.imm 156#8) 7).eval (fun _ _ => 0) = BitVec.ofInt 8 (-14) := by
  refine ⟨fun h => ?_, ?_, ?_⟩
  · exact (buildIdiv_agrees_iff (fun _ _ => 0) (.imm 128#8) .int8 (by decide) (by decide)).mp h
      ⟨by decide, rfl⟩
  · exact (buildIdiv_agrees_iff (fun _ _ => 0) (.imm 129#8) .int8 (by decide) (by decide)).mpr
      fun h => absurd h.1 (by decide)
  · exact ((buildIdiv_agrees_iff (fun _ _ => 0) (.imm 156#8) .int8 (by decide) (by decide)).mpr
      fun h => absurd h.2 (by decide)).trans (by decide)

end Signed

/-! ## Masks -/

section Masks

variable {w k : Nat}

theorem not_mask : ~~~BitVec.ofInt w (2 ^ k - 1) = BitVec.ofInt w (-2 ^ k) := by
  have hone : 1#w = BitVec.ofInt w 1 := (BitVec.ofInt_natCast w 1).symm
  rw [BitVec.not_eq_neg_add, ← BitVec.ofInt_neg, hone, ← ofInt_sub]
  congr 1
  omega

theorem and_mask (hk : k < w) (t : Int) :
    BitVec.ofInt w t &&& BitVec.ofInt w (2 ^ k - 1) = BitVec.ofInt w (t % 2 ^ k) := by
  have hpos := Nat.two_pow_pos k
  have hlt : 2 ^ k < 2 ^ w := Nat.pow_lt_pow_right (by decide) hk
  have hcast : (2 : Int) ^ k - 1 = ((2 ^ k - 1 : Nat) : Int) := by
    rw [Int.natCast_sub hpos, Int.natCast_pow]
    rfl
  have hrem : t % 2 ^ k = (((t % 2 ^ w).toNat % 2 ^ k : Nat) : Int) := by
    rw [Int.natCast_emod, Int.toNat_of_nonneg (emod_two_pow_nonneg t), Int.natCast_pow]
    exact (Int.emod_emod_of_dvd t (pow_dvd_pow 2 hk.le)).symm
  have hmod : (t % 2 ^ w).toNat % 2 ^ k < 2 ^ k := Nat.mod_lt _ hpos
  apply BitVec.eq_of_toNat_eq
  rw [BitVec.toNat_and, hcast, toNat_ofInt_natCast (by omega), Nat.and_two_pow_sub_one_eq_mod,
    hrem, toNat_ofInt_natCast (by omega), BitVec.toNat_ofInt, Int.natCast_pow]
  rfl

theorem and_not_mask (x m : BitVec w) : x &&& ~~~m = x - (x &&& m) := by
  have hapart : (x &&& ~~~m) &&& (x &&& m) = 0#w := by
    ext i
    simp only [BitVec.getElem_and, BitVec.getElem_not, BitVec.getElem_zero]
    cases x[i] <;> cases m[i] <;> rfl
  rw [BitVec.eq_sub_iff_add_eq, BitVec.add_eq_or_of_and_eq_zero _ _ hapart]
  ext i
  simp only [BitVec.getElem_and, BitVec.getElem_or, BitVec.getElem_not]
  cases x[i] <;> cases m[i] <;> rfl

theorem or_not_mask (x m : BitVec w) : x ||| ~~~m = (x &&& m) + ~~~m := by
  have hapart : (x &&& m) &&& ~~~m = 0#w := by
    ext i
    simp only [BitVec.getElem_and, BitVec.getElem_not, BitVec.getElem_zero]
    cases x[i] <;> cases m[i] <;> rfl
  rw [BitVec.add_eq_or_of_and_eq_zero _ _ hapart]
  ext i
  simp only [BitVec.getElem_and, BitVec.getElem_or, BitVec.getElem_not]
  cases x[i] <;> cases m[i] <;> rfl

theorem and_neg_two_pow (hk : k < w) (t : Int) :
    BitVec.ofInt w t &&& BitVec.ofInt w (-2 ^ k) = BitVec.ofInt w (t - t % 2 ^ k) := by
  rw [← not_mask, and_not_mask, and_mask hk, ofInt_sub]

theorem or_neg_two_pow (hk : k < w) (t : Int) :
    BitVec.ofInt w t ||| BitVec.ofInt w (-2 ^ k) = BitVec.ofInt w (t % 2 ^ k + -2 ^ k) := by
  rw [← not_mask, or_not_mask, and_mask hk, not_mask, BitVec.ofInt_add]

end Masks

/-! ## Signed remainders -/

section Remainders

variable {w : Nat} (values : Values) (n : Scalar w) (lowerBitops : Bool)

theorem irem_eq (h : BitSize w) (x : BitVec w) {d : Int} (hd : -2 ^ (w - 1) ≤ d)
    (hd' : d < 2 ^ (w - 1)) (hne : d ≠ 0) :
    BinOp.irem.eval x (BitVec.ofInt w d) = BitVec.ofInt w (x.toInt.tmod d) := by
  have htoInt := toInt_ofInt h hd hd'
  rw [BinOp.eval, htoInt]
  split
  next hundef =>
    rcases hundef with hzero | ⟨_, hone⟩
    · rw [hzero] at htoInt
      exact absurd (htoInt.symm.trans BitVec.toInt_zero) hne
    · rw [htoInt] at hone
      rw [hone, Int.tmod_neg, Int.tmod_one, ofInt_zero]
      rfl
  next => rfl

/-- Toward zero, a negative number is rounded up. -/
theorem sub_emod_eq (x : Int) (k : Nat) :
    (if x < 0 then x + (2 ^ k - 1) else x) - (if x < 0 then x + (2 ^ k - 1) else x) % 2 ^ k =
      2 ^ k * x.tdiv (2 ^ k) := by
  have hpos : (0 : Int) < 2 ^ k := by positivity
  generalize (2 : Int) ^ k = b at hpos
  have hsub : ∀ t : Int, t - t % b = b * (t / b) := fun t => by
    have hdiv := Int.mul_ediv_add_emod t b
    omega
  rw [hsub]
  congr 1
  split
  next hneg =>
    obtain ⟨a, rfl⟩ := Int.exists_eq_neg_ofNat hneg.le
    rw [Int.neg_tdiv, Int.tdiv_eq_ediv_of_nonneg (Int.natCast_nonneg a),
      Int.ediv_eq_iff_of_pos hpos]
    have hdiv := Int.mul_ediv_add_emod (a : Int) b
    have hlt := Int.emod_lt_of_pos (a : Int) hpos
    have hnonneg := Int.emod_nonneg (a : Int) hpos.ne'
    rw [Int.neg_mul, Int.mul_comm (_ / b)]
    omega
  next hge => exact (Int.tdiv_eq_ediv_of_nonneg (by omega)).symm

theorem tmod_natAbs (x d : Int) : x.tmod d.natAbs = x.tmod d := by
  rcases Int.natAbs_eq d with heq | heq
  · rw [← heq]
  · conv => rhs; rw [heq, Int.tmod_neg]

theorem sub_mul_tdiv (x : BitVec w) (d : Int) :
    x - BitVec.ofInt w (d * x.toInt.tdiv d) = BitVec.ofInt w (x.toInt.tmod d) := by
  rw [Int.tmod_def, ofInt_sub, BitVec.ofInt_toInt]

theorem eval_buildIrem (h : BitSize w) {d : Int} (hd : -2 ^ (w - 1) ≤ d) (hd' : d < 2 ^ (w - 1)) :
    (buildIrem lowerBitops n d).eval values =
      BinOp.irem.eval (n.eval values) (BitVec.ofInt w d) := by
  have hw := h.three_le
  have hx := BitVec.le_toInt (n.eval values)
  have hx' : (n.eval values).toInt < 2 ^ (w - 1) := BitVec.toInt_lt
  have hcast : ((2 ^ (w - 1) : Nat) : Int) = 2 ^ (w - 1) := Int.natCast_pow 2 (w - 1)
  rw [buildIrem]
  split
  next hzero =>
    rw [hzero, eval_nirImmIntN, ofInt_zero, BinOp.eval]
    exact (if_pos (.inl rfl)).symm
  next hzero =>
    rw [irem_eq h _ hd hd' hzero]
    split
    next hmin =>
      rw [h.uIntNMin_eq] at hmin
      rw [Scalar.eval, eval_ieq_intMin values n h, hmin, Int.tmod_def, tdiv_intMin hx hx',
        eval_nirImmIntN]
      simp only [ofBool_eq_one, decide_eq_true_eq]
      split
      next heq => rw [heq, Int.mul_one, Int.sub_self]
      next => rw [Int.mul_zero, Int.sub_zero, BitVec.ofInt_toInt]
    next hmin =>
      rw [h.uIntNMin_eq] at hmin
      rw [← tmod_natAbs]
      have habs : d.natAbs < 2 ^ (w - 1) := by omega
      have hpos : 0 < d.natAbs := by omega
      generalize d.natAbs = b at habs hpos
      dsimp only
      split
      next hpot =>
        obtain ⟨k, rfl⟩ := (utilIsPowerOfTwoOrZero64_iff hpos.ne').mp hpot
        have hk : k < w - 1 := (Nat.pow_lt_pow_iff_right (by decide)).mp habs
        have hb : ((2 ^ k : Nat) : Int) = 2 ^ k := Int.natCast_pow 2 k
        have htmp : (Scalar.bcsel (nirCompareImm .ilt n 0)
            (nirIaddImm n (((2 ^ k : Nat) : Int) - 1)) n).eval values =
            BitVec.ofInt w (if (n.eval values).toInt < 0 then (n.eval values).toInt + (2 ^ k - 1)
              else (n.eval values).toInt) := by
          rw [Scalar.eval, eval_ilt_zero, eval_nirIaddImm]
          simp only [ofBool_eq_one, decide_eq_true_eq]
          split
          next => rw [BitVec.ofInt_add, BitVec.ofInt_toInt, hb]
          next => rw [BitVec.ofInt_toInt]
        rw [← sub_mul_tdiv]
        show n.eval values - (nirIandImm _ _).eval values = _
        rw [eval_nirIandImm, htmp, hb, and_neg_two_pow (by omega), sub_emod_eq]
      next hpot =>
        rw [← sub_mul_tdiv]
        show n.eval values - (nirImulImm _ _ _).eval values = _
        rw [eval_nirImulImm _ _ h, eval_buildIdiv values n h (by omega) (by omega) (by omega),
          idiv_eq h _ (by omega) (by omega) (by omega) (by omega), ← BitVec.ofInt_mul,
          Int.mul_comm]

theorem fmod_eq (x d : Int) :
    x.fmod d = if x.tmod d = 0 ∨ (0 ≤ x ↔ 0 ≤ d) then x.tmod d else x.tmod d + d := by
  rw [Int.fmod_eq_tmod]
  simp only [Int.dvd_iff_tmod_eq_zero]
  by_cases hzero : x.tmod d = 0
  · rw [if_pos hzero, if_pos (.inl hzero), Int.add_zero]
  · rw [if_neg hzero]
    by_cases hx : 0 ≤ x <;> by_cases hd : 0 ≤ d <;> simp only [hx, hd, hzero] <;> simp <;> omega

theorem imod_eq (h : BitSize w) (x : BitVec w) {d : Int} (hd : -2 ^ (w - 1) ≤ d)
    (hd' : d < 2 ^ (w - 1)) (hne : d ≠ 0) :
    BinOp.imod.eval x (BitVec.ofInt w d) = BitVec.ofInt w (x.toInt.fmod d) := by
  have htoInt := toInt_ofInt h hd hd'
  rw [BinOp.eval, htoInt]
  split
  next hundef =>
    rcases hundef with hzero | ⟨_, hone⟩
    · rw [hzero] at htoInt
      exact absurd (htoInt.symm.trans BitVec.toInt_zero) hne
    · rw [htoInt] at hone
      rw [hone, fmod_eq, Int.tmod_neg, Int.tmod_one, if_pos (.inl rfl), ofInt_zero]
      rfl
  next =>
    rw [fmod_eq]
    split <;> rfl

theorem eval_ior_compare (c c' : Scalar 1) {p q : Prop} [Decidable p] [Decidable q]
    (hc : c.eval values = BitVec.ofBool (decide p))
    (hc' : c'.eval values = BitVec.ofBool (decide q)) (a b : Scalar w) :
    (Scalar.bcsel (.bin .ior c c') a b).eval values =
      if p ∨ q then a.eval values else b.eval values := by
  have hor : (Scalar.bin .ior c c').eval values = BitVec.ofBool (decide p || decide q) := by
    rw [Scalar.eval, hc, hc']
    exact BitVec.ofBool_or_ofBool
  rw [Scalar.eval, hor]
  simp only [ofBool_eq_one, Bool.or_eq_true, decide_eq_true_eq]

theorem eval_ieq_zero : (nirCompareImm .ieq n 0).eval values =
    BitVec.ofBool (decide ((n.eval values).toInt = 0)) := by
  refine congrArg BitVec.ofBool ?_
  rw [Bool.eq_iff_iff, beq_iff_eq, decide_eq_true_eq, ← BitVec.toInt_inj, eval_nirImmIntN,
    ofInt_zero, BitVec.toInt_zero]

/-- The most negative number is below a dividend, as words, when the dividend is negative. -/
theorem eval_ult_intMin (h : BitSize w) :
    (Scalar.compare .ult (nirImmIntN (uIntNMin w)) n).eval values =
      BitVec.ofBool
        (decide (-2 ^ (w - 1) < (n.eval values).toInt ∧ (n.eval values).toInt < 0)) := by
  have hword := h.two_pow_eq
  have hpos := Nat.two_pow_pos (w - 1)
  have hcast : ((2 ^ (w - 1) : Nat) : Int) = 2 ^ (w - 1) := Int.natCast_pow 2 (w - 1)
  have hcast' : ((2 ^ w : Nat) : Int) = 2 ^ w := Int.natCast_pow 2 w
  have hmin : (BitVec.ofInt w (-2 ^ (w - 1))).toNat = 2 ^ (w - 1) := by
    have hmod : (-2 ^ (w - 1) : Int) % (2 ^ w : Nat) = 2 ^ (w - 1) := by
      rw [Int.emod_eq_iff (by omega)]
      refine ⟨by omega, by omega, ⟨1, by omega⟩⟩
    rw [BitVec.toNat_ofInt, hmod]
    omega
  have htoInt := BitVec.toInt_eq_toNat_cond (n.eval values)
  have hlt := (n.eval values).isLt
  refine congrArg BitVec.ofBool ?_
  rw [Bool.eq_iff_iff, decide_eq_true_eq, decide_eq_true_eq, eval_nirImmIntN, h.uIntNMin_eq, hmin]
  split at htoInt <;> omega

theorem eval_buildImod_intMin (h : BitSize w) :
    (Scalar.bcsel (.bin .ior (.compare .ult (nirImmIntN (uIntNMin w)) n) (nirCompareImm .ieq n 0)) n
      (.bin .iadd (nirImmIntN (uIntNMin w)) n)).eval values =
      BitVec.ofInt w ((n.eval values).toInt.fmod (-2 ^ (w - 1))) := by
  have hx := BitVec.le_toInt (n.eval values)
  have hx' : (n.eval values).toInt < 2 ^ (w - 1) := BitVec.toInt_lt
  have hpos : (0 : Int) < 2 ^ (w - 1) := by positivity
  have hword : (2 : Int) ^ w = 2 * 2 ^ (w - 1) := by
    have hnat := h.two_pow_eq
    exact_mod_cast hnat
  rw [eval_ior_compare values _ _ (eval_ult_intMin values n h) (eval_ieq_zero values n),
    Scalar.eval, eval_nirImmIntN, h.uIntNMin_eq, fmod_eq, Int.tmod_def, tdiv_intMin hx hx']
  show (if _ then n.eval values else BitVec.ofInt w (-2 ^ (w - 1)) + n.eval values) = _
  generalize hX : (n.eval values).toInt = x at *
  have hself : n.eval values = BitVec.ofInt w x := by rw [← hX, BitVec.ofInt_toInt]
  rw [hself, ← BitVec.ofInt_add]
  by_cases hmin : x = -2 ^ (w - 1)
  · -- the sum wraps around to zero
    have hzero : BitVec.ofInt w (-2 ^ (w - 1) + x) = BitVec.ofInt w 0 := by
      rw [← ofInt_emod, hmin]
      congr 1
      rw [show (-2 ^ (w - 1) + -2 ^ (w - 1) : Int) = 2 ^ w * -1 by omega]
      exact Int.mul_emod_right _ _
    rw [if_neg (by omega), hzero, if_pos hmin, Int.mul_one, if_pos (.inl (by omega))]
    congr 1
    omega
  · rw [if_neg hmin, Int.mul_zero, Int.sub_zero]
    by_cases hneg : x ≤ 0
    · rw [if_pos (by omega), if_pos (by omega)]
    · rw [if_neg (by omega), if_neg (by omega), Int.add_comm]

theorem ofInt_inj_of_range (h : BitSize w) {a b : Int} (ha : -2 ^ (w - 1) ≤ a)
    (ha' : a < 2 ^ (w - 1)) (hb : -2 ^ (w - 1) ≤ b) (hb' : b < 2 ^ (w - 1)) :
    BitVec.ofInt w a = BitVec.ofInt w b ↔ a = b := by
  rw [← BitVec.toInt_inj, toInt_ofInt h ha ha', toInt_ofInt h hb hb']

/-- The bits above a negative power of two are set, and a multiple of it is zero. -/
theorem eval_buildImod_neg_pot (h : BitSize w) {k : Nat} (hk : k < w - 1) :
    (Scalar.bcsel (.compare .ieq (.bin .ior n (nirImmIntN (-2 ^ k))) (nirImmIntN (-2 ^ k)))
      (nirImmIntN 0) (.bin .ior n (nirImmIntN (-2 ^ k)))).eval values =
      BitVec.ofInt w ((n.eval values).toInt.fmod (-2 ^ k)) := by
  have hpos : (0 : Int) < 2 ^ k := by positivity
  have hlt : (2 : Int) ^ k < 2 ^ (w - 1) := by
    have hnat : 2 ^ k < 2 ^ (w - 1) := Nat.pow_lt_pow_right (by decide) hk
    exact_mod_cast hnat
  have hnonneg := Int.emod_nonneg (n.eval values).toInt hpos.ne'
  have hbelow := Int.emod_lt_of_pos (n.eval values).toInt hpos
  have hres : (Scalar.bin .ior n (nirImmIntN (-2 ^ k))).eval values =
      BitVec.ofInt w ((n.eval values).toInt % 2 ^ k + -2 ^ k) := by
    rw [← or_neg_two_pow (by omega), BitVec.ofInt_toInt, ← eval_nirImmIntN values]
    rfl
  have hcompare : (Scalar.compare .ieq (.bin .ior n (nirImmIntN (-2 ^ k)))
      (nirImmIntN (-2 ^ k))).eval values =
      BitVec.ofBool (decide ((n.eval values).toInt % 2 ^ k = 0)) := by
    rw [Scalar.eval, hres, eval_nirImmIntN]
    refine congrArg BitVec.ofBool ?_
    rw [Bool.eq_iff_iff, beq_iff_eq, decide_eq_true_eq,
      ofInt_inj_of_range h (by omega) (by omega) (by omega) (by omega)]
    omega
  rw [Scalar.eval, hcompare, hres, eval_nirImmIntN, Int.fmod_eq_emod, Int.emod_neg]
  simp only [ofBool_eq_one, decide_eq_true_eq, Int.dvd_iff_emod_eq_zero, Int.emod_neg]
  split
  next hzero => rw [if_pos (.inr hzero), hzero, Int.add_zero]
  next hne => rw [if_neg (by omega)]

/-- The remainder's sign is made the divisor's. -/
theorem eval_buildImod_rem (h : BitSize w) {d : Int} (hd : -2 ^ (w - 1) ≤ d)
    (hd' : d < 2 ^ (w - 1)) (hne : d ≠ 0) {rem : Scalar w}
    (hrem : rem.eval values = BitVec.ofInt w ((n.eval values).toInt.tmod d)) :
    (Scalar.bcsel (.bin .ior (.compare .ieq rem (nirImmIntN 0))
      (if d < 0 then .compare .ilt n (nirImmIntN 0) else .compare .ige n (nirImmIntN 0))) rem
      (nirIaddImm rem d)).eval values = BitVec.ofInt w ((n.eval values).toInt.fmod d) := by
  have hlow := Int.lt_tmod_of_pos (n.eval values).toInt (b := d.natAbs) (by omega)
  have hhigh := Int.tmod_lt_of_pos (n.eval values).toInt (b := d.natAbs) (by omega)
  rw [tmod_natAbs] at hlow hhigh
  have hzero : (Scalar.compare .ieq rem (nirImmIntN 0)).eval values =
      BitVec.ofBool (decide ((n.eval values).toInt.tmod d = 0)) := by
    rw [← toInt_ofInt h (by omega : -2 ^ (w - 1) ≤ (n.eval values).toInt.tmod d) (by omega), ← hrem]
    exact eval_ieq_zero values rem
  have hsame : (if d < 0 then Scalar.compare .ilt n (nirImmIntN 0)
      else .compare .ige n (nirImmIntN 0)).eval values =
      BitVec.ofBool (decide (0 ≤ (n.eval values).toInt ↔ 0 ≤ d)) := by
    have hz : (nirImmIntN 0 : Scalar w).eval values = 0#w := by rw [eval_nirImmIntN, ofInt_zero]
    split
    next hneg =>
      refine congrArg BitVec.ofBool ?_
      rw [Bool.eq_iff_iff, decide_eq_true_eq, decide_eq_true_eq, hz, BitVec.toInt_zero]
      omega
    next hneg =>
      refine congrArg BitVec.ofBool ?_
      rw [Bool.eq_iff_iff, decide_eq_true_eq, decide_eq_true_eq, hz, BitVec.toInt_zero]
      omega
  rw [eval_ior_compare values _ _ hzero hsame, fmod_eq, eval_nirIaddImm, hrem, ← BitVec.ofInt_add]
  split <;> rfl

theorem eval_buildImod (h : BitSize w) {d : Int} (hd : -2 ^ (w - 1) ≤ d) (hd' : d < 2 ^ (w - 1)) :
    (buildImod lowerBitops n d).eval values =
      BinOp.imod.eval (n.eval values) (BitVec.ofInt w d) := by
  have hw := h.three_le
  have hcast : ((2 ^ (w - 1) : Nat) : Int) = 2 ^ (w - 1) := Int.natCast_pow 2 (w - 1)
  rw [buildImod]
  split
  next hzero =>
    rw [hzero, eval_nirImmIntN, ofInt_zero, BinOp.eval]
    exact (if_pos (.inl rfl)).symm
  next hzero =>
    rw [imod_eq h _ hd hd' hzero, h.uIntNMin_eq]
    split
    next hmin =>
      rw [hmin, ← h.uIntNMin_eq]
      exact (eval_buildImod_intMin values n h).trans (by rw [h.uIntNMin_eq])
    next hmin =>
      split
      next hpot =>
        obtain ⟨k, hk⟩ := (utilIsPowerOfTwoOrZero64_iff (by omega)).mp hpot.2
        have hlt : 2 ^ k < 2 ^ (w - 1) := by omega
        have hkw : k < w - 1 := (Nat.pow_lt_pow_iff_right (by decide)).mp hlt
        have hb : ((2 ^ k : Nat) : Int) = 2 ^ k := Int.natCast_pow 2 k
        obtain rfl : d = 2 ^ k := by omega
        rw [eval_nirIandImm, ← BitVec.ofInt_toInt (x := n.eval values), and_mask (by omega),
          BitVec.ofInt_toInt, Int.fmod_eq_emod_of_nonneg _ hpot.1.le]
      next hpos =>
        split
        next hpot =>
          obtain ⟨k, hk⟩ := (utilIsPowerOfTwoOrZero64_iff (by omega)).mp hpot.2
          have hlt : 2 ^ k < 2 ^ (w - 1) := by omega
          have hkw : k < w - 1 := (Nat.pow_lt_pow_iff_right (by decide)).mp hlt
          have hb : ((2 ^ k : Nat) : Int) = 2 ^ k := Int.natCast_pow 2 k
          obtain rfl : d = -2 ^ k := by omega
          exact eval_buildImod_neg_pot values n h hkw
        next hneg =>
          refine eval_buildImod_rem values n h hd hd' hzero ?_
          rw [eval_buildIrem values n lowerBitops h hd hd', irem_eq h _ hd hd' hzero]

end Remainders

end Psbc.Nir
