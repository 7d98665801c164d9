import Mathlib.Data.Nat.Digits.Defs
import Mathlib.Tactic.Linarith
import Mathlib.Tactic.Ring

/-!
# Products of 32-bit limbs

`bigmath.h` multiplies numbers given by their 32-bit limbs, least significant first, into as many
limbs as the destination has. The high half of a 64-bit product is computed this way.

The destination has the product without what lies above its last limb. The returned flag is only
ever set when something was lost. It may stay clear when more than two limbs of the factors lie
above the destination, since a row is left at the first of them.
-/

namespace Psbc.Util

/-- The inner loop from limb `j` of the second factor on, with the store after it; the loop is left
at the end of the destination. -/
def ubmMulRow (dstLen i a : Nat) :
    List Nat → Nat → Nat → List Nat → Bool → List Nat × Bool
  | [], j, carry, dst, overflow =>
    if i + j < dstLen then (dst.set (i + j) carry, overflow)
    else (dst, overflow || decide (0 < carry))
  | b :: bs, j, carry, dst, overflow =>
    let tmp := (a * b + carry) % 2 ^ 64
    if i + j < dstLen then
      let tmp := (tmp + dst.getD (i + j) 0) % 2 ^ 64
      ubmMulRow dstLen i a bs (j + 1) (tmp / 2 ^ 32) (dst.set (i + j) (tmp % 2 ^ 32)) overflow
    else (dst, overflow || decide (0 < tmp) || decide (0 < carry))

/-- The outer loop from limb `i` of the first factor on. -/
def ubmMulRows (dstLen : Nat) (b : List Nat) : List Nat → Nat → List Nat → Bool → List Nat × Bool
  | [], _, dst, overflow => (dst, overflow)
  | a :: as, i, dst, overflow =>
    let row := ubmMulRow dstLen i a b 0 0 dst overflow
    ubmMulRows dstLen b as (i + 1) row.1 row.2

def ubmMulU32arr (dstLen : Nat) (a b : List Nat) : List Nat × Bool :=
  ubmMulRows dstLen b a 0 (List.replicate dstLen 0) false

example : ubmMulU32arr 4 [4294967295, 4294967295] [4294967295, 4294967295] =
    ([1, 0, 4294967294, 4294967295], false) := by decide

/-- The flag misses a limb behind a zero one. -/
example : ubmMulU32arr 1 [1] [5, 0, 1] = ([5], false) := by decide

/-! ## The value -/

def limbs (l : List Nat) : Nat := Nat.ofDigits (2 ^ 32) l

theorem limbs_cons (x : Nat) (l : List Nat) : limbs (x :: l) = x + 2 ^ 32 * limbs l := by
  rw [limbs, Nat.ofDigits_cons]
  rfl

theorem ofDigits_set (B : Nat) {l : List Nat} {k : Nat} (hk : k < l.length) (x : Nat) :
    Nat.ofDigits B (l.set k x) + l.getD k 0 * B ^ k = Nat.ofDigits B l + x * B ^ k := by
  induction l generalizing k with
  | nil => exact absurd hk (Nat.not_lt_zero k)
  | cons y l ih =>
    cases k with
    | zero =>
      simp only [List.set_cons_zero, Nat.ofDigits_cons, List.getD_cons_zero, pow_zero]
      omega
    | succ k =>
      have hrest := ih (Nat.lt_of_succ_lt_succ hk)
      simp only [List.set_cons_succ, Nat.ofDigits_cons, List.getD_cons_succ]
      calc y + B * Nat.ofDigits B (l.set k x) + l.getD k 0 * B ^ (k + 1)
          = y + B * (Nat.ofDigits B (l.set k x) + l.getD k 0 * B ^ k) := by ring
        _ = y + B * (Nat.ofDigits B l + x * B ^ k) := by rw [hrest]
        _ = y + B * Nat.ofDigits B l + x * B ^ (k + 1) := by ring

theorem limbs_set {l : List Nat} {k : Nat} (hk : k < l.length) (x : Nat) :
    limbs (l.set k x) + l.getD k 0 * (2 ^ 32) ^ k = limbs l + x * (2 ^ 32) ^ k :=
  ofDigits_set (2 ^ 32) hk x

/-- What a row needs of the destination: 32-bit limbs, and none written from `top` on. -/
structure Dst (dstLen top : Nat) (dst : List Nat) : Prop where
  length : dst.length = dstLen
  lt : ∀ k, dst.getD k 0 < 2 ^ 32
  above : ∀ k, top ≤ k → dst.getD k 0 = 0

theorem Dst.set {dstLen top x k : Nat} {dst : List Nat} (h : Dst dstLen top dst) (hk : k < top)
    (hx : x < 2 ^ 32) : Dst dstLen top (dst.set k x) := by
  have hget : ∀ l, (dst.set k x).getD l 0 = if k = l ∧ k < dst.length then x else dst.getD l 0 :=
    fun l => by
      simp only [List.getD_eq_getElem?_getD, List.getElem?_set]
      split
      next heq =>
        subst heq
        split
        next hlt => simp [hlt]
        next hge => simp [hge]
      next hne => rw [if_neg fun h => hne h.1]
  refine ⟨by rw [List.length_set, h.length], fun l => ?_, fun l hl => ?_⟩
  · rw [hget]
    split
    next => exact hx
    next => exact h.lt l
  · rw [hget, if_neg fun heq => by omega, h.above l hl]

theorem Dst.mono {dstLen top top' : Nat} {dst : List Nat} (h : Dst dstLen top dst)
    (hle : top ≤ top') : Dst dstLen top' dst :=
  ⟨h.length, h.lt, fun k hk => h.above k (hle.trans hk)⟩

/-- The loops have stored `total` up to what lay above the destination. The flag is set only when
something did, and always if the factors are `short` enough. -/
structure Stored (dstLen total : Nat) (short : Prop) (overflow : Bool) (result : List Nat × Bool)
    (lost : Nat) : Prop where
  eq : limbs result.1 + (2 ^ 32) ^ dstLen * lost = total
  sound : result.2 = true → overflow = true ∨ 0 < lost
  kept : overflow = true → result.2 = true
  complete : short → 0 < lost → result.2 = true

section Rows

variable {dstLen i a : Nat}

theorem limb_step {a b carry old : Nat} (ha : a < 2 ^ 32) (hb : b < 2 ^ 32)
    (hcarry : carry < 2 ^ 32) (hold : old < 2 ^ 32) :
    ((a * b + carry) % 2 ^ 64 + old) % 2 ^ 64 = a * b + carry + old ∧
      (a * b + carry + old) / 2 ^ 32 < 2 ^ 32 := by
  have hprod : a * b ≤ (2 ^ 32 - 1) * (2 ^ 32 - 1) := Nat.mul_le_mul (by omega) (by omega)
  omega

/-- A value above the destination is lost. -/
theorem stored_lost {dst : List Nat} {short : Prop} {overflow flag : Bool} {x k : Nat}
    (hk : dstLen ≤ k) (hflag : flag = true → overflow = true ∨ 0 < x)
    (hkept : overflow = true → flag = true) (hcomplete : short → 0 < x → flag = true) :
    Stored dstLen (limbs dst + x * (2 ^ 32) ^ k) short overflow (dst, flag)
      (x * (2 ^ 32) ^ (k - dstLen)) where
  eq := by
    have hpow : (2 ^ 32) ^ k = (2 ^ 32) ^ dstLen * (2 ^ 32) ^ (k - dstLen) := by
      rw [← pow_add, Nat.add_sub_cancel' hk]
    rw [hpow, Nat.mul_left_comm]
  sound h := (hflag h).imp_right fun hpos => Nat.mul_pos hpos (Nat.pow_pos (by decide))
  kept := hkept
  complete hshort hpos := hcomplete hshort (Nat.pos_of_mul_pos_right hpos)

/-- The row adds its product to the destination. -/
theorem ubmMulRow_stored (ha : a < 2 ^ 32) {bs : List Nat} (hbs : ∀ b ∈ bs, b < 2 ^ 32)
    {j carry : Nat} {dst : List Nat} (overflow : Bool) (hcarry : carry < 2 ^ 32)
    (hdst : Dst dstLen (i + j + bs.length) dst) :
    Dst dstLen (i + j + bs.length + 1) (ubmMulRow dstLen i a bs j carry dst overflow).1 ∧
      ∃ lost, Stored dstLen (limbs dst + (carry + a * limbs bs) * (2 ^ 32) ^ (i + j))
        (i + j + bs.length ≤ dstLen + 1) overflow (ubmMulRow dstLen i a bs j carry dst overflow)
        lost := by
  induction bs generalizing j carry dst with
  | nil =>
    rw [ubmMulRow, show limbs [] = 0 from rfl, Nat.mul_zero, Nat.add_zero]
    split
    next hlt =>
      have hset := limbs_set (hdst.length.symm ▸ hlt) carry
      rw [hdst.above (i + j) (Nat.le_refl _), Nat.zero_mul, Nat.add_zero] at hset
      exact ⟨(hdst.mono (Nat.le_succ _)).set (Nat.lt_succ_self _) hcarry, 0, hset, .inl, id,
        fun _ => nofun⟩
    next hge =>
      have hflag : (overflow || decide (0 < carry)) = true ↔ overflow = true ∨ 0 < carry := by
        rw [Bool.or_eq_true, decide_eq_true_eq]
      exact ⟨hdst.mono (Nat.le_succ _), _, stored_lost (Nat.le_of_not_lt hge) hflag.mp
        (fun h => hflag.mpr (.inl h)) fun _ h => hflag.mpr (.inr h)⟩
  | cons b bs ih =>
    have hb : b < 2 ^ 32 := hbs b List.mem_cons_self
    rw [List.length_cons] at hdst
    rw [ubmMulRow, limbs_cons, List.length_cons]
    split
    next hlt =>
      obtain ⟨htmp, hnext⟩ := limb_step ha hb hcarry (hdst.lt (i + j))
      rw [htmp]
      generalize htmp' : a * b + carry + dst.getD (i + j) 0 = tmp at hnext
      have hset := limbs_set (hdst.length.symm ▸ hlt) (tmp % 2 ^ 32)
      have hlength : i + (j + 1) + bs.length = i + j + (bs.length + 1) := by omega
      have hdst' : Dst dstLen (i + (j + 1) + bs.length) (dst.set (i + j) (tmp % 2 ^ 32)) := by
        rw [hlength]
        exact hdst.set (by omega) (Nat.mod_lt _ (by decide))
      have htotal : limbs (dst.set (i + j) (tmp % 2 ^ 32)) +
          (tmp / 2 ^ 32 + a * limbs bs) * (2 ^ 32) ^ (i + (j + 1)) =
          limbs dst + (carry + a * (b + 2 ^ 32 * limbs bs)) * (2 ^ 32) ^ (i + j) := by
        have hsplit : (2 ^ 32 * (tmp / 2 ^ 32) + tmp % 2 ^ 32) * (2 ^ 32) ^ (i + j) =
            (a * b + carry + dst.getD (i + j) 0) * (2 ^ 32) ^ (i + j) := by
          rw [Nat.div_add_mod, htmp']
        have hpow : (2 ^ 32) ^ (i + (j + 1)) = (2 ^ 32) ^ (i + j) * 2 ^ 32 := pow_succ _ (i + j)
        rw [hpow]
        generalize (2 ^ 32) ^ (i + j) = P at hset hsplit
        linarith
      have hrest := ih (fun c hc => hbs c (List.mem_cons_of_mem _ hc)) hnext hdst'
      rw [htotal, hlength] at hrest
      exact hrest
    next hge =>
      -- the row is left: its last limb still shows in the flag, the ones after it do not
      have hprod : a * b ≤ (2 ^ 32 - 1) * (2 ^ 32 - 1) := Nat.mul_le_mul (by omega) (by omega)
      have hmod : (a * b + carry) % 2 ^ 64 = a * b + carry := Nat.mod_eq_of_lt (by omega)
      have hflag :
          (overflow || decide (0 < (a * b + carry) % 2 ^ 64) || decide (0 < carry)) = true ↔
            overflow = true ∨ 0 < a * b + carry := by
        rw [hmod, Bool.or_eq_true, Bool.or_eq_true, decide_eq_true_eq, decide_eq_true_eq, or_assoc]
        exact or_congr_right ⟨fun h => h.elim id fun hpos => Nat.add_pos_right _ hpos, .inl⟩
      have hsum : a * b + carry ≤ carry + a * (b + 2 ^ 32 * limbs bs) := by
        rw [Nat.mul_add]
        omega
      refine ⟨hdst.mono (by omega), _, stored_lost (Nat.le_of_not_lt hge)
        (fun h => (hflag.mp h).imp_right fun hpos => hpos.trans_le hsum)
        (fun h => hflag.mpr (.inl h)) fun hshort hpos => hflag.mpr (.inr ?_)⟩
      have hnil : bs = [] := List.eq_nil_of_length_eq_zero (by omega)
      rw [hnil, show limbs [] = 0 from rfl, Nat.mul_zero, Nat.add_zero] at hpos
      omega

theorem ubmMulRows_stored {as bs : List Nat} (has : ∀ a ∈ as, a < 2 ^ 32)
    (hbs : ∀ b ∈ bs, b < 2 ^ 32) {dst : List Nat} (overflow : Bool)
    (hdst : Dst dstLen (i + bs.length) dst) :
    Dst dstLen (i + as.length + bs.length) (ubmMulRows dstLen bs as i dst overflow).1 ∧
      ∃ lost, Stored dstLen (limbs dst + limbs as * limbs bs * (2 ^ 32) ^ i)
        (i + as.length + bs.length ≤ dstLen + 2) overflow
        (ubmMulRows dstLen bs as i dst overflow) lost := by
  induction as generalizing i dst overflow with
  | nil =>
    refine ⟨hdst, 0, ?_, .inl, id, fun _ => nofun⟩
    rw [show limbs [] = 0 from rfl, Nat.zero_mul, Nat.zero_mul]
    rfl
  | cons a as ih =>
    have hdst' : Dst dstLen (i + 0 + bs.length) dst := hdst
    obtain ⟨hrow, lost, hstored⟩ :=
      ubmMulRow_stored (has a List.mem_cons_self) hbs overflow (by decide : 0 < 2 ^ 32) hdst'
    have hnext : Dst dstLen (i + 1 + bs.length) (ubmMulRow dstLen i a bs 0 0 dst overflow).1 :=
      hrow.mono (by omega)
    obtain ⟨hend, lost', hstored'⟩ :=
      ih (fun c hc => has c (List.mem_cons_of_mem _ hc))
        (ubmMulRow dstLen i a bs 0 0 dst overflow).2 hnext
    rw [ubmMulRows, List.length_cons, limbs_cons]
    refine ⟨hend.mono (by omega), lost + lost', ?_, fun h => ?_, fun h => ?_, fun hshort hpos => ?_⟩
    · have hsum := hstored.eq
      have hsum' := hstored'.eq
      have hpow : (2 ^ 32) ^ (i + 1) = (2 ^ 32) ^ i * 2 ^ 32 := pow_succ _ i
      rw [hpow] at hsum'
      rw [Nat.add_zero] at hsum
      generalize (2 ^ 32) ^ i = P at hsum hsum'
      linarith
    · rcases hstored'.sound h with hold | hpos
      · exact (hstored.sound hold).imp_right fun hpos => Nat.add_pos_left hpos _
      · exact .inr (Nat.add_pos_right _ hpos)
    · exact hstored'.kept (hstored.kept h)
    · rcases Nat.eq_zero_or_pos lost with rfl | hlost
      · exact hstored'.complete (by omega) (by omega)
      · exact hstored'.kept (hstored.complete (by omega) hlost)

end Rows

theorem ubmMulU32arr_stored {a b : List Nat} (dstLen : Nat) (ha : ∀ x ∈ a, x < 2 ^ 32)
    (hb : ∀ x ∈ b, x < 2 ^ 32) :
    Dst dstLen (a.length + b.length) (ubmMulU32arr dstLen a b).1 ∧
      ∃ lost, Stored dstLen (limbs a * limbs b) (a.length + b.length ≤ dstLen + 2) false
        (ubmMulU32arr dstLen a b) lost := by
  have hdst : Dst dstLen (0 + b.length) (List.replicate dstLen 0) := by
    have hzero : ∀ k, (List.replicate dstLen 0).getD k 0 = 0 := fun k => by
      simp only [List.getD_eq_getElem?_getD, List.getElem?_replicate]
      split <;> rfl
    exact ⟨List.length_replicate, fun k => by rw [hzero]; decide, fun k _ => hzero k⟩
  have hzero : limbs (List.replicate dstLen 0) = 0 := Nat.ofDigits_replicate_zero
  have hrows := ubmMulRows_stored ha hb false hdst
  rw [hzero, Nat.zero_add, Nat.zero_add, pow_zero, Nat.mul_one] at hrows
  exact hrows

theorem Dst.limb_lt {dstLen top : Nat} {dst : List Nat} (h : Dst dstLen top dst) :
    ∀ x ∈ dst, x < 2 ^ 32 := fun x hx => by
  obtain ⟨k, hk, rfl⟩ := List.getElem_of_mem hx
  have hget := h.lt k
  rw [List.getD_eq_getElem?_getD, List.getElem?_eq_getElem hk] at hget
  exact hget

theorem Dst.limbs_lt {dstLen top : Nat} {dst : List Nat} (h : Dst dstLen top dst) :
    limbs dst < (2 ^ 32) ^ dstLen := by
  have hlen := Nat.ofDigits_lt_base_pow_length (by decide) h.limb_lt
  rw [h.length] at hlen
  exact hlen

theorem limbs_ubmMulU32arr {a b : List Nat} (dstLen : Nat) (ha : ∀ x ∈ a, x < 2 ^ 32)
    (hb : ∀ x ∈ b, x < 2 ^ 32) :
    limbs (ubmMulU32arr dstLen a b).1 = limbs a * limbs b % (2 ^ 32) ^ dstLen := by
  obtain ⟨hend, lost, hstored⟩ := ubmMulU32arr_stored dstLen ha hb
  rw [← hstored.eq, Nat.add_mul_mod_self_left, Nat.mod_eq_of_lt hend.limbs_lt]

/-- **The product and its flag.** The destination has the limbs of the product as far as it goes;
the flag is set only if the product does not fit, and always then if at most two limbs of the
factors lie above the destination. -/
theorem ubmMulU32arr_product {a b : List Nat} (dstLen : Nat) (ha : ∀ x ∈ a, x < 2 ^ 32)
    (hb : ∀ x ∈ b, x < 2 ^ 32) :
    (ubmMulU32arr dstLen a b).1.length = dstLen ∧ (∀ x ∈ (ubmMulU32arr dstLen a b).1, x < 2 ^ 32) ∧
      limbs (ubmMulU32arr dstLen a b).1 = limbs a * limbs b % (2 ^ 32) ^ dstLen ∧
      ((ubmMulU32arr dstLen a b).2 = true → (2 ^ 32) ^ dstLen ≤ limbs a * limbs b) ∧
      (a.length + b.length ≤ dstLen + 2 → (2 ^ 32) ^ dstLen ≤ limbs a * limbs b →
        (ubmMulU32arr dstLen a b).2 = true) := by
  obtain ⟨hend, lost, hstored⟩ := ubmMulU32arr_stored dstLen ha hb
  have hlt := hend.limbs_lt
  have heq := hstored.eq
  refine ⟨hend.length, hend.limb_lt, limbs_ubmMulU32arr dstLen ha hb, fun h => ?_,
    fun hshort hbig => ?_⟩
  · rcases hstored.sound h with hold | hpos
    · exact absurd hold Bool.false_ne_true
    · rw [← heq]
      exact Nat.le_add_left_of_le (Nat.le_mul_of_pos_right _ hpos)
  · refine hstored.complete (by omega) (Nat.pos_of_ne_zero fun hzero => ?_)
    rw [hzero, Nat.mul_zero] at heq
    omega

/-- The largest square fits four limbs and not three. -/
theorem ubmMulU32arr_product_largest :
    limbs (ubmMulU32arr 4 [4294967295, 4294967295] [4294967295, 4294967295]).1 =
        (2 ^ 64 - 1) * (2 ^ 64 - 1) ∧
      (ubmMulU32arr 3 [4294967295, 4294967295] [4294967295, 4294967295]).2 = true := by
  have hlimbs : ∀ x ∈ [4294967295, 4294967295], x < 2 ^ 32 := by decide
  refine ⟨(ubmMulU32arr_product 4 hlimbs hlimbs).2.2.1.trans (by decide), ?_⟩
  exact (ubmMulU32arr_product 3 hlimbs hlimbs).2.2.2.2 (by decide) (by decide)

end Psbc.Util
