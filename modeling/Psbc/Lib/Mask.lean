import Mathlib.Order.Interval.Finset.Nat
import Mathlib.Data.Nat.Count
import Mathlib.Data.Nat.Size

/-!
# Bit masks as sets of indices

A mask `m : BitVec w` is the set of the indices of its set bits. `popcount` is its
size; `rank m k` counts the set bits below `k`, which is the index a set bit `k`
gets when the set bits are numbered upwards. `lastBit` is the span the set bits take.
-/

namespace Mask

variable {w : Nat}

/-- The set bits, upwards. -/
def bits (m : BitVec w) : List Nat := (List.range w).filter m.getLsbD

/-- The number of set bits below `k`. -/
def rank (m : BitVec w) (k : Nat) : Nat := Nat.count (fun i => m.getLsbD i = true) k

def popcount (m : BitVec w) : Nat := rank m w

theorem popcount_pos {m : BitVec w} {i : Nat} (h : m.getLsbD i = true) : 0 < popcount m := by
  refine Nat.pos_of_ne_zero fun hzero => ?_
  exact Nat.count_iff_forall_not.mp hzero i (BitVec.lt_of_getLsbD h) h

@[simp]
theorem mem_bits {m : BitVec w} {i : Nat} : i ∈ bits m ↔ m.getLsbD i = true := by
  simp only [bits, List.mem_filter, List.mem_range, and_iff_right_iff_imp]
  exact BitVec.lt_of_getLsbD

/-! ## Setting and clearing bits -/

/-- `m |= 1 << i`. -/
def setBit (m : BitVec w) (i : Nat) : BitVec w := m ||| (1#w <<< i)

/-- `m &= ~(1 << i)`. -/
def clearBit (m : BitVec w) (i : Nat) : BitVec w := m &&& ~~~(1#w <<< i)

def setBits (m : BitVec w) (l : List Nat) : BitVec w := l.foldl setBit m

theorem getLsbD_one_shiftLeft {i j : Nat} :
    (1#w <<< i).getLsbD j = true ↔ j = i ∧ j < w := by
  simp only [BitVec.getLsbD_shiftLeft, Bool.and_eq_true, decide_eq_true_eq, Bool.not_eq_true',
    decide_eq_false_iff_not, BitVec.getLsbD_one]
  omega

theorem getLsbD_setBit {m : BitVec w} {i j : Nat} :
    (setBit m i).getLsbD j = true ↔ m.getLsbD j = true ∨ j = i ∧ j < w := by
  rw [setBit, BitVec.getLsbD_or, Bool.or_eq_true, getLsbD_one_shiftLeft]

theorem getLsbD_clearBit {m : BitVec w} {i j : Nat} :
    (clearBit m i).getLsbD j = true ↔ m.getLsbD j = true ∧ j ≠ i := by
  have hbit := getLsbD_one_shiftLeft (w := w) (i := i) (j := j)
  rw [clearBit, BitVec.getLsbD_and, BitVec.getLsbD_not, Bool.and_eq_true, Bool.and_eq_true,
    decide_eq_true_eq, Bool.not_eq_true']
  constructor
  · rintro ⟨hm, hj, hclear⟩
    refine ⟨hm, fun heq => ?_⟩
    rw [hbit.mpr ⟨heq, hj⟩] at hclear
    exact absurd hclear (by decide)
  · rintro ⟨hm, hne⟩
    refine ⟨hm, BitVec.lt_of_getLsbD hm, ?_⟩
    exact Bool.eq_false_iff.mpr fun hset => hne (hbit.mp hset).1

theorem getLsbD_setBits {m : BitVec w} {l : List Nat} {j : Nat} :
    (setBits m l).getLsbD j = true ↔ m.getLsbD j = true ∨ j ∈ l ∧ j < w := by
  induction l generalizing m with
  | nil => simp [setBits]
  | cons i l ih =>
    rw [setBits, List.foldl_cons, ← setBits, ih, getLsbD_setBit, List.mem_cons]
    grind

theorem setBits_perm {m : BitVec w} {l l' : List Nat} (h : l'.Perm l) :
    setBits m l' = setBits m l := by
  refine BitVec.eq_of_getLsbD_eq fun i _ => ?_
  rw [Bool.eq_iff_iff, getLsbD_setBits, getLsbD_setBits, h.mem_iff]

theorem ne_zero_iff {m : BitVec w} : m ≠ 0 ↔ ∃ i, m.getLsbD i = true := by
  constructor
  · intro hne
    refine Classical.byContradiction fun hnone => hne (BitVec.eq_of_getLsbD_eq fun i _ => ?_)
    rw [Bool.eq_false_iff.mpr fun hi => hnone ⟨i, hi⟩]
    exact (BitVec.getLsbD_zero).symm
  · rintro ⟨i, hi⟩ rfl
    exact absurd hi (by simp)

/-! ## Numbering the set bits -/

section

variable {m : BitVec w} {i j : Nat}

theorem popcount_le (m : BitVec w) : popcount m ≤ w := Nat.count_le _

theorem rank_lt_popcount (h : m.getLsbD i = true) : rank m i < popcount m :=
  Nat.count_strict_mono h (BitVec.lt_of_getLsbD h)

theorem rank_inj (hi : m.getLsbD i = true) (hj : m.getLsbD j = true)
    (h : rank m i = rank m j) : i = j :=
  Nat.count_injective hi hj h

theorem rank_add {n : Nat} (h : ∀ k < n, m.getLsbD (i + k) = true) :
    rank m (i + n) = rank m i + n := by
  induction n with
  | zero => rfl
  | succ n ih =>
    have hbit : m.getLsbD (i + n) = true := h n (Nat.lt_succ_self n)
    have hrun := ih fun k hk => h k (Nat.lt_succ_of_lt hk)
    unfold rank at hrun ⊢
    rw [← Nat.add_assoc, Nat.count_succ, if_pos hbit, hrun, Nat.add_assoc]

end

/-! ## The span of a mask -/

/-- One above the highest set bit. -/
def lastBit (m : BitVec w) : Nat := m.toNat.size

section

variable {m m' : BitVec w}

theorem rank_le_rank (h : ∀ i, m.getLsbD i = true → m'.getLsbD i = true) (k : Nat) :
    rank m k ≤ rank m' k :=
  Nat.count_mono_left fun i _ => h i

/-- A smaller mask numbers like a larger one up to `k` exactly when they agree below `k`. -/
theorem rank_eq_rank_iff (h : ∀ i, m.getLsbD i = true → m'.getLsbD i = true) (k : Nat) :
    rank m k = rank m' k ↔ ∀ i < k, m'.getLsbD i = true → m.getLsbD i = true := by
  induction k with
  | zero => simp [rank]
  | succ k ih =>
    have hle := rank_le_rank h k
    simp only [rank, Nat.count_succ] at ih hle ⊢
    rw [Nat.forall_lt_succ_right, ← ih]
    by_cases hm : m.getLsbD k = true
    · simp [hm, h k hm]
    · by_cases hm' : m'.getLsbD k = true
      · rw [if_neg hm, if_pos hm']
        exact iff_of_false (by omega) fun hk => hm (hk.2 hm')
      · simp [hm, hm']

end

end Mask
