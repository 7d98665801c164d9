import Mathlib.Algebra.BigOperators.Group.Finset.Basic

/-!
# Packing requests behind one another

Members of a set `S` take units from a common sequence `0, 1, 2, …`, of which only a
number that satisfies `P` can be had: member `i` wants `want i` units and has the
`len i` units from `base i` on. `Packed` says that what they have is the first `E` units,
no unit twice, and that nobody had to do with less unless the sequence is used up.
`Packed.insert` adds a member who takes the most that can still be had.
-/

variable {ι : Type} [DecidableEq ι]

/-- The members of `S` have the first `E` units, and more can be had only if nobody
wants more. -/
structure Packed (P : Nat → Prop) (S : Finset ι) (want len base : ι → Nat) (E : Nat) : Prop where
  total : ∑ i ∈ S, len i = E
  fits : P E
  within : ∀ i ∈ S, 0 < len i → base i + len i ≤ E
  apart : ∀ i ∈ S, ∀ j ∈ S, i ≠ j → 0 < len i → 0 < len j →
    base i + len i ≤ base j ∨ base j + len j ≤ base i
  most : (∀ i ∈ S, len i = want i) ∨ ¬ P (E + 1)

namespace Packed

variable {P : Nat → Prop} {S : Finset ι} {want len base : ι → Nat} {E : Nat}

omit [DecidableEq ι] in
theorem empty (h : P 0) : Packed P (∅ : Finset ι) want len base 0 where
  total := rfl
  fits := h
  within _ hi := absurd hi (Finset.notMem_empty _)
  apart _ hi := absurd hi (Finset.notMem_empty _)
  most := .inl fun _ hi => absurd hi (Finset.notMem_empty _)

omit [DecidableEq ι] in
theorem congr {len' base' : ι → Nat} (h : Packed P S want len base E)
    (hlen : ∀ i ∈ S, len' i = len i) (hbase : ∀ i ∈ S, base' i = base i) :
    Packed P S want len' base' E where
  total := (Finset.sum_congr rfl hlen).trans h.total
  fits := h.fits
  within i hi := by rw [hlen i hi, hbase i hi]; exact h.within i hi
  apart i hi j hj := by
    rw [hlen i hi, hlen j hj, hbase i hi, hbase j hj]
    exact h.apart i hi j hj
  most := h.most.imp_left fun hall i hi => (hlen i hi).trans (hall i hi)

omit [DecidableEq ι] in
/-- Where more can be had, everybody has what they want. -/
theorem all_of_fits (h : Packed P S want len base E) (hP : ∀ {c c'}, P c → c' ≤ c → P c') {c : Nat}
    (hc : 0 < c) (hfits : P (E + c)) : ∀ i ∈ S, len i = want i :=
  h.most.resolve_right fun hstop => hstop (hP hfits (by omega))

/-- A member who takes the most that can still be had. -/
theorem insert {i : ι} (h : Packed P S want len base E) (hP : ∀ {c c'}, P c → c' ≤ c → P c')
    (hi : i ∉ S) (hle : len i ≤ want i) (hbase : 0 < len i → base i = E)
    (hfits : 0 < len i → P (E + len i))
    (hmost : (∀ j ∈ S, len j = want j) → len i < want i → ¬ P (E + len i + 1)) :
    Packed P (insert i S) want len base (E + len i) := by
  refine ⟨?_, ?_, fun j hj hpos => ?_, fun j hj k hk hjk hj0 hk0 => ?_, ?_⟩
  · rw [Finset.sum_insert hi, h.total, Nat.add_comm]
  · rcases Nat.eq_zero_or_pos (len i) with hzero | hpos
    · rw [hzero]; exact h.fits
    · exact hfits hpos
  · rcases Finset.mem_insert.mp hj with rfl | hj
    · rw [hbase hpos]
    · have := h.within j hj hpos; omega
  · rcases Finset.mem_insert.mp hj with rfl | hjS <;>
      rcases Finset.mem_insert.mp hk with rfl | hkS
    · exact absurd rfl hjk
    · have := h.within k hkS hk0; have := hbase hj0; omega
    · have := h.within j hjS hj0; have := hbase hk0; omega
    · exact h.apart j hjS k hkS hjk hj0 hk0
  · -- either somebody went short before, and `i` gets nothing, or `i` decides
    rcases h.most with hall | hstop
    · rcases hle.lt_or_eq with hlt | heq
      · exact .inr (hmost hall hlt)
      · refine .inl fun j hj => ?_
        rcases Finset.mem_insert.mp hj with rfl | hj
        · exact heq
        · exact hall j hj
    · have hzero : len i = 0 := Nat.eq_zero_of_not_pos fun hpos =>
        hstop (hP (hfits hpos) (by omega))
      rw [hzero]
      exact .inr hstop

end Packed
