import Mathlib.Data.Finset.Card
import Mathlib.Data.Finset.Dedup
import Mathlib.Data.List.Perm.Subperm

/-!
# Numbering elements as they come

A table `off : α → Nat` gives the elements met so far the indices `0, 1, …` in the
order they were met, and every other element the value `u`, which is no index.
`Numbers` says that a table numbers exactly the elements of `S`, with `n` the next
index. `assign` gives an element the next index unless it has one; the element
with the last index can be taken out again. A list of `n` distinct numbered
elements lists them all, and its indices are `0, …, n - 1` (`Numbers.perm_range`).
-/

namespace Numbering

variable {α : Type} [DecidableEq α] {u n : Nat} {S : Finset α} {off : α → Nat} {a : α}

omit [DecidableEq α] in
structure Numbers (u : Nat) (S : Finset α) (off : α → Nat) (n : Nat) : Prop where
  mem_iff : ∀ a, off a ≠ u ↔ a ∈ S
  card : S.card = n
  lt : ∀ a ∈ S, off a < n
  inj : ∀ a ∈ S, ∀ b ∈ S, off a = off b → a = b

/-- Give `a` the next index unless it has one. -/
def assign (u : Nat) (st : (α → Nat) × Nat) (a : α) : (α → Nat) × Nat :=
  if st.1 a = u then (Function.update st.1 a st.2, st.2 + 1) else st

omit [DecidableEq α] in
theorem Numbers.empty (u : Nat) : Numbers u (∅ : Finset α) (fun _ => u) 0 where
  mem_iff a := by simp
  card := rfl
  lt a ha := absurd ha (Finset.notMem_empty a)
  inj a ha := absurd ha (Finset.notMem_empty a)

theorem Numbers.update (h : Numbers u S off n) (ha : off a = u) (hn : n < u) :
    Numbers u (insert a S) (Function.update off a n) (n + 1) := by
  have haS : a ∉ S := fun hmem => (h.mem_iff a).mpr hmem ha
  have hne : ∀ b ∈ S, b ≠ a := fun b hb hba => haS (hba ▸ hb)
  refine ⟨fun b => ?_, ?_, fun b hb => ?_, fun b hb c hc hbc => ?_⟩
  · by_cases hba : b = a
    · subst hba
      simpa using hn.ne
    · simp [hba, h.mem_iff b]
  · rw [Finset.card_insert_of_notMem haS, h.card]
  · rcases Finset.mem_insert.mp hb with rfl | hb
    · simp
    · rw [Function.update_of_ne (hne b hb)]
      exact (h.lt b hb).trans (Nat.lt_succ_self n)
  · -- the new index is larger than every index given before
    rcases Finset.mem_insert.mp hb with rfl | hbS <;>
      rcases Finset.mem_insert.mp hc with rfl | hcS
    · rfl
    · rw [Function.update_self, Function.update_of_ne (hne c hcS)] at hbc
      exact absurd (h.lt c hcS) (by omega)
    · rw [Function.update_self, Function.update_of_ne (hne b hbS)] at hbc
      exact absurd (h.lt b hbS) (by omega)
    · rw [Function.update_of_ne (hne b hbS), Function.update_of_ne (hne c hcS)] at hbc
      exact h.inj b hbS c hcS hbc

theorem Numbers.assign {st : (α → Nat) × Nat} (h : Numbers u S st.1 st.2) (a : α)
    (hn : st.2 < u) :
    Numbers u (insert a S) (Numbering.assign u st a).1 (Numbering.assign u st a).2 := by
  unfold Numbering.assign
  split
  · next hnew => exact h.update hnew hn
  · next hold => rwa [Finset.insert_eq_of_mem ((h.mem_iff a).mp hold)]

theorem Numbers.foldl_assign (l : List α) {st : (α → Nat) × Nat} (h : Numbers u S st.1 st.2)
    (hcard : (S ∪ l.toFinset).card < u) :
    Numbers u (S ∪ l.toFinset) (l.foldl (Numbering.assign u) st).1
      (l.foldl (Numbering.assign u) st).2 := by
  induction l generalizing st S with
  | nil => simpa using h
  | cons a l ih =>
    have hS : S ∪ (a :: l).toFinset = insert a S ∪ l.toFinset := by
      ext b; simp
    rw [hS] at hcard ⊢
    have hn : st.2 < u := by
      rw [← h.card]
      refine lt_of_le_of_lt (Finset.card_le_card ?_) hcard
      exact (Finset.subset_insert a S).trans Finset.subset_union_left
    exact ih (h.assign a hn) hcard

theorem Numbers.erase (h : Numbers u S off (n + 1)) (ha : off a = n) (hu : n ≠ u) :
    Numbers u (S.erase a) (Function.update off a u) n := by
  have haS : a ∈ S := (h.mem_iff a).mp (ha ▸ hu)
  refine ⟨fun b => ?_, ?_, fun b hb => ?_, fun b hb c hc hbc => ?_⟩
  · by_cases hba : b = a
    · simp [hba]
    · simp [hba, h.mem_iff b]
  · rw [Finset.card_erase_of_mem haS, h.card, Nat.add_sub_cancel]
  · obtain ⟨hba, hb⟩ := Finset.mem_erase.mp hb
    rw [Function.update_of_ne hba]
    have hne : off b ≠ n := fun hbn => hba (h.inj b hb a haS (hbn.trans ha.symm))
    have := h.lt b hb
    omega
  · obtain ⟨hba, hb⟩ := Finset.mem_erase.mp hb
    obtain ⟨hca, hc⟩ := Finset.mem_erase.mp hc
    rw [Function.update_of_ne hba, Function.update_of_ne hca] at hbc
    exact h.inj b hb c hc hbc

/-- **A list of `n` distinct numbered elements lists them all, with the indices
`0, …, n - 1`.** -/
theorem Numbers.perm_range (h : Numbers u S off n) {l : List α} (hl : l.Nodup)
    (hnum : ∀ a ∈ l, off a ≠ u) (hlen : l.length = n) :
    (l.map off).Perm (List.range n) ∧ ∀ a, off a ≠ u → a ∈ l := by
  have hmem : ∀ a ∈ l, a ∈ S := fun a ha => (h.mem_iff a).mp (hnum a ha)
  have hnodup : (l.map off).Nodup :=
    hl.map_on fun a ha b hb hab => h.inj a (hmem a ha) b (hmem b hb) hab
  have hsub : l.map off ⊆ List.range n := fun i hi => by
    obtain ⟨a, ha, rfl⟩ := List.mem_map.mp hi
    exact List.mem_range.mpr (h.lt a (hmem a ha))
  have hset : l.toFinset = S := by
    refine Finset.eq_of_subset_of_card_le (fun a ha => hmem a (List.mem_toFinset.mp ha)) ?_
    rw [List.toFinset_card_of_nodup hl, hlen, h.card]
  constructor
  · exact (List.subperm_of_subset hnodup hsub).perm_of_length_le (by simp [hlen])
  · intro a ha
    exact List.mem_toFinset.mp (hset ▸ (h.mem_iff a).mp ha)

end Numbering
