import Mathlib.Algebra.GroupWithZero.Nat
import Mathlib.Data.List.Chain
import Mathlib.Order.Lattice

/-!
# Ranges that keep apart

Half-open ranges, given by the places where they start and stop. Whether any two of a list
meet can be told in one sweep: in order of their starts, each has to stop at or before the
place where the next one starts. Together they are not longer than the space they lie in.
-/

namespace Ranges

variable {α β : Type} [LinearOrder β] (start stop : α → β)

/-- One of the two ranges stops before the other starts. -/
def Apart (a b : α) : Prop := stop a ≤ start b ∨ stop b ≤ start a

def sorted (l : List α) : List α := l.mergeSort fun a b => decide (start a ≤ start b)

/-- The sweep: each range stops at or before the start of the next one. -/
def Sweeps (l : List α) : Prop := (sorted start l).IsChain fun a b => stop a ≤ start b

instance (l : List α) : Decidable (Sweeps start stop l) :=
  inferInstanceAs (Decidable (List.IsChain _ _))

variable {start stop}

theorem Apart.symm {a b : α} (h : Apart start stop a b) : Apart start stop b a := Or.symm h

instance : Std.Symm (Apart start stop) := ⟨fun _ _ => Apart.symm⟩

theorem pairwise_sorted (start : α → β) (l : List α) :
    (sorted start l).Pairwise fun a b => start a ≤ start b := by
  refine (List.pairwise_mergeSort ?_ ?_ l).imp fun h => of_decide_eq_true h
  · intro a b c hab hbc
    exact decide_eq_true (le_trans (of_decide_eq_true hab) (of_decide_eq_true hbc))
  · intro a b
    simpa using le_total (start a) (start b)

theorem apart_iff_of_le {a b : α} (hb : start b < stop b) (hab : start a ≤ start b) :
    Apart start stop a b ↔ stop a ≤ start b := by
  refine ⟨fun h => h.resolve_right fun hba => ?_, .inl⟩
  exact absurd (lt_of_lt_of_le hb (le_trans hba hab)) (lt_irrefl _)

/-- Neighbours that keep apart keep all of the sorted list apart. -/
theorem isChain_iff_pairwise {l : List α} (h : ∀ a ∈ l, start a < stop a) :
    (l.IsChain fun a b => stop a ≤ start b) ↔ l.Pairwise fun a b => stop a ≤ start b := by
  -- the relation is transitive once it also says that the first range is not empty
  let next : α → α → Prop := fun a b => start a < stop a ∧ stop a ≤ start b
  have htrans : Trans next next next :=
    ⟨fun hab hbc => ⟨hab.1, le_trans hab.2 (le_trans (le_of_lt hbc.1) hbc.2)⟩⟩
  constructor
  · intro hchain
    have hnext : l.IsChain next := hchain.imp_of_mem_imp fun a b ha _ hab => ⟨h a ha, hab⟩
    exact (List.isChain_iff_pairwise.mp hnext).imp And.right
  · exact List.Pairwise.isChain

/-- **One sweep tells whether any two ranges meet.** -/
theorem pairwise_apart_iff_sweeps {l : List α} (h : ∀ a ∈ l, start a < stop a) :
    l.Pairwise (Apart start stop) ↔ Sweeps start stop l := by
  have hperm : (sorted start l).Perm l := List.mergeSort_perm _ _
  have hsorted : ∀ a ∈ sorted start l, start a < stop a := fun a ha => h a (hperm.mem_iff.mp ha)
  rw [Sweeps, isChain_iff_pairwise hsorted, ← hperm.pairwise_iff Apart.symm]
  have horder := pairwise_sorted start l
  constructor
  · intro hapart
    refine (horder.and hapart).imp_of_mem fun _ hb hab => ?_
    exact (apart_iff_of_le (hsorted _ hb) hab.1).mp hab.2
  · exact List.Pairwise.imp .inl

/-! ## Lengths -/

section Lengths

variable {start stop : α → Nat}

theorem sum_lengths_le_of_ordered {l : List α} {lo hi : Nat} (hlohi : lo ≤ hi)
    (hne : ∀ a ∈ l, start a < stop a) (hlo : ∀ a ∈ l, lo ≤ start a) (hhi : ∀ a ∈ l, stop a ≤ hi)
    (h : l.Pairwise fun a b => stop a ≤ start b) :
    (l.map fun a => stop a - start a).sum + lo ≤ hi := by
  induction l generalizing lo with
  | nil => simpa using hlohi
  | cons a l ih =>
    obtain ⟨ha, hl⟩ := List.pairwise_cons.mp h
    have hne_a := hne a (.head l)
    have hlo_a := hlo a (.head l)
    have htail := ih (hhi a (.head l)) (fun b hb => hne b (.tail a hb)) ha
      (fun b hb => hhi b (.tail a hb)) hl
    rw [List.map_cons, List.sum_cons]
    omega

/-- Ranges that keep apart are together not longer than the space below `hi`. -/
theorem sum_lengths_le {l : List α} {hi : Nat} (hne : ∀ a ∈ l, start a < stop a)
    (hhi : ∀ a ∈ l, stop a ≤ hi) (h : l.Pairwise (Apart start stop)) :
    (l.map fun a => stop a - start a).sum ≤ hi := by
  have hperm : (sorted start l).Perm l := List.mergeSort_perm _ _
  have hne' : ∀ a ∈ sorted start l, start a < stop a := fun a ha => hne a (hperm.mem_iff.mp ha)
  have hordered := (isChain_iff_pairwise hne').mp ((pairwise_apart_iff_sweeps hne).mp h)
  have hsum := sum_lengths_le_of_ordered (Nat.zero_le hi) hne' (fun a _ => Nat.zero_le (start a))
    (fun a ha => hhi a (hperm.mem_iff.mp ha)) hordered
  rwa [(hperm.map _).sum_nat] at hsum

end Lengths

end Ranges
