import Mathlib.Data.List.Nodup
import Mathlib.Logic.Function.Basic

/-!
# Slots and what they hold

An array of slots that hold something or nothing, and the list of what they hold. A change of one
slot changes the list by what the slot held and holds, up to order.
-/

namespace Slots

variable {β γ : Type} {f g : Nat → Option β} {l : List Nat} {a : Nat}

def contents (f : Nat → Option β) (l : List Nat) : List β := l.filterMap f

theorem contents_perm (f : Nat → Option β) (ha : a ∈ l) :
    (contents f l).Perm ((f a).toList ++ contents f (l.erase a)) := by
  refine ((List.perm_cons_erase ha).filterMap f).trans ?_
  rw [List.filterMap_cons]
  cases f a <;> exact .refl _

theorem contents_congr (h : ∀ b ∈ l, f b = g b) : contents f l = contents g l :=
  List.filterMap_congr h

theorem contents_change (hl : l.Nodup) (ha : a ∈ l) (h : ∀ b, b ≠ a → f b = g b) :
    ∃ rest, (contents f l).Perm ((f a).toList ++ rest) ∧
      (contents g l).Perm ((g a).toList ++ rest) := by
  refine ⟨contents f (l.erase a), contents_perm f ha, ?_⟩
  have hrest : contents f (l.erase a) = contents g (l.erase a) :=
    contents_congr fun b hb => h b fun hba => hl.not_mem_erase (hba ▸ hb)
  rw [hrest]
  exact contents_perm g ha

theorem mem_contents {b : β} : b ∈ contents f l ↔ ∃ a ∈ l, f a = some b := List.mem_filterMap

theorem length_le {g : Nat → Option γ} (h : ∀ a ∈ l, f a ≠ none ∨ g a ≠ none) :
    l.length ≤ (contents f l).length + (contents g l).length := by
  induction l with
  | nil => exact Nat.zero_le _
  | cons a l ih =>
    obtain ⟨ha, hl⟩ := List.forall_mem_cons.mp h
    have hle := ih hl
    simp only [contents, List.filterMap_cons, List.length_cons] at hle ⊢
    cases hf : f a <;> cases hg : g a <;> simp [hf, hg] at ha ⊢ <;> omega

end Slots
