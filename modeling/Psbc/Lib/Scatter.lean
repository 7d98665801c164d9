import Mathlib.Data.List.Induction
import Mathlib.Data.List.Perm.Basic
import Mathlib.Logic.Function.Basic
import Mathlib.Order.Bounds.Basic
import Mathlib.Order.MinMax

/-!
# Tables filled by a loop

A loop over a list writes one entry of a table in each turn, or raises a running maximum.
`scatter` is the table afterwards: an entry that was written has the value of the last write.
The order of the list does not matter exactly when equal keys are written with equal values
(`scatter_perm_iff`). `highest` is the running maximum.
-/

namespace Scatter

variable {α β κ : Type} [DecidableEq κ]

section

variable (key : α → κ) (val : α → β)

/-- The table `t` after the writes of `l`, in order. -/
def scatter (l : List α) (t : κ → β) : κ → β :=
  l.foldl (fun t a => Function.update t (key a) (val a)) t

@[simp] theorem scatter_nil (t : κ → β) : scatter key val [] t = t := rfl

theorem scatter_cons (a : α) (l : List α) (t : κ → β) :
    scatter key val (a :: l) t = scatter key val l (Function.update t (key a) (val a)) := rfl

theorem scatter_append (l l' : List α) (t : κ → β) :
    scatter key val (l ++ l') t = scatter key val l' (scatter key val l t) :=
  List.foldl_append

end

variable {key : α → κ} {val : α → β} {l : List α} {t : κ → β}

theorem scatter_of_forall_ne {k : κ} (h : ∀ a ∈ l, key a ≠ k) : scatter key val l t k = t k := by
  induction l generalizing t with
  | nil => rfl
  | cons a l ih =>
    obtain ⟨ha, hl⟩ := List.forall_mem_cons.mp h
    rw [scatter_cons, ih hl, Function.update_of_ne (Ne.symm ha)]

theorem scatter_concat (a : α) : scatter key val (l ++ [a]) t (key a) = val a := by
  rw [scatter_append, scatter_cons, scatter_nil, Function.update_self]

theorem scatter_of_mem {a : α} (ha : a ∈ l) (h : ∀ b ∈ l, key b = key a → val b = val a) :
    scatter key val l t (key a) = val a := by
  induction l using List.reverseRecOn with
  | nil => exact absurd ha List.not_mem_nil
  | append_singleton l b ih =>
    rcases eq_or_ne (key b) (key a) with hkey | hkey
    · rw [← hkey, scatter_concat]
      exact h b (by simp) hkey
    · have ha : a ∈ l := by
        rcases List.mem_append.mp ha with ha | ha
        · exact ha
        · exact absurd (congrArg key (List.mem_singleton.mp ha)) (Ne.symm hkey)
      rw [scatter_append, scatter_cons, scatter_nil, Function.update_of_ne (Ne.symm hkey)]
      exact ih ha fun c hc => h c (List.mem_append_left _ hc)

theorem scatter_perm {l' : List α} (hperm : l'.Perm l)
    (h : ∀ a ∈ l, ∀ b ∈ l, key a = key b → val a = val b) :
    scatter key val l' t = scatter key val l t := by
  funext k
  by_cases hk : ∃ a ∈ l, key a = k
  · obtain ⟨a, ha, rfl⟩ := hk
    rw [scatter_of_mem ha fun b hb => h b hb a ha,
      scatter_of_mem (hperm.mem_iff.mpr ha) fun b hb => h b (hperm.mem_iff.mp hb) a ha]
  · have hne : ∀ a ∈ l, key a ≠ k := fun a ha hak => hk ⟨a, ha, hak⟩
    rw [scatter_of_forall_ne hne, scatter_of_forall_ne fun a ha => hne a (hperm.mem_iff.mp ha)]

/-- **The order of the writes does not matter** exactly when equal keys come with equal
values. -/
theorem scatter_perm_iff [DecidableEq α] :
    (∀ l' : List α, l'.Perm l → scatter key val l' t = scatter key val l t) ↔
      ∀ a ∈ l, ∀ b ∈ l, key a = key b → val a = val b := by
  refine ⟨fun h a ha b hb hkey => ?_, fun h l' hperm => scatter_perm hperm h⟩
  -- a member written last decides its key
  have hlast : ∀ c ∈ l, scatter key val l t (key c) = val c := fun c hc => by
    have hperm : (l.erase c ++ [c]).Perm l :=
      (List.perm_append_singleton c _).trans (List.perm_cons_erase hc).symm
    rw [← h _ hperm, scatter_concat]
  rw [← hlast a ha, hkey, hlast b hb]

/-! ## Running maxima -/

/-- The greatest of `n` and the list, as a loop finds it. -/
def highest (n : ℕ) (l : List ℕ) : ℕ := l.foldl max n

theorem isGreatest_highest (n : ℕ) (l : List ℕ) : IsGreatest {m | m = n ∨ m ∈ l} (highest n l) := by
  induction l generalizing n with
  | nil => exact ⟨.inl rfl, fun m hm => (hm.resolve_right List.not_mem_nil).le⟩
  | cons a l ih =>
    obtain ⟨hmem, hup⟩ := ih (max n a)
    have hstep : highest n (a :: l) = highest (max n a) l := rfl
    have hmax : max n a ≤ highest (max n a) l := hup (.inl rfl)
    rw [hstep]
    constructor
    · rcases hmem with heq | hmem
      · rcases max_choice n a with hn | ha
        · exact .inl (heq.trans hn)
        · exact .inr (List.mem_cons.mpr (.inl (heq.trans ha)))
      · exact .inr (List.mem_cons_of_mem a hmem)
    · rintro m (rfl | hm)
      · exact (le_max_left m a).trans hmax
      · rcases List.mem_cons.mp hm with rfl | hm
        · exact (le_max_right n m).trans hmax
        · exact hup (.inr hm)

theorem highest_perm {n : ℕ} {l l' : List ℕ} (h : l'.Perm l) : highest n l' = highest n l := by
  have hset : {m | m = n ∨ m ∈ l'} = {m | m = n ∨ m ∈ l} := by
    ext m
    simp only [Set.mem_ofPred_eq, h.mem_iff]
  exact (hset ▸ isGreatest_highest n l').unique (isGreatest_highest n l)

end Scatter
