import Mathlib.Data.Nat.Notation

/-!
# Computations that can fail

Inversion of successful `Except` computations: a successful sequence is two
successful parts, and so is a successful fold over a list with a head. A map whose
function succeeds under a guard succeeds when all elements pass it.
-/

namespace Fallible

variable {ε α β : Type}

theorem bind_eq_ok {x : Except ε α} {f : α → Except ε β} {b : β} :
    x >>= f = .ok b ↔ ∃ a, x = .ok a ∧ f a = .ok b := by
  cases x with
  | error e => simp [bind, Except.bind]
  | ok a => simp [bind, Except.bind]

theorem bind_assoc {γ : Type} (x : Except ε α) (f : α → Except ε β) (g : β → Except ε γ) :
    (x.bind f).bind g = x.bind fun a => (f a).bind g := by
  cases x <;> rfl

theorem ok_bind (a : α) (f : α → Except ε β) : (Except.ok a).bind f = f a := rfl

theorem bind_ok (x : Except ε Unit) : (x.bind fun _ => .ok ()) = x := by
  cases x <;> rfl

theorem foldlM_cons_eq_ok {f : β → α → Except ε β} {a : α} {l : List α} {b b' : β} :
    (a :: l).foldlM f b = .ok b' ↔ ∃ c, f b a = .ok c ∧ l.foldlM f c = .ok b' := by
  rw [List.foldlM_cons, bind_eq_ok]

theorem mapM_guard {f : α → Option β} {P : α → Prop} {g : α → β} {l : List α}
    (h : ∀ a ∈ l, ∀ b, f a = some b ↔ P a ∧ b = g a) {bs : List β} :
    l.mapM f = some bs ↔ (∀ a ∈ l, P a) ∧ bs = l.map g := by
  induction l generalizing bs with
  | nil => simp [eq_comm]
  | cons a l ih =>
    have hhead := h a List.mem_cons_self
    have htail : ∀ bs, l.mapM f = some bs ↔ (∀ a ∈ l, P a) ∧ bs = l.map g := fun _ =>
      ih fun b hb => h b (List.mem_cons_of_mem a hb)
    rw [List.mapM_cons]
    simp only [Option.bind_eq_bind, Option.bind_eq_some_iff, hhead, htail, Option.pure_def,
      Option.some.injEq, List.forall_mem_cons, List.map_cons]
    constructor
    · rintro ⟨b, ⟨ha, rfl⟩, bs', ⟨hl, rfl⟩, rfl⟩
      exact ⟨⟨ha, hl⟩, rfl⟩
    · rintro ⟨⟨ha, hl⟩, rfl⟩
      exact ⟨_, ⟨ha, rfl⟩, _, ⟨hl, rfl⟩, rfl⟩

end Fallible
