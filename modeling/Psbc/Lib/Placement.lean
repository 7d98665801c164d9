import Mathlib.Algebra.GroupWithZero.Nat
import Mathlib.Data.List.Basic

/-!
# Consecutive placement

Items with sizes are laid out one after another, so an item starts at the room the
items before it take. `At` says where an item stands, and that it is the first item of
one kind and the last of another: what a table that keeps its first entry and a table
that keeps its last one then hold of it.
-/

namespace Placement

variable {α : Type} (size : α → Nat)

def total (l : List α) : Nat := (l.map size).sum

@[simp]
theorem total_nil : total size [] = 0 := rfl

@[simp]
theorem total_cons (x : α) (l : List α) : total size (x :: l) = size x + total size l := by
  simp [total]

@[simp]
theorem total_append (l m : List α) : total size (l ++ m) = total size l + total size m := by
  simp [total]

/-- `x` stands at `d` in `l`; no item before it satisfies `q` and none after it `p`. -/
def At (q p : α → Prop) (l : List α) (x : α) (d : Nat) : Prop :=
  ∃ pre post, l = pre ++ x :: post ∧ d = total size pre ∧ (∀ y ∈ pre, ¬ q y) ∧
    ∀ y ∈ post, ¬ p y

variable {size}

section

variable {q p q' p' : α → Prop} {l m : List α} {x y : α} {d e : Nat}

theorem At.mem (h : At size q p l x d) : x ∈ l := by
  obtain ⟨pre, post, rfl, -⟩ := h
  simp

theorem At.forget (h : At size q p l x d) : At size (fun _ => False) (fun _ => False) l x d := by
  obtain ⟨pre, post, hl, hd, -, -⟩ := h
  exact ⟨pre, post, hl, hd, fun _ _ => id, fun _ _ => id⟩

theorem At.end_le (h : At size q p l x d) : d + size x ≤ total size l := by
  obtain ⟨pre, post, rfl, rfl, -⟩ := h
  simp only [total_append, total_cons]
  omega

theorem At.head (hpost : ∀ y ∈ l, ¬ p y) : At size q p (x :: l) x 0 :=
  ⟨[], l, rfl, rfl, by simp, hpost⟩

theorem At.append_right (h : At size q p l x d) (hm : ∀ y ∈ m, ¬ p y) :
    At size q p (l ++ m) x d := by
  obtain ⟨pre, post, rfl, rfl, hpre, hpost⟩ := h
  refine ⟨pre, post ++ m, by simp, rfl, hpre, fun y hy => ?_⟩
  rcases List.mem_append.mp hy with hy | hy
  · exact hpost y hy
  · exact hm y hy

theorem At.append_left (h : At size q p l x d) (hm : ∀ y ∈ m, ¬ q y) :
    At size q p (m ++ l) x (total size m + d) := by
  obtain ⟨pre, post, rfl, rfl, hpre, hpost⟩ := h
  refine ⟨m ++ pre, post, by simp, by simp, fun y hy => ?_, hpost⟩
  rcases List.mem_append.mp hy with hy | hy
  · exact hm y hy
  · exact hpre y hy

theorem At.size_head_le (h : At size q p (y :: l) x d) (hne : x ≠ y) : size y ≤ d := by
  obtain ⟨pre, post, heq, rfl, -⟩ := h
  cases pre with
  | nil => exact absurd (List.cons.inj heq).1.symm hne
  | cons z pre =>
    obtain ⟨rfl, -⟩ := List.cons.inj heq
    simp

theorem At.head_eq_zero (h : At size q p (x :: l) x d) (hq : q x) : d = 0 := by
  obtain ⟨pre, post, heq, rfl, hpre, -⟩ := h
  cases pre with
  | nil => rfl
  | cons z pre =>
    obtain ⟨rfl, -⟩ := List.cons.inj heq
    exact absurd hq (hpre x (by simp))

/-- Two different items never share room. -/
theorem At.disjoint (hx : At size q p l x d) (hy : At size q' p' l y e) (hne : x ≠ y) :
    d + size x ≤ e ∨ e + size y ≤ d := by
  obtain ⟨pre, post, rfl, rfl, -⟩ := hx
  obtain ⟨pre', post', heq, rfl, -⟩ := hy
  -- one of the two prefixes extends the other, by at least the item it ends before
  rcases List.append_eq_append_iff.mp heq with ⟨gap, rfl, hgap⟩ | ⟨gap, rfl, hgap⟩
  · cases gap with
    | nil => simp_all
    | cons z gap =>
      obtain ⟨rfl, -⟩ := List.cons.inj hgap
      simp only [total_append, total_cons]
      omega
  · cases gap with
    | nil => simp_all
    | cons z gap =>
      obtain ⟨rfl, -⟩ := List.cons.inj hgap
      simp only [total_append, total_cons]
      omega

end

/-! ## Items that may be left out -/

variable (size) in
/-- `x` stands somewhere in `l` as `At` says, or nothing in `l` satisfies `p`. -/
def Settled (q p : α → Prop) (l : List α) (x : α) : Prop :=
  (∃ d, At size q p l x d) ∨ ∀ y ∈ l, ¬ p y

section

variable {q p : α → Prop} {l m : List α} {x : α}

theorem forall_mem_ite {c : Bool} (h : p x) : ∀ y ∈ (if c then [x] else []), p y := by
  cases c with
  | false => simp
  | true => simpa using h

theorem settled_ite (c : Bool) : Settled size q p (if c then [x] else []) x := by
  cases c with
  | false => exact .inr (by simp)
  | true => exact .inl ⟨0, At.head (by simp)⟩

theorem Settled.append_right (h : Settled size q p l x) (hm : ∀ y ∈ m, ¬ p y) :
    Settled size q p (l ++ m) x := by
  rcases h with ⟨d, h⟩ | h
  · exact .inl ⟨d, h.append_right hm⟩
  · exact .inr fun y hy => (List.mem_append.mp hy).elim (h y) (hm y)

theorem Settled.append_left (h : Settled size q p l x) (hq : ∀ y ∈ m, ¬ q y)
    (hp : ∀ y ∈ m, ¬ p y) : Settled size q p (m ++ l) x := by
  rcases h with ⟨d, h⟩ | h
  · exact .inl ⟨_, h.append_left hq⟩
  · exact .inr fun y hy => (List.mem_append.mp hy).elim (hp y) (h y)

end

end Placement
