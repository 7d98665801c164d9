import Mathlib.Order.Basic

/-!
# Cells of nested records

A memory of bytes holds records at a stride; a record holds smaller records at a smaller
stride, down to cells of `w` bytes. As long as each cell ends inside its record, two cells
are apart when their records differ or when they are apart inside the record, and the
cells of the first `n` records end within `n` strides.
-/

namespace Cells

variable {w a b c i j n stride x y : Nat}

/-- The `w` bytes from `a` on and the `w` bytes from `b` on do not meet. -/
def Apart (w a b : Nat) : Prop := a + w ≤ b ∨ b + w ≤ a

theorem Apart.ne (hw : 0 < w) (h : Apart w a b) : a ≠ b := by
  unfold Apart at h
  omega

theorem Apart.add_left (c : Nat) (h : Apart w a b) : Apart w (c + a) (c + b) := by
  unfold Apart at h ⊢
  omega

theorem end_le (hi : i < n) (hx : x + w ≤ stride) : i * stride + x + w ≤ n * stride := by
  calc i * stride + x + w
      ≤ i * stride + stride := by omega
    _ = (i + 1) * stride := (Nat.succ_mul i stride).symm
    _ ≤ n * stride := Nat.mul_le_mul_right stride hi

theorem apart_record (hx : x + w ≤ stride) (hy : y + w ≤ stride) (h : i ≠ j ∨ Apart w x y) :
    Apart w (i * stride + x) (j * stride + y) := by
  rcases Nat.lt_trichotomy i j with hij | rfl | hij
  · have hend := end_le hij hx
    exact .inl (by omega)
  · exact (h.resolve_left fun hne => hne rfl).add_left _
  · have hend := end_le hij hy
    exact .inr (by omega)

end Cells
