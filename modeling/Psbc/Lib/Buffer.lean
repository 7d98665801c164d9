import Mathlib.Data.List.GetD

/-!
# Buffers

A buffer is a function from offsets. `write` copies a list into it, `read` takes one out:
what was written is read back (`read_write_self`), and a read that ends before the copy is not
changed by it (`read_write_of_le`).
-/

namespace Buffer

variable {α : Type}

/-- The buffer after a copy of `src` to offset `off`. -/
def write (buf : Nat → α) (off : Nat) (src : List α) : Nat → α := fun a =>
  if off ≤ a then src.getD (a - off) (buf a) else buf a

/-- The `n` elements from offset `off` on. -/
def read (buf : Nat → α) (off n : Nat) : List α := (List.range n).map fun i => buf (off + i)

variable {buf : Nat → α} {off : Nat} {src : List α}

theorem read_write_self : read (write buf off src) off src.length = src := by
  refine List.ext_getElem (by simp [read]) fun i hi hsrc => ?_
  simp only [read, List.getElem_map, List.getElem_range, write, Nat.le_add_right, if_true,
    Nat.add_sub_cancel_left]
  exact List.getD_eq_getElem src _ hsrc

theorem read_write_of_le {o n : Nat} (h : o + n ≤ off) :
    read (write buf off src) o n = read buf o n := by
  refine List.map_congr_left fun i hi => ?_
  have hi := List.mem_range.mp hi
  exact if_neg (by omega)

end Buffer
