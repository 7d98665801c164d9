import Mathlib.Data.List.Basic
import Mathlib.Algebra.Group.Nat.Even

/-!
# Little-endian fields in byte strings

`leBytes k v` is the `k`-byte little-endian encoding of `v`, `leVal` reads one
back, and `slice` cuts a field out of a byte string. A byte string built by
appending parts of known length is read back part by part (`slice_append_right`,
`slice_mid`), a table of entries of one size entry by entry (`entries_mid`).
-/

namespace Bytes

abbrev Byte := BitVec 8

/-- The low `k` bytes of `v`, least significant first. -/
def leBytes : Nat → Nat → List Byte
  | 0, _ => []
  | k + 1, v => BitVec.ofNat 8 v :: leBytes k (v / 256)

/-- The value of a little-endian byte string. -/
def leVal : List Byte → Nat
  | [] => 0
  | b :: bs => b.toNat + 256 * leVal bs

@[simp] theorem length_leBytes (k v : Nat) : (leBytes k v).length = k := by
  induction k generalizing v with
  | zero => rfl
  | succ k ih => simp [leBytes, ih]

theorem leVal_leBytes (k v : Nat) : leVal (leBytes k v) = v % 256 ^ k := by
  induction k generalizing v with
  | zero => simp [leBytes, leVal, Nat.mod_one]
  | succ k ih =>
    rw [leBytes, leVal, ih, BitVec.toNat_ofNat, pow_succ 256 k, Nat.mul_comm (256 ^ k) 256,
      Nat.mod_mul]

/-- The `n` bytes from offset `off` on. -/
def slice (data : List Byte) (off n : Nat) : List Byte := (data.drop off).take n

/-- The `k`-byte field at offset `off`. -/
def readLe (data : List Byte) (off k : Nat) : Nat := leVal (slice data off k)

theorem slice_append_right (a b : List Byte) {off n k : Nat} (h : off = a.length + k) :
    slice (a ++ b) off n = slice b k n := by
  subst h
  rw [slice, slice, List.drop_append, List.drop_eq_nil_of_le (by omega), List.nil_append,
    Nat.add_sub_cancel_left]

theorem slice_mid (a b c : List Byte) {off n : Nat} (hoff : off = a.length) (hn : n = b.length) :
    slice (a ++ (b ++ c)) off n = b := by
  subst hoff hn
  simp [slice]

theorem readLe_mid (a c : List Byte) {off k v : Nat} (hoff : off = a.length) :
    readLe (a ++ (leBytes k v ++ c)) off k = v % 256 ^ k := by
  rw [readLe, slice_mid a _ c hoff (length_leBytes k v).symm, leVal_leBytes]

theorem length_flatten_const {size : Nat} {table : List (List Byte)}
    (htable : ∀ e ∈ table, e.length = size) : table.flatten.length = table.length * size := by
  induction table with
  | nil => simp
  | cons e table ih =>
    obtain ⟨he, htable⟩ := List.forall_mem_cons.mp htable
    rw [List.flatten_cons, List.length_append, he, ih htable, List.length_cons, Nat.succ_mul,
      Nat.add_comm]

theorem length_flatMap_const {α : Type} {n : Nat} {f : α → List Byte}
    (hf : ∀ a, (f a).length = n) (l : List α) : (l.flatMap f).length = l.length * n := by
  rw [List.flatMap_def, length_flatten_const fun e he => ?_, List.length_map]
  obtain ⟨a, -, rfl⟩ := List.mem_map.mp he
  exact hf a

/-! ## Tables -/

/-- The `n` entries of `size` bytes from offset `off` on. -/
def entries (data : List Byte) (off size n : Nat) : List (List Byte) :=
  (List.range n).map fun i => slice data (off + i * size) size

theorem entries_succ (data : List Byte) (off size n : Nat) :
    entries data off size (n + 1) = slice data off size :: entries data (off + size) size n := by
  have hstep : ∀ i, off + size + i * size = off + (i + 1) * size := fun i => by
    rw [Nat.succ_mul]
    omega
  simp only [entries, List.range_succ_eq_map, List.map_cons, List.map_map, Nat.zero_mul,
    Nat.add_zero, hstep]
  rfl

/-- A table of known position is read back entry by entry. -/
theorem entries_mid {size : Nat} {table : List (List Byte)} (htable : ∀ e ∈ table, e.length = size)
    (a c : List Byte) {off : Nat} (hoff : off = a.length) :
    entries (a ++ (table.flatten ++ c)) off size table.length = table := by
  induction table generalizing a off with
  | nil => rfl
  | cons e table ih =>
    obtain ⟨he, htable⟩ := List.forall_mem_cons.mp htable
    rw [List.length_cons, entries_succ, List.flatten_cons, List.append_assoc,
      slice_mid a e _ hoff he.symm, ← List.append_assoc a e,
      ih htable (a ++ e) (by rw [List.length_append, he, hoff])]

/-! ## Parts of a value -/

theorem leVal_append (a b : List Byte) : leVal (a ++ b) = leVal a + 256 ^ a.length * leVal b := by
  induction a with
  | nil => simp [leVal]
  | cons x a ih =>
    rw [List.cons_append, leVal, leVal, ih, List.length_cons, pow_succ', Nat.mul_add, Nat.add_assoc,
      Nat.mul_assoc]

theorem leVal_lt (a : List Byte) : leVal a < 256 ^ a.length := by
  induction a with
  | nil => decide
  | cons x a ih =>
    have hx := x.isLt
    rw [leVal, List.length_cons, pow_succ']
    omega

theorem leVal_take_add_drop (a : List Byte) {k : Nat} (hk : k ≤ a.length) :
    leVal a = leVal (a.take k) + 256 ^ k * leVal (a.drop k) := by
  conv => lhs; rw [← List.take_append_drop k a, leVal_append]
  rw [List.length_take, Nat.min_eq_left hk]

theorem leVal_take_lt (a : List Byte) {k : Nat} (hk : k ≤ a.length) :
    leVal (a.take k) < 256 ^ k := by
  have hlt := leVal_lt (a.take k)
  rwa [List.length_take, Nat.min_eq_left hk] at hlt

theorem leVal_mod (a : List Byte) {k : Nat} (hk : k ≤ a.length) :
    leVal a % 256 ^ k = leVal (a.take k) := by
  rw [leVal_take_add_drop a hk, Nat.add_mul_mod_self_left, Nat.mod_eq_of_lt (leVal_take_lt a hk)]

theorem leVal_div (a : List Byte) {k : Nat} (hk : k ≤ a.length) :
    leVal a / 256 ^ k = leVal (a.drop k) := by
  rw [leVal_take_add_drop a hk, Nat.add_mul_div_left _ _ (Nat.pow_pos (by decide)),
    Nat.div_eq_of_lt (leVal_take_lt a hk), Nat.zero_add]

theorem leVal_replicate_zero (s : Nat) : leVal (List.replicate s 0) = 0 := by
  induction s with
  | zero => rfl
  | succ s ih => rw [List.replicate_succ, leVal, ih]; rfl

theorem leVal_shiftLeft {a : List Byte} {s : Nat} (hs : s ≤ a.length) :
    leVal a * 256 ^ s % 256 ^ a.length =
      leVal (List.replicate s 0 ++ a.take (a.length - s)) := by
  have hpow : 256 ^ a.length = 256 ^ (a.length - s) * 256 ^ s := by
    rw [← pow_add, Nat.sub_add_cancel hs]
  rw [leVal_append, leVal_replicate_zero, List.length_replicate, Nat.zero_add, hpow,
    Nat.mul_mod_mul_right, leVal_mod a (by omega), Nat.mul_comm]

theorem leVal_byte (a : List Byte) (i : Nat) : leVal a / 256 ^ i % 256 = (a.getD i 0).toNat := by
  induction a generalizing i with
  | nil => simp [leVal]
  | cons b a ih =>
    have hb := b.isLt
    cases i with
    | zero =>
      rw [leVal, pow_zero, Nat.div_one, List.getD_cons_zero]
      omega
    | succ i =>
      rw [leVal, pow_succ', ← Nat.div_div_eq_div_mul, List.getD_cons_succ, ← ih i,
        Nat.add_mul_div_left _ _ (by decide), Nat.div_eq_of_lt hb, Nat.zero_add]

end Bytes
