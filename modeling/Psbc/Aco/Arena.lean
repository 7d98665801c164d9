import Mathlib.Algebra.GroupWithZero.Nat
import Psbc.Lib.Runs

/-!
# The arena of the compiler

`monotonic_buffer_resource` of `aco_util.h` hands memory out of blocks that it gets from
`malloc`. A block starts with a header and is filled from the bottom; when an allocation does
not fit the newest block, a larger one is made and the allocation starts over in it. Nothing is
freed until `release` or `release_reallocate` gives up all that was allocated.

`malloc` is asked through the addresses that it answers with. The sizes are of `size_t`, except
that `align` has 32-bit parameters.
-/

namespace Psbc.Aco

def sizeT (n : Nat) : Nat := n % 2 ^ 64

/-- `align` of `u_math.h`; its assertion of a power of two is left out. -/
def align (value alignment : Nat) : Nat :=
  let below := BitVec.ofNat 32 alignment - 1
  ((BitVec.ofNat 32 value + below) &&& ~~~below).toNat

/-! ## Blocks -/

structure Buffer where
  addr : Nat
  currentIdx : Nat
  dataSize : Nat
  deriving DecidableEq, Repr

def sizeofBuffer : Nat := 24
def initialSize : Nat := 4096
def maximumBlockSize : Nat := 256 * 1024
def minimumSize : Nat := 128

/-- A block of `totalSize` bytes at `addr` with its header; writing it is undefined when the
header does not fit. -/
def newBuffer (totalSize addr : Nat) : Option Buffer :=
  if sizeofBuffer ≤ totalSize then some ⟨addr, 0, totalSize - sizeofBuffer⟩ else none

/-- `while (total_size - sizeof(Buffer) < size) total_size *= 2`, for so many rounds. -/
def doubleUntil (size : Nat) : Nat → Nat → Option Nat
  | 0, _ => none
  | rounds + 1, totalSize =>
    if sizeT (totalSize + 2 ^ 64 - sizeofBuffer) < size then
      doubleUntil size rounds (sizeT (totalSize * 2))
    else some totalSize

/-- A size is zero after so many doublings, and remains so. -/
def rounds : Nat := 65

/-! ## The resource -/

/-- The newest block and the list behind it. -/
structure MonotonicBufferResource where
  buffer : Buffer
  next : List Buffer
  deriving DecidableEq, Repr

/-- What an allocation returns, the arena it leaves, and the sizes of the blocks it made. -/
structure Allocation where
  ptr : Nat
  arena : MonotonicBufferResource
  created : List Nat
  deriving DecidableEq, Repr

namespace MonotonicBufferResource

def blocks (arena : MonotonicBufferResource) : List Buffer := arena.buffer :: arena.next

def aligned (arena : MonotonicBufferResource) (alignment : Nat) : Buffer :=
  { arena.buffer with currentIdx := align arena.buffer.currentIdx alignment }

/-- The size of the block that is made when `buffer` is full. -/
def grownSize (buffer : Buffer) (size : Nat) : Option Nat :=
  doubleUntil size rounds
    (min (sizeT (sizeT (buffer.dataSize + sizeofBuffer) * 2)) maximumBlockSize)

/-- The allocation where the newest block has room for it. -/
def fit (arena : MonotonicBufferResource) (size alignment : Nat) : Option Allocation :=
  let buffer := arena.aligned alignment
  if sizeT (buffer.currentIdx + size) ≤ buffer.dataSize then
    some
      { ptr := buffer.addr + sizeofBuffer + buffer.currentIdx
        arena := { arena with
          buffer := { buffer with currentIdx := sizeT (buffer.currentIdx + size) } }
        created := [] }
  else none

/-- With the addresses that `malloc` answers; when none is left, the memory is exhausted. -/
def allocate (arena : MonotonicBufferResource) (size alignment : Nat) :
    List Nat → Option Allocation
  | [] => arena.fit size alignment
  | addr :: answers =>
    match arena.fit size alignment with
    | some allocation => some allocation
    | none => do
      let totalSize ← grownSize (arena.aligned alignment) size
      let newest ← newBuffer totalSize addr
      let grown : MonotonicBufferResource := ⟨newest, arena.aligned alignment :: arena.next⟩
      let allocation ← grown.allocate size alignment answers
      some { allocation with created := totalSize :: allocation.created }

def oldest : Buffer → List Buffer → Buffer
  | buffer, [] => buffer
  | _, older :: next => oldest older next

def release (arena : MonotonicBufferResource) : MonotonicBufferResource :=
  ⟨{ oldest arena.buffer arena.next with currentIdx := 0 }, []⟩

def usedBytes (arena : MonotonicBufferResource) : Nat :=
  arena.blocks.foldl (fun size buffer => sizeT (size + buffer.currentIdx)) 0

def releaseReallocate (arena : MonotonicBufferResource) (addr : Nat) :
    Option (MonotonicBufferResource × List Nat) :=
  let size := arena.usedBytes
  if size ≤ arena.buffer.dataSize then
    some (⟨{ arena.buffer with currentIdx := 0 }, []⟩, [])
  else do
    -- the first round of the loop doubles without a test
    let totalSize ← doubleUntil size rounds (sizeT (initialSize * 2))
    let newest ← newBuffer totalSize addr
    some (⟨newest, []⟩, [totalSize])

end MonotonicBufferResource

/-! ## Calls -/

/-- A call, with what `malloc` answers while it runs. -/
inductive Op where
  | allocate (size alignment : Nat) (answers : List Nat)
  | release
  | releaseReallocate (addr : Nat)
  deriving DecidableEq, Repr

structure Given where
  start : Nat
  size : Nat
  alignment : Nat
  deriving DecidableEq, Repr

/-- The arena with what was handed out since the last release, and the sizes of all blocks
that were made, both the newest first. -/
structure History where
  arena : MonotonicBufferResource
  given : List Given
  created : List Nat
  deriving DecidableEq, Repr

def create (size addr : Nat) : History :=
  let totalSize := max size minimumSize
  ⟨⟨⟨addr, 0, totalSize - sizeofBuffer⟩, []⟩, [], [totalSize]⟩

def step (h : History) : Op → Option History
  | .allocate size alignment answers =>
    (h.arena.allocate size alignment answers).map fun a =>
      ⟨a.arena, ⟨a.ptr, size, alignment⟩ :: h.given, a.created ++ h.created⟩
  | .release => some ⟨h.arena.release, [], h.created⟩
  | .releaseReallocate addr =>
    (h.arena.releaseReallocate addr).map fun (arena, created) => ⟨arena, [], created ++ h.created⟩

/-! ## Arithmetic -/

theorem sizeT_of_lt {n : Nat} (h : n < 2 ^ 64) : sizeT n = n := Nat.mod_eq_of_lt h

theorem sizeT_lt (n : Nat) : sizeT n < 2 ^ 64 := Nat.mod_lt _ (by decide)

theorem align_zero (alignment : Nat) : align 0 alignment = 0 := by
  simp [align]

theorem toNat_below {k : Nat} (hk : k < 32) :
    (BitVec.ofNat 32 (2 ^ k) - 1).toNat = 2 ^ k - 1 := by
  have hlt : 2 ^ k < 2 ^ 32 := Nat.pow_lt_pow_right (by decide) hk
  have hpos := Nat.two_pow_pos k
  rw [BitVec.toNat_sub_of_le (BitVec.le_def.mpr ?_), BitVec.toNat_ofNat, Nat.mod_eq_of_lt hlt]
  · rfl
  · rw [BitVec.toNat_ofNat, Nat.mod_eq_of_lt hlt]
    exact hpos

theorem toNat_and_not_below (x : BitVec 32) {k : Nat} (hk : k < 32) :
    (x &&& ~~~(BitVec.ofNat 32 (2 ^ k) - 1)).toNat + x.toNat % 2 ^ k = x.toNat := by
  have hlow : (x &&& (BitVec.ofNat 32 (2 ^ k) - 1)).toNat = x.toNat % 2 ^ k := by
    rw [BitVec.toNat_and, toNat_below hk, Nat.and_two_pow_sub_one_eq_mod]
  generalize BitVec.ofNat 32 (2 ^ k) - 1 = m at *
  have hapart : (x &&& ~~~m) &&& (x &&& m) = 0#32 := by
    ext i
    simp only [BitVec.getElem_and, BitVec.getElem_not, BitVec.getElem_zero]
    cases x[i] <;> cases m[i] <;> rfl
  have hsplit : (x &&& ~~~m) + (x &&& m) = x := by
    rw [BitVec.add_eq_or_of_and_eq_zero _ _ hapart]
    ext i
    simp only [BitVec.getElem_and, BitVec.getElem_or, BitVec.getElem_not]
    cases x[i] <;> cases m[i] <;> rfl
  rw [← hlow, ← BitVec.toNat_add_of_and_eq_zero hapart, hsplit]

theorem align_add_mod {value k : Nat} (hk : k < 32) (hvalue : value + 2 ^ k ≤ 2 ^ 32) :
    align value (2 ^ k) + (value + (2 ^ k - 1)) % 2 ^ k = value + (2 ^ k - 1) := by
  have hpos := Nat.two_pow_pos k
  have hsum : (BitVec.ofNat 32 value + (BitVec.ofNat 32 (2 ^ k) - 1)).toNat =
      value + (2 ^ k - 1) := by
    rw [BitVec.toNat_add, toNat_below hk, BitVec.toNat_ofNat, Nat.mod_add_mod,
      Nat.mod_eq_of_lt (by omega)]
  have hsplit := toNat_and_not_below (BitVec.ofNat 32 value + (BitVec.ofNat 32 (2 ^ k) - 1)) hk
  rwa [hsum] at hsplit

theorem align_spec (value k : Nat) (hk : k < 32) (hvalue : value + 2 ^ k ≤ 2 ^ 32) :
    2 ^ k ∣ align value (2 ^ k) ∧ value ≤ align value (2 ^ k) ∧
      align value (2 ^ k) < value + 2 ^ k := by
  have hpos := Nat.two_pow_pos k
  have halign := align_add_mod hk hvalue
  have hlow := Nat.mod_lt (value + (2 ^ k - 1)) hpos
  refine ⟨?_, by omega, by omega⟩
  rw [Nat.eq_sub_of_add_eq halign]
  exact Nat.dvd_sub_mod _

/-! ## The doubling loop -/

theorem doubleUntil_induct {P : Nat → Prop} {size : Nat}
    (hstep : ∀ n, P n → n < size + sizeofBuffer → P (sizeT (n * 2))) {rounds n total : Nat}
    (hn : P n) (hlt : n < 2 ^ 64) (h : doubleUntil size rounds n = some total) : P total := by
  induction rounds generalizing n with
  | zero => cases h
  | succ rounds ih =>
    rw [doubleUntil] at h
    split at h
    next hless =>
      refine ih (hstep n hn ?_) (sizeT_lt _) h
      unfold sizeT sizeofBuffer at hless
      unfold sizeofBuffer
      omega
    next => exact Option.some.inj h ▸ hn

theorem le_of_doubleUntil {size rounds n total : Nat} (h : doubleUntil size rounds n = some total) :
    size ≤ sizeT (total + 2 ^ 64 - sizeofBuffer) := by
  induction rounds generalizing n with
  | zero => cases h
  | succ rounds ih =>
    rw [doubleUntil] at h
    split at h
    next => exact ih h
    next hle => exact Option.some.inj h ▸ Nat.le_of_not_lt hle

theorem exists_doubleUntil {size n : Nat} (hsize : size + sizeofBuffer ≤ 2 ^ 63)
    (hn : sizeofBuffer ≤ n) (hlt : n < 2 ^ 64) {k : Nat} (hk : size + sizeofBuffer ≤ n * 2 ^ k) :
    ∃ total, doubleUntil size (k + 1) n = some total ∧ n ≤ total := by
  induction k generalizing n with
  | zero =>
    refine ⟨n, ?_, Nat.le_refl n⟩
    rw [doubleUntil, if_neg]
    unfold sizeT sizeofBuffer at *
    omega
  | succ k ih =>
    rw [doubleUntil]
    split
    next hless =>
      have hlt2 : n * 2 < 2 ^ 64 := by
        unfold sizeT sizeofBuffer at *
        omega
      rw [sizeT_of_lt hlt2]
      rw [Nat.pow_succ', ← Nat.mul_assoc] at hk
      obtain ⟨total, htotal, hle⟩ := ih (by omega) hlt2 hk
      exact ⟨total, htotal, by omega⟩
    next => exact ⟨n, rfl, Nat.le_refl n⟩

/-! ## Allocation

An allocation that does not fit makes one block, and fits there. -/

namespace MonotonicBufferResource

variable {arena : MonotonicBufferResource} {size alignment addr total : Nat} {answers : List Nat}
  {a : Allocation}

theorem fit_eq_some_iff : arena.fit size alignment = some a ↔
    sizeT (align arena.buffer.currentIdx alignment + size) ≤ arena.buffer.dataSize ∧
      a = ⟨arena.buffer.addr + sizeofBuffer + align arena.buffer.currentIdx alignment,
        ⟨{ arena.buffer with
            currentIdx := sizeT (align arena.buffer.currentIdx alignment + size) },
          arena.next⟩, []⟩ := by
  rw [fit, Option.ite_none_right_eq_some, Option.some_inj]
  exact and_congr_right fun _ => eq_comm

def inNewBlock (arena : MonotonicBufferResource) (size alignment addr total : Nat) : Allocation :=
  ⟨addr + sizeofBuffer,
    ⟨⟨addr, size, total - sizeofBuffer⟩, arena.aligned alignment :: arena.next⟩, [total]⟩

theorem fit_of_grown (addr alignment : Nat) (next : List Buffer) (htotal : sizeofBuffer ≤ total)
    (hsize : size ≤ sizeT (total + 2 ^ 64 - sizeofBuffer)) :
    fit ⟨⟨addr, 0, total - sizeofBuffer⟩, next⟩ size alignment =
      some ⟨addr + sizeofBuffer, ⟨⟨addr, size, total - sizeofBuffer⟩, next⟩, []⟩ := by
  have hlt := hsize.trans_lt (sizeT_lt _)
  have hle : size ≤ total - sizeofBuffer := by
    unfold sizeT sizeofBuffer at *
    omega
  rw [fit_eq_some_iff, align_zero, Nat.zero_add, sizeT_of_lt hlt]
  exact ⟨hle, rfl⟩

theorem allocate_of_fit (h : arena.fit size alignment = some a) (answers : List Nat) :
    arena.allocate size alignment answers = some a := by
  cases answers with
  | nil => exact h
  | cons => rw [allocate, h]

theorem allocate_of_full (h : arena.fit size alignment = none) :
    arena.allocate size alignment (addr :: answers) =
      (grownSize (arena.aligned alignment) size).bind fun total =>
        if sizeofBuffer ≤ total then some (arena.inNewBlock size alignment addr total)
        else none := by
  rw [allocate, h]
  refine Option.bind_congr fun total htotal => ?_
  unfold newBuffer
  split
  next hle =>
    have hfit := fit_of_grown addr alignment (arena.aligned alignment :: arena.next) hle
      (le_of_doubleUntil htotal)
    simp only [Option.bind_eq_bind, Option.bind_some, allocate_of_fit hfit]
    rfl
  next => rfl

/-- An allocation fits, or makes one block. -/
theorem allocate_cases (h : arena.allocate size alignment answers = some a) :
    arena.fit size alignment = some a ∨
      ∃ addr total, grownSize (arena.aligned alignment) size = some total ∧
        sizeofBuffer ≤ total ∧ a = arena.inNewBlock size alignment addr total := by
  cases hfit : arena.fit size alignment with
  | some a' =>
    rw [allocate_of_fit hfit] at h
    exact .inl h
  | none =>
    cases answers with
    | nil =>
      rw [allocate, hfit] at h
      cases h
    | cons addr answers =>
      rw [allocate_of_full hfit] at h
      obtain ⟨total, htotal, h⟩ := Option.bind_eq_some_iff.mp h
      obtain ⟨hle, h⟩ := Option.ite_none_right_eq_some.mp h
      exact .inr ⟨addr, total, htotal, hle, (Option.some.inj h).symm⟩

/-! ## Reallocation -/

theorem releaseReallocate_of_le (addr : Nat) (h : arena.usedBytes ≤ arena.buffer.dataSize) :
    arena.releaseReallocate addr = some (⟨{ arena.buffer with currentIdx := 0 }, []⟩, []) :=
  if_pos h

theorem releaseReallocate_of_lt (addr : Nat) (h : arena.buffer.dataSize < arena.usedBytes) :
    arena.releaseReallocate addr =
      (doubleUntil arena.usedBytes rounds (sizeT (initialSize * 2))).bind fun total =>
        if sizeofBuffer ≤ total then some (⟨⟨addr, 0, total - sizeofBuffer⟩, []⟩, [total])
        else none := by
  refine (if_neg (Nat.not_le.mpr h)).trans (Option.bind_congr fun total _ => ?_)
  unfold newBuffer
  split <;> rfl

theorem releaseReallocate_cases {r : MonotonicBufferResource × List Nat}
    (h : arena.releaseReallocate addr = some r) :
    arena.usedBytes ≤ arena.buffer.dataSize ∧
        r = (⟨{ arena.buffer with currentIdx := 0 }, []⟩, []) ∨
      ∃ total, arena.buffer.dataSize < arena.usedBytes ∧
        doubleUntil arena.usedBytes rounds (sizeT (initialSize * 2)) = some total ∧
        sizeofBuffer ≤ total ∧ r = (⟨⟨addr, 0, total - sizeofBuffer⟩, []⟩, [total]) := by
  rcases Nat.lt_or_ge arena.buffer.dataSize arena.usedBytes with hlt | hge
  · rw [releaseReallocate_of_lt addr hlt] at h
    obtain ⟨total, htotal, h⟩ := Option.bind_eq_some_iff.mp h
    obtain ⟨hle, h⟩ := Option.ite_none_right_eq_some.mp h
    exact .inr ⟨total, hlt, htotal, hle, (Option.some.inj h).symm⟩
  · rw [releaseReallocate_of_le addr hge] at h
    exact .inl ⟨hge, (Option.some.inj h).symm⟩

end MonotonicBufferResource

end Psbc.Aco
