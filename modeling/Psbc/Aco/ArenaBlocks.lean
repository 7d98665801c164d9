import Psbc.Aco.Arena

/-!
# How large the blocks of the arena get

An allocation makes a block twice as large as the newest one, but not past `maximumBlockSize`
unless it needs more itself. `release_reallocate` has no such limit: it makes one block for all
that was in use, however many blocks that took.

From a power of two on, all blocks are powers of two up to the maximum, until an allocation
needs more by itself or a reallocation does for what is in use.
-/

namespace Psbc.Aco

open MonotonicBufferResource Runs

/-- An allocation that needs more than the maximum, together with the header. -/
def Op.Oversize : Op → Prop
  | .allocate size _ _ => maximumBlockSize < size + sizeofBuffer
  | _ => False

instance : DecidablePred Op.Oversize
  | .allocate size _ _ => inferInstanceAs (Decidable (maximumBlockSize < size + sizeofBuffer))
  | .release | .releaseReallocate _ => instDecidableFalse

/-- A reallocation while more is in use than the newest block and one of maximum size hold. -/
def Op.Overfull (arena : MonotonicBufferResource) : Op → Prop
  | .releaseReallocate _ =>
    arena.buffer.dataSize < arena.usedBytes ∧ maximumBlockSize < arena.usedBytes + sizeofBuffer
  | _ => False

/-- A block larger than the maximum is made only after an allocation that needs it. -/
def StaysModest (start : History) (ops : List Op) : Prop :=
  ∀ pre ∈ ops.inits, ∀ h ∈ run step start pre,
    (∃ n ∈ h.created, maximumBlockSize < n) → ∃ op ∈ pre, op.Oversize

/-- No reallocation finds too much in use before such an allocation. -/
def NeverOverfull (start : History) (ops : List Op) : Prop :=
  ∀ pre op, pre ++ [op] ∈ ops.inits → ∀ h ∈ run step start pre,
    op.Overfull h.arena → ∃ op' ∈ pre, op'.Oversize

/-! ## Sizes -/

def ModestSize (n : Nat) : Prop := ∃ j ≤ 18, n = 2 ^ j

theorem ModestSize.le {n : Nat} (h : ModestSize n) : n ≤ maximumBlockSize := by
  obtain ⟨j, hj, rfl⟩ := h
  exact Nat.pow_le_pow_right (by decide) hj

theorem ModestSize.lt {n : Nat} (h : ModestSize n) : n < 2 ^ 64 :=
  Nat.lt_of_le_of_lt h.le (by decide)

theorem ModestSize.double {n : Nat} (h : ModestSize n) (hlt : n < maximumBlockSize) :
    ModestSize (sizeT (n * 2)) := by
  obtain ⟨j, hj, rfl⟩ := h
  have hj : j < 18 := (Nat.pow_lt_pow_iff_right (by decide)).mp hlt
  have hmodest : ModestSize (2 ^ j * 2) := ⟨j + 1, hj, (Nat.pow_succ 2 j).symm⟩
  rwa [sizeT_of_lt hmodest.lt]

theorem ModestSize.doubleUntil {n size rounds total : Nat} (h : ModestSize n)
    (hsize : size + sizeofBuffer ≤ maximumBlockSize)
    (htotal : doubleUntil size rounds n = some total) : ModestSize total :=
  doubleUntil_induct (fun _ hn hlt => hn.double (hlt.trans_le hsize)) h h.lt htotal

theorem ModestSize.grownSize {buffer : Buffer} {size total : Nat}
    (h : ModestSize (buffer.dataSize + sizeofBuffer))
    (hsize : size + sizeofBuffer ≤ maximumBlockSize) (htotal : grownSize buffer size = some total) :
    ModestSize total := by
  refine ModestSize.doubleUntil ?_ hsize htotal
  rw [sizeT_of_lt h.lt]
  rcases Nat.lt_or_ge (buffer.dataSize + sizeofBuffer) maximumBlockSize with hlt | hge
  · have hdouble := h.double hlt
    rwa [Nat.min_eq_left hdouble.le]
  · rw [Nat.le_antisymm h.le hge]
    exact ⟨18, by decide, rfl⟩

/-! ## The invariant -/

structure History.Modest (h : History) : Prop where
  live : ∀ b ∈ h.arena.blocks, ModestSize (b.dataSize + sizeofBuffer)
  created : ∀ n ∈ h.created, n ≤ maximumBlockSize

variable {h h' : History} {op : Op} {k addr : Nat} {ops pre : List Op}

theorem ModestSize.data {total : Nat} (h : ModestSize total) (hle : sizeofBuffer ≤ total) :
    ModestSize (total - sizeofBuffer + sizeofBuffer) := by
  rwa [Nat.sub_add_cancel hle]

theorem modest_create (addr : Nat) (hk : 2 ^ k ≤ maximumBlockSize) :
    (create (2 ^ k) addr).Modest := by
  have hk : k ≤ 18 := (Nat.pow_le_pow_iff_right (by decide)).mp hk
  have hmodest : ModestSize (max (2 ^ k) (2 ^ 7)) := by
    rcases Nat.le_total k 7 with h7 | h7
    · rw [Nat.max_eq_right (Nat.pow_le_pow_right Nat.two_pos h7)]
      exact ⟨7, by decide, rfl⟩
    · rw [Nat.max_eq_left (Nat.pow_le_pow_right Nat.two_pos h7)]
      exact ⟨k, hk, rfl⟩
  have hheader : sizeofBuffer ≤ max (2 ^ k) minimumSize :=
    Nat.le_trans (by decide) (Nat.le_max_right _ _)
  exact ⟨List.forall_mem_singleton.mpr (hmodest.data hheader),
    List.forall_mem_singleton.mpr hmodest.le⟩

theorem oldest_mem (buffer : Buffer) (next : List Buffer) :
    oldest buffer next ∈ buffer :: next := by
  induction next generalizing buffer with
  | nil => exact .head _
  | cons older next ih => exact .tail _ (ih older)

theorem History.Modest.step (hm : h.Modest) (hsize : ¬ op.Oversize) (hfull : ¬ op.Overfull h.arena)
    (hstep : step h op = some h') : h'.Modest := by
  obtain ⟨hlive, hcreated⟩ := hm
  obtain ⟨hnewest, holder⟩ := List.forall_mem_cons.mp hlive
  cases op with
  | allocate size alignment answers =>
    obtain ⟨a, ha, rfl⟩ := Option.map_eq_some_iff.mp hstep
    rcases allocate_cases ha with hfit | ⟨addr, total, htotal, hle, rfl⟩
    · obtain ⟨_, rfl⟩ := fit_eq_some_iff.mp hfit
      exact ⟨List.forall_mem_cons.mpr ⟨hnewest, holder⟩, hcreated⟩
    · have hmodest := hnewest.grownSize (Nat.le_of_not_lt hsize) htotal
      exact ⟨List.forall_mem_cons.mpr ⟨hmodest.data hle,
        List.forall_mem_cons.mpr ⟨hnewest, holder⟩⟩,
        List.forall_mem_cons.mpr ⟨hmodest.le, hcreated⟩⟩
  | release =>
    obtain rfl := Option.some.inj hstep
    have holdest := hlive _ (oldest_mem h.arena.buffer h.arena.next)
    exact ⟨List.forall_mem_singleton.mpr holdest, hcreated⟩
  | releaseReallocate addr =>
    obtain ⟨a, ha, rfl⟩ := Option.map_eq_some_iff.mp hstep
    rcases releaseReallocate_cases ha with ⟨_, rfl⟩ | ⟨total, hlt, htotal, hle, rfl⟩
    · exact ⟨List.forall_mem_singleton.mpr hnewest, hcreated⟩
    · have hused := Nat.le_of_not_lt fun hover => hfull ⟨hlt, hover⟩
      have hmodest := ModestSize.doubleUntil ⟨13, by decide, rfl⟩ hused htotal
      exact ⟨List.forall_mem_singleton.mpr (hmodest.data hle),
        List.forall_mem_cons.mpr ⟨hmodest.le, hcreated⟩⟩

/-- The blocks are modest until something needs more. -/
theorem modest_of_run (hk : 2 ^ k ≤ maximumBlockSize) (hsize : ∀ op ∈ pre, ¬ op.Oversize)
    (hfull : ∀ pre' op, pre' ++ [op] <+: pre → ∀ h ∈ run step (create (2 ^ k) addr) pre',
      ¬ op.Overfull h.arena)
    (hrun : run step (create (2 ^ k) addr) pre = some h) : h.Modest := by
  induction pre using List.reverseRecOn generalizing h with
  | nil =>
    obtain rfl := Option.some.inj hrun
    exact modest_create addr hk
  | append_singleton pre op ih =>
    rw [run_concat] at hrun
    obtain ⟨h', hrun', hstep⟩ := Option.bind_eq_some_iff.mp hrun
    have hm := ih (fun op' hop => hsize op' (List.mem_append_left [op] hop))
      (fun pre' op' hpre => hfull pre' op' (hpre.trans (List.prefix_append pre [op]))) hrun'
    exact hm.step (hsize op (List.mem_append_right pre (List.mem_singleton_self op)))
      (hfull pre op (List.prefix_refl _) h' hrun') hstep

/-- A reallocation of more than the maximum makes a block that is larger. -/
theorem exists_created_of_overfull (hfull : op.Overfull h.arena) (hstep : step h op = some h') :
    ∃ n ∈ h'.created, maximumBlockSize < n := by
  cases op with
  | allocate => exact hfull.elim
  | release => exact hfull.elim
  | releaseReallocate addr =>
    obtain ⟨hlt, hover⟩ := hfull
    obtain ⟨a, ha, rfl⟩ := Option.map_eq_some_iff.mp hstep
    rcases releaseReallocate_cases ha with ⟨hle, _⟩ | ⟨total, _, htotal, hheader, rfl⟩
    · exact absurd hlt (Nat.not_lt.mpr hle)
    · have hroom := le_of_doubleUntil htotal
      refine ⟨total, .head _, ?_⟩
      unfold sizeT at hroom
      omega

/-- **Blocks stay modest** unless a reallocation finds more in use than a block of maximum size
holds, and no allocation before it needed more than that by itself. -/
theorem blocks_modest_iff (k addr : Nat) (hk : 2 ^ k ≤ maximumBlockSize) (ops : List Op)
    (hrun : (run step (create (2 ^ k) addr) ops).isSome) :
    StaysModest (create (2 ^ k) addr) ops ↔ NeverOverfull (create (2 ^ k) addr) ops := by
  simp only [StaysModest, NeverOverfull, List.mem_inits]
  constructor
  · intro hmodest pre op hpre h hrunpre hfull
    obtain ⟨h', hrun'⟩ := exists_run_of_part step hrun hpre
    have hstep := hrun'
    rw [run_concat, hrunpre] at hstep
    obtain ⟨op', hop', hsize⟩ :=
      hmodest _ hpre h' hrun' (exists_created_of_overfull hfull hstep)
    rcases List.mem_append.mp hop' with hop' | hop'
    · exact ⟨op', hop', hsize⟩
    · -- the reallocation is no allocation
      rw [List.mem_singleton.mp hop'] at hsize
      cases op with
      | allocate => exact hfull.elim
      | release => exact hsize.elim
      | releaseReallocate => exact hsize.elim
  · rintro hcond pre hpre h hrunpre ⟨n, hn, hlt⟩
    by_contra hnone
    push Not at hnone
    refine absurd ((modest_of_run hk hnone ?_ hrunpre).created n hn) (Nat.not_le.mpr hlt)
    intro pre' op hpre' h' hrun' hfull
    obtain ⟨op', hop', hsize⟩ := hcond pre' op (hpre'.trans hpre) h' hrun' hfull
    exact hnone op' (hpre'.subset (List.mem_append_left [op] hop')) hsize

/-- A reallocation, and a block that is large because one allocation needs it. -/
def largeAllocation : List Op :=
  [.allocate 200000 8 [0x10000], .allocate 100 8 [0x80000], .releaseReallocate 0x80000,
    .allocate 300000 8 [0x100000]]

theorem blocks_modest_iff_largeAllocation :
    StaysModest (create (2 ^ 12) 0x1000) largeAllocation ∧
      NeverOverfull (create (2 ^ 12) 0x1000) largeAllocation ∧
      (run step (create (2 ^ 12) 0x1000) largeAllocation).map (·.created) =
        some [2 * maximumBlockSize, maximumBlockSize, 2 ^ 12] := by
  have hmodest : StaysModest (create (2 ^ 12) 0x1000) largeAllocation := by
    unfold StaysModest
    decide +kernel
  exact ⟨hmodest, (blocks_modest_iff 12 0x1000 (by decide) largeAllocation
    (by decide +kernel)).mp hmodest, by decide +kernel⟩

/-- Two allocations of less than the maximum. -/
def twoAllocations : List Op :=
  [.allocate 200000 8 [0x10000], .allocate 200000 8 [0x80000], .releaseReallocate 0x10000]

/-- The reallocation makes a block twice as large as the maximum. -/
theorem twoAllocations_not_modest :
    ¬ StaysModest (create (2 ^ 12) 0x1000) twoAllocations ∧
      (run step (create (2 ^ 12) 0x1000) twoAllocations).map (·.created) =
        some [2 * maximumBlockSize, maximumBlockSize, maximumBlockSize, 2 ^ 12] := by
  unfold StaysModest
  decide +kernel

end Psbc.Aco
