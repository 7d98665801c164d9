import Mathlib.Algebra.Order.BigOperators.Group.List
import Mathlib.Algebra.Order.Group.Nat
import Psbc.Aco.Arena
import Psbc.Lib.Regions

/-!
# What the arena hands out

As long as `malloc` keeps its contract, every allocation ends after at most one new block, and
what was handed out since the last release lies in the live blocks, aligned and apart.

The blocks are regions that are filled from the bottom. The index of the newest block is inside
it; the alignment of an allocation that went to a newer block may have moved the index of an
older one past its end, by less than eight bytes.
-/

namespace Psbc.Aco

open Ranges Regions Runs

/-! ## The contract of malloc -/

namespace Buffer

abbrev data (b : Buffer) : Nat := b.addr + sizeofBuffer

/-- Where the next allocation may start. -/
abbrev mark (b : Buffer) : Nat := b.data + b.currentIdx

abbrev stop (b : Buffer) : Nat := b.data + b.dataSize

end Buffer

abbrev Given.stop (g : Given) : Nat := g.start + g.size

instance (a b : Buffer) : Decidable (Apart Buffer.addr Buffer.stop a b) :=
  inferInstanceAs (Decidable (_ ∨ _))

/-- The live blocks are where `malloc` puts them: at multiples of 16 in the lower half of the
address space, each smaller than 2³¹ bytes, and apart. -/
def MonotonicBufferResource.Placed (arena : MonotonicBufferResource) : Prop :=
  (∀ b ∈ arena.blocks, 16 ∣ b.addr ∧ b.stop ≤ 2 ^ 63 ∧ sizeofBuffer + b.dataSize < 2 ^ 31) ∧
    arena.blocks.Pairwise (Apart Buffer.addr Buffer.stop)

instance (arena : MonotonicBufferResource) : Decidable arena.Placed :=
  inferInstanceAs (Decidable (_ ∧ _))

/-- Alignments up to 8, sizes below 2³⁰, and an address for the block that may be needed. -/
def Op.Ok : Op → Prop
  | .allocate size alignment answers => alignment ∈ [1, 2, 4, 8] ∧ size < 2 ^ 30 ∧ answers ≠ []
  | _ => True

instance : DecidablePred Op.Ok
  | .allocate size alignment answers =>
    inferInstanceAs (Decidable (alignment ∈ [1, 2, 4, 8] ∧ size < 2 ^ 30 ∧ answers ≠ []))
  | .release | .releaseReallocate _ => instDecidableTrue

/-- Calls for which `malloc` keeps its contract all along. -/
structure Admissible (size addr : Nat) (ops : List Op) : Prop where
  ok : ∀ op ∈ ops, op.Ok
  placed : ∀ pre ∈ ops.inits, ∀ h ∈ run step (create size addr) pre, h.arena.Placed

/-! ## Soundness -/

/-- What was handed out lies in live blocks, aligned and apart. -/
structure History.Sound (h : History) : Prop where
  inside : ∀ g ∈ h.given, ∃ b ∈ h.arena.blocks, b.data ≤ g.start ∧ g.stop ≤ b.stop
  aligned : ∀ g ∈ h.given, g.alignment ∣ g.start
  apart : h.given.Pairwise (Apart Given.start Given.stop)

/-- An allocation makes at most one block and hands out a range of its size and alignment; a
release leaves one block with nothing in it, and nothing handed out. -/
def Op.Leaves (h h' : History) : Op → Prop
  | .allocate size alignment _ =>
    (h'.created = h.created ∨ ∃ total, h'.created = total :: h.created) ∧
      ∃ start, h'.given = ⟨start, size, alignment⟩ :: h.given
  | .release | .releaseReallocate _ =>
    (∃ b, h'.arena.blocks = [b] ∧ b.currentIdx = 0) ∧ h'.given = []

/-! ## The invariant -/

variable {arena : MonotonicBufferResource} {given : List Given} {a : Allocation}
  {size alignment addr : Nat} {answers : List Nat}

structure Serving (arena : MonotonicBufferResource) (given : List Given) : Prop where
  newest : arena.buffer.currentIdx ≤ arena.buffer.dataSize
  older : ∀ b ∈ arena.next, b.currentIdx < b.dataSize + 8
  serves : Serves Buffer.data Buffer.mark Buffer.stop Given.start Given.stop arena.blocks given
  aligned : ∀ g ∈ given, g.alignment ∣ g.start

theorem Serving.sound {h : History} (hs : Serving h.arena h.given) : h.Sound := by
  refine ⟨fun g hg => ?_, hs.aligned, hs.serves.apart⟩
  obtain ⟨b, hb, hwithin⟩ := hs.serves.within g hg
  exact ⟨b, hb, hwithin.base_le, hwithin.le_limit⟩

theorem serving_single {b : Buffer} (hb : b.currentIdx = 0) : Serving ⟨b, []⟩ [] where
  newest := hb ▸ Nat.zero_le _
  older := nofun
  serves := serves_nil
  aligned := nofun

/-! ## Allocation -/

theorem exists_pow_of_mem (hal : alignment ∈ [1, 2, 4, 8]) : ∃ k ≤ 3, alignment = 2 ^ k := by
  simp only [List.mem_cons, List.not_mem_nil, or_false] at hal
  rcases hal with rfl | rfl | rfl | rfl
  exacts [⟨0, by decide⟩, ⟨1, by decide⟩, ⟨2, by decide⟩, ⟨3, by decide⟩]

theorem align_of_mem (value : Nat) (hvalue : value < 2 ^ 31) (hal : alignment ∈ [1, 2, 4, 8]) :
    alignment ∣ align value alignment ∧ value ≤ align value alignment ∧
      align value alignment < value + 8 := by
  obtain ⟨k, hk, rfl⟩ := exists_pow_of_mem hal
  have hle : 2 ^ k ≤ 2 ^ 3 := Nat.pow_le_pow_right (by decide) hk
  obtain ⟨hdvd, hge, hlt⟩ := align_spec value k (by omega) (by omega)
  exact ⟨hdvd, hge, by omega⟩

/-- An index of a block is aligned in memory as it is in the block. -/
theorem dvd_data_add {b : Buffer} (haddr : 16 ∣ b.addr) (hal : alignment ∈ [1, 2, 4, 8])
    {i : Nat} (hi : alignment ∣ i) : alignment ∣ b.data + i := by
  obtain ⟨k, hk, rfl⟩ := exists_pow_of_mem hal
  have hdvd : 2 ^ k ∣ 8 := Nat.pow_dvd_pow 2 hk
  have hdata : 8 ∣ b.data := by
    unfold Buffer.data sizeofBuffer
    omega
  exact Nat.dvd_add (Nat.dvd_trans hdvd hdata) hi

theorem apart_data_of_apart {b c : Buffer} (h : Apart Buffer.addr Buffer.stop b c) :
    Apart Buffer.data Buffer.stop b c :=
  h.imp (fun h => h.trans (Nat.le_add_right _ _)) fun h => h.trans (Nat.le_add_right _ _)

theorem Serving.fit (hs : Serving arena given) (hplaced : arena.Placed)
    (hal : alignment ∈ [1, 2, 4, 8]) (hsize : size < 2 ^ 30)
    (ha : arena.fit size alignment = some a) (hplaced' : a.arena.Placed) :
    Serving a.arena (⟨a.ptr, size, alignment⟩ :: given) := by
  obtain ⟨hnewest, holder, hserves, haligned⟩ := hs
  obtain ⟨haddr, _, hsmall⟩ := hplaced.1 arena.buffer (.head _)
  obtain ⟨hdvd, hge, hlt⟩ := align_of_mem arena.buffer.currentIdx (by omega) hal
  obtain ⟨hroom, rfl⟩ := MonotonicBufferResource.fit_eq_some_iff.mp ha
  rw [sizeT_of_lt (by omega)] at hroom hplaced' ⊢
  have hraised : Raised Buffer.data Buffer.mark Buffer.stop arena.buffer
      { arena.buffer with currentIdx := align arena.buffer.currentIdx alignment + size } :=
    ⟨rfl, rfl, Nat.add_le_add_left (hge.trans (Nat.le_add_right _ _)) _⟩
  refine ⟨hroom, holder,
    hserves.give (hplaced'.2.imp apart_data_of_apart) hraised ?_ ⟨?_, ?_, ?_⟩,
    List.forall_mem_cons.mpr ⟨dvd_data_add haddr hal hdvd, haligned⟩⟩
  all_goals
    dsimp only [Buffer.data, Buffer.mark, Buffer.stop, Given.stop]
    omega

/-- A new block has room for the allocation it was made for. -/
theorem Serving.inNewBlock {total : Nat} (hs : Serving arena given) (hplaced : arena.Placed)
    (hal : alignment ∈ [1, 2, 4, 8]) (hle : size + sizeofBuffer ≤ total)
    (hplaced' : (arena.inNewBlock size alignment addr total).arena.Placed) :
    Serving (arena.inNewBlock size alignment addr total).arena
      (⟨addr + sizeofBuffer, size, alignment⟩ :: given) := by
  obtain ⟨hnewest, holder, hserves, haligned⟩ := hs
  obtain ⟨_, _, hsmall⟩ := hplaced.1 arena.buffer (.head _)
  obtain ⟨hdvd, hge, hlt⟩ := align_of_mem arena.buffer.currentIdx (by omega) hal
  have hgrown : Serves Buffer.data Buffer.mark Buffer.stop Given.start Given.stop
      (⟨addr, 0, total - sizeofBuffer⟩ :: arena.aligned alignment :: arena.next) given := by
    refine hserves.mono fun b hb => ?_
    rcases List.mem_cons.mp hb with rfl | hb
    · exact ⟨arena.aligned alignment, .tail _ (.head _), rfl, rfl, Nat.add_le_add_left hge _⟩
    · exact ⟨b, .tail _ (.tail _ hb), rfl, rfl, Nat.le_refl _⟩
  have haddr := (hplaced'.1 _ (.head _)).1
  refine ⟨?_, List.forall_mem_cons.mpr ⟨?_, holder⟩,
    hgrown.give (hplaced'.2.imp apart_data_of_apart) ⟨rfl, rfl, ?_⟩ ?_ ⟨?_, ?_, ?_⟩,
    List.forall_mem_cons.mpr ⟨dvd_data_add haddr hal (Nat.dvd_zero _), haligned⟩⟩
  all_goals
    dsimp only [Buffer.data, Buffer.mark, Buffer.stop, Given.stop,
      MonotonicBufferResource.inNewBlock, MonotonicBufferResource.aligned]
    omega

theorem exists_grownSize {buffer : Buffer} (hsmall : sizeofBuffer + buffer.dataSize < 2 ^ 31)
    (hsize : size < 2 ^ 30) :
    ∃ total, MonotonicBufferResource.grownSize buffer size = some total ∧
      sizeofBuffer ≤ total := by
  have htwice : sizeT (sizeT (buffer.dataSize + sizeofBuffer) * 2) =
      (buffer.dataSize + sizeofBuffer) * 2 := by
    unfold sizeT
    omega
  have hfirst : sizeofBuffer ≤
      min ((buffer.dataSize + sizeofBuffer) * 2) maximumBlockSize := by
    unfold sizeofBuffer maximumBlockSize
    omega
  have hend : size + sizeofBuffer ≤
      min ((buffer.dataSize + sizeofBuffer) * 2) maximumBlockSize * 2 ^ 64 := by
    unfold sizeofBuffer at *
    omega
  obtain ⟨total, htotal, hle⟩ :=
    exists_doubleUntil (by unfold sizeofBuffer; omega) hfirst (by omega) hend
  rw [← htwice] at htotal
  exact ⟨total, htotal, hfirst.trans hle⟩

theorem exists_allocate (alignment : Nat) (hplaced : arena.Placed) (hsize : size < 2 ^ 30)
    (hanswers : answers ≠ []) : ∃ a, arena.allocate size alignment answers = some a := by
  cases hfit : arena.fit size alignment with
  | some a => exact ⟨a, MonotonicBufferResource.allocate_of_fit hfit answers⟩
  | none =>
    obtain ⟨addr, answers, rfl⟩ := List.exists_cons_of_ne_nil hanswers
    have hsmall : sizeofBuffer + (arena.aligned alignment).dataSize < 2 ^ 31 :=
      (hplaced.1 arena.buffer (.head _)).2.2
    obtain ⟨total, htotal, hle⟩ := exists_grownSize hsmall hsize
    rw [MonotonicBufferResource.allocate_of_full hfit, htotal, Option.bind_some, if_pos hle]
    exact ⟨_, rfl⟩

/-- **An allocation hands out** what lies above the mark of the newest block, or a new one. -/
theorem Serving.allocate (hs : Serving arena given) (hplaced : arena.Placed)
    (hal : alignment ∈ [1, 2, 4, 8]) (hsize : size < 2 ^ 30)
    (ha : arena.allocate size alignment answers = some a) (hplaced' : a.arena.Placed) :
    Serving a.arena (⟨a.ptr, size, alignment⟩ :: given) := by
  rcases MonotonicBufferResource.allocate_cases ha with hfit | ⟨addr, total, htotal, hle, rfl⟩
  · exact hs.fit hplaced hal hsize hfit hplaced'
  · have hroom := le_of_doubleUntil htotal
    refine hs.inNewBlock hplaced hal ?_ hplaced'
    unfold sizeT at hroom
    omega

/-! ## Release -/

/-- The sum of the indices, which the machine may wrap. -/
theorem usedBytes_le (arena : MonotonicBufferResource) :
    arena.usedBytes ≤ (arena.blocks.map Buffer.currentIdx).sum := by
  suffices ∀ (bs : List Buffer) (n : Nat),
      bs.foldl (fun size b => sizeT (size + b.currentIdx)) n ≤
        n + (bs.map Buffer.currentIdx).sum by
    exact (this arena.blocks 0).trans_eq (Nat.zero_add _)
  intro bs
  induction bs with
  | nil => exact fun n => Nat.le_refl n
  | cons b bs ih =>
    intro n
    have htail := ih (sizeT (n + b.currentIdx))
    have hwrap : sizeT (n + b.currentIdx) ≤ n + b.currentIdx := Nat.mod_le _ _
    rw [List.foldl_cons, List.map_cons, List.sum_cons]
    omega

/-- The indices are inside the blocks, which are inside the address space. -/
theorem Serving.usedBytes_add_le (hs : Serving arena given) (hplaced : arena.Placed) :
    arena.usedBytes + sizeofBuffer ≤ 2 ^ 63 := by
  have hspace : (arena.blocks.map fun b => b.stop - b.addr).sum ≤ 2 ^ 63 := by
    refine sum_lengths_le (fun b _ => ?_) (fun b hb => (hplaced.1 b hb).2.1) hplaced.2
    unfold Buffer.stop Buffer.data sizeofBuffer
    omega
  have holder : (arena.next.map Buffer.currentIdx).sum ≤
      (arena.next.map fun b => b.stop - b.addr).sum := by
    refine List.sum_le_sum fun b hb => ?_
    have hb := hs.older b hb
    unfold Buffer.stop Buffer.data sizeofBuffer
    omega
  have hused := usedBytes_le arena
  have hnewest := hs.newest
  rw [MonotonicBufferResource.blocks, List.map_cons, List.sum_cons] at hspace hused
  dsimp only [Buffer.stop, Buffer.data] at hspace holder
  omega

theorem exists_releaseReallocate (addr : Nat) (hs : Serving arena given) (hplaced : arena.Placed) :
    ∃ b created, arena.releaseReallocate addr = some (⟨b, []⟩, created) ∧ b.currentIdx = 0 := by
  rcases Nat.lt_or_ge arena.buffer.dataSize arena.usedBytes with hlt | hle
  · have hused := hs.usedBytes_add_le hplaced
    have hfirst : sizeT (initialSize * 2) = 8192 := rfl
    have hend : arena.usedBytes + sizeofBuffer ≤ 8192 * 2 ^ 64 := by omega
    obtain ⟨total, htotal, hle⟩ := exists_doubleUntil hused (by decide) (by decide) hend
    have hheader : sizeofBuffer ≤ total := Nat.le_trans (by decide) hle
    refine ⟨⟨addr, 0, total - sizeofBuffer⟩, [total], ?_, rfl⟩
    rw [MonotonicBufferResource.releaseReallocate_of_lt addr hlt]
    exact (congrArg (Option.bind · _) htotal).trans (if_pos hheader)
  · exact ⟨_, _, MonotonicBufferResource.releaseReallocate_of_le addr hle, rfl⟩

/-! ## Runs -/

/-- A call of the contract returns, and leaves what it should. -/
theorem exists_step {h : History} {op : Op} (hs : Serving h.arena h.given)
    (hplaced : h.arena.Placed) (hok : op.Ok) :
    ∃ h', step h op = some h' ∧ op.Leaves h h' ∧
      (h'.arena.Placed → Serving h'.arena h'.given) := by
  cases op with
  | allocate size alignment answers =>
    obtain ⟨hal, hsize, hanswers⟩ := hok
    obtain ⟨a, ha⟩ := exists_allocate alignment hplaced hsize hanswers
    refine ⟨_, congrArg (Option.map _) ha, ⟨?_, a.ptr, rfl⟩, hs.allocate hplaced hal hsize ha⟩
    rcases MonotonicBufferResource.allocate_cases ha with hfit | ⟨addr, total, _, _, rfl⟩
    · obtain ⟨_, rfl⟩ := MonotonicBufferResource.fit_eq_some_iff.mp hfit
      exact .inl rfl
    · exact .inr ⟨total, rfl⟩
  | release => exact ⟨_, rfl, ⟨⟨_, rfl, rfl⟩, rfl⟩, fun _ => serving_single rfl⟩
  | releaseReallocate addr =>
    obtain ⟨b, created, hrelease, hb⟩ := exists_releaseReallocate addr hs hplaced
    exact ⟨_, congrArg (Option.map _) hrelease, ⟨⟨b, rfl, hb⟩, rfl⟩, fun _ => serving_single hb⟩

theorem Admissible.exists_next {ops pre : List Op} {op : Op} (hops : Admissible size addr ops)
    (hpre : pre ++ [op] <+: ops) {h : History} (hrun : run step (create size addr) pre = some h)
    (hplaced : h.arena.Placed) (hs : Serving h.arena h.given) :
    ∃ h', step h op = some h' ∧ op.Leaves h h' ∧
      run step (create size addr) (pre ++ [op]) = some h' ∧ h'.arena.Placed ∧
      Serving h'.arena h'.given := by
  have hok := hops.ok op (hpre.subset (List.mem_append_right pre (List.mem_singleton_self op)))
  obtain ⟨h', hstep, hleaves, hs'⟩ := exists_step hs hplaced hok
  have hrun' : run step (create size addr) (pre ++ [op]) = some h' := by
    rw [run_concat, hrun]
    exact hstep
  have hplaced' := hops.placed _ ((List.mem_inits _ _).mpr hpre) h' hrun'
  exact ⟨h', hstep, hleaves, hrun', hplaced', hs' hplaced'⟩

theorem Admissible.exists_run {ops pre : List Op} (hops : Admissible size addr ops)
    (hpre : pre <+: ops) :
    ∃ h, run step (create size addr) pre = some h ∧ h.arena.Placed ∧ Serving h.arena h.given := by
  induction pre using List.reverseRecOn with
  | nil => exact ⟨_, rfl, hops.placed [] ((List.mem_inits _ _).mpr hpre) _ rfl, serving_single rfl⟩
  | append_singleton pre op ih =>
    obtain ⟨h, hrun, hplaced, hs⟩ := ih ((List.prefix_append pre [op]).trans hpre)
    obtain ⟨h', _, _, hnext⟩ := hops.exists_next hpre hrun hplaced hs
    exact ⟨h', hnext⟩

/-- **The arena hands out disjoint memory.** Every call returns; an allocation makes at most one
block, a release leaves one that is empty, and what was handed out since lies in live blocks,
aligned and apart. -/
theorem arena_sound {ops : List Op} (hops : Admissible size addr ops) (pre post : List Op)
    (op : Op) (hsplit : ops = pre ++ op :: post) :
    ∃ h h', run step (create size addr) pre = some h ∧ step h op = some h' ∧ op.Leaves h h' ∧
      h'.Sound := by
  subst hsplit
  obtain ⟨h, hrun, hplaced, hs⟩ := hops.exists_run (List.prefix_append pre (op :: post))
  have hpre : pre ++ [op] <+: pre ++ op :: post := ⟨post, List.append_assoc pre [op] post⟩
  obtain ⟨h', hstep, hleaves, _, _, hs'⟩ := hops.exists_next hpre hrun hplaced hs
  exact ⟨h, h', hrun, hstep, hleaves, hs'.sound⟩

/-- Two blocks, and one for both. -/
def fewCalls : List Op :=
  [.allocate 100 8 [0x2000], .allocate 3 1 [0x2000], .allocate 6000 4 [0x2000],
    .releaseReallocate 0x8000, .allocate 16 8 [0x2000]]

theorem admissible_fewCalls : Admissible 128 0x1000 fewCalls where
  ok := by decide
  placed := by decide

theorem arena_sound_fewCalls :
    ∃ h h', run step (create 128 0x1000) (fewCalls.take 2) = some h ∧
      step h (.allocate 6000 4 [0x2000]) = some h' ∧
      (Op.allocate 6000 4 [0x2000]).Leaves h h' ∧ h'.Sound :=
  arena_sound admissible_fewCalls (fewCalls.take 2) (fewCalls.drop 3) _ rfl

end Psbc.Aco
