import Mathlib.Tactic.Ring
import Psbc.Tess.Layout

/-!
# Where hull and domain agree

The slots of the buffer stand in one order: per-vertex slots by location, the tess
levels, the patch slots. A compile places a slot by the number of its own slots before
it, and the hull's slots are among the domain's. So the two places of a slot agree
exactly when the hull has every slot of the domain that comes before it
(`hullStoreOffset_eq_iff`). A slot that the evaluation half reads and the control half
does not write moves everything the domain reads after it (`unwritten_slot_moves_domain`).
-/

namespace Psbc.Tess

open Mask

/-! ## Slots of a compile -/

/-- The compile has the slot in its layout. -/
def TessIoInfo.Has (io : TessIoInfo) : OffchipSlot → Prop
  | .vertex location => (io.vramOutputMask &&& ~~~tessLvlMask).getLsbD location = true
  | .level l => (io.vramOutputMask &&& tessLvlMask).getLsbD l.location = true
  | .patch index => io.vramPatchOutputMask.getLsbD index = true

/-- The slots that cannot occur in a control shader. -/
def OffchipSlot.notInTcs : OffchipSlot → Prop
  | .vertex location => notInTcsMask.getLsbD location = true
  | _ => False

/-- The order of the layout. -/
def OffchipSlot.before : OffchipSlot → OffchipSlot → Prop
  | .vertex i, .vertex j => i < j
  | .vertex _, _ => True
  | .level _, .vertex _ => False
  | .level k, .level l => k.location < l.location
  | .level _, .patch _ => True
  | .patch i, .patch j => i < j
  | .patch _, _ => False

section

variable {io io' : TessIoInfo}

theorem forall_vertex_iff {k : Nat} (hk : k ≤ 64) :
    (∀ i < k, (io'.vramOutputMask &&& ~~~tessLvlMask).getLsbD i = true →
        (io.vramOutputMask &&& ~~~tessLvlMask).getLsbD i = true) ↔
      ∀ location : Fin 64, location.val < k →
        io'.Has (.vertex location) → io.Has (.vertex location) :=
  ⟨fun h location hlt => h location hlt, fun h i hi => h ⟨i, hi.trans_le hk⟩ hi⟩

/-- A set bit of the level mask is a tess level. -/
theorem exists_level {m : BitVec 64} {i : Nat} (h : (m &&& tessLvlMask).getLsbD i = true) :
    ∃ l : TessLevel, l.location = i := by
  have hbit : tessLvlMask.getLsbD i = true := by
    rw [BitVec.getLsbD_and, Bool.and_eq_true] at h
    exact h.2
  simp only [tessLvlMask, BitVec.getLsbD_or, BitVec.getLsbD_twoPow, Bool.or_eq_true,
    Bool.and_eq_true, decide_eq_true_eq] at hbit
  rcases hbit with ⟨-, h⟩ | ⟨-, h⟩
  · exact ⟨_, h⟩
  · exact ⟨_, h⟩

theorem forall_level_iff (k : Nat) :
    (∀ i < k, (io'.vramOutputMask &&& tessLvlMask).getLsbD i = true →
        (io.vramOutputMask &&& tessLvlMask).getLsbD i = true) ↔
      ∀ l : TessLevel, l.location < k → io'.Has (.level l) → io.Has (.level l) := by
  refine ⟨fun h l hl => h l.location hl, fun h i hi hbit => ?_⟩
  obtain ⟨l, rfl⟩ := exists_level hbit
  exact h l hi hbit

/-- The layout of `io` is part of that of `io'`. -/
def TessIoInfo.Sub (io io' : TessIoInfo) : Prop := ∀ slot, io.Has slot → io'.Has slot

theorem TessIoInfo.Sub.vertex (h : io.Sub io') (i : Nat)
    (hi : (io.vramOutputMask &&& ~~~tessLvlMask).getLsbD i = true) :
    (io'.vramOutputMask &&& ~~~tessLvlMask).getLsbD i = true :=
  h (.vertex ⟨i, BitVec.lt_of_getLsbD hi⟩) hi

theorem TessIoInfo.Sub.level (h : io.Sub io') (i : Nat)
    (hi : (io.vramOutputMask &&& tessLvlMask).getLsbD i = true) :
    (io'.vramOutputMask &&& tessLvlMask).getLsbD i = true := by
  obtain ⟨l, rfl⟩ := exists_level hi
  exact h (.level l) hi

theorem TessIoInfo.Sub.patch (h : io.Sub io') (i : Nat)
    (hi : io.vramPatchOutputMask.getLsbD i = true) : io'.vramPatchOutputMask.getLsbD i = true :=
  h (.patch ⟨i, BitVec.lt_of_getLsbD hi⟩) hi

/-- The slot has the same index in both layouts and, unless it is per vertex, its region
starts after the same number of slots. -/
def SamePlace (io io' : TessIoInfo) (slot : OffchipSlot) : Prop :=
  hsOutputVramMapIoLocation io slot = hsOutputVramMapIoLocation io' slot ∧
    match slot with
    | .vertex _ => True
    | .level _ => io.highestRemappedVramOutput = io'.highestRemappedVramOutput
    | .patch _ => io.highestRemappedVramOutput = io'.highestRemappedVramOutput

theorem vertexCount_eq_iff (h : io.Sub io') :
    io.highestRemappedVramOutput = io'.highestRemappedVramOutput ↔
      ∀ location, io'.Has (.vertex location) → io.Has (.vertex location) := by
  rw [TessIoInfo.highestRemappedVramOutput, TessIoInfo.highestRemappedVramOutput, popcount,
    popcount, rank_eq_rank_iff h.vertex, forall_vertex_iff le_rfl]
  exact forall_congr' fun location => ⟨fun h => h location.isLt, fun h _ => h⟩

theorem vertexCount_le (h : io.Sub io') :
    io.highestRemappedVramOutput ≤ io'.highestRemappedVramOutput :=
  rank_le_rank h.vertex 64

theorem hsOutputVramMapIoLocation_le (h : io.Sub io') (slot : OffchipSlot) :
    hsOutputVramMapIoLocation io slot ≤ hsOutputVramMapIoLocation io' slot := by
  cases slot with
  | vertex location => exact rank_le_rank h.vertex _
  | level l => exact rank_le_rank h.level _
  | patch index => exact Nat.add_le_add (rank_le_rank h.level 64) (rank_le_rank h.patch _)

/-- **A slot has the same place in both layouts exactly when the smaller one has every slot
of the larger one before it.** -/
theorem samePlace_iff (h : io.Sub io') (slot : OffchipSlot) :
    SamePlace io io' slot ↔ ∀ r, OffchipSlot.before r slot → io'.Has r → io.Has r := by
  cases slot with
  | vertex location =>
    rw [SamePlace, and_true]
    show rank _ _ = rank _ _ ↔ _
    rw [rank_eq_rank_iff h.vertex, forall_vertex_iff location.isLt.le]
    constructor
    · intro hv r hr
      cases r with
      | vertex i => exact hv i hr
      | level l => exact hr.elim
      | patch i => exact hr.elim
    · exact fun hall i hi => hall (.vertex i) hi
  | level l =>
    rw [SamePlace, vertexCount_eq_iff h]
    show rank _ _ = rank _ _ ∧ _ ↔ _
    rw [rank_eq_rank_iff h.level, forall_level_iff]
    constructor
    · rintro ⟨hl, hv⟩ r hr
      cases r with
      | vertex i => exact hv i
      | level k => exact hl k hr
      | patch i => exact hr.elim
    · exact fun hall => ⟨fun k hk => hall (.level k) hk, fun i => hall (.vertex i) trivial⟩
  | patch index =>
    rw [SamePlace, vertexCount_eq_iff h]
    show popcount _ + rank _ _ = popcount _ + rank _ _ ∧ _ ↔ _
    have hlevels := rank_le_rank h.level 64
    have hpatches := rank_le_rank h.patch index
    have hsplit : popcount (io.vramOutputMask &&& tessLvlMask) +
          rank io.vramPatchOutputMask index =
        popcount (io'.vramOutputMask &&& tessLvlMask) + rank io'.vramPatchOutputMask index ↔
        rank (io.vramOutputMask &&& tessLvlMask) 64 =
          rank (io'.vramOutputMask &&& tessLvlMask) 64 ∧
        rank io.vramPatchOutputMask index = rank io'.vramPatchOutputMask index := by
      unfold popcount
      omega
    rw [hsplit, rank_eq_rank_iff h.level, forall_level_iff, rank_eq_rank_iff h.patch]
    constructor
    · rintro ⟨⟨hl, hp⟩, hv⟩ r hr
      cases r with
      | vertex i => exact hv i
      | level k => exact hl k (by cases k <;> decide)
      | patch i => exact hp i hr
    · intro hall
      refine ⟨⟨fun k _ => hall (.level k) trivial, fun i hi => ?_⟩,
        fun i => hall (.vertex i) trivial⟩
      exact hall (.patch ⟨i, hi.trans index.isLt⟩) hi

end

namespace TessPair

variable (p : TessPair)

def Writes (slot : OffchipSlot) : Prop :=
  TessIoInfo.Has ⟨p.outputsWritten, p.patchOutputsWritten⟩ slot

def Reads (slot : OffchipSlot) : Prop := TessIoInfo.Has ⟨p.inputsRead, p.patchInputsRead⟩ slot

def Stores (slot : OffchipSlot) : Prop := p.hullLowered.Has slot

/-- **Hull and domain agree on every slot both use.** -/
def OffchipAgree : Prop :=
  ∀ slot, p.Writes slot → p.Reads slot → p.Stores slot ∧
    ∀ relPatch < p.hullNumPatches, ∀ vertex < p.verticesOut, ∀ component < 4,
      p.hullStoreOffset slot relPatch vertex component =
        p.domainLoadOffset slot relPatch vertex component

/-- No slot that the evaluation half reads without a matching output comes before a slot
both use. -/
def NoHoleBefore : Prop :=
  ∀ slot, p.Writes slot → p.Reads slot → ¬ slot.notInTcs ∧
    ∀ r, OffchipSlot.before r slot → p.Reads r → p.Writes r ∧ ¬ r.notInTcs

variable {p}

theorem has_acNirGetTessIoInfo {a b : BitVec 64} {pa pb : BitVec 32} {slot : OffchipSlot} :
    (acNirGetTessIoInfo a pa b pb).Has slot ↔
      TessIoInfo.Has ⟨a, pa⟩ slot ∧ TessIoInfo.Has ⟨b, pb⟩ slot ∧ ¬ slot.notInTcs := by
  cases slot with
  | vertex location =>
    have hlt := location.isLt
    simp only [TessIoInfo.Has, acNirGetTessIoInfo, OffchipSlot.notInTcs, BitVec.getLsbD_and,
      BitVec.getLsbD_not, hlt, decide_true, Bool.true_and, Bool.and_eq_true, Bool.not_eq_true',
      Bool.not_eq_true]
    tauto
  | level l =>
    have hnot : notInTcsMask.getLsbD l.location = false ∧ l.location < 64 := by
      cases l <;> decide
    simp only [TessIoInfo.Has, acNirGetTessIoInfo, OffchipSlot.notInTcs, BitVec.getLsbD_and,
      BitVec.getLsbD_not, hnot, decide_true, Bool.and_eq_true, Bool.not_false, Bool.and_true,
      not_false_eq_true, and_true]
    tauto
  | patch index =>
    simp only [TessIoInfo.Has, acNirGetTessIoInfo, OffchipSlot.notInTcs, BitVec.getLsbD_and,
      Bool.and_eq_true, not_false_eq_true, and_true]

theorem has_and {a b : BitVec 64} {pa pb : BitVec 32} {slot : OffchipSlot} :
    TessIoInfo.Has ⟨a &&& b, pa &&& pb⟩ slot ↔
      TessIoInfo.Has ⟨a, pa⟩ slot ∧ TessIoInfo.Has ⟨b, pb⟩ slot := by
  cases slot <;> simp only [TessIoInfo.Has, BitVec.getLsbD_and, Bool.and_eq_true] <;> tauto

theorem stores_iff {slot : OffchipSlot} :
    p.Stores slot ↔ p.Writes slot ∧ p.Reads slot ∧ ¬ slot.notInTcs := by
  rw [Stores, hullLowered, has_acNirGetTessIoInfo, has_and]
  exact ⟨fun ⟨⟨hw, _⟩, hr, hn⟩ => ⟨hw, hr, hn⟩, fun ⟨hw, hr, hn⟩ => ⟨⟨hw, hr⟩, hr, hn⟩⟩

theorem hullLowered_sub : p.hullLowered.Sub p.domainLowered :=
  fun _ h => (stores_iff.mp h).2.1

theorem hullGathered_eq (p : TessPair) : p.hullGathered = p.hullLowered := by
  simp only [hullGathered, hullLowered, acNirGetTessIoInfo, BitVec.and_allOnes, BitVec.and_assoc,
    BitVec.and_self]

/-! ## One patch per workgroup -/

theorem memOutputs_pos {io : TessIoInfo} {slot : OffchipSlot} (h : io.Has slot) :
    0 < io.highestRemappedVramOutput + io.highestRemappedVramPatchOutput := by
  cases slot with
  | vertex location => exact Nat.add_pos_left (popcount_pos h) _
  | level l => exact Nat.add_pos_right _ (Nat.add_pos_right _ (popcount_pos h))
  | patch index => exact Nat.add_pos_right _ (Nat.add_pos_left (popcount_pos h) _)

theorem numTessPatches_eq_one {io : TessIoInfo} {slot : OffchipSlot} (h : io.Has slot)
    (ldsPerPatch : Nat) : p.numTessPatches io ldsPerPatch = 1 :=
  acComputeNumTessPatches_ps5 ldsPerPatch p.points_le p.vertices_pos p.vertices_le
    (memOutputs_pos h)

theorem hullNumPatches_eq_one {slot : OffchipSlot} (h : p.Stores slot) : p.hullNumPatches = 1 :=
  numTessPatches_eq_one (show p.hullGathered.Has slot by rw [hullGathered_eq]; exact h) _

theorem domainNumPatches_eq_one {slot : OffchipSlot} (h : p.Stores slot) :
    p.domainNumPatches = 1 := by
  obtain ⟨hwrites, -, hnot⟩ := stores_iff.mp h
  have hall : TessIoInfo.Has ⟨BitVec.allOnes 64, BitVec.allOnes 32⟩ slot := by
    have hand : TessIoInfo.Has ⟨p.outputsWritten &&& BitVec.allOnes 64,
        p.patchOutputsWritten &&& BitVec.allOnes 32⟩ slot := by
      rwa [BitVec.and_allOnes, BitVec.and_allOnes]
    exact (has_and.mp hand).2
  exact numTessPatches_eq_one (has_acNirGetTessIoInfo.mpr ⟨hwrites, hall, hnot⟩) _

/-! ## Offsets -/

/-- Two places in a region after another: neither count can make up for the other. -/
theorem place_eq_iff {a a' n n' stride base : Nat} (ha : a ≤ a') (hn : n ≤ n')
    (hstride : 0 < stride) (hbase : 0 < base) :
    a * stride + base * n = a' * stride + base * n' ↔ a = a' ∧ n = n' := by
  have hmul := Nat.mul_le_mul_right stride ha
  have hmul' := Nat.mul_le_mul_left base hn
  constructor
  · intro h
    exact ⟨Nat.eq_of_mul_eq_mul_right hstride (by omega),
      Nat.eq_of_mul_eq_mul_left hbase (by omega)⟩
  · rintro ⟨rfl, rfl⟩
    rfl

theorem hullStoreOffset_vertex {location : Fin 64} (h : p.Stores (.vertex location))
    (relPatch vertex component : Nat) :
    p.hullStoreOffset (.vertex location) relPatch vertex component =
      hsOutputVramMapIoLocation p.hullLowered (.vertex location) *
        tcsMemAttribStride 1 p.verticesOut +
      ((relPatch * p.verticesOut + vertex) * 16 + component * 4) := by
  simp only [hullStoreOffset, hsPerVertexOutputVmemOffset, localInvocationIndex,
    hullNumPatches_eq_one h]
  omega

theorem domainLoadOffset_vertex {location : Fin 64} (h : p.Stores (.vertex location))
    (relPatch vertex component : Nat) :
    p.domainLoadOffset (.vertex location) relPatch vertex component =
      hsOutputVramMapIoLocation p.domainLowered (.vertex location) *
        tcsMemAttribStride 1 p.verticesOut +
      ((relPatch * p.verticesOut + vertex) * 16 + component * 4) := by
  simp only [domainLoadOffset, hsPerVertexOutputVmemOffset, domainNumPatches_eq_one h]
  ring

theorem patchOffsets {slot : OffchipSlot} (h : p.Stores slot)
    (hslot : ∀ location, slot ≠ .vertex location) (relPatch vertex component : Nat) :
    p.hullStoreOffset slot relPatch vertex component =
      hsOutputVramMapIoLocation p.hullLowered slot * align256 16 +
        tcsMemAttribStride 1 p.verticesOut * p.hullLowered.highestRemappedVramOutput +
        (relPatch * 16 + component * 4) ∧
    p.domainLoadOffset slot relPatch vertex component =
      hsOutputVramMapIoLocation p.domainLowered slot * align256 16 +
        tcsMemAttribStride 1 p.verticesOut * p.domainLowered.highestRemappedVramOutput +
        (relPatch * 16 + component * 4) := by
  have hlinked : p.numLinkedInputs = p.domainLowered.highestRemappedVramOutput := rfl
  cases slot with
  | vertex location => exact absurd rfl (hslot location)
  | level l =>
    simp only [hullStoreOffset, domainLoadOffset, hsPerPatchOutputVmemOffset, hsOutPatchDataOffset,
      hullNumPatches_eq_one h, domainNumPatches_eq_one h, hullGathered_eq, hlinked, Nat.one_mul]
    constructor <;> omega
  | patch index =>
    have hindex : (if p.verticesOut = 1 then p.localInvocationIndex relPatch 0 * 16
        else relPatch * 16) = relPatch * 16 := by
      split
      · next hone => rw [localInvocationIndex, hone, Nat.mul_one, Nat.add_zero]
      · rfl
    simp only [hullStoreOffset, domainLoadOffset, hsPerPatchOutputVmemOffset, hsOutPatchDataOffset,
      hullNumPatches_eq_one h, domainNumPatches_eq_one h, hullGathered_eq, hlinked, hindex,
      Nat.one_mul]
    constructor <;> omega

/-- **The two compiles place a stored slot at the same bytes exactly when the hull stores
every slot the domain reads before it.** -/
theorem hullStoreOffset_eq_iff {slot : OffchipSlot} (h : p.Stores slot) :
    (∀ relPatch < p.hullNumPatches, ∀ vertex < p.verticesOut, ∀ component < 4,
      p.hullStoreOffset slot relPatch vertex component =
        p.domainLoadOffset slot relPatch vertex component) ↔
      ∀ r, OffchipSlot.before r slot → p.Reads r → p.Stores r := by
  have hstride : 0 < tcsMemAttribStride 1 p.verticesOut :=
    align256_pos (by have : 0 < p.verticesOut := p.vertices_pos; omega)
  refine Iff.trans ?_ (samePlace_iff hullLowered_sub slot)
  by_cases hslot : ∃ location, slot = .vertex location
  · obtain ⟨location, rfl⟩ := hslot
    simp only [hullStoreOffset_vertex h, domainLoadOffset_vertex h, SamePlace, and_true]
    constructor
    · intro hall
      have h0 := hall 0 (by rw [hullNumPatches_eq_one h]; decide) 0 p.vertices_pos 0 (by decide)
      exact Nat.eq_of_mul_eq_mul_right hstride (Nat.add_right_cancel h0)
    · intro hsame relPatch _ vertex _ component _
      rw [hsame]
  · have hslot : ∀ location, slot ≠ .vertex location := fun location hs => hslot ⟨location, hs⟩
    have hsame : SamePlace p.hullLowered p.domainLowered slot ↔
        hsOutputVramMapIoLocation p.hullLowered slot =
          hsOutputVramMapIoLocation p.domainLowered slot ∧
        p.hullLowered.highestRemappedVramOutput = p.domainLowered.highestRemappedVramOutput := by
      cases slot with
      | vertex location => exact absurd rfl (hslot location)
      | level l => exact Iff.rfl
      | patch index => exact Iff.rfl
    rw [hsame, ← place_eq_iff (hsOutputVramMapIoLocation_le hullLowered_sub slot)
      (vertexCount_le hullLowered_sub) (align256_pos (by decide : 0 < 16)) hstride]
    constructor
    · intro hall
      have h0 := hall 0 (by rw [hullNumPatches_eq_one h]; decide) 0 p.vertices_pos 0 (by decide)
      rw [(patchOffsets h hslot 0 0 0).1, (patchOffsets h hslot 0 0 0).2] at h0
      exact Nat.add_right_cancel h0
    · intro heq relPatch _ vertex _ component _
      rw [(patchOffsets h hslot ..).1, (patchOffsets h hslot ..).2, heq]

/-- **Hull and domain agree exactly when nothing the evaluation half reads without a
matching output comes before a slot both use.** -/
theorem offchipAgree_iff (p : TessPair) : p.OffchipAgree ↔ p.NoHoleBefore := by
  refine forall_congr' fun slot => forall_congr' fun hwrites => forall_congr' fun hreads => ?_
  have hstores : p.Stores slot ↔ ¬ slot.notInTcs := by
    rw [stores_iff]
    exact ⟨fun h => h.2.2, fun h => ⟨hwrites, hreads, h⟩⟩
  constructor
  · rintro ⟨hst, hall⟩
    refine ⟨hstores.mp hst, fun r hbefore hr => ?_⟩
    obtain ⟨hw, -, hn⟩ := stores_iff.mp ((hullStoreOffset_eq_iff hst).mp hall r hbefore hr)
    exact ⟨hw, hn⟩
  · rintro ⟨hnot, hall⟩
    refine ⟨hstores.mpr hnot, (hullStoreOffset_eq_iff (hstores.mpr hnot)).mpr ?_⟩
    intro r hbefore hr
    obtain ⟨hw, hn⟩ := hall r hbefore hr
    exact stores_iff.mpr ⟨hw, hr, hn⟩

end TessPair

/-- A control half that writes the position, the first user location and the first patch slot.
The evaluation half reads those and the point size. -/
def pointSizePair : TessPair where
  outputsWritten := BitVec.twoPow 64 0 ||| BitVec.twoPow 64 32
  patchOutputsWritten := BitVec.twoPow 32 0
  inputsRead := BitVec.twoPow 64 0 ||| BitVec.twoPow 64 12 ||| BitVec.twoPow 64 32
  patchInputsRead := BitVec.twoPow 32 0
  controlVerticesOut := 3
  evalVerticesOut := 0
  patchControlPoints := 3
  hullLdsPerPatch := 0
  domainLdsPerPatch := 0
  vertices_pos := by decide
  vertices_le := by decide
  points_pos := by decide
  points_le := by decide

/-- The same pair without the point size. -/
def matchedPair : TessPair :=
  { pointSizePair with inputsRead := BitVec.twoPow 64 0 ||| BitVec.twoPow 64 32 }

theorem offchipAgree_matchedPair : matchedPair.OffchipAgree := by
  have hnot : ∀ r, matchedPair.Reads r → ¬ r.notInTcs := by
    intro r hr
    cases r with
    | vertex location =>
      have hmask : ∀ location : Fin 64,
          (matchedPair.inputsRead &&& ~~~tessLvlMask).getLsbD location = true →
            ¬ notInTcsMask.getLsbD location = true := by decide
      exact hmask location hr
    | level l => exact not_false
    | patch index => exact not_false
  exact (TessPair.offchipAgree_iff matchedPair).mpr fun slot _ hreads =>
    ⟨hnot slot hreads, fun r _ hr => ⟨hr, hnot r hr⟩⟩

/-- Both halves use the first user location and the first patch slot. The hull stores them at
bytes 256 and 512; the domain loads them from bytes 512 and 768. -/
theorem unwritten_slot_moves_domain :
    pointSizePair.Writes (.vertex 32) ∧ pointSizePair.Reads (.vertex 32) ∧
      pointSizePair.hullStoreOffset (.vertex 32) 0 0 0 = 256 ∧
      pointSizePair.domainLoadOffset (.vertex 32) 0 0 0 = 512 ∧
      pointSizePair.Writes (.patch 0) ∧ pointSizePair.Reads (.patch 0) ∧
      pointSizePair.hullStoreOffset (.patch 0) 0 0 0 = 512 ∧
      pointSizePair.domainLoadOffset (.patch 0) 0 0 0 = 768 ∧ ¬ pointSizePair.OffchipAgree := by
  have hwrites : pointSizePair.Writes (.vertex 32) := by
    show BitVec.getLsbD _ _ = true
    decide
  have hreads : pointSizePair.Reads (.vertex 32) := by
    show BitVec.getLsbD _ _ = true
    decide
  have hhull : pointSizePair.hullStoreOffset (.vertex 32) 0 0 0 = 256 := by decide +kernel
  have hdomain : pointSizePair.domainLoadOffset (.vertex 32) 0 0 0 = 512 := by decide +kernel
  have hpatch : pointSizePair.Writes (.patch 0) ∧ pointSizePair.Reads (.patch 0) := by
    constructor <;> (show BitVec.getLsbD _ _ = true; decide)
  refine ⟨hwrites, hreads, hhull, hdomain, hpatch.1, hpatch.2, by decide +kernel,
    by decide +kernel, fun hagree => ?_⟩
  have h := (hagree _ hwrites hreads).2 0 (by decide +kernel) 0 (by decide +kernel) 0 (by decide)
  rw [hhull, hdomain] at h
  exact absurd h (by decide)

end Psbc.Tess
