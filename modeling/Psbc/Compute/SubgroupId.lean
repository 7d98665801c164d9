import Psbc.Lib.Waves

/-!
# Compute subgroup numbers on PS5

The PS5 dispatch does not supply the register that the code generator reads a wave's number
from. `lowerPs5ComputeSubgroupId` replaces the three built-ins that depend on it by values
built from the local invocation id and the workgroup size: the invocation's index in row-major
order, the index over the wave size, and the number of waves.

`Def` is a value of the lowered shader, built by the functions of `nir_builder.h` and evaluated
in 32-bit arithmetic.
-/

namespace Psbc.Compute

open Waves

/-! ## The pass -/

inductive Intrinsic where
  | loadSubgroupId
  | loadLocalInvocationIndex
  | loadNumSubgroups
  | other
  deriving DecidableEq, Repr

/-- A value of the shader; a vector is given by its channels. -/
inductive Def where
  | immInt (value : BitVec 32)
  | loadLocalInvocationId (channel : Fin 3)
  | loadWorkgroupSize (channel : Fin 3)
  | iadd (a b : Def)
  | imul (a b : Def)
  | udiv (a b : Def)
  | ushrImm (a : Def) (amount : Nat)
  deriving DecidableEq, Repr

/-- `nir_iadd_imm` at 32 bits. -/
def nirIaddImm (x : Def) (y : Nat) : Def :=
  if y % 2 ^ 32 = 0 then x else .iadd x (.immInt (BitVec.ofNat 32 y))

/-- `nir_udiv_imm` at 32 bits: a power of two becomes a shift. -/
def nirUdivImm (x : Def) (y : Nat) : Def :=
  let y := y % 2 ^ 32
  if y = 1 then x
  else if y ≠ 0 ∧ y &&& (y - 1) = 0 then .ushrImm x (Nat.log2 y)
  else .udiv x (.immInt (BitVec.ofNat 32 y))

/-- The fields of `shader_info` that the pass reads. -/
structure ShaderInfo where
  workgroupSizeVariable : Bool
  workgroupSize : Fin 3 → BitVec 16

section

variable (info : ShaderInfo)

/-- A side of the workgroup: loaded when it is variable, an immediate otherwise. -/
def side (channel : Fin 3) : Def :=
  if info.workgroupSizeVariable then .loadWorkgroupSize channel
  else .immInt ((info.workgroupSize channel).setWidth 32)

def invocations : Def :=
  if info.workgroupSizeVariable then
    .imul (.loadWorkgroupSize 0) (.imul (.loadWorkgroupSize 1) (.loadWorkgroupSize 2))
  else
    .immInt ((info.workgroupSize 0).setWidth 32 * (info.workgroupSize 1).setWidth 32 *
      (info.workgroupSize 2).setWidth 32)

def index : Def :=
  .iadd (.loadLocalInvocationId 0)
    (.imul (side info 0)
      (.iadd (.loadLocalInvocationId 1) (.imul (side info 1) (.loadLocalInvocationId 2))))

/-- `lower_ps5_compute_subgroup_id`: the value that replaces the intrinsic, if the pass
replaces it. -/
def lowerPs5ComputeSubgroupId (waveSize : Nat) (intrinsic : Intrinsic) : Option Def :=
  if intrinsic = .other then none
  else if waveSize ≠ 32 ∧ waveSize ≠ 64 then none
  else if intrinsic = .loadNumSubgroups then
    some (nirUdivImm (nirIaddImm (invocations info) (waveSize - 1)) waveSize)
  else if intrinsic = .loadLocalInvocationIndex then some (index info)
  else some (nirUdivImm (index info) waveSize)

end

/-! ## What the values are -/

structure LocalId where
  x : BitVec 32
  y : BitVec 32
  z : BitVec 32

def LocalId.channel (id : LocalId) : Fin 3 → BitVec 32
  | 0 => id.x
  | 1 => id.y
  | 2 => id.z

/-- The coordinates as numbers, nested as the rows are. -/
def LocalId.coordinates (id : LocalId) : ℕ × ℕ × ℕ := (id.x.toNat, id.y.toNat, id.z.toNat)

/-- A workgroup: the shader's size, and the one of the dispatch, which counts when the
shader's is variable. -/
structure Workgroup where
  info : ShaderInfo
  dispatched : Fin 3 → BitVec 32

namespace Workgroup

variable (g : Workgroup)

def eval (id : LocalId) : Def → BitVec 32
  | .immInt value => value
  | .loadLocalInvocationId channel => id.channel channel
  | .loadWorkgroupSize channel => g.dispatched channel
  | .iadd a b => eval id a + eval id b
  | .imul a b => eval id a * eval id b
  | .udiv a b => eval id a / eval id b
  | .ushrImm a amount => eval id a >>> amount

def value (d : Def) (id : LocalId) : ℕ := (g.eval id d).toNat

def size (channel : Fin 3) : ℕ :=
  if g.info.workgroupSizeVariable then (g.dispatched channel).toNat
  else (g.info.workgroupSize channel).toNat

def total : ℕ := g.size 0 * g.size 1 * g.size 2

def ids : Set LocalId :=
  {id | id.x.toNat < g.size 0 ∧ id.y.toNat < g.size 1 ∧ id.z.toNat < g.size 2}

/-- Sizes for which the 32-bit arithmetic is exact. -/
structure Exact : Prop where
  pos : ∀ channel, 0 < g.size channel
  total_le : g.total ≤ 2 ^ 32 - 64

variable {g} {id : LocalId}

theorem Exact.rows_le (h : g.Exact) : g.size 1 * g.size 2 ≤ g.total := by
  rw [total, Nat.mul_assoc]
  exact Nat.le_mul_of_pos_left _ (h.pos 0)

theorem value_side (id : LocalId) (channel : Fin 3) :
    g.value (side g.info channel) id = g.size channel := by
  unfold value side size
  split
  · rfl
  · rw [eval, BitVec.toNat_setWidth, Nat.mod_eq_of_lt]
    exact Nat.lt_of_lt_of_le (g.info.workgroupSize channel).isLt (by decide)

theorem value_iadd {a b : Def} (h : g.value a id + g.value b id < 2 ^ 32) :
    g.value (.iadd a b) id = g.value a id + g.value b id := BitVec.toNat_add_of_lt h

theorem value_imul {a b : Def} (h : g.value a id * g.value b id < 2 ^ 32) :
    g.value (.imul a b) id = g.value a id * g.value b id := BitVec.toNat_mul_of_lt h

theorem value_nirUdivImm {d : Def} {waveSize : ℕ} (hwave : waveSize = 32 ∨ waveSize = 64) :
    g.value (nirUdivImm d waveSize) id = g.value d id / waveSize := by
  rcases hwave with rfl | rfl
  · have hshift : nirUdivImm d 32 = .ushrImm d 5 := rfl
    rw [hshift, value, eval, BitVec.toNat_ushiftRight, Nat.shiftRight_eq_div_pow]
    rfl
  · have hshift : nirUdivImm d 64 = .ushrImm d 6 := rfl
    rw [hshift, value, eval, BitVec.toNat_ushiftRight, Nat.shiftRight_eq_div_pow]
    rfl

theorem value_invocations (h : g.Exact) : g.value (invocations g.info) id = g.total := by
  have hmax := h.total_le
  have hrows := h.rows_le
  unfold invocations
  split
  · next hvar =>
    have hside : ∀ c, g.value (.loadWorkgroupSize c) id = g.size c := fun c => by
      rw [size, if_pos hvar]
      rfl
    have hinner : g.value (.imul (.loadWorkgroupSize 1) (.loadWorkgroupSize 2)) id =
        g.size 1 * g.size 2 := by
      rw [value_imul (by rw [hside, hside]; omega), hside, hside]
    have hall : g.size 0 * (g.size 1 * g.size 2) = g.total := (Nat.mul_assoc _ _ _).symm
    rw [value_imul (by rw [hside, hinner]; omega), hside, hinner, hall]
  · next hfixed =>
    have hside : ∀ c, ((g.info.workgroupSize c).setWidth 32).toNat = g.size c := fun c => by
      have hvalue := value_side (g := g) id c
      rwa [side, if_neg hfixed] at hvalue
    have hfirst : g.size 0 * g.size 1 ≤ g.total := Nat.le_mul_of_pos_right _ (h.pos 2)
    have hpair := BitVec.toNat_mul_of_lt (x := (g.info.workgroupSize 0).setWidth 32)
      (y := (g.info.workgroupSize 1).setWidth 32) (by rw [hside, hside]; omega)
    rw [hside, hside] at hpair
    rw [value, eval, BitVec.toNat_mul_of_lt (by rw [hpair, hside, ← total]; omega), hpair, hside,
      total]

theorem value_index (h : g.Exact) (hid : id ∈ g.ids) :
    g.value (index g.info) id =
      rowMajor (g.size 0) (id.x.toNat, rowMajor (g.size 1) (id.y.toNat, id.z.toNat)) := by
  obtain ⟨hx, hy, hz⟩ := hid
  have hmax := h.total_le
  have hrows := h.rows_le
  -- each partial result stays below the number of invocations
  have hplane : rowMajor (g.size 1) (id.y.toNat, id.z.toNat) < g.size 1 * g.size 2 :=
    rowMajor_lt hy hz
  have hall : rowMajor (g.size 0) (id.x.toNat, rowMajor (g.size 1) (id.y.toNat, id.z.toNat)) <
      g.total := by
    rw [total, Nat.mul_assoc]
    exact rowMajor_lt hx hplane
  unfold rowMajor at hplane hall ⊢
  dsimp only at hplane hall ⊢
  have hload0 : g.value (.loadLocalInvocationId 0) id = id.x.toNat := rfl
  have hload1 : g.value (.loadLocalInvocationId 1) id = id.y.toNat := rfl
  have hload2 : g.value (.loadLocalInvocationId 2) id = id.z.toNat := rfl
  have hrow : g.value (.imul (side g.info 1) (.loadLocalInvocationId 2)) id =
      g.size 1 * id.z.toNat := by
    rw [value_imul (by rw [value_side, hload2]; omega), value_side, hload2]
  have hinner : g.value (.iadd (.loadLocalInvocationId 1)
      (.imul (side g.info 1) (.loadLocalInvocationId 2))) id =
        id.y.toNat + g.size 1 * id.z.toNat := by
    rw [value_iadd (by rw [hload1, hrow]; omega), hload1, hrow]
  have houter : g.value (.imul (side g.info 0) (.iadd (.loadLocalInvocationId 1)
      (.imul (side g.info 1) (.loadLocalInvocationId 2)))) id =
        g.size 0 * (id.y.toNat + g.size 1 * id.z.toNat) := by
    rw [value_imul (by rw [value_side, hinner]; omega), value_side, hinner]
  rw [index, value_iadd (by rw [hload0, houter]; omega), hload0, houter]

theorem value_numSubgroups (h : g.Exact) {waveSize : ℕ} (hwave : waveSize = 32 ∨ waveSize = 64) :
    g.value (nirUdivImm (nirIaddImm (invocations g.info) (waveSize - 1)) waveSize) id =
      g.total ⌈/⌉ waveSize := by
  have hmax := h.total_le
  have himm : nirIaddImm (invocations g.info) (waveSize - 1) =
      .iadd (invocations g.info) (.immInt (BitVec.ofNat 32 (waveSize - 1))) := by
    rcases hwave with rfl | rfl <;> rfl
  have hvalue : g.value (.immInt (BitVec.ofNat 32 (waveSize - 1))) id = waveSize - 1 := by
    rcases hwave with rfl | rfl <;> rfl
  rw [value_nirUdivImm hwave, himm, value_iadd (by rw [value_invocations h, hvalue]; omega),
    value_invocations h, hvalue, Nat.ceilDiv_eq_add_pred_div, Nat.add_sub_assoc (by omega)]

/-! ## The numbering -/

theorem size_le (channel : Fin 3) : g.size channel ≤ 2 ^ 32 := by
  unfold size
  split
  · exact (g.dispatched channel).isLt.le
  · exact ((g.info.workgroupSize channel).isLt.trans (by decide)).le

theorem bijOn_coordinates :
    Set.BijOn LocalId.coordinates g.ids
      (Set.Iio (g.size 0) ×ˢ Set.Iio (g.size 1) ×ˢ Set.Iio (g.size 2)) := by
  refine ⟨fun id hid => hid, fun id _ id' _ heq => ?_, fun p hp => ?_⟩
  · obtain ⟨x, y, z⟩ := id
    obtain ⟨x', y', z'⟩ := id'
    simp only [LocalId.coordinates, Prod.mk.injEq] at heq
    obtain ⟨hx, hy, hz⟩ := heq
    rw [BitVec.eq_of_toNat_eq hx, BitVec.eq_of_toNat_eq hy, BitVec.eq_of_toNat_eq hz]
  · obtain ⟨x, y, z⟩ := p
    obtain ⟨hx, hy, hz⟩ : x < g.size 0 ∧ y < g.size 1 ∧ z < g.size 2 := hp
    have hof : ∀ {c : Fin 3} {n : ℕ}, n < g.size c → (BitVec.ofNat 32 n).toNat = n := fun hn =>
      (BitVec.toNat_ofNat _ _).trans (Nat.mod_eq_of_lt (hn.trans_le (size_le _)))
    refine ⟨⟨BitVec.ofNat 32 x, BitVec.ofNat 32 y, BitVec.ofNat 32 z⟩, ⟨?_, ?_, ?_⟩, ?_⟩
    · dsimp only
      rwa [hof hx]
    · dsimp only
      rwa [hof hy]
    · dsimp only
      rwa [hof hz]
    · rw [LocalId.coordinates, hof hx, hof hy, hof hz]

theorem bijOn_index (h : g.Exact) :
    Set.BijOn (g.value (index g.info)) g.ids (Set.Iio g.total) := by
  have hrows := (Set.bijOn_id (Set.Iio (g.size 0))).prodMap (bijOn_rowMajor (g.size 1) (g.size 2))
  have hall := ((bijOn_rowMajor (g.size 0) _).comp hrows).comp bijOn_coordinates
  rw [← Nat.mul_assoc] at hall
  exact hall.congr fun id hid => (value_index h hid).symm

/-- What the three built-ins have to be, for waves of `waveSize` invocations. -/
structure Numbered (g : Workgroup) (waveSize : ℕ) (localIndex subgroup numSubgroups : Def) :
    Prop where
  index_bijOn : Set.BijOn (g.value localIndex) g.ids (Set.Iio g.total)
  subgroup_eq : ∀ id ∈ g.ids, g.value subgroup id = g.value localIndex id / waveSize
  subgroup_lt : ∀ id ∈ g.ids, g.value subgroup id < g.value numSubgroups id
  num_eq : ∀ id ∈ g.ids, g.value numSubgroups id = g.total ⌈/⌉ waveSize
  full : ∀ k, k + 1 < g.total ⌈/⌉ waveSize →
    {id ∈ g.ids | g.value subgroup id = k}.ncard = waveSize
  last_pos : 1 ≤ {id ∈ g.ids | g.value subgroup id = g.total ⌈/⌉ waveSize - 1}.ncard
  last_le : {id ∈ g.ids | g.value subgroup id = g.total ⌈/⌉ waveSize - 1}.ncard ≤ waveSize

/-- **The lowering numbers the invocations and cuts them into full waves.** -/
theorem lowerPs5ComputeSubgroupId_numbered (g : Workgroup) (waveSize : ℕ)
    (hwave : waveSize = 32 ∨ waveSize = 64) (h : g.Exact) :
    ∃ localIndex subgroup numSubgroups,
      lowerPs5ComputeSubgroupId g.info waveSize .loadLocalInvocationIndex = some localIndex ∧
      lowerPs5ComputeSubgroupId g.info waveSize .loadSubgroupId = some subgroup ∧
      lowerPs5ComputeSubgroupId g.info waveSize .loadNumSubgroups = some numSubgroups ∧
      Numbered g waveSize localIndex subgroup numSubgroups := by
  have hpos : 0 < waveSize := by omega
  have htotal : 0 < g.total := Nat.mul_pos (Nat.mul_pos (h.pos 0) (h.pos 1)) (h.pos 2)
  have hbij := bijOn_index h
  have hsubgroup : ∀ id, g.value (nirUdivImm (index g.info) waveSize) id =
      g.value (index g.info) id / waveSize := fun id => value_nirUdivImm hwave
  have hwaves : ∀ k, {id ∈ g.ids | g.value (nirUdivImm (index g.info) waveSize) id = k} =
      wave (g.value (index g.info)) g.ids waveSize k := fun k => by
    simp only [hsubgroup]
    rfl
  refine ⟨index g.info, nirUdivImm (index g.info) waveSize,
    nirUdivImm (nirIaddImm (invocations g.info) (waveSize - 1)) waveSize, ?_, ?_, ?_, ?_⟩
  iterate 3 rcases hwave with rfl | rfl <;> rfl
  constructor
  case index_bijOn => exact hbij
  case subgroup_eq => exact fun id _ => hsubgroup id
  case num_eq => exact fun id _ => value_numSubgroups h hwave
  case subgroup_lt =>
    intro id hid
    rw [hsubgroup, value_numSubgroups h hwave]
    exact div_lt_ceilDiv hpos (hbij.mapsTo hid)
  case full =>
    intro k hk
    rw [hwaves]
    exact ncard_wave_of_lt hbij hpos hk
  case last_pos =>
    rw [hwaves]
    exact (ncard_wave_last hbij hpos htotal).1
  case last_le =>
    rw [hwaves]
    exact (ncard_wave_last hbij hpos htotal).2

def smallGroup : Workgroup where
  info := ⟨true, fun _ => 0⟩
  dispatched
    | 0 => 8
    | 1 => 5
    | 2 => 3

theorem smallGroup_exact : smallGroup.Exact := ⟨by decide, by decide⟩

/-- In waves of 32, its 120 invocations are three full waves and one of 24. -/
theorem smallGroup_numbered :
    smallGroup.total ⌈/⌉ 32 = 4 ∧
    ∃ localIndex subgroup numSubgroups,
      lowerPs5ComputeSubgroupId smallGroup.info 32 .loadLocalInvocationIndex = some localIndex ∧
      lowerPs5ComputeSubgroupId smallGroup.info 32 .loadSubgroupId = some subgroup ∧
      lowerPs5ComputeSubgroupId smallGroup.info 32 .loadNumSubgroups = some numSubgroups ∧
      Numbered smallGroup 32 localIndex subgroup numSubgroups :=
  ⟨by decide, lowerPs5ComputeSubgroupId_numbered smallGroup 32 (.inl rfl) smallGroup_exact⟩

end Workgroup

end Psbc.Compute
