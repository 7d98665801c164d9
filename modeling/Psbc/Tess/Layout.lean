import Mathlib.Tactic.Positivity
import Psbc.Lib.Mask

/-!
# The off-chip layout of a tessellation pair

The control half of a pair stores its outputs to the off-chip buffer, and the evaluation
half loads its inputs from there. Each is compiled on its own: `psbc_compile_tess_pipeline`
compiles the hull with the evaluation half at hand, `psbc_compile_domain_pipeline` the
domain with the control half at hand. Both place a slot by counting the slots before it
(`hs_output_vram_map_io_location`), the hull among the slots it writes and the domain
reads, the domain among the slots it reads.

* `acComputeNumTessPatches`: patches per workgroup.
* `hullStoreOffset`, `domainLoadOffset`: the byte offsets of the two compiles.
-/

namespace Psbc.Tess

open Mask

/-! ## Slots -/

inductive TessLevel where
  | outer
  | inner
  deriving DecidableEq, Repr

/-- `VARYING_SLOT_TESS_LEVEL_OUTER` and `_INNER`. -/
def TessLevel.location : TessLevel → Nat
  | .outer => 26
  | .inner => 27

def tessLvlMask : BitVec 64 :=
  BitVec.twoPow 64 TessLevel.outer.location ||| BitVec.twoPow 64 TessLevel.inner.location

/-- `PRIMITIVE_ID`, `LAYER`, `VIEWPORT` and `PRIMITIVE_SHADING_RATE`. -/
def notInTcsMask : BitVec 64 :=
  BitVec.twoPow 64 21 ||| BitVec.twoPow 64 22 ||| BitVec.twoPow 64 23 ||| BitVec.twoPow 64 24

/-- What the off-chip buffer holds: per-vertex slots, tess levels, patch slots. -/
inductive OffchipSlot where
  | vertex (location : Fin 64)
  | level (l : TessLevel)
  | patch (index : Fin 32)
  deriving DecidableEq, Repr

/-! ## Memory outputs -/

/-- The part of `ac_nir_tess_io_info` about off-chip memory. -/
structure TessIoInfo where
  vramOutputMask : BitVec 64
  vramPatchOutputMask : BitVec 32

/-- `ac_nir_get_tess_io_info` for linked shaders. -/
def acNirGetTessIoInfo (outputsReadByTes : BitVec 64) (patchOutputsReadByTes : BitVec 32)
    (tesInputsRead : BitVec 64) (tesPatchInputsRead : BitVec 32) : TessIoInfo where
  vramOutputMask := outputsReadByTes &&& tesInputsRead &&& ~~~notInTcsMask
  vramPatchOutputMask := patchOutputsReadByTes &&& tesPatchInputsRead

def TessIoInfo.highestRemappedVramOutput (io : TessIoInfo) : Nat :=
  popcount (io.vramOutputMask &&& ~~~tessLvlMask)

/-- With the tess levels, as `radv` asks for. -/
def TessIoInfo.highestRemappedVramPatchOutput (io : TessIoInfo) : Nat :=
  popcount io.vramPatchOutputMask + popcount (io.vramOutputMask &&& tessLvlMask)

/-! ## Patches per workgroup -/

/-- The fields of `ac_compiler_info` the patch count depends on. -/
structure AcInfo where
  hsOffchipWorkgroupDwSize : Nat
  hasPrimidInstancingBug : Bool
  smallerTcsWorkgroups : Bool
  isGfx6 : Bool

/-- `setup_ac_info` leaves these fields zero for the PS5. -/
def ps5AcInfo : AcInfo := ⟨0, false, false, false⟩

def align256 (n : Nat) : Nat := (n + 255) / 256 * 256

def getTcsWgOutputMemSize (numTcsOutputCp numMemTcsOutputs numMemTcsPatchOutputs numPatches : Nat) :
    Nat :=
  align256 (16 * numTcsOutputCp * numPatches) * numMemTcsOutputs +
    align256 (16 * numPatches) * numMemTcsPatchOutputs

/-- One patch more while it fits. The size grows with the patches, so `limit` rounds do. -/
def growPatches (size : Nat → Nat) (limit : Nat) : Nat → Nat → Nat
  | 0, numPatches => numPatches
  | fuel + 1, numPatches =>
    if size (numPatches + 1) ≤ limit then growPatches size limit fuel (numPatches + 1)
    else numPatches

/-- The patches whose outputs fit the off-chip buffer. -/
def fitOffchip (info : AcInfo) (size : Nat → Nat) (numPatches : Nat) : Nat :=
  let limit := info.hsOffchipWorkgroupDwSize * 4
  if limit < size numPatches then growPatches size limit (limit + 1) (limit / size 1)
  else numPatches

/-- `AC_TESS_LEVEL_VOTE_LDS_BYTES`. -/
abbrev tessLevelVoteLdsBytes : Nat := 16

def acComputeNumTessPatches (info : AcInfo) (numTcsInputCp numTcsOutputCp numMemTcsOutputs
    numMemTcsPatchOutputs ldsPerPatch waveSize : Nat) (tessUsesPrimid : Bool) : Nat :=
  if info.hasPrimidInstancingBug && tessUsesPrimid then 1
  else
    let numThreadsPerPatch := max numTcsInputCp numTcsOutputCp
    let n := min (192 / numThreadsPerPatch) 127
    let n := if info.smallerTcsWorkgroups then min n 16 else n
    let n := fitOffchip info
      (getTcsWgOutputMemSize numTcsOutputCp numMemTcsOutputs numMemTcsPatchOutputs) n
    let n := if ldsPerPatch ≠ 0 then min n ((32 * 1024 - tessLevelVoteLdsBytes) / ldsPerPatch)
      else n
    let n := max n 1
    let threadsPerTg := n * numThreadsPerPatch
    let n := if waveSize < threadsPerTg ∧
        max numThreadsPerPatch 8 ≤ waveSize - threadsPerTg % waveSize then
      threadsPerTg / waveSize * waveSize / numThreadsPerPatch else n
    if info.isGfx6 then min n (waveSize / numThreadsPerPatch) else n

theorem align256_pos {n : Nat} (hn : 0 < n) : 0 < align256 n := by
  unfold align256
  omega

theorem getTcsWgOutputMemSize_pos {cp outs patchOuts n : Nat} (hcp : 0 < cp) (hn : 0 < n)
    (houts : 0 < outs + patchOuts) : 0 < getTcsWgOutputMemSize cp outs patchOuts n := by
  unfold getTcsWgOutputMemSize
  have hvertex := align256_pos (show 0 < 16 * cp * n by positivity)
  have hpatch := align256_pos (show 0 < 16 * n by positivity)
  rcases Nat.eq_zero_or_pos outs with rfl | hpos
  · exact Nat.add_pos_right _ (Nat.mul_pos hpatch (by omega))
  · exact Nat.add_pos_left (Nat.mul_pos hvertex hpos) _

/-- The library gives no off-chip budget, so a patch with memory outputs has its workgroup
to itself. -/
theorem acComputeNumTessPatches_ps5 {inputCp outputCp outs patchOuts : Nat} (ldsPerPatch : Nat)
    (hin : inputCp ≤ 32) (hout : 0 < outputCp) (hout' : outputCp ≤ 32)
    (houts : 0 < outs + patchOuts) :
    acComputeNumTessPatches ps5AcInfo inputCp outputCp outs patchOuts ldsPerPatch 64 false = 1 := by
  have hthreads : 0 < max inputCp outputCp ∧ max inputCp outputCp ≤ 32 := by omega
  have hn : 0 < min (192 / max inputCp outputCp) 127 := by
    have : 1 ≤ 192 / max inputCp outputCp := by
      rw [Nat.le_div_iff_mul_le hthreads.1]
      omega
    omega
  have hfit : fitOffchip ps5AcInfo (getTcsWgOutputMemSize outputCp outs patchOuts)
      (min (192 / max inputCp outputCp) 127) = 0 := by
    have hsize := getTcsWgOutputMemSize_pos hout hn houts
    have hone := getTcsWgOutputMemSize_pos hout Nat.one_pos houts
    simp only [fitOffchip, ps5AcInfo, Nat.zero_mul, if_pos hsize, growPatches, Nat.zero_div,
      Nat.zero_add, Nat.not_le.mpr hone, if_false]
  have hwave : ¬ 64 < max inputCp outputCp := by omega
  have hcap : ps5AcInfo.smallerTcsWorkgroups = false ∧ ps5AcInfo.isGfx6 = false ∧
      ps5AcInfo.hasPrimidInstancingBug = false := ⟨rfl, rfl, rfl⟩
  simp [acComputeNumTessPatches, hcap, hfit, hwave]

/-- `hs_output_vram_map_io_location` for linked shaders: the slots of the mask before this
one. `rank m k` is `util_bitcount64(m & BITFIELD64_MASK(k))`. -/
def hsOutputVramMapIoLocation (io : TessIoInfo) : OffchipSlot → Nat
  | .vertex location => rank (io.vramOutputMask &&& ~~~tessLvlMask) location
  | .level l => rank (io.vramOutputMask &&& tessLvlMask) l.location
  | .patch index => popcount (io.vramOutputMask &&& tessLvlMask) + rank io.vramPatchOutputMask index

/-- `load_tcs_mem_attrib_stride` with a constant patch count. -/
def tcsMemAttribStride (numPatches verticesOut : Nat) : Nat :=
  align256 (numPatches * verticesOut * 16)

/-- `load_hs_out_patch_data_offset_amd`: the patch region follows the per-vertex one. -/
def hsOutPatchDataOffset (numPatches verticesOut numMemOutputs : Nat) : Nat :=
  tcsMemAttribStride numPatches verticesOut * numMemOutputs

def hsPerVertexOutputVmemOffset (numPatches verticesOut slotIndex component vertexIndex
    patchOffset : Nat) : Nat :=
  patchOffset + vertexIndex * 16 +
    (slotIndex * tcsMemAttribStride numPatches verticesOut + component * 4)

def hsPerPatchOutputVmemOffset (numPatches verticesOut numMemOutputs slotIndex component
    patchOffset : Nat) : Nat :=
  slotIndex * align256 (numPatches * 16) + component * 4 +
    hsOutPatchDataOffset numPatches verticesOut numMemOutputs + patchOffset

/-! ## The two compiles -/

/-- A control and an evaluation shader with the pipeline's patch size. -/
structure TessPair where
  /-- Per-vertex outputs and tess levels of the control half. -/
  outputsWritten : BitVec 64
  patchOutputsWritten : BitVec 32
  inputsRead : BitVec 64
  patchInputsRead : BitVec 32
  /-- Either half may declare the output vertex count. -/
  controlVerticesOut : Nat
  evalVerticesOut : Nat
  patchControlPoints : Nat
  /-- LDS bytes of a patch, as each compile sees them. -/
  hullLdsPerPatch : Nat
  domainLdsPerPatch : Nat
  vertices_pos : 0 < controlVerticesOut ||| evalVerticesOut
  vertices_le : controlVerticesOut ||| evalVerticesOut ≤ 32
  points_pos : 0 < patchControlPoints
  points_le : patchControlPoints ≤ 32

namespace TessPair

variable (p : TessPair)

/-- `merge_tess_info`, in either compile. -/
def verticesOut : Nat := p.controlVerticesOut ||| p.evalVerticesOut

/-- `gather_shader_info_tcs` in the hull compile, where the outputs are already cut down to
what the evaluation half reads. -/
def hullGathered : TessIoInfo :=
  acNirGetTessIoInfo (p.outputsWritten &&& p.inputsRead)
    (p.patchOutputsWritten &&& p.patchInputsRead) (BitVec.allOnes 64) (BitVec.allOnes 32)

/-- The masks `radv_nir_lower_io` lowers the hull's outputs with. -/
def hullLowered : TessIoInfo :=
  acNirGetTessIoInfo (p.outputsWritten &&& p.inputsRead)
    (p.patchOutputsWritten &&& p.patchInputsRead) p.inputsRead p.patchInputsRead

/-- `gather_shader_info_tcs` for the control half of the domain compile. -/
def controlGathered : TessIoInfo :=
  acNirGetTessIoInfo p.outputsWritten p.patchOutputsWritten (BitVec.allOnes 64) (BitVec.allOnes 32)

/-- The masks of `ac_nir_lower_tes_inputs_to_mem`. -/
def domainLowered : TessIoInfo := ⟨p.inputsRead, p.patchInputsRead⟩

/-- `radv_get_tess_wg_info`, with the wave size of the geometry engine. -/
def numTessPatches (io : TessIoInfo) (ldsPerPatch : Nat) : Nat :=
  acComputeNumTessPatches ps5AcInfo p.patchControlPoints p.verticesOut
    io.highestRemappedVramOutput io.highestRemappedVramPatchOutput ldsPerPatch 64 false

def hullNumPatches : Nat := p.numTessPatches p.hullGathered p.hullLdsPerPatch

/-- The control half's count, which the link copies to the evaluation half. -/
def domainNumPatches : Nat := p.numTessPatches p.controlGathered p.domainLdsPerPatch

/-- The invocations of a workgroup count through its patches. -/
def localInvocationIndex (relPatch vertex : Nat) : Nat := relPatch * p.verticesOut + vertex

/-- The byte the hull stores a component to. Stores are whole vectors. -/
def hullStoreOffset (slot : OffchipSlot) (relPatch vertex component : Nat) : Nat :=
  let index := hsOutputVramMapIoLocation p.hullLowered slot
  let perPatch := hsPerPatchOutputVmemOffset p.hullNumPatches p.verticesOut
    p.hullGathered.highestRemappedVramOutput index 0
  match slot with
  | .vertex _ => hsPerVertexOutputVmemOffset p.hullNumPatches p.verticesOut index 0
      (p.localInvocationIndex relPatch vertex) 0 + component * 4
  | .level _ => perPatch (relPatch * 16) + component * 4
  | .patch _ =>
    -- with one output vertex every invocation is the first of its patch
    perPatch (if p.verticesOut = 1 then p.localInvocationIndex relPatch 0 * 16
      else relPatch * 16) + component * 4

/-- `tes.num_linked_inputs`. -/
def numLinkedInputs : Nat := popcount (p.inputsRead &&& ~~~tessLvlMask)

/-- The byte the domain loads a component from. -/
def domainLoadOffset (slot : OffchipSlot) (relPatch vertex component : Nat) : Nat :=
  let index := hsOutputVramMapIoLocation p.domainLowered slot
  match slot with
  | .vertex _ => hsPerVertexOutputVmemOffset p.domainNumPatches p.verticesOut index component vertex
      (relPatch * (p.verticesOut * 16))
  | _ => hsPerPatchOutputVmemOffset p.domainNumPatches p.verticesOut p.numLinkedInputs index
      component (relPatch * 16)

end TessPair

end Psbc.Tess
