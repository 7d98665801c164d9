import Psbc.Merged.Io
import Psbc.Tess.Layout

/-!
# The LDS layout of a merged hull pair

The vertex half of a hull pair stores what the control half reads to LDS, and the control
half keeps there the outputs it reads again. The vote bytes come first, then the input
vertices of all patches, then the outputs of all patches. The halves stay unlinked: both
place a slot at its fixed location, and `psbc_compile_impl` gives the vertex half the
control half's input span, so that both have one vertex stride.

* `HullPair.viaTemp`, `HullPair.viaLds`: how `radv_link_shaders_info` passes an input.
* `lowerLsOutputStore`, `lowerHsPerVertexInputLoad`, `hsOutputLdsOffset`: the addresses.
* `hullPair_sharesLds`: the three regions, and that they fit the published size.
-/

namespace Psbc.Merged

open Mask Cells Linkage Tess

/-! ## The interface -/

/-- The slots between a vertex and a control shader; cull distances are packed behind the
clip distances. -/
inductive IoSlot where
  | pos
  | clipDist0
  | clipDist1
  | psiz
  | var (i : Fin 32)
  deriving DecidableEq, Repr

def IoSlot.location : IoSlot → Nat
  | .pos => 0
  | .clipDist0 => VaryingSlot.clipDist0
  | .clipDist1 => VaryingSlot.clipDist1
  | .psiz => 12
  | .var i => VaryingSlot.var0 + i

def IoSlot.driverLocation (slot : IoSlot) : Nat := radvMapIoDriverLocation slot.location

/-- The slot a load reaches from its own by an offset: generic slots are an array, the
others have constant indices. -/
def IoSlot.plus : IoSlot → Nat → Option IoSlot
  | .var i, offset => if h : i + offset < 32 then some (.var ⟨i + offset, h⟩) else none
  | slot, offset => if offset = 0 then some slot else none

structure InterfaceMask where
  bits : BitVec 64
  slot_of_bit : ∀ i, bits.getLsbD i = true → ∃ slot : IoSlot, slot.location = i

def InterfaceMask.ofSlot (slot : IoSlot) : InterfaceMask where
  bits := BitVec.twoPow 64 slot.location
  slot_of_bit i hi := ⟨slot, by
    simp only [BitVec.getLsbD_twoPow, Bool.and_eq_true, decide_eq_true_eq] at hi
    exact hi.2⟩

/-! ## The two halves -/

structure VertexHalf where
  outputsWritten : BitVec 64
  outputsReadIndirectly : BitVec 64
  outputsWrittenIndirectly : BitVec 64
  floatControlsExecutionMode : BitVec 32

/-- `nir_tcs_info`. -/
structure TcsInfo where
  tessLevelsDefinedByAllInvoc : BitVec 2
  tessLevelsOnlyWrittenByInvoc0 : BitVec 2
  tessLevelsOnlyReadByInvoc0 : BitVec 2
  patchOutputsDefinedByAllInvoc : BitVec 32
  patchOutputsOnlyWrittenByInvoc0 : BitVec 32
  patchOutputsOnlyReadByInvoc0 : BitVec 32

structure ControlHalf where
  sameInvocationInputsRead : InterfaceMask
  crossInvocationInputsRead : InterfaceMask
  inputsReadIndirectly : BitVec 64
  floatControlsExecutionMode : BitVec 32
  outputsWritten : BitVec 64
  outputsRead : BitVec 64
  outputsReadIndirectly : BitVec 64
  outputsWrittenIndirectly : BitVec 64
  crossInvocationOutputsWritten : BitVec 64
  patchOutputsWritten : BitVec 32
  patchOutputsRead : BitVec 32
  patchOutputsReadIndirectly : BitVec 32
  patchOutputsWrittenIndirectly : BitVec 32
  tcsInfo : TcsInfo
  verticesOut : Nat

/-- Every load is of the own or of another invocation's vertex. -/
def ControlHalf.inputsRead (c : ControlHalf) : BitVec 64 :=
  c.sameInvocationInputsRead.bits ||| c.crossInvocationInputsRead.bits

/-- The part of `ac_nir_tess_io_info` about LDS. -/
structure TessLdsInfo where
  ldsOutputMask : BitVec 64
  ldsPatchOutputMask : BitVec 32

/-- Two-bit masks of tess levels as slot masks. -/
def tessLevelSlots (levels : BitVec 2) : BitVec 64 :=
  levels.setWidth 64 <<< TessLevel.outer.location

/-- `ac_nir_get_tess_io_info`, which reads nothing of the evaluation half for these masks. -/
def ControlHalf.ldsInfo (c : ControlHalf) : TessLdsInfo :=
  let onlyWrittenByInvoc0 := tessLevelSlots c.tcsInfo.tessLevelsOnlyWrittenByInvoc0
  let tessLevelsWritten := c.outputsWritten &&& tessLvlMask
  let tessLevelsDontNeedLds :=
    tessLevelsWritten &&& ~~~c.outputsReadIndirectly &&& ~~~c.outputsWrittenIndirectly &&&
      ((onlyWrittenByInvoc0 &&& ~~~c.outputsRead) |||
        (onlyWrittenByInvoc0 &&& tessLevelSlots c.tcsInfo.tessLevelsOnlyReadByInvoc0) |||
        tessLevelSlots c.tcsInfo.tessLevelsDefinedByAllInvoc)
  let patchOutputsDontNeedLds :=
    c.patchOutputsWritten &&& ~~~c.patchOutputsReadIndirectly &&&
      ~~~c.patchOutputsWrittenIndirectly &&&
      ((c.tcsInfo.patchOutputsOnlyWrittenByInvoc0 &&& ~~~c.patchOutputsRead) |||
        (c.tcsInfo.patchOutputsOnlyWrittenByInvoc0 &&& c.tcsInfo.patchOutputsOnlyReadByInvoc0) |||
        c.tcsInfo.patchOutputsDefinedByAllInvoc)
  { ldsOutputMask :=
      (((c.outputsRead &&& c.outputsWritten) ||| c.crossInvocationOutputsWritten |||
        c.outputsWrittenIndirectly) &&& ~~~tessLvlMask) |||
      (tessLevelsWritten &&& ~~~tessLevelsDontNeedLds)
    ldsPatchOutputMask := c.patchOutputsWritten &&& ~~~patchOutputsDontNeedLds }

def getLdsOutputVertexSize (io : TessLdsInfo) : Nat :=
  popcount (io.ldsOutputMask &&& ~~~tessLvlMask) * 16

def getLdsPervertexOutputPatchSize (io : TessLdsInfo) (tcsVerticesOut : Nat) : Nat :=
  tcsVerticesOut * getLdsOutputVertexSize io

def getLdsPerpatchOutputPatchSize (io : TessLdsInfo) : Nat :=
  (popcount (io.ldsOutputMask &&& tessLvlMask) + popcount io.ldsPatchOutputMask) * 16

/-- Four bytes more against bank conflicts. -/
def getLdsOutputPatchStride (io : TessLdsInfo) (tcsVerticesOut : Nat) : Nat :=
  getLdsPervertexOutputPatchSize io tcsVerticesOut + getLdsPerpatchOutputPatchSize io + 4

/-- The fields of the `tcs_offchip_layout` register, which nothing on this target supplies. -/
structure TcsOffchipLayout where
  numLsOutputs : Nat
  numPatches : Nat
  patchVerticesIn : Nat

/-- A load of an input vertex, with how it names slot and vertex. -/
structure HsInputLoad where
  slot : IoSlot
  ioOffset : Nat
  offsetIsConst : Bool
  byInvocationId : Bool
  component : Nat
  element : Nat

/-- The masks of the control half have the slot that a load reaches: constant offsets have been
added to the slot, others are recorded. -/
structure ControlHalf.Gathers (c : ControlHalf) (load : HsInputLoad) (slot : IoSlot) : Prop where
  reaches : load.slot.plus load.ioOffset = some slot
  read : (if load.byInvocationId then c.sameInvocationInputsRead
    else c.crossInvocationInputsRead).bits.getLsbD slot.location = true
  const : load.offsetIsConst = true → load.ioOffset = 0
  indirect : load.offsetIsConst = false → c.inputsReadIndirectly.getLsbD slot.location = true

def hsOutputLdsMapIoLocation (io : TessLdsInfo) : OffchipSlot → Nat
  | .vertex location => rank (io.ldsOutputMask &&& ~~~tessLvlMask) location
  | .level l => rank (io.ldsOutputMask &&& tessLvlMask) l.location
  | .patch index => popcount (io.ldsOutputMask &&& tessLvlMask) + rank io.ldsPatchOutputMask index

/-- A vertex and a control shader with the evaluation shader that is only linked. -/
structure HullPair where
  vertex : VertexHalf
  control : ControlHalf
  evalInputsRead : BitVec 64
  evalPatchInputsRead : BitVec 32
  evalVerticesOut : Nat
  patchControlPoints : Nat
  vertices_pos : 0 < control.verticesOut ||| evalVerticesOut
  vertices_le : control.verticesOut ||| evalVerticesOut ≤ 32
  points_pos : 0 < patchControlPoints
  points_le : patchControlPoints ≤ 32

namespace HullPair

variable (p : HullPair)

/-! ## The info passes and the link -/

/-- `merge_tess_info`. -/
def verticesOut : Nat := p.control.verticesOut ||| p.evalVerticesOut

/-- `gather_shader_info_tcs`; the inputs are not linked. -/
def tcsNumLinkedInputs : Nat := lastBit (radvGatherUnlinkedIoMask p.control.inputsRead)

/-- `psbc_compile_impl` puts the control half's span in the place of the one the info pass
took from the vertex outputs. -/
def vsNumLinkedOutputs : Nat := p.tcsNumLinkedInputs

/-- `lds_per_patch` of `ac_nir_compute_tess_wg_info`. -/
def ldsPerPatch : Nat :=
  p.patchControlPoints * getTcsInputVertexStride p.tcsNumLinkedInputs +
    getLdsOutputPatchStride p.control.ldsInfo p.verticesOut

/-- The pair behind it in the off-chip buffer. -/
def tessPair : TessPair where
  outputsWritten := p.control.outputsWritten
  patchOutputsWritten := p.control.patchOutputsWritten
  inputsRead := p.evalInputsRead
  patchInputsRead := p.evalPatchInputsRead
  controlVerticesOut := p.control.verticesOut
  evalVerticesOut := p.evalVerticesOut
  patchControlPoints := p.patchControlPoints
  hullLdsPerPatch := p.ldsPerPatch
  domainLdsPerPatch := p.ldsPerPatch
  vertices_pos := p.vertices_pos
  vertices_le := p.vertices_le
  points_pos := p.points_pos
  points_le := p.points_le

def numTessPatches : Nat := p.tessPair.hullNumPatches

/-- `tcs.lds_size`. -/
def ldsSize : Nat := p.ldsPerPatch * p.numTessPatches + tessLevelVoteLdsBytes

/-- As many control as vertex invocations, so that both halves run on the same vertex. -/
def tcsInOutEq : Bool :=
  p.patchControlPoints == p.verticesOut &&
    p.vertex.floatControlsExecutionMode == p.control.floatControlsExecutionMode

/-- `tcs_inputs_via_temp`: inputs that stay in registers. -/
def viaTemp : BitVec 64 :=
  if p.tcsInOutEq then
    p.vertex.outputsWritten &&&
      ~~~(p.vertex.outputsReadIndirectly ||| p.vertex.outputsWrittenIndirectly) &&&
      p.control.sameInvocationInputsRead.bits
  else 0

/-- `tcs_inputs_via_lds`. -/
def viaLds : BitVec 64 :=
  let same := p.control.sameInvocationInputsRead.bits
  if p.tcsInOutEq then
    p.control.crossInvocationInputsRead.bits ||| (same &&& p.control.inputsReadIndirectly) |||
      (same &&& (p.vertex.outputsReadIndirectly ||| p.vertex.outputsWrittenIndirectly))
  else p.control.inputsRead

/-! ## The lowerings -/

/-- `load_lshs_vertex_stride_amd` in the vertex half. -/
def lsVertexStride : Nat := getTcsInputVertexStride p.vsNumLinkedOutputs

/-- `load_lshs_vertex_stride_amd` in the control half. The ring table is declared for every
control shader of the target. -/
def hsVertexStride (layout : TcsOffchipLayout) : Nat :=
  let inputsLinked := false
  let ps5RingTableUsed := true
  if inputsLinked || (ps5RingTableUsed && p.patchControlPoints != 0) then
    getTcsInputVertexStride p.tcsNumLinkedInputs
  else layout.numLsOutputs * 16 + if layout.numLsOutputs = 0 then 0 else 4

/-- `load_patch_vertices_in`. -/
def patchVerticesIn (layout : TcsOffchipLayout) : Nat :=
  if p.patchControlPoints ≠ 0 then p.patchControlPoints else layout.patchVerticesIn + 1

/-- `load_tcs_num_patches_amd`. -/
def tcsNumPatches (layout : TcsOffchipLayout) : Nat :=
  if p.numTessPatches ≠ 0 then p.numTessPatches else layout.numPatches

/-- `lower_ls_output_store`: the byte of LDS an element is stored to, if any. Vertex outputs
go through temporaries, so the io offset is zero. -/
def lowerLsOutputStore (location : Nat) (noVarying : Bool) (vertexIdx component element : Nat) :
    Option Nat :=
  let viaTemp := if p.tcsInOutEq then p.viaTemp else 0
  let viaLds := if p.tcsInOutEq then p.viaLds else p.viaLds ||| p.viaTemp
  if location = VaryingSlot.layer ∨ location = VaryingSlot.viewport then none
  else if noVarying || !(viaTemp ||| viaLds).getLsbD location then none
  else if viaLds.getLsbD location then
    let mapped := acNirMapIoLocation location viaLds (some radvMapIoDriverLocation)
    let ioOff := acNirCalcIoOff component 0 16 4 mapped
    some (vertexIdx * p.lsVertexStride + ioOff + tessLevelVoteLdsBytes + element * 4)
  else none

def hsPerVertexInputLdsOffset (layout : TcsOffchipLayout)
    (relPatchId vertexIndex location ioOffset component : Nat) : Nat :=
  let stride := p.hsVertexStride layout
  let tcsInPatchStride := p.patchVerticesIn layout * stride
  let viaLds := if p.tcsInOutEq then p.viaLds else p.control.inputsRead
  let mapped := acNirMapIoLocation location viaLds (some radvMapIoDriverLocation)
  let ioOff := acNirCalcIoOff component ioOffset 16 4 mapped
  relPatchId * tcsInPatchStride + vertexIndex * stride + ioOff + tessLevelVoteLdsBytes

/-- `lower_hs_per_vertex_input_load` behind `filter_load_tcs_per_vertex_input`: the byte of
LDS an element is loaded from, if the load does not stay one of registers. -/
def lowerHsPerVertexInputLoad (layout : TcsOffchipLayout) (load : HsInputLoad)
    (relPatchId vertexIndex : Nat) : Option Nat :=
  let viaTemp := if p.tcsInOutEq then p.viaTemp else 0
  if viaTemp.getLsbD load.slot.location && load.offsetIsConst && load.byInvocationId then none
  else
    some (p.hsPerVertexInputLdsOffset layout relPatchId vertexIndex load.slot.location
      load.ioOffset load.component + load.element * 4)

def hsOutputLdsOffset (layout : TcsOffchipLayout) (slot : OffchipSlot)
    (relPatchId vertexIndex component ioOffset : Nat) : Nat :=
  let io := p.control.ldsInfo
  let off := acNirCalcIoOff component ioOffset 16 4 (hsOutputLdsMapIoLocation io slot)
  let patchOffset := relPatchId * getLdsOutputPatchStride io p.verticesOut
  let inputPatchSize := p.patchVerticesIn layout * p.hsVertexStride layout
  let outputPatch0Offset := inputPatchSize * p.tcsNumPatches layout
  let outputPatchOffset := patchOffset + outputPatch0Offset
  let off :=
    match slot with
    | .vertex _ => off + vertexIndex * getLdsOutputVertexSize io
    | _ => off + getLdsPervertexOutputPatchSize io p.verticesOut
  off + outputPatchOffset + tessLevelVoteLdsBytes

end HullPair

/-- What `fill_shader_metadata` publishes of the workgroup. -/
structure HullMetadata where
  hullTessWgValid : Bool := false
  hullNumPatchesPerWg : Nat := 0
  hullTcsLdsSize : Nat := 0

def HullPair.metadata (p : HullPair) : HullMetadata :=
  if p.ldsSize ≠ 0 ∨ p.numTessPatches ≠ 0 then
    { hullTessWgValid := true
      hullNumPatchesPerWg := p.numTessPatches
      hullTcsLdsSize := p.ldsSize }
  else {}

/-! ## Fixed locations -/

namespace IoSlot

end IoSlot

/-! ## Sizes -/

namespace HullPair

variable {p : HullPair}

def stride (p : HullPair) : Nat := getTcsInputVertexStride p.tcsNumLinkedInputs

section

variable (p : HullPair) (layout : TcsOffchipLayout)

end

/-! ## The input region -/

def lsInvocation (p : HullPair) (relPatch vertex : Nat) : Nat :=
  relPatch * p.patchControlPoints + vertex

def inputCell (p : HullPair) (relPatch vertex : Nat) (slot : IoSlot) (component : Nat) : Nat :=
  tessLevelVoteLdsBytes +
    (p.lsInvocation relPatch vertex * p.stride + ioCell slot.driverLocation component)

/-- The slot is passed through LDS. -/
def PassedThroughLds (p : HullPair) (slot : IoSlot) : Prop :=
  p.viaLds.getLsbD slot.location = true

section

variable {relPatch vertex component element : Nat} {slot : IoSlot}

def outputStart (p : HullPair) : Nat :=
  tessLevelVoteLdsBytes + p.patchControlPoints * p.stride * p.numTessPatches

end

end HullPair

/-! ## The output region -/

/-- The slots an access reaches up to its offset are kept in LDS. -/
def TessLdsInfo.Holds (io : TessLdsInfo) (slot : OffchipSlot) (ioOffset : Nat) : Prop :=
  match slot with
  | .vertex location => ∀ k ≤ ioOffset,
      (io.ldsOutputMask &&& ~~~tessLvlMask).getLsbD (location + k) = true
  | .level l => ioOffset = 0 ∧ (io.ldsOutputMask &&& tessLvlMask).getLsbD l.location = true
  | .patch index => ∀ k ≤ ioOffset, io.ldsPatchOutputMask.getLsbD (index + k) = true

namespace HullPair

variable {p : HullPair} {layout : TcsOffchipLayout} {slot : OffchipSlot}
  {relPatch vertex component ioOffset : Nat}

/-- The halves of the pair share the LDS of a workgroup. -/
structure SharesLds (p : HullPair) : Prop where
  /-- Every slot that is read across invocations is passed through LDS, and so is every slot the
  vertex half writes that is loaded from there. -/
  passed : ∀ load slot, p.control.Gathers load slot →
    load.byInvocationId = false ∨ p.vertex.outputsWritten.getLsbD slot.location = true →
    ∀ layout relPatch vertex,
      (p.lowerHsPerVertexInputLoad layout load relPatch vertex).isSome = true →
      p.PassedThroughLds slot
  /-- A slot passed through LDS is stored to the cell of its vertex and component. -/
  stored : ∀ slot, p.PassedThroughLds slot → ∀ relPatch vertex component element,
    p.lowerLsOutputStore slot.location false (p.lsInvocation relPatch vertex) component element =
      some (p.inputCell relPatch vertex slot (component + element))
  /-- Whatever load reaches the slot, it reads the byte the vertex half stored. -/
  agree : ∀ slot, p.PassedThroughLds slot → ∀ (load : HsInputLoad),
    load.slot.plus load.ioOffset = some slot → ∀ layout relPatch vertex component element,
      component + element = load.component + load.element →
      ∀ address, p.lowerHsPerVertexInputLoad layout load relPatch vertex = some address →
        p.lowerLsOutputStore slot.location false (p.lsInvocation relPatch vertex) component
          element = some address
  /-- A load of another invocation's vertex is one of LDS. -/
  crossLoaded : ∀ (load : HsInputLoad), load.byInvocationId = false →
    ∀ layout relPatch vertex, (p.lowerHsPerVertexInputLoad layout load relPatch vertex).isSome
  apart : ∀ relPatch vertex slot component relPatch' vertex' slot' component',
    p.PassedThroughLds slot → p.PassedThroughLds slot' → vertex < p.patchControlPoints →
    vertex' < p.patchControlPoints → component < 4 → component' < 4 →
    (relPatch, vertex, slot, component) ≠ (relPatch', vertex', slot', component') →
    Apart 4 (p.inputCell relPatch vertex slot component)
      (p.inputCell relPatch' vertex' slot' component')
  inputs : ∀ relPatch vertex slot component, p.PassedThroughLds slot →
    relPatch < p.numTessPatches → vertex < p.patchControlPoints → component < 4 →
    tessLevelVoteLdsBytes ≤ p.inputCell relPatch vertex slot component ∧
      p.inputCell relPatch vertex slot component + 4 ≤ p.outputStart
  outputs : ∀ layout slot ioOffset relPatch vertex component,
    p.control.ldsInfo.Holds slot ioOffset → relPatch < p.numTessPatches →
    vertex < p.verticesOut → component < 4 →
    p.outputStart ≤ p.hsOutputLdsOffset layout slot relPatch vertex component ioOffset ∧
      p.hsOutputLdsOffset layout slot relPatch vertex component ioOffset + 4 ≤
        p.metadata.hullTcsLdsSize
  size : p.metadata.hullTcsLdsSize ≤ 65536

end HullPair

/-- Quads whose control half reads slot 32 of its own vertex and slot 34 of all four. -/
def quadPair : HullPair where
  vertex := ⟨0x700000001, 0, 0, 0⟩
  control :=
    { sameInvocationInputsRead := .ofSlot (.var 0)
      crossInvocationInputsRead := .ofSlot (.var 2)
      inputsReadIndirectly := 0
      floatControlsExecutionMode := 0
      outputsWritten := 0
      outputsRead := 0
      outputsReadIndirectly := 0
      outputsWrittenIndirectly := 0
      crossInvocationOutputsWritten := 0
      patchOutputsWritten := 0
      patchOutputsRead := 0
      patchOutputsReadIndirectly := 0
      patchOutputsWrittenIndirectly := 0
      tcsInfo := ⟨0, 0, 0, 0, 0, 0⟩
      verticesOut := 4 }
  evalInputsRead := 0
  evalPatchInputsRead := 0
  evalVerticesOut := 0
  patchControlPoints := 4
  vertices_pos := by decide
  vertices_le := by decide
  points_pos := by decide
  points_le := by decide

/-- The one stays in registers, the other is the seventh slot of its vertex. -/
example : quadPair.lowerLsOutputStore 32 false 1 0 0 = none ∧
    quadPair.lowerLsOutputStore 34 false 1 0 0 = some (16 + 116 + 6 * 16) := by
  decide +kernel

end Psbc.Merged
