import Psbc.Merged.Io

/-!
# The LDS layout of a merged geometry pair

The first half of a geometry pair, a vertex or an evaluation shader, stores its outputs to
LDS, and the geometry half loads them from there. The store counts bytes from the item
size that the info pass fixes before the link; the load counts dwords from the ring item
size that the link derives, scales by four, and takes the vertex from a packed register.

* `GeometryPair.esInfo`, `GeometryPair.gsInfo`: what `psbc_compile_impl` marks as linked,
  then the info pass, then `radv_link_shaders_info`.
* `lowerEsOutputStore`, `lowerGsPerVertexInputLoad`: the addresses of the two halves.
* `geometryPair_sharesLds`: they are the cells of one layout.
-/

namespace Psbc.Merged

open Mask Cells Linkage

/-! ## The info of the two halves -/

inductive FirstHalf where
  | vertex
  | eval
  deriving DecidableEq, Repr

/-- The part of `radv_shader_info` the first half is lowered with. -/
structure EsInfo where
  outputsLinked : Bool := false
  vsNumLinkedOutputs : Nat := 0
  tesNumLinkedOutputs : Nat := 0
  asEs : Bool := false
  esgsItemsize : Nat := 0
  gsInputsRead : BitVec 64 := 0

/-- The part of `radv_shader_info` the geometry half is lowered with. -/
structure GsInfo where
  isNgg : Bool
  inputsLinked : Bool := false
  numLinkedInputs : Nat := 0
  mergedShaderCompiledSeparately : Bool := false
  /-- `legacy_gs_info.esgs_itemsize`. -/
  legacyEsgsItemsize : Nat := 0
  /-- `ngg_info.vgt_esgs_ring_itemsize`. -/
  vgtEsgsRingItemsize : Nat := 0

structure GeometryPair where
  first : FirstHalf
  outputsWritten : BitVec 64
  inputsRead : BitVec 64

def gatherShaderInfoVs (outputsWritten : BitVec 64) (info : EsInfo) : EsInfo :=
  let numLinkedOutputs :=
    if info.outputsLinked then info.vsNumLinkedOutputs
    else lastBit (radvGatherUnlinkedIoMask outputsWritten)
  { info with
    gsInputsRead := BitVec.allOnes 64
    vsNumLinkedOutputs := numLinkedOutputs
    asEs := true
    esgsItemsize := radvComputeEsgsItemsize numLinkedOutputs }

def gatherShaderInfoTes (outputsWritten : BitVec 64) (info : EsInfo) : EsInfo :=
  let numLinkedOutputs :=
    if info.outputsLinked then info.tesNumLinkedOutputs
    else lastBit (radvGatherUnlinkedIoMask outputsWritten)
  { info with
    gsInputsRead := BitVec.allOnes 64
    tesNumLinkedOutputs := numLinkedOutputs
    asEs := true
    esgsItemsize := radvComputeEsgsItemsize numLinkedOutputs }

/-- With `radv_is_merged_shader_compiled_separately`. -/
def gatherShaderInfoGs (inputsRead : BitVec 64) (info : GsInfo) : GsInfo :=
  let numLinkedInputs :=
    if info.inputsLinked then info.numLinkedInputs
    else lastBit (radvGatherUnlinkedIoMask inputsRead)
  { info with
    mergedShaderCompiledSeparately := !info.inputsLinked
    numLinkedInputs := numLinkedInputs
    legacyEsgsItemsize :=
      if info.isNgg then info.legacyEsgsItemsize else radvComputeEsgsItemsize numLinkedInputs }

/-- `radv_link_shaders_info` on the two halves, with `gfx10_ngg_set_esgs_ring_itemsize`. It
finds the first half of either kind, since `prepare_stage_nir` leaves the shader in it. -/
def radvLinkShadersInfo (gsInputsRead : BitVec 64) (es : EsInfo) (gs : GsInfo) : EsInfo × GsInfo :=
  if es.asEs then
    ({ es with gsInputsRead := gsInputsRead },
      if gs.isNgg then { gs with vgtEsgsRingItemsize := es.esgsItemsize / 4 } else gs)
  else (es, gs)

namespace GeometryPair

variable (p : GeometryPair)

def linkedSlots : Nat := popcount p.inputsRead

/-- What `psbc_compile_impl` marks before the info passes. A pair that is not NGG is
refused. -/
def markedEs : EsInfo :=
  match p.first with
  | .eval => { tesNumLinkedOutputs := p.linkedSlots, outputsLinked := true }
  | .vertex => { vsNumLinkedOutputs := p.linkedSlots, outputsLinked := true }

def markedGs : GsInfo :=
  { isNgg := true, numLinkedInputs := p.linkedSlots, inputsLinked := true }

def gatheredEs : EsInfo :=
  match p.first with
  | .eval => gatherShaderInfoTes p.outputsWritten p.markedEs
  | .vertex => gatherShaderInfoVs p.outputsWritten p.markedEs

def gatheredGs : GsInfo := gatherShaderInfoGs p.inputsRead p.markedGs

def esInfo : EsInfo := (radvLinkShadersInfo p.inputsRead p.gatheredEs p.gatheredGs).1

def gsInfo : GsInfo := (radvLinkShadersInfo p.inputsRead p.gatheredEs p.gatheredGs).2

end GeometryPair

/-! ## The two lowerings -/

/-- `lower_es_output_store`: the byte an element of the value is stored to, if any. Both
halves keep their inputs and outputs in temporaries, so slots have constant indices and
the io offset is zero. -/
def lowerEsOutputStore (info : EsInfo) (location : Nat) (noVarying : Bool)
    (vertexIdx component element : Nat) : Option Nat :=
  if location = VaryingSlot.layer ∨ location = VaryingSlot.viewport then none
  else if noVarying || !info.gsInputsRead.getLsbD location then none
  else
    let mapIo := if info.outputsLinked then none else some radvMapIoDriverLocation
    let mapped := acNirMapIoLocation location info.gsInputsRead mapIo
    let ioOff := acNirCalcIoOff component 0 16 4 mapped
    some (vertexIdx * info.esgsItemsize + ioOff + element * 4)

/-- The vertex a load names: by a constant or by a value. -/
inductive VertexSrc where
  | const (vertex : Nat)
  | dynamic (vertex : Nat)
  deriving DecidableEq, Repr

def VertexSrc.vertex : VertexSrc → Nat
  | .const vertex => vertex
  | .dynamic vertex => vertex

/-- The step of the select chain: an odd vertex has the upper half of its register. -/
def selectVertexOffset (vgpr : Nat → BitVec 32) (vertex : Nat) (acc : BitVec 32) (i : Nat) :
    BitVec 32 :=
  if vertex = i then if i % 2 = 1 then vgpr (i / 2) >>> 16 else vgpr (i / 2) else acc

/-- `gs_per_vertex_input_vertex_offset_gfx9`: two offsets to a register. -/
def gsPerVertexInputVertexOffset (vgpr : Nat → BitVec 32) (verticesIn : Nat) : VertexSrc → BitVec 32
  | .const vertex => vgpr (vertex / 2) >>> (vertex % 2 * 16) &&& 0xffff
  | .dynamic vertex =>
    (List.range' 1 (verticesIn - 1)).foldl (selectVertexOffset vgpr vertex) (vgpr 0) &&& 0xffff

/-- `load_esgs_vertex_stride_amd`; halves compiled on their own get it in a register. -/
def loadEsgsVertexStride (info : GsInfo) (vgtEsgsRingItemsizeArg : Nat) : Nat :=
  if info.mergedShaderCompiledSeparately then vgtEsgsRingItemsizeArg
  else if info.isNgg then info.vgtEsgsRingItemsize
  else info.legacyEsgsItemsize / 4

/-- `gs_per_vertex_input_offset`, for the first component a load reads. -/
def gsPerVertexInputOffset (info : GsInfo) (inputsRead : BitVec 64) (vgtEsgsRingItemsizeArg : Nat)
    (location vertexOffset component : Nat) : Nat :=
  let baseStride := 1
  let mapIo := if info.inputsLinked then none else some radvMapIoDriverLocation
  let mapped := acNirMapIoLocation location inputsRead mapIo
  let ioOff := acNirCalcIoOff component 0 (baseStride * 4) baseStride mapped
  (ioOff + vertexOffset * loadEsgsVertexStride info vgtEsgsRingItemsizeArg) * 4

/-- `lower_gs_per_vertex_input_load`: the byte an element of the value is loaded from. -/
def lowerGsPerVertexInputLoad (info : GsInfo) (inputsRead : BitVec 64)
    (vgtEsgsRingItemsizeArg : Nat) (vgpr : Nat → BitVec 32) (verticesIn : Nat) (src : VertexSrc)
    (location component element : Nat) : Nat :=
  let vertexOffset := gsPerVertexInputVertexOffset vgpr verticesIn src
  gsPerVertexInputOffset info inputsRead vgtEsgsRingItemsizeArg location vertexOffset.toNat
    component + element * 4

/-! ## The vertex offset -/

/-- Vertex offsets have sixteen bits. -/
theorem gsPerVertexInputVertexOffset_lt (vgpr : Nat → BitVec 32) (verticesIn : Nat)
    (src : VertexSrc) : (gsPerVertexInputVertexOffset vgpr verticesIn src).toNat < 2 ^ 16 := by
  cases src <;> exact lt_of_le_of_lt Nat.and_le_right (by decide)

/-! ## What the two halves are lowered with -/

namespace GeometryPair

variable (p : GeometryPair)

theorem esInfo_eq : p.esInfo.outputsLinked = true ∧ p.esInfo.gsInputsRead = p.inputsRead ∧
    p.esInfo.esgsItemsize = radvComputeEsgsItemsize (popcount p.inputsRead) := by
  cases hfirst : p.first <;>
    simp [esInfo, radvLinkShadersInfo, gatheredEs, markedEs, hfirst, gatherShaderInfoVs,
      gatherShaderInfoTes, linkedSlots]

theorem asEs_gatheredEs : p.gatheredEs.asEs = true ∧
    p.gatheredEs.esgsItemsize = p.esInfo.esgsItemsize := by
  cases hfirst : p.first <;>
    simp [esInfo, radvLinkShadersInfo, gatheredEs, hfirst, gatherShaderInfoVs, gatherShaderInfoTes]

theorem gsInfo_eq : p.gsInfo.inputsLinked = true ∧ p.gsInfo.isNgg = true ∧
    p.gsInfo.mergedShaderCompiledSeparately = false ∧
    p.gsInfo.vgtEsgsRingItemsize = p.esInfo.esgsItemsize / 4 := by
  obtain ⟨has, hsize⟩ := p.asEs_gatheredEs
  simp [gsInfo, radvLinkShadersInfo, has, hsize, gatheredGs, gatherShaderInfoGs, markedGs]

/-! ## The layout -/

/-- The cell of a component: the records of the vertices stand behind one another, and a
record holds the slots the geometry half reads. -/
def cell (vertex location component : Nat) : Nat :=
  vertex * p.esInfo.esgsItemsize + ioCell (rank p.inputsRead location) component

variable {p} {vertex location component element : Nat}

theorem lowerEsOutputStore_eq_some (hread : p.inputsRead.getLsbD location = true)
    (hlayer : location ≠ VaryingSlot.layer) (hviewport : location ≠ VaryingSlot.viewport) :
    lowerEsOutputStore p.esInfo location false vertex component element =
      some (p.cell vertex location (component + element)) := by
  obtain ⟨hlinked, hmask, -⟩ := p.esInfo_eq
  simp only [lowerEsOutputStore, hlayer, hviewport, or_self, if_false, hmask, hread, hlinked,
    Bool.not_true, Bool.or_self, Bool.false_eq_true, if_true, acNirMapIoLocation, acNirCalcIoOff,
    cell, ioCell, Option.some.injEq]
  omega

theorem lowerGsPerVertexInputLoad_eq {arg verticesIn : Nat} {vgpr : Nat → BitVec 32}
    {src : VertexSrc} :
    lowerGsPerVertexInputLoad p.gsInfo p.inputsRead arg vgpr verticesIn src location component
      element = p.cell (gsPerVertexInputVertexOffset vgpr verticesIn src).toNat location
        (component + element) := by
  obtain ⟨hlinked, hngg, hmerged, hring⟩ := p.gsInfo_eq
  obtain ⟨-, -, hsize⟩ := p.esInfo_eq
  have hdwords : p.esInfo.esgsItemsize / 4 * 4 = p.esInfo.esgsItemsize :=
    hsize ▸ four_dvd_paddedRecordSize _
  simp only [lowerGsPerVertexInputLoad, gsPerVertexInputOffset, loadEsgsVertexStride, hlinked, hngg,
    hmerged, hring, Bool.false_eq_true, if_true, if_false, acNirMapIoLocation, acNirCalcIoOff,
    cell, ioCell, Nat.add_mul, Nat.mul_assoc, hdwords]
  omega

theorem ioCell_end_le_itemsize (hread : p.inputsRead.getLsbD location = true)
    (hcomponent : component < 4) :
    ioCell (rank p.inputsRead location) component + 4 ≤ p.esInfo.esgsItemsize := by
  rw [p.esInfo_eq.2.2]
  exact ioCell_end_le (rank_lt_popcount hread) hcomponent

theorem cell_apart {vertex' location' component' : Nat}
    (hread : p.inputsRead.getLsbD location = true) (hread' : p.inputsRead.getLsbD location' = true)
    (hcomponent : component < 4) (hcomponent' : component' < 4)
    (hne : (vertex, location, component) ≠ (vertex', location', component')) :
    Apart 4 (p.cell vertex location component) (p.cell vertex' location' component') := by
  refine apart_record (ioCell_end_le_itemsize hread hcomponent)
    (ioCell_end_le_itemsize hread' hcomponent') ?_
  by_cases hvertex : vertex = vertex'
  · -- one vertex: a slot's rank tells it from the other slots read
    refine .inr (ioCell_apart hcomponent hcomponent' ?_)
    by_cases hrank : rank p.inputsRead location = rank p.inputsRead location'
    · refine .inr fun heq => hne ?_
      rw [hvertex, rank_inj hread hread' hrank, heq]
    · exact .inl hrank
  · exact .inl hvertex

theorem cell_within (hread : p.inputsRead.getLsbD location = true) (hcomponent : component < 4) :
    vertex * p.esInfo.esgsItemsize ≤ p.cell vertex location component ∧
      p.cell vertex location component + 4 ≤ (vertex + 1) * p.esInfo.esgsItemsize :=
  ⟨Nat.le_add_right _ _,
    end_le (Nat.lt_succ_self vertex) (ioCell_end_le_itemsize hread hcomponent)⟩

theorem cell_lt (hread : p.inputsRead.getLsbD location = true) (hcomponent : component < 4)
    (hvertex : vertex < 2 ^ 16) : p.cell vertex location component + 4 < 2 ^ 32 := by
  have hsize : p.esInfo.esgsItemsize ≤ 64 * 16 + 4 := by
    rw [p.esInfo_eq.2.2]
    have hcount := popcount_le p.inputsRead
    exact (paddedRecordSize_le _).trans (by omega)
  calc p.cell vertex location component + 4
      ≤ (vertex + 1) * p.esInfo.esgsItemsize := (cell_within hread hcomponent).2
    _ ≤ 2 ^ 16 * (64 * 16 + 4) := Nat.mul_le_mul hvertex hsize
    _ < 2 ^ 32 := by decide

end GeometryPair

/-! ## What is published -/

/-- The fields of the metadata and the context register about the item size. -/
structure MergedGeometryMetadata where
  mergedEsItemsize : Nat
  mergedEsgsRingItemsize : Nat
  /-- `R_028AAC_VGT_ESGS_RING_ITEMSIZE`. -/
  vgtEsgsRingItemsize : Nat

/-- `fill_shader_metadata`. -/
def fillMergedGeometry (es : EsInfo) (gs : GsInfo) : MergedGeometryMetadata where
  mergedEsItemsize := es.esgsItemsize
  mergedEsgsRingItemsize := gs.vgtEsgsRingItemsize
  vgtEsgsRingItemsize := gs.vgtEsgsRingItemsize

namespace GeometryPair

def metadata (p : GeometryPair) : MergedGeometryMetadata := fillMergedGeometry p.esInfo p.gsInfo

/-- One layout for both halves. A value's component is the access's first component plus
the element. -/
structure SharesLds (p : GeometryPair) : Prop where
  /-- Every slot the geometry half reads is stored, except those a first half cannot pass on. -/
  stores : ∀ location, p.inputsRead.getLsbD location = true → location ≠ VaryingSlot.layer →
    location ≠ VaryingSlot.viewport → ∀ vertex component element,
      (lowerEsOutputStore p.esInfo location false vertex component element).isSome
  /-- A load with vertex offset `vertex` reads where invocation `vertex` stores. -/
  agree : ∀ location noVarying vertex component element address,
    lowerEsOutputStore p.esInfo location noVarying vertex component element = some address →
    ∀ arg vgpr verticesIn src component' element',
      (gsPerVertexInputVertexOffset vgpr verticesIn src).toNat = vertex →
      component + element = component' + element' →
      lowerGsPerVertexInputLoad p.gsInfo p.inputsRead arg vgpr verticesIn src location component'
        element' = address
  /-- Where the component is stored. -/
  stored : ∀ location noVarying vertex component element address,
    lowerEsOutputStore p.esInfo location noVarying vertex component element = some address →
    address = p.cell vertex location (component + element)
  apart : ∀ vertex location component vertex' location' component',
    p.inputsRead.getLsbD location = true → p.inputsRead.getLsbD location' = true →
    component < 4 → component' < 4 →
    (vertex, location, component) ≠ (vertex', location', component') →
    Apart 4 (p.cell vertex location component) (p.cell vertex' location' component')
  within : ∀ vertex location component, p.inputsRead.getLsbD location = true → component < 4 →
    vertex * p.metadata.mergedEsItemsize ≤ p.cell vertex location component ∧
      p.cell vertex location component + 4 ≤ (vertex + 1) * p.metadata.mergedEsItemsize
  /-- The 32-bit arithmetic of the code does not wrap at a vertex an offset can name. -/
  noWrap : ∀ vgpr verticesIn src location component, p.inputsRead.getLsbD location = true →
    component < 4 →
    p.cell (gsPerVertexInputVertexOffset vgpr verticesIn src).toNat location component + 4 < 2 ^ 32
  ring : p.metadata.mergedEsgsRingItemsize * 4 = p.metadata.mergedEsItemsize
  register : p.metadata.vgtEsgsRingItemsize * 4 = p.metadata.mergedEsItemsize

/-- A store that is not dropped is one of a slot the geometry half reads. -/
theorem read_of_lowerEsOutputStore {p : GeometryPair}
    {location vertex component element address : Nat} {noVarying : Bool}
    (h : lowerEsOutputStore p.esInfo location noVarying vertex component element = some address) :
    p.inputsRead.getLsbD location = true ∧
      address = p.cell vertex location (component + element) := by
  have hmask := p.esInfo_eq.2.1
  by_cases hslot : location = VaryingSlot.layer ∨ location = VaryingSlot.viewport
  · simp [lowerEsOutputStore, hslot] at h
  · rw [not_or] at hslot
    by_cases hread : p.inputsRead.getLsbD location = true
    · cases noVarying with
      | true => simp [lowerEsOutputStore, hslot] at h
      | false =>
        rw [lowerEsOutputStore_eq_some hread hslot.1 hslot.2] at h
        exact ⟨hread, (Option.some.inj h).symm⟩
    · simp [lowerEsOutputStore, hslot, hmask, hread] at h

end GeometryPair

/-- The two halves of a geometry pair share one LDS layout, whatever the geometry half
reads. -/
theorem geometryPair_sharesLds (p : GeometryPair) : p.SharesLds := by
  have hring : p.gsInfo.vgtEsgsRingItemsize * 4 = p.esInfo.esgsItemsize := by
    rw [p.gsInfo_eq.2.2.2, p.esInfo_eq.2.2]
    exact four_dvd_paddedRecordSize _
  refine ⟨?_, ?_, ?_, ?_, ?_, ?_, hring, hring⟩
  · intro location hread hlayer hviewport vertex component element
    rw [GeometryPair.lowerEsOutputStore_eq_some hread hlayer hviewport]
    rfl
  · intro location noVarying vertex component element address hstore arg vgpr verticesIn src
      component' element' hvertex hcomponent
    rw [GeometryPair.lowerGsPerVertexInputLoad_eq, hvertex, ← hcomponent]
    exact (GeometryPair.read_of_lowerEsOutputStore hstore).2.symm
  · intro location noVarying vertex component element address hstore
    exact (GeometryPair.read_of_lowerEsOutputStore hstore).2
  · intro vertex location component vertex' location' component' hread hread' hc hc' hne
    exact GeometryPair.cell_apart hread hread' hc hc' hne
  · intro vertex location component hread hc
    exact GeometryPair.cell_within hread hc
  · intro vgpr verticesIn src location component hread hc
    exact GeometryPair.cell_lt hread hc (gsPerVertexInputVertexOffset_lt vgpr verticesIn src)

/-- Slots 32 and 34 are read: two slots and a dword to a vertex. -/
example : lowerEsOutputStore (GeometryPair.esInfo ⟨.eval, 0, 0x500000000⟩) 34 false 3 0 1 =
    some (3 * 36 + 16 + 4) := by
  decide +kernel

end Psbc.Merged
