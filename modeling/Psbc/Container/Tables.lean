import Psbc.Container.Read

/-!
# Walking the tables of the container

Behind the stage structure stand the input usage slots, the input semantics and the export
semantics. A reader walks them by the three counts of the structure, and finds the usage
slots from the info block by a back pointer of one byte.

The counts are written by the public stage, the tables by the Mesa stage.
`buildshaderbinary_tablesRead_iff` says when they agree, and
`buildshaderbinary_backPointer_iff` when the back pointer does not overflow its byte.
-/

namespace Psbc.Container

open Bytes Mask

/-! ## What is laid out -/

section Parts

variable (abi : GnmAbi) (ctx : BuildContext) (code : List Word)

def headerKind : PsbcStage → HeaderKind
  | .vertex | .tessEval | .none | .task => .vs
  | .exportShader => .es
  | .localShader => .ls
  | .fragment => .ps
  | .compute => .cs
  | .geometry => .gs
  | .tessCtrl => .hs

/-- `numinputsemantics`, by the public stage. -/
def headerInputs : Nat :=
  match ctx.psbcStage with
  | .vertex | .tessEval => ctx.inputSemantics.length
  | .compute | .none | .task => 0
  | _ => popcount ctx.inputsRead

/-- `numexportsemantics`, by the public stage. -/
def headerExports : Nat :=
  match ctx.psbcStage with
  | .vertex | .tessEval | .geometry | .exportShader | .localShader => outputswritten ctx
  | _ => 0

def headerRegisters : List Word :=
  match ctx.psbcStage with
  | .compute => ctx.workgroupSize.map fun n => BitVec.ofNat 32 (if n = 0 then 1 else n)
  | .exportShader | .localShader => []
  | _ => ctx.stageRegisters

def stageStructure : StageHeader :=
  stageHeader abi ctx code (if ctx.psbcStage = .compute then 0 else 0xffffffff)
    (headerRegisters ctx) (headerInputs ctx) (headerExports ctx)

theorem shaderHeader_eq_stageStructure {header : List Byte}
    (h : shaderHeader abi ctx code = some header) :
    header = abi.encodeHeader (headerKind ctx.psbcStage) (stageStructure abi ctx code) := by
  unfold shaderHeader at h
  unfold stageStructure headerRegisters headerInputs headerExports
  cases hs : ctx.psbcStage <;> rw [hs] at h <;> simp only [Option.some.injEq, reduceCtorEq] at h <;>
    exact h.symm

def inputSize : Nat := if ctx.stage = .fragment then abi.pixelInputSize else abi.vertexInputSize

def inputEntries : List (List Byte) :=
  match ctx.stage with
  | .vertex | .tessEval => (vertexInputs ctx).map abi.encodeVertexInput
  | .geometry | .tessCtrl => (plainInputs ctx).map abi.encodeVertexInput
  | .fragment => (pixelInputs ctx).map abi.encodePixelInput
  | _ => []

def exportEntries : List (List Byte) :=
  match ctx.stage with
  | .vertex | .tessEval | .geometry => (vertexExports ctx).map abi.encodeVertexExport
  | _ => []

def slotEntries : List (List Byte) := (usageSlots ctx).map abi.encodeUsageSlot

theorem semantics_eq_flatten :
    semantics abi ctx = (inputEntries abi ctx).flatten ++ (exportEntries abi ctx).flatten := by
  unfold semantics inputEntries exportEntries
  cases ctx.stage <;> simp [List.flatMap]

theorem length_slotEntry : ∀ e ∈ slotEntries abi ctx, e.length = abi.usageSlotSize := by
  simp [slotEntries, abi.length_encodeUsageSlot]

theorem length_inputEntry : ∀ e ∈ inputEntries abi ctx, e.length = inputSize abi ctx := by
  unfold inputEntries inputSize
  cases ctx.stage <;> simp [abi.length_encodeVertexInput, abi.length_encodePixelInput]

theorem length_exportEntry : ∀ e ∈ exportEntries abi ctx, e.length = abi.vertexExportSize := by
  unfold exportEntries
  cases ctx.stage <;> simp [abi.length_encodeVertexExport]

@[simp] theorem length_slotEntries : (slotEntries abi ctx).length = numinputslots ctx := by
  rw [slotEntries, List.length_map, length_usageSlots]

end Parts

/-! ## The walk -/

section Walk

variable (abi : GnmAbi) (ctx : BuildContext) (code : List Word)

def slotsOffset : Nat := 0x24 + 0x10 + headershsize abi ctx.psbcStage

/-- Where a walk by the counts of `h` gets to the input semantics, to the export semantics
and to its end. -/
def inputsOffset (h : StageHeader) : Nat :=
  slotsOffset abi ctx + h.numinputusageslots * abi.usageSlotSize

def exportsOffset (h : StageHeader) : Nat :=
  inputsOffset abi ctx h + h.numinputsemantics * inputSize abi ctx

def tablesEnd (h : StageHeader) : Nat :=
  exportsOffset abi ctx h + h.numexportsemantics * abi.vertexExportSize

/-- The counts of the structure `h` are those of the tables, so that a walk by them reads
each entry once and ends within the padding in front of the code. -/
structure TablesRead (h : StageHeader) (data : List Byte) : Prop where
  slotCount : h.numinputusageslots = (slotEntries abi ctx).length
  inputCount : h.numinputsemantics = (inputEntries abi ctx).length
  exportCount : h.numexportsemantics = (exportEntries abi ctx).length
  slots : entries data (slotsOffset abi ctx) abi.usageSlotSize h.numinputusageslots =
    slotEntries abi ctx
  inputs : entries data (inputsOffset abi ctx h) (inputSize abi ctx) h.numinputsemantics =
    inputEntries abi ctx
  exports : entries data (exportsOffset abi ctx h) abi.vertexExportSize h.numexportsemantics =
    exportEntries abi ctx
  padding : tablesEnd abi ctx h ≤ 0x24 + 0x10 + shspecificsize abi ctx ∧
    0x24 + 0x10 + shspecificsize abi ctx < tablesEnd abi ctx h + 4

variable {abi ctx code} {header : List Byte}

/-- The container around its tables. -/
theorem layout_eq_tables (hheader : shaderHeader abi ctx code = some header) :
    ∃ front rest, front.length = slotsOffset abi ctx ∧
      layout abi ctx code header = front ++ ((slotEntries abi ctx).flatten ++
        ((inputEntries abi ctx).flatten ++ ((exportEntries abi ctx).flatten ++ rest))) := by
  refine ⟨psslHeader abi ctx code ++ gnmFileHeader abi ctx ++ header,
    List.replicate (alignbytes (unalignedSize abi ctx)) 0 ++ (codeBytes ctx code ++
      (binaryInfo abi ctx code (infoOffset abi ctx code) ++
        (leBytes 4 (containerCrc abi ctx code).toNat ++ List.replicate 0x1c 0))), ?_, ?_⟩
  · rw [List.length_append, List.length_append, length_psslHeader, length_gnmFileHeader,
      length_shaderHeader abi ctx code hheader, slotsOffset]
  · simp only [layout, stageArea, semantics_eq_flatten, slotEntries, List.flatMap,
      List.append_assoc]

theorem slice_header (hheader : shaderHeader abi ctx code = some header) :
    slice (layout abi ctx code header) (0x24 + 0x10) (headershsize abi ctx.psbcStage) =
      header := by
  obtain ⟨rest, hlayout⟩ : ∃ rest, layout abi ctx code header =
      (psslHeader abi ctx code ++ gnmFileHeader abi ctx) ++ (header ++ rest) := by
    simp only [layout, stageArea, List.append_assoc]
    exact ⟨_, rfl⟩
  rw [hlayout, slice_mid _ _ _ (by simp) (length_shaderHeader abi ctx code hheader).symm]

theorem unalignedSize_eq : unalignedSize abi ctx = headershsize abi ctx.psbcStage +
    (slotEntries abi ctx).length * abi.usageSlotSize +
      ((inputEntries abi ctx).length * inputSize abi ctx +
        (exportEntries abi ctx).length * abi.vertexExportSize) := by
  rw [unalignedSize, length_slotEntries, ← length_semantics, semantics_eq_flatten,
    List.length_append, length_flatten_const (length_inputEntry abi ctx),
    length_flatten_const (length_exportEntry abi ctx)]

/-- A walk by the right counts. -/
theorem tablesRead_of_counts (hheader : shaderHeader abi ctx code = some header)
    {h : StageHeader} (hslots : h.numinputusageslots = (slotEntries abi ctx).length)
    (hinputs : h.numinputsemantics = (inputEntries abi ctx).length)
    (hexports : h.numexportsemantics = (exportEntries abi ctx).length) :
    TablesRead abi ctx h (layout abi ctx code header) := by
  obtain ⟨front, rest, hfront, hlayout⟩ := layout_eq_tables hheader
  have hslotsSize := length_flatten_const (length_slotEntry abi ctx)
  have hinputsSize := length_flatten_const (length_inputEntry abi ctx)
  refine ⟨hslots, hinputs, hexports, ?_, ?_, ?_, ?_⟩
  · rw [hlayout, hslots, entries_mid (length_slotEntry abi ctx) _ _ hfront.symm]
  · rw [hlayout, hinputs, ← List.append_assoc front, entries_mid (length_inputEntry abi ctx)]
    rw [List.length_append, hfront, hslotsSize, inputsOffset, hslots]
  · rw [hlayout, hexports, ← List.append_assoc front, ← List.append_assoc (front ++ _),
      entries_mid (length_exportEntry abi ctx)]
    rw [List.length_append, List.length_append, hfront, hslotsSize, hinputsSize, exportsOffset,
      inputsOffset, hslots, hinputs]
  · have hsize := @unalignedSize_eq abi ctx
    rw [tablesEnd, exportsOffset, inputsOffset, slotsOffset, hslots, hinputs, hexports,
      shspecificsize, alignbytes]
    omega

/-- The stages whose input count is not taken from what the table is made of have as many
semantic words as inputs. -/
def CountsAgree (ctx : BuildContext) : Prop :=
  ctx.psbcStage = .vertex ∨ ctx.psbcStage = .tessEval ∨ ctx.psbcStage = .fragment →
    popcount ctx.inputsRead = ctx.inputSemantics.length

/-- The input counts: the vertex structure stores the length of the semantic list over a
table of inputs, the pixel structure the number of inputs over a table of semantics. -/
theorem headerInputs_eq_iff (hstage : ctx.stage = psbcToMesaStage ctx.psbcStage) :
    headerInputs ctx = (inputEntries abi ctx).length ↔ CountsAgree ctx := by
  unfold headerInputs inputEntries CountsAgree
  rw [hstage]
  cases ctx.psbcStage <;>
    simp [psbcToMesaStage, vertexInputs, plainInputs, pixelInputs, eq_comm]

theorem headerExports_eq (hstage : ctx.stage = psbcToMesaStage ctx.psbcStage) :
    headerExports ctx = (exportEntries abi ctx).length := by
  unfold headerExports exportEntries
  rw [hstage]
  cases ctx.psbcStage <;> simp [psbcToMesaStage, vertexExports]

/-- **When the counts of the stage structure are those of its tables.** The structure that
stands in the container is `stageStructure`, and a walk by its counts reads the tables
exactly when the input count of a vertex, evaluation or pixel program is right. -/
theorem buildshaderbinary_tablesRead_iff (abi : GnmAbi) (ctx : BuildContext) (code : List Word)
    (alloc : Nat → Bool) (out : ShaderBinary)
    (hbuild : buildshaderbinary abi ctx code alloc = .ok out)
    (hstage : ctx.stage = psbcToMesaStage ctx.psbcStage) :
    slice out.data (0x24 + 0x10) (headershsize abi ctx.psbcStage) =
        abi.encodeHeader (headerKind ctx.psbcStage) (stageStructure abi ctx code) ∧
      (TablesRead abi ctx (stageStructure abi ctx code) out.data ↔ CountsAgree ctx) := by
  obtain ⟨header, hheader, rfl⟩ := buildshaderbinary_ok hbuild
  refine ⟨(slice_header hheader).trans (shaderHeader_eq_stageStructure abi ctx code hheader),
    fun hread => (headerInputs_eq_iff hstage).1 hread.inputCount, fun hagree => ?_⟩
  exact tablesRead_of_counts hheader (length_slotEntries abi ctx).symm
    ((headerInputs_eq_iff hstage).2 hagree) (headerExports_eq hstage)

/-- `fetchVertex` as a geometry shader. -/
def fetchGeometry : BuildContext :=
  { fetchVertex with
    nirStage := .geometry
    stage := .geometry
    psbcStage := .geometry }

theorem tablesRead_fetchGeometry_iff :
    ∃ out, buildshaderbinary wordAbi fetchGeometry [0xbf810000] (fun _ => true) = .ok out ∧
      slice out.data (0x24 + 0x10) (headershsize wordAbi fetchGeometry.psbcStage) =
        wordAbi.encodeHeader (headerKind fetchGeometry.psbcStage)
          (stageStructure wordAbi fetchGeometry [0xbf810000]) ∧
      (TablesRead wordAbi fetchGeometry (stageStructure wordAbi fetchGeometry [0xbf810000])
        out.data ↔ CountsAgree fetchGeometry) :=
  ⟨_, rfl, buildshaderbinary_tablesRead_iff wordAbi fetchGeometry [0xbf810000] (fun _ => true) _
    rfl rfl⟩

/-- The vertex shader with two inputs announces none. -/
theorem fetchVertex_tables_not_read :
    ∃ out, buildshaderbinary wordAbi fetchVertex [0xbf810000] (fun _ => true) = .ok out ∧
      ¬ TablesRead wordAbi fetchVertex (stageStructure wordAbi fetchVertex [0xbf810000])
        out.data := by
  refine ⟨_, rfl, fun hread => ?_⟩
  have hcount : (0 : Nat) = 2 := hread.inputCount
  omega

end Walk

/-! ## The back pointer -/

section BackPointer

variable {abi : GnmAbi} {ctx : BuildContext} {code : List Word} {header : List Byte}

/-- `chunkusagebaseoffsetdwords` of an info block at `info`, one byte wide. -/
def usageBase (data : List Byte) (info : Nat) : Nat := readLe data (info + 12) 1

/-- The bytes from the first usage slot to the info block. -/
def slotsToInfo (abi : GnmAbi) (ctx : BuildContext) (code : List Word) : Nat :=
  numinputslots ctx * abi.usageSlotSize + semanticsSize abi ctx +
    alignbytes (unalignedSize abi ctx) + codesize ctx code

theorem infoOffset_eq_slotsOffset :
    infoOffset abi ctx code = slotsOffset abi ctx + slotsToInfo abi ctx code := by
  rw [infoOffset, slotsOffset, slotsToInfo, shspecificsize]
  generalize alignbytes (unalignedSize abi ctx) = pad
  rw [unalignedSize]
  omega

theorem usageBase_layout (hheader : shaderHeader abi ctx code = some header)
    (hslots : 0 < numinputslots ctx) :
    usageBase (layout abi ctx code header) (infoOffset abi ctx code) =
      slotsToInfo abi ctx code / 4 % 256 := by
  have hdistance : infoOffset abi ctx code - (0x24 + 0x10 + headershsize abi ctx.psbcStage) =
      slotsToInfo abi ctx code := by
    rw [infoOffset_eq_slotsOffset, slotsOffset]
    omega
  obtain ⟨rest, hsplit⟩ : ∃ rest, layout abi ctx code header =
      (front abi ctx code header ++ codeBytes ctx code ++
        ([0x4f, 0x72, 0x62, 0x53, 0x68, 0x64, 0x72] ++ leBytes 1 7 ++
          leBytes 4 (1 + 4 * (abi.shbCode (shbintype ctx.psbcStage)).toNat +
            256 * (codesize ctx code % 2 ^ 24)))) ++
      (leBytes 1 (slotsToInfo abi ctx code / 4) ++ rest) := by
    simp only [layout_eq_front, binaryInfo, if_pos hslots, hdistance, List.append_assoc]
    exact ⟨_, rfl⟩
  rw [usageBase, hsplit,
    readLe_mid _ _ (by rw [List.length_append, length_front_code hheader]; rfl)]
  rfl

theorem slotsToInfo_mod_four :
    slotsToInfo abi ctx code % 4 = 0 ↔ headershsize abi ctx.psbcStage % 4 = 0 := by
  have halign : (unalignedSize abi ctx + alignbytes (unalignedSize abi ctx)) % 4 = 0 := by
    rw [alignbytes]
    omega
  have hsize : unalignedSize abi ctx = headershsize abi ctx.psbcStage +
    numinputslots ctx * abi.usageSlotSize + semanticsSize abi ctx := rfl
  rw [slotsToInfo, codesize]
  omega

/-- **When the back pointer leads to the usage slots.** The slots start behind the stage
structure, the info block behind the code, and the stored byte is their distance in words
modulo 256: it is right for distances below 256 words. -/
theorem buildshaderbinary_backPointer_iff (abi : GnmAbi) (ctx : BuildContext) (code : List Word)
    (alloc : Nat → Bool) (out : ShaderBinary)
    (hbuild : buildshaderbinary abi ctx code alloc = .ok out) (hslots : 0 < numinputslots ctx) :
    slice out.data (infoOffset abi ctx code) 7 = [0x4f, 0x72, 0x62, 0x53, 0x68, 0x64, 0x72] ∧
      entries out.data (slotsOffset abi ctx) abi.usageSlotSize (numinputslots ctx) =
        slotEntries abi ctx ∧
      ((infoOffset abi ctx code : Int) - 4 * usageBase out.data (infoOffset abi ctx code) =
          slotsOffset abi ctx ↔
        headershsize abi ctx.psbcStage % 4 = 0 ∧ slotsToInfo abi ctx code < 1024) := by
  obtain ⟨header, hheader, rfl⟩ := buildshaderbinary_ok hbuild
  refine ⟨slice_signature hheader, ?_, ?_⟩
  · obtain ⟨front, rest, hfront, hlayout⟩ := layout_eq_tables hheader
    rw [hlayout, ← length_slotEntries abi ctx,
      entries_mid (length_slotEntry abi ctx) _ _ hfront.symm]
  · rw [usageBase_layout hheader hslots, infoOffset_eq_slotsOffset,
      ← @slotsToInfo_mod_four abi ctx code]
    omega

theorem backPointer_fetchVertex_iff :
    ∃ out, buildshaderbinary wordAbi fetchVertex [0xbf810000] (fun _ => true) = .ok out ∧
      slice out.data (infoOffset wordAbi fetchVertex [0xbf810000]) 7 =
        [0x4f, 0x72, 0x62, 0x53, 0x68, 0x64, 0x72] ∧
      entries out.data (slotsOffset wordAbi fetchVertex) wordAbi.usageSlotSize
        (numinputslots fetchVertex) = slotEntries wordAbi fetchVertex ∧
      ((infoOffset wordAbi fetchVertex [0xbf810000] : Int) -
          4 * usageBase out.data (infoOffset wordAbi fetchVertex [0xbf810000]) =
          slotsOffset wordAbi fetchVertex ↔
        headershsize wordAbi fetchVertex.psbcStage % 4 = 0 ∧
          slotsToInfo wordAbi fetchVertex [0xbf810000] < 1024) :=
  ⟨_, rfl, buildshaderbinary_backPointer_iff wordAbi fetchVertex [0xbf810000] (fun _ => true) _
    rfl (by decide)⟩

/-- A program of 257 words behind the same tables. -/
def longCode : List Word := List.replicate 256 0xbf800000 ++ [0xbf810000]

/-- The distance is 263 words; the stored byte says 7. -/
theorem longCode_backPointer_misses :
    ∃ out, buildshaderbinary wordAbi fetchVertex longCode (fun _ => true) = .ok out ∧
      (infoOffset wordAbi fetchVertex longCode : Int) -
          4 * usageBase out.data (infoOffset wordAbi fetchVertex longCode) ≠
        slotsOffset wordAbi fetchVertex := by
  obtain ⟨out, hout⟩ : ∃ out, buildshaderbinary wordAbi fetchVertex longCode (fun _ => true) =
    .ok out := ⟨_, rfl⟩
  obtain ⟨header, hheader, rfl⟩ := buildshaderbinary_ok hout
  have hdistance : slotsToInfo wordAbi fetchVertex longCode = 1052 := by decide +kernel
  refine ⟨_, hout, ?_⟩
  rw [usageBase_layout hheader (by decide), infoOffset_eq_slotsOffset, hdistance]
  omega

end BackPointer

end Psbc.Container
