import Psbc.Container.Build
import Psbc.Compile.Impl

/-!
# `psbc_compile_impl` behind the lowering

The part of the implementation from the pipeline state to the filled output: the checks of
the sample count, the primitive type and the vertex attributes, the fragment passes that can
refuse a shader, the code generator, the container and the copy of the machine code.
`finishCompile` has the exits in source order; `fillShaderMetadata` is the chain of stage
branches that decides the hardware stage and the unresolved bits.

What the callees answer is data (`Answers`), as in `Psbc.Compile.Impl`.
-/

namespace Psbc.Compile

open Spirv Bytes
open Container (ShaderBinary)

/-! ## Pipeline state -/

inductive PsbcVertexFormat where
  | none
  | r32Float | r32g32Float | r32g32b32Float | r32g32b32a32Float
  | b8g8r8a8Unorm
  | r10g10b10a2Unorm | b10g10r10a2Unorm | r10g10b10a2Snorm | b10g10r10a2Snorm
  | r10g10b10a2Uscaled | b10g10r10a2Uscaled | r10g10b10a2Sscaled | b10g10r10a2Sscaled
  | r32Sint | r32g32Sint | r32g32b32Sint | r32g32b32a32Sint
  | r32Uint | r32g32Uint | r32g32b32Uint | r32g32b32a32Uint
  | r8g8b8a8Unorm
  | r8Unorm | r8Snorm | r8Uint | r8Sint
  | r8g8Unorm | r8g8Snorm | r8g8Uint | r8g8Sint
  | r8g8b8a8Snorm | r8g8b8a8Uint | r8g8b8a8Sint
  | r16Unorm | r16Snorm | r16Uint | r16Sint | r16Float
  | r16g16Unorm | r16g16Snorm | r16g16Uint | r16g16Sint | r16g16Float
  | r16g16b16a16Unorm | r16g16b16a16Snorm | r16g16b16a16Uint | r16g16b16a16Sint
  | r16g16b16a16Float
  deriving DecidableEq, Repr

structure PsbcVertexAttribute where
  location : Nat
  binding : Nat
  format : PsbcVertexFormat
  offset : Nat
  stride : Nat
  alignment : Nat
  instanceDivisor : Nat
  deriving DecidableEq, Repr

/-- `PsbcCompileOptions` with the fields that are read behind the lowering. -/
structure CompileOptions extends PsbcCompileOptions where
  rasterizationSamples : Nat
  primitiveType : Nat
  vertexAttributes : Counted PsbcVertexAttribute

def psbcMaxVertexAttributes : Nat := 32
def maxVbs : Nat := 32

namespace CompileOptions

def samplesValid (o : CompileOptions) : Bool :=
  o.rasterizationSamples ∈ [0, 1, 2, 4, 8]

/-- The cases of the switch over the GFX10 primitive type. -/
def primitiveTypeValid (o : CompileOptions) : Bool :=
  o.primitiveType ∈ [0, 1, 2, 3, 4, 5, 6, 10, 11, 12, 13]

def attributeValid (o : CompileOptions) (a : PsbcVertexAttribute) : Bool :=
  a.format != .none && decide (a.location < psbcMaxVertexAttributes) &&
    decide (a.binding < maxVbs) && !(a.stride == 0 && o.target != .ps5) && a.alignment != 0

def attributesValid (o : CompileOptions) : Bool :=
  (List.range o.vertexAttributes.count).all fun i => o.attributeValid (o.vertexAttributes.entry i)

end CompileOptions

/-! ## Metadata -/

inductive PsbcHardwareStage where
  | unknown
  | vertex
  | pixel
  | ngg
  | hull
  deriving DecidableEq, Repr

structure UnresolvedFields where
  programChecksum : Bool
  nggEsgsRingItemsize : Bool
  agcLinkage : Bool
  tessPipeline : Bool
  deriving DecidableEq, Repr

/-- The fields of `PsbcShaderMetadata` that say what kind of program the output is. The
other fields are words that no function here looks at. -/
structure PsbcShaderMetadata where
  sourceStage : PsbcStage
  hardwareStage : PsbcHardwareStage
  unresolvedFields : UnresolvedFields
  mergedGeometry : Bool
  mergedEsSourceStage : PsbcStage
  ps5RingTableValid : Bool
  others : Nat → BitVec 32

def PsbcShaderMetadata.zero : PsbcShaderMetadata where
  sourceStage := .none
  hardwareStage := .unknown
  unresolvedFields := ⟨false, false, false, false⟩
  mergedGeometry := false
  mergedEsSourceStage := .none
  ps5RingTableValid := false
  others _ := 0

/-- What the calls behind the checks answer. -/
structure Answers where
  /-- `prepare_stage_nir` returns a shader for this stage and module. -/
  lowers : PsbcCompileOptions → MesaStage → Option (List Byte) → Option NirShader → Bool
  splitPs5MixedInputs : Bool
  buildInputSemantics : Bool
  /-- `stage.info.ps.prim_id_input`. -/
  primIdInput : Bool
  /-- The code that `radv_shader_nir_to_asm` returns. -/
  nirToAsm : Option (List Word)
  buildshaderbinary : List Word → Except PsbcError ShaderBinary
  /-- `malloc` serves the copy of the machine code. -/
  machineCodeFits : Bool
  fillOutputSemantics : Bool
  ps5RingTableUsed : Bool
  otherMetadata : Nat → BitVec 32

section

variable (a : Answers) (opts : CompileOptions) (r : Request)

def metadataStart : PsbcShaderMetadata :=
  { PsbcShaderMetadata.zero with
    sourceStage := opts.stage
    unresolvedFields := ⟨true, false, false, false⟩
    ps5RingTableValid := a.ps5RingTableUsed
    others := a.otherMetadata }

/-- `fill_shader_metadata`: the stage branches, in order. -/
def fillShaderMetadata : PsbcShaderMetadata :=
  let start := metadataStart a opts
  if r.mesaStage = .fragment then
    { start with
      hardwareStage := .pixel
      unresolvedFields := ⟨true, false, !a.buildInputSemantics, false⟩ }
  else if (r.mesaStage = .vertex ∨ r.mesaStage = .tessEval ∨ r.mesaStage = .geometry) ∧ r.ngg then
    { start with
      hardwareStage := .ngg
      unresolvedFields := ⟨true, true, !a.fillOutputSemantics, false⟩
      mergedGeometry := r.pairedGeometry
      mergedEsSourceStage :=
        if r.pairedTessGeometry then .tessEval else if r.pairedGeometry then .vertex else .none }
  else if r.mesaStage = .geometry then
    { start with unresolvedFields := ⟨true, false, true, false⟩ }
  else if r.mesaStage = .vertex then
    { start with hardwareStage := .vertex }
  else if r.mesaStage = .tessCtrl then
    -- a control half that is not merged has no vertex half to run with
    if !r.pairedHull then { start with unresolvedFields := ⟨true, false, false, true⟩ }
    else { start with hardwareStage := .hull }
  else if r.mesaStage = .tessEval ∧ !r.ngg ∧ r.pairedDomain then
    { start with
      hardwareStage := .vertex
      unresolvedFields := ⟨true, false, !a.fillOutputSemantics, false⟩ }
  else if r.mesaStage = .tessEval then
    { start with unresolvedFields := ⟨true, false, false, true⟩ }
  else start

/-! ## The exits -/

structure PsbcShaderOutput where
  data : Option (List Byte)
  size : Nat
  machineCode : Option (List Byte)
  machineCodeSize : Nat
  metadata : PsbcShaderMetadata

def PsbcShaderOutput.zero : PsbcShaderOutput := ⟨none, 0, none, 0, .zero⟩

/-- From the pipeline state to the filled output. -/
def finishCompile : Except PsbcError PsbcShaderOutput :=
  if !opts.samplesValid then .error .internalError
  else if !opts.primitiveTypeValid then .error .internalError
  else if !opts.attributesValid then .error .internalError
  else if r.mesaStage = .fragment ∧ opts.target = .ps5 ∧ !a.splitPs5MixedInputs then
    .error .internalError
  else if r.mesaStage = .fragment ∧ !a.buildInputSemantics ∧ a.primIdInput then
    .error .internalError
  else
    match a.nirToAsm with
    | none => .error .compileAco
    | some code =>
      match a.buildshaderbinary code with
      | .error e => .error e
      | .ok binary =>
        if !a.machineCodeFits then .error .outOfMemory
        else
          .ok
            { data := some binary.data
              size := binary.data.length
              machineCode := some (code.flatMap fun w => leBytes 4 w.toNat)
              machineCodeSize := 4 * code.length
              metadata := fillShaderMetadata a opts r }

end

/-! ## Which programs look loadable -/

variable {a : Answers} {opts : CompileOptions} {r : Request}

theorem finishCompile_metadata {out : PsbcShaderOutput} (h : finishCompile a opts r = .ok out) :
    out.metadata = fillShaderMetadata a opts r := by
  unfold finishCompile at h
  grind

/-- A control half looks loadable exactly when it is merged with a vertex half. -/
theorem tessPipeline_of_tessCtrl (h : r.mesaStage = .tessCtrl) :
    (fillShaderMetadata a opts r).unresolvedFields.tessPipeline = !r.pairedHull := by
  cases hp : r.pairedHull <;> simp [fillShaderMetadata, metadataStart, h, hp]

/-- An evaluation half looks loadable when it is linked, and also when it is NGG: that
branch comes first and does not look at the link. -/
theorem tessPipeline_of_tessEval (h : r.mesaStage = .tessEval) :
    (fillShaderMetadata a opts r).unresolvedFields.tessPipeline =
      (!r.ngg && !r.pairedDomain) := by
  cases hn : r.ngg <;> cases hp : r.pairedDomain <;>
    simp [fillShaderMetadata, metadataStart, h, hn, hp]

end Psbc.Compile
