import Psbc.Lib.Traced
import Psbc.Compile.Options
import Psbc.Compile.Request

/-!
# `psbc_compile_impl` up to the lowering of its modules

Seven entry points share one implementation, which takes the stage it compiles, a
previous stage and a link-only stage. `preflight` is its checks in source order, the
capability gate among them; `lowerModules` is the calls of `prepare_stage_nir` behind
them. A compile is a `Traced` computation whose events are the runs of the gate and the
modules that reach `prepare_stage_nir`.

The checks and the entry points stand here once. They leave open what a run of the gate
records and how the arrays of the options are gone through, so that
`Psbc.Compile.Output` and `Psbc.Compile.Steps` use the same ones.

What Mesa answers is data: whether `prepare_stage_nir` returns a shader, and how the
compile ends once every module is lowered.
-/

namespace Psbc.Compile

open Spirv Bytes Traced

/-- A NIR shader handed in by the caller: the library looks at its stage only. -/
structure NirShader where
  stage : MesaStage
  deriving DecidableEq, Repr

inductive Event where
  /-- `validate_spirv_capabilities` on a module, under these capability options. -/
  | validated (options : CapabilityOptions) (spirv : Option (List Byte))
      (result : Except PsbcError Unit)
  /-- A module reaches `prepare_stage_nir`, as SPIR-V or as NIR. -/
  | lowered (options : CapabilityOptions) (stage : MesaStage) (spirv : Option (List Byte))
      (nir : Option NirShader)

/-- A compile that ends with a result and leaves a trace of events. -/
abbrev Run := Traced PsbcError Event Unit

/-- Mesa's part of a compile. -/
structure Mesa where
  /-- `prepare_stage_nir` returns a shader for this stage and module. -/
  lowers : PsbcCompileOptions → MesaStage → Option (List Byte) → Option NirShader → Bool
  /-- How the compile ends behind the lowering. -/
  finish : Except PsbcError Unit
  /-- The metadata has what a TES-fed geometry program must carry. -/
  tessGeometryMetadata : Bool

/-- The module arguments of `psbc_compile_impl`; `none` is the null pointer. -/
structure Modules where
  spirv : Option (List Byte)
  inputNir : Option NirShader
  previousSpirv : Option (List Byte)
  previousInputNir : Option NirShader
  nextLinkSpirv : Option (List Byte)
  deriving DecidableEq

def Modules.request (m : Modules) (opts : PsbcCompileOptions) : Request where
  target := opts.target
  mesaStage := psbcToMesaStage opts.stage
  ngg := opts.ngg
  pairedPrevious := m.previousSpirv.isSome || m.previousInputNir.isSome
  nextLink := m.nextLinkSpirv.isSome

/-- The implementation gets no module or no output; `out` tells whether the output pointer is
not null. -/
def Modules.missing (m : Modules) (out : Bool) : Bool :=
  (m.spirv.isNone && m.inputNir.isNone) || !out

def Modules.wrongStage (m : Modules) (opts : PsbcCompileOptions) : Bool :=
  m.inputNir.any (·.stage != psbcToMesaStage opts.stage)

/-! ## The checks -/

section Checks

variable {ev : Type} (gate : Option (List Byte) → Traced PsbcError ev Unit)

/-- The checks of the stage and the modules; `gate` is `validate_spirv_capabilities`. -/
def stageChecks (m : Modules) (opts : PsbcCompileOptions) : Traced PsbcError ev Unit := do
  refuse opts.capabilitiesInconsistent .internalError
  -- a shader that comes as NIR has no words to look at
  onlyIf m.inputNir.isNone (gate m.spirv)
  refuse (psbcToMesaStage opts.stage == .none) .unsupportedStage
  refuse (m.request opts).pairRefused .unsupportedStage
  refuse (opts.ps5GlobalStreamout && !(m.request opts).pairedGeometry) .unsupportedStage
  refuse (opts.primitiveIdPerPrimitive &&
    (opts.target != .ps5 || psbcToMesaStage opts.stage != .fragment)) .unsupportedStage
  refuse (m.previousInputNir.any (·.stage != (m.request opts).previousRole)) .unsupportedStage
  -- `next_link_spirv` has no run of the gate here
  onlyIf m.previousSpirv.isSome (gate m.previousSpirv)
  refuse (m.request opts).nggRefused .unsupportedStage

/-- The checks of the other options, around those of the two arrays. -/
def optionChecks (specializations descriptors : Traced PsbcError ev Unit)
    (opts : PsbcCompileOptions) : Traced PsbcError ev Unit := do
  refuse (decide (psbcMaxDescriptorBindings < opts.descriptorBindings.count)) .internalError
  specializations
  refuse (!opts.colorMasksValid) .internalError
  refuse (!opts.colorFormatsValid) .internalError
  descriptors

end Checks

/-- A run of the gate that is recorded. -/
def validate (opts : PsbcCompileOptions) (spirv : Option (List Byte)) : Run :=
  event (.validated opts.capabilities spirv (validateSpirvCapabilities spirv opts.capabilities))
    (validateSpirvCapabilities spirv opts.capabilities)

/-- A run of the gate that is not. -/
def gate {ev : Type} (opts : PsbcCompileOptions) (spirv : Option (List Byte)) :
    Traced PsbcError ev Unit :=
  ⟨[], validateSpirvCapabilities spirv opts.capabilities⟩

def prepareStageNir (mesa : Mesa) (opts : PsbcCompileOptions) (stage : MesaStage)
    (spirv : Option (List Byte)) (nir : Option NirShader) : Run :=
  event (.lowered opts.capabilities stage spirv nir)
    (if mesa.lowers opts stage spirv nir then .ok () else .error .compileNir)

def preflight (m : Modules) (opts : PsbcCompileOptions) : Run := do
  stageChecks (validate opts) m opts
  optionChecks (refuse (!opts.specializationsValid) .internalError)
    (refuse (!opts.descriptorBindingsValid) .internalError) opts
  refuse (m.wrongStage opts) .unsupportedStage

/-- The calls of `prepare_stage_nir`: the compiled stage, the previous one, and the
link-only one of a hull pair or of a geometry pair that is fed by tessellation. -/
def lowerModules (mesa : Mesa) (m : Modules) (opts : PsbcCompileOptions) : Run := do
  prepareStageNir mesa opts (psbcToMesaStage opts.stage) m.spirv m.inputNir
  onlyIf (m.request opts).pairedPrevious
    (prepareStageNir mesa (selectLinkedParameters opts opts.previousParameters)
      (m.request opts).previousRole m.previousSpirv m.previousInputNir)
  onlyIf ((m.request opts).pairedHull && m.nextLinkSpirv.isSome)
    (prepareStageNir mesa (selectLinkedParameters opts opts.nextLinkParameters) .tessEval
      m.nextLinkSpirv none)
  onlyIf (m.request opts).pairedTessGeometry
    (prepareStageNir mesa (selectLinkedParameters opts opts.nextLinkParameters) .tessCtrl
      m.nextLinkSpirv none)

/-- `psbc_compile_impl` with options. -/
def psbcCompileImpl (mesa : Mesa) (m : Modules) (opts : PsbcCompileOptions) (out : Bool) :
    Run := do
  refuse (m.missing out) .internalError
  preflight m opts
  lowerModules mesa m opts
  ⟨[], mesa.finish⟩

/-! ## The entry points -/

def badPatchSize (opts : PsbcCompileOptions) : Bool :=
  opts.patchControlPoints == 0 || decide (32 < opts.patchControlPoints)

/-- A call of one of the entry points, from `psbc_compile_shader` to
`psbc_compile_tess_geometry_pipeline`. -/
inductive EntryCall where
  | shader (spirv : Option (List Byte))
  | nir (shader : Option NirShader)
  | geometryPipeline (vertex geometry : Option (List Byte))
  | nirGeometryPipeline (vertex geometry : Option NirShader)
  | tessPipeline (vertex tessCtrl tessEval : Option (List Byte))
  | domainPipeline (tessCtrl tessEval : Option (List Byte))
  | tessGeometryPipeline (control evaluation geometry : Option (List Byte))

def EntryCall.modules : EntryCall → Modules
  | .shader s => ⟨s, none, none, none, none⟩
  | .nir n => ⟨none, n, none, none, none⟩
  | .geometryPipeline v g => ⟨g, none, v, none, none⟩
  | .nirGeometryPipeline v g => ⟨none, g, none, v, none⟩
  | .tessPipeline v c e => ⟨c, none, v, none, e⟩
  | .domainPipeline c e => ⟨e, none, c, none, none⟩
  | .tessGeometryPipeline c e g => ⟨g, none, e, none, c⟩

/-- What the first check answers, in the entry point or in the implementation, when the options
are a null pointer. -/
def EntryCall.nullError : EntryCall → PsbcError
  | .tessPipeline .. | .domainPipeline .. | .tessGeometryPipeline .. => .invalidSpirv
  | _ => .internalError

def EntryCall.enter {ev : Type} (gate : Option (List Byte) → Traced PsbcError ev Unit)
    (opts : PsbcCompileOptions) (out : Bool) : EntryCall → Traced PsbcError ev Unit
  | .tessPipeline vertex tessCtrl tessEval => do
    refuse (!out || vertex.isNone || tessCtrl.isNone || tessEval.isNone) .invalidSpirv
    refuse (opts.stage != .tessCtrl || opts.target != .ps5) .unsupportedStage
    refuse (badPatchSize opts) .unsupportedStage
  | .domainPipeline tessCtrl tessEval => do
    refuse (!out || tessCtrl.isNone || tessEval.isNone) .invalidSpirv
    refuse (opts.stage != .tessEval || opts.target != .ps5) .unsupportedStage
    refuse (badPatchSize opts) .unsupportedStage
  | .tessGeometryPipeline control evaluation geometry => do
    refuse (!out || control.isNone || evaluation.isNone || geometry.isNone) .invalidSpirv
    refuse (opts.target != .ps5 || opts.stage != .geometry || !opts.ngg || badPatchSize opts)
      .unsupportedStage
    gate control
  | _ => pure ()

/-- The entry point that is fed by tessellation. It clears the output before it checks anything,
and looks at the metadata of the program. -/
def EntryCall.isTessGeometry : EntryCall → Bool
  | .tessGeometryPipeline .. => true
  | _ => false

def EntryCall.run (mesa : Mesa) (opts : Option PsbcCompileOptions) (out : Bool)
    (call : EntryCall) : Run :=
  match opts with
  | none => refuse true call.nullError
  | some o => do
    call.enter (validate o) o out
    psbcCompileImpl mesa call.modules o out
    refuse (call.isTessGeometry && !mesa.tessGeometryMetadata) .internalError

/-! ## Results -/

section Results

variable {ev : Type} (opts : PsbcCompileOptions)

theorem result_gate (spirv : Option (List Byte)) :
    (gate opts spirv : Traced PsbcError ev Unit).result = (validate opts spirv).result := rfl

theorem result_stageChecks_gate (m : Modules) :
    (stageChecks (gate opts) m opts : Traced PsbcError ev Unit).result =
      (stageChecks (validate opts) m opts).result := by
  simp only [stageChecks, result_bind, result_refuse, result_onlyIf, result_gate]

theorem EntryCall.result_enter_gate (out : Bool) (call : EntryCall) :
    (call.enter (gate opts) opts out : Traced PsbcError ev Unit).result =
      (call.enter (validate opts) opts out).result := by
  cases call <;> simp only [enter, result_bind, result_refuse, result_pure, result_gate]

end Results

end Psbc.Compile
