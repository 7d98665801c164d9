import Mathlib.Logic.Function.Basic
import Psbc.Lib.Mask
import Psbc.Stage

/-!
# Declaring the arguments of a shader

`radv_declare_shader_args` gives every argument of a shader its scalar registers, and
every argument the driver writes a dword of user data. Two counters run side by side:
`num_sgprs_used` over all registers and `num_user_sgprs` over the dwords. The second one
starts again for a stage that runs merged with the one before it.

The declaring functions read the shader's facts and never the state they build, so each
one is the list of the calls it makes, in the source's order; `run` makes them. The target
is GFX10.3 and the backend ACO, which fixes the branches on `gfx_level` and `use_llvm`.
-/

namespace Psbc.Args

/-! ## Arguments and their locations -/

/-- The arguments of `struct radv_shader_args` that take scalar registers. -/
inductive Arg where
  | ringOffsets
  | taskRingOffsets
  | ps5RingTable
  | descriptors (set : Nat)
  | pushConstants
  | dynamicDescriptors
  | dynamicDescriptorsOffsetAddr
  | inlinePushConsts (i : Nat)
  | streamoutBuffers
  | prologInputs
  | vertexBuffers
  | baseVertex
  | drawId
  | startInstance
  | viewIndex
  | forceVrsRates
  | tcsOffchipLayout
  | epilogPc
  | nextStagePc
  | vgtEsgsRingItemsize
  | nggLdsLayout
  | nggState
  | nggcSettings
  | nggcViewportScale (i : Nat)
  | nggcViewportTranslate (i : Nat)
  | psState
  | numWorkGroups
  | taskRingEntry
  | taskState
  | tessOffchipOffset
  | mergedWaveInfo
  | tcsFactorOffset
  | scratchOffset
  | gsTgInfo
  | gs2vsOffset
  | gsWaveId
  | es2gsOffset
  | streamoutConfig
  | streamoutWriteIndex
  | streamoutOffset (i : Nat)
  | workgroupIds (i : Nat)
  | tgSize
  | primMask
  | popsCollisionWaveId
  | loadProvokingVtx
  deriving DecidableEq, Repr

/-! `enum radv_ud_index`. Arguments of different stages share a number. -/

namespace Ud

abbrev scratchRingOffsets : Nat := 0
abbrev pushConstants : Nat := 1
abbrev inlinePushConstants : Nat := 2
abbrev indirectDescriptors : Nat := 3
abbrev viewIndex : Nat := 4
abbrev streamoutBuffers : Nat := 5
abbrev taskState : Nat := 7
abbrev nggcSettings : Nat := 8
abbrev nggcViewport : Nat := 9
abbrev nggLdsLayout : Nat := 10
abbrev nggState : Nat := 11
abbrev vgtEsgsRingItemsize : Nat := 13
abbrev forceVrsRates : Nat := 14
abbrev taskRingEntry : Nat := 15
abbrev ps5RingTable : Nat := taskRingEntry
abbrev nextStagePc : Nat := 16
abbrev epilogPc : Nat := 17
abbrev dynamicDescriptors : Nat := 18
abbrev dynamicDescriptorsOffsetAddr : Nat := 19
abbrev vsVertexBuffers : Nat := 20
abbrev vsBaseVertexStartInstance : Nat := 21
abbrev vsPrologInputs : Nat := 22
abbrev psState : Nat := 24
abbrev csGridSize : Nat := 20
abbrev csTaskRingOffsets : Nat := 25
abbrev csTaskDrawId : Nat := 26
abbrev tcsOffchipLayout : Nat := 23

end Ud

/-! ## The state and the calls on it -/

structure ArgSlot where
  offset : Nat
  size : Nat
  deriving DecidableEq, Repr

/-- The part of `struct radv_shader_args` about scalar registers: `arg a` is `none` for an
argument that is not `used`, and a location is `none` where the source has -1. -/
structure ShaderArgs where
  numSgprsUsed : Nat
  numUserSgprs : Nat
  arg : Arg → Option ArgSlot
  shaderData : Nat → Option Nat
  descriptorSets : Nat → Option Nat

/-- `radv_init_shader_args`. -/
def ShaderArgs.init : ShaderArgs where
  numSgprsUsed := 0
  numUserSgprs := 0
  arg _ := none
  shaderData _ := none
  descriptorSets _ := none

namespace ShaderArgs

/-- `ac_add_arg` for the scalar register file; `none` is a null argument. -/
def acAddArg (s : ShaderArgs) (size : Nat) (arg : Option Arg) : ShaderArgs :=
  { s with
    numSgprsUsed := s.numSgprsUsed + size
    arg := match arg with
      | none => s.arg
      | some a => Function.update s.arg a (some ⟨s.numSgprsUsed, size⟩) }

def addUdArg (s : ShaderArgs) (size : Nat) (arg : Arg) (ud : Nat) : ShaderArgs :=
  { s.acAddArg size (some arg) with
    -- a location that several arguments share is where the first of them is
    shaderData := if s.shaderData ud = none
      then Function.update s.shaderData ud (some s.numUserSgprs) else s.shaderData
    numUserSgprs := s.numUserSgprs + size }

def addDescriptorSet (s : ShaderArgs) (set : Nat) : ShaderArgs :=
  { s.acAddArg 1 (some (.descriptors set)) with
    descriptorSets := Function.update s.descriptorSets set (some s.numUserSgprs)
    numUserSgprs := s.numUserSgprs + 1 }

end ShaderArgs

/-- The calls the declaring functions make. -/
inductive ArgCall where
  | addArg (size : Nat) (arg : Option Arg)
  | addUdArg (size : Nat) (arg : Arg) (ud : Nat)
  | addDescriptorSet (set : Nat)
  /-- `num_user_sgprs = 0`. -/
  | resetUserSgprs
  deriving DecidableEq, Repr

def ArgCall.apply (s : ShaderArgs) : ArgCall → ShaderArgs
  | .addArg size arg => s.acAddArg size arg
  | .addUdArg size arg ud => s.addUdArg size arg ud
  | .addDescriptorSet set => s.addDescriptorSet set
  | .resetUserSgprs => { s with numUserSgprs := 0 }

def run (calls : List ArgCall) (s : ShaderArgs) : ShaderArgs := calls.foldl ArgCall.apply s

theorem run_append (l m : List ArgCall) (s : ShaderArgs) :
    run (l ++ m) s = run m (run l s) :=
  List.foldl_append

/-! ## What the declaring functions read -/

/-- The flags of `radv_compiler_info.key` read here. -/
structure CompilerKey where
  ps5TessRingTable : Bool
  ps5FragmentViewIndex : Bool
  loadGridSizeFromUserSgpr : Bool
  deriving DecidableEq, Repr

/-- The fields of `radv_graphics_state_key` read here. -/
structure GfxState where
  patchControlPoints : Nat := 0
  dynamicProvokingVtxMode : Bool := false
  dynamicRasterizationSamples : Bool := false
  dynamicLineRastMode : Bool := false
  sampleShadingEnable : Bool := false
  unknownRastPrim : Bool := false
  deriving DecidableEq, Repr

/-- The fields of `radv_shader_info` read here; the prefix of a name is its substructure. -/
structure ShaderInfo where
  stage : MesaStage := .none
  isNgg : Bool := false
  inputsLinked : Bool := false
  mergedShaderCompiledSeparately : Bool := false
  forceIndirectDescriptors : Bool := false
  descSetUsedMask : BitVec 32 := 0
  loadsPushConstants : Bool := false
  loadsDynamicOffsets : Bool := false
  loadsDynamicDescriptorsOffsetAddr : Bool := false
  canInlineAllPushConstants : Bool := false
  inlinePushConstantMask : BitVec 64 := 0
  usesViewIndex : Bool := false
  forceVrsPerVertex : Bool := false
  hasNggCulling : Bool := false
  hasPrimQuery : Bool := false
  hasXfbQuery : Bool := false
  numTessPatches : Nat := 0
  soEnabledStreamBuffersMask : BitVec 32 := 0
  soStrides : Fin 4 → Nat := fun _ => 0
  vsHasProlog : Bool := false
  vsVbDescUsageMask : BitVec 32 := 0
  vsNeedsDrawId : Bool := false
  vsNeedsBaseInstance : Bool := false
  vsAsEs : Bool := false
  vsAsLs : Bool := false
  vsDynamicNumVertsPerPrim : Bool := false
  tesAsEs : Bool := false
  tesTcsVerticesOut : Nat := 0
  gsEsType : MesaStage := .vertex
  gsHasPipelineStatQuery : Bool := false
  csUsesGridSize : Bool := false
  csUsesBlockId : Fin 3 → Bool := fun _ => false
  csUsesLocalInvocationIdx : Bool := false
  csHasQuery : Bool := false
  psHasEpilog : Bool := false
  psPops : Bool := false
  psLoadProvokingVtx : Bool := false
  psNeedsSamplePositions : Bool := false
  psReadsSampleMaskIn : Bool := false
  psUsesSampleShading : Bool := false
  psLoadRasterizationPrim : Bool := false
  psSelectsFragCoordXyDynamically : Bool := false
  psSelectsQuadPosDynamically : Bool := false
  psSelectsSampleMaskInDynamically : Bool := false

/-- `struct user_sgpr_info`. -/
structure UserSgprInfo where
  inlinePushConstantMask : BitVec 64 := 0
  inlinedAllPushConsts : Bool := false
  indirectAllDescriptorSets : Bool := false
  remainingSgprs : Nat := 0
  deriving DecidableEq, Repr

/-! ## The declaring functions -/

section Declare

variable (key : CompilerKey) (gfx : GfxState) (info : ShaderInfo) (user : Option UserSgprInfo)

def readsRingTable : Bool :=
  info.stage == .tessCtrl || info.stage == .tessEval ||
    (info.stage == .geometry && info.gsEsType == .tessEval)

def needsStreamoutBuffers : Bool :=
  info.soEnabledStreamBuffersMask != 0 ||
    (info.mergedShaderCompiledSeparately &&
      ((info.stage == .vertex && info.vsAsEs) || (info.stage == .tessEval && info.tesAsEs) ||
        info.stage == .geometry))

/-- The part of `declare_global_input_sgprs` only the second pass declares. -/
def declareDescriptorSgprs (user : UserSgprInfo) : List ArgCall :=
  (if user.indirectAllDescriptorSets
    then [.addUdArg 1 (.descriptors 0) Ud.indirectDescriptors]
    else (Mask.bits info.descSetUsedMask).map .addDescriptorSet) ++
  (if info.mergedShaderCompiledSeparately ||
      (info.loadsPushConstants && !user.inlinedAllPushConsts)
    then [.addUdArg 1 .pushConstants Ud.pushConstants] else []) ++
  (if info.mergedShaderCompiledSeparately || info.loadsDynamicOffsets
    then [.addUdArg 1 .dynamicDescriptors Ud.dynamicDescriptors] ++
      (if info.mergedShaderCompiledSeparately || info.loadsDynamicDescriptorsOffsetAddr
        then [.addUdArg 1 .dynamicDescriptorsOffsetAddr Ud.dynamicDescriptorsOffsetAddr]
        else [])
    else []) ++
  (List.range (Mask.popcount user.inlinePushConstantMask)).map fun i =>
    .addUdArg 1 (.inlinePushConsts i) Ud.inlinePushConstants

def declareGlobalInputSgprs : List ArgCall :=
  (if key.ps5TessRingTable && readsRingTable info
    then [.addUdArg 2 .ps5RingTable Ud.ps5RingTable] else []) ++
  (user.elim [] (declareDescriptorSgprs info)) ++
  (if needsStreamoutBuffers info
    then [.addUdArg 1 .streamoutBuffers Ud.streamoutBuffers] else [])

def declareVsSpecificInputSgprs : List ArgCall :=
  (if info.vsHasProlog then [.addUdArg 2 .prologInputs Ud.vsPrologInputs] else []) ++
  (if info.vsVbDescUsageMask != 0
    then [.addUdArg 1 .vertexBuffers Ud.vsVertexBuffers] else []) ++
  [.addUdArg 1 .baseVertex Ud.vsBaseVertexStartInstance] ++
  (if info.vsNeedsDrawId then [.addUdArg 1 .drawId Ud.vsBaseVertexStartInstance] else []) ++
  (if info.vsNeedsBaseInstance
    then [.addUdArg 1 .startInstance Ud.vsBaseVertexStartInstance] else [])

def declareStreamoutSgprs (stage : MesaStage) : List ArgCall :=
  (if info.soEnabledStreamBuffersMask != 0
    then [.addArg 1 (some .streamoutConfig), .addArg 1 (some .streamoutWriteIndex)]
    else if stage == .tessEval then [.addArg 1 none] else []) ++
  ((List.finRange 4).filter fun i => info.soStrides i != 0).map fun i =>
    .addArg 1 (some (.streamoutOffset i))

def declareNggSgprs (nggNeedsStateSgpr : Bool) : List ArgCall :=
  [.addUdArg 1 .nggLdsLayout Ud.nggLdsLayout] ++
  (if nggNeedsStateSgpr then [.addUdArg 1 .nggState Ud.nggState] else []) ++
  (if info.hasNggCulling
    then [.addUdArg 1 .nggcSettings Ud.nggcSettings,
      .addUdArg 1 (.nggcViewportScale 0) Ud.nggcViewport,
      .addUdArg 1 (.nggcViewportScale 1) Ud.nggcViewport,
      .addUdArg 1 (.nggcViewportTranslate 0) Ud.nggcViewport,
      .addUdArg 1 (.nggcViewportTranslate 1) Ud.nggcViewport]
    else [])

def radvTcsNeedsStateSgpr : Bool :=
  gfx.patchControlPoints == 0 || info.numTessPatches == 0 || !info.inputsLinked

def radvTesNeedsStateSgpr : Bool :=
  info.numTessPatches == 0 || info.tesTcsVerticesOut == 0 || !info.inputsLinked

def radvPsNeedsStateSgpr : Bool :=
  (info.psNeedsSamplePositions && gfx.dynamicRasterizationSamples) ||
    gfx.dynamicLineRastMode ||
    (info.psReadsSampleMaskIn && (info.psUsesSampleShading || gfx.sampleShadingEnable)) ||
    (info.psLoadRasterizationPrim && gfx.unknownRastPrim) ||
    info.psSelectsFragCoordXyDynamically || info.psSelectsQuadPosDynamically ||
    info.psSelectsSampleMaskInDynamically

def declareViewIndex (declared : Bool) : List ArgCall :=
  if declared then [.addUdArg 1 .viewIndex Ud.viewIndex] else []

def declareTcsOffchipLayout (declared : Bool) : List ArgCall :=
  if declared then [.addUdArg 1 .tcsOffchipLayout Ud.tcsOffchipLayout] else []

def declareForceVrsRates (declared : Bool) : List ArgCall :=
  if declared then [.addUdArg 1 .forceVrsRates Ud.forceVrsRates] else []

def unmergedVsSgprs : List ArgCall :=
  [.addUdArg 2 .prologInputs Ud.vsPrologInputs,
    .addUdArg 1 .vertexBuffers Ud.vsVertexBuffers,
    .addUdArg 1 .baseVertex Ud.vsBaseVertexStartInstance,
    .addUdArg 1 .drawId Ud.vsBaseVertexStartInstance,
    .addUdArg 1 .startInstance Ud.vsBaseVertexStartInstance]

/-- What follows the global arguments in `declare_unmerged_vs_tcs_args`. -/
def unmergedTcsSgprs : List ArgCall :=
  [.addUdArg 1 .viewIndex Ud.viewIndex,
    .addUdArg 1 .tcsOffchipLayout Ud.tcsOffchipLayout,
    .addUdArg 1 .epilogPc Ud.epilogPc,
    .addUdArg 1 .nextStagePc Ud.nextStagePc]

/-- What follows the global arguments in `declare_unmerged_vs_tes_gs_args`. -/
def unmergedGsSgprs : List ArgCall :=
  [.addUdArg 1 .viewIndex Ud.viewIndex,
    .addUdArg 1 .tcsOffchipLayout Ud.tcsOffchipLayout] ++
  (if info.isNgg then [.addUdArg 1 .nggState Ud.nggState] else []) ++
  [.addUdArg 1 .vgtEsgsRingItemsize Ud.vgtEsgsRingItemsize,
    .addUdArg 1 .nggLdsLayout Ud.nggLdsLayout,
    .addUdArg 1 .nextStagePc Ud.nextStagePc]

/-- The first six system registers of a merged stage: four arguments and two null ones. -/
def systemSgprs (a b c d : Arg) : List ArgCall :=
  [.addArg 1 (some a), .addArg 1 (some b), .addArg 1 (some c), .addArg 1 (some d),
    .addArg 1 none, .addArg 1 none]

def hullSystemSgprs : List ArgCall :=
  systemSgprs .tessOffchipOffset .mergedWaveInfo .tcsFactorOffset .scratchOffset

def geometrySystemSgprs : List ArgCall :=
  systemSgprs (if info.isNgg then .gsTgInfo else .gs2vsOffset) .mergedWaveInfo
    .tessOffchipOffset .scratchOffset

/-! The cases of the switch in `declare_shader_args`. -/

def declareComputeArgs (stage : MesaStage) (hasShaderQuery : Bool) : List ArgCall :=
  declareGlobalInputSgprs key info user ++
  (if info.csUsesGridSize
    then [.addUdArg (if key.loadGridSizeFromUserSgpr then 3 else 2) .numWorkGroups Ud.csGridSize]
    else []) ++
  (if info.vsNeedsDrawId then [.addUdArg 1 .drawId Ud.csTaskDrawId] else []) ++
  (if stage == .task then [.addUdArg 1 .taskRingEntry Ud.taskRingEntry] else []) ++
  (if stage == .task && hasShaderQuery then [.addUdArg 1 .taskState Ud.taskState] else []) ++
  (((List.finRange 3).filter info.csUsesBlockId).map fun i =>
    .addArg 1 (some (.workgroupIds i))) ++
  (if info.csUsesLocalInvocationIdx then [.addArg 1 (some .tgSize)] else []) ++
  [.addArg 1 (some .scratchOffset)]

def declareVertexArgs : List ArgCall :=
  declareVsSpecificInputSgprs info ++ declareGlobalInputSgprs key info user ++
  declareViewIndex info.usesViewIndex ++ declareForceVrsRates info.forceVrsPerVertex ++
  (if info.vsAsEs then [.addArg 1 (some .es2gsOffset)]
    else if info.vsAsLs then [] else declareStreamoutSgprs info .vertex) ++
  [.addArg 1 (some .scratchOffset)]

def declareTessCtrlArgs (previous : MesaStage) : List ArgCall :=
  if previous != .none then
    hullSystemSgprs ++
    (if info.mergedShaderCompiledSeparately
      then unmergedVsSgprs ++ declareGlobalInputSgprs key info user ++ unmergedTcsSgprs
      else declareVsSpecificInputSgprs info ++ declareGlobalInputSgprs key info user ++
        declareViewIndex info.usesViewIndex ++
        declareTcsOffchipLayout (radvTcsNeedsStateSgpr gfx info))
  else
    declareGlobalInputSgprs key info user ++ declareViewIndex info.usesViewIndex ++
    declareTcsOffchipLayout (radvTcsNeedsStateSgpr gfx info) ++
    [.addArg 1 (some .tessOffchipOffset), .addArg 1 (some .tcsFactorOffset),
      .addArg 1 (some .scratchOffset)]

def declareTessEvalArgs : List ArgCall :=
  declareGlobalInputSgprs key info user ++ declareViewIndex info.usesViewIndex ++
  declareTcsOffchipLayout (radvTesNeedsStateSgpr info) ++
  (if info.tesAsEs
    then [.addArg 1 (some .tessOffchipOffset), .addArg 1 none, .addArg 1 (some .es2gsOffset)]
    else declareStreamoutSgprs info .tessEval ++ [.addArg 1 (some .tessOffchipOffset)]) ++
  [.addArg 1 (some .scratchOffset)]

/-- The geometry stage and every NGG stage, with the arguments of the stage before it. -/
def declareGeometryArgs (previous : MesaStage) (hasShaderQuery hasNggProvokingVtx : Bool) :
    List ArgCall :=
  if previous != .none then
    geometrySystemSgprs info ++
    (if info.mergedShaderCompiledSeparately
      then unmergedVsSgprs ++ declareGlobalInputSgprs key info user ++ unmergedGsSgprs info
      else
        (if previous == .vertex then declareVsSpecificInputSgprs info else []) ++
        declareGlobalInputSgprs key info user ++ declareViewIndex info.usesViewIndex ++
        declareTcsOffchipLayout (previous == .tessEval && radvTesNeedsStateSgpr info) ++
        declareForceVrsRates (info.forceVrsPerVertex && info.isNgg) ++
        (if info.isNgg
          then declareNggSgprs info (hasNggProvokingVtx || hasShaderQuery ||
            (previous == .vertex && info.vsDynamicNumVertsPerPrim))
          else []))
  else
    declareGlobalInputSgprs key info user ++ declareViewIndex info.usesViewIndex ++
    declareForceVrsRates info.forceVrsPerVertex ++
    [.addArg 1 (some .gs2vsOffset), .addArg 1 (some .gsWaveId), .addArg 1 (some .scratchOffset)]

def declareFragmentArgs : List ArgCall :=
  declareGlobalInputSgprs key info user ++
  declareViewIndex (key.ps5FragmentViewIndex && info.usesViewIndex) ++
  (if info.psHasEpilog then [.addUdArg 1 .epilogPc Ud.epilogPc] else []) ++
  (if radvPsNeedsStateSgpr gfx info then [.addUdArg 1 .psState Ud.psState] else []) ++
  [.addArg 1 (some .primMask)] ++
  (if info.psPops then [.addArg 1 (some .popsCollisionWaveId)] else []) ++
  (if info.psLoadProvokingVtx then [.addArg 1 (some .loadProvokingVtx)] else []) ++
  [.addArg 1 (some .scratchOffset)]

/-- The stage and previous stage `declare_shader_args` goes on with: an NGG stage is
declared as a geometry stage, and so is a half compiled separately as the merged one. -/
def declaredStages (stage previous : MesaStage) : MesaStage × MesaStage :=
  let (stage, previous) :=
    if info.isNgg && stage != .geometry then (.geometry, stage) else (stage, previous)
  if info.mergedShaderCompiledSeparately && stage == .vertex && info.vsAsLs
    then (.tessCtrl, .vertex)
  else if info.mergedShaderCompiledSeparately && stage == .vertex && info.vsAsEs
    then (.geometry, .vertex)
  else if info.mergedShaderCompiledSeparately && stage == .tessEval && info.tesAsEs
    then (.geometry, .tessEval)
  else (stage, previous)

def declareShaderArgs (stage previous : MesaStage) : List ArgCall :=
  let hasShaderQuery := info.hasPrimQuery || info.hasXfbQuery ||
    (stage == .geometry && info.gsHasPipelineStatQuery) || (stage == .task && info.csHasQuery)
  let hasNggProvokingVtx :=
    (stage == .vertex || stage == .geometry) && gfx.dynamicProvokingVtxMode
  let (stage, previous) := declaredStages info stage previous
  [.addUdArg 2 .ringOffsets Ud.scratchRingOffsets] ++
  (if stage == .task then [.addUdArg 2 .taskRingOffsets Ud.csTaskRingOffsets] else []) ++
  -- the user registers of a merged stage start behind the system ones
  (if previous != .none then [.resetUserSgprs] else []) ++
  match stage with
  | .compute | .task => declareComputeArgs key info user stage hasShaderQuery
  | .vertex => declareVertexArgs key info user
  | .tessCtrl => declareTessCtrlArgs key gfx info user previous
  | .tessEval => declareTessEvalArgs key info user
  | .geometry => declareGeometryArgs key info user previous hasShaderQuery hasNggProvokingVtx
  | .fragment => declareFragmentArgs key gfx info user
  | .none | .mesh => []

end Declare

/-! ## The register budget -/

/-- `mask &= ~BITFIELD64_BIT(util_last_bit64(mask) - 1)`. -/
def clearLastBit (mask : BitVec 64) : BitVec 64 :=
  mask &&& ~~~(BitVec.twoPow 64 mask.toNat.log2)

/-- `allocate_inline_push_consts`. The loop drops the last constant until the rest fits. -/
def allocateInlinePushConsts (info : ShaderInfo) (user : UserSgprInfo) : UserSgprInfo :=
  let mask := info.inlinePushConstantMask
  let numPushConsts := Mask.popcount mask
  if mask = 0 then user
  else if numPushConsts ≤ min (user.remainingSgprs + 1) 32 ∧ info.canInlineAllPushConstants then
    { user with
      inlinedAllPushConsts := true
      remainingSgprs := user.remainingSgprs + 1 - numPushConsts
      inlinePushConstantMask := mask }
  else
    let mask := clearLastBit^[numPushConsts - min user.remainingSgprs 8] mask
    { user with
      remainingSgprs := user.remainingSgprs - Mask.popcount mask
      inlinePushConstantMask := mask }

/-- The part of `radv_declare_shader_args` between its two passes: how many user registers
the first pass left over, and what goes into them. -/
def allocateUserSgprs (info : ShaderInfo) (stage : MesaStage) (counted : Nat) : UserSgprInfo :=
  let numUserSgprs := counted + info.loadsPushConstants.toNat + info.loadsDynamicOffsets.toNat +
    (info.loadsDynamicOffsets && info.loadsDynamicDescriptorsOffsetAddr).toNat
  let availableSgprs := if stage != .compute && stage != .task then 32 else 16
  let remainingSgprs := availableSgprs - numUserSgprs
  let numDescSet := Mask.popcount info.descSetUsedMask
  let user : UserSgprInfo :=
    if info.forceIndirectDescriptors || decide (remainingSgprs < numDescSet)
      then { indirectAllDescriptorSets := true, remainingSgprs := remainingSgprs - 1 }
      else { remainingSgprs := remainingSgprs - numDescSet }
  if info.mergedShaderCompiledSeparately then user else allocateInlinePushConsts info user

def radvDeclareShaderArgs (key : CompilerKey) (gfx : GfxState) (info : ShaderInfo)
    (stage previous : MesaStage) : ShaderArgs :=
  let counted := run (declareShaderArgs key gfx info none stage previous) .init
  let user := allocateUserSgprs info stage counted.numUserSgprs
  run (declareShaderArgs key gfx info (some user) stage previous) .init

end Psbc.Args
