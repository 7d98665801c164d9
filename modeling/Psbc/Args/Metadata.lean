import Psbc.Args.Declare
import Psbc.Compile.Request

/-!
# The user-data slots a compile publishes

A PS5 compile declares its arguments with the facts `psbc_compile_impl` fixes about its
stage and the ones gathered from the shaders, and `fill_shader_metadata` publishes the
slots the driver has to write. `Ps5Compile` is such a compile after its checks.
-/

namespace Psbc.Args

/-- `compiler_info.key` for the PS5. -/
def ps5Key : CompilerKey where
  ps5TessRingTable := true
  ps5FragmentViewIndex := true
  loadGridSizeFromUserSgpr := true

/-- A compile for the PS5 that passed the library's checks on its modules. -/
structure Ps5Compile where
  request : Request
  /-- `descriptor_binding_count` is not zero. -/
  hasDescriptorBindings : Bool
  /-- What the info passes gathered from the shaders. -/
  gathered : ShaderInfo
  gfx : GfxState
  /-- `config->scratch_bytes_per_wave`. -/
  scratchBytesPerWave : Nat
  target_eq : request.target = .ps5
  /-- `psbc_to_mesa_stage` never gives `mesh`, and `none` is refused. -/
  stage_supported : request.mesaStage ≠ .none ∧ request.mesaStage ≠ .mesh
  pair_accepted : request.pairRefused = false
  ngg_accepted : request.nggRefused = false

namespace Ps5Compile

variable (c : Ps5Compile)

/-- `radv_is_merged_shader_compiled_separately`: a control or geometry stage whose inputs
are not linked. The stages before them have a pixel stage behind them here. -/
def unlinkedConsumer : Bool :=
  c.request.mesaStage == .tessCtrl ||
    (c.request.mesaStage == .geometry && !c.request.pairedGeometry)

/-- The shader info the arguments are declared from: what was gathered, with the fields
that follow from the stage and the pair. -/
def info : ShaderInfo :=
  { c.gathered with
    stage := c.request.mesaStage
    isNgg := c.request.ngg
    inputsLinked := c.request.pairedDomain || c.request.pairedGeometry
    mergedShaderCompiledSeparately := c.unlinkedConsumer && !c.request.pairedHull
    forceIndirectDescriptors := c.unlinkedConsumer && !c.hasDescriptorBindings
    vsHasProlog := false
    vsAsLs := c.request.pairedHull
    vsAsEs := c.request.pairedGeometry && !c.request.nextLink
    tesAsEs := c.request.pairedTessGeometry
    gsEsType := if c.request.pairedTessGeometry then .tessEval else .vertex
    psHasEpilog := false }

/-- The previous stage `psbc_compile_impl` declares the arguments with. -/
def previousStage : MesaStage :=
  match c.request.mesaStage with
  | .tessCtrl => .vertex
  | .tessEval => .tessCtrl
  | .geometry => if c.request.pairedTessGeometry then .tessEval else .vertex
  | _ => .none

def args : ShaderArgs :=
  radvDeclareShaderArgs ps5Key c.gfx c.info c.request.mesaStage c.previousStage

end Ps5Compile

/-! ## `fill_shader_metadata` -/

namespace ShaderArgs

variable (s : ShaderArgs)

def used (a : Arg) : Bool := (s.arg a).isSome

/-- `args[arg.arg_index].offset`; the index of an unused argument is 0, the ring offsets'. -/
def argOffset (a : Arg) : Nat := ((s.arg a).map (·.offset)).getD 0

/-- The published location; one that was never recorded is -1. -/
def udDword (ud : Nat) : Nat := (s.shaderData ud).getD 0xffffffff

end ShaderArgs

/-- The user-data part of `PsbcShaderMetadata`: a slot is `none` when it is not valid. -/
structure UserData where
  userSgprCount : Nat
  userDataWindowBase : Nat
  scratchBufferTable : Option Nat
  descriptorSet : Nat → Option Nat
  pushConstants : Option Nat
  ps5RingTable : Option Nat
  nggLdsLayout : Option Nat
  vertexBufferTable : Option Nat
  baseVertex : Option Nat
  drawId : Option Nat
  startInstance : Option Nat
  viewIndex : Option Nat
  streamoutBufferTable : Option Nat

/-- One round of the loop that takes the window base from the pairs of a register and a
dword; it fails when the pair disagrees. -/
def windowBaseStep (base : Option Nat) (pair : Nat × Nat) : Option (Option Nat) :=
  if pair.1 < pair.2 then none
  else match base with
    | none => some (some (pair.1 - pair.2))
    | some base => if pair.1 - pair.2 = base then some (some base) else none

/-- The loop: `none` when two pairs disagree, `some none` when there is no pair. -/
def windowBaseOf (pairs : List (Nat × Nat)) : Option (Option Nat) :=
  pairs.foldlM windowBaseStep none

section Fill

variable (c : Ps5Compile)

def hasVertexHalf : Bool := c.request.mesaStage == .tessCtrl && c.info.vsAsLs

def publishesVertex : Bool :=
  hasVertexHalf c || c.request.mesaStage == .vertex ||
    (c.request.mesaStage == .geometry && c.request.ngg)

def publishIf (valid : Bool) (dword : Nat) : Option Nat := if valid then some dword else none

def publishedBaseVertex : Option Nat :=
  publishIf (publishesVertex c && c.args.used .baseVertex)
    (c.args.udDword Ud.vsBaseVertexStartInstance)

/-- The dword of an argument that shares the base vertex's location. -/
def baseVertexRelative (a : Arg) : Nat :=
  (publishedBaseVertex c).getD 0 + c.args.argOffset a - c.args.argOffset .baseVertex

def publishedDrawId : Option Nat :=
  publishIf (publishesVertex c && c.args.used .baseVertex && c.args.used .drawId)
    (baseVertexRelative c .drawId)

def publishedStartInstance : Option Nat :=
  publishIf (publishesVertex c && c.args.used .startInstance)
    (baseVertexRelative c .startInstance)

def publishedRingTable : Option Nat :=
  publishIf (c.args.used .ps5RingTable) (c.args.udDword Ud.ps5RingTable)

def publishedNggLdsLayout : Option Nat :=
  publishIf (c.request.ngg && c.args.used .nggLdsLayout) (c.args.udDword Ud.nggLdsLayout)

def isNggStage : Bool :=
  (c.request.mesaStage == .vertex || c.request.mesaStage == .tessEval ||
    c.request.mesaStage == .geometry) && c.request.ngg

def windowPairs : List (Nat × Nat) :=
  [(Arg.baseVertex, publishedBaseVertex c), (.startInstance, publishedStartInstance c),
    (.drawId, publishedDrawId c), (.nggLdsLayout, publishedNggLdsLayout c)].filterMap
  fun pair => if c.args.used pair.1 then pair.2.map (c.args.argOffset pair.1, ·) else none

def publishedWindowBase : Nat :=
  if isNggStage c then ((windowBaseOf (windowPairs c)).bind id).getD 0
  else if c.request.mesaStage == .tessCtrl && hasVertexHalf c && c.args.used .ps5RingTable &&
      decide ((publishedRingTable c).getD 0 ≤ c.args.argOffset .ps5RingTable)
    then c.args.argOffset .ps5RingTable - (publishedRingTable c).getD 0
  else 0

/-- The user-data part of `fill_shader_metadata`. -/
def fillUserData : UserData where
  userSgprCount := c.args.numUserSgprs
  userDataWindowBase := publishedWindowBase c
  scratchBufferTable :=
    publishIf (c.scratchBytesPerWave != 0) (c.args.udDword Ud.scratchRingOffsets)
  descriptorSet set :=
    if set < 4 ∧ c.args.used (.descriptors set) then c.args.descriptorSets set else none
  pushConstants :=
    publishIf (c.info.loadsPushConstants && c.args.used .pushConstants)
      (c.args.udDword Ud.pushConstants)
  ps5RingTable := publishedRingTable c
  nggLdsLayout := publishedNggLdsLayout c
  vertexBufferTable :=
    publishIf (publishesVertex c && c.args.used .vertexBuffers &&
        (!hasVertexHalf c || c.info.vsVbDescUsageMask != 0))
      (c.args.udDword Ud.vsVertexBuffers)
  baseVertex := publishedBaseVertex c
  drawId := publishedDrawId c
  startInstance := publishedStartInstance c
  viewIndex :=
    publishIf ((c.request.mesaStage == .vertex || c.request.mesaStage == .fragment) &&
        c.args.used .viewIndex)
      (c.args.udDword Ud.viewIndex)
  streamoutBufferTable :=
    publishIf (c.info.soEnabledStreamBuffersMask != 0 && c.args.used .streamoutBuffers &&
        (c.request.ngg ||
          (c.args.used .streamoutConfig && c.args.used .streamoutWriteIndex)))
      (c.args.udDword Ud.streamoutBuffers)

end Fill

/-- The dword of the valid slot an argument is written through, if there is one. The
scratch table is what the ring offsets point to. -/
def UserData.slot (m : UserData) : Arg → Option Nat
  | .ringOffsets => m.scratchBufferTable
  | .descriptors set => m.descriptorSet set
  | .pushConstants => m.pushConstants
  | .ps5RingTable => m.ps5RingTable
  | .nggLdsLayout => m.nggLdsLayout
  | .vertexBuffers => m.vertexBufferTable
  | .baseVertex => m.baseVertex
  | .drawId => m.drawId
  | .startInstance => m.startInstance
  | .viewIndex => m.viewIndex
  | .streamoutBuffers => m.streamoutBufferTable
  | _ => none

end Psbc.Args
