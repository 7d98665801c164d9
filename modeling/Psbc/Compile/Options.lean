import Psbc.Spirv.Capabilities

/-!
# Compile options

The fields of `PsbcCompileOptions` that `psbc_compile_impl` reads up to the lowering of
its modules, and the checks it makes on them. An array with its count is a `Counted`: the
count is what the caller wrote, so a check must bound it before the entries are read.
-/

namespace Psbc

open Spirv

structure Counted (α : Type) where
  count : Nat
  entry : Nat → α

inductive PsbcDescriptorType where
  | none
  | uniformBuffer
  | uniformTexelBuffer
  | combinedImageSampler
  | storageBuffer
  | inputAttachment
  | storageImage
  | sampler
  | sampledImage
  | storageTexelBuffer
  deriving DecidableEq, Repr

structure PsbcDescriptorBinding where
  set : Nat
  binding : Nat
  type : PsbcDescriptorType
  arraySize : Nat
  offset : Nat
  stride : Nat
  deriving DecidableEq, Repr

structure PsbcSpecializationConstant where
  constantId : Nat
  size : Nat
  data : List Bytes.Byte
  deriving DecidableEq, Repr

structure PsbcLinkedStageParameters where
  enabled : Bool
  entrypoint : Option String
  specializationConstants : Counted PsbcSpecializationConstant

structure PsbcCompileOptions where
  target : PsbcTarget
  stage : PsbcStage
  entrypoint : Option String
  ngg : Bool
  primitiveIdPerPrimitive : Bool
  ps5GlobalStreamout : Bool
  descriptorBindings : Counted PsbcDescriptorBinding
  specializationConstants : Counted PsbcSpecializationConstant
  previousParameters : PsbcLinkedStageParameters
  nextLinkParameters : PsbcLinkedStageParameters
  patchControlPoints : Nat
  spiShaderColFormat : BitVec 32
  colorIsInt8 : BitVec 32
  colorIsInt10 : BitVec 32
  capabilities : CapabilityOptions

def psbcMaxDescriptorBindings : Nat := 64
def psbcMaxDescriptorSets : Nat := 4
def psbcMaxSpecializationConstants : Nat := 64
def psbcMaxSpecializationBytes : Nat := 8

/-- `V_028714_SPI_SHADER_32_ABGR`, the largest colour format. -/
def spiShader32Abgr : Nat := 9

def specializationParametersValid (entries : Counted PsbcSpecializationConstant) : Bool :=
  if psbcMaxSpecializationConstants < entries.count then false
  else (List.range entries.count).all fun i =>
    (entries.entry i).size != 0 &&
      decide ((entries.entry i).size ≤ psbcMaxSpecializationBytes) &&
      (List.range i).all fun j => (entries.entry j).constantId != (entries.entry i).constantId

/-- `select_linked_parameters`: the options a linked stage is prepared with. -/
def selectLinkedParameters (base : PsbcCompileOptions) (source : PsbcLinkedStageParameters) :
    PsbcCompileOptions :=
  if source.enabled then
    { base with
      entrypoint := source.entrypoint
      specializationConstants := source.specializationConstants }
  else base

@[simp] theorem selectLinkedParameters_capabilities (base : PsbcCompileOptions)
    (source : PsbcLinkedStageParameters) :
    (selectLinkedParameters base source).capabilities = base.capabilities := by
  unfold selectLinkedParameters
  split <;> rfl

namespace PsbcDescriptorType

def expectedStride : PsbcDescriptorType → Nat
  | combinedImageSampler => 48
  | inputAttachment | storageImage | sampledImage => 32
  | _ => 16

def valid : PsbcDescriptorType → Bool
  | none => false
  | _ => true

end PsbcDescriptorType

def PsbcDescriptorBinding.valid (b : PsbcDescriptorBinding) : Bool :=
  decide (b.set < psbcMaxDescriptorSets) && decide (b.binding < psbcMaxDescriptorBindings) &&
    b.type.valid && b.arraySize != 0 && b.stride == b.type.expectedStride &&
    b.offset % 16 == 0 && decide (b.offset + b.arraySize * b.stride ≤ 0xffffffff)

namespace PsbcCompileOptions

/-- An option that widens another one is set without it. -/
def capabilitiesInconsistent (o : PsbcCompileOptions) : Bool :=
  (o.capabilities.enableUniformAndStorageBuffer8BitAccess &&
      !o.capabilities.enableStorageBuffer8BitAccess) ||
    (o.capabilities.enableUniformAndStorageBuffer16BitAccess &&
      !o.capabilities.enableStorageBuffer16BitAccess) ||
    (o.capabilities.enableVulkanMemoryModelDeviceScope &&
      !o.capabilities.enableVulkanMemoryModel)

def specializationsValid (o : PsbcCompileOptions) : Bool :=
  specializationParametersValid o.specializationConstants &&
    (!o.previousParameters.enabled ||
      specializationParametersValid o.previousParameters.specializationConstants) &&
    (!o.nextLinkParameters.enabled ||
      specializationParametersValid o.nextLinkParameters.specializationConstants)

/-- The clamp masks name the eight attachments only. -/
def colorMasksValid (o : PsbcCompileOptions) : Bool :=
  (o.colorIsInt8 ||| o.colorIsInt10) &&& ~~~(0xff : BitVec 32) == 0

def colorFormatsValid (o : PsbcCompileOptions) : Bool :=
  (List.range 8).all fun i =>
    decide (((o.spiShaderColFormat >>> (4 * i)) &&& 0xf).toNat ≤ spiShader32Abgr)

/-- Each binding passes and no two have the same set and number. -/
def descriptorBindingsValid (o : PsbcCompileOptions) : Bool :=
  (List.range o.descriptorBindings.count).all fun i =>
    (o.descriptorBindings.entry i).valid &&
      (List.range i).all fun j =>
        !((o.descriptorBindings.entry j).set == (o.descriptorBindings.entry i).set &&
          (o.descriptorBindings.entry j).binding == (o.descriptorBindings.entry i).binding)

end PsbcCompileOptions

end Psbc
