import Psbc.Compile.Finish
import Psbc.Lib.Scan

/-!
# Options of the command line

`parsecmdoptions` of `cmd/psbc/main.c` walks over the arguments, the name of the program
included, and compares each with the names of the options. An option may read the argument
behind it. Some options go past the one they read; the others leave it to the loop, which
compares it in turn.

`parseLoop` is the loop; beside the options it has the positions of the arguments that were
taken for options.
-/

namespace Psbc.Cli

open Compile Scan

abbrev Arg := List Char

/-! ## Names -/

/-- In the order of the comparisons. -/
inductive Opt where
  | showhelp
  | inputfile
  | outputfile
  | previousfile
  | metadatafile
  | entrypoint
  | stage
  | ps4Base
  | ps4Neo
  | ps5
  | noOptimise
  | verbose
  | ngg
  | ps5GlobalStreamout
  | forceAcceleratedDot
  | provokingVtxLast
  | raw
  | primitiveType
  | address32Hi
  | vertexAttribute
  | descriptorBinding
  deriving DecidableEq, Repr

namespace Opt

def all : List Opt :=
  [showhelp, inputfile, outputfile, previousfile, metadatafile, entrypoint, stage, ps4Base,
    ps4Neo, ps5, noOptimise, verbose, ngg, ps5GlobalStreamout, forceAcceleratedDot,
    provokingVtxLast, raw, primitiveType, address32Hi, vertexAttribute, descriptorBinding]

def name : Opt → Arg
  | showhelp => "-h".toList
  | inputfile => "-f".toList
  | outputfile => "-o".toList
  | previousfile => "--previous".toList
  | metadatafile => "--metadata".toList
  | entrypoint => "-e".toList
  | stage => "-s".toList
  | ps4Base => "-4".toList
  | ps4Neo => "-n".toList
  | ps5 => "-g".toList
  | noOptimise => "-Od".toList
  | verbose => "-vv".toList
  | ngg => "--ngg".toList
  | ps5GlobalStreamout => "--ps5-global-streamout".toList
  | forceAcceleratedDot => "--force-accelerated-dot".toList
  | provokingVtxLast => "--provoking-vertex-last".toList
  | raw => "--raw".toList
  | primitiveType => "--primitive-type".toList
  | address32Hi => "--address32-hi".toList
  | vertexAttribute => "--vertex-attribute".toList
  | descriptorBinding => "--descriptor-binding".toList

def ofArg (arg : Arg) : Option Opt := all.find? fun o => o.name = arg

theorem ofArg_name (o : Opt) : ofArg o.name = some o := by
  cases o <;> decide

end Opt

def stageNames : List (Arg × PsbcStage) :=
  [("vertex".toList, .vertex), ("tess-ctrl".toList, .tessCtrl), ("tess-eval".toList, .tessEval),
    ("geometry".toList, .geometry), ("fragment".toList, .fragment),
    ("compute".toList, .compute), ("task".toList, .task), ("export".toList, .exportShader),
    ("local".toList, .localShader)]

def psbcStageFromName (name : Arg) : PsbcStage := (stageNames.lookup name).getD .none

def vertexFormatNames : List (Arg × PsbcVertexFormat) :=
  [("r32_float".toList, .r32Float), ("r32g32_float".toList, .r32g32Float),
    ("r32g32b32_float".toList, .r32g32b32Float),
    ("r32g32b32a32_float".toList, .r32g32b32a32Float),
    ("b8g8r8a8_unorm".toList, .b8g8r8a8Unorm),
    ("r10g10b10a2_unorm".toList, .r10g10b10a2Unorm),
    ("b10g10r10a2_unorm".toList, .b10g10r10a2Unorm),
    ("r10g10b10a2_snorm".toList, .r10g10b10a2Snorm),
    ("b10g10r10a2_snorm".toList, .b10g10r10a2Snorm),
    ("r10g10b10a2_uscaled".toList, .r10g10b10a2Uscaled),
    ("b10g10r10a2_uscaled".toList, .b10g10r10a2Uscaled),
    ("r10g10b10a2_sscaled".toList, .r10g10b10a2Sscaled),
    ("b10g10r10a2_sscaled".toList, .b10g10r10a2Sscaled),
    ("r32_sint".toList, .r32Sint), ("r32g32_sint".toList, .r32g32Sint),
    ("r32g32b32_sint".toList, .r32g32b32Sint), ("r32g32b32a32_sint".toList, .r32g32b32a32Sint),
    ("r32_uint".toList, .r32Uint), ("r32g32_uint".toList, .r32g32Uint),
    ("r32g32b32_uint".toList, .r32g32b32Uint), ("r32g32b32a32_uint".toList, .r32g32b32a32Uint),
    ("r8_unorm".toList, .r8Unorm), ("r8_snorm".toList, .r8Snorm), ("r8_uint".toList, .r8Uint),
    ("r8_sint".toList, .r8Sint),
    ("r8g8_unorm".toList, .r8g8Unorm), ("r8g8_snorm".toList, .r8g8Snorm),
    ("r8g8_uint".toList, .r8g8Uint), ("r8g8_sint".toList, .r8g8Sint),
    ("r8g8b8a8_unorm".toList, .r8g8b8a8Unorm), ("r8g8b8a8_snorm".toList, .r8g8b8a8Snorm),
    ("r8g8b8a8_uint".toList, .r8g8b8a8Uint), ("r8g8b8a8_sint".toList, .r8g8b8a8Sint),
    ("r16_unorm".toList, .r16Unorm), ("r16_snorm".toList, .r16Snorm),
    ("r16_uint".toList, .r16Uint), ("r16_sint".toList, .r16Sint),
    ("r16_float".toList, .r16Float),
    ("r16g16_unorm".toList, .r16g16Unorm), ("r16g16_snorm".toList, .r16g16Snorm),
    ("r16g16_uint".toList, .r16g16Uint), ("r16g16_sint".toList, .r16g16Sint),
    ("r16g16_float".toList, .r16g16Float),
    ("r16g16b16a16_unorm".toList, .r16g16b16a16Unorm),
    ("r16g16b16a16_snorm".toList, .r16g16b16a16Snorm),
    ("r16g16b16a16_uint".toList, .r16g16b16a16Uint),
    ("r16g16b16a16_sint".toList, .r16g16b16a16Sint),
    ("r16g16b16a16_float".toList, .r16g16b16a16Float)]

def parseVertexFormat (name : Arg) : PsbcVertexFormat := (vertexFormatNames.lookup name).getD .none

def descriptorTypeNames : List (Arg × PsbcDescriptorType) :=
  [("uniform_buffer".toList, .uniformBuffer),
    ("uniform_texel_buffer".toList, .uniformTexelBuffer),
    ("combined_image_sampler".toList, .combinedImageSampler),
    ("storage_buffer".toList, .storageBuffer), ("sampler".toList, .sampler),
    ("sampled_image".toList, .sampledImage),
    ("storage_texel_buffer".toList, .storageTexelBuffer)]

def parseDescriptorType (name : Arg) : PsbcDescriptorType :=
  (descriptorTypeNames.lookup name).getD .none

def primitiveTypeNames : List (Arg × Nat) :=
  [("point-list".toList, 1), ("line-list".toList, 2), ("line-strip".toList, 3),
    ("triangle-list".toList, 4), ("triangle-fan".toList, 5), ("triangle-strip".toList, 6),
    ("line-list-adjacency".toList, 10), ("line-strip-adjacency".toList, 11),
    ("triangle-list-adjacency".toList, 12), ("triangle-strip-adjacency".toList, 13)]

def uint32Max : Nat := 2 ^ 32 - 1

def parsePrimitiveType (name : Arg) : Nat := (primitiveTypeNames.lookup name).getD uint32Max

/-! ## Options -/

@[ext]
structure CmdOptions where
  inputfile : Option Arg := none
  previousfile : Option Arg := none
  outputfile : Option Arg := none
  metadatafile : Option Arg := none
  entrypoint : Arg := "main".toList
  stage : PsbcStage := .none
  showhelp : Bool := false
  target : PsbcTarget := .ps5
  optimise : Bool := true
  verbose : Bool := false
  ngg : Bool := false
  ps5GlobalStreamout : Bool := false
  forceAcceleratedDot : Bool := false
  provokingVtxLast : Bool := false
  raw : Bool := false
  primitiveType : Nat := 0
  address32Hi : Nat := 0
  vertexAttributes : List PsbcVertexAttribute := []
  descriptorBindings : List PsbcDescriptorBinding := []
  parseError : Bool := false
  deriving DecidableEq, Repr

namespace CmdOptions

def fail (res : CmdOptions) : CmdOptions := { res with parseError := true }

/-- `error` is raised beside what was stored. -/
def failIf (res : CmdOptions) (error : Bool) : CmdOptions :=
  { res with parseError := res.parseError || error }

def setPrimitiveType (res : CmdOptions) (value : Arg) : CmdOptions :=
  failIf { res with primitiveType := parsePrimitiveType value }
    (parsePrimitiveType value == uint32Max)

def setAddress32Hi (res : CmdOptions) (value : Arg) : CmdOptions :=
  let (n, rest) := strtoul value
  if rest ≠ [] ∨ uint32Max < n then res.fail else { res with address32Hi := n }

/-- `%u:%31[^:]:%u:%u:%u:%u:%u` -/
def vertexAttributeFormat : List Directive :=
  [.unsigned, .literal ':', .field 31 ':', .literal ':', .unsigned, .literal ':', .unsigned,
    .literal ':', .unsigned, .literal ':', .unsigned, .literal ':', .unsigned]

def pushVertexAttribute (res : CmdOptions) (location : Nat) (formatName : Arg)
    (binding offset stride alignment instanceDivisor : Nat) : CmdOptions :=
  let attr : PsbcVertexAttribute :=
    ⟨location % 2 ^ 8, binding % 2 ^ 8, parseVertexFormat formatName, offset, stride, alignment,
      instanceDivisor⟩
  failIf { res with vertexAttributes := res.vertexAttributes ++ [attr] }
    (decide (psbcMaxVertexAttributes ≤ location) || decide (32 ≤ binding) || attr.format == .none)

def addVertexAttribute (res : CmdOptions) (value : Arg) : CmdOptions :=
  match sscanf vertexAttributeFormat value with
  | [.number location, .text format, .number binding, .number offset, .number stride,
      .number alignment] =>
    res.pushVertexAttribute location format binding offset stride alignment 0
  | [.number location, .text format, .number binding, .number offset, .number stride,
      .number alignment, .number instanceDivisor] =>
    res.pushVertexAttribute location format binding offset stride alignment instanceDivisor
  | _ => res.fail

/-- `%u:%u:%31[^:]:%u:%u:%u` -/
def descriptorBindingFormat : List Directive :=
  [.unsigned, .literal ':', .unsigned, .literal ':', .field 31 ':', .literal ':', .unsigned,
    .literal ':', .unsigned, .literal ':', .unsigned]

def addDescriptorBinding (res : CmdOptions) (value : Arg) : CmdOptions :=
  match sscanf descriptorBindingFormat value with
  | [.number set, .number binding, .text typeName, .number arraySize, .number offset,
      .number stride] =>
    let descriptor : PsbcDescriptorBinding :=
      ⟨set % 2 ^ 8, binding % 2 ^ 8, parseDescriptorType typeName, arraySize, offset, stride⟩
    failIf { res with descriptorBindings := res.descriptorBindings ++ [descriptor] }
      (set != descriptor.set || binding != descriptor.binding || descriptor.type == .none)
  | _ => res.fail

end CmdOptions

/-- What an option does with the argument behind it, and whether it goes past that. -/
def Opt.apply (res : CmdOptions) : Opt → Option Arg → CmdOptions × Bool
  | showhelp, _ => ({ res with showhelp := true }, false)
  | inputfile, value => ({ res with inputfile := value <|> res.inputfile }, false)
  | outputfile, value => ({ res with outputfile := value <|> res.outputfile }, false)
  | previousfile, value => ({ res with previousfile := value <|> res.previousfile }, false)
  | metadatafile, value => ({ res with metadatafile := value <|> res.metadatafile }, false)
  | entrypoint, value => ({ res with entrypoint := value.getD res.entrypoint }, false)
  | stage, value => ({ res with stage := (value.map psbcStageFromName).getD res.stage }, false)
  | ps4Base, _ => ({ res with target := .ps4Base }, false)
  | ps4Neo, _ => ({ res with target := .ps4Neo }, false)
  | ps5, _ => ({ res with target := .ps5 }, false)
  | noOptimise, _ => ({ res with optimise := false }, false)
  | verbose, _ => ({ res with verbose := true }, false)
  | ngg, _ => ({ res with ngg := true }, false)
  | ps5GlobalStreamout, _ => ({ res with ps5GlobalStreamout := true }, false)
  | forceAcceleratedDot, _ => ({ res with forceAcceleratedDot := true }, false)
  | provokingVtxLast, _ => ({ res with provokingVtxLast := true }, false)
  | raw, _ => ({ res with raw := true }, false)
  | primitiveType, none => (res.fail, false)
  | primitiveType, some value => (res.setPrimitiveType value, true)
  | address32Hi, none => (res, false)
  | address32Hi, some value => (res.setAddress32Hi value, true)
  | vertexAttribute, none => (res.fail, false)
  | vertexAttribute, some value =>
    if psbcMaxVertexAttributes ≤ res.vertexAttributes.length then (res.fail, false)
    else (res.addVertexAttribute value, true)
  | descriptorBinding, none => (res.fail, false)
  | descriptorBinding, some value =>
    if psbcMaxDescriptorBindings ≤ res.descriptorBindings.length then (res.fail, false)
    else (res.addDescriptorBinding value, true)

/-! ## The loop -/

/-- From the argument at position `i` on, which is passed over when an option went past it. -/
def parseLoop : Bool → List Arg → Nat → CmdOptions → CmdOptions × List Nat
  | _, [], _, res => (res, [])
  | true, _ :: args, i, res => parseLoop false args (i + 1) res
  | false, arg :: args, i, res =>
    match Opt.ofArg arg with
    | none => parseLoop false args (i + 1) res
    | some o =>
      let (res, past) := o.apply res args.head?
      let (res, taken) := parseLoop past args (i + 1) res
      (res, i :: taken)

def parsecmdoptions (argv : List Arg) : CmdOptions := (parseLoop false argv 0 {}).1

/-- The positions of the arguments that were taken for options. -/
def takenForOptions (argv : List Arg) : List Nat := (parseLoop false argv 0 {}).2

end Psbc.Cli
