import Psbc.Container.Crc
import Psbc.Lib.Mask
import Psbc.Stage

/-!
# Writing the shader container

`buildshaderbinary` (`psbc_compile.c`): the PSSL header, the GNM file header, the
stage's register header with its usage slots and semantic tables, the machine
code, the `OrbShdr` info block with the checksum, and the parameter info.

The GNM stage structures come from external headers. `GnmAbi` is what the writer
needs to know about them: a size and an encoding of that size for each structure,
and the codes of the external enumerations. The register words that the stage
header only copies (`stageRegisters`) enter as data.
-/

namespace Psbc.Container

open Bytes Mask

inductive UsageType where
  | subptrFetchshader
  | ptrVertexbuffertable
  | ptrIndirectresourcetable
  deriving DecidableEq, Repr

structure InputUsageSlot where
  usagetype : UsageType
  startregister : Nat
  deriving DecidableEq, Repr

structure VertexInputSemantic where
  semantic : Nat
  vgpr : Nat
  sizeinelements : Nat
  deriving DecidableEq, Repr

structure VertexExportSemantic where
  semantic : Nat
  outindex : Nat
  exportf16 : Nat
  deriving DecidableEq, Repr

structure PixelInputSemantic where
  semantic : Nat
  isflatshaded : Nat
  deriving DecidableEq, Repr

/-- The stage structures `GnmVsShader` to `GnmLsShader`. -/
inductive HeaderKind where
  | vs | ps | cs | gs | hs | es | ls
  deriving DecidableEq, Repr

/-- `GnmShaderBinaryType`. -/
inductive ShbType where
  | vsVs | dsVs | vsEs | vsLs | ps | cs | gs | hs
  deriving DecidableEq, Repr

/-- The fields of a stage structure; the counts a structure lacks are zero. -/
structure StageHeader where
  shadersize : Nat
  numinputusageslots : Nat
  pgmlo : Nat
  pgmhi : Nat
  rsrc1 : Word
  rsrc2 : Word
  registers : List Word
  numinputsemantics : Nat
  numexportsemantics : Nat

/-- Sizes, encodings and codes of the external GNM headers. -/
structure GnmAbi where
  headerSize : HeaderKind → Nat
  encodeHeader : HeaderKind → StageHeader → List Byte
  usageSlotSize : Nat
  encodeUsageSlot : InputUsageSlot → List Byte
  vertexInputSize : Nat
  encodeVertexInput : VertexInputSemantic → List Byte
  vertexExportSize : Nat
  encodeVertexExport : VertexExportSemantic → List Byte
  pixelInputSize : Nat
  encodePixelInput : PixelInputSemantic → List Byte
  shbCode : ShbType → BitVec 4
  targetBase : Byte
  targetNeo : Byte
  length_encodeHeader : ∀ k h, (encodeHeader k h).length = headerSize k
  length_encodeUsageSlot : ∀ s, (encodeUsageSlot s).length = usageSlotSize
  length_encodeVertexInput : ∀ s, (encodeVertexInput s).length = vertexInputSize
  length_encodeVertexExport : ∀ s, (encodeVertexExport s).length = vertexExportSize
  length_encodePixelInput : ∀ s, (encodePixelInput s).length = pixelInputSize

/-- The fields of `BuildContext` the writer reads. An argument is `some` of its
register offset when it is used. -/
structure BuildContext where
  nirStage : MesaStage
  stage : MesaStage
  psbcStage : PsbcStage
  hasProlog : Bool
  inputsRead : BitVec 64
  outputsWritten : BitVec 64
  prologInputs : Option Nat
  vertexBuffers : Option Nat
  descriptors0 : Option Nat
  /-- Register offset and size of vertex input `i`. -/
  vsInputs : Nat → Nat × Nat
  inputSemantics : List Word
  gfx103 : Bool
  neo : Bool
  rsrc1 : Word
  rsrc2 : Word
  stageRegisters : List Word
  workgroupSize : List Nat
  spirv : List Byte

/-! ## Type maps -/

/-- `psbshtype`, as the value of `PsslShaderType`. -/
def psbshtype : PsbcStage → Nat
  | .fragment => 1
  | .compute => 2
  | _ => 0

/-- `gnmshtype`, as the value of `GnmShaderType`. -/
def gnmshtype : PsbcStage → Nat
  | .fragment => 2
  | .geometry => 3
  | .compute => 4
  | .tessCtrl => 7
  | _ => 1

def shbintype : PsbcStage → ShbType
  | .vertex => .vsVs
  | .tessEval => .dsVs
  | .exportShader => .vsEs
  | .localShader => .vsLs
  | .fragment => .ps
  | .compute => .cs
  | .geometry => .gs
  | .tessCtrl => .hs
  | .none | .task => .vsVs

def headershsize (abi : GnmAbi) : PsbcStage → Nat
  | .vertex => abi.headerSize .vs
  | .tessEval => abi.headerSize .vs
  | .exportShader => abi.headerSize .es
  | .localShader => abi.headerSize .ls
  | .fragment => abi.headerSize .ps
  | .compute => abi.headerSize .cs
  | .geometry => abi.headerSize .gs
  | .tessCtrl => abi.headerSize .hs
  | .none | .task => abi.headerSize .vs

/-! ## Sizes -/

section Build

variable (abi : GnmAbi) (ctx : BuildContext) (code : List Word)

/-- The fetch jump in front of a vertex shader with a prolog,
`s_swappc_b64 s[0:1], s[0:1]`. -/
def newcode : List Word :=
  if ctx.nirStage = .vertex ∧ ctx.hasProlog then 0xbe802100 :: code else code

def codesize : Nat := 4 * (newcode ctx code).length

def isVsFamily : Bool :=
  ctx.stage = .vertex ∨ ctx.psbcStage = .exportShader ∨ ctx.psbcStage = .localShader

def numinputslots : Nat :=
  (if isVsFamily ctx ∧ ctx.prologInputs.isSome then 1 else 0) +
  (if isVsFamily ctx ∧ ctx.vertexBuffers.isSome then 1 else 0) +
  (if ctx.descriptors0.isSome then 1 else 0)

/-- The outputs without the position. -/
def outputswritten : Nat := popcount (ctx.outputsWritten &&& ~~~1#64)

def semanticsSize : Nat :=
  match ctx.stage with
  | .vertex | .tessEval | .geometry =>
    popcount ctx.inputsRead * abi.vertexInputSize + outputswritten ctx * abi.vertexExportSize
  | .fragment => ctx.inputSemantics.length * abi.pixelInputSize
  | .tessCtrl => popcount ctx.inputsRead * abi.vertexInputSize
  | _ => 0

def unalignedSize : Nat :=
  headershsize abi ctx.psbcStage + numinputslots ctx * abi.usageSlotSize + semanticsSize abi ctx

/-- `((n + 3) & -4) - n`. -/
def alignbytes (n : Nat) : Nat := (n + 3) / 4 * 4 - n

def shspecificsize : Nat := unalignedSize abi ctx + alignbytes (unalignedSize abi ctx)

def totalSize : Nat := 0x24 + 0x10 + shspecificsize abi ctx + codesize ctx code + 0x1c + 0x1c

/-! ## Parts -/

def psslHeader : List Byte :=
  leBytes 1 0 ++ leBytes 1 4 ++ leBytes 2 0 ++ leBytes 4 0 ++ leBytes 4 0 ++
  leBytes 1 (psbshtype ctx.psbcStage) ++ leBytes 1 1 ++ leBytes 1 0 ++ leBytes 1 0 ++
  leBytes 4 (0x10 + shspecificsize abi ctx + codesize ctx code + 0x1c) ++
  leBytes 4 0 ++ leBytes 12 0

/-- `"Shdr"`, version 7.2. -/
def gnmFileHeader : List Byte :=
  leBytes 4 0x72646853 ++ leBytes 2 7 ++ leBytes 2 2 ++ leBytes 1 (gnmshtype ctx.psbcStage) ++
  leBytes 1 (shspecificsize abi ctx / 4) ++ leBytes 1 0 ++
  [if ctx.gfx103 then abi.targetNeo else if ctx.neo then abi.targetNeo else abi.targetBase] ++
  leBytes 4 0

/-- The stage structure, with the counts and addresses each stage stores. -/
def stageHeader (pgmhi : Nat) (registers : List Word) (inputs exports : Nat) : StageHeader where
  shadersize := codesize ctx code + 0x1c
  numinputusageslots := numinputslots ctx
  pgmlo := shspecificsize abi ctx
  pgmhi := pgmhi
  rsrc1 := ctx.rsrc1
  rsrc2 := ctx.rsrc2
  registers := registers
  numinputsemantics := inputs
  numexportsemantics := exports

/-- The switch over the public stage; the other stages are not supported. -/
def shaderHeader : Option (List Byte) :=
  match ctx.psbcStage with
  | .vertex | .tessEval =>
    some (abi.encodeHeader .vs (stageHeader abi ctx code 0xffffffff ctx.stageRegisters
      ctx.inputSemantics.length (outputswritten ctx)))
  | .fragment =>
    some (abi.encodeHeader .ps (stageHeader abi ctx code 0xffffffff ctx.stageRegisters
      (popcount ctx.inputsRead) 0))
  | .compute =>
    some (abi.encodeHeader .cs (stageHeader abi ctx code 0
      (ctx.workgroupSize.map fun n => BitVec.ofNat 32 (if n = 0 then 1 else n)) 0 0))
  | .geometry =>
    some (abi.encodeHeader .gs (stageHeader abi ctx code 0xffffffff ctx.stageRegisters
      (popcount ctx.inputsRead) (outputswritten ctx)))
  | .tessCtrl =>
    some (abi.encodeHeader .hs (stageHeader abi ctx code 0xffffffff ctx.stageRegisters
      (popcount ctx.inputsRead) 0))
  | .exportShader =>
    some (abi.encodeHeader .es (stageHeader abi ctx code 0xffffffff []
      (popcount ctx.inputsRead) (outputswritten ctx)))
  | .localShader =>
    some (abi.encodeHeader .ls (stageHeader abi ctx code 0xffffffff []
      (popcount ctx.inputsRead) (outputswritten ctx)))
  | .none | .task => none

def usageSlots : List InputUsageSlot :=
  (match ctx.prologInputs with
    | some r => if isVsFamily ctx then [⟨.subptrFetchshader, r⟩] else []
    | none => []) ++
  (match ctx.vertexBuffers with
    | some r => if isVsFamily ctx then [⟨.ptrVertexbuffertable, r⟩] else []
    | none => []) ++
  (match ctx.descriptors0 with
    | some r => [⟨.ptrIndirectresourcetable, r⟩]
    | none => [])

def vertexInputs : List VertexInputSemantic :=
  (List.range (popcount ctx.inputsRead)).map fun i => ⟨i, (ctx.vsInputs i).1, (ctx.vsInputs i).2⟩

def plainInputs : List VertexInputSemantic :=
  (List.range (popcount ctx.inputsRead)).map fun i => ⟨i, 0, 0⟩

def vertexExports : List VertexExportSemantic :=
  (List.range (outputswritten ctx)).map fun i => ⟨15 + i, i, 0⟩

def pixelInputs : List PixelInputSemantic :=
  ctx.inputSemantics.map fun word : Word => ⟨(word &&& 0xff).toNat, ((word >>> 22) &&& 1).toNat⟩

def semantics : List Byte :=
  match ctx.stage with
  | .vertex | .tessEval =>
    (vertexInputs ctx).flatMap abi.encodeVertexInput ++
      (vertexExports ctx).flatMap abi.encodeVertexExport
  | .fragment => (pixelInputs ctx).flatMap abi.encodePixelInput
  | .geometry =>
    (plainInputs ctx).flatMap abi.encodeVertexInput ++
      (vertexExports ctx).flatMap abi.encodeVertexExport
  | .tessCtrl => (plainInputs ctx).flatMap abi.encodeVertexInput
  | _ => []

def codeBytes : List Byte := (newcode ctx code).flatMap fun w => leBytes 4 w.toNat

/-- FNV-1a of the SPIR-V module. -/
def shaderhash : BitVec 64 :=
  if ctx.spirv.length > 0 then
    ctx.spirv.foldl (fun h b => (h ^^^ b.zeroExtend 64) * 0x100000001b3) 0xcbf29ce484222325
  else 0

/-- The info block without its checksum, for a block at `orbshdrOffset`. -/
def binaryInfo (orbshdrOffset : Nat) : List Byte :=
  let inputslotsOffset := 0x24 + 0x10 + headershsize abi ctx.psbcStage
  let chunkusageoffset :=
    if numinputslots ctx > 0 then (orbshdrOffset - inputslotsOffset) / 4 else 0
  -- the signature, version 7
  [0x4f, 0x72, 0x62, 0x53, 0x68, 0x64, 0x72] ++ leBytes 1 7 ++
  -- ispsslcg : 1, issourcecached : 1, type : 4, sourcetype : 2, length : 24
  leBytes 4 (1 + 4 * (abi.shbCode (shbintype ctx.psbcStage)).toNat +
    256 * (codesize ctx code % 2 ^ 24)) ++
  leBytes 1 chunkusageoffset ++ leBytes 1 (numinputslots ctx) ++ leBytes 1 0 ++ leBytes 1 0 ++
  leBytes 4 ((shaderhash ctx).toNat % 2 ^ 32) ++ leBytes 4 ((shaderhash ctx).toNat / 2 ^ 32)

/-- `hashsb`: the code, zeros to a multiple of eight bytes, and the info block. -/
def hashsb (codeData info : List Byte) (length : Nat) : Word :=
  let numpadbytes := if length % 8 ≠ 0 then 8 - length % 8 else 0
  let hash := crc32Sb codeData crc32SbBegin
  let hash := crc32Sb (List.replicate numpadbytes 0) hash
  let hash := crc32Sb info hash
  crc32SbEnd hash

/-- What a successful call returns: the bytes written and the size allocated. -/
structure ShaderBinary where
  data : List Byte
  allocated : Nat

/-- `buildshaderbinary`; `alloc` says which sizes `malloc` serves. -/
def buildshaderbinary (alloc : Nat → Bool) : Except PsbcError ShaderBinary :=
  if !alloc (codesize ctx code) then .error .outOfMemory
  else if !alloc (totalSize abi ctx code) then .error .outOfMemory
  else
    match shaderHeader abi ctx code with
    | none => .error .unsupportedStage
    | some header =>
      let front := psslHeader abi ctx code ++ gnmFileHeader abi ctx ++ header ++
        (usageSlots ctx).flatMap abi.encodeUsageSlot ++ semantics abi ctx ++
        List.replicate (alignbytes (unalignedSize abi ctx)) 0 ++ codeBytes ctx code
      let info := binaryInfo abi ctx code front.length
      let crc := hashsb (codeBytes ctx code) info (codesize ctx code % 2 ^ 24)
      .ok ⟨front ++ info ++ leBytes 4 crc.toNat ++ List.replicate 0x1c 0, totalSize abi ctx code⟩

end Build

end Psbc.Container
