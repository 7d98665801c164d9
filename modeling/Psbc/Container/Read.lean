import Psbc.Container.Build

/-!
# Reading the shader container back

The accessors of `pssl_types.h` and the checks of `verify_sb.py` as a reader of the
bytes alone (`read`), and the round trip: whatever `buildshaderbinary` returns has
the size it allocated and reads back as what was put in
(`buildshaderbinary_read`). The size is computed by one switch and the bytes are
written by others; `length_stageArea` is where they meet.
-/

namespace Psbc.Container

open Bytes Mask

/-! ## The reader -/

section Reader

variable (data : List Byte)

/-- `hdr->codesize`. -/
def psslCodesize : Nat := readLe data 16 4

/-- `psslSbGnmShaderBinaryInfo`, as an offset into the file. -/
def psslSbGnmShaderBinaryInfo : Nat := 0x24 + psslCodesize data - 0x1c

/-- `psslSbParameterInfo`, as an offset into the file. -/
def psslSbParameterInfo : Nat := 0x24 + psslCodesize data

/-- The `length` field of the info block. -/
def infoLength : Nat := readLe data (psslSbGnmShaderBinaryInfo data + 8) 4 / 2 ^ 8

/-- The offset behind the GNM file header and its `headersizedwords`. -/
def codeStart : Nat := 0x24 + 0x10 + 4 * readLe data (0x24 + 9) 1

/-- The checksum a reader recomputes: the code in front of the info block, zeros to
a multiple of eight bytes, and the info block without its last word, in one pass. -/
def recomputedCrc : Word :=
  let info := psslSbGnmShaderBinaryInfo data
  let length := infoLength data
  let numpad := if length % 8 ≠ 0 then 8 - length % 8 else 0
  crc32SbEnd (crc32Sb (slice data (info - length) length ++ List.replicate numpad 0 ++
    slice data info 24) crc32SbBegin)

/-- What a reader recovers from the bytes. -/
structure Reading where
  signature : List Byte
  length : Nat
  code : List Byte
  codeAt : Nat
  codeStart : Nat
  paramEnd : Nat
  storedCrc : Nat
  crc : Word

def read : Reading where
  signature := slice data (psslSbGnmShaderBinaryInfo data) 7
  length := infoLength data
  code := slice data (psslSbGnmShaderBinaryInfo data - infoLength data) (infoLength data)
  codeAt := psslSbGnmShaderBinaryInfo data - infoLength data
  codeStart := codeStart data
  paramEnd := psslSbParameterInfo data + 0x1c
  storedCrc := readLe data (psslSbGnmShaderBinaryInfo data + 24) 4
  crc := recomputedCrc data

end Reader

/-! ## Sizes of the parts -/

section Sizes

variable (abi : GnmAbi) (ctx : BuildContext) (code : List Word)

@[simp] theorem length_psslHeader : (psslHeader abi ctx code).length = 0x24 := by
  simp [psslHeader]

@[simp] theorem length_gnmFileHeader : (gnmFileHeader abi ctx).length = 0x10 := by
  simp [gnmFileHeader]

@[simp] theorem length_codeBytes : (codeBytes ctx code).length = codesize ctx code := by
  rw [codeBytes, length_flatMap_const (n := 4) (fun w => length_leBytes 4 _), codesize,
    Nat.mul_comm]

@[simp] theorem length_binaryInfo (off : Nat) : (binaryInfo abi ctx code off).length = 24 := by
  simp [binaryInfo]

theorem length_usageSlots : (usageSlots ctx).length = numinputslots ctx := by
  unfold usageSlots numinputslots
  cases ctx.prologInputs <;> cases ctx.vertexBuffers <;> cases ctx.descriptors0 <;>
    cases isVsFamily ctx <;> rfl

theorem length_semantics : (semantics abi ctx).length = semanticsSize abi ctx := by
  have hin := length_flatMap_const abi.length_encodeVertexInput
  have hout := length_flatMap_const abi.length_encodeVertexExport
  have hpix := length_flatMap_const abi.length_encodePixelInput
  unfold semantics semanticsSize
  cases ctx.stage <;>
    simp [hin, hout, hpix, vertexInputs, plainInputs, vertexExports, pixelInputs]

/-- Both switches over the public stage agree on the stages that are supported. -/
theorem length_shaderHeader {header : List Byte} (h : shaderHeader abi ctx code = some header) :
    header.length = headershsize abi ctx.psbcStage := by
  unfold shaderHeader at h
  unfold headershsize
  cases hs : ctx.psbcStage <;> rw [hs] at h <;> simp only [Option.some.injEq, reduceCtorEq] at h <;>
    rw [← h, abi.length_encodeHeader]

/-- The stage header, the usage slots, the tables and the padding. -/
def stageArea (header : List Byte) : List Byte :=
  header ++ ((usageSlots ctx).flatMap abi.encodeUsageSlot ++ (semantics abi ctx ++
    List.replicate (alignbytes (unalignedSize abi ctx)) 0))

/-- **The stage area has the size the header announces.** -/
theorem length_stageArea {header : List Byte} (h : shaderHeader abi ctx code = some header) :
    (stageArea abi ctx header).length = shspecificsize abi ctx := by
  simp only [stageArea, List.length_append, length_shaderHeader abi ctx code h,
    length_flatMap_const abi.length_encodeUsageSlot, length_usageSlots, length_semantics,
    List.length_replicate, shspecificsize, unalignedSize]
  omega

theorem shspecificsize_aligned : 4 * (shspecificsize abi ctx / 4) = shspecificsize abi ctx := by
  unfold shspecificsize alignbytes
  omega

end Sizes

/-! ## The round trip -/

section RoundTrip

variable (abi : GnmAbi) (ctx : BuildContext) (code : List Word)

def infoOffset : Nat := 0x24 + 0x10 + shspecificsize abi ctx + codesize ctx code

def containerCrc : Word :=
  hashsb (codeBytes ctx code) (binaryInfo abi ctx code (infoOffset abi ctx code))
    (codesize ctx code % 2 ^ 24)

/-- The container with the stage structure `header`, part by part. -/
def layout (header : List Byte) : List Byte :=
  psslHeader abi ctx code ++ (gnmFileHeader abi ctx ++ (stageArea abi ctx header ++
    (codeBytes ctx code ++ (binaryInfo abi ctx code (infoOffset abi ctx code) ++
      (leBytes 4 (containerCrc abi ctx code).toNat ++ List.replicate 0x1c 0)))))

variable {abi ctx code}

theorem buildshaderbinary_ok {alloc : Nat → Bool} {out : ShaderBinary}
    (h : buildshaderbinary abi ctx code alloc = .ok out) :
    ∃ header, shaderHeader abi ctx code = some header ∧
      out = ⟨layout abi ctx code header, totalSize abi ctx code⟩ := by
  unfold buildshaderbinary at h
  split at h
  · cases h
  split at h
  · cases h
  split at h
  · cases h
  · next header hheader =>
    refine ⟨header, hheader, ?_⟩
    have harea := length_stageArea abi ctx code hheader
    have hfront : (psslHeader abi ctx code ++ gnmFileHeader abi ctx ++ header ++
        (usageSlots ctx).flatMap abi.encodeUsageSlot ++ semantics abi ctx ++
        List.replicate (alignbytes (unalignedSize abi ctx)) 0 ++ codeBytes ctx code).length =
        infoOffset abi ctx code := by
      simp only [stageArea, List.length_append] at harea
      simp only [List.length_append, length_psslHeader, length_gnmFileHeader, length_codeBytes,
        infoOffset]
      omega
    rw [← Except.ok.inj h, hfront]
    simp only [layout, stageArea, containerCrc, List.append_assoc]

section Fields

variable {header : List Byte} (hheader : shaderHeader abi ctx code = some header)

include hheader in
theorem length_layout : (layout abi ctx code header).length = totalSize abi ctx code := by
  simp only [layout, List.length_append, length_psslHeader, length_gnmFileHeader,
    length_stageArea abi ctx code hheader, length_codeBytes, length_binaryInfo, length_leBytes,
    List.length_replicate, totalSize]
  omega

variable (hcode : codesize ctx code < 2 ^ 24) (harea : shspecificsize abi ctx < 1024)

include hcode harea in
theorem psslCodesize_layout : psslCodesize (layout abi ctx code header) =
    0x10 + shspecificsize abi ctx + codesize ctx code + 0x1c := by
  have hsplit : layout abi ctx code header =
      (leBytes 1 0 ++ leBytes 1 4 ++ leBytes 2 0 ++ leBytes 4 0 ++ leBytes 4 0 ++
        leBytes 1 (psbshtype ctx.psbcStage) ++ leBytes 1 1 ++ leBytes 1 0 ++ leBytes 1 0) ++
      (leBytes 4 (0x10 + shspecificsize abi ctx + codesize ctx code + 0x1c) ++
        (leBytes 4 0 ++ (leBytes 12 0 ++ (layout abi ctx code header).drop 0x24))) := by
    rw [layout, List.drop_left' (length_psslHeader abi ctx code)]
    simp only [psslHeader, List.append_assoc]
  rw [psslCodesize, hsplit, readLe_mid _ _ (by simp), Nat.mod_eq_of_lt (by omega)]

include hcode harea in
theorem psslSbGnmShaderBinaryInfo_layout :
    psslSbGnmShaderBinaryInfo (layout abi ctx code header) = infoOffset abi ctx code := by
  rw [psslSbGnmShaderBinaryInfo, psslCodesize_layout hcode harea, infoOffset]
  omega

include harea in
theorem codeStart_layout :
    codeStart (layout abi ctx code header) = 0x24 + 0x10 + shspecificsize abi ctx := by
  obtain ⟨rest, hsplit⟩ : ∃ rest, layout abi ctx code header =
      (psslHeader abi ctx code ++ leBytes 4 0x72646853 ++ leBytes 2 7 ++ leBytes 2 2 ++
        leBytes 1 (gnmshtype ctx.psbcStage)) ++
      (leBytes 1 (shspecificsize abi ctx / 4) ++ rest) := by
    simp only [layout, gnmFileHeader, List.append_assoc]
    exact ⟨_, rfl⟩
  rw [codeStart, hsplit, readLe_mid _ _ (by simp), Nat.mod_eq_of_lt (by omega),
    shspecificsize_aligned]

def front (abi : GnmAbi) (ctx : BuildContext) (code : List Word) (header : List Byte) :
    List Byte := psslHeader abi ctx code ++ (gnmFileHeader abi ctx ++ stageArea abi ctx header)

theorem layout_eq_front : layout abi ctx code header = front abi ctx code header ++
    (codeBytes ctx code ++ (binaryInfo abi ctx code (infoOffset abi ctx code) ++
      (leBytes 4 (containerCrc abi ctx code).toNat ++ List.replicate 0x1c 0))) := by
  simp only [layout, front, List.append_assoc]

include hheader in
theorem length_front :
    (front abi ctx code header).length = 0x24 + 0x10 + shspecificsize abi ctx := by
  simp only [front, List.length_append, length_psslHeader, length_gnmFileHeader,
    length_stageArea abi ctx code hheader]
  omega

include hheader in
theorem length_front_code :
    (front abi ctx code header ++ codeBytes ctx code).length = infoOffset abi ctx code := by
  rw [List.length_append, length_front hheader, length_codeBytes, infoOffset]

include hheader in
theorem slice_code : slice (layout abi ctx code header) (0x24 + 0x10 + shspecificsize abi ctx)
    (codesize ctx code) = codeBytes ctx code := by
  rw [layout_eq_front, slice_mid _ _ _ (length_front hheader).symm (by simp)]

include hheader in
theorem slice_info : slice (layout abi ctx code header) (infoOffset abi ctx code) 24 =
    binaryInfo abi ctx code (infoOffset abi ctx code) := by
  rw [layout_eq_front, ← List.append_assoc, slice_mid _ _ _ (length_front_code hheader).symm
    (by simp)]

include hheader in
theorem slice_signature : slice (layout abi ctx code header) (infoOffset abi ctx code) 7 =
    [0x4f, 0x72, 0x62, 0x53, 0x68, 0x64, 0x72] := by
  rw [layout_eq_front, ← List.append_assoc, binaryInfo]
  simp only [List.append_assoc]
  rw [← List.append_assoc]
  exact slice_mid _ [0x4f, 0x72, 0x62, 0x53, 0x68, 0x64, 0x72] _
    (length_front_code hheader).symm rfl

include hheader hcode in
theorem readLe_length :
    readLe (layout abi ctx code header) (infoOffset abi ctx code + 8) 4 / 2 ^ 8 =
      codesize ctx code := by
  obtain ⟨rest, hsplit⟩ : ∃ rest, layout abi ctx code header =
      (front abi ctx code header ++ codeBytes ctx code ++
        [0x4f, 0x72, 0x62, 0x53, 0x68, 0x64, 0x72] ++ leBytes 1 7) ++
      (leBytes 4 (1 + 4 * (abi.shbCode (shbintype ctx.psbcStage)).toNat +
        256 * (codesize ctx code % 2 ^ 24)) ++ rest) := by
    simp only [layout_eq_front, binaryInfo, List.append_assoc]
    exact ⟨_, rfl⟩
  have htype := (abi.shbCode (shbintype ctx.psbcStage)).isLt
  have hoff := length_front_code hheader
  rw [hsplit, readLe_mid _ _ (by rw [List.length_append, List.length_append, hoff]; rfl),
    Nat.mod_eq_of_lt hcode, Nat.mod_eq_of_lt (by omega)]
  omega

include hheader in
theorem readLe_crc : readLe (layout abi ctx code header) (infoOffset abi ctx code + 24) 4 =
    (containerCrc abi ctx code).toNat := by
  have hoff := length_front_code hheader
  have hlt := (containerCrc abi ctx code).isLt
  rw [layout_eq_front, ← List.append_assoc, ← List.append_assoc,
    readLe_mid _ _ (by rw [List.length_append, hoff, length_binaryInfo]),
    Nat.mod_eq_of_lt (by omega)]

end Fields

/-- Three chained checksum calls are the reader's single pass. -/
theorem hashsb_eq (codeData info : List Byte) (length : Nat) :
    hashsb codeData info length = crc32SbEnd (crc32Sb (codeData ++
      List.replicate (if length % 8 ≠ 0 then 8 - length % 8 else 0) 0 ++ info) crc32SbBegin) := by
  rw [crc32Sb_append, crc32Sb_append]
  rfl

theorem codeBytes_eq (ctx : BuildContext) (code : List Word) :
    codeBytes ctx code =
      (if ctx.nirStage = .vertex ∧ ctx.hasProlog then leBytes 4 0xbe802100 else []) ++
        code.flatMap fun w => leBytes 4 w.toNat := by
  unfold codeBytes newcode
  split <;> rfl

/-- **The container round trip.** Whatever is written has the size that was
allocated, and a reader of the bytes alone finds the signature, the code with its
fetch jump right in front of the info block and right behind the stage area, the
parameter info at the end of the file, and a checksum that matches. -/
theorem buildshaderbinary_read (abi : GnmAbi) (ctx : BuildContext) (code : List Word)
    (alloc : Nat → Bool) (out : ShaderBinary)
    (hbuild : buildshaderbinary abi ctx code alloc = .ok out)
    (hcode : codesize ctx code < 2 ^ 24) (harea : shspecificsize abi ctx < 1024) :
    out.data.length = out.allocated ∧
      (read out.data).signature = [0x4f, 0x72, 0x62, 0x53, 0x68, 0x64, 0x72] ∧
      (read out.data).length =
        (if ctx.nirStage = .vertex ∧ ctx.hasProlog then 4 else 0) + 4 * code.length ∧
      (read out.data).code =
        (if ctx.nirStage = .vertex ∧ ctx.hasProlog then leBytes 4 0xbe802100 else []) ++
          code.flatMap (fun w => leBytes 4 w.toNat) ∧
      (read out.data).codeAt = (read out.data).codeStart ∧
      (read out.data).paramEnd = out.data.length ∧
      (read out.data).storedCrc = (read out.data).crc.toNat := by
  obtain ⟨header, hheader, rfl⟩ := buildshaderbinary_ok hbuild
  have hinfo : psslSbGnmShaderBinaryInfo (layout abi ctx code header) = infoOffset abi ctx code :=
    psslSbGnmShaderBinaryInfo_layout hcode harea
  have hlen : infoLength (layout abi ctx code header) = codesize ctx code := by
    rw [infoLength, hinfo]
    exact readLe_length hheader hcode
  have hat : infoOffset abi ctx code - codesize ctx code =
      0x24 + 0x10 + shspecificsize abi ctx := by
    rw [infoOffset]; omega
  have hsize := length_layout hheader
  simp only [read]
  refine ⟨hsize, ?_, ?_, ?_, ?_, ?_, ?_⟩
  · rw [hinfo, slice_signature hheader]
  · rw [hlen, ← length_codeBytes, codeBytes_eq, List.length_append,
      length_flatMap_const (n := 4) (fun w => length_leBytes 4 _), Nat.mul_comm]
    split <;> simp
  · rw [hinfo, hlen, hat, slice_code hheader, codeBytes_eq]
  · rw [hinfo, hlen, hat, codeStart_layout harea]
  · rw [psslSbParameterInfo, psslCodesize_layout hcode harea, hsize, totalSize]
    omega
  · rw [hinfo, readLe_crc hheader, containerCrc, hashsb_eq, recomputedCrc, hinfo, hlen, hat,
      slice_code hheader, slice_info hheader, Nat.mod_eq_of_lt hcode]

/-- Structures of one word each, for running the writer. -/
def wordAbi : GnmAbi where
  headerSize _ := 28
  encodeHeader _ h := leBytes 4 h.shadersize ++ leBytes 4 h.numinputusageslots ++
    leBytes 4 h.pgmlo ++ leBytes 4 h.rsrc1.toNat ++ leBytes 4 h.rsrc2.toNat ++
    leBytes 4 h.numinputsemantics ++ leBytes 4 h.numexportsemantics
  usageSlotSize := 4
  encodeUsageSlot s := leBytes 4 s.startregister
  vertexInputSize := 4
  encodeVertexInput s := leBytes 4 s.semantic
  vertexExportSize := 2
  encodeVertexExport s := leBytes 2 s.semantic
  pixelInputSize := 2
  encodePixelInput s := leBytes 2 s.semantic
  shbCode _ := 2
  targetBase := 1
  targetNeo := 2
  length_encodeHeader _ _ := by simp
  length_encodeUsageSlot _ := by simp
  length_encodeVertexInput _ := by simp
  length_encodeVertexExport _ := by simp
  length_encodePixelInput _ := by simp

/-- A vertex shader with a fetch prolog, two inputs, the position and one varying. -/
def fetchVertex : BuildContext where
  nirStage := .vertex
  stage := .vertex
  psbcStage := .vertex
  hasProlog := true
  inputsRead := 3
  outputsWritten := 1 ||| 1 <<< 32
  prologInputs := some 2
  vertexBuffers := none
  descriptors0 := some 4
  vsInputs i := (4 * i, 4)
  inputSemantics := []
  gfx103 := false
  neo := false
  rsrc1 := 0
  rsrc2 := 0
  stageRegisters := []
  workgroupSize := []
  spirv := [3, 2, 35, 7]

theorem buildshaderbinary_read_fetchVertex :
    ∃ out, buildshaderbinary wordAbi fetchVertex [0xbf810000] (fun _ => true) = .ok out ∧
      out.data.length = out.allocated ∧
      (read out.data).signature = [0x4f, 0x72, 0x62, 0x53, 0x68, 0x64, 0x72] ∧
      (read out.data).length = 8 ∧
      (read out.data).code = [0x00, 0x21, 0x80, 0xbe, 0x00, 0x00, 0x81, 0xbf] ∧
      (read out.data).codeAt = (read out.data).codeStart ∧
      (read out.data).paramEnd = out.data.length ∧
      (read out.data).storedCrc = (read out.data).crc.toNat :=
  ⟨_, rfl, buildshaderbinary_read wordAbi fetchVertex [0xbf810000] (fun _ => true) _ rfl
    (by decide) (by decide +kernel)⟩

end RoundTrip

end Psbc.Container
