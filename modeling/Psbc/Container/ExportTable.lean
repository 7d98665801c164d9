import Psbc.Container.Build
import Psbc.Linkage.Outputs
import Psbc.Compile.Request

/-!
# The export table of a vertex container

`buildshaderbinary` numbers the entries of the export table by position, while the
pixel side looks for the key `15 + location`. The parameter an output is exported to is
decided elsewhere: `radv_nir_shader_info_link` fills `vs_output_param_offset` and
`param_exports`, and `ac_nir_lower_legacy_vs` emits the exports from them. The link does
not run for a vertex shader compiled on its own without NGG.

* `VertexCompile`: such a compile, from its modules to the table and the exports.
* `VertexCompile.exportTableNames_iff`: the table names the exported parameters exactly
  when the shader writes nothing but the position.
-/

namespace Psbc.Container

open Mask Linkage

/-! ## The parameter exports of the code -/

/-- A parameter export of the code: the slot it carries and its parameter index. -/
structure ParamExport where
  slot : Nat
  target : Nat
  deriving DecidableEq, Repr

/-- `VARYING_SLOT_VAR0_16BIT`. -/
def var0SixteenBit : Nat := 96

/-- `ac_nir_prerast_out`: the components a store of the slot leaves as varyings. -/
abbrev PrerastOut := Nat → BitVec 4

/-- The loop body of `ac_nir_export_parameters`; `exported_params` is what `done` has. -/
def exportParameter (paramOffsets : Nat → Nat) (out : PrerastOut) (done : List ParamExport)
    (slot : Nat) : List ParamExport :=
  let offset := paramOffsets slot
  if 31 < offset then done
  else if out slot = 0 then done
  else if done.any (·.target == offset) then done
  else done ++ [⟨slot, offset⟩]

def acNirExportParameters (paramOffsets : Nat → Nat) (outputsWritten : BitVec 64)
    (outputsWritten16bit : BitVec 16) (out : PrerastOut) : List ParamExport :=
  (bits outputsWritten ++ (bits outputsWritten16bit).map (var0SixteenBit + ·)).foldl
    (exportParameter paramOffsets out) []

/-- `nir->info` after the lowering, and the parameter exports it emitted. -/
structure LegacyVs where
  outputsWritten : BitVec 64
  paramExports : List ParamExport

/-- The parameter half of `ac_nir_lower_legacy_vs`. -/
def acNirLowerLegacyVs (nir : NirOutputs) (outputsWritten16bit : BitVec 16) (out : PrerastOut)
    (outinfo : VsOutputInfo) : LegacyVs :=
  let out := if outinfo.exportPrimId then Function.update out VaryingSlot.primitiveId 1 else out
  let outputsWritten :=
    if outinfo.exportPrimId then nir.outputsWritten ||| varyingBit VaryingSlot.primitiveId
    else nir.outputsWritten
  { outputsWritten := outputsWritten
    -- `has_param_exports` is `param_exports`
    paramExports :=
      if outinfo.paramExports = 0 then []
      else acNirExportParameters outinfo.vsOutputParamOffset outputsWritten
        outputsWritten16bit out }

/-! ## The compile -/

/-- What `radv_nir_shader_info_init` and the info pass leave of the parameters. -/
def gatheredOutinfo (clipDistMask cullDistMask : BitVec 8) : VsOutputInfo where
  vsOutputParamOffset := fun _ => 0
  clipDistMask := clipDistMask
  cullDistMask := cullDistMask
  paramExports := 0
  primParamExports := 0
  exportPrimId := false
  exportPrimIdPerPrimitive := false

/-- The info link of `psbc_compile_impl`, for a stage with no pixel stage behind it. -/
def compiledOutinfo (r : Request) (gfx : GfxLevel) (nir : NirOutputs)
    (omitImplicitPrimitiveId : Bool) (outinfo : VsOutputInfo) : VsOutputInfo :=
  if r.ngg || r.pairedHull || r.pairedDomain then
    adjustImplicitPrimitiveId nir omitImplicitPrimitiveId r.target
      (radvSetVsOutputParam gfx nir r.ngg outinfo true true)
  else outinfo

/-- A vertex shader compiled on its own without NGG. -/
structure VertexCompile where
  request : Request
  gfx : GfxLevel
  nir : NirOutputs
  clipDistMask : BitVec 8
  cullDistMask : BitVec 8
  omitImplicitPrimitiveId : Bool
  outputsWritten16bit : BitVec 16
  out : PrerastOut
  isVertex : request.mesaStage = .vertex
  notNgg : request.ngg = false

namespace VertexCompile

variable (c : VertexCompile)

def outinfo : VsOutputInfo :=
  compiledOutinfo c.request c.gfx c.nir c.omitImplicitPrimitiveId
    (gatheredOutinfo c.clipDistMask c.cullDistMask)

def lowered : LegacyVs := acNirLowerLegacyVs c.nir c.outputsWritten16bit c.out c.outinfo

/-- The field `VS_EXPORT_COUNT` of the stage header, `nparams - 1`. -/
def vsExportCount : Nat := max c.outinfo.paramExports 1 - 1

def Writes (L : Nat) : Prop := c.nir.outputsWritten.getLsbD (VaryingSlot.var0 + L) = true

theorem outinfo_eq : c.outinfo = gatheredOutinfo c.clipDistMask c.cullDistMask := by
  simp [outinfo, compiledOutinfo, c.notNgg, Request.pairedHull, Request.pairedDomain, c.isVertex]

theorem lowered_outputsWritten : c.lowered.outputsWritten = c.nir.outputsWritten := by
  simp [lowered, acNirLowerLegacyVs, outinfo_eq, gatheredOutinfo]

/-- Nothing has assigned a parameter, so the code exports none. -/
theorem lowered_paramExports : c.lowered.paramExports = [] := by
  simp [lowered, acNirLowerLegacyVs, outinfo_eq, gatheredOutinfo]

/-! ## Names -/

/-- The table of a container built from the lowered shader names the parameters the
code exports. -/
structure ExportTableNames (ctx : BuildContext) : Prop where
  /-- A written location has one entry, which gives the parameter it is exported to. -/
  named : ∀ L, c.Writes L → ∃ e, (vertexExports ctx).filter (·.semantic == 15 + L) = [e] ∧
    ⟨VaryingSlot.var0 + L, e.outindex⟩ ∈ c.lowered.paramExports ∧
    e.outindex < c.vsExportCount + 1
  /-- A key names a location that is written. -/
  written : ∀ e ∈ vertexExports ctx, ∀ M, e.semantic = 15 + M → c.Writes M

end VertexCompile

/-- The first entry is always for location 0. -/
theorem vertexExports_head {ctx : BuildContext} (h : 0 < outputswritten ctx) :
    ⟨15, 0, 0⟩ ∈ vertexExports ctx := by
  simpa [vertexExports] using h

theorem outputswritten_eq_zero_iff {ctx : BuildContext} :
    outputswritten ctx = 0 ↔ ∀ slot, ctx.outputsWritten.getLsbD slot = true → slot = 0 := by
  have hbit : ∀ slot, (ctx.outputsWritten &&& ~~~1#64).getLsbD slot = true ↔
      ctx.outputsWritten.getLsbD slot = true ∧ slot ≠ 0 := by
    intro slot
    by_cases hslot : ctx.outputsWritten.getLsbD slot = true
    · have hlt := BitVec.lt_of_getLsbD hslot
      rw [BitVec.getLsbD_and, BitVec.getLsbD_not, BitVec.getLsbD_one]
      simp [hslot, hlt]
    · simp [hslot]
  constructor
  · intro hzero slot hslot
    by_contra hne
    have hpos := popcount_pos ((hbit slot).mpr ⟨hslot, hne⟩)
    rw [outputswritten] at hzero
    omega
  · intro h
    refine Nat.count_iff_forall_not.mpr fun slot _ hslot => ?_
    exact ((hbit slot).mp hslot).2 (h slot ((hbit slot).mp hslot).1)

namespace VertexCompile

/-- The export table of a vertex container names real parameters exactly when the shader
writes nothing but the position, so that there is nothing to name. -/
theorem exportTableNames_iff (c : VertexCompile) (ctx : BuildContext)
    (hctx : ctx.outputsWritten = c.lowered.outputsWritten) :
    c.ExportTableNames ctx ↔ ∀ slot, c.nir.outputsWritten.getLsbD slot = true → slot = 0 := by
  rw [lowered_outputsWritten] at hctx
  rw [← hctx, ← outputswritten_eq_zero_iff]
  constructor
  · intro h
    by_contra hne
    -- the first entry has the key of location 0, which must then be written and exported
    have hzero := h.written _ (vertexExports_head (Nat.pos_of_ne_zero hne)) 0 rfl
    obtain ⟨e, -, hexport, -⟩ := h.named 0 hzero
    rw [lowered_paramExports] at hexport
    exact List.not_mem_nil hexport
  · intro hzero
    have hpos := outputswritten_eq_zero_iff.mp hzero
    refine ⟨fun L hL => ?_, fun e he => ?_⟩
    · rw [Writes, ← hctx] at hL
      exact absurd (hpos _ hL) (Nat.add_pos_left (by decide) L).ne'
    · simp [vertexExports, hzero] at he

end VertexCompile

/-- A PS4 vertex shader that writes its position and location 0. -/
def colourVertex : VertexCompile where
  request := ⟨.ps4Base, .vertex, false, false, false⟩
  gfx := .gfx7
  nir := ⟨.vertex, 0x100000001#64, 0⟩
  clipDistMask := 0
  cullDistMask := 0
  omitImplicitPrimitiveId := false
  outputsWritten16bit := 0
  out := fun _ => 0xf
  isVertex := rfl
  notNgg := rfl

def colourContext : BuildContext where
  nirStage := .vertex
  stage := .vertex
  psbcStage := .vertex
  hasProlog := false
  inputsRead := 0
  outputsWritten := 0x100000001#64
  prologInputs := none
  vertexBuffers := none
  descriptors0 := none
  vsInputs := fun _ => (0, 0)
  inputSemantics := []
  gfx103 := false
  neo := false
  rsrc1 := 0
  rsrc2 := 0
  stageRegisters := []
  workgroupSize := []
  spirv := []

/-- Its table says that location 0 is parameter 0; the code exports no parameter. -/
theorem colourVertex_table_misnames : vertexExports colourContext = [⟨15, 0, 0⟩] ∧
    colourVertex.lowered.paramExports = [] ∧ ¬ colourVertex.ExportTableNames colourContext := by
  have hnone := colourVertex.lowered_paramExports
  refine ⟨by decide, hnone, fun h => ?_⟩
  obtain ⟨e, -, hexport, -⟩ :=
    h.named 0 (by decide : colourContext.outputsWritten.getLsbD 32 = true)
  rw [hnone] at hexport
  exact List.not_mem_nil hexport

theorem exportTableNames_colourVertex_iff : colourVertex.ExportTableNames colourContext ↔
    ∀ slot, colourVertex.nir.outputsWritten.getLsbD slot = true → slot = 0 :=
  colourVertex.exportTableNames_iff colourContext colourVertex.lowered_outputsWritten.symm

end Psbc.Container
