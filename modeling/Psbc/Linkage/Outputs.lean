import Psbc.Lib.Mask
import Psbc.Lib.Numbering
import Psbc.Stage

/-!
# Parameter exports of a pre-raster stage

`radv_set_vs_output_param` gives the written outputs of the last pre-raster stage
their parameter indices: the per-vertex ones, the implicit primitive id of a vertex
or evaluation shader, the packed distance registers, and last the per-primitive
ones. `psbc_compile_impl` then changes what was decided for the implicit primitive
id (`adjustImplicitPrimitiveId`).

* `radvSetVsOutputParam_exports`: the table numbers exactly the slots of
  `exportedSlots`, with `param_exports + prim_param_exports` the next index.
* `Exports.adjust`: so it does after the adjustment.
-/

namespace Psbc.Linkage

open Mask Numbering

/-! ## Varying slots -/

/-! `gl_varying_slot` by the slots' codes: the code counts from one slot to the next and
uses slots as bit indices. -/

namespace VaryingSlot

abbrev clipDist0 : Nat := 17
abbrev clipDist1 : Nat := 18
abbrev cullDist0 : Nat := 19
abbrev cullDist1 : Nat := 20
abbrev primitiveId : Nat := 21
abbrev layer : Nat := 22
abbrev viewport : Nat := 23
abbrev primitiveCount : Nat := 26
abbrev primitiveIndices : Nat := 27
abbrev cullPrimitive : Nat := 28
abbrev var0 : Nat := 32

end VaryingSlot

open VaryingSlot

/-- `VARYING_SLOT_MAX`, the length of `vs_output_param_offset`. -/
abbrev varyingSlotMax : Nat := 64

/-- `BITFIELD64_BIT`. -/
def varyingBit (slot : Nat) : BitVec 64 := BitVec.twoPow 64 slot

/-- The generations of the library's targets, and the one
`radv_set_vs_output_param` treats apart. -/
inductive GfxLevel where
  | gfx7
  | gfx8
  | gfx10_3
  | gfx11
  deriving DecidableEq, Repr

def GfxLevel.order : GfxLevel → Nat
  | .gfx7 => 0
  | .gfx8 => 1
  | .gfx10_3 => 2
  | .gfx11 => 3

/-! ## The model -/

/-- What `nir->info` says about the outputs. -/
structure NirOutputs where
  stage : MesaStage
  outputsWritten : BitVec 64
  perPrimitiveOutputs : BitVec 64

/-- `AC_EXP_PARAM_UNDEFINED`. -/
abbrev paramUndefined : Nat := 255

/-- `radv_vs_output_info`. -/
structure VsOutputInfo where
  vsOutputParamOffset : Nat → Nat
  clipDistMask : BitVec 8
  cullDistMask : BitVec 8
  paramExports : Nat
  primParamExports : Nat
  exportPrimId : Bool
  exportPrimIdPerPrimitive : Bool

/-- `vs_output_param_offset` and `total_param_exports`. -/
abbrev ParamTable := (Nat → Nat) × Nat

def assignOutinfoParam (t : ParamTable) (idx : Nat) (extraOffset : Nat) : ParamTable :=
  if t.1 idx = paramUndefined then (Function.update t.1 idx (extraOffset + t.2), t.2 + 1) else t

/-- The slots below `VAR0` that are parameters, and all from there on. -/
def isParam (idx : Nat) : Bool :=
  decide (var0 ≤ idx) || idx == layer || idx == primitiveId || idx == viewport

def assignOutinfoParams (t : ParamTable) (mask : BitVec 64) (extraOffset : Nat) : ParamTable :=
  (bits mask).foldl
    (fun t idx => if isParam idx then assignOutinfoParam t idx extraOffset else t) t

/-- Neither parameter nor position exports. -/
def specialMask : BitVec 64 :=
  varyingBit primitiveCount ||| varyingBit primitiveIndices ||| varyingBit cullPrimitive

/-- `radv_get_output_masks`: the per-vertex and the per-primitive outputs. No stage of
the library is a mesh shader. -/
def radvGetOutputMasks (nir : NirOutputs) : BitVec 64 × BitVec 64 :=
  (nir.outputsWritten &&& ~~~nir.perPrimitiveOutputs &&& ~~~specialMask,
   nir.outputsWritten &&& nir.perPrimitiveOutputs &&& ~~~specialMask)

def implicitPrimIdPerPrim (gfx : GfxLevel) (nir : NirOutputs) (isNgg exportPrimId : Bool) :
    Bool :=
  exportPrimId && isNgg && decide (GfxLevel.gfx10_3.order ≤ gfx.order) && nir.stage == .vertex

def implicitPrimIdPerVertex (gfx : GfxLevel) (nir : NirOutputs) (isNgg exportPrimId : Bool) :
    Bool :=
  exportPrimId && !implicitPrimIdPerPrim gfx nir isNgg exportPrimId &&
    (nir.stage == .vertex || nir.stage == .tessEval)

/-- The next index to `slot`, whatever it has. -/
def setParam (t : ParamTable) (slot : Nat) : ParamTable :=
  (Function.update t.1 slot t.2, t.2 + 1)

def distanceParams (nir : NirOutputs) (exportClipCullDists : Bool) (t : ParamTable) :
    ParamTable :=
  if exportClipCullDists then
    let t := if nir.outputsWritten.getLsbD clipDist0 then setParam t clipDist0 else t
    if nir.outputsWritten.getLsbD clipDist1 then setParam t clipDist1 else t
  else t

/-- The first half of `radv_set_vs_output_param`, up to `param_exports`. -/
def perVertexParams (gfx : GfxLevel) (nir : NirOutputs)
    (isNgg exportPrimId exportClipCullDists : Bool) : ParamTable :=
  let t := assignOutinfoParams (fun _ => paramUndefined, 0) (radvGetOutputMasks nir).1 0
  let t := if implicitPrimIdPerVertex gfx nir isNgg exportPrimId then
      assignOutinfoParam t primitiveId 0 else t
  distanceParams nir exportClipCullDists t

/-- The second half: the per-primitive outputs, which the hardware needs last. -/
def perPrimitiveParams (gfx : GfxLevel) (nir : NirOutputs) (isNgg exportPrimId : Bool)
    (t : ParamTable) : ParamTable :=
  let extraOffset := if t.2 = 0 ∧ GfxLevel.gfx11.order ≤ gfx.order then 1 else 0
  let t := if implicitPrimIdPerPrim gfx nir isNgg exportPrimId then
      assignOutinfoParam t primitiveId extraOffset else t
  assignOutinfoParams t (radvGetOutputMasks nir).2 extraOffset

def radvSetVsOutputParam (gfx : GfxLevel) (nir : NirOutputs) (isNgg : Bool)
    (outinfo : VsOutputInfo) (exportPrimId exportClipCullDists : Bool) : VsOutputInfo :=
  let vertex := perVertexParams gfx nir isNgg exportPrimId exportClipCullDists
  let all := perPrimitiveParams gfx nir isNgg exportPrimId vertex
  { outinfo with
    vsOutputParamOffset := all.1
    paramExports := vertex.2
    primParamExports := all.2 - vertex.2
    exportPrimId :=
      outinfo.exportPrimId || implicitPrimIdPerVertex gfx nir isNgg exportPrimId
    exportPrimIdPerPrimitive :=
      outinfo.exportPrimIdPerPrimitive || implicitPrimIdPerPrim gfx nir isNgg exportPrimId }

/-- The step of `psbc_compile_impl` after linking. Without a pixel stage the linker adds
the primitive id for any consumer; a caller that has proved it dead drops it, and on the
PS5 it becomes a per-vertex parameter at the same index. -/
def adjustImplicitPrimitiveId (nir : NirOutputs) (omitImplicitPrimitiveId : Bool)
    (target : PsbcTarget) (outinfo : VsOutputInfo) : VsOutputInfo :=
  if nir.stage = .vertex ∧ nir.outputsWritten.getLsbD primitiveId = false ∧
      outinfo.exportPrimIdPerPrimitive = true ∧ outinfo.primParamExports = 1 ∧
      outinfo.vsOutputParamOffset primitiveId = outinfo.paramExports then
    if omitImplicitPrimitiveId then
      { outinfo with
        exportPrimIdPerPrimitive := false
        primParamExports := 0
        vsOutputParamOffset :=
          Function.update outinfo.vsOutputParamOffset primitiveId paramUndefined }
    else if target = .ps5 then
      { outinfo with
        exportPrimIdPerPrimitive := false
        primParamExports := 0
        exportPrimId := true
        paramExports := outinfo.paramExports + 1 }
    else outinfo
  else outinfo

/-- The outputs of a PS5 stage as the metadata sees them: linked, then adjusted. -/
def linkedOutinfo (nir : NirOutputs) (isNgg exportPrimId exportClipCullDists : Bool)
    (omitImplicitPrimitiveId : Bool) (outinfo : VsOutputInfo) : VsOutputInfo :=
  adjustImplicitPrimitiveId nir omitImplicitPrimitiveId .ps5
    (radvSetVsOutputParam .gfx10_3 nir isNgg outinfo exportPrimId exportClipCullDists)

/-! ## What is exported -/

/-- The table numbers exactly the slots of `S`. -/
structure Exports (t : ParamTable) (S : Finset Nat) : Prop
    extends Numbers paramUndefined S t.1 t.2 where
  subset : S ⊆ Finset.range varyingSlotMax

variable {t : ParamTable} {S : Finset Nat}

theorem Exports.lt_undefined (h : Exports t S) : t.2 < paramUndefined := by
  have hle := Finset.card_le_card h.subset
  rw [h.card, Finset.card_range] at hle
  exact lt_of_le_of_lt hle (by decide)

theorem assignOutinfoParam_zero (t : ParamTable) (idx : Nat) :
    assignOutinfoParam t idx 0 = assign paramUndefined t idx := by
  simp [assignOutinfoParam, assign]

theorem Exports.assign (h : Exports t S) {idx : Nat} (hidx : idx < varyingSlotMax) :
    Exports (assignOutinfoParam t idx 0) (insert idx S) := by
  rw [assignOutinfoParam_zero]
  refine ⟨h.toNumbers.assign idx h.lt_undefined, ?_⟩
  exact Finset.insert_subset (Finset.mem_range.mpr hidx) h.subset

theorem Exports.set (h : Exports t S) (slot : Nat) (hslot : slot < varyingSlotMax)
    (hnew : slot ∉ S) : Exports (setParam t slot) (insert slot S) := by
  have hundef : t.1 slot = paramUndefined := by
    by_contra hne
    exact hnew ((h.mem_iff slot).mp hne)
  refine ⟨h.toNumbers.update hundef h.lt_undefined, ?_⟩
  exact Finset.insert_subset (Finset.mem_range.mpr hslot) h.subset

def paramSlots (mask : BitVec 64) : Finset Nat :=
  ((bits mask).filter isParam).toFinset

theorem mem_paramSlots {mask : BitVec 64} {s : Nat} :
    s ∈ paramSlots mask ↔ mask.getLsbD s = true ∧ isParam s = true := by
  simp [paramSlots]

theorem Exports.assignAll (h : Exports t S) (mask : BitVec 64) :
    Exports (assignOutinfoParams t mask 0) (S ∪ paramSlots mask) := by
  have hsub : S ∪ paramSlots mask ⊆ Finset.range varyingSlotMax := by
    refine Finset.union_subset h.subset fun s hs => ?_
    exact Finset.mem_range.mpr (BitVec.lt_of_getLsbD (mem_paramSlots.mp hs).1)
  refine ⟨?_, hsub⟩
  have hcard := Finset.card_le_card hsub
  rw [Finset.card_range] at hcard
  unfold assignOutinfoParams
  simp only [assignOutinfoParam_zero]
  rw [← List.foldl_filter]
  exact h.toNumbers.foldl_assign _ (lt_of_le_of_lt hcard (by decide))

def distanceSlots (nir : NirOutputs) (exportClipCullDists : Bool) : Finset Nat :=
  ({clipDist0, clipDist1} : Finset Nat).filter fun s =>
    exportClipCullDists = true ∧ nir.outputsWritten.getLsbD s = true

/-- What `radv_set_vs_output_param` exports. -/
def exportedSlots (nir : NirOutputs) (exportPrimId exportClipCullDists : Bool) :
    Finset Nat :=
  (Finset.range varyingSlotMax).filter fun s =>
    (isParam s = true ∧ nir.outputsWritten.getLsbD s = true) ∨
    (s = primitiveId ∧ exportPrimId = true ∧ (nir.stage = .vertex ∨ nir.stage = .tessEval)) ∨
    s ∈ distanceSlots nir exportClipCullDists

theorem Exports.distance (h : Exports t S) (nir : NirOutputs) (exportClipCullDists : Bool)
    (h0 : clipDist0 ∉ S) (h1 : clipDist1 ∉ S) :
    Exports (distanceParams nir exportClipCullDists t)
      (distanceSlots nir exportClipCullDists ∪ S) := by
  unfold distanceParams distanceSlots
  cases exportClipCullDists with
  | false => simpa using h
  | true =>
    by_cases hw0 : nir.outputsWritten.getLsbD clipDist0 = true <;>
      by_cases hw1 : nir.outputsWritten.getLsbD clipDist1 = true
    · have := (h.set clipDist0 (by decide) h0).set clipDist1 (by decide)
        (by simpa using h1)
      simpa [hw0, hw1, Finset.filter_insert, Finset.filter_singleton, Finset.insert_comm]
        using this
    · simpa [hw0, hw1, Finset.filter_insert, Finset.filter_singleton]
        using h.set clipDist0 (by decide) h0
    · simpa [hw0, hw1, Finset.filter_insert, Finset.filter_singleton]
        using h.set clipDist1 (by decide) h1
    · simpa [hw0, hw1, Finset.filter_insert, Finset.filter_singleton] using h

/-- The implicit primitive id, wherever it is decided. -/
theorem Exports.implicitPrimId (h : Exports t S) (b : Bool) :
    Exports (if b then assignOutinfoParam t primitiveId 0 else t)
      ((if b then {primitiveId} else ∅) ∪ S) := by
  cases b with
  | false => simpa using h
  | true => exact h.assign (by decide)

/-- No slot of `specialMask` is a parameter, so the two masks give every parameter. -/
theorem mem_paramSlots_masks (nir : NirOutputs) (s : Nat) :
    s ∈ paramSlots (radvGetOutputMasks nir).1 ∨ s ∈ paramSlots (radvGetOutputMasks nir).2 ↔
      isParam s = true ∧ nir.outputsWritten.getLsbD s = true := by
  have hspecial : ∀ s : Fin 64, isParam s = true → specialMask.getLsbD s = false := by decide
  simp only [mem_paramSlots, radvGetOutputMasks, BitVec.getLsbD_and, BitVec.getLsbD_not]
  by_cases hs : isParam s = true
  · by_cases hw : nir.outputsWritten.getLsbD s = true
    · have hlt := BitVec.lt_of_getLsbD hw
      rw [hspecial ⟨s, hlt⟩ hs]
      cases nir.perPrimitiveOutputs.getLsbD s <;> simp only [hs, hw, hlt] <;> decide
    · simp [hw]
  · simp [hs]

section

variable (nir : NirOutputs) (isNgg exportPrimId exportClipCullDists : Bool)

theorem implicitPrimId_or (gfx : GfxLevel) :
    (implicitPrimIdPerVertex gfx nir isNgg exportPrimId = true ∨
      implicitPrimIdPerPrim gfx nir isNgg exportPrimId = true) ↔
    exportPrimId = true ∧ (nir.stage = .vertex ∨ nir.stage = .tessEval) := by
  unfold implicitPrimIdPerVertex
  cases hprim : implicitPrimIdPerPrim gfx nir isNgg exportPrimId with
  | false => simp
  | true =>
    simp only [implicitPrimIdPerPrim, Bool.and_eq_true, beq_iff_eq] at hprim
    simp [hprim.1.1.1, hprim.2]

theorem params_exports {gfx : GfxLevel} (hgfx : gfx ≠ .gfx11) :
    Exports (perPrimitiveParams gfx nir isNgg exportPrimId
        (perVertexParams gfx nir isNgg exportPrimId exportClipCullDists))
      (exportedSlots nir exportPrimId exportClipCullDists) := by
  have hextra : ∀ n, (if n = 0 ∧ GfxLevel.gfx11.order ≤ gfx.order then 1 else 0) = 0 := by
    intro n
    cases gfx <;> simp_all [GfxLevel.order]
  have hempty : Exports (fun _ => paramUndefined, 0) ∅ := ⟨Numbers.empty _, Finset.empty_subset _⟩
  have hvertex := (hempty.assignAll (radvGetOutputMasks nir).1).implicitPrimId
    (implicitPrimIdPerVertex gfx nir isNgg exportPrimId)
  have hdist : ∀ s, isParam s = false → s ≠ primitiveId →
      s ∉ (if implicitPrimIdPerVertex gfx nir isNgg exportPrimId = true then {primitiveId} else ∅) ∪
        (∅ ∪ paramSlots (radvGetOutputMasks nir).1) := by
    intro s hs hne
    split <;> simp [mem_paramSlots, hs, hne]
  have hall := (((hvertex.distance nir exportClipCullDists (hdist _ rfl (by decide))
    (hdist _ rfl (by decide))).implicitPrimId
      (implicitPrimIdPerPrim gfx nir isNgg exportPrimId)).assignAll (radvGetOutputMasks nir).2)
  unfold perPrimitiveParams perVertexParams
  simp only [hextra]
  convert hall using 1
  ext s
  have hif : ∀ b : Bool, s ∈ (if b then {primitiveId} else ∅ : Finset Nat) ↔
      s = primitiveId ∧ b = true := by
    intro b
    cases b <;> simp
  have hmasks := mem_paramSlots_masks nir s
  have hprim := implicitPrimId_or nir isNgg exportPrimId gfx
  have hlt := @hall.subset s
  simp only [exportedSlots, Finset.mem_filter, Finset.mem_union, Finset.notMem_empty, hif,
    ← hmasks, ← hprim] at hlt ⊢
  grind

theorem perVertexParams_le (gfx : GfxLevel) (t : ParamTable) :
    t.2 ≤ (perPrimitiveParams gfx nir isNgg exportPrimId t).2 := by
  have hassign : ∀ (t : ParamTable) idx extra, t.2 ≤ (assignOutinfoParam t idx extra).2 := by
    intro t idx extra
    unfold assignOutinfoParam
    split <;> simp
  have hfold : ∀ (l : List Nat) (t : ParamTable) extra, t.2 ≤ (l.foldl
      (fun t idx => if isParam idx then assignOutinfoParam t idx extra else t) t).2 := by
    intro l
    induction l with
    | nil => intro t extra; exact le_rfl
    | cons idx l ih =>
      intro t extra
      refine le_trans ?_ (ih _ extra)
      show t.2 ≤ (if isParam idx then assignOutinfoParam t idx extra else t).2
      split
      · exact hassign t idx extra
      · exact le_rfl
  unfold perPrimitiveParams assignOutinfoParams
  refine le_trans ?_ (hfold _ _ _)
  split
  · exact hassign t _ _
  · exact le_rfl

/-- The table with the export counts for the next index. -/
def VsOutputInfo.table (out : VsOutputInfo) : ParamTable :=
  (out.vsOutputParamOffset, out.paramExports + out.primParamExports)

theorem radvSetVsOutputParam_exports {gfx : GfxLevel} (hgfx : gfx ≠ .gfx11)
    (outinfo : VsOutputInfo) :
    Exports (radvSetVsOutputParam gfx nir isNgg outinfo exportPrimId exportClipCullDists).table
      (exportedSlots nir exportPrimId exportClipCullDists) := by
  have hle := perVertexParams_le nir isNgg exportPrimId gfx
    (perVertexParams gfx nir isNgg exportPrimId exportClipCullDists)
  unfold VsOutputInfo.table radvSetVsOutputParam
  dsimp only
  rw [Nat.add_sub_cancel' hle]
  exact params_exports nir isNgg exportPrimId exportClipCullDists hgfx

end

/-- The adjustment keeps a numbering: what it drops has the last index. -/
theorem Exports.adjust {out : VsOutputInfo} (h : Exports out.table S) (nir : NirOutputs)
    (omitImplicitPrimitiveId : Bool) (target : PsbcTarget) :
    ∃ S', Exports (adjustImplicitPrimitiveId nir omitImplicitPrimitiveId target out).table S' ∧
      ∀ s ≠ primitiveId, s ∈ S' ↔ s ∈ S := by
  unfold adjustImplicitPrimitiveId
  split
  · next hlast =>
    obtain ⟨-, -, -, hone, hidx⟩ := hlast
    have hnum : Numbers paramUndefined S out.vsOutputParamOffset (out.paramExports + 1) := by
      rw [← hone]
      exact h.toNumbers
    have hbound : out.paramExports + out.primParamExports < paramUndefined := h.lt_undefined
    split
    · refine ⟨S.erase primitiveId, ⟨hnum.erase hidx (by omega), ?_⟩, fun s hs => by simp [hs]⟩
      exact (Finset.erase_subset _ _).trans h.subset
    · split
      · exact ⟨S, ⟨hnum, h.subset⟩, fun s _ => Iff.rfl⟩
      · exact ⟨S, h, fun s _ => Iff.rfl⟩
  · exact ⟨S, h, fun s _ => Iff.rfl⟩

theorem linkedOutinfo_exports (nir : NirOutputs) (isNgg exportPrimId exportClipCullDists : Bool)
    (omitImplicitPrimitiveId : Bool) (outinfo : VsOutputInfo) :
    ∃ S, Exports (linkedOutinfo nir isNgg exportPrimId exportClipCullDists
        omitImplicitPrimitiveId outinfo).table S ∧
      ∀ s ≠ primitiveId, s ∈ S ↔ s ∈ exportedSlots nir exportPrimId exportClipCullDists :=
  (radvSetVsOutputParam_exports nir isNgg exportPrimId exportClipCullDists (by decide)
    outinfo).adjust nir omitImplicitPrimitiveId .ps5

theorem linkedOutinfo_masks (nir : NirOutputs) (isNgg exportPrimId exportClipCullDists : Bool)
    (omitImplicitPrimitiveId : Bool) (outinfo : VsOutputInfo) :
    let out := linkedOutinfo nir isNgg exportPrimId exportClipCullDists omitImplicitPrimitiveId
      outinfo
    out.clipDistMask = outinfo.clipDistMask ∧ out.cullDistMask = outinfo.cullDistMask := by
  unfold linkedOutinfo adjustImplicitPrimitiveId
  dsimp only
  repeat' split
  all_goals exact ⟨rfl, rfl⟩

end Psbc.Linkage
