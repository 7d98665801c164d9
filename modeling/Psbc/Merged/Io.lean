import Psbc.Lib.Cells
import Psbc.Lib.Mask
import Psbc.Linkage.Outputs

/-!
# Slots of a merged shader in LDS

The two halves of a merged shader pass values through LDS. Each vertex has a record of
slots, four components of four bytes to a slot, and a dword behind the slots against bank
conflicts. Linked halves number the slots by counting them in the consumer's mask,
unlinked ones by the fixed table of `radv_map_io_driver_location`.

* `acNirMapIoLocation`, `acNirCalcIoOff`: the index of a slot and its offset.
* `radvGatherUnlinkedIoMask`: the fixed locations a mask occupies.
* `ioCell_apart`, `ioCell_end_le`: the components of a record as cells.
-/

namespace Psbc.Merged

open Mask Cells Linkage

/-! ## Offsets -/

/-- `ac_nir_map_io_location`. Without a table the halves are linked. -/
def acNirMapIoLocation (location : Nat) (mask : BitVec 64) (mapIo : Option (Nat → Nat)) : Nat :=
  match mapIo with
  | some map => map location
  | none => rank mask location

def acNirCalcIoOff (component ioOffset baseStride componentStride mapped : Nat) : Nat :=
  baseStride * mapped + baseStride * ioOffset + component * componentStride

/-- A record of `numSlots` slots; one dword more lets each start on another bank. -/
def paddedRecordSize (numSlots : Nat) : Nat :=
  let size := numSlots * 16
  if size ≠ 0 then size + 4 else size

/-- On the target's level, which is past `GFX9`. -/
def radvComputeEsgsItemsize (numVaryings : Nat) : Nat := paddedRecordSize numVaryings

def getTcsInputVertexStride (tcsNumInputs : Nat) : Nat := paddedRecordSize tcsNumInputs

theorem paddedRecordSize_le (n : Nat) : paddedRecordSize n ≤ n * 16 + 4 := by
  simp only [paddedRecordSize]
  split <;> omega

theorem le_paddedRecordSize (n : Nat) : n * 16 ≤ paddedRecordSize n := by
  simp only [paddedRecordSize]
  split <;> omega

theorem four_dvd_paddedRecordSize (n : Nat) : paddedRecordSize n / 4 * 4 = paddedRecordSize n := by
  simp only [paddedRecordSize]
  split <;> omega

/-- A component of the slot with this index, from the start of the record. -/
def ioCell (index component : Nat) : Nat := index * 16 + component * 4

section

variable {i j c d n : Nat}

theorem ioCell_apart (hc : c < 4) (hd : d < 4) (h : i ≠ j ∨ c ≠ d) :
    Apart 4 (ioCell i c) (ioCell j d) := by
  refine apart_record (by omega) (by omega) (h.imp_right fun hne => ?_)
  unfold Apart
  omega

theorem ioCell_end_le_mul (hi : i < n) (hc : c < 4) : ioCell i c + 4 ≤ n * 16 :=
  end_le hi (by omega)

theorem ioCell_end_le (hi : i < n) (hc : c < 4) : ioCell i c + 4 ≤ paddedRecordSize n :=
  (ioCell_end_le_mul hi hc).trans (le_paddedRecordSize n)

end

/-! ## Fixed locations -/

/-- `ac_shader_io_get_unique_index_patch`; other semantics are asserted away. -/
def acShaderIoGetUniqueIndexPatch (semantic : Nat) : Nat :=
  if semantic = 26 then 0
  else if semantic = 27 then 1
  else if 64 ≤ semantic ∧ semantic < 94 then 2 + (semantic - 64)
  else 0

/-- `radv_map_io_driver_location`. The last case asserts a generic slot. -/
def radvMapIoDriverLocation (semantic : Nat) : Nat :=
  if 64 ≤ semantic ∧ semantic < 96 ∨ semantic = 27 ∨ semantic = 26 then
    acShaderIoGetUniqueIndexPatch semantic
  else if semantic = 0 then 0
  else if semantic = VaryingSlot.clipDist0 then 1
  else if semantic = VaryingSlot.clipDist1 then 2
  else if semantic = 12 then 3
  else 4 + (semantic - VaryingSlot.var0)

/-- `LAYER`, `VIEWPORT`, `PRIMITIVE_ID` and `PRIMITIVE_SHADING_RATE` have no fixed slot. -/
def hasNoFixedSlot (semantic : Nat) : Bool :=
  semantic == VaryingSlot.layer || semantic == VaryingSlot.viewport ||
    semantic == VaryingSlot.primitiveId || semantic == 24

/-- The loop body of `radv_gather_unlinked_io_mask`. -/
def gatherUnlinkedSlot (radvIoMask : BitVec 64) (semantic : Nat) : BitVec 64 :=
  if hasNoFixedSlot semantic then radvIoMask
  else radvIoMask ||| BitVec.twoPow 64 (radvMapIoDriverLocation semantic)

def radvGatherUnlinkedIoMask (nirIoMask : BitVec 64) : BitVec 64 :=
  (bits nirIoMask).foldl gatherUnlinkedSlot 0

section

variable {m : BitVec 64} {i j : Nat}

end

end Psbc.Merged
