import Psbc.Lib.Lanes

/-!
# Colour export formats

A format word has one four-bit format for each of the eight colour attachments, zero for
an attachment that is not exported. The exports of a pixel shader are consecutive, so the
word programmed into `SPI_SHADER_COL_FORMAT` has the formats in use moved down over the
unused ones. `compactSpiShaderColFormat` is the loop that moves them.
-/

namespace Psbc.ColorFormat

open Lanes

def formatOf (formats : BitVec 32) (i : Nat) : BitVec 4 := lane 4 formats i

def formatsOf (formats : BitVec 32) : List (BitVec 4) := lanes 4 8 formats

/-- One turn of the loop: the compacted word and the next export slot. -/
def compactStep (formats : BitVec 32) (state : BitVec 32 × Nat) (i : Nat) : BitVec 32 × Nat :=
  let format := (formats >>> (4 * i)) &&& 0xf
  if format != 0 then (state.1 ||| (format <<< (4 * state.2)), state.2 + 1) else state

def compactSpiShaderColFormat (formats : BitVec 32) : BitVec 32 :=
  ((List.range 8).foldl (compactStep formats) (0, 0)).1

/-- The formats in use among the first `n` attachments. -/
def enabledBelow (formats : BitVec 32) (n : Nat) : List (BitVec 4) :=
  (lanes 4 n formats).filter (· ≠ 0)

variable {formats : BitVec 32}

theorem shifted_eq_formatOf (i : Nat) :
    (formats >>> (4 * i)) &&& 0xf = (formatOf formats i).setWidth 32 := by
  refine BitVec.eq_of_getLsbD_eq fun j hj => ?_
  have hmask : (0xf : BitVec 32).getLsbD j = decide (j < 4) := by
    decide +revert
  rw [BitVec.getLsbD_and, BitVec.getLsbD_ushiftRight, hmask, BitVec.getLsbD_setWidth, formatOf,
    getLsbD_lane]
  simp [hj, Bool.and_comm]

theorem compactStep_eq (state : BitVec 32 × Nat) (i : Nat) :
    compactStep formats state i =
      if formatOf formats i = 0 then state
      else (state.1 ||| ((formatOf formats i).setWidth 32 <<< (4 * state.2)), state.2 + 1) := by
  have hzero : (formatOf formats i).setWidth 32 = 0 ↔ formatOf formats i = 0 := by
    generalize formatOf formats i = f
    revert f
    decide
  simp only [compactStep, shifted_eq_formatOf, bne_iff_ne, ne_eq, hzero, ite_not]

theorem enabledBelow_succ (n : Nat) :
    enabledBelow formats (n + 1) =
      if formatOf formats n = 0 then enabledBelow formats n
      else enabledBelow formats n ++ [formatOf formats n] := by
  rw [enabledBelow, lanes_succ, List.filter_append, ← enabledBelow, ← formatOf]
  split
  · next hzero => simp [hzero]
  · next hne => simpa using hne

theorem length_enabledBelow_le (formats : BitVec 32) (n : Nat) :
    (enabledBelow formats n).length ≤ n :=
  Nat.le_trans (List.length_filter_le _ _) (Nat.le_of_eq (length_lanes n formats))

/-- The invariant of the loop: the word holds the formats in use so far. -/
theorem holds_compactStep_foldl {n : Nat} (hn : n ≤ 8) :
    Holds ((List.range n).foldl (compactStep formats) (0, 0)).1 (enabledBelow formats n) ∧
      ((List.range n).foldl (compactStep formats) (0, 0)).2 =
        (enabledBelow formats n).length := by
  induction n with
  | zero => exact ⟨holds_zero, rfl⟩
  | succ n ih =>
    obtain ⟨hword, hslot⟩ := ih (by omega)
    rw [List.range_succ, List.foldl_append, List.foldl_cons, List.foldl_nil, compactStep_eq,
      enabledBelow_succ]
    split
    · exact ⟨hword, hslot⟩
    · have hlen := length_enabledBelow_le formats n
      refine ⟨?_, ?_⟩
      · rw [hslot]
        exact hword.push _ (by omega)
      · rw [List.length_append, List.length_singleton, hslot]

theorem holds_compact : Holds (compactSpiShaderColFormat formats) (enabledBelow formats 8) :=
  (holds_compactStep_foldl (Nat.le_refl 8)).1

theorem formatsOf_compact :
    formatsOf (compactSpiShaderColFormat formats) =
      enabledBelow formats 8 ++ List.replicate (8 - (enabledBelow formats 8).length) 0 :=
  holds_compact.lanes_eq (length_enabledBelow_le formats 8)

/-- Compaction keeps the formats in use. -/
theorem enabledBelow_compact :
    enabledBelow (compactSpiShaderColFormat formats) 8 = enabledBelow formats 8 := by
  rw [enabledBelow, show lanes 4 8 _ = _ from formatsOf_compact, List.filter_append,
    List.filter_replicate, enabledBelow, List.filter_filter]
  simp

theorem getD_enabledBelow {i n : Nat} (hi : i < n) (huse : formatOf formats i ≠ 0) :
    (enabledBelow formats n).getD (enabledBelow formats i).length 0 = formatOf formats i := by
  induction n with
  | zero => omega
  | succ n ih =>
    rw [enabledBelow_succ]
    rcases Nat.lt_or_eq_of_le (Nat.le_of_lt_succ hi) with hlt | rfl
    · have hfound := ih hlt
      split
      · exact hfound
      · rw [List.getD_append _ _ _ _ ?_, hfound]
        refine Nat.lt_of_not_le fun hge => ?_
        rw [List.getD_eq_default _ _ hge] at hfound
        exact huse hfound.symm
    · rw [if_neg huse, List.getD_append_right _ _ _ _ (Nat.le_refl _), Nat.sub_self]
      rfl

/-- What compaction does to a format word. -/
structure Compacted (formats compacted : BitVec 32) : Prop where
  /-- The formats in use in their order, then zeros. -/
  packed : formatsOf compacted =
    (formatsOf formats).filter (· ≠ 0) ++
      List.replicate (8 - ((formatsOf formats).filter (· ≠ 0)).length) 0
  idempotent : compactSpiShaderColFormat compacted = compacted
  /-- No format in use is lost, added or repeated. -/
  perm : ((formatsOf compacted).filter (· ≠ 0)).Perm ((formatsOf formats).filter (· ≠ 0))
  /-- An attachment in use is exported through the slot that counts those below it. -/
  slot : ∀ i < 8, formatOf formats i ≠ 0 →
    formatOf compacted ((List.range i).countP fun j => formatOf formats j ≠ 0) =
      formatOf formats i

/-- **Compaction** moves the formats in use down and does nothing else. -/
theorem compactSpiShaderColFormat_compacted (formats : BitVec 32) :
    Compacted formats (compactSpiShaderColFormat formats) where
  packed := formatsOf_compact
  idempotent := by
    refine Holds.unique (show 0 < 4 by decide) holds_compact ?_
    rw [enabledBelow_compact]
    exact holds_compact
  perm := List.Perm.of_eq enabledBelow_compact
  slot i hi huse := by
    have hcount : (List.range i).countP (fun j => formatOf formats j ≠ 0) =
        (enabledBelow formats i).length := by
      rw [enabledBelow, lanes, List.filter_map, List.length_map, List.countP_eq_length_filter]
      rfl
    rw [hcount]
    exact (holds_compact _).trans (getD_enabledBelow hi huse)

/-- Attachments 0, 2 and 5 are exported through slots 0, 1 and 2. -/
example : compactSpiShaderColFormat 0x00900405 = 0x00000945 := by decide

end Psbc.ColorFormat
