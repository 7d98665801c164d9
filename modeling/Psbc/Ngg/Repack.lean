import Mathlib.Data.Nat.Count
import Mathlib.Tactic.IntervalCases
import Psbc.Lib.Bytes
import Psbc.Lib.Phase
import Psbc.Nir.Alu

/-!
# Repacking the invocations of a workgroup

Some invocations of a workgroup survive a decision; the repack numbers the survivors without
gaps, in the order of their ids. Every wave counts its survivors, stores the count as a byte of
LDS and, after a barrier, loads the counts of all waves; a lane sums the bytes up to its own
number, and a wave takes the sums it needs from two lanes. Up to two repacks are done at once, the
second by the second row of sixteen lanes.
-/

namespace Psbc.Ngg

open Atomic Nir

/-! ## Operations across lanes -/

/-- `(uint8_t)(x >> (8 * i))` -/
def byteOf (x : BitVec 32) (i : Nat) : Nat := (x >>> (8 * i)).toNat % 256

/-- `nir_udot_4x8_uadd` -/
def udot4x8Uadd (a b c : BitVec 32) : BitVec 32 :=
  BitVec.ofNat 32 (byteOf a 0 * byteOf b 0 + byteOf a 1 * byteOf b 1 + byteOf a 2 * byteOf b 2 +
    byteOf a 3 * byteOf b 3) + c

/-- `nir_msad_4x8` -/
def msad4x8 (a b c : BitVec 32) : BitVec 32 :=
  (List.range 4).foldl (fun res i =>
    let ref := byteOf a i
    let src := byteOf b i
    if ref ≠ 0 then res + BitVec.ofNat 32 (max ref src - min ref src) else res) c

/-- `nir_lane_permute_16_amd` with both selectors zero: the first lane of the row. -/
def lanePermute16 {α : Type} (value : Nat → α) (lane : Nat) : α := value (lane / 16 * 16)

/-- `nir_mbcnt_amd`: the set lanes below this one, and an addition. -/
def mbcnt (mask : Nat → Bool) (addition : BitVec 32) (lane : Nat) : BitVec 32 :=
  BitVec.ofNat 32 (Nat.count (mask · = true) lane) + addition

/-- The bits to shift out in lane `laneId` of the row. -/
def repackShift (maskLaneId : Bool) (numLdsDwords laneId : Nat) : BitVec 32 :=
  let laneId := if maskLaneId then laneId &&& 0xf else laneId
  BitVec.ofNat 32 laneId * BitVec.ofInt 32 (-8) + BitVec.ofNat 32 (numLdsDwords * 32 - 8)

/-- The two dwords of `packedCounts` are given for each lane; with one LDS dword the second is not
read. -/
def summarizeRepack (useDot maskLaneId : Bool) (numLdsDwords : Nat)
    (packedDw0 packedDw1 : Nat → BitVec 32) (laneId : Nat) : BitVec 32 :=
  let shift := repackShift maskLaneId numLdsDwords laneId
  let dw0 := lanePermute16 packedDw0 laneId
  let dw1 := lanePermute16 packedDw1 laneId
  if numLdsDwords = 1 then
    if useDot then udot4x8Uadd dw0 (ShiftOp.ushr.eval 0x01010101 shift) 0
    else msad4x8 (ShiftOp.ishl.eval dw0 shift) 0 0
  else if useDot then
    let dotOp := ShiftOp.ushr.eval (0x0101010101010101 : BitVec 64) shift
    udot4x8Uadd dw1 (dotOp.extractLsb' 32 32) (udot4x8Uadd dw0 (dotOp.setWidth 32) 0)
  else
    let sadOp := ShiftOp.ishl.eval (dw1 ++ dw0) shift
    msad4x8 (sadOp.extractLsb' 32 32) 0 (msad4x8 (sadOp.setWidth 32) 0 0)

/-! ## The repack -/

/-- The bytes of LDS as cells of a memory. -/
structure LdsBytes (C V : Type) where
  cell : Nat → C
  ofByte : BitVec 8 → V
  toByte : V → BitVec 8
  cell_injective : Function.Injective cell
  toByte_ofByte : ∀ b, toByte (ofByte b) = b

/-- The parameters of a repack and the number of waves that the workgroup has. -/
structure Repack where
  waveSize : Nat
  maxNumWaves : Nat
  numWaves : Nat
  numRepacks : Nat
  ldsAddrBase : Nat
  useDot : Bool
  waveSize_eq : waveSize = 32 ∨ waveSize = 64
  numWaves_pos : 0 < numWaves
  numWaves_le : numWaves ≤ maxNumWaves
  maxNumWaves_le : maxNumWaves ≤ 8
  numRepacks_le : numRepacks ≤ 2

/-- `ac_nir_wg_repack_result` of a wave, the index for each lane. -/
structure WgRepackResult where
  numRepackedInvocations : BitVec 32
  repackedInvocationIndex : Nat → BitVec 32

namespace Repack

variable {C V : Type} (r : Repack) (lds : LdsBytes C V)

def numLdsDwords : Nat := (r.maxNumWaves + 3) / 4

def rowAddr (i : Nat) : Nat := r.ldsAddrBase + i * (r.numLdsDwords * 4)

/-- The surviving invocations in a wave, from its ballots. -/
def survivors (mask : Nat → Nat → Bool) (i : Nat) : BitVec 32 :=
  BitVec.ofNat 32 (Nat.count (mask i · = true) r.waveSize)

/-- What the first lane of each row stores. -/
def stores (wave : Nat) (mask : Nat → Nat → Bool) : List (C × V) :=
  if r.maxNumWaves = 1 then []
  else
    (List.range r.numRepacks).map fun i =>
      (lds.cell (r.rowAddr i + wave), lds.ofByte ((r.survivors mask i).setWidth 8))

/-- The cells that the first lane of each row loads after the barrier. -/
def loads : List C :=
  if r.maxNumWaves = 1 then []
  else
    (List.range r.numRepacks).flatMap fun i =>
      (List.range (r.numLdsDwords * 4)).map fun j => lds.cell (r.rowAddr i + j)

/-- Dword `d` of `packedCounts` in each lane. Where a lane has not loaded, the value is undefined:
`undef` stands for whatever it is. -/
def packedCounts (bytes : List (BitVec 8)) (undef : Nat → Nat → BitVec 32) (d lane : Nat) :
    BitVec 32 :=
  if lane = 0 then BitVec.ofNat 32 (Bytes.readLe bytes (4 * d) 4)
  else if lane = 16 ∧ r.numRepacks = 2 then
    BitVec.ofNat 32 (Bytes.readLe bytes (r.numLdsDwords * 4 + 4 * d) 4)
  else undef d lane

/-- `ac_nir_repack_invocations_in_workgroup` in wave `wave`: `mask` has the ballots and `bytes`
what was loaded. -/
def result (wave : Nat) (mask : Nat → Nat → Bool) (bytes : List (BitVec 8))
    (undef : Nat → Nat → BitVec 32) (i : Nat) : WgRepackResult :=
  if r.maxNumWaves = 1 then
    { numRepackedInvocations := r.survivors mask i
      repackedInvocationIndex := mbcnt (mask i) 0 }
  else
    let sum := summarizeRepack r.useDot (decide (r.numRepacks = 2)) r.numLdsDwords
      (r.packedCounts bytes undef 0) (r.packedCounts bytes undef 1)
    { numRepackedInvocations := sum (r.numWaves + i * 16 - 1)
      repackedInvocationIndex := mbcnt (mask i) (sum (wave + i * 16) - r.survivors mask i) }

end Repack

/-! ## Sums of bytes -/

section Sums

theorem byteOf_eq (x : BitVec 32) (i : Nat) : byteOf x i = x.toNat / 256 ^ i % 256 := by
  rw [byteOf, BitVec.toNat_ushiftRight, Nat.shiftRight_eq_div_pow, Nat.pow_mul]

theorem toNat_udot4x8Uadd (a b c : BitVec 32) :
    (udot4x8Uadd a b c).toNat =
      (byteOf a 0 * byteOf b 0 + byteOf a 1 * byteOf b 1 + byteOf a 2 * byteOf b 2 +
        byteOf a 3 * byteOf b 3 + c.toNat) % 2 ^ 32 := by
  rw [udot4x8Uadd, BitVec.toNat_add, BitVec.toNat_ofNat]
  omega

theorem toNat_msad4x8_zero (a c : BitVec 32) :
    (msad4x8 a 0 c).toNat =
      (byteOf a 0 + byteOf a 1 + byteOf a 2 + byteOf a 3 + c.toNat) % 2 ^ 32 := by
  have hstep : ∀ (res : BitVec 32) (i : Nat),
      ((if byteOf a i ≠ 0 then res + BitVec.ofNat 32 (max (byteOf a i) (byteOf 0 i) -
        min (byteOf a i) (byteOf 0 i)) else res) : BitVec 32) =
        res + BitVec.ofNat 32 (byteOf a i) := by
    intro res i
    have hzero : byteOf 0 i = 0 := by rw [byteOf_eq]; simp
    rw [hzero]
    by_cases hbyte : byteOf a i = 0
    · simp [hbyte]
    · simp [hbyte]
  simp only [msad4x8, hstep, List.range_succ, List.range_zero, List.nil_append, List.foldl_append,
    List.foldl_cons, List.foldl_nil, BitVec.toNat_add, BitVec.toNat_ofNat]
  omega

theorem repackShift_eq {maskLaneId : Bool} {n row k : Nat} (hn : n ≤ 2) (hk : k < 4 * n)
    (hrow : row = 0 ∨ maskLaneId = true) :
    repackShift maskLaneId n (16 * row + k) = BitVec.ofNat 32 (8 * (4 * n - 1 - k)) := by
  have hlane : (if maskLaneId then (16 * row + k) &&& 0xf else 16 * row + k) = k := by
    have hand : (16 * row + k) &&& 0xf = k := by
      rw [show (0xf : Nat) = 2 ^ 4 - 1 from rfl, Nat.and_two_pow_sub_one_eq_mod]
      omega
    rcases hrow with rfl | rfl
    · split
      · exact hand
      · omega
    · exact hand
  rw [repackShift, hlane]
  have hk8 : k < 8 := by omega
  interval_cases n <;> interval_cases k <;> rfl

theorem eval_shift {w : Nat} (h : BitSize w) (x : BitVec w) {a : Nat} (ha : a < w) :
    ShiftOp.ishl.eval x (BitVec.ofNat 32 a) = x <<< a ∧
      ShiftOp.ushr.eval x (BitVec.ofNat 32 a) = x >>> a := by
  simp only [ShiftOp.eval, h.amount_eq ha, and_self]

theorem byteOf_eq_getD {x : BitVec 32} {a : List (BitVec 8)} (h : x.toNat = Bytes.leVal a)
    (i : Nat) : byteOf x i = (a.getD i 0).toNat := by
  rw [byteOf_eq, h, Bytes.leVal_byte]

def byteSum (bytes : List (BitVec 8)) : Nat := (bytes.map (·.toNat)).sum

theorem byteSum_append (a b : List (BitVec 8)) : byteSum (a ++ b) = byteSum a + byteSum b := by
  simp [byteSum]

theorem byteSum_le (a : List (BitVec 8)) : byteSum a ≤ 255 * a.length := by
  induction a with
  | nil => simp [byteSum]
  | cons b a ih =>
    have hb := b.isLt
    have hcons : byteSum (b :: a) = b.toNat + byteSum a := by simp [byteSum]
    rw [hcons, List.length_cons]
    omega

theorem byteSum_zeroes_append (s : Nat) (a : List (BitVec 8)) :
    byteSum (List.replicate s 0 ++ a) = byteSum a := by
  simp [byteSum]

theorem toNat_msad4x8_bytes {x c : BitVec 32} {a : List (BitVec 8)} (hlen : a.length = 4)
    (h : x.toNat = Bytes.leVal a) :
    (msad4x8 x 0 c).toNat = (byteSum a + c.toNat) % 2 ^ 32 := by
  rw [toNat_msad4x8_zero]
  simp only [byteOf_eq_getD h]
  match a, hlen with
  | [b0, b1, b2, b3], _ =>
    simp only [byteSum, List.getD_cons_zero, List.getD_cons_succ, List.map_cons, List.map_nil,
      List.sum_cons, List.sum_nil]
    omega

theorem toNat_shiftLeft_bytes {w n s : Nat} (hw : w = 8 * n) {x : BitVec w} {a : List (BitVec 8)}
    (hlen : a.length = n) (h : x.toNat = Bytes.leVal a) (hs : s ≤ n) :
    (x <<< (8 * s)).toNat = Bytes.leVal (List.replicate s 0 ++ a.take (n - s)) := by
  have hword : 2 ^ w = 256 ^ a.length := by rw [hw, Nat.pow_mul, hlen]
  rw [BitVec.toNat_shiftLeft, Nat.shiftLeft_eq, h, Nat.pow_mul, hword,
    Bytes.leVal_shiftLeft (by omega), hlen]

theorem toNat_dwords {dw0 dw1 : BitVec 32} {a : List (BitVec 8)} (hlen : a.length = 8)
    (h0 : dw0.toNat = Bytes.leVal (a.take 4)) (h1 : dw1.toNat = Bytes.leVal (a.drop 4)) :
    (dw1 ++ dw0).toNat = Bytes.leVal a := by
  rw [BitVec.toNat_append, ← Nat.shiftLeft_add_eq_or_of_lt dw0.isLt, Nat.shiftLeft_eq, h0, h1,
    Bytes.leVal_take_add_drop a (by omega : 4 ≤ a.length)]
  omega

theorem toNat_halves {x : BitVec 64} {a : List (BitVec 8)} (hlen : a.length = 8)
    (h : x.toNat = Bytes.leVal a) :
    (x.setWidth 32).toNat = Bytes.leVal (a.take 4) ∧
      (x.extractLsb' 32 32).toNat = Bytes.leVal (a.drop 4) := by
  have hpow : (2 : Nat) ^ 32 = 256 ^ 4 := by decide
  have hlt := Bytes.leVal_lt (a.drop 4)
  rw [List.length_drop, hlen] at hlt
  constructor
  · rw [BitVec.toNat_setWidth, h, hpow, Bytes.leVal_mod a (by omega)]
  · rw [BitVec.extractLsb'_toNat, h, Nat.shiftRight_eq_div_pow, hpow,
      Bytes.leVal_div a (by omega), Nat.mod_eq_of_lt hlt]

/-- A lane adds up the counts up to its own number in the row. -/
theorem summarizeRepack_eq (useDot : Bool) {maskLaneId : Bool} {n row k : Nat}
    (hn : n = 1 ∨ n = 2) (hk : k < 4 * n) (hrow : row = 0 ∨ maskLaneId = true)
    {dw0 dw1 : Nat → BitVec 32} {bytes : List (BitVec 8)} (hlen : bytes.length = 4 * n)
    (hdw0 : (dw0 (16 * row)).toNat = Bytes.leVal (bytes.take 4))
    (hdw1 : n = 2 → (dw1 (16 * row)).toNat = Bytes.leVal (bytes.drop 4)) :
    (summarizeRepack useDot maskLaneId n dw0 dw1 (16 * row + k)).toNat =
      byteSum (bytes.take (k + 1)) := by
  have hlane : (16 * row + k) / 16 * 16 = 16 * row := by omega
  have hbound := byteSum_le (bytes.take (k + 1))
  rw [List.length_take] at hbound
  simp only [summarizeRepack, lanePermute16, hlane, repackShift_eq (by omega : n ≤ 2) hk hrow]
  rcases hn with rfl | rfl
  · rw [List.take_of_length_le (by omega)] at hdw0
    rw [if_pos rfl]
    cases useDot with
    | true =>
      rw [if_pos rfl, toNat_udot4x8Uadd, (eval_shift .int32 _ (by omega)).2]
      simp only [byteOf_eq_getD hdw0]
      match bytes, hlen with
      | [b0, b1, b2, b3], _ =>
        interval_cases k <;> simp [byteOf, byteSum] at hbound ⊢ <;> omega
    | false =>
      rw [if_neg (by decide), (eval_shift .int32 _ (by omega)).1,
        toNat_msad4x8_bytes (by simp; omega)
          (toNat_shiftLeft_bytes (by rfl) hlen hdw0 (by omega)),
        byteSum_zeroes_append, show 4 * 1 - (4 * 1 - 1 - k) = k + 1 by omega]
      exact Nat.mod_eq_of_lt (by simp; omega)
  · have hdw1 := hdw1 rfl
    rw [if_neg (by decide)]
    cases useDot with
    | true =>
      rw [if_pos rfl, toNat_udot4x8Uadd, toNat_udot4x8Uadd, (eval_shift .int64 _ (by omega)).2]
      simp only [byteOf_eq_getD hdw0, byteOf_eq_getD hdw1]
      match bytes, hlen with
      | [b0, b1, b2, b3, b4, b5, b6, b7], _ =>
        interval_cases k <;> simp [byteOf, byteSum] at hbound ⊢ <;> omega
    | false =>
      have hshift := toNat_shiftLeft_bytes (by rfl) hlen (toNat_dwords hlen hdw0 hdw1)
        (by omega : 4 * 2 - 1 - k ≤ 4 * 2)
      rw [show 4 * 2 - (4 * 2 - 1 - k) = k + 1 by omega] at hshift
      have hsum := byteSum_zeroes_append (4 * 2 - 1 - k) (bytes.take (k + 1))
      have hsize : (List.replicate (4 * 2 - 1 - k) 0 ++ bytes.take (k + 1)).length = 8 := by
        simp; omega
      rw [if_neg (by decide), (eval_shift .int64 _ (by omega)).1]
      generalize List.replicate (4 * 2 - 1 - k) 0 ++ bytes.take (k + 1) = shifted at *
      obtain ⟨hlow, hhigh⟩ := toNat_halves hsize hshift
      rw [toNat_msad4x8_bytes (by simp; omega) hhigh, toNat_msad4x8_bytes (by simp; omega) hlow,
        ← hsum, ← List.take_append_drop 4 shifted, byteSum_append]
      rw [← List.take_append_drop 4 shifted, byteSum_append] at hsum
      simp
      omega

end Sums

/-! ## Ranks -/

namespace Repack

variable {r : Repack} (live : Nat → Nat → Bool)

/-- The ballots of a wave, from what holds for every invocation of the workgroup. -/
def ballot (r : Repack) (live : Nat → Nat → Bool) (wave i lane : Nat) : Bool :=
  live i (wave * r.waveSize + lane)

def rank (i tid : Nat) : Nat := Nat.count (live i · = true) tid

theorem rank_add (i wave lane : Nat) :
    rank live i (wave * r.waveSize + lane) =
      rank live i (wave * r.waveSize) + Nat.count (r.ballot live wave i · = true) lane :=
  Nat.count_add ..

theorem rank_succ (i wave : Nat) :
    rank live i ((wave + 1) * r.waveSize) =
      rank live i (wave * r.waveSize) +
        Nat.count (r.ballot live wave i · = true) r.waveSize := by
  rw [Nat.succ_mul, rank_add]

theorem waveSize_le (r : Repack) : r.waveSize ≤ 64 := by
  rcases r.waveSize_eq with h | h <;> omega

theorem numLdsDwords_eq (r : Repack) : r.numLdsDwords = 1 ∨ r.numLdsDwords = 2 := by
  have hpos := r.numWaves_pos
  have hle := r.numWaves_le
  have hmax := r.maxNumWaves_le
  unfold numLdsDwords
  omega

theorem numWaves_le_bytes (r : Repack) : r.numWaves ≤ 4 * r.numLdsDwords := by
  have hle := r.numWaves_le
  unfold numLdsDwords
  omega

theorem toNat_survivors (mask : Nat → Nat → Bool) (i : Nat) :
    (r.survivors mask i).toNat = Nat.count (mask i · = true) r.waveSize := by
  have hle : Nat.count (mask i · = true) r.waveSize ≤ r.waveSize := Nat.count_le _
  have hwave := r.waveSize_le
  rw [survivors, BitVec.toNat_ofNat, Nat.mod_eq_of_lt (by omega)]

theorem packedCounts_eq (bytes : List (BitVec 8)) (undef : Nat → Nat → BitVec 32) {i d : Nat}
    (hi : i < r.numRepacks) (hd : d < r.numLdsDwords) :
    (r.packedCounts bytes undef d (16 * i)).toNat =
      Bytes.leVal ((((bytes.drop (i * (r.numLdsDwords * 4))).take (r.numLdsDwords * 4)).drop
        (4 * d)).take 4) := by
  have hslice : ((((bytes.drop (i * (r.numLdsDwords * 4))).take (r.numLdsDwords * 4)).drop
      (4 * d)).take 4) = Bytes.slice bytes (i * (r.numLdsDwords * 4) + 4 * d) 4 := by
    rw [Bytes.slice, List.drop_take, List.take_take, Nat.min_eq_left (by omega), List.drop_drop]
  have hread : (BitVec.ofNat 32 (Bytes.readLe bytes (i * (r.numLdsDwords * 4) + 4 * d) 4)).toNat =
      Bytes.leVal (Bytes.slice bytes (i * (r.numLdsDwords * 4) + 4 * d) 4) := by
    have hlt := Bytes.leVal_lt (Bytes.slice bytes (i * (r.numLdsDwords * 4) + 4 * d) 4)
    have hlen : (Bytes.slice bytes (i * (r.numLdsDwords * 4) + 4 * d) 4).length ≤ 4 :=
      List.length_take_le _ _
    have hpow := Nat.pow_le_pow_right (by decide : 0 < 256) hlen
    rw [BitVec.toNat_ofNat, Bytes.readLe, Nat.mod_eq_of_lt (by omega)]
  have hle := r.numRepacks_le
  rw [hslice, ← hread, packedCounts]
  rcases (by omega : i = 0 ∨ i = 1) with rfl | rfl
  · rw [if_pos rfl, Nat.zero_mul, Nat.zero_add]
  · rw [if_neg (by decide), if_pos ⟨rfl, by omega⟩, Nat.one_mul]

/-- What is loaded: byte `j` of a row is the count of wave `j`; the bytes after the last wave are
whatever was in the LDS. -/
structure Loaded (r : Repack) (live : Nat → Nat → Bool) (bytes : List (BitVec 8)) : Prop where
  length : bytes.length = r.numRepacks * (r.numLdsDwords * 4)
  count : ∀ {i j : Nat}, i < r.numRepacks → j < r.numWaves →
    bytes.getD (i * (r.numLdsDwords * 4) + j) 0 = (r.survivors (r.ballot live j) i).setWidth 8

section Loaded

variable {live} {bytes : List (BitVec 8)} (h : r.Loaded live bytes) {i : Nat}
  (hi : i < r.numRepacks)
include h hi

theorem Loaded.length_row :
    ((bytes.drop (i * (r.numLdsDwords * 4))).take (r.numLdsDwords * 4)).length =
      4 * r.numLdsDwords := by
  have hle : (i + 1) * (r.numLdsDwords * 4) ≤ r.numRepacks * (r.numLdsDwords * 4) :=
    Nat.mul_le_mul_right _ hi
  rw [List.length_take, List.length_drop, h.length, Nat.succ_mul] at *
  omega

theorem Loaded.byteSum_row {k : Nat} (hk : k ≤ r.numWaves) :
    byteSum (((bytes.drop (i * (r.numLdsDwords * 4))).take (r.numLdsDwords * 4)).take k) =
      rank live i (k * r.waveSize) := by
  have hwaves := r.numWaves_le_bytes
  induction k with
  | zero => simp [byteSum, rank]
  | succ k ih =>
    have hlt : k < ((bytes.drop (i * (r.numLdsDwords * 4))).take (r.numLdsDwords * 4)).length := by
      rw [h.length_row hi]
      omega
    have hget : ((bytes.drop (i * (r.numLdsDwords * 4))).take (r.numLdsDwords * 4))[k] =
        (r.survivors (r.ballot live k) i).setWidth 8 := by
      rw [← h.count hi (by omega : k < r.numWaves), ← List.getD_eq_getElem _ 0 hlt]
      simp only [List.getD_eq_getElem?_getD, List.getElem?_take, List.getElem?_drop]
      rw [if_pos (by omega)]
    have hcount : Nat.count (r.ballot live k i · = true) r.waveSize ≤ r.waveSize := Nat.count_le _
    have hwave := r.waveSize_le
    rw [List.take_succ_eq_append_getElem hlt, byteSum_append, ih (by omega), rank_succ, hget]
    simp only [byteSum, List.map_cons, List.map_nil, List.sum_cons, List.sum_nil, Nat.add_zero]
    rw [BitVec.toNat_setWidth, toNat_survivors, Nat.mod_eq_of_lt (by omega)]

theorem Loaded.sum_eq (undef : Nat → Nat → BitVec 32) {k : Nat} (hk : k < r.numWaves) :
    (summarizeRepack r.useDot (decide (r.numRepacks = 2)) r.numLdsDwords
      (r.packedCounts bytes undef 0) (r.packedCounts bytes undef 1) (16 * i + k)).toNat =
      rank live i ((k + 1) * r.waveSize) := by
  have hwaves := r.numWaves_le_bytes
  have hle := r.numRepacks_le
  rw [← h.byteSum_row hi hk]
  have hrow : i = 0 ∨ decide (r.numRepacks = 2) = true := by
    rw [decide_eq_true_eq]
    omega
  refine summarizeRepack_eq r.useDot r.numLdsDwords_eq (by omega) hrow (h.length_row hi) ?_ ?_
  · rw [packedCounts_eq bytes undef hi (by rcases r.numLdsDwords_eq with heq | heq <;> omega),
      Nat.mul_zero, List.drop_zero]
  · intro htwo
    have hlen := h.length_row hi
    rw [packedCounts_eq bytes undef hi (by omega), Nat.mul_one,
      List.take_of_length_le (by rw [List.length_drop]; omega)]

end Loaded

/-- Every number below the count is that of one survivor. -/
theorem exists_rank_eq {i n k : Nat} (h : k < rank live i n) :
    ∃ tid < n, live i tid = true ∧ rank live i tid = k := by
  induction n with
  | zero => exact absurd h (Nat.not_lt_zero _)
  | succ n ih =>
    rw [rank, Nat.count_succ] at h
    rcases Nat.lt_or_ge k (rank live i n) with hlt | hge
    · obtain ⟨tid, htid, hlive⟩ := ih hlt
      exact ⟨tid, by omega, hlive⟩
    · rw [← rank] at h
      split at h
      next hlive => exact ⟨n, by omega, hlive, by omega⟩
      next => omega

theorem rank_lt {i tid n : Nat} (hlive : live i tid = true) (htid : tid < n) :
    rank live i tid < rank live i n := Nat.count_strict_mono hlive htid

theorem rank_inj {i tid tid' : Nat} (h : live i tid = true) (h' : live i tid' = true)
    (heq : rank live i tid = rank live i tid') : tid = tid' := Nat.count_injective h h' heq

theorem rank_le (i tid : Nat) : rank live i tid ≤ tid := Nat.count_le _

theorem toNat_mbcnt {wave lane i : Nat} (hw : wave < r.numWaves) (hlane : lane ≤ r.waveSize)
    {base : BitVec 32} (hbase : base.toNat = rank live i (wave * r.waveSize)) :
    (mbcnt (r.ballot live wave i) base lane).toNat = rank live i (wave * r.waveSize + lane) := by
  have hcount := rank_le live i (wave * r.waveSize + lane)
  have hadd := rank_add (r := r) live i wave lane
  have hwaves : r.numWaves ≤ 8 := r.numWaves_le.trans r.maxNumWaves_le
  have hmul : wave * r.waveSize ≤ 8 * 64 := Nat.mul_le_mul (by omega) r.waveSize_le
  have hsize := r.waveSize_le
  rw [mbcnt, BitVec.toNat_add, BitVec.toNat_ofNat, hbase]
  omega

/-- The results of a wave that has loaded the counts of all waves. -/
theorem result_eq {bytes : List (BitVec 8)} (h : r.maxNumWaves ≠ 1 → r.Loaded live bytes)
    (undef : Nat → Nat → BitVec 32) {wave i : Nat} (hw : wave < r.numWaves)
    (hi : i < r.numRepacks) :
    (r.result wave (r.ballot live wave) bytes undef i).numRepackedInvocations.toNat =
        rank live i (r.numWaves * r.waveSize) ∧
      ∀ lane < r.waveSize,
        ((r.result wave (r.ballot live wave) bytes undef i).repackedInvocationIndex lane).toNat =
          rank live i (wave * r.waveSize + lane) := by
  have hpos := r.numWaves_pos
  by_cases hone : r.maxNumWaves = 1
  · have hwaves : r.numWaves = 1 := by have := r.numWaves_le; omega
    obtain rfl : wave = 0 := by omega
    have hsucc := rank_succ (r := r) live i 0
    simp only [result, if_pos hone]
    refine ⟨?_, fun lane hlane => toNat_mbcnt live hw hlane.le ?_⟩
    · rw [toNat_survivors, hwaves, hsucc, Nat.zero_mul]
      exact (Nat.zero_add _).symm
    · rw [Nat.zero_mul]
      rfl
  · have hloaded := h hone
    have hown := hloaded.sum_eq hi undef hw
    have hall := hloaded.sum_eq hi undef (by omega : r.numWaves - 1 < r.numWaves)
    have hsucc := rank_succ (r := r) live i wave
    simp only [result, if_neg hone]
    refine ⟨?_, fun lane hlane => toNat_mbcnt live hw hlane.le ?_⟩
    · rw [show r.numWaves + i * 16 - 1 = 16 * i + (r.numWaves - 1) by omega, hall,
        Nat.sub_add_cancel hpos]
    · have hsurvivors := toNat_survivors (r := r) (r.ballot live wave) i
      rw [show wave + i * 16 = 16 * i + wave by omega, BitVec.toNat_sub_of_le, hown, hsurvivors,
        hsucc, Nat.add_sub_cancel]
      rw [BitVec.le_def, hown, hsurvivors, hsucc]
      omega

/-! ## Masks of a wave's lanes -/

theorem count_congr {p q : Nat → Bool} {n : Nat} (h : ∀ i < n, p i = q i) :
    Nat.count (p · = true) n = Nat.count (q · = true) n := by
  induction n with
  | zero => rfl
  | succ n ih =>
    rw [Nat.count_succ, Nat.count_succ, ih fun i hi => h i (Nat.lt_succ_of_lt hi),
      h n (Nat.lt_succ_self n)]

section Masks

variable {mask mask' : Nat → Nat → Bool} {i : Nat}
  (h : ∀ lane < r.waveSize, mask i lane = mask' i lane)
include h

theorem survivors_congr : r.survivors mask i = r.survivors mask' i := by
  rw [survivors, survivors, count_congr h]

theorem result_congr (wave : Nat) (bytes : List (BitVec 8)) (undef : Nat → Nat → BitVec 32) :
    (r.result wave mask bytes undef i).numRepackedInvocations =
        (r.result wave mask' bytes undef i).numRepackedInvocations ∧
      ∀ lane < r.waveSize, (r.result wave mask bytes undef i).repackedInvocationIndex lane =
        (r.result wave mask' bytes undef i).repackedInvocationIndex lane := by
  have hcount : ∀ lane < r.waveSize, Nat.count (mask i · = true) lane =
      Nat.count (mask' i · = true) lane := fun lane hlane =>
    count_congr fun j hj => h j (Nat.lt_trans hj hlane)
  unfold result
  split
  · exact ⟨survivors_congr h, fun lane hlane => by simp only [mbcnt, hcount lane hlane]⟩
  · refine ⟨rfl, fun lane hlane => ?_⟩
    simp only [mbcnt, survivors_congr h, hcount lane hlane]

end Masks

/-! ## The two phases -/

theorem length_rows {α : Type} (f : Nat → Nat → α) (a b : Nat) :
    ((List.range a).flatMap fun i => (List.range b).map (f i)).length = a * b := by
  simp

theorem getElem?_rows {α : Type} (f : Nat → Nat → α) {a b i j : Nat} (hi : i < a) (hj : j < b) :
    ((List.range a).flatMap fun i => (List.range b).map (f i))[i * b + j]? = some (f i j) := by
  induction a with
  | zero => omega
  | succ a ih =>
    rw [List.range_succ, List.flatMap_append]
    rcases Nat.lt_or_ge i a with hlt | hge
    · have hrow : (i + 1) * b ≤ a * b := Nat.mul_le_mul_right b hlt
      rw [Nat.succ_mul] at hrow
      rw [List.getElem?_append_left (by rw [length_rows]; omega), ih hlt]
    · obtain rfl : i = a := by omega
      rw [List.getElem?_append_right (by rw [length_rows]; omega), length_rows,
        Nat.add_sub_cancel_left]
      simp [hj]

section Phases

variable {C V : Type} [DecidableEq C] (lds : LdsBytes C V) {m m' m'' : C → V}

omit [DecidableEq C] in
theorem mem_stores {wave : Nat} {mask : Nat → Nat → Bool} {w : C × V} :
    w ∈ r.stores lds wave mask ↔ r.maxNumWaves ≠ 1 ∧ ∃ i < r.numRepacks,
      w = (lds.cell (r.rowAddr i + wave), lds.ofByte ((r.survivors mask i).setWidth 8)) := by
  unfold stores
  split
  next hone => simp [hone]
  next hone => simp [hone, eq_comm]

theorem rowAddr_add_inj {i i' j j' : Nat} (hi : i < r.numRepacks) (hi' : i' < r.numRepacks)
    (hj : j < r.numWaves) (hj' : j' < r.numWaves)
    (h : r.rowAddr i + j = r.rowAddr i' + j') : i = i' ∧ j = j' := by
  have hwaves := r.numWaves_le_bytes
  have hle := r.numRepacks_le
  unfold rowAddr at h
  rcases (by omega : i = 0 ∨ i = 1) with rfl | rfl <;>
    rcases (by omega : i' = 0 ∨ i' = 1) with rfl | rfl <;> omega

omit [DecidableEq C] in
theorem nodup_stores {wave : Nat} (hw : wave < r.numWaves) (mask : Nat → Nat → Bool) :
    ((r.stores lds wave mask).map (·.1)).Nodup := by
  unfold stores
  split
  next => exact List.nodup_nil
  next =>
    rw [List.map_map]
    refine List.Nodup.map_on (fun i hi i' hi' heq => ?_) List.nodup_range
    exact (rowAddr_add_inj (List.mem_range.mp hi) (List.mem_range.mp hi') hw hw
      (lds.cell_injective heq)).1

theorem raceFree_stores : RaceFree (fun w : Fin r.numWaves =>
    Prog.storeAll (r.stores lds w (r.ballot live w))) m := by
  intro w w' hne c htouch hstore
  rw [Prog.touches_storeAll] at htouch
  obtain ⟨a, ha, rfl⟩ := List.mem_map.mp htouch
  obtain ⟨b, hb, heq⟩ := List.mem_map.mp (Prog.mem_of_stores_storeAll hstore)
  obtain ⟨_, i, hi, rfl⟩ := (mem_stores lds).mp ha
  obtain ⟨_, i', hi', rfl⟩ := (mem_stores lds).mp hb
  exact hne (Fin.ext (rowAddr_add_inj hi' hi w'.isLt w.isLt (lds.cell_injective heq)).2.symm)

/-- After the stores every wave's counts are in its bytes, in whatever order the waves came. -/
theorem mem_after_stores
    (h : Phase (fun w : Fin r.numWaves => Prog.storeAll (r.stores lds w (r.ballot live w))) m
      (fun _ => ()) m') (hone : r.maxNumWaves ≠ 1) {i j : Nat} (hi : i < r.numRepacks)
    (hj : j < r.numWaves) :
    m' (lds.cell (r.rowAddr i + j)) =
      lds.ofByte ((r.survivors (r.ballot live j) i).setWidth 8) := by
  have hmem : (lds.cell (r.rowAddr i + j),
      lds.ofByte ((r.survivors (r.ballot live j) i).setWidth 8)) ∈
      r.stores lds j (r.ballot live j) := (mem_stores lds).mpr ⟨hone, i, hi, rfl⟩
  rw [h.mem_eq (raceFree_stores live lds) (i := ⟨j, hj⟩)
    (Prog.touches_storeAll.mpr (List.mem_map_of_mem hmem)), Prog.run_storeAll]
  exact Prog.written_of_mem (nodup_stores lds hj _) hmem

omit [DecidableEq C] in
/-- A memory that has the counts loads as the counts. -/
theorem loaded_of_mem
    (h : ∀ {i j : Nat}, i < r.numRepacks → j < r.numWaves →
      m (lds.cell (r.rowAddr i + j)) =
        lds.ofByte ((r.survivors (r.ballot live j) i).setWidth 8))
    (hone : r.maxNumWaves ≠ 1) :
    r.Loaded live (((r.loads lds).map m).map lds.toByte) := by
  unfold loads
  rw [if_neg hone]
  constructor
  · rw [List.length_map, List.length_map, length_rows]
  · intro i j hi hj
    have hbytes := r.numWaves_le_bytes
    rw [List.getD_eq_getElem?_getD, List.getElem?_map, List.getElem?_map,
      getElem?_rows _ hi (by omega), Option.map_some, Option.map_some, Option.getD_some, h hi hj,
      lds.toByte_ofByte]

theorem raceFree_loads : RaceFree (fun _ : Fin r.numWaves => Prog.loadAll (r.loads lds)) m :=
  fun _ _ _ hstore => Prog.stores_loadAll hstore

end Phases

/-- **A repack numbers the survivors.** Whatever order the waves store their counts in before the
barrier and load them in after it, whatever the LDS held, every wave gets the number of survivors
in the workgroup, and every invocation the number of survivors below it. -/
theorem repack_ranks {C V : Type} [DecidableEq C] (r : Repack) (lds : LdsBytes C V)
    (live : Nat → Nat → Bool) {m m' m'' : C → V} {out : Fin r.numWaves → List V}
    (hstore : Phase (fun w : Fin r.numWaves =>
      Prog.storeAll (r.stores lds w (r.ballot live w))) m (fun _ => ()) m')
    (hload : Phase (fun _ : Fin r.numWaves => Prog.loadAll (r.loads lds)) m' out m'')
    (undef : Nat → Nat → BitVec 32) (wave : Fin r.numWaves) {i : Nat} (hi : i < r.numRepacks) :
    let res := r.result wave (r.ballot live wave) ((out wave).map lds.toByte) undef i
    res.numRepackedInvocations.toNat = rank live i (r.numWaves * r.waveSize) ∧
      ∀ lane < r.waveSize,
        (res.repackedInvocationIndex lane).toNat = rank live i (wave * r.waveSize + lane) := by
  have hout : out wave = (r.loads lds).map m' := by
    rw [hload.out_eq (raceFree_loads lds) wave, Prog.run_loadAll]
  rw [hout]
  exact result_eq live (fun hone => loaded_of_mem live lds
    (fun hi hj => mem_after_stores live lds hstore hone hi hj) hone) undef wave.isLt hi

/-- Two waves of a workgroup that may have eight; the even ids and the multiples of three. -/
def pairOfWaves : Repack where
  waveSize := 32
  maxNumWaves := 8
  numWaves := 2
  numRepacks := 2
  ldsAddrBase := 16
  useDot := true
  waveSize_eq := .inl rfl
  numWaves_pos := Nat.two_pos
  numWaves_le := Nat.le.step (.step (.step (.step (.step (.step .refl)))))
  maxNumWaves_le := .refl
  numRepacks_le := .refl

/-- The memory whose cells are the bytes of LDS. -/
def plainLds : LdsBytes Nat (BitVec 8) := ⟨id, id, id, Function.injective_id, fun _ => rfl⟩

theorem repack_ranks_multiples :
    ∃ (m' m'' : Nat → BitVec 8) (out : Fin 2 → List (BitVec 8)),
      let live (i tid : Nat) : Bool := tid % (i + 2) == 0
      Phase (fun w : Fin 2 => Prog.storeAll
        (pairOfWaves.stores plainLds w (pairOfWaves.ballot live w))) (fun _ => 0xff)
        (fun _ => ()) m' ∧
      Phase (fun _ : Fin 2 => Prog.loadAll (pairOfWaves.loads plainLds)) m' out m'' ∧
      ((pairOfWaves.result 1 (pairOfWaves.ballot live 1) ((out 1).map plainLds.toByte)
        (fun _ _ => 0) 1).repackedInvocationIndex 3).toNat = 12 := by
  obtain ⟨_, m', hstore⟩ := exists_phase (fun w : Fin 2 => Prog.storeAll
    (pairOfWaves.stores plainLds w (pairOfWaves.ballot (fun i tid => tid % (i + 2) == 0) w)))
    (fun _ => 0xff) List.mem_finRange
  obtain ⟨out, m'', hload⟩ := exists_phase
    (fun _ : Fin 2 => Prog.loadAll (pairOfWaves.loads plainLds)) m' List.mem_finRange
  refine ⟨m', m'', out, hstore, hload, ?_⟩
  exact ((repack_ranks pairOfWaves plainLds _ hstore hload (fun _ _ => 0) (1 : Fin 2)
    (by decide : 1 < 2)).2 3 (by decide)).trans (by decide)

end Repack

end Psbc.Ngg
