import Psbc.Streamout.BufferInfo
import Mathlib.Order.CompletePartialOrder
import Mathlib.Order.Interval.Set.Disjoint
import Psbc.Lib.Cells

/-!
# Streamout by primitive id

A vertex shader needs no reservation: its draw generates one output primitive for each
input primitive, so `ngg_nogs_build_streamout` gives the primitive with id `p` the range
at `p` times the size of a primitive in every buffer, if it fits there. The products and
the test are 32-bit operations.

* `ExactCapture`: the captured primitives are those that fit, each at its own place.
* `WrapSlips`: a product wraps around, and the wrapped range fits.
* `exactCapture_iff`: the capture is exact when no primitive slips through so.
-/

namespace Psbc.Streamout

/-- The vertices per primitive, and for each written buffer its stride and channel 2 (the
size) of its descriptor. -/
structure PrimitiveDraw where
  buffersWritten : Fin 4 → Bool
  numVertPerPrim : Word
  stride : Fin 4 → Word
  bufferSize : Fin 4 → Word

namespace PrimitiveDraw

variable (d : PrimitiveDraw)

/-! ## The code -/

def primitiveStride (b : Fin 4) : Word := d.numVertPerPrim * d.stride b

def bufferOffset (primitiveId : Word) (b : Fin 4) : Word := primitiveId * d.primitiveStride b

/-- The primitive starts inside the buffer, and what remains holds it. -/
def fitsBuffer (primitiveId : Word) (b : Fin 4) : Bool :=
  let remaining := d.bufferSize b - d.bufferOffset primitiveId b
  (d.bufferOffset primitiveId b).ule (d.bufferSize b) && (d.primitiveStride b).ule remaining

/-- `ngg_nogs_build_streamout` for an invocation that has an input primitive: the buffer
offsets its vertices are stored at. -/
def nggNogsBuildStreamout (primitiveId : Word) : Option (Fin 4 → Word) :=
  let emit := ((List.finRange 4).filter d.buffersWritten).foldl
    (fun emit b => emit && d.fitsBuffer primitiveId b) true
  if emit then some (d.bufferOffset primitiveId) else none

/-! ## What it is for -/

def primitiveBytes (b : Fin 4) : Nat := d.numVertPerPrim.toNat * (d.stride b).toNat

/-- The primitives `0` to `N - 1` of a draw are captured exactly: those that fit whole in
every buffer, each behind the ones before it, no two over one another. -/
structure ExactCapture (N : Nat) : Prop where
  captured : ∀ p < N, (d.nggNogsBuildStreamout (BitVec.ofNat 32 p)).isSome = true ↔
    ∀ b, d.buffersWritten b = true → (p + 1) * d.primitiveBytes b ≤ (d.bufferSize b).toNat
  offset : ∀ p < N, ∀ offset, d.nggNogsBuildStreamout (BitVec.ofNat 32 p) = some offset →
    ∀ b, d.buffersWritten b = true → (offset b).toNat = p * d.primitiveBytes b
  disjoint : ∀ p < N, ∀ q < N, p ≠ q → ∀ offset offset',
    d.nggNogsBuildStreamout (BitVec.ofNat 32 p) = some offset →
    d.nggNogsBuildStreamout (BitVec.ofNat 32 q) = some offset' →
    ∀ b, d.buffersWritten b = true →
      Disjoint (Set.Ico (offset b).toNat ((offset b).toNat + d.primitiveBytes b))
        (Set.Ico (offset' b).toNat ((offset' b).toNat + d.primitiveBytes b))

/-- A product for primitive `p` wraps around in some buffer, and the wrapped range fits in
every buffer. -/
def WrapSlips (p : Nat) : Prop :=
  (∃ b, d.buffersWritten b = true ∧
    (2 ^ 32 ≤ d.primitiveBytes b ∨ 2 ^ 32 ≤ p * d.primitiveBytes b)) ∧
  ∀ b, d.buffersWritten b = true →
    p * d.primitiveBytes b % 2 ^ 32 + d.primitiveBytes b % 2 ^ 32 ≤ (d.bufferSize b).toNat

variable {d} {p : Nat} {b : Fin 4}

theorem primitiveStride_toNat (d : PrimitiveDraw) (b : Fin 4) :
    (d.primitiveStride b).toNat = d.primitiveBytes b % 2 ^ 32 := BitVec.toNat_mul ..

theorem bufferOffset_toNat (d : PrimitiveDraw) (p : Nat) (b : Fin 4) :
    (d.bufferOffset (BitVec.ofNat 32 p) b).toNat = p * d.primitiveBytes b % 2 ^ 32 := by
  rw [bufferOffset, BitVec.toNat_mul, primitiveStride_toNat, BitVec.toNat_ofNat, ← Nat.mul_mod]

/-- The two unsigned tests together bound the end of the wrapped range. -/
theorem fitsBuffer_iff : d.fitsBuffer (BitVec.ofNat 32 p) b = true ↔
    p * d.primitiveBytes b % 2 ^ 32 + d.primitiveBytes b % 2 ^ 32 ≤ (d.bufferSize b).toNat := by
  have hoffset := bufferOffset_toNat d p b
  have hstride := primitiveStride_toNat d b
  simp only [fitsBuffer, Bool.and_eq_true, BitVec.ule_eq_decide, decide_eq_true_eq]
  constructor
  · rintro ⟨hstart, hroom⟩
    rw [BitVec.toNat_sub_of_le (by rwa [BitVec.le_def])] at hroom
    omega
  · intro hle
    have hstart : (d.bufferOffset (BitVec.ofNat 32 p) b).toNat ≤ (d.bufferSize b).toNat := by omega
    refine ⟨hstart, ?_⟩
    rw [BitVec.toNat_sub_of_le (by rwa [BitVec.le_def])]
    omega

theorem foldl_and_eq_true {bs : List (Fin 4)} {f : Fin 4 → Bool} {start : Bool} :
    bs.foldl (fun emit b => emit && f b) start = true ↔ start = true ∧ ∀ b ∈ bs, f b = true := by
  induction bs generalizing start with
  | nil => simp
  | cons b bs ih => simp [ih, and_assoc]

theorem nggNogsBuildStreamout_eq_some {offset : Fin 4 → Word} :
    d.nggNogsBuildStreamout (BitVec.ofNat 32 p) = some offset ↔
      d.bufferOffset (BitVec.ofNat 32 p) = offset ∧ ∀ b, d.buffersWritten b = true →
        p * d.primitiveBytes b % 2 ^ 32 + d.primitiveBytes b % 2 ^ 32 ≤ (d.bufferSize b).toNat := by
  simp only [nggNogsBuildStreamout, foldl_and_eq_true, true_and, List.mem_filter,
    List.mem_finRange, fitsBuffer_iff, Option.ite_none_right_eq_some, Option.some.injEq]
  exact and_comm

theorem isSome_nggNogsBuildStreamout :
    (d.nggNogsBuildStreamout (BitVec.ofNat 32 p)).isSome = true ↔
      ∀ b, d.buffersWritten b = true →
        p * d.primitiveBytes b % 2 ^ 32 + d.primitiveBytes b % 2 ^ 32 ≤ (d.bufferSize b).toNat := by
  rw [Option.isSome_iff_exists]
  simp only [nggNogsBuildStreamout_eq_some, exists_and_right, exists_eq', true_and]

theorem lt_of_fits {t size : Nat} (hsize : size < 2 ^ 32) (h : (p + 1) * t ≤ size) :
    t < 2 ^ 32 ∧ p * t < 2 ^ 32 := by
  rw [Nat.add_mul, Nat.one_mul] at h
  omega

theorem lt_of_not_wrapSlips {d : PrimitiveDraw} {p : Nat} (h : ¬ d.WrapSlips p)
    (hfits : ∀ b, d.buffersWritten b = true →
      p * d.primitiveBytes b % 2 ^ 32 + d.primitiveBytes b % 2 ^ 32 ≤ (d.bufferSize b).toNat)
    (b : Fin 4) (hb : d.buffersWritten b = true) :
    d.primitiveBytes b < 2 ^ 32 ∧ p * d.primitiveBytes b < 2 ^ 32 := by
  by_contra hnot
  exact h ⟨⟨b, hb, by omega⟩, hfits⟩

/-- **When streamout by primitive id is exact**: no primitive of the draw slips through a
product that wraps around. -/
theorem exactCapture_iff (d : PrimitiveDraw) (N : Nat) :
    d.ExactCapture N ↔ ∀ p < N, ¬ d.WrapSlips p := by
  constructor
  · rintro h p hp ⟨⟨b, hb, hwrap⟩, hfits⟩
    have hexact := (h.captured p hp).mp (isSome_nggNogsBuildStreamout.mpr hfits) b hb
    have hlt := lt_of_fits (d.bufferSize b).isLt hexact
    omega
  · intro h
    have hoffset : ∀ p < N, ∀ offset, d.nggNogsBuildStreamout (BitVec.ofNat 32 p) = some offset →
        ∀ b, d.buffersWritten b = true → (offset b).toNat = p * d.primitiveBytes b := by
      intro p hp offset hsome b hb
      obtain ⟨rfl, hfits⟩ := nggNogsBuildStreamout_eq_some.mp hsome
      rw [bufferOffset_toNat, Nat.mod_eq_of_lt (lt_of_not_wrapSlips (h p hp) hfits b hb).2]
    refine ⟨fun p hp => ?_, hoffset, fun p hp q hq hne offset offset' hsome hsome' b hb => ?_⟩
    · rw [isSome_nggNogsBuildStreamout]
      constructor
      · intro hfits b hb
        obtain ⟨hbytes, hstart⟩ := lt_of_not_wrapSlips (h p hp) hfits b hb
        have hle := hfits b hb
        rw [Nat.mod_eq_of_lt hbytes, Nat.mod_eq_of_lt hstart] at hle
        rw [Nat.add_mul, Nat.one_mul]
        exact hle
      · intro hexact b hb
        have hle := hexact b hb
        obtain ⟨hbytes, hstart⟩ := lt_of_fits (d.bufferSize b).isLt hle
        rw [Nat.mod_eq_of_lt hbytes, Nat.mod_eq_of_lt hstart]
        rw [Nat.add_mul, Nat.one_mul] at hle
        exact hle
    · rw [hoffset p hp offset hsome b hb, hoffset q hq offset' hsome' b hb, Set.Ico_disjoint_Ico]
      rcases Nat.lt_or_gt_of_ne hne with hlt | hgt
      · have hend := Cells.end_le hlt (Nat.zero_add (d.primitiveBytes b)).le
        omega
      · have hend := Cells.end_le hgt (Nat.zero_add (d.primitiveBytes b)).le
        omega

end PrimitiveDraw

/-- Points of four bytes and a buffer for four of them. -/
def fourPoints : PrimitiveDraw where
  buffersWritten b := b = 0
  numVertPerPrim := 1
  stride _ := 4
  bufferSize _ := 16

/-- Point `2 ^ 30` is captured, at offset 0 and over point 0. -/
theorem fourPoints_captures_late_point :
    (fourPoints.nggNogsBuildStreamout (BitVec.ofNat 32 (2 ^ 30))).map (fun offset => offset 0) =
        some 0 ∧
      (fourPoints.nggNogsBuildStreamout (BitVec.ofNat 32 0)).map (fun offset => offset 0) =
        some 0 ∧
      ¬ fourPoints.ExactCapture (2 ^ 30 + 1) := by
  have hlate : (fourPoints.nggNogsBuildStreamout (BitVec.ofNat 32 (2 ^ 30))).isSome = true := by
    decide +kernel
  refine ⟨by decide +kernel, by decide +kernel, fun h => ?_⟩
  exact absurd ((h.captured (2 ^ 30) (by omega)).mp hlate 0 rfl) (by decide)

end Psbc.Streamout
