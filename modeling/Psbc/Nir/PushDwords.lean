import Psbc.Compile.Request
import Psbc.Lib.Mask
import Psbc.Nir.Program

/-!
# Push-constant dwords

`gatherPushDwords` marks the dwords of the 256-byte push-constant block that a shader reads: a
load at a constant offset reads its own bytes, any other its declared range. A load that does
not stay in the block makes the result unknown. `gatherPushConstantInfo` is the independent
pass of the driver that finds the size of the block.

`pushUse` joins the results of the two halves of a merged pair; `pushUse_exact` has the meaning
of every mask it publishes.
-/

namespace Psbc.Nir

open Mask

/-! ## The walk -/

namespace PushConstantLoad

variable (l : PushConstantLoad)

/-- The bytes of the loaded vector, as `num_components * (bit_size / 8u)`. -/
def vectorSize : BitVec 32 := l.numComponents.setWidth 32 * (l.bitSize.setWidth 32 / 8)

/-- The first byte in 64 bits; the base is signed. -/
def offset64 : BitVec 64 :=
  match l.offset with
  | some c => l.base.signExtend 64 + c.setWidth 64
  | none => l.base.signExtend 64

def size64 : BitVec 64 :=
  match l.offset with
  | some _ => l.vectorSize.setWidth 64
  | none => l.range.setWidth 64

/-- The walk gives up at this load. -/
def refused : Bool :=
  l.size64 == 0 || decide (256 ≤ l.offset64) || decide (256 - l.offset64 < l.size64)

/-- The dwords that the inner loop marks. -/
def dwords : List Nat :=
  List.range' (l.offset64 / 4).toNat
    (((l.offset64 + l.size64 + 3) / 4).toNat - (l.offset64 / 4).toNat)

end PushConstantLoad

/-- The walk from a partial mask on. -/
def gatherPushDwordsFrom (mask : BitVec 64) : List Instr → Bool × BitVec 64
  | [] => (true, mask)
  | .loadPushConstant l :: rest =>
    if l.refused then (false, 0) else gatherPushDwordsFrom (setBits mask l.dwords) rest
  | _ :: rest => gatherPushDwordsFrom mask rest

/-- `gather_push_dwords`: whether every load stays in the block, and the dwords. -/
def gatherPushDwords (s : Shader) : Bool × BitVec 64 := gatherPushDwordsFrom 0 s.instrs

/-! ## The driver's pass -/

/-- The fields of `radv_shader_info` about push constants. -/
structure PushConstantInfo where
  loadsPushConstants : Bool
  pushConstantSize : BitVec 32
  inlinePushConstantMask : BitVec 64
  canInlineAllPushConstants : Bool

def PushConstantInfo.init : PushConstantInfo := ⟨false, 0, 0, true⟩

def maxPushConstantsSize : Nat := 256

def bitfield64Mask (b : Nat) : BitVec 64 :=
  if b = 64 then BitVec.allOnes 64 else (1#64 <<< (b % 64)) - 1

def bitfield64Range (b count : Nat) : BitVec 64 :=
  bitfield64Mask (b + count) &&& ~~~bitfield64Mask b

namespace PushConstantLoad

variable (l : PushConstantLoad)

/-- The first byte as the driver computes it, in 32 bits. -/
def offset32 : BitVec 32 :=
  match l.offset with
  | some c => l.base + c
  | none => l.base

def size32 : BitVec 32 :=
  match l.offset with
  | some _ => l.vectorSize
  | none => l.range

end PushConstantLoad

def gatherPushConstantInfo (info : PushConstantInfo) (l : PushConstantLoad) : PushConstantInfo :=
  let stop := l.offset32 + l.size32
  let info := { info with
    loadsPushConstants := true
    pushConstantSize := if info.pushConstantSize > stop then info.pushConstantSize else stop }
  let startDw := (l.offset32 / 4).toNat
  let sizeDw := ((l.size32 + l.offset32 % 4 + 3) / 4).toNat
  if l.offset.isSome ∧ startDw + sizeDw ≤ maxPushConstantsSize / 4 then
    { info with
      inlinePushConstantMask := info.inlinePushConstantMask ||| bitfield64Range startDw sizeDw }
  else { info with canInlineAllPushConstants := false }

def Shader.pushLoads (s : Shader) : List PushConstantLoad :=
  s.instrs.filterMap fun
    | .loadPushConstant l => some l
    | _ => none

/-- The driver's pass over the loads of a shader. -/
def Shader.pushConstantInfo (s : Shader) : PushConstantInfo :=
  s.pushLoads.foldl gatherPushConstantInfo .init

/-! ## What a load reads -/

namespace PushConstantLoad

variable (l : PushConstantLoad)

/-- The first byte of the load: base and offset, or the base of a dynamic one. -/
def first : Int :=
  match l.offset with
  | some c => l.base.toInt + c.toNat
  | none => l.base.toInt

/-- The number of bytes: its own, or the declared range of a dynamic one. -/
def bytes : Nat :=
  match l.offset with
  | some _ => l.numComponents.toNat * (l.bitSize.toNat / 8)
  | none => l.range.toNat

/-- The range is not empty and stays in the block. -/
def Bounded : Prop := 0 < l.bytes ∧ 0 ≤ l.first ∧ l.first + l.bytes ≤ 256

/-- The load reads one of the bytes of dword `d`. -/
def Meets (d : Nat) : Prop :=
  ∃ byte : Int, l.first ≤ byte ∧ byte < l.first + l.bytes ∧ 4 * d ≤ byte ∧ byte < 4 * d + 4

variable {l}

theorem toNat_vectorSize : l.vectorSize.toNat = l.numComponents.toNat * (l.bitSize.toNat / 8) := by
  have hn := l.numComponents.isLt
  have hb := l.bitSize.isLt
  have height : (8 : BitVec 32).toNat = 8 := rfl
  have hmul : l.numComponents.toNat * (l.bitSize.toNat / 8) ≤ 256 * 32 :=
    Nat.mul_le_mul (by omega) (by omega)
  rw [vectorSize, BitVec.toNat_mul, BitVec.toNat_udiv, BitVec.toNat_setWidth,
    BitVec.toNat_setWidth, height, Nat.mod_eq_of_lt (b := 2 ^ 32) (a := l.bitSize.toNat) (by omega),
    Nat.mod_eq_of_lt (b := 2 ^ 32) (a := l.numComponents.toNat) (by omega),
    Nat.mod_eq_of_lt (by omega)]

theorem toNat_size32 : l.size32.toNat = l.bytes := by
  unfold size32 bytes
  split
  · exact toNat_vectorSize
  · rfl

theorem toNat_size64 : l.size64.toNat = l.bytes := by
  have hwide : l.size64 = l.size32.setWidth 64 := by
    unfold size64 size32
    split <;> rfl
  have hlt := l.size32.isLt
  rw [hwide, BitVec.toNat_setWidth, Nat.mod_eq_of_lt (by omega), toNat_size32]

theorem offset64_eq : l.offset64 = BitVec.ofInt 64 l.first := by
  unfold offset64 first
  split
  · next c _ =>
    have hc : c.setWidth 64 = BitVec.ofInt 64 c.toNat := by
      rw [BitVec.ofInt_natCast, BitVec.ofNat_toNat]
    rw [hc, BitVec.signExtend, ← BitVec.ofInt_add]
  · rfl

theorem offset32_eq : l.offset32 = BitVec.ofInt 32 l.first := by
  unfold offset32 first
  split
  · next c _ => rw [BitVec.ofInt_add, BitVec.ofInt_toInt, BitVec.ofInt_natCast, BitVec.ofNat_toNat,
      BitVec.setWidth_eq]
  · rw [BitVec.ofInt_toInt]

theorem first_bounds : -2 ^ 31 ≤ l.first ∧ l.first < 2 ^ 33 := by
  have hlo := BitVec.le_toInt l.base
  have hhi := BitVec.toInt_lt (x := l.base)
  unfold first
  split
  · next c _ =>
    have hc := c.isLt
    omega
  · omega

theorem toNat_offset64 :
    (l.offset64.toNat : Int) = if l.first < 0 then l.first + 2 ^ 64 else l.first := by
  have hbounds := first_bounds (l := l)
  rw [offset64_eq, BitVec.toNat_ofInt]
  split <;> omega

/-- The walk gives up exactly at a load that is empty or leaves the block. -/
theorem refused_eq_false_iff : l.refused = false ↔ l.Bounded := by
  have hbounds := first_bounds (l := l)
  have hoff := toNat_offset64 (l := l)
  have hsize := toNat_size64 (l := l)
  have hoff' := l.offset64.isLt
  have hblock : (256 : BitVec 64).toNat = 256 := rfl
  have hzero : (0 : BitVec 64).toNat = 0 := rfl
  simp only [refused, Bool.or_eq_false_iff, beq_eq_false_iff_ne, decide_eq_false_iff_not,
    BitVec.le_def, BitVec.lt_def, BitVec.toNat_sub, ne_eq, ← BitVec.toNat_inj, hblock, hzero,
    hsize, Bounded]
  split at hoff <;> omega

theorem Bounded.toNat_offset32 (h : l.Bounded) : (l.offset32.toNat : Int) = l.first := by
  obtain ⟨_, hfirst, hstop⟩ := h
  rw [offset32_eq, BitVec.toNat_ofInt]
  omega

/-- The inner loop marks the dwords that the load meets. -/
theorem Bounded.mem_dwords_iff (h : l.Bounded) {d : Nat} : d ∈ l.dwords ↔ l.Meets d := by
  have hoff := toNat_offset64 (l := l)
  have hsize := toNat_size64 (l := l)
  obtain ⟨hpos, hfirst, hstop⟩ := h
  rw [if_neg (by omega)] at hoff
  have hfour : (4 : BitVec 64).toNat = 4 := rfl
  have hthree : (3 : BitVec 64).toNat = 3 := rfl
  have hend : (l.offset64 + l.size64 + 3).toNat = l.offset64.toNat + l.bytes + 3 := by
    rw [BitVec.toNat_add, BitVec.toNat_add, hsize, hthree]
    omega
  rw [dwords, List.mem_range'_1, BitVec.toNat_udiv, BitVec.toNat_udiv, hend, hfour, Meets]
  constructor
  · intro hd
    -- the later of the two starts is a common byte
    exact ⟨max l.first (4 * d), by omega, by omega, by omega, by omega⟩
  · rintro ⟨byte, _, _, _, _⟩
    omega

end PushConstantLoad

/-! ## What the walk finds -/

theorem Shader.mem_pushLoads {s : Shader} {l : PushConstantLoad} :
    l ∈ s.pushLoads ↔ .loadPushConstant l ∈ s.instrs := by
  simp only [pushLoads, List.mem_filterMap]
  constructor
  · rintro ⟨i, hi, heq⟩
    cases i with
    | loadPushConstant l' => cases heq; exact hi
    | _ => cases heq
  · exact fun h => ⟨_, h, rfl⟩

/-- A load that leaves the block ends the walk, wherever it stands. -/
theorem gatherPushDwordsFrom_unbounded {instrs : List Instr} {mask : BitVec 64}
    {l : PushConstantLoad} (hl : .loadPushConstant l ∈ instrs) (h : ¬ l.Bounded) :
    gatherPushDwordsFrom mask instrs = (false, 0) := by
  induction instrs generalizing mask with
  | nil => exact absurd hl List.not_mem_nil
  | cons i rest ih =>
    cases i with
    | loadPushConstant l' =>
      rw [gatherPushDwordsFrom]
      split
      · rfl
      · next hbounded =>
        rcases List.mem_cons.mp hl with heq | hl
        · cases heq
          exact absurd (PushConstantLoad.refused_eq_false_iff.mp (by simpa using hbounded)) h
        · exact ih hl
    | _ => exact ih ((List.mem_cons.mp hl).resolve_left (by simp))

theorem gatherPushDwordsFrom_bounded {instrs : List Instr}
    (h : ∀ l, .loadPushConstant l ∈ instrs → l.Bounded) (mask : BitVec 64) :
    (gatherPushDwordsFrom mask instrs).1 = true ∧
      ∀ d, (gatherPushDwordsFrom mask instrs).2.getLsbD d = true ↔
        mask.getLsbD d = true ∨ ∃ l, .loadPushConstant l ∈ instrs ∧ l.Meets d := by
  induction instrs generalizing mask with
  | nil => simp [gatherPushDwordsFrom]
  | cons i rest ih =>
    have hrest : ∀ l, .loadPushConstant l ∈ rest → l.Bounded := fun l hl =>
      h l (List.mem_cons_of_mem i hl)
    cases i with
    | loadPushConstant l =>
      have hbounded : l.Bounded := h l List.mem_cons_self
      rw [gatherPushDwordsFrom, PushConstantLoad.refused_eq_false_iff.mpr hbounded]
      refine ⟨(ih hrest _).1, fun d => ?_⟩
      have hin : l.Meets d → d < 64 := by
        rintro ⟨byte, _, _, _, _⟩
        have hstop := hbounded.2.2
        omega
      have hcons : (∃ l', .loadPushConstant l' ∈ Instr.loadPushConstant l :: rest ∧ l'.Meets d) ↔
          l.Meets d ∨ ∃ l', .loadPushConstant l' ∈ rest ∧ l'.Meets d := by
        simp [List.mem_cons, or_and_right, exists_or]
      rw [if_neg (by decide), (ih hrest _).2, getLsbD_setBits, hbounded.mem_dwords_iff,
        and_iff_left_of_imp hin, hcons, or_assoc]
    | _ => simpa [gatherPushDwordsFrom] using ih hrest mask

def Shader.PushBounded (s : Shader) : Prop := ∀ l ∈ s.pushLoads, l.Bounded

variable {s : Shader}

theorem gatherPushDwords_of_not_bounded (h : ¬ s.PushBounded) :
    gatherPushDwords s = (false, 0) := by
  simp only [Shader.PushBounded, not_forall] at h
  obtain ⟨l, hl, hl'⟩ := h
  exact gatherPushDwordsFrom_unbounded (Shader.mem_pushLoads.mp hl) hl'

theorem gatherPushDwords_of_bounded (h : s.PushBounded) :
    (gatherPushDwords s).1 = true ∧
      ∀ d, (gatherPushDwords s).2.getLsbD d = true ↔ ∃ l ∈ s.pushLoads, l.Meets d := by
  have hloads := gatherPushDwordsFrom_bounded
    (fun l hl => h l (Shader.mem_pushLoads.mpr hl)) (0 : BitVec 64)
  refine ⟨hloads.1, fun d => (hloads.2 d).trans ?_⟩
  simp [Shader.mem_pushLoads]

/-! ## The size the driver finds -/

theorem pushConstantSize_gather (info : PushConstantInfo) (l : PushConstantLoad) :
    info.pushConstantSize.toNat ≤ (gatherPushConstantInfo info l).pushConstantSize.toNat ∧
      (l.offset32 + l.size32).toNat ≤ (gatherPushConstantInfo info l).pushConstantSize.toNat := by
  have hsize : (gatherPushConstantInfo info l).pushConstantSize =
      if info.pushConstantSize > l.offset32 + l.size32 then info.pushConstantSize
      else l.offset32 + l.size32 := by
    unfold gatherPushConstantInfo
    dsimp only
    split <;> rfl
  rw [hsize]
  split
  · next hgt => exact ⟨Nat.le_refl _, Nat.le_of_lt (BitVec.lt_def.mp hgt)⟩
  · next hle => exact ⟨Nat.le_of_not_lt (mt BitVec.lt_def.mpr hle), Nat.le_refl _⟩

theorem le_pushConstantSize_foldl (loads : List PushConstantLoad) (info : PushConstantInfo) :
    info.pushConstantSize.toNat ≤
        (loads.foldl gatherPushConstantInfo info).pushConstantSize.toNat ∧
      ∀ l ∈ loads, (l.offset32 + l.size32).toNat ≤
        (loads.foldl gatherPushConstantInfo info).pushConstantSize.toNat := by
  induction loads generalizing info with
  | nil => simp
  | cons l loads ih =>
    obtain ⟨hinfo, hl⟩ := pushConstantSize_gather info l
    obtain ⟨hstep, hrest⟩ := ih (gatherPushConstantInfo info l)
    rw [List.foldl_cons]
    refine ⟨hinfo.trans hstep, fun l' hl' => ?_⟩
    rcases List.mem_cons.mp hl' with rfl | hl'
    · exact hl.trans hstep
    · exact hrest l' hl'

theorem dword_lt_pushConstantSize {l : PushConstantLoad} (hl : l ∈ s.pushLoads) (h : l.Bounded)
    {d : Nat} (hd : l.Meets d) : 4 * d < s.pushConstantInfo.pushConstantSize.toNat := by
  have hsize := (le_pushConstantSize_foldl s.pushLoads .init).2 l hl
  have hoff := h.toNat_offset32
  obtain ⟨_, hfirst, hstop⟩ := h
  obtain ⟨byte, _, _, _, _⟩ := hd
  rw [BitVec.toNat_add, PushConstantLoad.toNat_size32, Nat.mod_eq_of_lt (by omega),
    ← Shader.pushConstantInfo] at hsize
  omega

/-! ## Merged pairs -/

/-- What the metadata says of push constants. -/
structure PushUse where
  pushUseValid : Bool
  stagePushDwords : BitVec 64
  previousStagePushDwords : BitVec 64
  hullPushUseValid : Bool
  hullVertexPushDwords : BitVec 64
  hullControlPushDwords : BitVec 64
  deriving DecidableEq, Repr

/-- The part of `psbc_compile_impl` that gathers push constants. -/
def pushUse (r : Request) (stage previous : Shader) : PushUse :=
  let stagePush := gatherPushDwords stage
  let previousPush :=
    if r.pairedHull || r.pairedGeometry then gatherPushDwords previous else (true, 0)
  let pushValid := stagePush.1 && previousPush.1
  let hullVertex := gatherPushDwords previous
  let hullControl := gatherPushDwords stage
  let hullValid := r.pairedHull && hullVertex.1 && hullControl.1
  { pushUseValid := pushValid
    stagePushDwords := if pushValid then stagePush.2 else 0
    previousStagePushDwords := if pushValid then previousPush.2 else 0
    hullPushUseValid := hullValid
    hullVertexPushDwords := if hullValid then hullVertex.2 else 0
    hullControlPushDwords := if hullValid then hullControl.2 else 0 }

/-- The masks of one shader. -/
structure PushExact (s : Shader) : Prop where
  unknown_iff : (gatherPushDwords s).1 = false ↔ ∃ l ∈ s.pushLoads, ¬ l.Bounded
  dword_iff : (gatherPushDwords s).1 = true → ∀ d,
    (gatherPushDwords s).2.getLsbD d = true ↔ ∃ l ∈ s.pushLoads, l.Meets d
  below_size : (gatherPushDwords s).1 = true → ∀ d, (gatherPushDwords s).2.getLsbD d = true →
    4 * d < s.pushConstantInfo.pushConstantSize.toNat

theorem pushExact (s : Shader) : PushExact s := by
  by_cases h : s.PushBounded
  · obtain ⟨hvalid, hbits⟩ := gatherPushDwords_of_bounded h
    refine ⟨?_, fun _ => hbits, fun _ d hd => ?_⟩
    · rw [hvalid]
      exact iff_of_false (by decide) fun ⟨l, hl, hl'⟩ => hl' (h l hl)
    · obtain ⟨l, hl, hmeets⟩ := (hbits d).mp hd
      exact dword_lt_pushConstantSize hl (h l hl) hmeets
  · have hwalk := gatherPushDwords_of_not_bounded h
    have hfalse : (gatherPushDwords s).1 = false := congrArg Prod.fst hwalk
    refine ⟨iff_of_true hfalse ?_, fun htrue => ?_, fun htrue => ?_⟩
    · simpa [Shader.PushBounded] using h
    · exact absurd (hfalse.symm.trans htrue) (by decide)
    · exact absurd (hfalse.symm.trans htrue) (by decide)

/-- The masks of a compile: each is the one of its own shader, or everything is unknown. -/
structure PushUseExact (r : Request) (stage previous : Shader) : Prop where
  shader : ∀ s, PushExact s
  merged_unknown : (r.pairedHull = true ∨ r.pairedGeometry = true) →
    ((gatherPushDwords stage).1 = false ∨ (gatherPushDwords previous).1 = false) →
    (pushUse r stage previous).pushUseValid = false ∧
      (pushUse r stage previous).stagePushDwords = 0 ∧
      (pushUse r stage previous).previousStagePushDwords = 0
  merged_known : (r.pairedHull = true ∨ r.pairedGeometry = true) →
    (gatherPushDwords stage).1 = true → (gatherPushDwords previous).1 = true →
    (pushUse r stage previous).pushUseValid = true ∧
      (pushUse r stage previous).stagePushDwords = (gatherPushDwords stage).2 ∧
      (pushUse r stage previous).previousStagePushDwords = (gatherPushDwords previous).2
  hull_unknown : r.pairedHull = true →
    ((gatherPushDwords stage).1 = false ∨ (gatherPushDwords previous).1 = false) →
    (pushUse r stage previous).hullPushUseValid = false ∧
      (pushUse r stage previous).hullVertexPushDwords = 0 ∧
      (pushUse r stage previous).hullControlPushDwords = 0
  hull_known : r.pairedHull = true →
    (gatherPushDwords stage).1 = true → (gatherPushDwords previous).1 = true →
    (pushUse r stage previous).hullPushUseValid = true ∧
      (pushUse r stage previous).hullVertexPushDwords = (gatherPushDwords previous).2 ∧
      (pushUse r stage previous).hullControlPushDwords = (gatherPushDwords stage).2

/-- **Push-constant masks are exact**, and unknown together for a merged pair. -/
theorem pushUse_exact (r : Request) (stage previous : Shader) : PushUseExact r stage previous where
  shader := pushExact
  merged_unknown hmerged hunknown := by
    rcases hunknown with h | h <;> simp [pushUse, hmerged, h]
  merged_known hmerged hstage hprevious := by
    simp [pushUse, hmerged, hstage, hprevious]
  hull_unknown hhull hunknown := by
    rcases hunknown with h | h <;> simp [pushUse, hhull, h]
  hull_known hhull hstage hprevious := by
    simp [pushUse, hhull, hstage, hprevious]

/-- A load of three bytes from byte 2 on marks dwords 0 and 1. -/
example :
    gatherPushDwords ⟨[[[.loadPushConstant ⟨2, 0, some 0, 3, 8⟩]]]⟩ = (true, 0x3) := by decide

end Psbc.Nir
