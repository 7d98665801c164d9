import Psbc.Lib.AgreeTable
import Psbc.Linkage.OutputSemantics

/-!
# The input semantic words of a pixel stage

The input loads of a fragment shader get their attribute indices ("bases") from
`nir_recompute_io_bases`. `split_ps5_mixed_inputs` gives a location that is read both
flat and interpolated a second attribute for the flat loads, and puts a per-primitive
primitive id after everything else. `build_input_semantics` then writes one word for
each attribute, and fails when two loads of one attribute do not agree.

`buildInputSemantics_eq_some_iff` says when the last step succeeds and with which
words, without the order of its loop.
-/

namespace Psbc.Linkage

open AgreeTable VaryingSlot

/-! ## Loads -/

/-- The input loads that have an interpolation mode: flat, flat of one vertex, and
interpolated. -/
inductive InputIntrinsic where
  | loadInput
  | loadInputVertex
  | loadInterpolatedInput
  deriving DecidableEq, Repr

structure InputLoad where
  intrinsic : InputIntrinsic
  /-- First slot and number of slots of `nir_io_semantics`. -/
  location : Nat
  numSlots : Nat
  base : Nat
  deriving DecidableEq, Repr

/-- One bit for flat, one for interpolated. -/
def ps5InputInterpolationMode : InputIntrinsic → BitVec 2
  | .loadInterpolatedInput => 2
  | .loadInput => 1
  | .loadInputVertex => 1

def InputLoad.mode (l : InputLoad) : BitVec 2 := ps5InputInterpolationMode l.intrinsic

def InputLoad.covers (l : InputLoad) (location : Nat) : Bool :=
  decide (l.location ≤ location) && decide (location < l.location + l.numSlots)

/-! ## `nir_recompute_io_bases` for fragment inputs -/

abbrev numTotalVaryingSlots : Nat := 112

/-- The inputs that are per vertex or per primitive depending on the pipeline come
after all others. -/
def isLateInput (location : Nat) : Bool :=
  location == primitiveId || location == viewport || location == layer

section

variable (loads : List InputLoad)

def inputs (location : Nat) : Bool :=
  loads.any (·.covers location) && !isLateInput location

def perPrimInputs (location : Nat) : Bool :=
  loads.any (·.covers location) && isLateInput location

def numNormalInputs : Nat := Nat.count (fun i => inputs loads i = true) numTotalVaryingSlots

def newBase (l : InputLoad) : Nat :=
  if perPrimInputs loads l.location then
    numNormalInputs loads + Nat.count (fun i => perPrimInputs loads i = true) l.location
  else Nat.count (fun i => inputs loads i = true) l.location

def nirRecomputeIoBases : List InputLoad :=
  loads.map fun l => { l with base := newBase loads l }

end

/-! ## What the shader information holds -/

/-- The masks of inputs the semantic words cannot describe. -/
structure ShadedMasks where
  inputPerPrimitiveMask : BitVec 32
  explicitShadedMask : BitVec 32
  explicitStrictShadedMask : BitVec 32
  float16ShadedMask : BitVec 32
  float16HiShadedMask : BitVec 32
  deriving DecidableEq, Repr

/-- The part of `radv_shader_info.ps` about inputs. -/
structure PsInfo where
  numInputs : Nat
  primIdInput : Bool
  masks : ShadedMasks
  deriving DecidableEq, Repr

structure FragmentShader where
  loads : List InputLoad
  masks : ShadedMasks
  clipDistanceArraySize : Nat
  cullDistanceArraySize : Nat

def inputsRead (loads : List InputLoad) (location : Nat) : Bool :=
  loads.any (·.covers location)

def FragmentShader.info (fs : FragmentShader) : PsInfo where
  numInputs := Nat.count (fun i => inputsRead fs.loads i = true) varyingSlotMax
  primIdInput := inputsRead fs.loads primitiveId
  masks := fs.masks

/-! ## `split_ps5_mixed_inputs` -/

structure Ps5MixedInputState where
  modes : Nat → BitVec 2
  flatAttribute : Nat → Nat
  primitiveIdAttribute : Option Nat

/-- The modes of one user location after one more load. -/
def classifyPs5Input (location : Nat) (mode : BitVec 2) (l : InputLoad) : BitVec 2 :=
  if var0 ≤ l.location ∧ l.covers (var0 + location) = true ∧ location < maxSemantics then
    mode ||| l.mode
  else mode

def classifiedModes (loads : List InputLoad) (location : Nat) : BitVec 2 :=
  loads.foldl (classifyPs5Input location) 0

/-- A new attribute for the flat loads of a location read both ways. -/
def allocFlatAttribute (modes : Nat → BitVec 2) (st : (Nat → Nat) × Nat) (location : Nat) :
    Option ((Nat → Nat) × Nat) :=
  if modes location ≠ 3 then some st
  else if maxSemantics ≤ st.2 then none
  else some (Function.update st.1 location st.2, st.2 + 1)

def allocPrimitiveId (perPrimitiveId : Bool) (next : Nat) : Option (Option Nat × Nat) :=
  if perPrimitiveId then
    if maxSemantics ≤ next then none else some (some next, next + 1)
  else some (none, next)

/-- A flat load gets the new attribute of its location. -/
def remapPs5FlatInput (state : Ps5MixedInputState) (l : InputLoad) : InputLoad :=
  if l.mode ≠ 1 then l
  else
    match (if l.location = primitiveId then state.primitiveIdAttribute else none) with
    | some attr => { l with base := attr }
    | none =>
      if l.location < var0 ∨ l.numSlots ≠ 1 then l
      else if maxSemantics ≤ l.location - var0 ∨ state.modes (l.location - var0) ≠ 3 then l
      else { l with base := state.flatAttribute (l.location - var0) }

def splitPs5MixedInputs (loads : List InputLoad) (info : PsInfo)
    (primitiveIdPerPrimitive : Bool) : Option (List InputLoad × PsInfo) := do
  let perPrimitiveId := primitiveIdPerPrimitive && info.primIdInput
  let modes := classifiedModes loads
  let (flatAttribute, next) ← (List.range maxSemantics).foldlM (allocFlatAttribute modes)
    (fun _ => 255, info.numInputs - perPrimitiveId.toNat)
  let (primitiveIdAttribute, next) ← allocPrimitiveId perPrimitiveId next
  -- nothing was added, and a per-primitive id stays where it is
  if next = info.numInputs then some (loads, info)
  else some (loads.map (remapPs5FlatInput ⟨modes, flatAttribute, primitiveIdAttribute⟩),
    { info with numInputs := next })

/-! ## `build_input_semantics` -/

/-- `BITFIELD_BIT(22)`, flat shading. -/
abbrev flatBit : Nat := 1 <<< 22

/-- `words_by_attribute` where `seen`. -/
abbrev AttributeWords := Nat → Option Nat

section

variable (fs : FragmentShader) (numInputs : Nat) (primitiveIdPerPrimitive : Bool)

/-- The word of one slot of a user location or of the primitive id. -/
def slotInputWord (l : InputLoad) (slot : Nat) : Nat :=
  let isPrimitiveId : Bool := l.location == primitiveId
  let location := if isPrimitiveId then 0 else l.location - var0 + slot
  let word := if isPrimitiveId then semanticPrimitiveId else semanticGeneric + location
  if l.mode = 1 ∧ ¬ (isPrimitiveId = true ∧ primitiveIdPerPrimitive = true) then word ||| flatBit
  else word

def recordSlot (l : InputLoad) (t : AttributeWords) (slot : Nat) : Option AttributeWords :=
  let location := if l.location = primitiveId then 0 else l.location - var0 + slot
  if maxSemantics ≤ location ∨ numInputs ≤ l.base + slot then none
  else record t (l.base + slot, slotInputWord primitiveIdPerPrimitive l slot)

/-- A packed distance register, named by its location whatever its attribute. -/
def recordDistance (t : AttributeWords) (l : InputLoad) : Option AttributeWords :=
  let declared := fs.clipDistanceArraySize + fs.cullDistanceArraySize
  if l.numSlots ≠ 1 ∨ declared = 0 ∨ 8 < declared ∨ numInputs ≤ l.base ∨
      1 < l.location - clipDist0 then none
  else record t (l.base, semanticDistanceRegister + (l.location - clipDist0))

def recordLoad (t : AttributeWords) (l : InputLoad) : Option AttributeWords :=
  if l.location = primitiveId ∧ (l.numSlots ≠ 1 ∨ l.mode ≠ 1) then none
  else if l.location = cullDist0 ∨ l.location = cullDist1 then none
  else if l.location = clipDist0 ∨ l.location = clipDist1 then recordDistance fs numInputs t l
  else if l.location ≠ primitiveId ∧ l.location < var0 then some t
  else (List.range l.numSlots).foldlM (recordSlot numInputs primitiveIdPerPrimitive l) t

end

def ShadedMasks.any (m : ShadedMasks) : Bool :=
  m.inputPerPrimitiveMask != 0 || m.explicitShadedMask != 0 || m.explicitStrictShadedMask != 0 ||
    m.float16ShadedMask != 0 || m.float16HiShadedMask != 0

/-- `build_input_semantics` on the shader with the loads `loads`: the words, or failure. -/
def buildInputSemantics (fs : FragmentShader) (loads : List InputLoad) (info : PsInfo)
    (primitiveIdPerPrimitive : Bool) : Option (List Nat) :=
  if maxSemantics < info.numInputs then none
  else if info.masks.any then none
  else do
    let t ← loads.foldlM (recordLoad fs info.numInputs primitiveIdPerPrimitive) fun _ => none
    (List.range info.numInputs).mapM t

/-! ## The words without the loop -/

section

variable (fs : FragmentShader) (numInputs : Nat) (primitiveIdPerPrimitive : Bool)

def InputLoad.isDistance (l : InputLoad) : Prop := l.location = clipDist0 ∨ l.location = clipDist1

def InputLoad.isVarying (l : InputLoad) : Prop := l.location = primitiveId ∨ var0 ≤ l.location

instance (l : InputLoad) : Decidable l.isDistance := inferInstanceAs (Decidable (_ ∨ _))

instance (l : InputLoad) : Decidable l.isVarying := inferInstanceAs (Decidable (_ ∨ _))

theorem InputLoad.isDistance.not_varying {l : InputLoad} (h : l.isDistance) : ¬ l.isVarying := by
  unfold InputLoad.isVarying
  rcases h with h | h <;> rw [h] <;> decide

/-- What `build_input_semantics` demands of one load. -/
structure LoadOk (l : InputLoad) : Prop where
  primId : l.location = primitiveId → l.numSlots = 1 ∧ l.mode = 1
  notCull : l.location ≠ cullDist0 ∧ l.location ≠ cullDist1
  distance : l.isDistance → l.numSlots = 1 ∧ l.base < numInputs ∧
    0 < fs.clipDistanceArraySize + fs.cullDistanceArraySize ∧
    fs.clipDistanceArraySize + fs.cullDistanceArraySize ≤ 8
  varying : l.isVarying → ∀ slot < l.numSlots, l.base + slot < numInputs ∧
    (l.location ≠ primitiveId → l.location - var0 + slot < maxSemantics)

def loadEntries (l : InputLoad) : List (Nat × Nat) :=
  if l.isDistance then [(l.base, semanticDistanceRegister + (l.location - clipDist0))]
  else if l.isVarying then
    (List.range l.numSlots).map fun slot =>
      (l.base + slot, slotInputWord primitiveIdPerPrimitive l slot)
  else []

theorem recordSlots_eq_some_iff (l : InputLoad) {t t' : AttributeWords} :
    (List.range l.numSlots).foldlM (recordSlot numInputs primitiveIdPerPrimitive l) t = some t' ↔
      (∀ slot < l.numSlots, l.base + slot < numInputs ∧
        (l.location ≠ primitiveId → l.location - var0 + slot < maxSemantics)) ∧
      recordAll t ((List.range l.numSlots).map fun slot =>
        (l.base + slot, slotInputWord primitiveIdPerPrimitive l slot)) = some t' := by
  have hslot : ∀ slot ∈ List.range l.numSlots, ∀ t t',
      recordSlot numInputs primitiveIdPerPrimitive l t slot = some t' ↔
        (l.base + slot < numInputs ∧
          (l.location ≠ primitiveId → l.location - var0 + slot < maxSemantics)) ∧
        recordAll t [(l.base + slot, slotInputWord primitiveIdPerPrimitive l slot)] = some t' := by
    intro slot _ t t'
    unfold recordSlot
    by_cases hprim : l.location = primitiveId
    · simp [hprim]
    · simp only [hprim, if_false, recordAll_singleton]
      split
      · next h =>
        refine iff_of_false (by simp) ?_
        rintro ⟨⟨hbase, hloc⟩, -⟩
        have := hloc hprim
        omega
      · next h =>
        have hok : l.base + slot < numInputs ∧
            (l.location ≠ primitiveId → l.location - var0 + slot < maxSemantics) := by omega
        rw [and_iff_right hok]
  rw [foldlM_guard _ _ _ hslot, ← List.map_eq_flatMap]
  simp only [List.mem_range]

theorem recordDistance_eq_some_iff {l : InputLoad} (hdist : l.isDistance)
    {t t' : AttributeWords} :
    recordDistance fs numInputs t l = some t' ↔
      (l.numSlots = 1 ∧ l.base < numInputs ∧
        0 < fs.clipDistanceArraySize + fs.cullDistanceArraySize ∧
        fs.clipDistanceArraySize + fs.cullDistanceArraySize ≤ 8) ∧
      recordAll t [(l.base, semanticDistanceRegister + (l.location - clipDist0))] = some t' := by
  have hreg : l.location - clipDist0 ≤ 1 := by
    rcases hdist with h | h <;> rw [h] <;> decide
  simp only [recordDistance, recordAll_singleton]
  split
  · exact iff_of_false (by simp) fun ⟨hok, _⟩ => by omega
  · exact (and_iff_right (by omega)).symm

theorem recordLoad_eq_some_iff (l : InputLoad) {t t' : AttributeWords} :
    recordLoad fs numInputs primitiveIdPerPrimitive t l = some t' ↔
      LoadOk fs numInputs l ∧ recordAll t (loadEntries primitiveIdPerPrimitive l) = some t' := by
  unfold recordLoad
  split
  · next hprim =>
    refine iff_of_false (by simp) fun ⟨hok, _⟩ => ?_
    obtain ⟨hslots, hmode⟩ := hok.primId hprim.1
    exact hprim.2.elim (absurd hslots) (absurd hmode)
  next hprim =>
  split
  · next hcull =>
    refine iff_of_false (by simp) fun ⟨hok, _⟩ => ?_
    exact hcull.elim (absurd · hok.notCull.1) (absurd · hok.notCull.2)
  next hcull =>
  split
  · next hdist =>
    replace hdist : l.isDistance := hdist
    have hvary := hdist.not_varying
    rw [loadEntries, if_pos hdist, recordDistance_eq_some_iff fs numInputs hdist]
    refine and_congr_left fun _ => ⟨fun h => ?_, fun hok => hok.distance hdist⟩
    exact ⟨fun hp => absurd (Or.inl hp) hvary, not_or.mp hcull, fun _ => h,
      fun h => absurd h hvary⟩
  next hdist =>
  replace hdist : ¬ l.isDistance := hdist
  split
  · next hskip =>
    have hvary : ¬ l.isVarying := fun h => h.elim hskip.1 (not_le.mpr hskip.2)
    have hok : LoadOk fs numInputs l :=
      ⟨fun h => absurd h hskip.1, not_or.mp hcull, fun h => absurd h hdist,
        fun h => absurd h hvary⟩
    simp [loadEntries, hdist, hvary, hok, recordAll]
  · next hvar =>
    have hvary : l.isVarying := by
      unfold InputLoad.isVarying
      omega
    rw [loadEntries, if_neg hdist, if_pos hvary, recordSlots_eq_some_iff]
    refine and_congr_left fun _ => ⟨fun h => ?_, fun hok => hok.varying hvary⟩
    refine ⟨fun hp => ?_, not_or.mp hcull, fun h => absurd h hdist, fun _ => h⟩
    by_contra hne
    exact hprim ⟨hp, not_and_or.mp hne⟩

variable {primitiveIdPerPrimitive} in
theorem mem_loadEntries_cases {l : InputLoad} {a b : Nat}
    (h : (a, b) ∈ loadEntries primitiveIdPerPrimitive l) :
    (l.isDistance ∧ a = l.base) ∨
      (l.isVarying ∧ ∃ slot < l.numSlots, a = l.base + slot) := by
  unfold loadEntries at h
  split at h
  · next hdist => exact .inl ⟨hdist, congrArg Prod.fst (List.mem_singleton.mp h)⟩
  · split at h
    · next hvary =>
      obtain ⟨slot, hslot, heq⟩ := List.mem_map.mp h
      exact .inr ⟨hvary, slot, List.mem_range.mp hslot, (congrArg Prod.fst heq).symm⟩
    · exact absurd h List.not_mem_nil

variable {fs numInputs primitiveIdPerPrimitive} in
theorem LoadOk.entry_lt {l : InputLoad} (hok : LoadOk fs numInputs l) {a b : Nat}
    (h : (a, b) ∈ loadEntries primitiveIdPerPrimitive l) : a < numInputs := by
  rcases mem_loadEntries_cases h with ⟨hdist, rfl⟩ | ⟨hvary, slot, hslot, rfl⟩
  · exact (hok.distance hdist).2.1
  · exact (hok.varying hvary slot hslot).1

/-- **When `build_input_semantics` succeeds, and with which words**: every load passes its
checks, and the words are the entries of the loads and nothing else. -/
theorem buildInputSemantics_eq_some_iff {loads : List InputLoad} {info : PsInfo}
    {words : List Nat} :
    buildInputSemantics fs loads info primitiveIdPerPrimitive = some words ↔
      info.numInputs ≤ maxSemantics ∧ info.masks.any = false ∧
      (∀ l ∈ loads, LoadOk fs info.numInputs l) ∧ words.length = info.numInputs ∧
      ∀ a b, words[a]? = some b ↔ ∃ l ∈ loads, (a, b) ∈ loadEntries primitiveIdPerPrimitive l := by
  have hfold : ∀ t' : AttributeWords,
      loads.foldlM (recordLoad fs info.numInputs primitiveIdPerPrimitive) (fun _ => none) =
        some t' ↔ (∀ l ∈ loads, LoadOk fs info.numInputs l) ∧
          ∀ a b, t' a = some b ↔ ∃ l ∈ loads, (a, b) ∈ loadEntries primitiveIdPerPrimitive l := by
    intro t'
    rw [foldlM_guard _ _ _ fun l _ t t' =>
      recordLoad_eq_some_iff fs info.numInputs primitiveIdPerPrimitive l, recordAll_eq_some_iff]
    simp [List.mem_flatMap]
  unfold buildInputSemantics
  split
  · next hmax => exact iff_of_false (by simp) fun h => absurd h.1 (not_le.mpr hmax)
  · next hmax =>
    split
    · next hmask =>
      exact iff_of_false (by simp) fun h => absurd (h.2.1.symm.trans hmask) (by decide)
    · next hmask =>
      rw [and_iff_right (not_lt.mp hmax), and_iff_right (Bool.eq_false_iff.mpr hmask)]
      simp only [Option.bind_eq_bind, Option.bind_eq_some_iff, hfold, mapM_range_eq_some_iff]
      constructor
      · rintro ⟨t, ⟨hok, ht⟩, hlen, hread⟩
        refine ⟨hok, hlen, fun a b => ?_⟩
        rw [← ht]
        by_cases ha : a < info.numInputs
        · rw [hread a ha]
        · -- no load has an entry past the attributes
          rw [List.getElem?_eq_none (by omega)]
          refine iff_of_false (by simp) fun htab => ha ?_
          obtain ⟨l, hl, hentry⟩ := (ht a b).mp htab
          exact (hok l hl).entry_lt hentry
      · rintro ⟨hok, hlen, hwords⟩
        exact ⟨fun a => words[a]?, ⟨hok, hwords⟩, hlen, fun _ _ => rfl⟩

end

end Psbc.Linkage
