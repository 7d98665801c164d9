import Psbc.Linkage.Inputs

/-!
# Pixel input words describe every reader

The three steps of `Psbc.Linkage.Inputs` in a row (`inputSemantics`). The checks of the
last step already force loads of one attribute to agree on location and mode; the first
two decide where a per-primitive primitive id ends up. No step depends on the order of
the loads (`inputSemantics_perm`).
-/

namespace Psbc.Linkage

open VaryingSlot

/-- Bases, aliases for flat loads, words. -/
def inputSemantics (fs : FragmentShader) (primitiveIdPerPrimitive : Bool) :
    Option (List InputLoad × PsInfo × List Nat) := do
  let (loads, info) ← splitPs5MixedInputs (nirRecomputeIoBases fs.loads) fs.info
    primitiveIdPerPrimitive
  let words ← buildInputSemantics fs loads info primitiveIdPerPrimitive
  return (loads, info, words)

/-! ## Keys and the flat bit -/

/-- The key of one slot of a user location or of the primitive id. -/
def inputKey (l : InputLoad) (slot : Nat) : Nat :=
  if l.location = primitiveId then semanticPrimitiveId
  else semanticGeneric + (l.location - var0 + slot)

def isFlatWord (word : Nat) : Bool := word.testBit 22

theorem wordKey_or_flatBit {key : Nat} (hkey : key < 256) :
    wordKey (key ||| flatBit) = key ∧ isFlatWord (key ||| flatBit) = true := by
  have hadd : key ||| flatBit = 1 * 2 ^ 22 + key := by
    rw [Nat.or_comm, show flatBit = 1 <<< 22 from rfl,
      ← Nat.shiftLeft_add_eq_or_of_lt (i := 22) (by omega), Nat.shiftLeft_eq]
  constructor
  · rw [wordKey, hadd]
    omega
  · rw [isFlatWord, Nat.testBit_or, show Nat.testBit flatBit 22 = true by decide, Bool.or_true]

theorem wordKey_of_lt {key : Nat} (hkey : key < 256) :
    wordKey key = key ∧ isFlatWord key = false := by
  constructor
  · exact Nat.mod_eq_of_lt hkey
  · exact Nat.testBit_lt_two_pow (hkey.trans (by decide))

variable {fs : FragmentShader} {primitiveIdPerPrimitive : Bool} {n : Nat} {l : InputLoad}

theorem LoadOk.inputKey_lt (hok : LoadOk fs n l) (hl : l.isVarying) {slot : Nat}
    (hslot : slot < l.numSlots) : inputKey l slot ≤ semanticPrimitiveId := by
  unfold inputKey
  split
  · exact le_rfl
  · next hne =>
    have := (hok.varying hl slot hslot).2 hne
    show 15 + (l.location - var0 + slot) ≤ 47
    have : l.location - var0 + slot < 32 := this
    omega

variable (primitiveIdPerPrimitive) in
theorem LoadOk.slotInputWord (hok : LoadOk fs n l) (hl : l.isVarying) {slot : Nat}
    (hslot : slot < l.numSlots) :
    wordKey (slotInputWord primitiveIdPerPrimitive l slot) = inputKey l slot ∧
      (isFlatWord (slotInputWord primitiveIdPerPrimitive l slot) = true ↔
        l.mode = 1 ∧ ¬ (l.location = primitiveId ∧ primitiveIdPerPrimitive = true)) := by
  have hkey : inputKey l slot < 256 := (hok.inputKey_lt hl hslot).trans_lt (by decide)
  have hword : Linkage.slotInputWord primitiveIdPerPrimitive l slot =
      if l.mode = 1 ∧ ¬ (l.location = primitiveId ∧ primitiveIdPerPrimitive = true) then
        inputKey l slot ||| flatBit else inputKey l slot := by
    unfold Linkage.slotInputWord inputKey
    by_cases hp : l.location = primitiveId <;> simp [hp]
  rw [hword]
  split
  · next hflat =>
    obtain ⟨hk, hf⟩ := wordKey_or_flatBit hkey
    exact ⟨hk, iff_of_true hf hflat⟩
  · next hflat =>
    obtain ⟨hk, hf⟩ := wordKey_of_lt hkey
    exact ⟨hk, iff_of_false (by simp [hf]) hflat⟩

/-! ## Bases -/

section

variable {loads : List InputLoad}

theorem newBase_primitiveId (hmem : l ∈ loads) (hloc : l.location = primitiveId)
    (hslots : 0 < l.numSlots) : newBase loads l = numNormalInputs loads := by
  have hcovers : perPrimInputs loads l.location = true := by
    simp only [perPrimInputs, Bool.and_eq_true, List.any_eq_true, InputLoad.covers]
    exact ⟨⟨l, hmem, by simpa using hslots⟩, by rw [hloc]; decide⟩
  have hnone : Nat.count (fun i => perPrimInputs loads i = true) primitiveId = 0 := by
    have hlate : ∀ i : Fin 21, isLateInput i = false := by decide
    rw [Nat.count_iff_forall_not]
    intro i hi
    simp [perPrimInputs, hlate ⟨i, hi⟩]
  rw [newBase, if_pos hcovers, hloc, hnone, Nat.add_zero]

theorem newBase_of_not_late (hloc : isLateInput l.location = false) :
    newBase loads l = Nat.count (fun i => inputs loads i = true) l.location := by
  simp [newBase, perPrimInputs, hloc]

theorem isLateInput_of_le {location : Nat} (h : var0 ≤ location) :
    isLateInput location = false := by
  have hle : 32 ≤ location := h
  simp only [isLateInput, Bool.or_eq_false_iff, beq_eq_false_iff_ne]
  exact ⟨⟨by show location ≠ 21; omega, by show location ≠ 23; omega⟩,
    by show location ≠ 22; omega⟩

theorem newBase_add_slot (hmem : l ∈ loads) (hloc : var0 ≤ l.location) {slot : Nat}
    (hslot : slot < l.numSlots) :
    newBase loads l + slot = Nat.count (fun i => inputs loads i = true) (l.location + slot) := by
  rw [newBase_of_not_late (isLateInput_of_le hloc), Nat.count_add]
  congr 1
  refine (Nat.count_of_forall fun k hk => ?_).symm
  have hlate := isLateInput_of_le (hloc.trans (Nat.le_add_right l.location k))
  simp only [inputs, hlate, Bool.not_false, Bool.and_true, List.any_eq_true, InputLoad.covers]
  exact ⟨l, hmem, by simp; omega⟩

/-- Every attribute that a load's words describe is at most that of the primitive id. -/
theorem loadEntries_le_numNormalInputs (hmem : l ∈ loads)
    (hok : LoadOk fs n { l with base := newBase loads l }) {a b : Nat}
    (h : (a, b) ∈ loadEntries primitiveIdPerPrimitive { l with base := newBase loads l }) :
    a ≤ numNormalInputs loads := by
  have hmono := Nat.count_monotone (fun i => inputs loads i = true)
  rcases mem_loadEntries_cases h with ⟨hdist, rfl⟩ | ⟨hvary, slot, hslot, rfl⟩
  · show newBase loads l ≤ _
    have hlate : isLateInput l.location = false ∧ l.location ≤ numTotalVaryingSlots := by
      rcases hdist with hd | hd <;> dsimp only at hd <;> rw [hd] <;> decide
    rw [newBase_of_not_late hlate.1]
    exact hmono hlate.2
  · replace hslot : slot < l.numSlots := hslot
    by_cases hprim : l.location = primitiveId
    · have hslots : l.numSlots = 1 := (hok.primId hprim).1
      have hbase := newBase_primitiveId hmem hprim (by omega)
      show newBase loads l + slot ≤ _
      omega
    · have hloc : var0 ≤ l.location := hvary.resolve_left hprim
      have hfit : l.location - 32 + slot < 32 := (hok.varying hvary slot hslot).2 hprim
      show newBase loads l + slot ≤ _
      rw [newBase_add_slot hmem hloc hslot]
      refine hmono ?_
      show l.location + slot ≤ 112
      omega

end

/-! ## The split -/

/-- Only bases change in the first two steps. -/
def InputLoad.unbased (l : InputLoad) : InputLoad := { l with base := 0 }

theorem remapPs5FlatInput_unbased (state : Ps5MixedInputState) (l : InputLoad) :
    (remapPs5FlatInput state l).unbased = l.unbased := by
  unfold remapPs5FlatInput
  repeat' split
  all_goals rfl

/-- What a successful split does: nothing, or the flat loads are remapped and the
per-primitive id gets the last attribute. -/
theorem splitPs5MixedInputs_cases {loads loads' : List InputLoad} {info info' : PsInfo}
    (h : splitPs5MixedInputs loads info primitiveIdPerPrimitive = some (loads', info')) :
    (loads' = loads ∧ info' = info) ∨
    ∃ state, loads' = loads.map (remapPs5FlatInput state) ∧
      (primitiveIdPerPrimitive = true → info.primIdInput = true →
        ∃ next, state.primitiveIdAttribute = some next ∧ info'.numInputs = next + 1) := by
  simp only [splitPs5MixedInputs, Option.bind_eq_bind, Option.bind_eq_some_iff] at h
  obtain ⟨⟨flat, next⟩, -, ⟨attr, next'⟩, hprim, h⟩ := h
  dsimp only at hprim h
  split at h
  · left
    simpa [eq_comm] using h
  · right
    simp only [Option.some.injEq, Prod.mk.injEq] at h
    obtain ⟨rfl, rfl⟩ := h
    refine ⟨_, rfl, fun hopt hin => ?_⟩
    simp only [allocPrimitiveId, hopt, hin, Bool.and_self, if_true] at hprim
    split at hprim
    · cases hprim
    · simp only [Option.some.injEq, Prod.mk.injEq] at hprim
      obtain ⟨rfl, rfl⟩ := hprim
      exact ⟨next, rfl, rfl⟩

theorem splitPs5MixedInputs_unbased {loads loads' : List InputLoad} {info info' : PsInfo}
    (h : splitPs5MixedInputs loads info primitiveIdPerPrimitive = some (loads', info')) :
    loads'.map InputLoad.unbased = loads.map InputLoad.unbased := by
  obtain ⟨rfl, -⟩ | ⟨state, rfl, -⟩ := splitPs5MixedInputs_cases h
  · rfl
  · rw [List.map_map]
    exact List.map_congr_left fun l _ => remapPs5FlatInput_unbased state l

theorem inputSemantics_eq_some {loads : List InputLoad} {info : PsInfo} {words : List Nat} :
    inputSemantics fs primitiveIdPerPrimitive = some (loads, info, words) ↔
      splitPs5MixedInputs (nirRecomputeIoBases fs.loads) fs.info primitiveIdPerPrimitive =
        some (loads, info) ∧
      buildInputSemantics fs loads info primitiveIdPerPrimitive = some words := by
  simp only [inputSemantics, Option.bind_eq_bind, Option.bind_eq_some_iff, Option.pure_def,
    Option.some.injEq, Prod.mk.injEq, Prod.exists]
  constructor
  · rintro ⟨_, _, hsplit, _, hbuild, rfl, rfl, rfl⟩
    exact ⟨hsplit, hbuild⟩
  · rintro ⟨hsplit, hbuild⟩
    exact ⟨_, _, hsplit, _, hbuild, rfl, rfl, rfl⟩

theorem primitiveId_last {loads : List InputLoad} {info : PsInfo} {words : List Nat}
    (h : inputSemantics fs true = some (loads, info, words)) (hmem : l ∈ loads)
    (hloc : l.location = primitiveId) : l.base + 1 = info.numInputs := by
  obtain ⟨hsplit, hbuild⟩ := inputSemantics_eq_some.mp h
  obtain ⟨-, -, hok, hlen, hwords⟩ := (buildInputSemantics_eq_some_iff fs true).mp hbuild
  obtain ⟨hslots, hmode⟩ := (hok l hmem).primId hloc
  rcases splitPs5MixedInputs_cases hsplit with ⟨rfl, rfl⟩ | ⟨state, rfl, hlast⟩
  · -- no attribute lies past the primitive id, and every attribute is described
    obtain ⟨l₀, hmem₀, rfl⟩ := List.mem_map.mp hmem
    have hbase : newBase fs.loads l₀ = numNormalInputs fs.loads :=
      newBase_primitiveId hmem₀ hloc (by simp only at hslots; omega)
    have hlt := ((hok _ hmem).varying (Or.inl hloc) 0 (by omega)).1
    have hlast : fs.info.numInputs - 1 < words.length := by omega
    obtain ⟨l', hmem', hentry⟩ := (hwords _ _).mp (List.getElem?_eq_getElem hlast)
    obtain ⟨l₁, hmem₁, rfl⟩ := List.mem_map.mp hmem'
    have hle := loadEntries_le_numNormalInputs hmem₁ (hok _ hmem') hentry
    simp only at hlt ⊢
    omega
  · obtain ⟨l₀, hmem₀, rfl⟩ := List.mem_map.mp hmem
    have hsame : l₀.location = primitiveId ∧ l₀.numSlots = 1 ∧ l₀.mode = 1 := by
      have hunbased := remapPs5FlatInput_unbased state l₀
      simp only [InputLoad.unbased, InputLoad.mk.injEq] at hunbased
      refine ⟨hunbased.2.1 ▸ hloc, hunbased.2.2.1 ▸ hslots, ?_⟩
      rw [InputLoad.mode, ← hunbased.1]
      exact hmode
    obtain ⟨hloc₀, hslots₀, hmode₀⟩ := hsame
    have hread : fs.info.primIdInput = true := by
      obtain ⟨l₁, hmem₁, rfl⟩ := List.mem_map.mp hmem₀
      simp only [FragmentShader.info, inputsRead, List.any_eq_true, InputLoad.covers]
      simp only at hloc₀ hslots₀
      exact ⟨l₁, hmem₁, by simp [hloc₀, hslots₀]⟩
    obtain ⟨next, hattr, hnum⟩ := hlast rfl hread
    have hremap : remapPs5FlatInput state l₀ = { l₀ with base := next } := by
      simp [remapPs5FlatInput, hmode₀, hloc₀, hattr]
    rw [hremap, hnum]

/-! ## Independence of the order of the loads -/

section

variable {loads₁ loads₂ : List InputLoad}

theorem classifiedModes_perm (h : loads₁.Perm loads₂) :
    classifiedModes loads₁ = classifiedModes loads₂ := by
  funext location
  refine h.foldl_eq' (fun l _ l' _ m => ?_) 0
  unfold classifyPs5Input
  split <;> split <;> simp only [BitVec.or_assoc, BitVec.or_comm l.mode]

/-- The split depends on the loads as a set, and treats each load alike. -/
theorem splitPs5MixedInputs_perm (h : loads₁.Perm loads₂) (info : PsInfo)
    (primitiveIdPerPrimitive : Bool) :
    ∃ plan : Option ((InputLoad → InputLoad) × PsInfo),
      splitPs5MixedInputs loads₁ info primitiveIdPerPrimitive =
        plan.map (fun p => (loads₁.map p.1, p.2)) ∧
      splitPs5MixedInputs loads₂ info primitiveIdPerPrimitive =
        plan.map (fun p => (loads₂.map p.1, p.2)) := by
  simp only [splitPs5MixedInputs, classifiedModes_perm h, Option.bind_eq_bind]
  cases (List.range maxSemantics).foldlM (allocFlatAttribute (classifiedModes loads₂))
    (fun _ => 255, info.numInputs - (primitiveIdPerPrimitive && info.primIdInput).toNat) with
  | none => exact ⟨none, rfl, rfl⟩
  | some flat =>
    simp only [Option.bind_some]
    cases allocPrimitiveId (primitiveIdPerPrimitive && info.primIdInput) flat.2 with
    | none => exact ⟨none, rfl, rfl⟩
    | some attr =>
      simp only [Option.bind_some]
      split
      · exact ⟨some (id, info), by simp, by simp⟩
      · exact ⟨some (_, _), rfl, rfl⟩

theorem nirRecomputeIoBases_perm (h : loads₁.Perm loads₂) :
    (nirRecomputeIoBases loads₁).Perm (nirRecomputeIoBases loads₂) := by
  have hinputs : inputs loads₁ = inputs loads₂ := by
    funext location
    rw [inputs, inputs, h.any_eq]
  have hprim : perPrimInputs loads₁ = perPrimInputs loads₂ := by
    funext location
    rw [perPrimInputs, perPrimInputs, h.any_eq]
  have hbase : newBase loads₁ = newBase loads₂ := by
    funext l
    simp only [newBase, numNormalInputs, hinputs, hprim]
  unfold nirRecomputeIoBases
  rw [hbase]
  exact h.map _

theorem info_perm (fs : FragmentShader) (h : loads₂.Perm fs.loads) :
    ({ fs with loads := loads₂ } : FragmentShader).info = fs.info := by
  have hread : inputsRead loads₂ = inputsRead fs.loads := by
    funext location
    rw [inputsRead, inputsRead, h.any_eq]
  simp only [FragmentShader.info, hread]

theorem buildInputSemantics_perm (fs : FragmentShader) (loads' : List InputLoad)
    (h : loads₁.Perm loads₂) (info : PsInfo) (primitiveIdPerPrimitive : Bool) :
    buildInputSemantics { fs with loads := loads' } loads₁ info primitiveIdPerPrimitive =
      buildInputSemantics fs loads₂ info primitiveIdPerPrimitive := by
  have hok : ∀ l, LoadOk { fs with loads := loads' } info.numInputs l ↔
      LoadOk fs info.numInputs l := fun l =>
    ⟨fun h => ⟨h.primId, h.notCull, h.distance, h.varying⟩,
      fun h => ⟨h.primId, h.notCull, h.distance, h.varying⟩⟩
  refine Option.ext fun words => ?_
  rw [buildInputSemantics_eq_some_iff, buildInputSemantics_eq_some_iff]
  simp only [hok, h.mem_iff]

/-- **The words do not depend on the order of the loads.** -/
theorem inputSemantics_perm (fs : FragmentShader) (h : loads₂.Perm fs.loads)
    (primitiveIdPerPrimitive : Bool) :
    (inputSemantics { fs with loads := loads₂ } primitiveIdPerPrimitive).map (·.2.2) =
      (inputSemantics fs primitiveIdPerPrimitive).map (·.2.2) := by
  have hbases := nirRecomputeIoBases_perm h
  obtain ⟨plan, hsplit₂, hsplit⟩ :=
    splitPs5MixedInputs_perm hbases fs.info primitiveIdPerPrimitive
  unfold inputSemantics
  rw [info_perm fs h, hsplit₂, hsplit]
  cases plan with
  | none => rfl
  | some p =>
    dsimp only [Option.map_some, Option.bind_eq_bind, Option.bind_some]
    rw [buildInputSemantics_perm fs loads₂ (hbases.map p.1)]
    generalize buildInputSemantics fs _ _ _ = words
    cases words <;> rfl

end

/-! ## Every reader -/

theorem mem_loadEntries_of_varying (hl : l.isVarying) {slot : Nat} (hslot : slot < l.numSlots) :
    (l.base + slot, slotInputWord primitiveIdPerPrimitive l slot) ∈
      loadEntries primitiveIdPerPrimitive l := by
  unfold loadEntries
  rw [if_neg fun hd => hd.not_varying hl, if_pos hl]
  exact List.mem_map_of_mem (List.mem_range.mpr hslot)

/-- Every entry is at an attribute the load reads. -/
theorem LoadOk.entry_slot (hok : LoadOk fs n l) {a b : Nat}
    (h : (a, b) ∈ loadEntries primitiveIdPerPrimitive l) :
    ∃ slot < l.numSlots, l.base + slot = a := by
  rcases mem_loadEntries_cases h with ⟨hdist, rfl⟩ | ⟨-, slot, hslot, rfl⟩
  · exact ⟨0, by rw [(hok.distance hdist).1]; decide, rfl⟩
  · exact ⟨slot, hslot, rfl⟩

theorem InputLoad.mode_cases (l : InputLoad) : l.mode = 1 ∨ l.mode = 2 := by
  unfold InputLoad.mode
  cases l.intrinsic <;> decide

theorem LoadOk.slotInputWord_inj {l' : InputLoad} (hok : LoadOk fs n l) (hok' : LoadOk fs n l')
    (hl : l.isVarying) (hl' : l'.isVarying) {slot slot' : Nat} (hslot : slot < l.numSlots)
    (hslot' : slot' < l'.numSlots)
    (h : Linkage.slotInputWord primitiveIdPerPrimitive l slot =
      Linkage.slotInputWord primitiveIdPerPrimitive l' slot') :
    l.location + slot = l'.location + slot' ∧ l.mode = l'.mode := by
  obtain ⟨hkey, hflat⟩ := hok.slotInputWord primitiveIdPerPrimitive hl hslot
  obtain ⟨hkey', hflat'⟩ := hok'.slotInputWord primitiveIdPerPrimitive hl' hslot'
  rw [h, hkey'] at hkey
  rw [h, hflat'] at hflat
  have hgeneric : ∀ {l : InputLoad} {slot}, LoadOk fs n l → l.isVarying → slot < l.numSlots →
      l.location ≠ primitiveId →
      inputKey l slot + 17 = l.location + slot ∧ inputKey l slot < semanticPrimitiveId := by
    intro l slot hok hl hslot hne
    have hfit : l.location - 32 + slot < 32 := (hok.varying hl slot hslot).2 hne
    have hle : 32 ≤ l.location := hl.resolve_left hne
    rw [inputKey, if_neg hne]
    show 15 + (l.location - 32 + slot) + 17 = _ ∧ 15 + (l.location - 32 + slot) < 47
    omega
  by_cases hp : l.location = primitiveId <;> by_cases hp' : l'.location = primitiveId
  · obtain ⟨hslots, hmode⟩ := hok.primId hp
    obtain ⟨hslots', hmode'⟩ := hok'.primId hp'
    exact ⟨by omega, hmode.trans hmode'.symm⟩
  · have hlt := (hgeneric hok' hl' hslot' hp').2
    rw [hkey, inputKey, if_pos hp] at hlt
    exact absurd hlt (lt_irrefl _)
  · have hlt := (hgeneric hok hl hslot hp).2
    rw [← hkey, inputKey, if_pos hp'] at hlt
    exact absurd hlt (lt_irrefl _)
  · have hloc := (hgeneric hok hl hslot hp).1
    have hloc' := (hgeneric hok' hl' hslot' hp').1
    refine ⟨by omega, ?_⟩
    simp only [hp, hp', false_and, not_false_eq_true, and_true] at hflat
    rcases l.mode_cases with hm | hm <;> rcases l'.mode_cases with hm' | hm' <;>
      simp_all

/-- **The words describe every reader.** -/
theorem inputSemantics_describes_readers {loads : List InputLoad} {info : PsInfo}
    {words : List Nat}
    (h : inputSemantics fs primitiveIdPerPrimitive = some (loads, info, words)) :
    loads.map InputLoad.unbased = fs.loads.map InputLoad.unbased ∧
    words.length = info.numInputs ∧
    (∀ a < info.numInputs, ∃ l ∈ loads, ∃ slot < l.numSlots, l.base + slot = a) ∧
    (∀ l ∈ loads, l.isVarying → ∀ slot < l.numSlots, ∃ word,
      words[l.base + slot]? = some word ∧ wordKey word = inputKey l slot ∧
      (isFlatWord word = true ↔
        l.mode = 1 ∧ ¬ (l.location = primitiveId ∧ primitiveIdPerPrimitive = true))) ∧
    (∀ l ∈ loads, ∀ l' ∈ loads, l.isVarying → l'.isVarying →
      ∀ slot < l.numSlots, ∀ slot' < l'.numSlots, l.base + slot = l'.base + slot' →
      l.location + slot = l'.location + slot' ∧ l.mode = l'.mode) ∧
    (primitiveIdPerPrimitive = true → ∀ l ∈ loads, l.location = primitiveId →
      l.base + 1 = info.numInputs) ∧
    ∀ loads₂ : List InputLoad, loads₂.Perm fs.loads →
      (inputSemantics { fs with loads := loads₂ } primitiveIdPerPrimitive).map (·.2.2) =
        some words := by
  obtain ⟨hsplit, hbuild⟩ := inputSemantics_eq_some.mp h
  obtain ⟨-, -, hok, hlen, hwords⟩ := (buildInputSemantics_eq_some_iff ..).mp hbuild
  have hword : ∀ l ∈ loads, l.isVarying → ∀ slot < l.numSlots,
      words[l.base + slot]? = some (slotInputWord primitiveIdPerPrimitive l slot) :=
    fun l hmem hl slot hslot =>
      (hwords _ _).mpr ⟨l, hmem, mem_loadEntries_of_varying hl hslot⟩
  refine ⟨?_, hlen, fun a ha => ?_, fun l hmem hl slot hslot => ?_, ?_, ?_, ?_⟩
  · rw [splitPs5MixedInputs_unbased hsplit, nirRecomputeIoBases, List.map_map]
    rfl
  · obtain ⟨l, hmem, hentry⟩ := (hwords a _).mp (List.getElem?_eq_getElem (hlen ▸ ha))
    exact ⟨l, hmem, (hok l hmem).entry_slot hentry⟩
  · exact ⟨_, hword l hmem hl slot hslot, (hok l hmem).slotInputWord _ hl hslot⟩
  · intro l hmem l' hmem' hl hl' slot hslot slot' hslot' hbase
    have hsame := hword l hmem hl slot hslot
    rw [hbase, hword l' hmem' hl' slot' hslot'] at hsame
    exact (hok l hmem).slotInputWord_inj (hok l' hmem') hl hl' hslot hslot'
      (Option.some.inj hsame).symm
  · rintro rfl l hmem hloc
    exact primitiveId_last h hmem hloc
  · intro loads₂ hperm
    rw [inputSemantics_perm fs hperm, h]
    rfl

/-- A shader that reads one location both ways and a per-primitive primitive id. -/
def mixedShader : FragmentShader where
  loads := [⟨.loadInput, primitiveId, 1, 0⟩, ⟨.loadInterpolatedInput, var0, 1, 0⟩,
    ⟨.loadInput, var0, 1, 0⟩]
  masks := ⟨0, 0, 0, 0, 0⟩
  clipDistanceArraySize := 0
  cullDistanceArraySize := 0

theorem inputSemantics_describes_readers_mixedShader :
    (inputSemantics mixedShader true).map (·.2.2) = some [15, 15 ||| flatBit, 47] ∧
      [15, 15 ||| flatBit, 47].length = 3 := by
  have h : inputSemantics mixedShader true =
      some ([⟨.loadInput, primitiveId, 1, 2⟩, ⟨.loadInterpolatedInput, var0, 1, 0⟩,
        ⟨.loadInput, var0, 1, 1⟩], ⟨3, true, ⟨0, 0, 0, 0, 0⟩⟩, [15, 15 ||| flatBit, 47]) := by
    decide +kernel
  exact ⟨by rw [h]; rfl, (inputSemantics_describes_readers h).2.1⟩

end Psbc.Linkage
