import Psbc.Linkage.InputSemantics

/-!
# Pairing producer and consumer words

The AGC linker pairs a pixel input word with the producer word that has the same key.
The viewport index has key 49, and so has the second packed distance register: a stage
that exports both publishes two words with one key. Every other combination of exports
has distinct keys (`nodup_wordKey_iff`), and then each input word finds exactly the word of
the slot it reads.
-/

namespace Psbc.Linkage

open Mask VaryingSlot

/-- The slots a pixel stage reads at an attribute: user locations, the primitive id and
packed distance registers. -/
def IsSource (loads : List InputLoad) (a slot : Nat) : Prop :=
  ∃ l ∈ loads, (l.isVarying ∨ l.isDistance) ∧
    ∃ k < l.numSlots, l.base + k = a ∧ l.location + k = slot

/-- The producer's keys are distinct, and every input word whose source is exported has
exactly one partner, which carries the index of that source. -/
def Unambiguous (out : VsOutputInfo) (outWords : List Nat) (loads : List InputLoad)
    (inWords : List Nat) : Prop :=
  (outWords.map wordKey).Nodup ∧
  ∀ (a word slot : Nat), inWords[a]? = some word → IsSource loads a slot →
    out.vsOutputParamOffset slot ≠ paramUndefined →
    ∃ partner, outWords.filter (fun w => wordKey w == wordKey word) = [partner] ∧
      wordParameter partner = out.vsOutputParamOffset slot

section

variable {out : VsOutputInfo}

theorem Names.codes {key slot : Nat} (h : Names out key slot) :
    32 ≤ slot ∧ slot < 64 ∧ key + 17 = slot ∨ slot = 21 ∧ key = 47 ∨ slot = 23 ∧ key = 49 ∨
      17 ≤ slot ∧ slot < 21 ∧ key = slot + 31 := by
  cases h with
  | generic i hi =>
    replace hi : i < 32 := hi
    show 32 ≤ 32 + i ∧ 32 + i < 64 ∧ 15 + i + 17 = 32 + i ∨ _
    omega
  | primitiveId => decide
  | viewport => decide
  | distance r hr =>
    have hle := distanceRegisters_le out
    show _ ∨ _ ∨ _ ∨ 17 ≤ 17 + r ∧ 17 + r < 21 ∧ 48 + r = 17 + r + 31
    omega

/-- Only the viewport index and the second distance register share a key. -/
theorem slot_eq_of_names {key s s' : Nat} (h : Names out key s) (h' : Names out key s') :
    s = s' ∨ s = viewport ∧ s' = clipDist1 ∨ s = clipDist1 ∧ s' = viewport := by
  have hs := h.codes
  have hs' := h'.codes
  show s = s' ∨ s = 23 ∧ s' = 18 ∨ s = 18 ∧ s' = 23
  omega

/-- The keys of the words are distinct unless both are named. -/
theorem nodup_outputKey_iff :
    ((namedSlots out).map outputKey).Nodup ↔
      ¬ (viewport ∈ namedSlots out ∧ clipDist1 ∈ namedSlots out) := by
  constructor
  · rintro hnodup ⟨hview, hdist⟩
    have hsame := List.inj_on_of_nodup_map hnodup hview hdist rfl
    exact absurd hsame (by decide)
  · intro hnot
    refine nodup_namedSlots.map_on fun s hs s' hs' hkey => ?_
    rcases slot_eq_of_names (names_of_mem hs) (hkey ▸ names_of_mem hs') with
      h | ⟨rfl, rfl⟩ | ⟨rfl, rfl⟩
    · exact h
    · exact absurd ⟨hs, hs'⟩ hnot
    · exact absurd ⟨hs', hs⟩ hnot

theorem map_wordKey_slotWord :
    ((namedSlots out).map (slotWord out)).map wordKey = (namedSlots out).map outputKey := by
  rw [List.map_map]
  exact List.map_congr_left fun slot hslot => (slotWord_of_mem hslot).1

theorem filter_wordKey_eq {slot key : Nat} (hnodup : ((namedSlots out).map outputKey).Nodup)
    (hslot : slot ∈ namedSlots out) (hkey : outputKey slot = key) :
    ((namedSlots out).map (slotWord out)).filter (fun w => wordKey w == key) =
      [slotWord out slot] := by
  subst hkey
  rw [List.filter_map]
  have hfilter : (namedSlots out).filter ((fun w => wordKey w == outputKey slot) ∘ slotWord out) =
      (namedSlots out).filter (· == slot) := by
    refine List.filter_congr fun s hs => ?_
    rw [Function.comp_apply, (slotWord_of_mem hs).1, Bool.eq_iff_iff, beq_iff_eq, beq_iff_eq]
    exact ⟨fun h => List.inj_on_of_nodup_map hnodup hs hslot h, congrArg outputKey⟩
  rw [hfilter, List.filter_beq, List.count_eq_one_of_mem nodup_namedSlots hslot]
  rfl

theorem clipDist1_mem_namedSlots_iff :
    clipDist1 ∈ namedSlots out ↔ 4 < popcount out.clipDistMask + popcount out.cullDistMask := by
  have hregs : 4 < popcount out.clipDistMask + popcount out.cullDistMask ↔
      1 < distanceRegisters out := by
    unfold distanceRegisters
    omega
  rw [hregs]
  constructor
  · intro hmem
    obtain ⟨key, slot, hslot, hnames⟩ : ∃ key slot, clipDist1 = slot ∧ Names out key slot :=
      ⟨_, _, rfl, names_of_mem hmem⟩
    cases hnames with
    | generic i hi => exact absurd hslot (by show 18 ≠ 32 + i; omega)
    | primitiveId => exact absurd hslot (by decide)
    | viewport => exact absurd hslot (by decide)
    | distance r hr =>
      have hone : 18 = 17 + r := hslot
      omega
  · intro hr
    simp only [namedSlots, List.mem_append, List.mem_map, List.mem_range]
    exact Or.inr ⟨1, hr, rfl⟩

end

/-! ## The pixel side -/

theorem wordKey_of_isSource {fs : FragmentShader} {primitiveIdPerPrimitive : Bool}
    {loads : List InputLoad} {info : PsInfo} {inWords : List Nat}
    (h : inputSemantics fs primitiveIdPerPrimitive = some (loads, info, inWords))
    {a word slot : Nat} (hword : inWords[a]? = some word) (hsource : IsSource loads a slot) :
    wordKey word = outputKey slot := by
  obtain ⟨-, hbuild⟩ := inputSemantics_eq_some.mp h
  obtain ⟨-, -, hok, -, hwords⟩ := (buildInputSemantics_eq_some_iff ..).mp hbuild
  obtain ⟨l, hmem, hkind, k, hk, rfl, rfl⟩ := hsource
  replace hok := hok l hmem
  rcases hkind with hvary | hdist
  · have hentry := (hwords _ _).mpr ⟨l, hmem, mem_loadEntries_of_varying hvary hk⟩
    rw [hword, Option.some.injEq] at hentry
    rw [hentry, (hok.slotInputWord primitiveIdPerPrimitive hvary hk).1, inputKey]
    split
    · next hprim =>
      obtain rfl : k = 0 := by have := (hok.primId hprim).1; omega
      rw [hprim]
      rfl
    · next hprim =>
      have hle : var0 ≤ l.location := hvary.resolve_left hprim
      rw [outputKey, if_pos (by omega), Nat.sub_add_comm hle]
  · obtain rfl : k = 0 := by have := (hok.distance hdist).1; omega
    have hentry : inWords[l.base]? =
        some (semanticDistanceRegister + (l.location - clipDist0)) :=
      (hwords _ _).mpr ⟨l, hmem, by rw [loadEntries, if_pos hdist]; exact List.mem_singleton_self _⟩
    rw [Nat.add_zero, hentry, Option.some.injEq] at hword
    rw [← hword]
    rcases hdist with hd | hd <;> rw [hd] <;> decide

/-! ## The pair -/

theorem viewport_mem_exportedSlots {nir : NirOutputs} {exportPrimId exportClipCullDists : Bool} :
    viewport ∈ exportedSlots nir exportPrimId exportClipCullDists ↔
      nir.outputsWritten.getLsbD viewport = true := by
  have hne : ¬ viewport = primitiveId ∧ viewport ∉ distanceSlots nir exportClipCullDists :=
    ⟨by decide, fun h => absurd (Finset.mem_filter.mp h).1 (by decide)⟩
  have hparam : isParam viewport = true ∧ viewport < varyingSlotMax := by decide
  simp [exportedSlots, hne, hparam]

/-- **When producer and consumer pair unambiguously**: unless the stage writes the viewport
index and uses more than four distance components. -/
theorem unambiguous_iff (nir : NirOutputs)
    (isNgg exportPrimId exportClipCullDists omitImplicitPrimitiveId : Bool)
    (outinfo : VsOutputInfo) (fs : FragmentShader) (primitiveIdPerPrimitive : Bool)
    {outWords : List Nat} {loads : List InputLoad} {info : PsInfo} {inWords : List Nat}
    (hout : fillOutputSemantics (linkedOutinfo nir isNgg exportPrimId exportClipCullDists
      omitImplicitPrimitiveId outinfo) = (outWords, true))
    (hin : inputSemantics fs primitiveIdPerPrimitive = some (loads, info, inWords)) :
    Unambiguous (linkedOutinfo nir isNgg exportPrimId exportClipCullDists
        omitImplicitPrimitiveId outinfo) outWords loads inWords ↔
      ¬ (nir.outputsWritten.getLsbD viewport = true ∧
        4 < popcount outinfo.clipDistMask + popcount outinfo.cullDistMask) := by
  obtain ⟨hclip, hcull⟩ := linkedOutinfo_masks nir isNgg exportPrimId exportClipCullDists
    omitImplicitPrimitiveId outinfo
  obtain ⟨S, hS, hslots⟩ := linkedOutinfo_exports nir isNgg exportPrimId exportClipCullDists
    omitImplicitPrimitiveId outinfo
  rw [← hclip, ← hcull]
  generalize linkedOutinfo nir isNgg exportPrimId exportClipCullDists omitImplicitPrimitiveId
    outinfo = out at hout hS
  obtain ⟨rfl, hfits, -⟩ := fillOutputSemantics_named hout
  have hnamed : ∀ slot, out.vsOutputParamOffset slot ≠ paramUndefined ↔ slot ∈ namedSlots out :=
    fun slot => ⟨(fillOutputSemantics_complete hS hout).2 slot,
      fun h => ((hfits slot h).trans (by decide)).ne⟩
  have hview : viewport ∈ namedSlots out ↔ nir.outputsWritten.getLsbD viewport = true := by
    rw [← hnamed, ← viewport_mem_exportedSlots, ← hslots viewport (by decide)]
    exact hS.mem_iff viewport
  rw [← hview, ← clipDist1_mem_namedSlots_iff, ← nodup_outputKey_iff]
  unfold Unambiguous
  rw [map_wordKey_slotWord]
  refine ⟨And.left, fun hnodup => ⟨hnodup, fun a word slot hword hsource hexp => ?_⟩⟩
  have hmem := (hnamed slot).mp hexp
  refine ⟨slotWord out slot, ?_, (slotWord_of_mem hmem).2⟩
  exact filter_wordKey_eq hnodup hmem (wordKey_of_isSource hin hword hsource).symm

theorem unambiguous_viewportGeometry_mixedShader :
    ∃ outWords loads info inWords,
      fillOutputSemantics (linkedOutinfo viewportGeometry true true true false freshOutinfo) =
        (outWords, true) ∧
      inputSemantics mixedShader true = some (loads, info, inWords) ∧
      Unambiguous (linkedOutinfo viewportGeometry true true true false freshOutinfo) outWords loads
        inWords := by
  have hout : fillOutputSemantics
      (linkedOutinfo viewportGeometry true true true false freshOutinfo) =
      ([271, 529, 49], true) := by decide +kernel
  have hin : inputSemantics mixedShader true =
      some ([⟨.loadInput, primitiveId, 1, 2⟩, ⟨.loadInterpolatedInput, var0, 1, 0⟩,
        ⟨.loadInput, var0, 1, 1⟩], ⟨3, true, ⟨0, 0, 0, 0, 0⟩⟩, [15, 15 ||| flatBit, 47]) := by
    decide +kernel
  exact ⟨_, _, _, _, hout, hin,
    (unambiguous_iff viewportGeometry true true true false freshOutinfo mixedShader true hout
      hin).mpr (by decide +kernel)⟩

/-- A geometry stage that writes the viewport index and both distance registers. -/
def viewportDistanceGeometry : NirOutputs where
  stage := .geometry
  outputsWritten := varyingBit var0 ||| varyingBit viewport ||| varyingBit clipDist0 |||
    varyingBit clipDist1
  perPrimitiveOutputs := 0

def eightClipOutinfo : VsOutputInfo := { freshOutinfo with clipDistMask := 0xff }

/-- A pixel stage that reads the fifth clip distance. -/
def clipDistanceShader : FragmentShader where
  loads := [⟨.loadInterpolatedInput, clipDist1, 1, 0⟩]
  masks := ⟨0, 0, 0, 0, 0⟩
  clipDistanceArraySize := 8
  cullDistanceArraySize := 0

/-- The pixel stage's word has two partners, and the first carries the parameter of the
viewport index. -/
theorem viewport_distance_ambiguous :
    let out := linkedOutinfo viewportDistanceGeometry true true true false eightClipOutinfo
    let outWords := [271, 49, 560, 817]
    fillOutputSemantics out = (outWords, true) ∧
      inputSemantics clipDistanceShader false =
        some ([⟨.loadInterpolatedInput, clipDist1, 1, 0⟩], ⟨1, false, ⟨0, 0, 0, 0, 0⟩⟩, [49]) ∧
      outWords.filter (fun w => wordKey w == wordKey 49) = [49, 817] ∧
      out.vsOutputParamOffset viewport = wordParameter 49 ∧
      out.vsOutputParamOffset clipDist1 = wordParameter 817 ∧
      ¬ Unambiguous out outWords [⟨.loadInterpolatedInput, clipDist1, 1, 0⟩] [49] := by
  refine ⟨by decide +kernel, by decide +kernel, by decide, by decide +kernel, by decide +kernel, ?_⟩
  intro h
  exact absurd h.1 (by decide)

end Psbc.Linkage
