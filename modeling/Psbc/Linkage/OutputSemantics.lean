import Psbc.Lib.Fallible
import Psbc.Linkage.Outputs

/-!
# The output semantic words

`fill_output_semantics` (`psbc_compile.c`) names each exported parameter for the AGC
linker. A word carries a matching key in its low byte and the parameter index above
it. The only guard on the list is that it is as long as the export count.

`fillOutputSemantics_named` gives the words of a successful call as a map over the
named slots; with the numbering of `Psbc.Linkage.Outputs` equal counts then make the
list a bijection with the parameters.
-/

namespace Psbc.Linkage

open Fallible Mask Numbering VaryingSlot

/-! ## Words -/

abbrev maxSemantics : Nat := 32

/-- Generic varyings have the keys `15, …, 46`. -/
abbrev semanticGeneric : Nat := 15

abbrev semanticPrimitiveId : Nat := 47
abbrev semanticDistanceRegister : Nat := 48
abbrev semanticViewportIndex : Nat := 49

def semanticWord (key parameter : Nat) : Nat := key ||| parameter <<< 8

def wordKey (word : Nat) : Nat := word % 256

def wordParameter (word : Nat) : Nat := word >>> 8

theorem semanticWord_eq {key : Nat} (hkey : key < 256) (parameter : Nat) :
    semanticWord key parameter = parameter * 256 + key := by
  have hadd := Nat.shiftLeft_add_eq_or_of_lt (i := 8) hkey parameter
  rw [semanticWord, Nat.or_comm, ← hadd, Nat.shiftLeft_eq]

theorem wordKey_semanticWord {key : Nat} (hkey : key < 256) (parameter : Nat) :
    wordKey (semanticWord key parameter) = key := by
  rw [wordKey, semanticWord_eq hkey]
  omega

theorem wordParameter_semanticWord {key : Nat} (hkey : key < 256) (parameter : Nat) :
    wordParameter (semanticWord key parameter) = parameter := by
  rw [wordParameter, semanticWord_eq hkey, Nat.shiftRight_eq_div_pow]
  omega

/-! ## The model -/

section

variable (out : VsOutputInfo)

def varyingWords : List Nat :=
  (List.range maxSemantics).filterMap fun semantic =>
    let parameter := out.vsOutputParamOffset (var0 + semantic)
    if parameter < maxSemantics then some (semanticWord (semanticGeneric + semantic) parameter)
    else none

/-- One system value. A failed call leaves the words it had. -/
def pushSystemWord (slot : Nat) (key : Nat) (words : List Nat) :
    Except (List Nat) (List Nat) :=
  let parameter := out.vsOutputParamOffset slot
  if parameter < maxSemantics then
    if maxSemantics ≤ words.length then .error words
    else .ok (words ++ [semanticWord key parameter])
  else .ok words

/-- The packed distance registers in use: clip components first, cull components
after them, four to a register. -/
def distanceRegisters : Nat :=
  (popcount out.clipDistMask + popcount out.cullDistMask + 3) / 4

def pushDistanceWord (words : List Nat) (registerIndex : Nat) :
    Except (List Nat) (List Nat) :=
  let parameter := out.vsOutputParamOffset (clipDist0 + registerIndex)
  if maxSemantics ≤ words.length ∨ maxSemantics ≤ parameter then .error words
  else .ok (words ++ [semanticWord (semanticDistanceRegister + registerIndex) parameter])

def outputWords : Except (List Nat) (List Nat) := do
  let words ← pushSystemWord out primitiveId semanticPrimitiveId (varyingWords out)
  let words ← pushSystemWord out viewport semanticViewportIndex words
  (List.range (distanceRegisters out)).foldlM (pushDistanceWord out) words

/-- `fill_output_semantics`: the words it leaves in the metadata and its result. -/
def fillOutputSemantics : List Nat × Bool :=
  match outputWords out with
  | .ok words => (words, words.length == out.paramExports + out.primParamExports)
  | .error words => (words, false)

/-! ## The words as a map over slots -/

def outputKey (slot : Nat) : Nat :=
  if var0 ≤ slot then semanticGeneric + (slot - var0)
  else if slot = primitiveId then semanticPrimitiveId
  else if slot = viewport then semanticViewportIndex
  else semanticDistanceRegister + (slot - clipDist0)

def slotWord (slot : Nat) : Nat :=
  semanticWord (outputKey slot) (out.vsOutputParamOffset slot)

/-- A system value's slot, if its index fits. -/
def systemSlot (slot : Nat) : List Nat :=
  if out.vsOutputParamOffset slot < maxSemantics then [slot] else []

/-- The slots the words are about, in the order of the words. -/
def namedSlots : List Nat :=
  ((List.range maxSemantics).map (var0 + ·)).filter
      (fun slot => decide (out.vsOutputParamOffset slot < maxSemantics)) ++
    systemSlot out primitiveId ++ systemSlot out viewport ++
    (List.range (distanceRegisters out)).map (clipDist0 + ·)

theorem distanceRegisters_le : distanceRegisters out ≤ 4 := by
  have hclip : popcount out.clipDistMask ≤ 8 := Nat.count_le _
  have hcull : popcount out.cullDistMask ≤ 8 := Nat.count_le _
  unfold distanceRegisters
  omega

theorem varyingWords_eq :
    varyingWords out = (((List.range maxSemantics).map (var0 + ·)).filter
      (fun slot => decide (out.vsOutputParamOffset slot < maxSemantics))).map (slotWord out) := by
  rw [List.filter_map, List.map_map, varyingWords, ← List.filterMap_eq_map, List.filterMap_filter]
  congr 1
  funext semantic
  simp [slotWord, outputKey]

variable {out}

theorem mem_systemSlot {slot s : Nat} :
    s ∈ systemSlot out slot ↔ s = slot ∧ out.vsOutputParamOffset s < maxSemantics := by
  unfold systemSlot
  split
  · next h => simp only [List.mem_singleton, iff_self_and]; rintro rfl; exact h
  · next h => simp only [List.not_mem_nil, false_iff]; rintro ⟨rfl, hs⟩; exact h hs

theorem pushSystemWord_ok (slot : Nat) {words words' : List Nat}
    (h : pushSystemWord out slot (outputKey slot) words = .ok words') :
    words' = words ++ (systemSlot out slot).map (slotWord out) := by
  unfold pushSystemWord at h
  unfold systemSlot
  dsimp only at h
  split at h
  · next hp =>
    split at h
    · cases h
    · simp only [Except.ok.injEq] at h
      simp [← h, hp, slotWord]
  · next hp =>
    simp only [Except.ok.injEq] at h
    simp [← h, hp]

theorem pushDistanceWord_ok {words words' : List Nat} {r : Nat} (hr : r < 4)
    (h : pushDistanceWord out words r = .ok words') :
    words' = words ++ [slotWord out (clipDist0 + r)] ∧
      out.vsOutputParamOffset (clipDist0 + r) < maxSemantics := by
  have hkey : ∀ r : Fin 4, outputKey (clipDist0 + r) = semanticDistanceRegister + r := by decide
  unfold pushDistanceWord at h
  dsimp only at h
  split at h
  · cases h
  · next hp =>
    simp only [Except.ok.injEq] at h
    refine ⟨?_, by omega⟩
    rw [← h, slotWord, hkey ⟨r, hr⟩]

theorem foldlM_pushDistanceWord_ok {l : List Nat} (hl : ∀ r ∈ l, r < 4) {words words' : List Nat}
    (h : l.foldlM (pushDistanceWord out) words = .ok words') :
    words' = words ++ (l.map (clipDist0 + ·)).map (slotWord out) ∧
      ∀ r ∈ l, out.vsOutputParamOffset (clipDist0 + r) < maxSemantics := by
  induction l generalizing words with
  | nil =>
    rw [List.foldlM_nil] at h
    cases h
    simp
  | cons r l ih =>
    obtain ⟨hr, hl⟩ := List.forall_mem_cons.mp hl
    obtain ⟨mid, hpush, hrest⟩ := foldlM_cons_eq_ok.mp h
    obtain ⟨rfl, hp⟩ := pushDistanceWord_ok hr hpush
    obtain ⟨rfl, hps⟩ := ih hl hrest
    exact ⟨by simp, List.forall_mem_cons.mpr ⟨hp, hps⟩⟩

/-- **The words of a successful call**: one for each named slot, each with an index that
fits, as many as there are parameters. -/
theorem fillOutputSemantics_named {words : List Nat}
    (h : fillOutputSemantics out = (words, true)) :
    words = (namedSlots out).map (slotWord out) ∧
      (∀ slot ∈ namedSlots out, out.vsOutputParamOffset slot < maxSemantics) ∧
      (namedSlots out).length = out.paramExports + out.primParamExports := by
  unfold fillOutputSemantics at h
  cases hwords : outputWords out with
  | error e => rw [hwords] at h; cases h
  | ok ws =>
    rw [hwords] at h
    simp only [Prod.mk.injEq, beq_iff_eq] at h
    obtain ⟨rfl, hlen⟩ := h
    simp only [outputWords, bind_eq_ok] at hwords
    obtain ⟨ws₁, hprim, ws₂, hview, hdist⟩ := hwords
    obtain ⟨rfl, hfits⟩ := foldlM_pushDistanceWord_ok
      (fun r hr => (List.mem_range.mp hr).trans_le (distanceRegisters_le out)) hdist
    have hws : ws₂ ++ ((List.range (distanceRegisters out)).map (clipDist0 + ·)).map
        (slotWord out) = (namedSlots out).map (slotWord out) := by
      rw [pushSystemWord_ok viewport hview,
        pushSystemWord_ok primitiveId hprim, varyingWords_eq]
      simp only [namedSlots, List.map_append]
    refine ⟨hws, fun slot hslot => ?_, by rw [← hlen, hws, List.length_map]⟩
    simp only [namedSlots, List.mem_append, List.mem_filter, decide_eq_true_eq] at hslot
    rcases hslot with ((⟨-, h⟩ | h) | h) | h
    · exact h
    · exact (mem_systemSlot.mp h).2
    · exact (mem_systemSlot.mp h).2
    · obtain ⟨r, hr, rfl⟩ := List.mem_map.mp h
      exact hfits r hr

end

/-! ## The list and the parameters -/

/-- What a key names. -/
inductive Names (out : VsOutputInfo) : Nat → Nat → Prop where
  | generic (i : Nat) (hi : i < maxSemantics) : Names out (semanticGeneric + i) (var0 + i)
  | primitiveId : Names out semanticPrimitiveId primitiveId
  | viewport : Names out semanticViewportIndex viewport
  | distance (r : Nat) (hr : r < distanceRegisters out) :
    Names out (semanticDistanceRegister + r) (clipDist0 + r)

/-- A parameter a word can describe: its slot has a key and its index fits. -/
def Nameable (out : VsOutputInfo) (slot : Nat) : Prop :=
  (∃ key, Names out key slot) ∧ out.vsOutputParamOffset slot < maxSemantics

section

variable {out : VsOutputInfo}

theorem Names.outputKey {key slot : Nat} (h : Names out key slot) :
    outputKey slot = key ∧ key < 256 := by
  cases h with
  | generic i hi =>
    have hkey : ∀ i : Fin 32, Linkage.outputKey (var0 + i) = semanticGeneric + i ∧
        semanticGeneric + i.val < 256 := by decide
    exact hkey ⟨i, hi⟩
  | primitiveId => decide
  | viewport => decide
  | distance r hr =>
    have hkey : ∀ r : Fin 4, Linkage.outputKey (clipDist0 + r) = semanticDistanceRegister + r ∧
        semanticDistanceRegister + r.val < 256 := by decide
    exact hkey ⟨r, hr.trans_le (distanceRegisters_le out)⟩

theorem names_of_mem {slot : Nat} (h : slot ∈ namedSlots out) :
    Names out (outputKey slot) slot := by
  suffices hnames : ∃ key, Names out key slot by
    obtain ⟨key, hkey⟩ := hnames
    rwa [hkey.outputKey.1]
  simp only [namedSlots, List.mem_append, List.mem_filter, List.mem_map, List.mem_range] at h
  rcases h with ((⟨⟨i, hi, rfl⟩, -⟩ | h) | h) | ⟨r, hr, rfl⟩
  · exact ⟨_, .generic i hi⟩
  · obtain ⟨rfl, -⟩ := mem_systemSlot.mp h
    exact ⟨_, .primitiveId⟩
  · obtain ⟨rfl, -⟩ := mem_systemSlot.mp h
    exact ⟨_, .viewport⟩
  · exact ⟨_, .distance r hr⟩

/-- No slot is named twice, although a viewport index and the second distance register
have the same key. -/
theorem nodup_namedSlots : (namedSlots out).Nodup := by
  have hadd : ∀ a n : Nat, ((List.range n).map (a + ·)).Nodup := fun a n =>
    List.nodup_range.map fun x y hxy => Nat.add_left_cancel hxy
  have hsystem : ∀ slot, (systemSlot out slot).Nodup := by
    intro slot
    unfold systemSlot
    split <;> simp
  have hle := distanceRegisters_le out
  simp only [namedSlots, List.nodup_append, List.mem_append, List.mem_filter, List.mem_map,
    List.mem_range, mem_systemSlot]
  refine ⟨⟨⟨(hadd _ _).filter _, hsystem _, ?_⟩, hsystem _, ?_⟩, hadd _ _, ?_⟩
  · rintro _ ⟨⟨i, -, rfl⟩, -⟩ _ ⟨rfl, -⟩
    show 32 + i ≠ 21
    omega
  · rintro _ (⟨⟨i, -, rfl⟩, -⟩ | ⟨rfl, -⟩) _ ⟨rfl, -⟩
    · show 32 + i ≠ 23
      omega
    · decide
  · rintro _ ((⟨⟨i, -, rfl⟩, -⟩ | ⟨rfl, -⟩) | ⟨rfl, -⟩) _ ⟨r, hr, rfl⟩
    · show 32 + i ≠ 17 + r
      omega
    · show 21 ≠ 17 + r
      omega
    · show 23 ≠ 17 + r
      omega

theorem slotWord_of_mem {slot : Nat} (h : slot ∈ namedSlots out) :
    wordKey (slotWord out slot) = outputKey slot ∧
      wordParameter (slotWord out slot) = out.vsOutputParamOffset slot := by
  have hkey : outputKey slot < 256 := (names_of_mem h).outputKey.2
  exact ⟨wordKey_semanticWord hkey _, wordParameter_semanticWord hkey _⟩

theorem fillOutputSemantics_complete {S : Finset Nat} (hS : Exports out.table S)
    {words : List Nat} (h : fillOutputSemantics out = (words, true)) :
    (words.map wordParameter).Perm (List.range (out.paramExports + out.primParamExports)) ∧
      ∀ slot, out.vsOutputParamOffset slot ≠ paramUndefined → slot ∈ namedSlots out := by
  obtain ⟨rfl, hfits, hlen⟩ := fillOutputSemantics_named h
  have hdef : ∀ slot ∈ namedSlots out, out.vsOutputParamOffset slot ≠ paramUndefined := by
    intro slot hslot
    exact ((hfits slot hslot).trans (by decide)).ne
  have hmap : ((namedSlots out).map (slotWord out)).map wordParameter =
      (namedSlots out).map out.vsOutputParamOffset := by
    rw [List.map_map]
    exact List.map_congr_left fun slot hslot => (slotWord_of_mem hslot).2
  rw [hmap]
  exact hS.toNumbers.perm_range nodup_namedSlots hdef hlen

theorem fillOutputSemantics_eq_false
    (h : ∀ words, fillOutputSemantics out ≠ (words, true)) :
    (fillOutputSemantics out).2 = false := by
  cases hok : (fillOutputSemantics out).2 with
  | false => rfl
  | true =>
    have heq : fillOutputSemantics out = ((fillOutputSemantics out).1, true) := by rw [← hok]
    exact absurd heq (h _)

/-- A distance register in use that is not written is not exported. -/
theorem distance_notMem_exportedSlots {nir : NirOutputs} {exportPrimId exportClipCullDists : Bool}
    {r : Nat} (hr : r < 4) (hw : nir.outputsWritten.getLsbD (clipDist0 + r) = false) :
    clipDist0 + r ∉ exportedSlots nir exportPrimId exportClipCullDists := by
  have hprim : ∀ r : Fin 4, clipDist0 + r.val ≠ primitiveId := by decide
  simp [exportedSlots, distanceSlots, hw, hprim ⟨r, hr⟩]

/-- **The output words are a bijection with the parameter exports.** A successful call
gives the parameters `0, …, n - 1` one word each, and each word's key names the slot that
has its index. A parameter without a key or with an index too large, or a distance register
in use that is not written, makes the call fail. -/
theorem fillOutputSemantics_bijection (nir : NirOutputs)
    (isNgg exportPrimId exportClipCullDists omitImplicitPrimitiveId : Bool)
    (outinfo : VsOutputInfo) :
    let out := linkedOutinfo nir isNgg exportPrimId exportClipCullDists omitImplicitPrimitiveId
      outinfo
    (∀ words, fillOutputSemantics out = (words, true) →
      (words.map wordParameter).Perm
        (List.range (out.paramExports + out.primParamExports)) ∧
      ∀ word ∈ words, ∃ slot, Names out (wordKey word) slot ∧
        out.vsOutputParamOffset slot = wordParameter word ∧
        ∀ s, out.vsOutputParamOffset s = wordParameter word → s = slot) ∧
    (∀ slot, out.vsOutputParamOffset slot ≠ paramUndefined → ¬ Nameable out slot →
      (fillOutputSemantics out).2 = false) ∧
    (∀ r < distanceRegisters out, nir.outputsWritten.getLsbD (clipDist0 + r) = false →
      (fillOutputSemantics out).2 = false) := by
  intro out
  obtain ⟨S, hS, hslots⟩ : ∃ S, Exports out.table S ∧ ∀ s ≠ primitiveId,
      s ∈ S ↔ s ∈ exportedSlots nir exportPrimId exportClipCullDists :=
    linkedOutinfo_exports ..
  refine ⟨fun words h => ⟨(fillOutputSemantics_complete hS h).1, fun word hword => ?_⟩,
    fun slot hslot hname => ?_, fun r hr hw => ?_⟩
  · obtain ⟨rfl, hfits, -⟩ := fillOutputSemantics_named h
    obtain ⟨slot, hslot, rfl⟩ := List.mem_map.mp hword
    obtain ⟨hkey, hparam⟩ := slotWord_of_mem hslot
    refine ⟨slot, hkey ▸ names_of_mem hslot, hparam.symm, fun s hs => ?_⟩
    have hdef : out.vsOutputParamOffset slot ≠ paramUndefined :=
      ((hfits slot hslot).trans (by decide)).ne
    rw [hparam] at hs
    have hdef' : out.vsOutputParamOffset s ≠ paramUndefined := hs ▸ hdef
    exact hS.inj s ((hS.mem_iff s).mp hdef') slot ((hS.mem_iff slot).mp hdef) hs
  · refine fillOutputSemantics_eq_false fun words h => hname ?_
    have hmem := (fillOutputSemantics_complete hS h).2 slot hslot
    exact ⟨⟨_, names_of_mem hmem⟩, (fillOutputSemantics_named h).2.1 slot hmem⟩
  · refine fillOutputSemantics_eq_false fun words h => ?_
    have hr4 : r < 4 := hr.trans_le (distanceRegisters_le out)
    have hmem : clipDist0 + r ∈ namedSlots out := by
      simp only [namedSlots, List.mem_append, List.mem_map, List.mem_range]
      exact Or.inr ⟨r, hr, rfl⟩
    have hfit := (fillOutputSemantics_named h).2.1 _ hmem
    have hexp : clipDist0 + r ∈ S :=
      (hS.mem_iff _).mp (hfit.trans (by decide : maxSemantics < paramUndefined)).ne
    have hprim : ∀ r : Fin 4, clipDist0 + r.val ≠ primitiveId := by decide
    exact distance_notMem_exportedSlots hr4 hw ((hslots _ (hprim ⟨r, hr4⟩)).mp hexp)

/-- A geometry stage that writes two varyings and the viewport index. -/
def viewportGeometry : NirOutputs where
  stage := .geometry
  outputsWritten := varyingBit var0 ||| varyingBit (var0 + 2) ||| varyingBit viewport
  perPrimitiveOutputs := 0

def freshOutinfo : VsOutputInfo where
  vsOutputParamOffset := fun _ => 0
  clipDistMask := 0
  cullDistMask := 0
  paramExports := 0
  primParamExports := 0
  exportPrimId := false
  exportPrimIdPerPrimitive := false

theorem fillOutputSemantics_bijection_viewportGeometry :
    let out := linkedOutinfo viewportGeometry true true true false freshOutinfo
    fillOutputSemantics out = ([271, 529, 49], true) ∧
      ([271, 529, 49].map wordParameter).Perm (List.range 3) := by
  have hok : fillOutputSemantics
      (linkedOutinfo viewportGeometry true true true false freshOutinfo) =
        ([271, 529, 49], true) := by decide +kernel
  exact ⟨hok, ((fillOutputSemantics_bijection viewportGeometry true true true false
    freshOutinfo).1 _ hok).1⟩

end

end Psbc.Linkage
