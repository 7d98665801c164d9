import Psbc.Linkage.InputSemantics
import Mathlib.Data.List.Forall2

/-!
# Linking the distances a pixel stage reads

Clip and cull distances share the packed registers `CLIP_DIST0` and `CLIP_DIST1`: first
the clip components, behind them the cull components. A pixel stage that declares fewer
clip components than its producer writes reads its cull components too low, and
`link_fragment_distance_layout` moves those loads behind the producer's clip components.

* `linkFragmentDistanceLayout_spec`: which loads it moves where, and when it fails.
* `distanceKey_eq`: the input word of a moved load and the output word of the register
  where the producer packs that component have one key.
-/

namespace Psbc.Linkage

open Fallible Mask VaryingSlot

/-! ## The model -/

/-- A load of a pixel input, with the components it reads; `offset` is the offset source
if it is a constant. -/
structure IoLoad extends InputLoad where
  component : Nat
  numComponents : Nat
  is64bit : Bool
  offset : Option Nat
  deriving DecidableEq, Repr

inductive FsInstr where
  | input (l : IoLoad)
  | other
  deriving DecidableEq, Repr

/-- One channel of a vector load. A channel past the register gets an addition as its
offset. -/
def IoLoad.channel (l : IoLoad) (i : Nat) : IoLoad :=
  let newi := if l.is64bit then i * 2 else i
  { l with
    component := (l.component + newi) % 4
    numComponents := 1
    offset := if 3 < l.component + newi then none else l.offset }

/-- `nir_lower_io_to_scalar` for inputs. -/
def nirLowerIoToScalar (instrs : List FsInstr) : List FsInstr :=
  instrs.flatMap fun instr =>
    match instr with
    | .input l =>
      if l.numComponents = 1 then [instr]
      else (List.range l.numComponents).map fun i => .input (l.channel i)
    | .other => [instr]

/-- The loads the pass is about: of a packed distance register, and not of one vertex. -/
def IoLoad.readsDistance (l : IoLoad) : Bool :=
  l.intrinsic != .loadInputVertex && (l.location == clipDist0 || l.location == clipDist1)

/-- The loop body: the load after the move, or failure. -/
def linkDistanceLoad (oldClip cull producerClip : Nat) (l : IoLoad) : Option IoLoad :=
  if l.readsDistance then
    match l.offset with
    | none => none
    | some offset =>
      if l.numComponents ≠ 1 ∨ 1 < offset ∨ 3 < l.component then none
      else
        let component := (l.location - clipDist0) * 4 + l.component + offset * 4
        if component < oldClip then some l
        else if cull ≤ component - oldClip then none
        else
          let component := component + (producerClip - oldClip)
          some { l with
            location := clipDist0 + component / 4
            numSlots := 1
            component := component % 4
            offset := some 0 }
  else some l

def linkDistanceInstr (oldClip cull producerClip : Nat) : FsInstr → Option FsInstr
  | .input l => (linkDistanceLoad oldClip cull producerClip l).map .input
  | .other => some .other

structure DistanceShader where
  stage : MesaStage
  clipDistanceArraySize : Nat
  cullDistanceArraySize : Nat
  instrs : List FsInstr

/-- `link_fragment_distance_layout` with the two options it reads: the code it leaves, or
failure. -/
def linkFragmentDistanceLayout (fragmentDistanceLayoutValid : Bool)
    (fragmentClipDistanceCount : Nat) (nir : DistanceShader) : Option (List FsInstr) :=
  if fragmentDistanceLayoutValid = false ∨ nir.stage ≠ .fragment then some nir.instrs
  else
    let oldClip := nir.clipDistanceArraySize
    let cull := nir.cullDistanceArraySize
    let producerClip := fragmentClipDistanceCount
    if 8 < producerClip ∨ producerClip < oldClip ∨ 8 - producerClip < cull then none
    else if cull = 0 ∨ producerClip = oldClip then some nir.instrs
    else (nirLowerIoToScalar nir.instrs).mapM (linkDistanceInstr oldClip cull producerClip)

/-! ## Packed components -/

def distanceLoads (instrs : List FsInstr) : List IoLoad :=
  instrs.filterMap fun
    | .input l => if l.readsDistance then some l else none
    | .other => none

def IoLoad.packed (l : IoLoad) : Nat :=
  (l.location - clipDist0) * 4 + l.component + l.offset.getD 0 * 4

/-- A scalar load of a component, with a constant offset of at most one register. -/
structure IoLoad.Scalar (l : IoLoad) : Prop where
  numComponents : l.numComponents = 1
  component : l.component ≤ 3
  offset : l.offset = some 0 ∨ l.offset = some 1

instance (l : IoLoad) : Decidable l.Scalar :=
  decidable_of_iff (l.numComponents = 1 ∧ l.component ≤ 3 ∧
    (l.offset = some 0 ∨ l.offset = some 1))
    ⟨fun ⟨h, h', h''⟩ => ⟨h, h', h''⟩, fun h => ⟨h.numComponents, h.component, h.offset⟩⟩

/-- What becomes of a load when `clip` and `cull` components are declared and the producer
has `producerClip` clip components. -/
structure Relinked (clip cull producerClip : Nat) (l l' : IoLoad) : Prop where
  kept : l.packed < clip → l'.location = l.location ∧ l'.component = l.component
  moved : producerClip ≠ clip → ∀ j < cull, l.packed = clip + j →
    l'.location = clipDist0 + (producerClip + j) / 4 ∧ l'.component = (producerClip + j) % 4 ∧
      l'.offset = some 0 ∧ (producerClip + j) / 4 ≤ 1
  packed : l'.packed = if l.packed < clip then l.packed else l.packed + (producerClip - clip)

/-- The clip components keep their places and the cull components move up together. -/
theorem Relinked.packed_injective {clip cull producerClip : Nat} {l₁ l₁' l₂ l₂' : IoLoad}
    (h₁ : Relinked clip cull producerClip l₁ l₁') (h₂ : Relinked clip cull producerClip l₂ l₂')
    (hne : l₁.packed ≠ l₂.packed) : l₁'.packed ≠ l₂'.packed := by
  rw [h₁.packed, h₂.packed]
  split <;> split <;> omega

/-! ## The pass -/

section

variable {clip cull producerClip : Nat} {l : IoLoad}

def IoLoad.moveTo (l : IoLoad) (component : Nat) : IoLoad :=
  { l with
    location := clipDist0 + component / 4
    numSlots := 1
    component := component % 4
    offset := some 0 }

def relinkLoad (clip producerClip : Nat) (l : IoLoad) : IoLoad :=
  if l.readsDistance = true ∧ clip ≤ l.packed then l.moveTo (l.packed + (producerClip - clip))
  else l

def relinkInstr (clip producerClip : Nat) : FsInstr → FsInstr
  | .input l => .input (relinkLoad clip producerClip l)
  | .other => .other

theorem IoLoad.readsDistance_iff : l.readsDistance = true ↔ l.intrinsic ≠ .loadInputVertex ∧
    (l.location = clipDist0 ∨ l.location = clipDist1) := by
  simp [IoLoad.readsDistance]

theorem IoLoad.packed_moveTo (l : IoLoad) (component : Nat) :
    (l.moveTo component).packed = component := by
  simp only [moveTo, packed, Option.getD_some]
  omega

theorem IoLoad.readsDistance_moveTo (h : l.readsDistance = true) {component : Nat}
    (hlt : component < 8) : (l.moveTo component).readsDistance = true := by
  rw [readsDistance_iff] at h ⊢
  refine ⟨h.1, ?_⟩
  simp only [moveTo]
  have hreg : component / 4 = 0 ∨ component / 4 = 1 := by omega
  rcases hreg with hreg | hreg <;> simp [hreg]

/-- A load inside the declared components is moved, one outside makes the pass fail. -/
theorem linkDistanceLoad_eq_some (hl : l.readsDistance = true → l.Scalar) {l' : IoLoad} :
    linkDistanceLoad clip cull producerClip l = some l' ↔
      (l.readsDistance = true → l.packed < clip + cull) ∧ l' = relinkLoad clip producerClip l := by
  unfold linkDistanceLoad relinkLoad
  cases hreads : l.readsDistance with
  | false => simp [eq_comm]
  | true =>
    obtain ⟨hone, hcomponent, hoffset⟩ := hl hreads
    obtain ⟨offset, hsome, hle⟩ : ∃ offset, l.offset = some offset ∧ offset ≤ 1 := by
      rcases hoffset with h | h
      · exact ⟨0, h, by omega⟩
      · exact ⟨1, h, le_rfl⟩
    have hpacked : l.packed = (l.location - clipDist0) * 4 + l.component + offset * 4 := by
      rw [IoLoad.packed, hsome, Option.getD_some]
    have hguard : ¬ (l.numComponents ≠ 1 ∨ 1 < offset ∨ 3 < l.component) := by omega
    simp only [hsome, if_true, if_neg hguard, ← hpacked, true_and, forall_const]
    by_cases hclip : l.packed < clip
    · rw [if_pos hclip, if_neg (by omega), Option.some.injEq, eq_comm]
      exact (and_iff_right (by omega)).symm
    · rw [if_neg hclip, if_pos (not_lt.mp hclip)]
      by_cases hcull : cull ≤ l.packed - clip
      · rw [if_pos hcull]
        exact iff_of_false (by simp) fun h => by omega
      · rw [if_neg hcull, Option.some.injEq, eq_comm]
        exact (and_iff_right (by omega)).symm

theorem mem_distanceLoads {instrs : List FsInstr} :
    l ∈ distanceLoads instrs ↔ .input l ∈ instrs ∧ l.readsDistance = true := by
  simp only [distanceLoads, List.mem_filterMap]
  constructor
  · rintro ⟨instr, hmem, heq⟩
    cases instr with
    | other => cases heq
    | input l' =>
      simp only [Option.ite_none_right_eq_some, Option.some.injEq] at heq
      exact heq.2 ▸ ⟨hmem, heq.1⟩
  · rintro ⟨hmem, hreads⟩
    exact ⟨.input l, hmem, by simp [hreads]⟩

theorem distanceLoads_append (instrs instrs' : List FsInstr) :
    distanceLoads (instrs ++ instrs') = distanceLoads instrs ++ distanceLoads instrs' :=
  List.filterMap_append ..

theorem distanceLoads_input (l : IoLoad) :
    distanceLoads [.input l] = if l.readsDistance then [l] else [] := by
  cases h : l.readsDistance <;> simp [distanceLoads, h]

theorem distanceLoads_nirLowerIoToScalar {instrs : List FsInstr}
    (h : ∀ l ∈ distanceLoads instrs, l.Scalar) :
    distanceLoads (nirLowerIoToScalar instrs) = distanceLoads instrs := by
  induction instrs with
  | nil => rfl
  | cons instr instrs ih =>
    rw [← List.singleton_append, distanceLoads_append] at h ⊢
    have hrest := ih fun l hl => h l (List.mem_append_right _ hl)
    rw [nirLowerIoToScalar, List.flatMap_append, List.flatMap_singleton, distanceLoads_append,
      ← nirLowerIoToScalar, hrest]
    congr 1
    cases instr with
    | other => rfl
    | input l =>
      dsimp only
      split
      · rfl
      · next hmany =>
        -- a vector load reads no distance, and neither do its channels
        have hreads : l.readsDistance = false := by
          by_contra hreads
          rw [Bool.not_eq_false] at hreads
          refine hmany (h l (List.mem_append_left _ ?_)).numComponents
          rw [distanceLoads_input, if_pos hreads]
          exact List.mem_singleton_self l
        rw [distanceLoads_input, hreads]
        refine List.eq_nil_iff_forall_not_mem.mpr fun l' hl' => ?_
        obtain ⟨hmem, hreads'⟩ := mem_distanceLoads.mp hl'
        obtain ⟨i, -, heq⟩ := List.mem_map.mp hmem
        cases heq
        exact absurd (hreads.symm.trans hreads') (by decide)

theorem linkDistanceInstr_eq_some {instr : FsInstr}
    (h : ∀ l, instr = .input l → l.readsDistance = true → l.Scalar) (instr' : FsInstr) :
    linkDistanceInstr clip cull producerClip instr = some instr' ↔
      (∀ l, instr = .input l → l.readsDistance = true → l.packed < clip + cull) ∧
        instr' = relinkInstr clip producerClip instr := by
  cases instr with
  | other =>
    constructor
    · intro h
      exact ⟨fun l hl => (by cases hl), (Option.some.inj h).symm⟩
    · rintro ⟨-, rfl⟩
      rfl
  | input l =>
    simp only [linkDistanceInstr, Option.map_eq_some_iff, linkDistanceLoad_eq_some (h l rfl),
      relinkInstr]
    constructor
    · rintro ⟨l', ⟨hinside, rfl⟩, rfl⟩
      exact ⟨fun l' heq => by cases heq; exact hinside, rfl⟩
    · rintro ⟨hinside, rfl⟩
      exact ⟨_, ⟨hinside l rfl, rfl⟩, rfl⟩

theorem readsDistance_relinkLoad (hcull : producerClip + cull ≤ 8) (hclip : clip ≤ producerClip)
    (h : l.readsDistance = true → l.packed < clip + cull) :
    (relinkLoad clip producerClip l).readsDistance = l.readsDistance := by
  unfold relinkLoad
  split
  · next hmove =>
    have := h hmove.1
    rw [IoLoad.readsDistance_moveTo hmove.1 (by omega), hmove.1]
  · rfl

theorem distanceLoads_map_relinkInstr (hcull : producerClip + cull ≤ 8)
    (hclip : clip ≤ producerClip) {instrs : List FsInstr}
    (h : ∀ l ∈ distanceLoads instrs, l.packed < clip + cull) :
    distanceLoads (instrs.map (relinkInstr clip producerClip)) =
      (distanceLoads instrs).map (relinkLoad clip producerClip) := by
  induction instrs with
  | nil => rfl
  | cons instr instrs ih =>
    rw [← List.singleton_append, distanceLoads_append] at h ⊢
    rw [List.map_append, List.map_append, distanceLoads_append,
      ih fun l hl => h l (List.mem_append_right _ hl)]
    congr 1
    cases instr with
    | other => rfl
    | input l =>
      rw [distanceLoads_input] at h ⊢
      have hreads := readsDistance_relinkLoad hcull hclip (l := l) fun hreads =>
        h l (List.mem_append_left _ (by simp [hreads]))
      simp only [List.map_cons, List.map_nil, relinkInstr, distanceLoads_input, hreads]
      split <;> rfl

theorem relinked_relinkLoad (hcull : producerClip + cull ≤ 8) (hclip : clip ≤ producerClip)
    (hreads : l.readsDistance = true) :
    Relinked clip cull producerClip l (relinkLoad clip producerClip l) := by
  unfold relinkLoad
  by_cases hlow : l.packed < clip
  · rw [if_neg (by omega)]
    exact ⟨fun _ => ⟨rfl, rfl⟩, fun _ j _ hj => by omega, by rw [if_pos hlow]⟩
  · rw [if_pos ⟨hreads, not_lt.mp hlow⟩]
    refine ⟨fun h => absurd h hlow, fun _ j hj heq => ?_, ?_⟩
    · have hto : l.packed + (producerClip - clip) = producerClip + j := by omega
      rw [hto]
      exact ⟨rfl, rfl, rfl, by omega⟩
    · rw [if_neg hlow, IoLoad.packed_moveTo]

theorem relinked_self (l : IoLoad) : Relinked clip cull clip l l :=
  ⟨fun _ => ⟨rfl, rfl⟩, fun h => absurd rfl h, by simp⟩

end

/-! ## The keys -/

theorem inputWord_of_distance {fs : FragmentShader} {loads : List InputLoad} {info : PsInfo}
    {primitiveIdPerPrimitive : Bool} {words : List Nat}
    (hbuild : buildInputSemantics fs loads info primitiveIdPerPrimitive = some words)
    {l : InputLoad} (hl : l ∈ loads) {r : Nat} (hr : r ≤ 1) (hloc : l.location = clipDist0 + r) :
    words[l.base]? = some (semanticDistanceRegister + r) := by
  have hdist : l.isDistance := by
    rcases Nat.le_one_iff_eq_zero_or_eq_one.mp hr with rfl | rfl
    · exact .inl hloc
    · exact .inr hloc
  obtain ⟨-, -, -, -, hwords⟩ := (buildInputSemantics_eq_some_iff ..).mp hbuild
  refine (hwords _ _).mpr ⟨l, hl, ?_⟩
  rw [loadEntries, if_pos hdist, hloc, Nat.add_sub_cancel_left]
  exact List.mem_singleton_self _

/-- The output word of the register of packed component `clip + j`. -/
theorem outputWord_of_distance {out : VsOutputInfo} {words : List Nat}
    (hfill : fillOutputSemantics out = (words, true)) {j : Nat}
    (hj : j < popcount out.cullDistMask) (hr : (popcount out.clipDistMask + j) / 4 ≤ 1) :
    ∃ word ∈ words, wordKey word = semanticDistanceRegister + (popcount out.clipDistMask + j) / 4 ∧
      wordParameter word =
        out.vsOutputParamOffset (clipDist0 + (popcount out.clipDistMask + j) / 4) := by
  obtain ⟨rfl, -, -⟩ := fillOutputSemantics_named hfill
  have hmem : clipDist0 + (popcount out.clipDistMask + j) / 4 ∈ namedSlots out := by
    refine List.mem_append_right _ (List.mem_map.mpr ⟨_, List.mem_range.mpr ?_, rfl⟩)
    unfold distanceRegisters
    omega
  obtain ⟨hkey, hparameter⟩ := slotWord_of_mem hmem
  refine ⟨_, List.mem_map_of_mem hmem, hkey.trans ?_, hparameter⟩
  rcases Nat.le_one_iff_eq_zero_or_eq_one.mp hr with h | h <;> rw [h] <;> rfl

/-- The moved load `l'` of cull component `j` pairs with a producer of `producerClip` clip
components: whenever both sides describe their registers, the word of the load's
attribute has the key of the word that names the register of packed component
`producerClip + j`. -/
def PairsWithProducer (producerClip j : Nat) (l' : IoLoad) : Prop :=
  ∀ fs loads info primitiveIdPerPrimitive inWords,
    buildInputSemantics fs loads info primitiveIdPerPrimitive = some inWords →
    ∀ l ∈ loads, l.unbased = l'.unbased → ∀ (out : VsOutputInfo) (outWords : List Nat),
      popcount out.clipDistMask = producerClip → j < popcount out.cullDistMask →
      fillOutputSemantics out = (outWords, true) →
      ∃ inWord, inWords[l.base]? = some inWord ∧ ∃ outWord ∈ outWords,
        wordKey inWord = wordKey outWord ∧
          wordParameter outWord = out.vsOutputParamOffset (clipDist0 + (producerClip + j) / 4)

theorem distanceKey_eq {producerClip j : Nat} {l' : IoLoad} (hr : (producerClip + j) / 4 ≤ 1)
    (hloc : l'.location = clipDist0 + (producerClip + j) / 4) :
    PairsWithProducer producerClip j l' := by
  intro fs loads info primitiveIdPerPrimitive inWords hbuild l hl hunbased out outWords hclip hcull
    hfill
  subst hclip
  have hl' : l.unbased.location = l'.unbased.location := by rw [hunbased]
  obtain ⟨outWord, hmem, hkey, hparameter⟩ := outputWord_of_distance hfill hcull hr
  refine ⟨_, inputWord_of_distance hbuild hl hr (hl'.trans hloc), outWord, hmem, ?_, hparameter⟩
  rw [hkey]
  have hlt : semanticDistanceRegister + (popcount out.clipDistMask + j) / 4 < 256 :=
    (Nat.add_le_add_left hr _).trans_lt (by decide)
  exact (wordKey_of_lt hlt).1

/-! ## The whole pass -/

/-- What the pass leaves of the distance loads, pair by pair. -/
structure DistancesLinked (producerClip : Nat) (nir : DistanceShader) (out : List FsInstr) :
    Prop where
  loads : List.Forall₂ (Relinked nir.clipDistanceArraySize nir.cullDistanceArraySize producerClip)
    (distanceLoads nir.instrs) (distanceLoads out)
  distinct : ∀ x ∈ (distanceLoads nir.instrs).zip (distanceLoads out),
    ∀ y ∈ (distanceLoads nir.instrs).zip (distanceLoads out),
      x.1.packed ≠ y.1.packed → x.2.packed ≠ y.2.packed
  keys : producerClip ≠ nir.clipDistanceArraySize →
    ∀ x ∈ (distanceLoads nir.instrs).zip (distanceLoads out), ∀ j < nir.cullDistanceArraySize,
      x.1.packed = nir.clipDistanceArraySize + j → PairsWithProducer producerClip j x.2

theorem distancesLinked_of_forall₂ {producerClip : Nat} {nir : DistanceShader}
    {out : List FsInstr}
    (h : List.Forall₂ (Relinked nir.clipDistanceArraySize nir.cullDistanceArraySize producerClip)
      (distanceLoads nir.instrs) (distanceLoads out)) : DistancesLinked producerClip nir out := by
  have hzip : ∀ x ∈ (distanceLoads nir.instrs).zip (distanceLoads out),
      Relinked nir.clipDistanceArraySize nir.cullDistanceArraySize producerClip x.1 x.2 :=
    fun _ hx => (List.forall₂_iff_zip.mp h).2 hx
  refine ⟨h, fun x hx y hy => (hzip x hx).packed_injective (hzip y hy),
    fun hne x hx j hj heq => ?_⟩
  obtain ⟨hloc, -, -, hr⟩ := (hzip x hx).moved hne j hj heq
  exact distanceKey_eq hr hloc

theorem mapM_linkDistanceInstr (producerClip : Nat) {nir : DistanceShader}
    (hscalar : ∀ l ∈ distanceLoads nir.instrs, l.Scalar) (out : List FsInstr) :
    (nirLowerIoToScalar nir.instrs).mapM (linkDistanceInstr nir.clipDistanceArraySize
      nir.cullDistanceArraySize producerClip) = some out ↔
    (∀ l ∈ distanceLoads nir.instrs,
      l.packed < nir.clipDistanceArraySize + nir.cullDistanceArraySize) ∧
    out = (nirLowerIoToScalar nir.instrs).map
      (relinkInstr nir.clipDistanceArraySize producerClip) := by
  have hlower := distanceLoads_nirLowerIoToScalar hscalar
  rw [← hlower] at hscalar
  rw [← hlower, mapM_guard fun instr hinstr => linkDistanceInstr_eq_some fun l hl hreads =>
    hscalar l (mem_distanceLoads.mpr ⟨hl ▸ hinstr, hreads⟩)]
  refine and_congr_left fun _ => ⟨fun h l hl => ?_, fun h instr hinstr l heq hreads => ?_⟩
  · obtain ⟨hmem, hreads⟩ := mem_distanceLoads.mp hl
    exact h _ hmem l rfl hreads
  · exact h l (mem_distanceLoads.mpr ⟨heq ▸ hinstr, hreads⟩)

/-- **Linking the distances of a pixel stage**, for scalar loads with constant offsets. -/
theorem linkFragmentDistanceLayout_spec (producerClip : Nat) (nir : DistanceShader)
    (hstage : nir.stage = .fragment) (hscalar : ∀ l ∈ distanceLoads nir.instrs, l.Scalar) :
    (8 < producerClip ∨ producerClip < nir.clipDistanceArraySize ∨
        8 < producerClip + nir.cullDistanceArraySize →
      linkFragmentDistanceLayout true producerClip nir = none) ∧
    (producerClip ≠ nir.clipDistanceArraySize → 0 < nir.cullDistanceArraySize →
      (∃ l ∈ distanceLoads nir.instrs,
        nir.clipDistanceArraySize + nir.cullDistanceArraySize ≤ l.packed) →
      linkFragmentDistanceLayout true producerClip nir = none) ∧
    (nir.clipDistanceArraySize ≤ producerClip → producerClip + nir.cullDistanceArraySize ≤ 8 →
      (∀ l ∈ distanceLoads nir.instrs,
        l.packed < nir.clipDistanceArraySize + nir.cullDistanceArraySize) →
      (linkFragmentDistanceLayout true producerClip nir).isSome = true) ∧
    ∀ out, linkFragmentDistanceLayout true producerClip nir = some out →
      0 < nir.cullDistanceArraySize → DistancesLinked producerClip nir out := by
  have hloop := mapM_linkDistanceInstr producerClip hscalar
  have hopts : ¬ (true = false ∨ nir.stage ≠ .fragment) := by simp [hstage]
  simp only [linkFragmentDistanceLayout, if_neg hopts]
  refine ⟨fun h => if_pos (by omega), fun hne hcull hout => ?_, fun hclip hsum hinside => ?_,
    fun out hsome hcull => ?_⟩
  · obtain ⟨l, hl, hle⟩ := hout
    split
    · rfl
    · rw [if_neg (by omega), ← Option.not_isSome_iff_eq_none, Option.isSome_iff_exists]
      rintro ⟨out, hsome⟩
      have := ((hloop out).mp hsome).1 l hl
      omega
  · rw [if_neg (by omega)]
    split
    · rfl
    · rw [(hloop _).mpr ⟨hinside, rfl⟩]
      rfl
  · split at hsome
    · cases hsome
    next hbounds =>
    refine distancesLinked_of_forall₂ ?_
    split at hsome
    · next hsame =>
      obtain rfl := Option.some.inj hsome
      rw [hsame.resolve_left (by omega), List.forall₂_same]
      exact fun l _ => relinked_self l
    · obtain ⟨hinside, rfl⟩ := (hloop out).mp hsome
      rw [← distanceLoads_nirLowerIoToScalar hscalar] at hinside
      rw [distanceLoads_map_relinkInstr (by omega) (by omega) hinside,
        distanceLoads_nirLowerIoToScalar hscalar, List.forall₂_map_right_iff, List.forall₂_same]
      exact fun l hl => relinked_relinkLoad (by omega) (by omega) (mem_distanceLoads.mp hl).2

/-- One clip and three cull components are declared; the shader reads the clip distance and
the third cull distance, and a colour. -/
def cullReader : DistanceShader where
  stage := .fragment
  clipDistanceArraySize := 1
  cullDistanceArraySize := 3
  instrs := [.input ⟨⟨.loadInterpolatedInput, clipDist0, 1, 0⟩, 0, 1, false, some 0⟩, .other,
    .input ⟨⟨.loadInterpolatedInput, var0, 1, 1⟩, 0, 4, false, some 0⟩,
    .input ⟨⟨.loadInterpolatedInput, clipDist0, 1, 0⟩, 3, 1, false, some 0⟩]

theorem linkFragmentDistanceLayout_spec_cullReader :
    linkFragmentDistanceLayout true 4 cullReader ≠ none ∧
      ∀ out, linkFragmentDistanceLayout true 4 cullReader = some out →
        DistancesLinked 4 cullReader out := by
  have hspec := linkFragmentDistanceLayout_spec 4 cullReader rfl (by decide)
  exact ⟨by decide, fun out hout => hspec.2.2.2 out hout (by decide)⟩

end Psbc.Linkage
