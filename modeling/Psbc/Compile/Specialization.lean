import Mathlib.Algebra.Group.Action.Defs
import Mathlib.Algebra.Order.BigOperators.Group.List
import Mathlib.Algebra.Order.Ring.Nat
import Psbc.Compile.Impl
import Psbc.Descriptors.Bindings
import Psbc.Lib.Buffer
import Psbc.Lib.Placement

/-!
# Specialization constants on their way to Mesa

`prepare_stage_nir` packs the constants of the options it is given into one data block, each
behind the one before, and `vk_spec_info_to_nir_spirv` takes them apart again. The options
are those of the call for the compiled stage, and what `select_linked_parameters` makes of
them for a linked one.

`specialized` says that a stage gets the map that was meant for it.
-/

namespace Psbc.Compile

open Bytes

/-! ## Packing -/

structure VkSpecializationMapEntry where
  constantID : Nat
  offset : Nat
  size : Nat
  deriving DecidableEq, Repr

structure VkSpecializationInfo where
  mapEntries : List VkSpecializationMapEntry
  dataSize : Nat
  data : Nat → Byte

def constantBytes (c : PsbcSpecializationConstant) : List Byte :=
  (List.range c.size).map fun i => c.data.getD i 0

/-- One turn of the packing loop of `prepare_stage_nir`. -/
def packConstant (info : VkSpecializationInfo) (source : PsbcSpecializationConstant) :
    VkSpecializationInfo where
  mapEntries := info.mapEntries ++ [⟨source.constantId, info.dataSize % 2 ^ 32, source.size⟩]
  dataSize := info.dataSize + source.size
  data := Buffer.write info.data info.dataSize (constantBytes source)

def packConstants (sources : List PsbcSpecializationConstant) : VkSpecializationInfo :=
  sources.foldl packConstant ⟨[], 0, fun _ => 0⟩

/-- `stage->spec_info` as `prepare_stage_nir` leaves it. -/
def specInfo (opts : PsbcCompileOptions) : Option VkSpecializationInfo :=
  if opts.specializationConstants.count ≠ 0 then
    some (packConstants opts.specializationConstants.toList)
  else none

/-! ## Unpacking -/

structure NirSpirvSpecializationEntry where
  id : Nat
  size : Nat
  data : List Byte
  definedOnModule : Bool
  deriving DecidableEq, Repr

/-- `vtn_add_specialization_entry`: the entry it fills. -/
def vtnAddSpecializationEntry (entryId entrySize : Nat) (entryData : List Byte)
    (definedOnModule : Bool) : NirSpirvSpecializationEntry :=
  ⟨entryId, entrySize, if 0 < entrySize then entryData else [], definedOnModule⟩

/-- The turn of the unpacking loop for one entry: `none` drops the whole specialization. -/
def unpackEntry (info : VkSpecializationInfo) (entry : VkSpecializationMapEntry) :
    Option NirSpirvSpecializationEntry :=
  if info.dataSize < entry.offset ∨ info.dataSize - entry.offset < entry.size then none
  else
    some (vtnAddSpecializationEntry entry.constantID (entry.size % 2 ^ 32)
      (Buffer.read info.data entry.offset (entry.size % 2 ^ 32)) false)

def vkSpecInfoToNirSpirv (info : Option VkSpecializationInfo) :
    Option (List NirSpirvSpecializationEntry) :=
  match info with
  | none => none
  | some info =>
    if info.mapEntries.length = 0 then none else info.mapEntries.mapM (unpackEntry info)

/-! ## The stages of a call -/

/-- A stage that a call prepares. -/
inductive Role where
  | main
  | previous
  | nextLink
  deriving DecidableEq, Repr

/-- The options that `prepare_stage_nir` gets for a stage. -/
def Role.options (o : PsbcCompileOptions) : Role → PsbcCompileOptions
  | main => o
  | previous => selectLinkedParameters o o.previousParameters
  | nextLink => selectLinkedParameters o o.nextLinkParameters

/-- The calls of `prepare_stage_nir` are made with these options. -/
theorem lowerModules_eq (mesa : Mesa) (m : Modules) (o : PsbcCompileOptions) :
    lowerModules mesa m o = (do
      prepareStageNir mesa (Role.main.options o) (psbcToMesaStage o.stage) m.spirv m.inputNir
      Traced.onlyIf (m.request o).pairedPrevious
        (prepareStageNir mesa (Role.previous.options o) (m.request o).previousRole
          m.previousSpirv m.previousInputNir)
      Traced.onlyIf ((m.request o).pairedHull && m.nextLinkSpirv.isSome)
        (prepareStageNir mesa (Role.nextLink.options o) .tessEval m.nextLinkSpirv none)
      Traced.onlyIf (m.request o).pairedTessGeometry
        (prepareStageNir mesa (Role.nextLink.options o) .tessCtrl m.nextLinkSpirv none)) := rfl

/-- The constants meant for a linked stage: its own where it has parameters, and those of the
call otherwise. -/
def linkedConstants (o : PsbcCompileOptions) (source : PsbcLinkedStageParameters) :
    Counted PsbcSpecializationConstant :=
  if source.enabled then source.specializationConstants else o.specializationConstants

def Role.constants (o : PsbcCompileOptions) : Role → Counted PsbcSpecializationConstant
  | main => o.specializationConstants
  | previous => linkedConstants o o.previousParameters
  | nextLink => linkedConstants o o.nextLinkParameters

/-! ## Maps from ids to bytes -/

abbrev SpecializationMap := List (Nat × List Byte)

/-- What the caller wrote. -/
def constantsMap (l : List PsbcSpecializationConstant) : SpecializationMap :=
  l.map fun c => (c.constantId, constantBytes c)

/-- What RADV's stage holds. -/
def infoMap (info : Option VkSpecializationInfo) : SpecializationMap :=
  match info with
  | none => []
  | some info =>
    info.mapEntries.map fun e => (e.constantID, Buffer.read info.data e.offset e.size)

/-- What `spirv_to_nir` gets. -/
def nirMap (spec : Option (List NirSpirvSpecializationEntry)) : SpecializationMap :=
  (spec.getD []).map fun e => (e.id, e.data)

/-! ## Packing is faithful -/

/-- An entry and the constant it came from. -/
structure Holds (info : VkSpecializationInfo) (c : PsbcSpecializationConstant)
    (e : VkSpecializationMapEntry) : Prop where
  id : e.constantID = c.constantId
  size : e.size = c.size
  inside : e.offset + e.size ≤ info.dataSize
  bytes : Buffer.read info.data e.offset e.size = constantBytes c

/-- The packed form of a list of constants. -/
structure PackedAs (l : List PsbcSpecializationConstant) (info : VkSpecializationInfo) : Prop where
  total : info.dataSize = Placement.total PsbcSpecializationConstant.size l
  entries : List.Forall₂ (Holds info) l info.mapEntries
  apart : info.mapEntries.Pairwise fun a b => a.offset + a.size ≤ b.offset

theorem length_constantBytes (c : PsbcSpecializationConstant) :
    (constantBytes c).length = c.size := by
  simp [constantBytes]

theorem inside_of_holds {l : List PsbcSpecializationConstant} {info : VkSpecializationInfo}
    {es : List VkSpecializationMapEntry} (h : List.Forall₂ (Holds info) l es) :
    ∀ e ∈ es, e.offset + e.size ≤ info.dataSize := by
  induction h with
  | nil => simp
  | cons hhead htail ih => exact List.forall_mem_cons.mpr ⟨hhead.inside, ih⟩

/-- A later constant lies behind and leaves the entry as it is. -/
theorem Holds.packConstant {info : VkSpecializationInfo} {c : PsbcSpecializationConstant}
    {e : VkSpecializationMapEntry} (h : Holds info c e) (source : PsbcSpecializationConstant) :
    Holds (packConstant info source) c e where
  id := h.id
  size := h.size
  inside := Nat.le_trans h.inside (Nat.le_add_right _ _)
  bytes := (Buffer.read_write_of_le h.inside).trans h.bytes

theorem holds_packConstant {info : VkSpecializationInfo} (hsize : info.dataSize < 2 ^ 32)
    (source : PsbcSpecializationConstant) :
    Holds (packConstant info source) source
      ⟨source.constantId, info.dataSize % 2 ^ 32, source.size⟩ := by
  rw [Nat.mod_eq_of_lt hsize]
  refine ⟨rfl, rfl, Nat.le_refl _, ?_⟩
  dsimp only [packConstant]
  rw [← length_constantBytes source]
  exact Buffer.read_write_self

theorem PackedAs.packConstant {l : List PsbcSpecializationConstant} {info : VkSpecializationInfo}
    (h : PackedAs l info) (hsize : info.dataSize < 2 ^ 32) (source : PsbcSpecializationConstant) :
    PackedAs (l ++ [source]) (packConstant info source) where
  total := by
    dsimp only [Compile.packConstant]
    rw [h.total, Placement.total_append, Placement.total_cons, Placement.total_nil, Nat.add_zero]
  entries := by
    refine List.rel_append (h.entries.imp fun c e he => he.packConstant source) ?_
    exact .cons (holds_packConstant hsize source) .nil
  apart := by
    refine List.pairwise_append.mpr ⟨h.apart, List.pairwise_singleton _ _, fun a ha b hb => ?_⟩
    rw [List.mem_singleton.mp hb]
    dsimp only
    rw [Nat.mod_eq_of_lt hsize]
    exact inside_of_holds h.entries a ha

/-- The packing loop, for constants whose bytes can be counted in 32 bits. -/
theorem packedAs_packConstants {l : List PsbcSpecializationConstant}
    (hsize : Placement.total PsbcSpecializationConstant.size l < 2 ^ 32) :
    PackedAs l (packConstants l) := by
  induction l using List.reverseRecOn with
  | nil => exact ⟨rfl, .nil, .nil⟩
  | append_singleton l c ih =>
    rw [Placement.total_append] at hsize
    have hl := ih (by omega)
    rw [packConstants, List.foldl_concat, ← packConstants]
    exact hl.packConstant (by rw [hl.total]; omega) c

theorem map_of_holds {l : List PsbcSpecializationConstant} {info : VkSpecializationInfo}
    {es : List VkSpecializationMapEntry} (h : List.Forall₂ (Holds info) l es) :
    es.map (fun e => (e.constantID, Buffer.read info.data e.offset e.size)) =
      constantsMap l := by
  unfold constantsMap
  induction h with
  | nil => rfl
  | cons hhead htail ih => rw [List.map_cons, List.map_cons, ih, hhead.id, hhead.bytes]

/-! ## Unpacking gives the constants back -/

def nirEntry (c : PsbcSpecializationConstant) : NirSpirvSpecializationEntry :=
  ⟨c.constantId, c.size, constantBytes c, false⟩

theorem Holds.unpackEntry {info : VkSpecializationInfo} {c : PsbcSpecializationConstant}
    {e : VkSpecializationMapEntry} (h : Holds info c e) (hsize : info.dataSize < 2 ^ 32) :
    unpackEntry info e = some (nirEntry c) := by
  have hinside := h.inside
  have hdata : (if 0 < c.size then constantBytes c else []) = constantBytes c := by
    split
    · rfl
    · next hzero =>
      exact (List.eq_nil_of_length_eq_zero (by rw [length_constantBytes]; omega)).symm
  rw [Compile.unpackEntry, if_neg (by omega), Nat.mod_eq_of_lt (by omega), h.bytes, h.id,
    vtnAddSpecializationEntry, h.size, hdata]
  rfl

theorem mapM_unpackEntry {l : List PsbcSpecializationConstant} {info : VkSpecializationInfo}
    {es : List VkSpecializationMapEntry} (h : List.Forall₂ (Holds info) l es)
    (hsize : info.dataSize < 2 ^ 32) :
    es.mapM (unpackEntry info) = some (l.map nirEntry) := by
  induction h with
  | nil => rfl
  | cons hhead htail ih =>
    rw [List.mapM_cons, hhead.unpackEntry hsize, ih]
    rfl

/-! ## Accepted constants -/

/-- The facts behind `specialization_parameters_valid`. -/
structure ConstantsAccepted (c : Counted PsbcSpecializationConstant) : Prop where
  count_le : c.count ≤ psbcMaxSpecializationConstants
  size_le : ∀ s ∈ c.toList, s.size ≤ psbcMaxSpecializationBytes
  ids : c.toList.Pairwise fun a b => a.constantId ≠ b.constantId

theorem constantsAccepted {c : Counted PsbcSpecializationConstant}
    (h : specializationParametersValid c = true) : ConstantsAccepted c := by
  unfold specializationParametersValid at h
  split at h
  · exact absurd h (by decide)
  · next hcount =>
    simp only [List.all_eq_true, List.mem_range, Bool.and_eq_true, bne_iff_ne,
      decide_eq_true_eq] at h
    exact ⟨Nat.le_of_not_lt hcount, Counted.forall_mem_toList_iff.mpr fun i hi => (h i hi).1.2,
      Counted.pairwise_toList_iff.mpr fun i hi j hj => (h i hi).2 j hj⟩

theorem ConstantsAccepted.total_le {c : Counted PsbcSpecializationConstant}
    (h : ConstantsAccepted c) : Placement.total PsbcSpecializationConstant.size c.toList ≤ 512 := by
  have hsum := List.sum_le_card_nsmul (c.toList.map PsbcSpecializationConstant.size)
    psbcMaxSpecializationBytes fun n hn => by
      obtain ⟨s, hs, rfl⟩ := List.mem_map.mp hn
      exact h.size_le s hs
  have hcount : c.count ≤ 64 := h.count_le
  have hbytes : psbcMaxSpecializationBytes = 8 := rfl
  simp only [List.length_map, Counted.toList, List.length_range, smul_eq_mul, hbytes] at hsum
  unfold Placement.total Counted.toList
  omega

theorem Role.options_constants (o : PsbcCompileOptions) (role : Role) :
    (role.options o).specializationConstants = role.constants o := by
  cases role with
  | main => rfl
  | previous =>
    simp only [options, selectLinkedParameters, constants, linkedConstants]
    split <;> rfl
  | nextLink =>
    simp only [options, selectLinkedParameters, constants, linkedConstants]
    split <;> rfl

theorem Role.constantsAccepted {o : PsbcCompileOptions} (h : o.specializationsValid = true)
    (role : Role) : ConstantsAccepted (role.constants o) := by
  simp only [PsbcCompileOptions.specializationsValid, Bool.and_eq_true, Bool.or_eq_true,
    Bool.not_eq_true'] at h
  obtain ⟨⟨hmain, hprevious⟩, hnext⟩ := h
  have hlinked : ∀ source : PsbcLinkedStageParameters,
      (source.enabled = false ∨
        specializationParametersValid source.specializationConstants = true) →
      specializationParametersValid (linkedConstants o source) = true := by
    intro source hsource
    unfold linkedConstants
    split
    · next henabled => exact hsource.resolve_left (by simp [henabled])
    · exact hmain
  cases role with
  | main => exact Compile.constantsAccepted hmain
  | previous => exact Compile.constantsAccepted (hlinked _ hprevious)
  | nextLink => exact Compile.constantsAccepted (hlinked _ hnext)

/-! ## The map of a stage -/

/-- What a stage gets of the constants. -/
structure Specialized (o : PsbcCompileOptions) (role : Role) : Prop where
  /-- Mesa gets the map that is meant for the stage, in RADV's stage and as the entries that
  `spirv_to_nir` applies. -/
  handed : infoMap (specInfo (role.options o)) = constantsMap (role.constants o).toList
  received : nirMap (vkSpecInfoToNirSpirv (specInfo (role.options o))) =
    constantsMap (role.constants o).toList
  /-- It is a map: no id has two values. -/
  keys : ((constantsMap (role.constants o).toList).map Prod.fst).Nodup
  /-- An empty map is no specialization. -/
  none_iff : vkSpecInfoToNirSpirv (specInfo (role.options o)) = none ↔
    (role.constants o).count = 0
  /-- The entries lie in the data, one behind the other. -/
  inside : ∀ info ∈ specInfo (role.options o), ∀ e ∈ info.mapEntries,
    e.offset + e.size ≤ info.dataSize
  apart : ∀ info ∈ specInfo (role.options o),
    info.mapEntries.Pairwise fun a b => a.offset + a.size ≤ b.offset
  bounded : ∀ info ∈ specInfo (role.options o), info.dataSize ≤ 512

section

variable {o : PsbcCompileOptions} {role : Role}

theorem specInfo_of_count_eq_zero (h : (role.constants o).count = 0) :
    specInfo (role.options o) = none := by
  rw [specInfo, Role.options_constants, if_neg (by omega)]

theorem specInfo_of_count_pos (h : 0 < (role.constants o).count) :
    specInfo (role.options o) = some (packConstants (role.constants o).toList) := by
  rw [specInfo, Role.options_constants, if_pos (by omega)]

theorem vkSpecInfoToNirSpirv_packConstants {l : List PsbcSpecializationConstant} (hl : l ≠ [])
    (hsize : Placement.total PsbcSpecializationConstant.size l < 2 ^ 32) :
    vkSpecInfoToNirSpirv (some (packConstants l)) = some (l.map nirEntry) := by
  have hpacked := packedAs_packConstants hsize
  have hlength : (packConstants l).mapEntries.length ≠ 0 := by
    rw [← hpacked.entries.length_eq]
    exact fun hzero => hl (List.eq_nil_of_length_eq_zero hzero)
  rw [vkSpecInfoToNirSpirv, if_neg hlength]
  exact mapM_unpackEntry hpacked.entries (hpacked.total ▸ hsize)

end

/-- **Specialization maps reach their stage unchanged**, whether it is compiled or linked. -/
theorem specialized (o : PsbcCompileOptions) (accepted : o.specializationsValid = true)
    (role : Role) : Specialized o role := by
  have hconstants := role.constantsAccepted accepted
  have htotal := hconstants.total_le
  have hkeys : ((constantsMap (role.constants o).toList).map Prod.fst).Nodup := by
    rw [constantsMap, List.map_map]
    exact List.pairwise_map.mpr hconstants.ids
  rcases Nat.eq_zero_or_pos (role.constants o).count with hzero | hpos
  · have hinfo := specInfo_of_count_eq_zero hzero
    have hempty : (role.constants o).toList = [] := by simp [Counted.toList, hzero]
    have hnone : ∀ {P : VkSpecializationInfo → Prop}, ∀ info ∈ specInfo (role.options o), P info :=
      fun info h => by simp [hinfo] at h
    exact ⟨by rw [hinfo, hempty]; rfl, by rw [hinfo, hempty]; rfl, hkeys,
      by simp [hinfo, vkSpecInfoToNirSpirv, hzero], hnone, hnone, hnone⟩
  · have hinfo := specInfo_of_count_pos hpos
    have hne : (role.constants o).toList ≠ [] := by
      simpa [Counted.toList] using Nat.ne_of_gt hpos
    have hpacked := packedAs_packConstants (l := (role.constants o).toList) (by omega)
    have hspec := vkSpecInfoToNirSpirv_packConstants hne (by omega)
    have hsome : ∀ {P : VkSpecializationInfo → Prop},
        P (packConstants (role.constants o).toList) →
          ∀ info ∈ specInfo (role.options o), P info := by
      intro P h info hmem
      rw [hinfo, Option.mem_some_iff] at hmem
      exact hmem ▸ h
    refine ⟨?_, ?_, hkeys, ?_, hsome (inside_of_holds hpacked.entries), hsome hpacked.apart,
      hsome (hpacked.total ▸ htotal)⟩
    · rw [hinfo]
      exact map_of_holds hpacked.entries
    · rw [hinfo, hspec, nirMap, Option.getD_some, List.map_map]
      rfl
    · rw [hinfo, hspec]
      simp only [reduceCtorEq, false_iff]
      omega

/-- Two constants for the compiled stage, one of the same id for the previous one, and a
link-only stage that asks for none. -/
def mixedSpecializations : PsbcCompileOptions :=
  { PsbcCompileOptions.fragmentOptions [] with
    specializationConstants :=
      ⟨2, fun i => if i = 0 then ⟨3, 4, [1, 2, 3, 4, 0, 0, 0, 0]⟩ else ⟨7, 1, [9]⟩⟩
    previousParameters := ⟨true, none, ⟨1, fun _ => ⟨3, 2, [5, 6]⟩⟩⟩
    nextLinkParameters := ⟨true, none, ⟨0, fun _ => ⟨3, 4, [7, 7, 7, 7]⟩⟩⟩ }

theorem mixedSpecializations_specialized :
    (∀ role, Specialized mixedSpecializations role) ∧
      nirMap (vkSpecInfoToNirSpirv (specInfo (Role.main.options mixedSpecializations))) =
        [(3, [1, 2, 3, 4]), (7, [9])] ∧
      nirMap (vkSpecInfoToNirSpirv (specInfo (Role.previous.options mixedSpecializations))) =
        [(3, [5, 6])] ∧
      vkSpecInfoToNirSpirv (specInfo (Role.nextLink.options mixedSpecializations)) = none :=
  ⟨specialized mixedSpecializations (by decide), by decide, by decide, by decide⟩

end Psbc.Compile
