import Psbc.Lib.Ranges
import Psbc.Compile.Options

/-!
# Accepted descriptor bindings

What `psbc_compile_impl` knows of the descriptor bindings once its checks have passed: each
binding passes on its own, and no two have the same set and number. A binding's record is the
bytes from its offset on, `array_size` elements of its stride.

The checks give every record the width of its type and whole units of sixteen bytes. They do
not look at two records together, so the caller's offsets decide whether records of a set
meet: `recordsChecked` has the sweep that tells.
-/

namespace Psbc

/-- The entries that count. -/
def Counted.toList {α : Type} (c : Counted α) : List α := (List.range c.count).map c.entry

theorem Counted.pairwise_toList_iff {α : Type} {c : Counted α} {R : α → α → Prop} :
    c.toList.Pairwise R ↔ ∀ i < c.count, ∀ j < i, R (c.entry j) (c.entry i) := by
  rw [toList, List.pairwise_map, List.pairwise_iff_getElem]
  simp only [List.length_range, List.getElem_range]
  exact ⟨fun h i hi j hj => h j i (by omega) hi hj, fun h j i _ hi hj => h i hi j hj⟩

theorem Counted.forall_mem_toList_iff {α : Type} {c : Counted α} {P : α → Prop} :
    (∀ a ∈ c.toList, P a) ↔ ∀ i < c.count, P (c.entry i) := by
  simp [toList]

namespace PsbcDescriptorBinding

def key (b : PsbcDescriptorBinding) : Nat × Nat := (b.set, b.binding)

def stop (b : PsbcDescriptorBinding) : Nat := b.offset + b.arraySize * b.stride

/-- The facts behind the checks of one binding. -/
structure Checked (b : PsbcDescriptorBinding) : Prop where
  set_lt : b.set < psbcMaxDescriptorSets
  binding_lt : b.binding < psbcMaxDescriptorBindings
  type_valid : b.type.valid = true
  arraySize_pos : 0 < b.arraySize
  stride_eq : b.stride = b.type.expectedStride
  offset_aligned : b.offset % 16 = 0
  stop_le : b.stop ≤ 0xffffffff

theorem valid_iff {b : PsbcDescriptorBinding} : b.valid = true ↔ b.Checked := by
  simp only [valid, Bool.and_eq_true, decide_eq_true_eq, bne_iff_ne, beq_iff_eq]
  constructor
  · rintro ⟨⟨⟨⟨⟨⟨hset, hbinding⟩, htype⟩, hsize⟩, hstride⟩, hoffset⟩, hstop⟩
    exact ⟨hset, hbinding, htype, Nat.pos_of_ne_zero hsize, hstride, hoffset, hstop⟩
  · intro h
    exact ⟨⟨⟨⟨⟨⟨h.set_lt, h.binding_lt⟩, h.type_valid⟩, Nat.ne_of_gt h.arraySize_pos⟩,
      h.stride_eq⟩, h.offset_aligned⟩, h.stop_le⟩

end PsbcDescriptorBinding

theorem PsbcDescriptorType.expectedStride_units (t : PsbcDescriptorType) :
    16 ≤ t.expectedStride ∧ t.expectedStride % 16 = 0 := by
  cases t <;> decide

namespace PsbcDescriptorBinding

variable {b : PsbcDescriptorBinding}

theorem Checked.offset_lt_stop (h : b.Checked) : b.offset < b.stop := by
  have hstride := b.type.expectedStride_units.1
  have hsize : 0 < b.arraySize * b.stride :=
    Nat.mul_pos h.arraySize_pos (by rw [h.stride_eq]; omega)
  unfold stop
  omega

theorem Checked.stop_aligned (h : b.Checked) : b.stop % 16 = 0 := by
  have hstride : b.stride % 16 = 0 := h.stride_eq ▸ b.type.expectedStride_units.2
  rw [stop, Nat.add_mod, h.offset_aligned, Nat.mul_mod, hstride]
  rfl

end PsbcDescriptorBinding

namespace PsbcCompileOptions

def bindings (o : PsbcCompileOptions) : List PsbcDescriptorBinding := o.descriptorBindings.toList

structure DescriptorsAccepted (o : PsbcCompileOptions) : Prop where
  count_le : o.descriptorBindings.count ≤ psbcMaxDescriptorBindings
  valid : o.descriptorBindingsValid = true

variable {o : PsbcCompileOptions}

theorem descriptorBindingsValid_iff :
    o.descriptorBindingsValid = true ↔
      (∀ b ∈ o.bindings, b.Checked) ∧ o.bindings.Pairwise fun a b => a.key ≠ b.key := by
  rw [bindings, Counted.forall_mem_toList_iff, Counted.pairwise_toList_iff]
  simp only [descriptorBindingsValid, List.all_eq_true, List.mem_range, Bool.and_eq_true,
    PsbcDescriptorBinding.valid_iff, Bool.not_eq_true', Bool.and_eq_false_imp, beq_iff_eq,
    beq_eq_false_iff_ne, forall_and, PsbcDescriptorBinding.key, ne_eq, Prod.mk.injEq, not_and]

theorem DescriptorsAccepted.checked (h : o.DescriptorsAccepted) :
    ∀ b ∈ o.bindings, b.Checked := (descriptorBindingsValid_iff.mp h.valid).1

theorem DescriptorsAccepted.keys (h : o.DescriptorsAccepted) :
    o.bindings.Pairwise fun a b => a.key ≠ b.key := (descriptorBindingsValid_iff.mp h.valid).2

/-! ## Records of a set -/

def setBindings (o : PsbcCompileOptions) (set : Nat) : List PsbcDescriptorBinding :=
  o.bindings.filter (·.set = set)

open PsbcDescriptorBinding (offset stop)

/-- No two bindings of a set share a byte. -/
def RecordsApart (o : PsbcCompileOptions) : Prop :=
  ∀ a ∈ o.bindings, ∀ b ∈ o.bindings, a.set = b.set → a.binding ≠ b.binding →
    Ranges.Apart offset stop a b

theorem recordsApart_iff_pairwise (h : o.DescriptorsAccepted) :
    o.RecordsApart ↔ ∀ set, (o.setBindings set).Pairwise (Ranges.Apart offset stop) := by
  have hset : ∀ {set b}, b ∈ o.setBindings set ↔ b ∈ o.bindings ∧ b.set = set := by
    simp [setBindings]
  constructor
  · intro hapart set
    refine (h.keys.filter _).imp_of_mem fun ha hb hkey => ?_
    obtain ⟨ha, hseta⟩ := hset.mp ha
    obtain ⟨hb, hsetb⟩ := hset.mp hb
    have hsame := hseta.trans hsetb.symm
    exact hapart _ ha _ hb hsame fun hbinding => hkey (Prod.ext hsame hbinding)
  · intro hpairwise a ha b hb hsame hbinding
    have hne : a ≠ b := fun heq => hbinding (congrArg _ heq)
    exact (hpairwise b.set).forall (hset.mpr ⟨ha, hsame⟩) (hset.mpr ⟨hb, rfl⟩) hne

/-- What the checks say of the records. -/
structure RecordsChecked (o : PsbcCompileOptions) : Prop where
  /-- A record has the width of its type. -/
  width : ∀ b ∈ o.bindings, b.type.valid = true ∧ b.stride = b.type.expectedStride
  /-- It is not empty, consists of whole units and ends inside the 32-bit range. -/
  units : ∀ b ∈ o.bindings, b.offset % 16 = 0 ∧ b.stop % 16 = 0 ∧ b.offset < b.stop ∧
    b.stop < 2 ^ 32
  /-- Whether two records of a set meet is up to the caller's offsets. -/
  apart_iff : o.RecordsApart ↔ ∀ set, Ranges.Sweeps offset stop (o.setBindings set)

/-- **Accepted records have the width of their type; they are apart when the offsets keep
them apart.** -/
theorem DescriptorsAccepted.recordsChecked (h : o.DescriptorsAccepted) : o.RecordsChecked where
  width b hb := ⟨(h.checked b hb).type_valid, (h.checked b hb).stride_eq⟩
  units b hb := by
    have hchecked := h.checked b hb
    have hstop := hchecked.stop_le
    exact ⟨hchecked.offset_aligned, hchecked.stop_aligned, hchecked.offset_lt_stop, by omega⟩
  apart_iff := by
    rw [recordsApart_iff_pairwise h]
    refine forall_congr' fun set => Ranges.pairwise_apart_iff_sweeps fun b hb => ?_
    exact (h.checked b (List.mem_of_mem_filter hb)).offset_lt_stop

/-! ### Records on top of one another -/

def fragmentOptions (bindings : List PsbcDescriptorBinding) : PsbcCompileOptions :=
  { target := .ps5, stage := .fragment, entrypoint := none, ngg := false,
    primitiveIdPerPrimitive := false, ps5GlobalStreamout := false,
    descriptorBindings := ⟨bindings.length, fun i => bindings.getD i ⟨0, 0, .none, 0, 0, 0⟩⟩,
    specializationConstants := ⟨0, fun _ => ⟨0, 0, []⟩⟩,
    previousParameters := ⟨false, none, ⟨0, fun _ => ⟨0, 0, []⟩⟩⟩,
    nextLinkParameters := ⟨false, none, ⟨0, fun _ => ⟨0, 0, []⟩⟩⟩,
    patchControlPoints := 0, spiShaderColFormat := 0, colorIsInt8 := 0, colorIsInt10 := 0,
    capabilities := Spirv.noCapabilities }

/-- Set 0 of the library's own test of static descriptor use: all records start at zero. -/
def stackedBindings : List PsbcDescriptorBinding :=
  [⟨0, 0, .uniformBuffer, 1, 0, 16⟩, ⟨0, 2, .combinedImageSampler, 4, 0, 48⟩,
    ⟨0, 5, .uniformBuffer, 1, 0, 16⟩, ⟨0, 7, .combinedImageSampler, 1, 0, 48⟩,
    ⟨0, 9, .combinedImageSampler, 1, 0, 48⟩]

theorem stackedBindings_accepted : (fragmentOptions stackedBindings).DescriptorsAccepted :=
  ⟨by decide, by decide⟩

/-- The checks accept a buffer and a sampled image of another width in the same bytes. -/
theorem stackedBindings_not_apart :
    (fragmentOptions stackedBindings).DescriptorsAccepted ∧
      (∃ a ∈ stackedBindings, ∃ b ∈ stackedBindings, a.set = b.set ∧ a.binding ≠ b.binding ∧
        a.offset = b.offset ∧ a.stride ≠ b.stride) ∧
      ¬ (fragmentOptions stackedBindings).RecordsApart := by
  refine ⟨stackedBindings_accepted, by decide, fun hapart => ?_⟩
  have hmeet := hapart ⟨0, 0, .uniformBuffer, 1, 0, 16⟩ (by decide)
    ⟨0, 2, .combinedImageSampler, 4, 0, 48⟩ (by decide) rfl (by decide)
  unfold Ranges.Apart at hmeet
  exact absurd hmeet (by decide)

theorem stackedBindings_recordsChecked : (fragmentOptions stackedBindings).RecordsChecked :=
  DescriptorsAccepted.recordsChecked ⟨by decide, by decide⟩

end PsbcCompileOptions

end Psbc
