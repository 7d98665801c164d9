import Mathlib.Data.List.Nodup
import Psbc.Descriptors.Bindings
import Psbc.Lib.Scatter

/-!
# Descriptor set layouts

The loop that turns the caller's bindings into the set layouts Mesa reads. A set's record of a
binding is written at the binding's number; the number of bindings, the size of the set and
the number of sets are running maxima, computed in 32 bits. Storage starts out zeroed, so a
number that nobody declares is left as an empty record.

`descriptorLayout_faithful` says that for accepted bindings the layouts are the declaration,
in whatever order it is listed.
-/

namespace Psbc.Descriptors

open Scatter PsbcCompileOptions

inductive VkDescriptorType where
  | sampler
  | combinedImageSampler
  | sampledImage
  | storageImage
  | uniformTexelBuffer
  | storageTexelBuffer
  | uniformBuffer
  | storageBuffer
  | inputAttachment
  deriving DecidableEq, Repr

/-- The conditional chain over the binding's type. -/
def vkDescriptorType : PsbcDescriptorType → VkDescriptorType
  | .uniformBuffer => .uniformBuffer
  | .uniformTexelBuffer => .uniformTexelBuffer
  | .storageBuffer => .storageBuffer
  | .inputAttachment => .inputAttachment
  | .storageImage => .storageImage
  | .sampler => .sampler
  | .sampledImage => .sampledImage
  | .storageTexelBuffer => .storageTexelBuffer
  | _ => .combinedImageSampler

/-- The fields of `radv_descriptor_set_binding_layout` that the loop writes. -/
structure BindingLayout where
  type : VkDescriptorType
  arraySize : Nat
  offset : Nat
  size : Nat
  deriving DecidableEq, Repr

/-- A zeroed record; zero is the sampler type. -/
def BindingLayout.empty : BindingLayout := ⟨.sampler, 0, 0, 0⟩

/-- The fields of `radv_descriptor_set_layout` that the loop writes. -/
structure SetLayout where
  bindingCount : Nat
  size : Nat
  binding : Nat → BindingLayout

def SetLayout.zero : SetLayout := ⟨0, 0, fun _ => .empty⟩

def bindingLayout (source : PsbcDescriptorBinding) : BindingLayout :=
  ⟨vkDescriptorType source.type, source.arraySize, source.offset, source.stride⟩

/-- `source->offset + source->array_size * source->stride` in 32 bits. -/
def endOffset (source : PsbcDescriptorBinding) : Nat :=
  (source.offset + source.arraySize * source.stride) % 2 ^ 32

/-- The set layouts and the number of sets while the loop runs. -/
structure Storage where
  sets : Nat → SetLayout
  setCount : Nat

def Storage.zero : Storage := ⟨fun _ => .zero, 0⟩

def Storage.add (storage : Storage) (source : PsbcDescriptorBinding) : Storage where
  sets := Function.update storage.sets source.set
    { bindingCount := max (storage.sets source.set).bindingCount (source.binding + 1)
      size := max (storage.sets source.set).size (endOffset source)
      binding := Function.update (storage.sets source.set).binding source.binding
        (bindingLayout source) }
  setCount := max storage.setCount (source.set + 1)

/-- `radv_shader_layout`; a set without a layout has the null pointer. -/
structure ShaderLayout where
  numSets : Nat
  set : Nat → Option SetLayout

/-- The layout a stage is compiled with. -/
def descriptorLayout (o : PsbcCompileOptions) : ShaderLayout :=
  let storage := o.bindings.foldl Storage.add .zero
  { numSets := storage.setCount
    set := fun set => if set < storage.setCount then some (storage.sets set) else none }

/-! ## The loop -/

section Loop

variable {storage : Storage} {b : PsbcDescriptorBinding}

theorem Storage.sets_add_self :
    (storage.add b).sets b.set =
      { bindingCount := max (storage.sets b.set).bindingCount (b.binding + 1)
        size := max (storage.sets b.set).size (endOffset b)
        binding := Function.update (storage.sets b.set).binding b.binding (bindingLayout b) } :=
  Function.update_self ..

theorem Storage.sets_add_of_ne {set : Nat} (h : set ≠ b.set) :
    (storage.add b).sets set = storage.sets set := Function.update_of_ne h ..

/-- One turn writes one record of the table. -/
theorem Storage.binding_add (k : Nat × Nat) :
    ((storage.add b).sets k.1).binding k.2 =
      Function.update (fun k => (storage.sets k.1).binding k.2) b.key (bindingLayout b) k := by
  obtain ⟨set, n⟩ := k
  by_cases hset : set = b.set
  · subst hset
    by_cases hn : n = b.binding
    · subst hn
      rw [sets_add_self, show (b.set, b.binding) = b.key from rfl, Function.update_self]
      exact Function.update_self ..
    · have hkey : (b.set, n) ≠ b.key := fun heq => hn (congrArg Prod.snd heq)
      rw [sets_add_self, Function.update_of_ne hkey]
      exact Function.update_of_ne hn ..
  · have hkey : (set, n) ≠ b.key := fun heq => hset (congrArg Prod.fst heq)
    rw [sets_add_of_ne hset, Function.update_of_ne hkey]

variable (l : List PsbcDescriptorBinding) (storage)

/-- The records are a table filled at the bindings' keys. -/
theorem binding_foldl_add (set n : Nat) :
    ((l.foldl Storage.add storage).sets set).binding n =
      scatter PsbcDescriptorBinding.key bindingLayout l
        (fun k => (storage.sets k.1).binding k.2) (set, n) := by
  induction l generalizing storage with
  | nil => rfl
  | cons b l ih =>
    rw [List.foldl_cons, ih, scatter_cons]
    congr 1
    exact funext fun k => Storage.binding_add k

/-- A field of a set that each turn raises is a running maximum over the set's bindings. -/
theorem field_foldl_add {field : SetLayout → Nat} {measure : PsbcDescriptorBinding → Nat}
    (h : ∀ storage b, field ((Storage.add storage b).sets b.set) =
      max (field (storage.sets b.set)) (measure b)) (set : Nat) :
    field ((l.foldl Storage.add storage).sets set) =
      highest (field (storage.sets set)) ((l.filter (·.set = set)).map measure) := by
  induction l generalizing storage with
  | nil => rfl
  | cons b l ih =>
    rw [List.foldl_cons, ih]
    by_cases hset : b.set = set
    · rw [List.filter_cons_of_pos (by simpa using hset), List.map_cons, highest, highest,
        List.foldl_cons, ← hset, h]
    · rw [List.filter_cons_of_neg (by simpa using hset), Storage.sets_add_of_ne (Ne.symm hset)]

theorem bindingCount_foldl_add (set : Nat) :
    ((l.foldl Storage.add storage).sets set).bindingCount =
      highest (storage.sets set).bindingCount ((l.filter (·.set = set)).map (·.binding + 1)) :=
  field_foldl_add storage l (fun _ _ => congrArg _ Storage.sets_add_self) set

theorem size_foldl_add (set : Nat) :
    ((l.foldl Storage.add storage).sets set).size =
      highest (storage.sets set).size ((l.filter (·.set = set)).map endOffset) :=
  field_foldl_add storage l (fun _ _ => congrArg _ Storage.sets_add_self) set

theorem setCount_foldl_add :
    (l.foldl Storage.add storage).setCount = highest storage.setCount (l.map (·.set + 1)) := by
  induction l generalizing storage with
  | nil => rfl
  | cons b l ih =>
    rw [List.foldl_cons, ih, List.map_cons, highest, highest, List.foldl_cons]
    rfl

end Loop

/-! ## The layout of accepted bindings -/

variable {o : PsbcCompileOptions}

/-- The 64-bit check of the bindings keeps the 32-bit sum from wrapping. -/
theorem endOffset_eq_stop {b : PsbcDescriptorBinding} (h : b.Checked) : endOffset b = b.stop := by
  have hstop : b.stop < 2 ^ 32 := Nat.lt_succ_of_le h.stop_le
  exact Nat.mod_eq_of_lt hstop

theorem key_inj (h : o.DescriptorsAccepted) {a b : PsbcDescriptorBinding} (ha : a ∈ o.bindings)
    (hb : b ∈ o.bindings) (hkey : a.key = b.key) : a = b := by
  by_contra hne
  have hsymm : Std.Symm fun a b : PsbcDescriptorBinding => a.key ≠ b.key := ⟨fun _ _ => Ne.symm⟩
  exact h.keys.forall ha hb hne hkey

/-- The types that a binding may declare, with those of Vulkan. -/
def descriptorTypes : List (PsbcDescriptorType × VkDescriptorType) :=
  [(.sampler, .sampler), (.combinedImageSampler, .combinedImageSampler),
    (.sampledImage, .sampledImage), (.storageImage, .storageImage),
    (.uniformTexelBuffer, .uniformTexelBuffer), (.storageTexelBuffer, .storageTexelBuffer),
    (.uniformBuffer, .uniformBuffer), (.storageBuffer, .storageBuffer),
    (.inputAttachment, .inputAttachment)]

theorem mem_descriptorTypes {type : PsbcDescriptorType} (h : type.valid = true) :
    (type, vkDescriptorType type) ∈ descriptorTypes := by
  cases type with
  | none => exact absurd h (by decide)
  | _ => decide

theorem vkDescriptorType_inj {a b : PsbcDescriptorType} (ha : a.valid = true) (hb : b.valid = true)
    (h : vkDescriptorType a = vkDescriptorType b) : a = b := by
  have hkeys : (descriptorTypes.map (·.2)).Nodup := by decide
  have heq := List.inj_on_of_nodup_map hkeys (mem_descriptorTypes ha) (mem_descriptorTypes hb) h
  exact congrArg Prod.fst heq

/-- The layout says what the caller declared. -/
structure Faithful (o : PsbcCompileOptions) (layout : ShaderLayout) : Prop where
  declared : ∀ b ∈ o.bindings, ∃ s type, layout.set b.set = some s ∧
    (b.type, type) ∈ descriptorTypes ∧
    s.binding b.binding = ⟨type, b.arraySize, b.offset, b.stride⟩
  /-- Bindings of different types have records of different types. -/
  types : ∀ a ∈ o.bindings, ∀ b ∈ o.bindings, ∀ s s', layout.set a.set = some s →
    layout.set b.set = some s' → (s.binding a.binding).type = (s'.binding b.binding).type →
      a.type = b.type
  undeclared : ∀ set s, layout.set set = some s → ∀ n < s.bindingCount,
    (∀ b ∈ o.bindings, ¬ (b.set = set ∧ b.binding = n)) → s.binding n = .empty
  /-- One more than the largest declared binding; zero for a set without one. -/
  bindingCount : ∀ set s, layout.set set = some s →
    IsGreatest {n | n = 0 ∨ ∃ b ∈ o.bindings, b.set = set ∧ b.binding + 1 = n} s.bindingCount
  /-- The largest end offset, as a number that has not wrapped. -/
  size : ∀ set s, layout.set set = some s →
    IsGreatest {n | n = 0 ∨ ∃ b ∈ o.bindings, b.set = set ∧
      b.offset + b.arraySize * b.stride = n} s.size
  inside : ∀ b ∈ o.bindings, ∀ s, layout.set b.set = some s →
    b.offset + b.arraySize * b.stride ≤ s.size
  /-- One more than the largest declared set. -/
  numSets : IsGreatest {n | n = 0 ∨ ∃ b ∈ o.bindings, b.set + 1 = n} layout.numSets
  /-- The order of the list does not matter. -/
  order : ∀ o' : PsbcCompileOptions, o'.bindings.Perm o.bindings → descriptorLayout o' = layout

theorem set_descriptorLayout {set : Nat} {s : SetLayout}
    (h : (descriptorLayout o).set set = some s) :
    s = (o.bindings.foldl Storage.add .zero).sets set := by
  simp only [descriptorLayout] at h
  split at h
  · exact (Option.some.inj h).symm
  · exact absurd h (by simp)

theorem isGreatest_numSets :
    IsGreatest {n | n = 0 ∨ ∃ b ∈ o.bindings, b.set + 1 = n} (descriptorLayout o).numSets := by
  have hmax := isGreatest_highest 0 (o.bindings.map (·.set + 1))
  simp only [List.mem_map] at hmax
  rw [descriptorLayout]
  dsimp only
  rw [setCount_foldl_add]
  exact hmax

theorem descriptorLayout_perm (h : o.DescriptorsAccepted) {o' : PsbcCompileOptions}
    (hperm : o'.bindings.Perm o.bindings) : descriptorLayout o' = descriptorLayout o := by
  have hsets : ∀ set, (o'.bindings.foldl Storage.add .zero).sets set =
      (o.bindings.foldl Storage.add .zero).sets set := fun set => by
    have hcount := bindingCount_foldl_add .zero o'.bindings set
    rw [highest_perm ((hperm.filter _).map _), ← bindingCount_foldl_add] at hcount
    have hsize := size_foldl_add .zero o'.bindings set
    rw [highest_perm ((hperm.filter _).map _), ← size_foldl_add] at hsize
    have hbinding : ((o'.bindings.foldl Storage.add .zero).sets set).binding =
        ((o.bindings.foldl Storage.add .zero).sets set).binding := by
      funext n
      rw [binding_foldl_add, binding_foldl_add, scatter_perm hperm]
      intro a ha b hb hkey
      rw [key_inj h ha hb hkey]
    exact SetLayout.mk.injEq .. ▸ ⟨hcount, hsize, hbinding⟩
  have hnum := setCount_foldl_add .zero o'.bindings
  rw [highest_perm (hperm.map _), ← setCount_foldl_add] at hnum
  rw [descriptorLayout, descriptorLayout]
  simp only [hnum, hsets]

theorem declared_descriptorLayout (h : o.DescriptorsAccepted) {b : PsbcDescriptorBinding}
    (hb : b ∈ o.bindings) : ∃ s, (descriptorLayout o).set b.set = some s ∧
      s.binding b.binding = bindingLayout b := by
  have hset : b.set < (descriptorLayout o).numSets :=
    isGreatest_numSets.2 (.inr ⟨b, hb, rfl⟩)
  refine ⟨_, if_pos hset, ?_⟩
  rw [binding_foldl_add]
  refine scatter_of_mem hb fun a ha hkey => ?_
  rw [key_inj h ha hb hkey]

/-- **The layout built for Mesa is the declaration**, for accepted bindings in any order. -/
theorem descriptorLayout_faithful (o : PsbcCompileOptions) (h : o.DescriptorsAccepted) :
    Faithful o (descriptorLayout o) where
  declared b hb := by
    obtain ⟨s, hs, hbinding⟩ := declared_descriptorLayout h hb
    exact ⟨s, _, hs, mem_descriptorTypes (h.checked b hb).type_valid, hbinding⟩
  types a ha b hb s s' hs hs' htype := by
    obtain ⟨_, hs₁, hbinding⟩ := declared_descriptorLayout h ha
    obtain ⟨_, hs₂, hbinding'⟩ := declared_descriptorLayout h hb
    obtain rfl := Option.some.inj (hs₁.symm.trans hs)
    obtain rfl := Option.some.inj (hs₂.symm.trans hs')
    rw [hbinding, hbinding'] at htype
    exact vkDescriptorType_inj (h.checked a ha).type_valid (h.checked b hb).type_valid htype
  undeclared set s hs n _ hnone := by
    rw [set_descriptorLayout hs, binding_foldl_add, scatter_of_forall_ne]
    · rfl
    · intro b hb hkey
      exact hnone b hb (Prod.mk.inj hkey)
  bindingCount set s hs := by
    have hmax := isGreatest_highest 0 ((o.bindings.filter (·.set = set)).map (·.binding + 1))
    simp only [List.mem_map, List.mem_filter, decide_eq_true_eq, and_assoc] at hmax
    rw [set_descriptorLayout hs, bindingCount_foldl_add]
    exact hmax
  size set s hs := by
    have hends : (o.bindings.filter (·.set = set)).map endOffset =
        (o.bindings.filter (·.set = set)).map PsbcDescriptorBinding.stop :=
      List.map_congr_left fun b hb => endOffset_eq_stop (h.checked b (List.mem_of_mem_filter hb))
    have hmax := isGreatest_highest 0
      ((o.bindings.filter (·.set = set)).map PsbcDescriptorBinding.stop)
    simp only [List.mem_map, List.mem_filter, decide_eq_true_eq, and_assoc] at hmax
    rw [set_descriptorLayout hs, size_foldl_add, hends]
    exact hmax
  inside b hb s hs := by
    have hmax := isGreatest_highest 0 ((o.bindings.filter (·.set = b.set)).map endOffset)
    rw [set_descriptorLayout hs, size_foldl_add]
    refine Nat.le_trans (Nat.le_of_eq (endOffset_eq_stop (h.checked b hb)).symm) (hmax.2 (.inr ?_))
    exact List.mem_map_of_mem (List.mem_filter.mpr ⟨hb, by simp⟩)
  numSets := isGreatest_numSets
  order _ hperm := descriptorLayout_perm h hperm

/-- A sampler and an image it is combined with, listed backwards, and a buffer in set 2. -/
def mixedBindings : List PsbcDescriptorBinding :=
  [⟨0, 3, .sampledImage, 2, 16, 32⟩, ⟨2, 0, .storageBuffer, 1, 0, 16⟩,
    ⟨0, 1, .sampler, 1, 0, 16⟩]

theorem mixedBindings_faithful :
    (descriptorLayout (fragmentOptions mixedBindings)).numSets = 3 ∧
      ((descriptorLayout (fragmentOptions mixedBindings)).set 0).map (·.binding 3) =
        some ⟨.sampledImage, 2, 16, 32⟩ ∧
      ((descriptorLayout (fragmentOptions mixedBindings)).set 0).map (·.binding 1) =
        some ⟨.sampler, 1, 0, 16⟩ ∧
      ((descriptorLayout (fragmentOptions mixedBindings)).set 2).map (·.binding 0) =
        some ⟨.storageBuffer, 1, 0, 16⟩ ∧
      Faithful (fragmentOptions mixedBindings) (descriptorLayout (fragmentOptions mixedBindings)) :=
  ⟨by decide, by decide, by decide, by decide,
    descriptorLayout_faithful (fragmentOptions mixedBindings) ⟨by decide, by decide⟩⟩

end Psbc.Descriptors
