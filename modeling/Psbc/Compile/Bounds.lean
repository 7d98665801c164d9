import Psbc.Compile.Steps
import Psbc.Compile.VertexInput

/-!
# Reads of the option arrays

The counts of the options are the caller's, so every loop over an option array relies on a
check that comes first. The descriptor bindings and the specialization constants have one in
front of all their loops. The vertex attributes have none: their loop stops only at the count
or at an attribute that fails its own checks.

`EntryCall.readsWithin_iff` says which calls read within the arrays.
-/

namespace Psbc.Compile

open Spirv Bytes Traced

def Act.InBounds : Act → Prop
  | .read array index => index < array.capacity
  | _ => True

abbrev Within (x : Course) : Prop := Always Act.InBounds x

/-! ## Loops -/

section Loops

variable {array : OptionArray} {n : Nat}

theorem within_readAll (h : n ≤ array.capacity) : Within (readAll array n) := by
  intro act hact
  obtain ⟨i, hi, rfl⟩ := List.mem_map.mp hact
  exact Nat.lt_of_lt_of_le (List.mem_range.mp hi) h

theorem within_read {i : Nat} : Within (acts [.read array i]) ↔ i < array.capacity := by
  refine ⟨fun h => h _ (List.mem_singleton_self _), fun h act hact => ?_⟩
  rw [List.mem_singleton.mp hact]
  exact h

end Loops

/-! ## The parts of a compile -/

section Parts

variable {a : Outcomes} {m : Modules} {o : CompileOptions} {r : Request}

theorem inBounds_dropShaders : ∀ act ∈ dropShaders r, act.InBounds := by
  unfold dropShaders
  cases r.pairedPrevious <;> simp [Act.InBounds]

theorem within_selectReads (source : PsbcLinkedStageParameters) (role : Role) :
    Within (selectReads source role) :=
  always_onlyIf fun _ => within_readAll (Nat.le_refl _)

theorem within_prepareStage {role : Role} {stage : MesaStage} {spirv : Option (List Byte)}
    {nir : Option NirShader} {cleanup : List Act}
    (hvalid : o.specializationsValid = true) (hcleanup : ∀ act ∈ cleanup, act.InBounds) :
    Within (prepareStage a o role stage spirv nir cleanup) := by
  have hcount := (role.constantsAccepted hvalid).count_le
  rw [← Role.options_constants] at hcount
  refine always_bind.mpr ⟨within_readAll hcount, fun _ => always_bind.mpr ⟨?_, fun _ => ?_⟩⟩
  · refine always_exitIf fun act hact => ?_
    rcases List.mem_append.mp hact with hact | hact
    · split at hact
      · simp only [List.mem_cons, List.not_mem_nil, or_false] at hact
        rcases hact with rfl | rfl <;> trivial
      · exact absurd hact List.not_mem_nil
    · exact hcleanup act hact
  · exact always_acts.mpr (by simp [Act.InBounds])

theorem within_prepareModules (hvalid : o.specializationsValid = true) :
    Within (prepareModules a m o) := by
  have hprepare : ∀ role stage spirv nir cleanup, (∀ act ∈ cleanup, act.InBounds) →
      Within (prepareStage a o role stage spirv nir cleanup) :=
    fun _ _ _ _ _ hcleanup => within_prepareStage hvalid hcleanup
  unfold prepareModules
  refine always_bind.mpr ⟨always_acts.mpr (by simp [Act.InBounds]), fun _ => ?_⟩
  refine always_bind.mpr ⟨always_exitIf (by simp [Act.InBounds]), fun _ => ?_⟩
  refine always_bind.mpr ⟨hprepare _ _ _ _ _ (by simp [Act.InBounds]), fun _ => ?_⟩
  refine always_bind.mpr ⟨always_onlyIf fun _ => ?_, fun _ => ?_⟩
  · exact always_bind.mpr ⟨within_selectReads _ _, fun _ =>
      hprepare _ _ _ _ _ (by simp [Act.InBounds])⟩
  refine always_bind.mpr ⟨always_onlyIf fun _ => ?_, fun _ => always_onlyIf fun _ => ?_⟩
  all_goals
    exact always_bind.mpr ⟨within_selectReads _ _, fun _ => always_bind.mpr
      ⟨hprepare _ _ _ _ _ (by simp [Act.InBounds]), fun _ =>
        always_acts.mpr (by simp [Act.InBounds])⟩⟩

theorem attributeTurn_result (i : Nat) :
    (do
      acts [.read .vertexAttributes i]
      exitIf (!o.attributeValid (o.vertexAttributes.entry i)) (dropShaders r) .internalError :
        Course).result = .ok () ↔ o.attributeValid (o.vertexAttributes.entry i) = true := by
  rw [result_acts_bind, result_exitIf]
  cases o.attributeValid (o.vertexAttributes.entry i) <;> simp

/-- An attribute is read when those before it pass. -/
theorem within_attributeLoop_iff :
    Within (attributeLoop o r) ↔ ∀ i < o.vertexAttributes.count,
      (∀ j < i, o.attributeValid (o.vertexAttributes.entry j) = true) →
        i < psbcMaxVertexAttributes := by
  unfold Within Always attributeLoop
  simp only [mem_trace_each_range, attributeTurn_result]
  constructor
  · intro h i hi hpre
    exact h (.read .vertexAttributes i) ⟨i, hi, hpre, mem_trace_bind.mpr (.inl (by simp))⟩
  · rintro h act ⟨i, hi, hpre, hact⟩
    have hturn : Within (do
        acts [.read .vertexAttributes i]
        exitIf (!o.attributeValid (o.vertexAttributes.entry i)) (dropShaders r) .internalError) :=
      always_bind.mpr ⟨within_read.mpr (h i hi hpre), fun _ => always_exitIf inBounds_dropShaders⟩
    exact hturn act hact

/-- More attributes than the array has, and none of those it has stops the loop. -/
structure AttributesOverrun (o : CompileOptions) : Prop where
  samples : o.samplesValid = true
  primitive : o.primitiveTypeValid = true
  count : psbcMaxVertexAttributes < o.vertexAttributes.count
  valid : ∀ i < psbcMaxVertexAttributes, o.attributeValid (o.vertexAttributes.entry i) = true

theorem within_pipelineState_iff
    (hdescriptors : o.descriptorBindings.count ≤ psbcMaxDescriptorBindings) :
    Within (pipelineState o r) ↔ ¬ AttributesOverrun o := by
  have hexit : ∀ {b e}, Within (exitIf b (dropShaders r) e) :=
    always_exitIf inBounds_dropShaders
  have hreads : Within (readAll .descriptorBindings o.descriptorBindings.count) :=
    within_readAll hdescriptors
  simp only [pipelineState, always_bind, hreads, hexit, within_attributeLoop_iff, true_and,
    result_exitIf]
  constructor
  · rintro h ⟨hsamples, hprimitive, hcount, hvalid⟩
    have hread := h rfl (by simp [hsamples]) (by simp [hprimitive]) psbcMaxVertexAttributes hcount
      hvalid
    omega
  · intro hnot _ hsamples hprimitive i hi hpre
    -- a read from the end of the array on makes the one at its end, with a full array before
    refine Nat.lt_of_not_le fun hle => hnot ⟨?_, ?_, by omega, fun j hj => hpre j (by omega)⟩
    · simpa using hsamples
    · simpa using hprimitive

theorem within_lowerStages
    (hdescriptors : o.descriptorBindings.count ≤ psbcMaxDescriptorBindings) :
    Within (lowerStages a o r) := by
  have hpost : ∀ stage next ngg, ∀ act ∈ radvPostprocessNir stage next ngg, act.InBounds := by
    intro stage next ngg act hact
    unfold radvPostprocessNir at hact
    split at hact
    · rw [List.mem_singleton.mp hact]
      trivial
    · exact absurd hact List.not_mem_nil
  refine always_bind.mpr ⟨within_readAll hdescriptors, fun _ => ?_⟩
  refine always_bind.mpr ⟨always_onlyIf fun _ => always_acts.mpr (by simp [Act.InBounds]),
    fun _ => ?_⟩
  refine always_bind.mpr ⟨always_onlyIf fun _ => always_acts.mpr (hpost _ _ _), fun _ => ?_⟩
  refine always_bind.mpr ⟨always_acts.mpr (hpost _ _ _), fun _ => ?_⟩
  exact always_bind.mpr ⟨always_exitIf inBounds_dropShaders, fun _ =>
    always_exitIf (by simp [Act.InBounds])⟩

theorem inBounds_packagingExit (exit : PackagingExit) : ∀ act ∈ exit.acts, act.InBounds := by
  cases exit <;> simp [PackagingExit.acts, Act.InBounds]

theorem within_assemble
    (hdescriptors : o.descriptorBindings.count ≤ psbcMaxDescriptorBindings) :
    Within (assemble a o r) := by
  have hdrop : ∀ act ∈ dropShaders r, act.InBounds := inBounds_dropShaders
  have hbinary : ∀ act ∈ free .binary :: dropShaders r, act.InBounds :=
    List.forall_mem_cons.mpr ⟨trivial, hdrop⟩
  unfold assemble
  split
  · exact always_exitIf hdrop
  · next code _ =>
    refine always_bind.mpr ⟨always_acts.mpr (by simp [Act.InBounds]), fun _ => ?_⟩
    refine always_bind.mpr ⟨?_, fun _ => ?_⟩
    · unfold buildContainer
      split
      · refine always_exitIf fun act hact => ?_
        rcases List.mem_append.mp hact with hact | hact
        · exact inBounds_packagingExit _ act hact
        · exact hbinary act hact
      · exact always_acts.mpr (by simp [Act.InBounds])
    refine always_bind.mpr ⟨always_exitIf (List.forall_mem_cons.mpr ⟨trivial, hbinary⟩),
      fun _ => ?_⟩
    refine always_bind.mpr ⟨always_acts.mpr (by simp [Act.InBounds]), fun _ => ?_⟩
    exact always_bind.mpr ⟨within_readAll hdescriptors, fun _ => always_acts.mpr hbinary⟩

theorem within_prepared {out : Bool} : Within (prepared a o out m) := by
  refine always_bind.mpr ⟨always_refuse, fun _ => ?_⟩
  refine always_bind.mpr ⟨always_checks (fun _ _ h => h) _, fun hchecks => ?_⟩
  exact within_prepareModules (checked_of_checks hchecks).specializations

/-- The compile reads within the arrays unless it gets to an overrun of the attributes. -/
theorem within_psbcCompileImplCourse_iff (out : Bool) :
    Within (psbcCompileImplCourse a o out m) ↔
      ((prepared a o out m).result = .ok () → ¬ AttributesOverrun o) := by
  rw [Within, psbcCompileImplCourse, always_bind, and_iff_right within_prepared]
  refine imp_congr_right fun hprepared => ?_
  have hdescriptors := (checked_of_prepared hprepared).descriptors
  have hstate := within_pipelineState_iff (r := m.request o.toPsbcCompileOptions) hdescriptors
  rw [always_bind]
  refine ⟨fun h => hstate.mp h.1, fun h => ⟨hstate.mpr h, fun _ => ?_⟩⟩
  exact always_bind.mpr ⟨within_lowerStages hdescriptors, fun _ => within_assemble hdescriptors⟩

end Parts

/-! ## Calls -/

theorem EntryCall.within_leave (a : Outcomes) (o : CompileOptions) (call : EntryCall) :
    Within (call.leave a o) := always_exitIf (by simp [Act.InBounds])

/-- **A call reads within the option arrays** unless it gets to its pipeline state with more
attributes than the array has, the first of which all pass. -/
theorem EntryCall.readsWithin_iff (a : Outcomes) (opts : Option CompileOptions) (out : Bool)
    (call : EntryCall) :
    (∀ array index, .read array index ∈ (call.acts a opts out).trace → index < array.capacity) ↔
      ¬ ∃ o ∈ opts, call.Prepares a o out ∧ AttributesOverrun o := by
  have hwithin : (∀ array index, .read array index ∈ (call.acts a opts out).trace →
      index < array.capacity) ↔ Within (call.acts a opts out) := by
    refine ⟨fun h act hact => ?_, fun h array index hread => h _ hread⟩
    cases act with
    | read array index => exact h array index hact
    | init => trivial
    | shutdown => trivial
    | own op => trivial
  rw [hwithin]
  cases opts with
  | none =>
    refine iff_of_true always_refuse ?_
    simp
  | some o =>
    have himpl := within_psbcCompileImplCourse_iff (a := a) (o := o) (m := call.modules) out
    simp only [acts, Within, always_bind, always_enter, within_leave, implies_true, and_true,
      true_and, Option.mem_some_iff, exists_eq_left', prepares_iff, himpl]
    grind

def overrunOptions : CompileOptions :=
  { vertexOptions [] with
    vertexAttributes := ⟨33, fun i => ⟨i, 0, .r32Float, 4 * i, 132, 4, 0⟩⟩ }

/-- The loop takes its last attribute from behind the array. -/
theorem overrunOptions_reads_behind :
    .read .vertexAttributes 32 ∈
        (EntryCall.acts willingOutcomes (some overrunOptions) true (.nir (some ⟨.vertex⟩))).trace ∧
      OptionArray.vertexAttributes.capacity = 32 := by
  decide +kernel

end Psbc.Compile
