import Psbc.Compile.Request
import Psbc.Descriptors.Bindings
import Psbc.Lib.Mask
import Psbc.Nir.Program

/-!
# Static descriptor use

With static descriptor use, the metadata tells which declared bindings a program reads. The
walk over a half's NIR names the bindings it can; a set that the driver reports as used while
the walk names nothing in it counts as wholly used. In a merged program both halves execute
with one table, so their results are joined; a half that is only linked does not count.

`descriptorUsedBindingMask_exact` has the meaning of the mask for accepted bindings.
-/

namespace Psbc.Descriptors

open Mask Nir PsbcCompileOptions

/-! ## The walk -/

/-- The masks that a walk fills: sets, and bindings by set. -/
structure UseMasks where
  set : BitVec 32
  binding : Nat → BitVec 64

def UseMasks.zero : UseMasks := ⟨0, fun _ => 0⟩

def recordDescriptorUse (set binding : Nat) (masks : UseMasks) : UseMasks :=
  if psbcMaxDescriptorSets ≤ set then masks
  else
    { set := setBit masks.set set
      binding :=
        if binding < 64 then
          Function.update masks.binding set (setBit (masks.binding set) binding)
        else masks.binding }

/-- The use of a variable that a deref chain leads to, if it leads to one. -/
def recordVariable (var : Option Variable) (masks : UseMasks) : UseMasks :=
  match var with
  | some v => recordDescriptorUse v.descriptorSet v.binding masks
  | none => masks

def recordInstr (masks : UseMasks) : Instr → UseMasks
  | .vulkanResourceIndex set binding => recordDescriptorUse set binding masks
  | .imageDeref _ var => recordVariable var masks
  | .tex srcs => srcs.foldl (fun masks src =>
      if src.srcType ≠ .textureDeref ∧ src.srcType ≠ .samplerDeref then masks
      else recordVariable src.var masks) masks
  | .loadPushConstant _ => masks
  | .other => masks

def gatherStaticDescriptorUse (s : Shader) (masks : UseMasks) : UseMasks :=
  s.instrs.foldl recordInstr masks

/-! ## The mask of a program -/

/-- A shader and the sets that the driver reports as used. -/
structure Half where
  nir : Shader
  descSetUsedMask : BitVec 32

def Half.bindingMask (half : Half) : Nat → BitVec 64 :=
  (gatherStaticDescriptorUse half.nir .zero).binding

/-- The sets that a half uses without a binding the walk could name. -/
def Half.unknownSets (half : Half) : BitVec 32 :=
  (List.range psbcMaxDescriptorSets).foldl
    (fun unknown set => if half.bindingMask set ≠ 0 then clearBit unknown set else unknown)
    half.descSetUsedMask

/-- The pair runs as one program. -/
def merged (r : Request) : Bool := r.pairedGeometry || r.pairedHull

/-- One turn of the loop over the declared bindings: those of a set in unknown use are set. -/
def useDeclared (unknown : BitVec 32) (masks : Nat → BitVec 64)
    (declared : PsbcDescriptorBinding) : Nat → BitVec 64 :=
  if psbcMaxDescriptorSets ≤ declared.set ∨ 64 ≤ declared.binding ∨
      unknown.getLsbD declared.set = false then masks
  else Function.update masks declared.set (setBit (masks declared.set) declared.binding)

/-- The part of `psbc_compile_impl` for static use: the bindings of the halves that execute,
and every declared binding of a set in unknown use. -/
def staticBindingMask (r : Request) (bindings : List PsbcDescriptorBinding)
    (stage previous : Half) : Nat → BitVec 64 :=
  let named :=
    if merged r then fun set => stage.bindingMask set ||| previous.bindingMask set
    else stage.bindingMask
  let unknown :=
    if merged r then stage.unknownSets ||| previous.unknownSets else stage.unknownSets
  bindings.foldl (useDeclared unknown) named

def declaredMask (bindings : List PsbcDescriptorBinding) : Nat → BitVec 64 :=
  bindings.foldl (fun masks declared =>
    if psbcMaxDescriptorSets ≤ declared.set ∨ 64 ≤ declared.binding then masks
    else
      Function.update masks declared.set (setBit (masks declared.set) declared.binding))
    fun _ => 0

/-- `descriptor_used_binding_mask` as `fill_shader_metadata` publishes it. -/
def descriptorUsedBindingMask (o : PsbcCompileOptions) (staticDescriptorUse : Bool)
    (r : Request) (stage previous : Half) : Nat → BitVec 64 :=
  if o.descriptorBindings.count ≠ 0 ∧ staticDescriptorUse then
    staticBindingMask r o.bindings stage previous
  else declaredMask o.bindings

/-! ## What the walk names -/

/-- The uses the walk records at an instruction. -/
def instrUses : Instr → List (Nat × Nat)
  | .vulkanResourceIndex set binding => [(set, binding)]
  | .imageDeref _ var => (var.map fun v => (v.descriptorSet, v.binding)).toList
  | .tex srcs => srcs.flatMap fun src =>
      if src.srcType ≠ .textureDeref ∧ src.srcType ≠ .samplerDeref then []
      else (src.var.map fun v => (v.descriptorSet, v.binding)).toList
  | .loadPushConstant _ => []
  | .other => []

/-- The walk over the half names this binding. -/
def Half.Names (half : Half) (set binding : Nat) : Prop :=
  ∃ i ∈ half.nir.instrs, (set, binding) ∈ instrUses i

/-- The driver reports the set and the walk names no binding in it. -/
def Half.Unknown (half : Half) (set : Nat) : Prop :=
  half.descSetUsedMask.getLsbD set = true ∧ ∀ n < 64, ¬ half.Names set n

/-- The uses of a list are recorded in order. -/
def recordUses (masks : UseMasks) (uses : List (Nat × Nat)) : UseMasks :=
  uses.foldl (fun masks use => recordDescriptorUse use.1 use.2 masks) masks

theorem recordVariable_eq (var : Option Variable) (masks : UseMasks) :
    recordVariable var masks =
      recordUses masks (var.map fun v => (v.descriptorSet, v.binding)).toList := by
  cases var <;> rfl

theorem recordUses_append (masks : UseMasks) (uses uses' : List (Nat × Nat)) :
    recordUses masks (uses ++ uses') = recordUses (recordUses masks uses) uses' :=
  List.foldl_append

theorem recordInstr_eq (masks : UseMasks) (i : Instr) :
    recordInstr masks i = recordUses masks (instrUses i) := by
  cases i with
  | vulkanResourceIndex set binding => rfl
  | imageDeref op var => exact recordVariable_eq var masks
  | loadPushConstant load => rfl
  | other => rfl
  | tex srcs =>
    simp only [recordInstr, instrUses]
    induction srcs generalizing masks with
    | nil => rfl
    | cons src srcs ih =>
      rw [List.foldl_cons, List.flatMap_cons, recordUses_append, ← ih]
      congr 1
      split
      · rfl
      · exact recordVariable_eq src.var masks

theorem gatherStaticDescriptorUse_eq (s : Shader) (masks : UseMasks) :
    gatherStaticDescriptorUse s masks = recordUses masks (s.instrs.flatMap instrUses) := by
  unfold gatherStaticDescriptorUse
  induction s.instrs generalizing masks with
  | nil => rfl
  | cons i instrs ih =>
    rw [List.foldl_cons, List.flatMap_cons, recordUses_append, ← recordInstr_eq, ih]

/-- A bit of one turn's write to the table of bindings. -/
theorem getLsbD_update_setBit {masks : Nat → BitVec 64} {set binding s n : Nat} :
    (Function.update masks set (setBit (masks set) binding) s).getLsbD n = true ↔
      (masks s).getLsbD n = true ∨ s = set ∧ n = binding ∧ n < 64 := by
  by_cases hs : s = set
  · subst hs
    rw [Function.update_self, getLsbD_setBit]
    simp
  · rw [Function.update_of_ne hs]
    simp [hs]

theorem getLsbD_recordUses {masks : UseMasks} {uses : List (Nat × Nat)} {set n : Nat} :
    ((recordUses masks uses).binding set).getLsbD n = true ↔
      (masks.binding set).getLsbD n = true ∨
        set < psbcMaxDescriptorSets ∧ n < 64 ∧ (set, n) ∈ uses := by
  induction uses generalizing masks with
  | nil => simp [recordUses]
  | cons use uses ih =>
    obtain ⟨s, b⟩ := use
    rw [recordUses, List.foldl_cons, ← recordUses, ih, List.mem_cons, Prod.mk.injEq]
    unfold recordDescriptorUse
    split
    · next hset => grind
    · next hset =>
      dsimp only
      split
      · rw [getLsbD_update_setBit]
        grind
      · grind

theorem Half.getLsbD_bindingMask {half : Half} {set n : Nat} :
    (half.bindingMask set).getLsbD n = true ↔
      set < psbcMaxDescriptorSets ∧ n < 64 ∧ half.Names set n := by
  have hzero : (UseMasks.zero.binding set).getLsbD n = false := BitVec.getLsbD_zero
  rw [bindingMask, gatherStaticDescriptorUse_eq, getLsbD_recordUses, hzero]
  simp [Names, List.mem_flatMap]

theorem Half.bindingMask_ne_zero_iff {half : Half} {set : Nat} :
    half.bindingMask set ≠ 0 ↔ set < psbcMaxDescriptorSets ∧ ∃ n < 64, half.Names set n := by
  simp only [ne_zero_iff, getLsbD_bindingMask, exists_and_left]

theorem Half.getLsbD_unknownSets {half : Half} {set : Nat} (hset : set < psbcMaxDescriptorSets) :
    half.unknownSets.getLsbD set = true ↔ half.Unknown set := by
  have hloop : ∀ (sets : List Nat) (mask : BitVec 32),
      (sets.foldl (fun unknown set =>
        if half.bindingMask set ≠ 0 then clearBit unknown set else unknown) mask).getLsbD set =
          true ↔ mask.getLsbD set = true ∧ ¬ (set ∈ sets ∧ half.bindingMask set ≠ 0) := by
    intro sets
    induction sets with
    | nil => simp
    | cons s sets ih =>
      intro mask
      rw [List.foldl_cons, ih, List.mem_cons]
      split
      · rw [getLsbD_clearBit]
        grind
      · grind
  rw [unknownSets, hloop, bindingMask_ne_zero_iff, Unknown]
  simp [hset]

/-! ## The mask of the halves that execute -/

/-- The halves that run: both of a merged pair, and only the compiled one otherwise. -/
def executed (r : Request) (stage previous : Half) : List Half :=
  if merged r then [stage, previous] else [stage]

theorem getLsbD_useDeclared {bindings : List PsbcDescriptorBinding} {unknown : BitVec 32}
    {masks : Nat → BitVec 64} {set n : Nat} :
    (bindings.foldl (useDeclared unknown) masks set).getLsbD n = true ↔
      (masks set).getLsbD n = true ∨
        set < psbcMaxDescriptorSets ∧ n < 64 ∧ unknown.getLsbD set = true ∧
          ∃ b ∈ bindings, b.key = (set, n) := by
  induction bindings generalizing masks with
  | nil => simp
  | cons b bindings ih =>
    rw [List.foldl_cons, ih]
    simp only [List.mem_cons, exists_eq_or_imp, PsbcDescriptorBinding.key, Prod.mk.injEq]
    unfold useDeclared
    split
    · grind
    · rw [getLsbD_update_setBit]
      grind

/-- A bit of the mask: an executed half names the binding, or it is declared in a set whose
use by an executed half is unknown. -/
theorem getLsbD_staticBindingMask {r : Request} {bindings : List PsbcDescriptorBinding}
    {stage previous : Half} {set n : Nat} :
    (staticBindingMask r bindings stage previous set).getLsbD n = true ↔
      set < psbcMaxDescriptorSets ∧ n < 64 ∧ ∃ half ∈ executed r stage previous,
        half.Names set n ∨ half.Unknown set ∧ ∃ b ∈ bindings, b.key = (set, n) := by
  unfold staticBindingMask executed
  rw [getLsbD_useDeclared]
  split
  · simp only [BitVec.getLsbD_or, Bool.or_eq_true, Half.getLsbD_bindingMask, List.mem_cons,
      List.not_mem_nil, or_false, exists_eq_or_imp, exists_eq_left]
    by_cases hset : set < psbcMaxDescriptorSets
    · rw [Half.getLsbD_unknownSets hset, Half.getLsbD_unknownSets hset]
      grind
    · simp [hset]
  · simp only [Half.getLsbD_bindingMask, List.mem_singleton, exists_eq_left]
    by_cases hset : set < psbcMaxDescriptorSets
    · rw [Half.getLsbD_unknownSets hset]
      grind
    · simp [hset]

def alone (r : Request) : Request := { r with pairedPrevious := false }

/-- What the mask of a call with static use says. -/
structure UseExact (o : PsbcCompileOptions) (r : Request) (stage previous : Half) : Prop where
  /-- A declared binding is in the mask when a half that executes names it or uses its set
  without naming a binding there. -/
  mem_iff : ∀ b ∈ o.bindings,
    (descriptorUsedBindingMask o true r stage previous b.set).getLsbD b.binding = true ↔
      ∃ half ∈ executed r stage previous, half.Names b.set b.binding ∨ half.Unknown b.set
  /-- A previous half that is only linked does not count. -/
  linkOnly : merged r = false → ∀ other,
    descriptorUsedBindingMask o true r stage other =
      descriptorUsedBindingMask o true r stage previous
  /-- A merged pair has all that each half has on its own. -/
  covers : merged r = true → ∀ half ∈ [stage, previous], ∀ other set n,
    (descriptorUsedBindingMask o true (alone r) half other set).getLsbD n = true →
      (descriptorUsedBindingMask o true r stage previous set).getLsbD n = true

theorem executed_of_merged {r : Request} (h : merged r = true) (stage previous : Half) :
    executed r stage previous = [stage, previous] := if_pos h

theorem executed_alone (r : Request) (half other : Half) :
    executed (alone r) half other = [half] := rfl

theorem staticBindingMask_covers {r : Request} (h : merged r = true)
    {bindings : List PsbcDescriptorBinding} {stage previous half other : Half} {set n : Nat}
    (hhalf : half ∈ [stage, previous])
    (hbit : (staticBindingMask (alone r) bindings half other set).getLsbD n = true) :
    (staticBindingMask r bindings stage previous set).getLsbD n = true := by
  rw [getLsbD_staticBindingMask, executed_alone] at hbit
  obtain ⟨hset, hn, _, hmem, huse⟩ := hbit
  rw [List.mem_singleton.mp hmem] at huse
  rw [getLsbD_staticBindingMask, executed_of_merged h]
  exact ⟨hset, hn, half, hhalf, huse⟩

/-- **The mask of static use is exact for each half**: it has the declared bindings that an
executed half names or may reach through a set where its own walk named nothing, and neither
half of a merged pair hides what the other uses. -/
theorem descriptorUsedBindingMask_exact (o : PsbcCompileOptions) (accepted : o.DescriptorsAccepted)
    (r : Request) (stage previous : Half) : UseExact o r stage previous where
  mem_iff b hb := by
    have hchecked := accepted.checked b hb
    have hcount : o.descriptorBindings.count ≠ 0 := by
      intro hzero
      simp [bindings, Counted.toList, hzero] at hb
    rw [descriptorUsedBindingMask, if_pos ⟨hcount, rfl⟩, getLsbD_staticBindingMask]
    have hdeclared : ∃ d ∈ o.bindings, d.key = (b.set, b.binding) := ⟨b, hb, rfl⟩
    simp only [hchecked.set_lt, show b.binding < 64 from hchecked.binding_lt, hdeclared,
      and_true, true_and]
  linkOnly h other := by
    unfold descriptorUsedBindingMask staticBindingMask
    simp only [h, Bool.false_eq_true, if_false]
  covers h half hhalf other set n hbit := by
    unfold descriptorUsedBindingMask at hbit ⊢
    split at hbit
    · next hstatic =>
      rw [if_pos hstatic]
      exact staticBindingMask_covers h hhalf hbit
    · next hstatic =>
      rw [if_neg hstatic]
      exact hbit

def hullPair : Request := ⟨.ps5, .tessCtrl, false, true, false⟩

/-- A half that samples the image of binding 2 of set 0. -/
def samplingHalf : Half :=
  ⟨⟨[[[.tex [⟨.textureDeref, some ⟨0, 2⟩⟩, ⟨.other, none⟩]]]]⟩, 1⟩

/-- A half that uses set 0 through a descriptor the walk cannot name. -/
def unnamedHalf : Half := ⟨⟨[[[.imageDeref .load none, .other]]]⟩, 1⟩

/-- On its own the sampling half has one binding; next to the other half, all that the set
declares. -/
theorem samplingHalf_useExact :
    UseExact (fragmentOptions stackedBindings) hullPair samplingHalf unnamedHalf ∧
      descriptorUsedBindingMask (fragmentOptions stackedBindings) true hullPair
        samplingHalf unnamedHalf 0 = 0b1010100101 ∧
      descriptorUsedBindingMask (fragmentOptions stackedBindings) true (alone hullPair)
        samplingHalf unnamedHalf 0 = 0b100 :=
  ⟨descriptorUsedBindingMask_exact _ stackedBindings_accepted _ _ _, by decide, by decide⟩

end Psbc.Descriptors
