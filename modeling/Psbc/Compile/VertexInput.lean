import Psbc.Compile.Finish
import Psbc.Descriptors.Bindings
import Psbc.Lib.Mask
import Psbc.Lib.Scatter

/-!
# Vertex input state

The loop over the vertex attributes checks each and scatters it into the state RADV reads.
Format, binding, offset, stride and divisor have one entry for each location. The alignment,
which the lowering of the fetch takes for granted, has one for each binding: the loop stores
that of the last attribute of the binding, where RADV's own state has the greatest.

`vertexInput_perm_iff` has the exact condition for the order of the list not to matter.
-/

namespace Psbc.Compile

open Mask Scatter

/-- The members of `gfx_state.vi` that the loop writes. A caller's format stands for the
`PIPE_FORMAT` of the same name. -/
@[ext]
structure VertexInput where
  attributesValid : BitVec 32
  instanceRateInputs : BitVec 32
  instanceRateDivisors : Nat → Nat
  vertexAttributeFormats : Nat → PsbcVertexFormat
  vertexAttributeBindings : Nat → Nat
  vertexAttributeOffsets : Nat → Nat
  vertexAttributeStrides : Nat → Nat
  vertexBindingAlign : Nat → BitVec 8

def VertexInput.zero : VertexInput :=
  ⟨0, 0, fun _ => 0, fun _ => .none, fun _ => 0, fun _ => 0, fun _ => 0, fun _ => 0⟩

/-- What a turn of the loop writes for an attribute that passes. -/
def VertexInput.add (vi : VertexInput) (a : PsbcVertexAttribute) : VertexInput where
  attributesValid := setBit vi.attributesValid a.location
  instanceRateInputs :=
    if a.instanceDivisor ≠ 0 then setBit vi.instanceRateInputs a.location
    else vi.instanceRateInputs
  instanceRateDivisors :=
    if a.instanceDivisor ≠ 0 then
      Function.update vi.instanceRateDivisors a.location a.instanceDivisor
    else vi.instanceRateDivisors
  vertexAttributeFormats := Function.update vi.vertexAttributeFormats a.location a.format
  vertexAttributeBindings := Function.update vi.vertexAttributeBindings a.location a.binding
  vertexAttributeOffsets := Function.update vi.vertexAttributeOffsets a.location a.offset
  vertexAttributeStrides := Function.update vi.vertexAttributeStrides a.location a.stride
  vertexBindingAlign :=
    Function.update vi.vertexBindingAlign a.binding (BitVec.ofNat 8 a.alignment)

def CompileOptions.attributes (o : CompileOptions) : List PsbcVertexAttribute :=
  o.vertexAttributes.toList

/-- The loop of `psbc_compile_impl` over the attributes; `none` is its exit with an error. -/
def vertexInput (o : CompileOptions) (attributes : List PsbcVertexAttribute) :
    Option VertexInput :=
  attributes.foldlM (fun vi a => if o.attributeValid a then some (vi.add a) else none) .zero

/-- `align_mul` in `radv_nir_lower_vs_inputs`: what the fetch takes for granted of an address. -/
def VertexInput.alignMul (vi : VertexInput) (binding : Nat) : Nat :=
  max 1 (vi.vertexBindingAlign binding).toNat

/-! ## The state of an accepted list -/

theorem foldlM_add {o : CompileOptions} {l : List PsbcVertexAttribute}
    (h : ∀ a ∈ l, o.attributeValid a = true) (vi : VertexInput) :
    l.foldlM (fun vi a => if o.attributeValid a then some (vi.add a) else none) vi =
      some (l.foldl VertexInput.add vi) := by
  induction l generalizing vi with
  | nil => rfl
  | cons a l ih =>
    obtain ⟨ha, hl⟩ := List.forall_mem_cons.mp h
    rw [List.foldlM_cons, if_pos ha, List.foldl_cons]
    exact ih hl (vi.add a)

theorem attributesValid_iff {o : CompileOptions} :
    o.attributesValid = true ↔ ∀ a ∈ o.attributes, o.attributeValid a = true := by
  rw [CompileOptions.attributes, Counted.forall_mem_toList_iff, CompileOptions.attributesValid]
  simp only [List.all_eq_true, List.mem_range]

def instanced (l : List PsbcVertexAttribute) : List PsbcVertexAttribute :=
  l.filter (·.instanceDivisor ≠ 0)

open PsbcVertexAttribute in
/-- The state after the loop, member by member. -/
theorem foldl_add_eq (l : List PsbcVertexAttribute) (vi : VertexInput) :
    l.foldl VertexInput.add vi =
      { attributesValid := setBits vi.attributesValid (l.map location)
        instanceRateInputs := setBits vi.instanceRateInputs ((instanced l).map location)
        instanceRateDivisors :=
          scatter location instanceDivisor (instanced l) vi.instanceRateDivisors
        vertexAttributeFormats := scatter location format l vi.vertexAttributeFormats
        vertexAttributeBindings := scatter location binding l vi.vertexAttributeBindings
        vertexAttributeOffsets := scatter location offset l vi.vertexAttributeOffsets
        vertexAttributeStrides := scatter location stride l vi.vertexAttributeStrides
        vertexBindingAlign :=
          scatter binding (fun a => BitVec.ofNat 8 a.alignment) l vi.vertexBindingAlign } := by
  induction l generalizing vi with
  | nil => rfl
  | cons a l ih =>
    rw [List.foldl_cons, ih]
    by_cases hdivisor : a.instanceDivisor = 0
    · have hskip : instanced (a :: l) = instanced l := by simp [instanced, hdivisor]
      rw [hskip]
      simp only [VertexInput.add, hdivisor, ne_eq, not_true_eq_false, if_false]
      rfl
    · have htake : instanced (a :: l) = a :: instanced l := by simp [instanced, hdivisor]
      rw [htake]
      simp only [VertexInput.add, ne_eq, hdivisor, not_false_eq_true, if_true]
      rfl

/-! ## The order of the list -/

theorem scatter_location_perm {β : Type} {val : PsbcVertexAttribute → β}
    {l l' : List PsbcVertexAttribute} {t : Nat → β} (hperm : l'.Perm l)
    (hdistinct : l.Pairwise fun a b => a.location ≠ b.location) :
    scatter PsbcVertexAttribute.location val l' t =
      scatter PsbcVertexAttribute.location val l t := by
  refine scatter_perm hperm fun a ha b hb hkey => ?_
  have hinj := List.inj_on_of_nodup_map (List.pairwise_map.mpr hdistinct)
  rw [hinj ha hb hkey]

/-- The alignments that the attributes of one binding leave in its 8-bit entry are equal. -/
def AlignmentsAgree (l : List PsbcVertexAttribute) : Prop :=
  ∀ a ∈ l, ∀ b ∈ l, a.binding = b.binding → a.alignment % 256 = b.alignment % 256

theorem alignmentsAgree_iff {l : List PsbcVertexAttribute} :
    AlignmentsAgree l ↔ ∀ a ∈ l, ∀ b ∈ l, a.binding = b.binding →
      BitVec.ofNat 8 a.alignment = BitVec.ofNat 8 b.alignment := by
  simp only [AlignmentsAgree, ← BitVec.toNat_inj, BitVec.toNat_ofNat]

/-- **The state does not depend on the order of the list** exactly when no binding is given
two alignments. -/
theorem vertexInput_perm_iff (o : CompileOptions) (accepted : o.attributesValid = true)
    (distinct : o.attributes.Pairwise fun a b => a.location ≠ b.location) :
    (∀ l, l.Perm o.attributes → vertexInput o l = vertexInput o o.attributes) ↔
      AlignmentsAgree o.attributes := by
  have hvalid := attributesValid_iff.mp accepted
  have hstate : ∀ l, l.Perm o.attributes →
      (vertexInput o l = vertexInput o o.attributes ↔
        scatter PsbcVertexAttribute.binding (fun a => BitVec.ofNat 8 a.alignment) l
            VertexInput.zero.vertexBindingAlign =
          scatter PsbcVertexAttribute.binding (fun a => BitVec.ofNat 8 a.alignment) o.attributes
            VertexInput.zero.vertexBindingAlign) := by
    intro l hperm
    have hinstanced : (instanced l).Perm (instanced o.attributes) := hperm.filter _
    rw [vertexInput, vertexInput, foldlM_add hvalid,
      foldlM_add fun a ha => hvalid a (hperm.mem_iff.mp ha), Option.some.injEq, foldl_add_eq,
      foldl_add_eq, setBits_perm (hperm.map _), setBits_perm (hinstanced.map _),
      scatter_location_perm hperm distinct, scatter_location_perm hperm distinct,
      scatter_location_perm hperm distinct, scatter_location_perm hperm distinct,
      scatter_location_perm hinstanced (distinct.filter _)]
    simp only [VertexInput.mk.injEq, true_and]
  rw [alignmentsAgree_iff, ← scatter_perm_iff]
  exact forall₂_congr hstate

/-! ### Attributes that share a binding -/

def vertexOptions (attributes : List PsbcVertexAttribute) : CompileOptions :=
  { PsbcCompileOptions.fragmentOptions [] with
    stage := .vertex
    rasterizationSamples := 1
    primitiveType := 4
    vertexAttributes :=
      ⟨attributes.length, fun i => attributes.getD i ⟨0, 0, .none, 0, 0, 0, 0⟩⟩ }

/-- Position and weight from one buffer, with the alignment that each needs. -/
def positionAndWeight : CompileOptions :=
  vertexOptions [⟨0, 0, .r32g32b32a32Float, 0, 32, 16, 0⟩, ⟨1, 0, .r32Float, 16, 32, 4, 0⟩]

/-- The fetch takes four or sixteen bytes for granted, as the attributes are listed. -/
theorem positionAndWeight_order_matters :
    positionAndWeight.attributesValid = true ∧
      (positionAndWeight.attributes.Pairwise fun a b => a.location ≠ b.location) ∧
      positionAndWeight.attributes.reverse.Perm positionAndWeight.attributes ∧
      (vertexInput positionAndWeight positionAndWeight.attributes).map (·.alignMul 0) = some 4 ∧
      (vertexInput positionAndWeight positionAndWeight.attributes.reverse).map (·.alignMul 0) =
        some 16 ∧
      vertexInput positionAndWeight positionAndWeight.attributes.reverse ≠
        vertexInput positionAndWeight positionAndWeight.attributes := by
  have hlisted : (vertexInput positionAndWeight positionAndWeight.attributes).map (·.alignMul 0) =
      some 4 := by decide
  have hreversed : (vertexInput positionAndWeight positionAndWeight.attributes.reverse).map
      (·.alignMul 0) = some 16 := by decide
  refine ⟨by decide, by decide, List.reverse_perm _, hlisted, hreversed, fun heq => ?_⟩
  rw [heq, hlisted] at hreversed
  exact absurd hreversed (by decide)

def evenlyAligned : CompileOptions :=
  vertexOptions [⟨0, 0, .r32g32b32a32Float, 0, 32, 4, 0⟩, ⟨1, 0, .r32Float, 16, 32, 4, 0⟩]

theorem evenlyAligned_perm :
    evenlyAligned.attributesValid = true ∧
      vertexInput evenlyAligned evenlyAligned.attributes.reverse =
        vertexInput evenlyAligned evenlyAligned.attributes := by
  have hagree : AlignmentsAgree evenlyAligned.attributes := by
    unfold AlignmentsAgree
    decide
  exact ⟨by decide, (vertexInput_perm_iff evenlyAligned (by decide) (by decide)).mpr hagree _
    (List.reverse_perm _)⟩

end Psbc.Compile
