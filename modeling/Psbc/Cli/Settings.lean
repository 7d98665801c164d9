import Psbc.Cli.Options

/-!
# Options as they are written

A `Setting` is an option with its value; `Setting.render` is the arguments that a user writes for
it, and `Setting.assign` the field it is meant for. Each option assigns what was written for it:
the names of the tables are read back, and the records are scanned field by field.
-/

namespace Psbc.Cli

open Compile Scan

/-! ## Settings -/

inductive Setting where
  | showhelp
  | inputfile (path : Arg)
  | outputfile (path : Arg)
  | previousfile (path : Arg)
  | metadatafile (path : Arg)
  | entrypoint (name : Arg)
  | stage (s : PsbcStage)
  | target (t : PsbcTarget)
  | noOptimise
  | verbose
  | ngg
  | ps5GlobalStreamout
  | forceAcceleratedDot
  | provokingVtxLast
  | raw
  | primitiveType (n : Nat)
  | address32Hi (n : Nat)
  /-- The divisor may be left out. -/
  | vertexAttribute (a : PsbcVertexAttribute) (short : Bool)
  | descriptorBinding (b : PsbcDescriptorBinding)
  deriving DecidableEq, Repr

/-- The name of an entry in a table of names. -/
def nameIn {α : Type} [DecidableEq α] (names : List (Arg × α)) (x : α) : Arg :=
  ((names.find? fun entry => entry.2 = x).map Prod.fst).getD []

def attributeParts (a : PsbcVertexAttribute) (short : Bool) : List Part :=
  [.number a.location, .field 31 (nameIn vertexFormatNames a.format), .number a.binding,
    .number a.offset, .number a.stride, .number a.alignment] ++
    if short then [] else [.number a.instanceDivisor]

def renderAttribute (a : PsbcVertexAttribute) (short : Bool) : Arg :=
  recordText ':' (attributeParts a short)

def bindingParts (b : PsbcDescriptorBinding) : List Part :=
  [.number b.set, .number b.binding, .field 31 (nameIn descriptorTypeNames b.type),
    .number b.arraySize, .number b.offset, .number b.stride]

def renderBinding (b : PsbcDescriptorBinding) : Arg := recordText ':' (bindingParts b)

namespace Setting

def opt : Setting → Opt
  | showhelp => .showhelp
  | inputfile _ => .inputfile
  | outputfile _ => .outputfile
  | previousfile _ => .previousfile
  | metadatafile _ => .metadatafile
  | entrypoint _ => .entrypoint
  | stage _ => .stage
  | target .ps4Base => .ps4Base
  | target .ps4Neo => .ps4Neo
  | target .ps5 => .ps5
  | noOptimise => .noOptimise
  | verbose => .verbose
  | ngg => .ngg
  | ps5GlobalStreamout => .ps5GlobalStreamout
  | forceAcceleratedDot => .forceAcceleratedDot
  | provokingVtxLast => .provokingVtxLast
  | raw => .raw
  | primitiveType _ => .primitiveType
  | address32Hi _ => .address32Hi
  | vertexAttribute .. => .vertexAttribute
  | descriptorBinding _ => .descriptorBinding

def loose : Setting → Option Arg
  | inputfile path | outputfile path | previousfile path | metadatafile path => some path
  | entrypoint name => some name
  | stage s => some (nameIn stageNames s)
  | _ => none

def passed : Setting → Option Arg
  | primitiveType n => some (nameIn primitiveTypeNames n)
  | address32Hi n => some (decimal n)
  | vertexAttribute a short => some (renderAttribute a short)
  | descriptorBinding b => some (renderBinding b)
  | _ => none

def render (s : Setting) : List Arg := s.opt.name :: (s.loose.toList ++ s.passed.toList)

def assign (res : CmdOptions) : Setting → CmdOptions
  | showhelp => { res with showhelp := true }
  | inputfile path => { res with inputfile := some path }
  | outputfile path => { res with outputfile := some path }
  | previousfile path => { res with previousfile := some path }
  | metadatafile path => { res with metadatafile := some path }
  | entrypoint name => { res with entrypoint := name }
  | stage s => { res with stage := s }
  | target t => { res with target := t }
  | noOptimise => { res with optimise := false }
  | verbose => { res with verbose := true }
  | ngg => { res with ngg := true }
  | ps5GlobalStreamout => { res with ps5GlobalStreamout := true }
  | forceAcceleratedDot => { res with forceAcceleratedDot := true }
  | provokingVtxLast => { res with provokingVtxLast := true }
  | raw => { res with raw := true }
  | primitiveType n => { res with primitiveType := n }
  | address32Hi n => { res with address32Hi := n }
  | vertexAttribute a _ => { res with vertexAttributes := res.vertexAttributes ++ [a] }
  | descriptorBinding b => { res with descriptorBindings := res.descriptorBindings ++ [b] }

def attribute? : Setting → Option PsbcVertexAttribute
  | vertexAttribute a _ => some a
  | _ => none

def binding? : Setting → Option PsbcDescriptorBinding
  | descriptorBinding b => some b
  | _ => none

end Setting

/-! ## Values that are in range -/

structure AttributeInRange (a : PsbcVertexAttribute) : Prop where
  location : a.location < psbcMaxVertexAttributes
  binding : a.binding < 32
  format : a.format ≠ .none
  offset : a.offset < 2 ^ 32
  stride : a.stride < 2 ^ 32
  alignment : a.alignment < 2 ^ 32
  instanceDivisor : a.instanceDivisor < 2 ^ 32

structure BindingInRange (b : PsbcDescriptorBinding) : Prop where
  set : b.set < 2 ^ 8
  binding : b.binding < 2 ^ 8
  type : b.type ∈ descriptorTypeNames.map Prod.snd
  arraySize : b.arraySize < 2 ^ 32
  offset : b.offset < 2 ^ 32
  stride : b.stride < 2 ^ 32

/-- The value can be written and is in range. -/
def Setting.InRange : Setting → Prop
  | stage s => s ≠ .none
  | primitiveType n => n ∈ primitiveTypeNames.map Prod.snd
  | address32Hi n => n < 2 ^ 32
  | vertexAttribute a short => AttributeInRange a ∧ (short = true → a.instanceDivisor = 0)
  | descriptorBinding b => BindingInRange b
  | _ => True

/-! ## Reading a record -/

structure FieldName {α : Type} [DecidableEq α] (names : List (Arg × α)) (parse : Arg → α) (x : α) :
    Prop where
  parse : parse (nameIn names x) = x
  ne_nil : nameIn names x ≠ []
  length_le : (nameIn names x).length ≤ 31
  colon : ':' ∉ nameIn names x

theorem vertexFormat_fieldName {f : PsbcVertexFormat} (h : f ≠ .none) :
    FieldName vertexFormatNames parseVertexFormat f := by
  have hall : ∀ f ∈ vertexFormatNames.map Prod.snd,
      parseVertexFormat (nameIn vertexFormatNames f) = f ∧ nameIn vertexFormatNames f ≠ [] ∧
      (nameIn vertexFormatNames f).length ≤ 31 ∧ ':' ∉ nameIn vertexFormatNames f := by
    decide +kernel
  have hmem : f ∈ vertexFormatNames.map Prod.snd := by
    cases f <;> first | exact absurd rfl h | decide
  obtain ⟨hparse, hne, hlen, hcolon⟩ := hall f hmem
  exact ⟨hparse, hne, hlen, hcolon⟩

theorem descriptorType_fieldName {t : PsbcDescriptorType}
    (h : t ∈ descriptorTypeNames.map Prod.snd) :
    FieldName descriptorTypeNames parseDescriptorType t := by
  have hall : ∀ t ∈ descriptorTypeNames.map Prod.snd,
      parseDescriptorType (nameIn descriptorTypeNames t) = t ∧
      nameIn descriptorTypeNames t ≠ [] ∧ (nameIn descriptorTypeNames t).length ≤ 31 ∧
      ':' ∉ nameIn descriptorTypeNames t := by
    decide +kernel
  obtain ⟨hparse, hne, hlen, hcolon⟩ := hall t h
  exact ⟨hparse, hne, hlen, hcolon⟩

theorem parsePrimitiveType_nameIn :
    ∀ n ∈ primitiveTypeNames.map Prod.snd,
      parsePrimitiveType (nameIn primitiveTypeNames n) = n ∧ n ≠ uint32Max := by
  decide +kernel

theorem psbcStageFromName_nameIn {s : PsbcStage} (h : s ≠ .none) :
    psbcStageFromName (nameIn stageNames s) = s ∧ Opt.ofArg (nameIn stageNames s) = none := by
  have hall : ∀ s ∈ stageNames.map Prod.snd,
      psbcStageFromName (nameIn stageNames s) = s ∧
        Opt.ofArg (nameIn stageNames s) = none := by
    decide +kernel
  refine hall s ?_
  cases s <;> first | exact absurd rfl h | decide

theorem FieldName.fits {α : Type} [DecidableEq α] {names : List (Arg × α)} {parse : Arg → α} {x : α}
    (h : FieldName names parse x) : (Part.field 31 (nameIn names x)).Fits ':' :=
  ⟨h.ne_nil, h.length_le, h.colon⟩

theorem attributeParts_fit {a : PsbcVertexAttribute} (ha : AttributeInRange a) (short : Bool) :
    ∀ p ∈ attributeParts a short, p.Fits ':' := by
  have hlocation : a.location < 2 ^ 32 := ha.location.trans (by decide)
  have hbinding : a.binding < 2 ^ 32 := ha.binding.trans (by decide)
  have hname := (vertexFormat_fieldName ha.format).fits
  refine List.forall_mem_append.mpr ⟨?_, ?_⟩
  · simp only [List.forall_mem_cons]
    exact ⟨hlocation, hname, hbinding, ha.offset, ha.stride, ha.alignment, nofun⟩
  · cases short with
    | false => exact List.forall_mem_singleton.mpr ha.instanceDivisor
    | true => exact nofun

theorem sscanf_renderAttribute {a : PsbcVertexAttribute} (ha : AttributeInRange a) (short : Bool) :
    sscanf CmdOptions.vertexAttributeFormat (renderAttribute a short) =
      (attributeParts a short).map Part.item := by
  have hparts := attributeParts_fit ha short
  cases short with
  | false => exact sscanf_record (by decide) hparts (List.cons_ne_nil _ _) (by rw [sscanf])
  | true =>
    -- the format goes on with the divisor
    have hformat : sscanf [.literal ':', .unsigned] [] = [] := by rw [sscanf]
    exact sscanf_record (by decide) hparts (List.cons_ne_nil _ _) hformat

theorem bindingParts_fit {b : PsbcDescriptorBinding} (hb : BindingInRange b) :
    ∀ p ∈ bindingParts b, p.Fits ':' := by
  have hset : b.set < 2 ^ 32 := hb.set.trans (by decide)
  have hbinding : b.binding < 2 ^ 32 := hb.binding.trans (by decide)
  have hname := (descriptorType_fieldName hb.type).fits
  simp only [bindingParts, List.forall_mem_cons]
  exact ⟨hset, hbinding, hname, hb.arraySize, hb.offset, hb.stride, nofun⟩

theorem sscanf_renderBinding {b : PsbcDescriptorBinding} (hb : BindingInRange b) :
    sscanf CmdOptions.descriptorBindingFormat (renderBinding b) =
      (bindingParts b).map Part.item :=
  sscanf_record (by decide) (bindingParts_fit hb) (List.cons_ne_nil _ _) (by rw [sscanf])

/-! ## Applying an option -/

theorem failIf_false (res : CmdOptions) : res.failIf false = res := by
  simp [CmdOptions.failIf]

theorem addVertexAttribute_render {a : PsbcVertexAttribute} {short : Bool} (res : CmdOptions)
    (ha : AttributeInRange a) (hshort : short = true → a.instanceDivisor = 0) :
    res.addVertexAttribute (renderAttribute a short) =
      { res with vertexAttributes := res.vertexAttributes ++ [a] } := by
  have hpush : ∀ divisor, a.instanceDivisor = divisor →
      res.pushVertexAttribute a.location (nameIn vertexFormatNames a.format) a.binding a.offset
        a.stride a.alignment divisor =
      { res with vertexAttributes := res.vertexAttributes ++ [a] } := by
    rintro _ rfl
    have hlocation : a.location % 2 ^ 8 = a.location :=
      Nat.mod_eq_of_lt (ha.location.trans (by decide))
    have hbinding : a.binding % 2 ^ 8 = a.binding :=
      Nat.mod_eq_of_lt (ha.binding.trans (by decide))
    simp only [CmdOptions.pushVertexAttribute, hlocation, hbinding,
      (vertexFormat_fieldName ha.format).parse, decide_eq_false (Nat.not_le.mpr ha.location),
      decide_eq_false (Nat.not_le.mpr ha.binding), beq_eq_false_iff_ne.mpr ha.format,
      Bool.or_false, failIf_false]
  rw [CmdOptions.addVertexAttribute, sscanf_renderAttribute ha]
  cases short with
  | false => exact hpush _ rfl
  | true => exact hpush 0 (hshort rfl)

theorem addDescriptorBinding_render {b : PsbcDescriptorBinding} (res : CmdOptions)
    (hb : BindingInRange b) :
    res.addDescriptorBinding (renderBinding b) =
      { res with descriptorBindings := res.descriptorBindings ++ [b] } := by
  have htype : b.type ≠ .none := by
    rintro heq
    have hnone : PsbcDescriptorType.none ∉ descriptorTypeNames.map Prod.snd := by decide
    exact hnone (heq ▸ hb.type)
  rw [CmdOptions.addDescriptorBinding, sscanf_renderBinding hb]
  simp only [bindingParts, List.map_cons, List.map_nil, Part.item, Nat.mod_eq_of_lt hb.set,
    Nat.mod_eq_of_lt hb.binding, (descriptorType_fieldName hb.type).parse, bne_self_eq_false,
    beq_eq_false_iff_ne.mpr htype, Bool.or_false, failIf_false]

theorem setPrimitiveType_nameIn {n : Nat} (res : CmdOptions)
    (hn : n ∈ primitiveTypeNames.map Prod.snd) :
    res.setPrimitiveType (nameIn primitiveTypeNames n) = { res with primitiveType := n } := by
  obtain ⟨hparse, hmax⟩ := parsePrimitiveType_nameIn n hn
  rw [CmdOptions.setPrimitiveType, hparse, beq_eq_false_iff_ne.mpr hmax, failIf_false]

theorem setAddress32Hi_decimal {n : Nat} (res : CmdOptions) (hn : n < 2 ^ 32) :
    res.setAddress32Hi (decimal n) = { res with address32Hi := n } := by
  have hmax : ¬ uint32Max < n := by
    unfold uint32Max
    omega
  rw [CmdOptions.setAddress32Hi, strtoul_decimal (hn.trans (by decide))]
  simp only [ne_eq, not_true_eq_false, hmax, or_self, if_false]

/-- The records that are there leave room for one more. -/
structure Setting.Fits (res : CmdOptions) (s : Setting) : Prop where
  attributes : (s.attribute?).isSome → res.vertexAttributes.length < psbcMaxVertexAttributes
  bindings : (s.binding?).isSome → res.descriptorBindings.length < psbcMaxDescriptorBindings

/-- **An option assigns what was written for it**, and goes past its value or not. -/
theorem Opt.apply_render {s : Setting} {res : CmdOptions} (hs : s.InRange) (hfits : s.Fits res)
    (rest : List Arg) :
    s.opt.apply res (s.loose.toList ++ s.passed.toList ++ rest).head? =
      (s.assign res, s.passed.isSome) := by
  cases s with
  | stage st =>
    have hname := (psbcStageFromName_nameIn hs).1
    exact congrArg (fun st => ({ res with stage := st }, false)) hname
  | target t => cases t <;> rfl
  | primitiveType n => exact congrArg (·, true) (setPrimitiveType_nameIn res hs)
  | address32Hi n => exact congrArg (·, true) (setAddress32Hi_decimal res hs)
  | vertexAttribute a short =>
    exact (if_neg (Nat.not_le.mpr (hfits.attributes rfl))).trans
      (congrArg (·, true) (addVertexAttribute_render res hs.1 hs.2))
  | descriptorBinding b =>
    exact (if_neg (Nat.not_le.mpr (hfits.bindings rfl))).trans
      (congrArg (·, true) (addDescriptorBinding_render res hs))
  | _ => rfl

end Psbc.Cli
