import Mathlib.Data.Set.Basic
import Psbc.Lib.Cells
import Psbc.Lib.Placement

/-!
# Accessors of the parameter info

Behind the parameter info stand six sections of records, each directly behind the one before,
then the value table and the string table. An accessor of `pssl_types.h` compares its index
with the count of its section and sums up the sections in front.

The comparison lets the count itself through, so every accessor has one index too many.
`ParamAccess.respected_iff` says that nothing else is wrong.
-/

namespace Psbc.Container

open Placement

/-! ## The accessors -/

structure PsslBinaryParamInfo where
  numbufferresources : BitVec 32
  numconstants : BitVec 32
  numvariables : BitVec 32
  numsamplerresources : BitVec 32
  numinputattributes : BitVec 8
  numoutputattributes : BitVec 8
  valuetablesize : BitVec 32
  deriving DecidableEq, Repr

/-! The sizes that the header asserts. -/

def sizeofParamInfo : Nat := 0x1c
def sizeofBuffer : Nat := 0x18
def sizeofConstant : Nat := 0x20
def sizeofElement : Nat := 0x24
def sizeofSamplerState : Nat := 0x10
def sizeofAttribute : Nat := 0x10

/-- The record `idx` of a section with `count` records of `size` bytes from `start` on, as an
offset from the parameter info. The sums are of `size_t`, which no counts overflow. -/
def paramRecord (info : Option PsslBinaryParamInfo) (count : PsslBinaryParamInfo → BitVec 32)
    (start : PsslBinaryParamInfo → Nat) (size : Nat) (idx : BitVec 32) : Option Nat :=
  info.bind fun info => if count info < idx then none else some (start info + size * idx.toNat)

section Accessors

variable (info : Option PsslBinaryParamInfo) (idx : BitVec 32)

def psslParamBuffer : Option Nat :=
  paramRecord info (·.numbufferresources) (fun _ => sizeofParamInfo) sizeofBuffer idx

def psslParamConstant : Option Nat :=
  paramRecord info (·.numconstants)
    (fun info => sizeofParamInfo + sizeofBuffer * info.numbufferresources.toNat)
    sizeofConstant idx

def psslParamVariable : Option Nat :=
  paramRecord info (·.numvariables)
    (fun info => sizeofParamInfo + sizeofBuffer * info.numbufferresources.toNat +
      sizeofConstant * info.numconstants.toNat)
    sizeofElement idx

def psslParamSampler : Option Nat :=
  paramRecord info (·.numsamplerresources)
    (fun info => sizeofParamInfo + sizeofBuffer * info.numbufferresources.toNat +
      sizeofConstant * info.numconstants.toNat + sizeofElement * info.numvariables.toNat)
    sizeofSamplerState idx

def psslParamInputAttr : Option Nat :=
  paramRecord info (·.numinputattributes.setWidth 32)
    (fun info => sizeofParamInfo + sizeofBuffer * info.numbufferresources.toNat +
      sizeofConstant * info.numconstants.toNat + sizeofElement * info.numvariables.toNat +
      sizeofSamplerState * info.numsamplerresources.toNat)
    sizeofAttribute idx

def psslParamOutputAttr : Option Nat :=
  paramRecord info (·.numoutputattributes.setWidth 32)
    (fun info => sizeofParamInfo + sizeofBuffer * info.numbufferresources.toNat +
      sizeofConstant * info.numconstants.toNat + sizeofElement * info.numvariables.toNat +
      sizeofSamplerState * info.numsamplerresources.toNat +
      sizeofAttribute * info.numinputattributes.toNat)
    sizeofAttribute idx

def psslParamStringTable : Option Nat :=
  info.map fun info => sizeofParamInfo + sizeofBuffer * info.numbufferresources.toNat +
    sizeofConstant * info.numconstants.toNat + sizeofElement * info.numvariables.toNat +
    sizeofSamplerState * info.numsamplerresources.toNat +
    sizeofAttribute * info.numinputattributes.toNat +
    sizeofAttribute * info.numoutputattributes.toNat + info.valuetablesize.toNat

end Accessors

/-! ## Sections -/

inductive ParamSection where
  | buffer
  | constant
  | element
  | sampler
  | inputAttr
  | outputAttr
  deriving DecidableEq, Repr

namespace ParamSection

/-- In the order of the file. -/
def all : List ParamSection := [buffer, constant, element, sampler, inputAttr, outputAttr]

def before : ParamSection → List ParamSection
  | buffer => []
  | constant => [buffer]
  | element => [buffer, constant]
  | sampler => [buffer, constant, element]
  | inputAttr => [buffer, constant, element, sampler]
  | outputAttr => [buffer, constant, element, sampler, inputAttr]

def accessor : ParamSection → Option PsslBinaryParamInfo → BitVec 32 → Option Nat
  | buffer => psslParamBuffer
  | constant => psslParamConstant
  | element => psslParamVariable
  | sampler => psslParamSampler
  | inputAttr => psslParamInputAttr
  | outputAttr => psslParamOutputAttr

def recordSize : ParamSection → Nat
  | buffer => sizeofBuffer
  | constant => sizeofConstant
  | element => sizeofElement
  | sampler => sizeofSamplerState
  | inputAttr | outputAttr => sizeofAttribute

variable (info : PsslBinaryParamInfo)

def count : ParamSection → BitVec 32
  | buffer => info.numbufferresources
  | constant => info.numconstants
  | element => info.numvariables
  | sampler => info.numsamplerresources
  | inputAttr => info.numinputattributes.setWidth 32
  | outputAttr => info.numoutputattributes.setWidth 32

def room (s : ParamSection) : Nat := s.recordSize * (s.count info).toNat

def start (s : ParamSection) : Nat := sizeofParamInfo + total (room info) s.before

/-- A section stands where the room of those before it ends. -/
theorem at_start (s : ParamSection) :
    At (room info) (fun _ => False) (fun _ => False) all s (total (room info) s.before) := by
  refine ⟨s.before, all.drop (s.before.length + 1), ?_, rfl, fun _ _ => id, fun _ _ => id⟩
  cases s <;> rfl

theorem toNat_attributes (n : BitVec 8) : (n.setWidth 32).toNat = n.toNat := by
  rw [BitVec.toNat_setWidth]
  omega

/-- Every accessor sums up what stands in front of its section. -/
theorem accessor_eq (s : ParamSection) (idx : BitVec 32) :
    s.accessor (some info) idx =
      if s.count info < idx then none else some (s.start info + s.recordSize * idx.toNat) := by
  cases s <;>
    simp only [start, before, room, count, recordSize, total_cons, total_nil, toNat_attributes,
      Nat.add_zero, ← Nat.add_assoc] <;> rfl

theorem record_end_le {s : ParamSection} {idx : BitVec 32} (h : idx < s.count info) :
    s.start info + s.recordSize * idx.toNat + s.recordSize ≤ s.start info + s.room info := by
  have hend := Cells.end_le (BitVec.lt_def.mp h) (Nat.le_of_eq (Nat.zero_add s.recordSize))
  rw [room, Nat.mul_comm _ idx.toNat, Nat.mul_comm s.recordSize (s.count info).toNat]
  omega

end ParamSection

/-! ## What the accessors respect -/

/-- The value table stands behind the last section. -/
def valueTable (info : PsslBinaryParamInfo) : Nat :=
  sizeofParamInfo + total (ParamSection.room info) ParamSection.all

theorem psslParamStringTable_eq (info : PsslBinaryParamInfo) :
    psslParamStringTable (some info) = some (valueTable info + info.valuetablesize.toNat) := by
  simp only [valueTable, ParamSection.all, ParamSection.room, ParamSection.count,
    ParamSection.recordSize, total_cons, total_nil, ParamSection.toNat_attributes, Nat.add_zero,
    ← Nat.add_assoc]
  rfl

/-- A call of an accessor. -/
structure ParamAccess where
  kind : ParamSection
  index : BitVec 32
  deriving DecidableEq, Repr

namespace ParamAccess

def record (a : ParamAccess) (info : PsslBinaryParamInfo) : Option Nat :=
  a.kind.accessor (some info) a.index

/-- The calls get the records of their sections. -/
structure Respected (info : PsslBinaryParamInfo) (calls : Set ParamAccess) : Prop where
  returned : ∀ a ∈ calls, (a.record info).isSome = true ↔ a.index < a.kind.count info
  apart : ∀ a ∈ calls, ∀ b ∈ calls, a ≠ b → ∀ p ∈ a.record info, ∀ q ∈ b.record info,
    p + a.kind.recordSize ≤ q ∨ q + b.kind.recordSize ≤ p
  inside : ∀ a ∈ calls, ∀ p ∈ a.record info, p + a.kind.recordSize ≤ valueTable info ∧
    ∀ table ∈ psslParamStringTable (some info), p + a.kind.recordSize ≤ table

variable {info : PsslBinaryParamInfo} {a b : ParamAccess} {p q : Nat}

theorem isSome_record : (a.record info).isSome = true ↔ ¬ a.kind.count info < a.index := by
  rw [record, ParamSection.accessor_eq]
  split <;> simp_all

theorem eq_of_mem_record (hp : p ∈ a.record info) :
    p = a.kind.start info + a.kind.recordSize * a.index.toNat := by
  rw [record, ParamSection.accessor_eq] at hp
  split at hp
  · cases hp
  · exact (Option.some.inj hp).symm

theorem index_lt (hne : a.index ≠ a.kind.count info) (hp : p ∈ a.record info) :
    a.index < a.kind.count info := by
  have hsome := isSome_record.mp (Option.isSome_of_mem hp)
  rw [BitVec.not_lt] at hsome
  exact BitVec.lt_of_le_ne hsome hne

theorem end_le_valueTable (hlt : a.index < a.kind.count info) (hp : p ∈ a.record info) :
    p + a.kind.recordSize ≤ valueTable info := by
  have hend := ParamSection.record_end_le info hlt
  have hroom := (ParamSection.at_start info a.kind).end_le
  rw [eq_of_mem_record hp]
  unfold valueTable
  unfold ParamSection.start at hend ⊢
  omega

theorem record_apart (hne : a ≠ b) (ha : a.index < a.kind.count info)
    (hb : b.index < b.kind.count info) (hp : p ∈ a.record info) (hq : q ∈ b.record info) :
    p + a.kind.recordSize ≤ q ∨ q + b.kind.recordSize ≤ p := by
  rw [eq_of_mem_record hp, eq_of_mem_record hq]
  by_cases hkind : a.kind = b.kind
  · -- one section: the indices differ
    have hindex : a.index.toNat ≠ b.index.toNat := fun h => hne <| by
      cases a
      cases b
      simp_all [BitVec.toNat_inj]
    have hfits := Nat.le_of_eq (Nat.zero_add a.kind.recordSize)
    have happart := Cells.apart_record hfits hfits (.inl hindex)
    rw [← hkind, Nat.mul_comm _ a.index.toNat, Nat.mul_comm _ b.index.toNat]
    unfold Cells.Apart at happart
    omega
  · have hend := ParamSection.record_end_le info ha
    have hend' := ParamSection.record_end_le info hb
    have hrooms := (ParamSection.at_start info a.kind).disjoint (ParamSection.at_start info b.kind)
      hkind
    unfold ParamSection.start at hend hend' ⊢
    omega

end ParamAccess

/-- **Calls of the accessors get the records of their sections** unless one of them has the
count of its section for an index. -/
theorem ParamAccess.respected_iff (info : PsslBinaryParamInfo) (calls : Set ParamAccess) :
    Respected info calls ↔ ∀ a ∈ calls, a.index ≠ a.kind.count info := by
  constructor
  · intro h a ha heq
    have hreturned := (h.returned a ha).mp (isSome_record.mpr (heq ▸ BitVec.lt_irrefl _))
    rw [heq] at hreturned
    exact BitVec.lt_irrefl _ hreturned
  · intro h
    refine ⟨fun a ha => ?_, fun a ha b hb hne p hp q hq => ?_, fun a ha p hp => ?_⟩
    · rw [isSome_record, BitVec.not_lt]
      exact ⟨fun hle => BitVec.lt_of_le_ne hle (h a ha), BitVec.le_of_lt⟩
    · exact record_apart hne (index_lt (h a ha) hp) (index_lt (h b hb) hq) hp hq
    · have hend := end_le_valueTable (index_lt (h a ha) hp) hp
      refine ⟨hend, fun table htable => ?_⟩
      rw [psslParamStringTable_eq] at htable
      obtain rfl := Option.some.inj htable
      omega

/-- Two buffers, one constant and one output attribute. -/
def fewParameters : PsslBinaryParamInfo := ⟨2, 1, 0, 0, 0, 1, 8⟩

/-- The buffer behind the last one is the constant, and the attribute behind the last one lies
in the tables. -/
theorem fewParameters_one_too_many :
    psslParamBuffer (some fewParameters) 2 = psslParamConstant (some fewParameters) 0 ∧
      psslParamConstant (some fewParameters) 0 = some 0x4c ∧
      psslParamOutputAttr (some fewParameters) 1 = some (valueTable fewParameters) ∧
      psslParamStringTable (some fewParameters) = some (valueTable fewParameters + 8) := by
  decide

end Psbc.Container
