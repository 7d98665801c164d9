import Psbc.Stage
import Psbc.Spirv.Reader

/-!
# The capability gate

`validate_spirv_capabilities` goes over the instructions of a module and refuses it when
an `OpCapability` names a capability the options do not enable. It looks at two-word
`OpCapability` instructions only. `FailClosed` is the wider reading, in which the first
operand counts whatever the instruction's length; `gate_failClosed_iff` says for which
modules the two agree. On a fail-closed module the reader turns on permitted capabilities
only (`enabledCapabilities_permitted`).
-/

namespace Psbc.Spirv

open Bytes Records

structure CapabilityOptions where
  enableInt8 : Bool
  enableInt16 : Bool
  enableStorageBuffer8BitAccess : Bool
  enableUniformAndStorageBuffer8BitAccess : Bool
  enableStorageBuffer16BitAccess : Bool
  enableUniformAndStorageBuffer16BitAccess : Bool
  enablePhysicalStorageBufferAddresses : Bool
  enableVulkanMemoryModel : Bool
  enableVulkanMemoryModelDeviceScope : Bool
  deriving DecidableEq, Repr

/-! ## The gate -/

/-- The `switch` of the gate: capabilities it does not name are enabled. -/
def capabilityEnabled (opts : CapabilityOptions) (capability : Word) : Bool :=
  match capability.toNat with
  | 39 => opts.enableInt8
  | 22 => opts.enableInt16
  | 4448 => opts.enableStorageBuffer8BitAccess
  | 4449 => opts.enableUniformAndStorageBuffer8BitAccess
  | 4433 => opts.enableStorageBuffer16BitAccess
  | 4434 => opts.enableUniformAndStorageBuffer16BitAccess
  | 5347 => opts.enablePhysicalStorageBufferAddresses
  | 5345 => opts.enableVulkanMemoryModel
  | 5346 => opts.enableVulkanMemoryModelDeviceScope
  | _ => true

/-- The loop of `validate_spirv_capabilities`, from `offset` on. -/
def validateFrom (opts : CapabilityOptions) (spirv : List Word) (offset : Nat) :
    Except PsbcError Unit :=
  if h : offset < spirv.length then
    let instruction := spirv[offset]
    if wordCount instruction = 0 ∨ spirv.length - offset < wordCount instruction then
      .error .invalidSpirv
    else if opcode instruction = opCapability ∧ wordCount instruction = 2 ∧
        capabilityEnabled opts (spirv.getD (offset + 1) 0) = false then
      .error .unsupportedCapability
    else
      validateFrom opts spirv (offset + wordCount instruction)
  else
    .ok ()
termination_by spirv.length - offset
decreasing_by
  have hcount : ¬ (wordCount spirv[offset] = 0 ∨ _) := ‹_›
  omega

/-- The result for a module of these bytes; `none` is the null pointer. -/
def validateSpirvCapabilities (spirv : Option (List Byte)) (opts : CapabilityOptions) :
    Except PsbcError Unit :=
  match spirv with
  | none => .error .invalidSpirv
  | some data =>
    if data.length < 20 ∨ data.length % 4 ≠ 0 ∨ word data 0 ≠ magicNumber then
      .error .invalidSpirv
    else
      validateFrom opts (words data) 5

/-! ## What the gate accepts -/

def gatedCapabilities : List (Word × (CapabilityOptions → Bool)) :=
  [(39, (·.enableInt8)), (22, (·.enableInt16)),
    (4448, (·.enableStorageBuffer8BitAccess)),
    (4449, (·.enableUniformAndStorageBuffer8BitAccess)),
    (4433, (·.enableStorageBuffer16BitAccess)),
    (4434, (·.enableUniformAndStorageBuffer16BitAccess)),
    (5347, (·.enablePhysicalStorageBufferAddresses)),
    (5345, (·.enableVulkanMemoryModel)),
    (5346, (·.enableVulkanMemoryModelDeviceScope))]

/-- A capability that is not gated, or whose flag is set. -/
def Permitted (opts : CapabilityOptions) (capability : Word) : Prop :=
  ∀ g ∈ gatedCapabilities, g.1 = capability → g.2 opts = true

theorem capabilityEnabled_iff (opts : CapabilityOptions) (capability : Word) :
    capabilityEnabled opts capability = true ↔ Permitted opts capability := by
  simp only [Permitted, gatedCapabilities, List.forall_mem_cons, BitVec.toNat_eq,
    eq_comm (b := capability.toNat)]
  unfold capabilityEnabled
  split <;> simp_all

/-- The instruction, if it declares a capability, declares a permitted one. -/
def Declares (opts : CapabilityOptions) (r : List Word) : Prop :=
  ∀ c ∈ declaredCapability r, Permitted opts c

@[simp] theorem declares_cons_cons {opts : CapabilityOptions} {a b : Word} {l : List Word} :
    Declares opts (a :: b :: l) ↔ (opcode a = opCapability → Permitted opts b) := by
  by_cases hop : opcode a = opCapability <;> simp [Declares, declaredCapability, hop]

/-- What the gate asks of an instruction. -/
def PassesGate (opts : CapabilityOptions) (r : List Word) : Prop :=
  r.length = 2 → Declares opts r

theorem passesGate_take_drop_iff {opts : CapabilityOptions} {spirv : List Word} {offset : Nat}
    (h : offset < spirv.length)
    (hok : ¬ (wordCount spirv[offset] = 0 ∨ spirv.length - offset < wordCount spirv[offset])) :
    PassesGate opts ((spirv.drop offset).take (wordCount spirv[offset])) ↔
      ¬ (opcode spirv[offset] = opCapability ∧ wordCount spirv[offset] = 2 ∧
        capabilityEnabled opts (spirv.getD (offset + 1) 0) = false) := by
  have hlen : ((spirv.drop offset).take (wordCount spirv[offset])).length =
      wordCount spirv[offset] := by
    rw [List.length_take, List.length_drop]
    omega
  unfold PassesGate
  rw [hlen]
  -- only a two-word instruction is looked at, and it has its operand inside the module
  by_cases htwo : wordCount spirv[offset] = 2
  · have hnext : offset + 1 < spirv.length := by omega
    have hoperand : spirv.getD (offset + 1) 0 = spirv[offset + 1] := by simp [hnext]
    rw [htwo, List.drop_eq_getElem_cons h, List.drop_eq_getElem_cons hnext, hoperand,
      List.take_succ_cons, List.take_succ_cons, declares_cons_cons, ← Bool.not_eq_true,
      capabilityEnabled_iff]
    tauto
  · simp [htwo]

/-- The loop accepts the stream from `offset` on exactly when it is tiled by instructions
that pass. -/
theorem validateFrom_eq_ok_iff (opts : CapabilityOptions) (spirv : List Word) (offset : Nat) :
    validateFrom opts spirv offset = .ok () ↔
      Tiled wordCount (PassesGate opts) (spirv.drop offset) := by
  fun_induction validateFrom opts spirv offset with
  | case1 offset h instruction hbad =>
    exact iff_of_false (by simp) (not_tiled_drop h hbad)
  | case2 offset h instruction hok hbad =>
    rw [tiled_drop_iff h hok, passesGate_take_drop_iff h hok]
    exact iff_of_false (by simp) fun hpass => hpass.1 hbad
  | case3 offset h instruction hok hpass ih =>
    rw [ih, tiled_drop_iff h hok, passesGate_take_drop_iff h hok]
    exact (and_iff_right hpass).symm
  | case4 offset h =>
    rw [List.drop_eq_nil_of_le (by omega)]
    simp

theorem headerOk_iff (data : List Byte) :
    HeaderOk data ↔
      ¬ (data.length < 20 ∨ data.length % 4 ≠ 0 ∨ word data 0 ≠ magicNumber) := by
  simp [HeaderOk, not_or]

theorem validateSpirvCapabilities_some_eq_ok_iff (data : List Byte) (opts : CapabilityOptions) :
    validateSpirvCapabilities (some data) opts = .ok () ↔
      HeaderOk data ∧ Tiled wordCount (PassesGate opts) (body data) := by
  rw [body, ← validateFrom_eq_ok_iff, headerOk_iff]
  simp only [validateSpirvCapabilities]
  split
  · next hbad => exact iff_of_false (by simp) fun h => h.1 hbad
  · next hok => exact (and_iff_right hok).symm

theorem validate_assemble_eq_ok_iff {opts : CapabilityOptions} {bound : Word}
    {instructions : List (List Word)} (h : ∀ r ∈ instructions, IsRecord wordCount r) :
    validateSpirvCapabilities (some (assemble bound instructions)) opts = .ok () ↔
      ∀ r ∈ instructions, PassesGate opts r := by
  have htiles : Tiles wordCount instructions (body (assemble bound instructions)) :=
    ⟨(body_assemble bound instructions).symm, h⟩
  rw [validateSpirvCapabilities_some_eq_ok_iff, and_iff_right (headerOk_assemble _ _)]
  constructor
  · rintro ⟨rs, ht, hpass⟩
    obtain rfl := ht.unique htiles
    exact hpass
  · intro hpass
    exact ⟨instructions, htiles, hpass⟩

/-! ## The wider reading -/

/-- A module that is well formed and declares permitted capabilities only, whatever the
length of the instructions that declare them. -/
def FailClosed (opts : CapabilityOptions) (data : List Byte) : Prop :=
  HeaderOk data ∧ Tiled wordCount (Declares opts) (body data)

/-- The gate, for this module and these options, accepts what `FailClosed` accepts. -/
def GateFailClosed (spirv : Option (List Byte)) (opts : CapabilityOptions) : Prop :=
  validateSpirvCapabilities spirv opts = .ok () ↔ ∃ data ∈ spirv, FailClosed opts data

/-- Some instruction of three or more words declares a capability that is not permitted. -/
def LongDeclaration (opts : CapabilityOptions) (data : List Byte) : Prop :=
  ∃ rs, Tiles wordCount rs (body data) ∧ ∃ r ∈ rs, 2 < r.length ∧ ¬ Declares opts r

theorem declares_of_length_lt {opts : CapabilityOptions} {r : List Word} (h : r.length < 2) :
    Declares opts r := by
  rcases r with _ | ⟨a, _ | ⟨b, r⟩⟩
  · simp [Declares, declaredCapability]
  · simp [Declares, declaredCapability]
  · rw [List.length_cons, List.length_cons] at h
    omega

theorem Declares.passesGate {opts : CapabilityOptions} {r : List Word} (h : Declares opts r) :
    PassesGate opts r := fun _ => h

/-- The instructions that pass the gate and are not long declarations are fail-closed. -/
theorem tiled_declares_iff {opts : CapabilityOptions} {data : List Byte}
    (h : Tiled wordCount (PassesGate opts) (body data)) :
    Tiled wordCount (Declares opts) (body data) ↔ ¬ LongDeclaration opts data := by
  obtain ⟨rs, ht, hpass⟩ := h
  constructor
  · rintro ⟨rs₁, ht₁, hdecl⟩ ⟨rs₂, ht₂, r, hr, -, hbad⟩
    obtain rfl := ht₁.unique ht₂
    exact hbad (hdecl r hr)
  · intro hlong
    refine ⟨rs, ht, fun r hr => ?_⟩
    by_contra hbad
    rcases Nat.lt_trichotomy r.length 2 with hlt | htwo | hgt
    · exact hbad (declares_of_length_lt hlt)
    · exact hbad (hpass r hr htwo)
    · exact hlong ⟨rs, ht, r, hr, hgt, hbad⟩

/-- The gate is fail-closed on a module exactly when it refuses the module or the module
has no long declaration of a disabled capability. -/
theorem gate_failClosed_iff (spirv : Option (List Byte)) (opts : CapabilityOptions) :
    GateFailClosed spirv opts ↔
      ∀ data ∈ spirv, HeaderOk data → Tiled wordCount (PassesGate opts) (body data) →
        ¬ LongDeclaration opts data := by
  unfold GateFailClosed
  cases spirv with
  | none => simp [validateSpirvCapabilities]
  | some data =>
    rw [validateSpirvCapabilities_some_eq_ok_iff]
    simp only [Option.mem_def, Option.some.injEq, exists_eq_left', forall_eq', FailClosed]
    constructor
    · intro h hheader hpass
      exact (tiled_declares_iff hpass).1 (h.1 ⟨hheader, hpass⟩).2
    · intro h
      refine ⟨fun ⟨hheader, hpass⟩ => ⟨hheader, ?_⟩, fun ⟨hheader, hdecl⟩ => ⟨hheader, ?_⟩⟩
      · exact (tiled_declares_iff hpass).2 (h hheader hpass)
      · exact hdecl.imp fun _ => Declares.passesGate

/-- Three words where two would do: an `OpCapability Int8` with a spare operand. -/
def longInt8 : List Byte := assemble 1 [[0x00030011, 39, 0]]

def noCapabilities : CapabilityOptions :=
  { enableInt8 := false, enableInt16 := false, enableStorageBuffer8BitAccess := false,
    enableUniformAndStorageBuffer8BitAccess := false, enableStorageBuffer16BitAccess := false,
    enableUniformAndStorageBuffer16BitAccess := false,
    enablePhysicalStorageBufferAddresses := false, enableVulkanMemoryModel := false,
    enableVulkanMemoryModelDeviceScope := false }

/-- The gate accepts `longInt8` with every capability off, and the reader turns `Int8` on. -/
theorem longInt8_accepted :
    validateSpirvCapabilities (some longInt8) noCapabilities = .ok () ∧
      (∀ past, enabledCapabilities (fun _ => false) past longInt8 = some [39]) ∧
      ¬ GateFailClosed (some longInt8) noCapabilities := by
  have hrecord : ∀ r ∈ [[(0x00030011 : Word), 39, 0]], IsRecord wordCount r := by
    simp [IsRecord, wordCount]
  have haccept : validateSpirvCapabilities (some longInt8) noCapabilities = .ok () :=
    (validate_assemble_eq_ok_iff hrecord).2 (by simp [PassesGate])
  refine ⟨haccept, fun past => ?_, fun h => ?_⟩
  · have hheader : vtnCreateBuilder longInt8 = true := by decide
    rw [enabledCapabilities, if_pos hheader, longInt8, assemble, words_wordBytes]
    simp [vtnForeachInstruction, wordCount, opcode, opNop, opLine, opNoLine,
      vtnHandlePreambleInstruction, opCapability]
  · obtain ⟨data, hdata, -, rs, ht, hdecl⟩ := h.1 haccept
    obtain rfl : longInt8 = data := by simpa using hdata
    obtain rfl := ht.unique ⟨(body_assemble _ _).symm, hrecord⟩
    have hint8 : Permitted noCapabilities 39 :=
      declares_cons_cons.1 (hdecl _ List.mem_cons_self) (by decide)
    exact absurd (hint8 _ List.mem_cons_self rfl) (by decide)

/-! ## The reader on modules that are fail-closed -/

/-- No gated capability is the first word of a well-formed instruction. -/
theorem permitted_of_wordCount_pos {opts : CapabilityOptions} {a : Word} (h : 0 < wordCount a) :
    Permitted opts a := by
  have hzero : ∀ g ∈ gatedCapabilities, wordCount g.1 = 0 := by decide
  rintro g hg rfl
  rw [hzero g hg] at h
  exact absurd h (Nat.lt_irrefl 0)

/-- The word the reader takes for an `OpCapability` is its operand, the first word of the
next instruction, or the word behind the module. -/
theorem permitted_headD {opts : CapabilityOptions} {a past : Word} {l : List Word}
    (hfits : Fits wordCount a (a :: l)) (htiled : Tiled wordCount (Declares opts) (a :: l))
    (hop : opcode a = opCapability) (hpast : Permitted opts past) :
    Permitted opts (l.headD past) := by
  obtain ⟨hdecl, hrest⟩ := (tiled_iff_of_fits hfits).1 htiled
  cases l with
  | nil => exact hpast
  | cons b l =>
    by_cases hone : wordCount a = 1
    · -- no operand: the reader takes the next instruction's first word
      rw [hone] at hrest
      have hb : Fits wordCount b (b :: l) := not_not.1 fun h => not_tiled_of_not_fits h hrest
      exact permitted_of_wordCount_pos hb.1
    · obtain ⟨n, hn⟩ : ∃ n, wordCount a = n + 2 := ⟨wordCount a - 2, by have := hfits.1; omega⟩
      rw [hn, List.take_succ_cons, List.take_succ_cons, declares_cons_cons] at hdecl
      exact hdecl hop

/-- Every capability the reader turns on in a fail-closed module is permitted, if the word
behind the module is not a disabled capability. -/
theorem enabledCapabilities_permitted {opts : CapabilityOptions} {fails : Nat → Bool}
    {past : Word} {data : List Byte} {enabled : List Word} (h : FailClosed opts data)
    (hpast : Permitted opts past) (hread : enabledCapabilities fails past data = some enabled) :
    ∀ c ∈ enabled, Permitted opts c := by
  unfold enabledCapabilities at hread
  split at hread
  · obtain ⟨⟨stop, t⟩, hrun, rfl⟩ := Option.map_eq_some_iff.1 hread
    refine vtnForeachInstruction_keeps (I := fun enabled => ∀ c ∈ enabled, Permitted opts c)
      ?_ h.2 (by simp) hrun
    intro s s' a l hfits htiled hstep hs
    rcases vtnHandlePreambleInstruction_cases hstep with ⟨hop, rfl⟩ | rfl
    · exact List.forall_mem_cons.2 ⟨permitted_headD hfits htiled hop hpast, hs⟩
    · exact hs
  · simp at hread

end Psbc.Spirv
