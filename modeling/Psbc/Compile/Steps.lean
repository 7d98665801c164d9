import Psbc.Compile.Output
import Psbc.Compile.Specialization
import Psbc.Lib.Fallible
import Psbc.Lib.Ledger

/-!
# What a compile does on its way

The implementation with the things it does that its result does not show: the entries of the
option arrays it reads, the library reference it takes, and the shaders and buffers it acquires,
frees and hands out. Every exit has the frees that the source has there. The checks and the entry
points are those of `Psbc.Compile.Impl`, with the loops over the arrays put in.

`EntryCall.acts_result` says that a call has the result of the other models.
-/

namespace Psbc.Compile

open Spirv Bytes Traced

/-! ## Acts -/

/-- The arrays of the options that a count belongs to. The constants of a stage are those of
the options it is prepared with. -/
inductive OptionArray where
  | vertexAttributes
  | descriptorBindings
  | specializationConstants (role : Role)
  deriving DecidableEq, Repr

def OptionArray.capacity : OptionArray → Nat
  | vertexAttributes => psbcMaxVertexAttributes
  | descriptorBindings => psbcMaxDescriptorBindings
  | specializationConstants _ => psbcMaxSpecializationConstants

/-- Where a legacy geometry shader is lowered. -/
inductive GsLowering where
  | direct
  | postprocess
  deriving DecidableEq, Repr

inductive Object where
  /-- The NIR of a stage. -/
  | nir (role : Role)
  /-- The copy shader that `ac_nir_lower_legacy_gs` makes. -/
  | gsCopy (lowering : GsLowering)
  /-- What `radv_shader_nir_to_asm` returns. -/
  | binary
  /-- The code that `buildshaderbinary` works on, and the container it builds. -/
  | newcode
  | buffer
  | machineCode
  deriving DecidableEq, Repr

inductive Act where
  | read (array : OptionArray) (index : Nat)
  /-- `psbc_init` and `psbc_shutdown`. -/
  | init
  | shutdown
  | own (op : Ledger.Op Object)
  deriving DecidableEq, Repr

abbrev acquire (x : Object) : Act := .own (.acquire x)
abbrev free (x : Object) : Act := .own (.free x)

abbrev Course := Traced PsbcError Act Unit

/-- A loop over the first `n` entries, or a copy of them. -/
def readAll (array : OptionArray) (n : Nat) : Course := acts ((List.range n).map (.read array))

/-- The exit of `buildshaderbinary` when it does not succeed. -/
inductive PackagingExit where
  /-- No memory for the code. -/
  | noCode
  /-- No memory for the container. -/
  | noBuffer
  /-- A stage that has no container. -/
  | noStage
  deriving DecidableEq, Repr

/-- What the callees answer, and how those that fail do it. -/
structure Outcomes extends Answers where
  /-- `prepare_stage_nir` has a shader and refuses its distance layout. -/
  layoutRefused : PsbcCompileOptions → MesaStage → Option (List Byte) → Option NirShader → Bool
  packagingExit : PackagingExit

def willingOutcomes : Outcomes :=
  { willingAnswers with layoutRefused := fun _ _ _ _ => false, packagingExit := .noCode }

/-! ## Validation -/

/-- The loop of a validation: every entry is looked at, and compared with those before it. -/
def checkEntries (array : OptionArray) (count : Nat) (bad : Nat → Bool)
    (clash : Nat → Nat → Bool) : Course :=
  each (fun i => do
    acts [.read array i]
    refuse (bad i) .internalError
    each (fun j => do
      acts [.read array j]
      refuse (clash j i) .internalError) (List.range i))
    (List.range count)

/-- `specialization_parameters_valid`, as the caller takes its answer. -/
def checkSpecialization (array : OptionArray) (c : Counted PsbcSpecializationConstant) :
    Course := do
  refuse (decide (psbcMaxSpecializationConstants < c.count)) .internalError
  checkEntries array c.count
    (fun i => (c.entry i).size == 0 || decide (psbcMaxSpecializationBytes < (c.entry i).size))
    (fun j i => (c.entry j).constantId == (c.entry i).constantId)

/-- The maps of the three stages, those of the linked ones where they are enabled. -/
def checkSpecializations (o : PsbcCompileOptions) : Course := do
  checkSpecialization (.specializationConstants .main) o.specializationConstants
  onlyIf o.previousParameters.enabled (checkSpecialization (.specializationConstants .previous)
    o.previousParameters.specializationConstants)
  onlyIf o.nextLinkParameters.enabled (checkSpecialization (.specializationConstants .nextLink)
    o.nextLinkParameters.specializationConstants)

def checkDescriptors (c : Counted PsbcDescriptorBinding) : Course :=
  checkEntries .descriptorBindings c.count (fun i => !(c.entry i).valid)
    (fun j i => (c.entry j).set == (c.entry i).set && (c.entry j).binding == (c.entry i).binding)

/-- The checks before the library reference is taken. -/
def checks (m : Modules) (o : PsbcCompileOptions) : Course := do
  stageChecks (gate o) m o
  optionChecks (checkSpecializations o) (checkDescriptors o.descriptorBindings) o

/-! ## Stage preparation -/

section

variable (a : Outcomes) (m : Modules) (o : CompileOptions)

/-- `select_linked_parameters` copies the whole array of constants. -/
def selectReads (source : PsbcLinkedStageParameters) (role : Role) : Course :=
  onlyIf source.enabled (readAll (.specializationConstants role) psbcMaxSpecializationConstants)

/-- A call of `prepare_stage_nir` and the exit that follows when it returns no shader. -/
def prepareStage (role : Role) (stage : MesaStage) (spirv : Option (List Byte))
    (nir : Option NirShader) (cleanup : List Act) : Course := do
  readAll (.specializationConstants role)
    (role.options o.toPsbcCompileOptions).specializationConstants.count
  exitIf (!a.lowers (role.options o.toPsbcCompileOptions) stage spirv nir)
    ((if a.layoutRefused (role.options o.toPsbcCompileOptions) stage spirv nir then
      [acquire (.nir role), free (.nir role)] else []) ++ cleanup) .compileNir
  acts [acquire (.nir role)]

/-- From `psbc_init` to the last shader that is linked. -/
def prepareModules : Course := do
  acts [.init]
  exitIf (m.wrongStage o.toPsbcCompileOptions) [.shutdown] .unsupportedStage
  prepareStage a o .main (psbcToMesaStage o.stage) m.spirv m.inputNir [.shutdown]
  onlyIf (m.request o.toPsbcCompileOptions).pairedPrevious do
    selectReads o.previousParameters .previous
    prepareStage a o .previous (m.request o.toPsbcCompileOptions).previousRole m.previousSpirv
      m.previousInputNir [free (.nir .main), .shutdown]
  onlyIf ((m.request o.toPsbcCompileOptions).pairedHull && m.nextLinkSpirv.isSome) do
    selectReads o.nextLinkParameters .nextLink
    prepareStage a o .nextLink .tessEval m.nextLinkSpirv none
      [free (.nir .previous), free (.nir .main), .shutdown]
    -- the link-only shader is freed once it has been read
    acts [free (.nir .nextLink)]
  onlyIf (m.request o.toPsbcCompileOptions).pairedTessGeometry do
    selectReads o.nextLinkParameters .nextLink
    prepareStage a o .nextLink .tessCtrl m.nextLinkSpirv none
      [free (.nir .previous), free (.nir .main), .shutdown]
    acts [.own (.steal (.nir .nextLink) (.nir .main))]

end

/-! ## Pipeline state -/

/-- The end of every exit behind the preparation. -/
def dropShaders (r : Request) : List Act :=
  (if r.pairedPrevious then [free (.nir .previous)] else []) ++ [free (.nir .main), .shutdown]

section

variable (a : Outcomes) (o : CompileOptions) (r : Request)

/-- The loop over the vertex attributes: nothing bounds their count. -/
def attributeLoop : Course :=
  each (fun i => do
    acts [.read .vertexAttributes i]
    exitIf (!o.attributeValid (o.vertexAttributes.entry i)) (dropShaders r) .internalError)
    (List.range o.vertexAttributes.count)

def pipelineState : Course := do
  readAll .descriptorBindings o.descriptorBindings.count
  exitIf (!o.samplesValid) (dropShaders r) .internalError
  exitIf (!o.primitiveTypeValid) (dropShaders r) .internalError
  attributeLoop o r

/-! ## Lowering -/

/-- The stage that follows in the pipeline, as a compile on its own assumes it. -/
def nextStage : MesaStage → MesaStage
  | .vertex => .fragment
  | .tessCtrl => .tessEval
  | .tessEval => .fragment
  | .geometry => .fragment
  | _ => .none

def radvIsLastVgtStage (stage next : MesaStage) : Bool :=
  (stage == .vertex || stage == .tessEval || stage == .geometry || stage == .mesh) &&
    (next == .fragment || next == .none)

/-- `radv_postprocess_nir`: the shader it makes next to the one it lowers. -/
def radvPostprocessNir (stage next : MesaStage) (ngg : Bool) : List Act :=
  if !ngg && radvIsLastVgtStage stage next && stage == .geometry then
    [acquire (.gsCopy .postprocess)]
  else []

/-- From the descriptor masks to the shader that the code generator gets. -/
def lowerStages : Course := do
  readAll .descriptorBindings o.descriptorBindings.count
  onlyIf (r.mesaStage == .geometry && !r.ngg)
    (acts [acquire (.gsCopy .direct), free (.gsCopy .direct)])
  onlyIf (r.pairedGeometry || r.pairedHull)
    (acts (radvPostprocessNir r.previousRole r.mesaStage r.pairedGeometry))
  acts (radvPostprocessNir r.mesaStage (nextStage r.mesaStage) r.ngg)
  exitIf (r.mesaStage == .fragment && o.target == .ps5 && !a.splitPs5MixedInputs)
    (dropShaders r) .internalError
  -- this exit frees the one shader of a fragment compile
  exitIf (r.mesaStage == .fragment && !a.buildInputSemantics && a.primIdInput)
    [free (.nir .main), .shutdown] .internalError

/-! ## Assembly -/

/-- What `buildshaderbinary` acquires and frees on an exit. -/
def PackagingExit.acts : PackagingExit → List Act
  | noCode => []
  | noBuffer => [acquire .newcode, free .newcode]
  | noStage => [acquire .newcode, acquire .buffer, free .newcode, free .buffer]

def buildContainer (code : List Word) : Course :=
  match a.buildshaderbinary code with
  | .error e => exitIf true (a.packagingExit.acts ++ free .binary :: dropShaders r) e
  | .ok _ => acts [acquire .newcode, acquire .buffer, free .newcode]

/-- From the code generator to the return. -/
def assemble : Course :=
  match a.nirToAsm with
  | none => exitIf true (dropShaders r) .compileAco
  | some code => do
    acts [acquire .binary]
    buildContainer a r code
    exitIf (!a.machineCodeFits) (free .buffer :: free .binary :: dropShaders r) .outOfMemory
    acts [acquire .machineCode, .own (.handOut .buffer), .own (.handOut .machineCode)]
    readAll .descriptorBindings o.descriptorBindings.count
    acts (free .binary :: dropShaders r)

end

/-! ## Calls -/

section

variable (a : Outcomes) (o : CompileOptions) (out : Bool)

/-- `psbc_compile_impl` up to the state the attributes are put into. -/
def prepared (m : Modules) : Course := do
  refuse (m.missing out) .internalError
  checks m o.toPsbcCompileOptions
  prepareModules a m o

def psbcCompileImplCourse (m : Modules) : Course := do
  prepared a o out m
  pipelineState o (m.request o.toPsbcCompileOptions)
  lowerStages a o (m.request o.toPsbcCompileOptions)
  assemble a o (m.request o.toPsbcCompileOptions)

/-- What the TES-fed geometry entry point does with a program that lacks its metadata. -/
def EntryCall.leave (call : EntryCall) : Course :=
  exitIf (call.isTessGeometry && !(fillShaderMetadata a.toAnswers o
    (call.modules.request o.toPsbcCompileOptions)).tessGeometry)
    [free .buffer, free .machineCode] .internalError

end

def EntryCall.acts (a : Outcomes) (opts : Option CompileOptions) (out : Bool)
    (call : EntryCall) : Course :=
  match opts with
  | none => refuse true call.nullError
  | some o => do
    call.enter (gate o.toPsbcCompileOptions) o.toPsbcCompileOptions out
    psbcCompileImplCourse a o out call.modules
    call.leave a o

/-! ## The result of a call -/

section Results

variable {a : Outcomes} {m : Modules} {o : CompileOptions} {r : Request} {out : Bool}

theorem checkEntries_result (array : OptionArray) (count : Nat) (bad : Nat → Bool)
    (clash : Nat → Nat → Bool) :
    (checkEntries array count bad clash).result =
      if !(List.range count).all fun i => !bad i && (List.range i).all fun j => !clash j i
      then .error .internalError else .ok () := by
  have hturn : ∀ i ∈ List.range count, (do
      acts [.read array i]
      refuse (bad i) .internalError
      each (fun j => do
        acts [.read array j]
        refuse (clash j i) .internalError) (List.range i) : Course).result =
      if bad i || (List.range i).any (clash · i) then .error .internalError else .ok () := by
    intro i _
    have hpairs : (each (fun j => do
        acts [.read array j]
        refuse (clash j i) .internalError) (List.range i) : Course).result =
        if (List.range i).any (clash · i) then .error .internalError else .ok () :=
      result_each fun j _ => rfl
    rw [result_acts_bind, result_refuse_bind, hpairs]
    cases bad i <;> rfl
  rw [checkEntries, result_each hturn, List.any_eq_not_all_not]
  simp only [Bool.not_or, List.any_eq_not_all_not, Bool.not_not]

theorem checkSpecialization_result (array : OptionArray) (c : Counted PsbcSpecializationConstant) :
    (checkSpecialization array c).result =
      if !specializationParametersValid c then .error .internalError else .ok () := by
  rw [checkSpecialization, result_refuse_bind, checkEntries_result, specializationParametersValid]
  by_cases hcount : psbcMaxSpecializationConstants < c.count
  · simp [hcount]
  · simp only [hcount, decide_false, Bool.false_eq_true, if_false, Bool.not_or, bne,
      ← decide_not, Nat.not_lt]

theorem checkSpecializations_result (o : PsbcCompileOptions) :
    (checkSpecializations o).result =
      if !o.specializationsValid then .error .internalError else .ok () := by
  have htests : ∀ main previous nextLink validPrevious validNext : Bool,
      ((if !main then Except.error .internalError else Except.ok ()).bind fun _ =>
        (if previous then if !validPrevious then Except.error .internalError else Except.ok ()
          else Except.ok ()).bind fun _ =>
        if nextLink then if !validNext then Except.error .internalError else Except.ok ()
          else Except.ok ()) =
      if !(main && (!previous || validPrevious) && (!nextLink || validNext)) then
        Except.error PsbcError.internalError else Except.ok () := by
    intro main previous nextLink validPrevious validNext
    cases main <;> cases previous <;> cases nextLink <;> cases validPrevious <;>
      cases validNext <;> rfl
  simp only [checkSpecializations, result_bind, result_onlyIf, checkSpecialization_result,
    PsbcCompileOptions.specializationsValid]
  exact htests _ _ _ _ _

theorem checkDescriptors_result (o : PsbcCompileOptions) :
    (checkDescriptors o.descriptorBindings).result =
      if !o.descriptorBindingsValid then .error .internalError else .ok () := by
  rw [checkDescriptors, checkEntries_result, PsbcCompileOptions.descriptorBindingsValid]
  simp only [Bool.not_not]

theorem preflight_result (m : Modules) (o : PsbcCompileOptions) :
    (preflight m o).result = (checks m o).result.bind fun _ =>
      if m.wrongStage o then .error .unsupportedStage else .ok () := by
  simp only [preflight, checks, optionChecks, result_bind, result_refuse, result_stageChecks_gate,
    checkSpecializations_result, checkDescriptors_result, Fallible.bind_assoc]

theorem prepareStage_result (role : Role) (stage : MesaStage) (spirv : Option (List Byte))
    (nir : Option NirShader) (cleanup : List Act) (mesa : Mesa) (hmesa : mesa.lowers = a.lowers) :
    (prepareStage a o role stage spirv nir cleanup).result =
      (prepareStageNir mesa (role.options o.toPsbcCompileOptions) stage spirv nir).result := by
  rw [prepareStage, readAll, result_acts_bind, result_exitIf_bind, prepareStageNir, result_event,
    hmesa]
  cases a.lowers (role.options o.toPsbcCompileOptions) stage spirv nir <;> rfl

theorem selectReads_result (source : PsbcLinkedStageParameters) (role : Role) :
    (selectReads source role).result = .ok () := by
  rw [selectReads, result_onlyIf]
  split <;> rfl

theorem prepareModules_result (mesa : Mesa) (hmesa : mesa.lowers = a.lowers) :
    (prepareModules a m o).result =
      if m.wrongStage o.toPsbcCompileOptions then .error .unsupportedStage
      else (lowerModules mesa m o.toPsbcCompileOptions).result := by
  rw [prepareModules, result_acts_bind, result_exitIf_bind, lowerModules_eq]
  simp only [result_bind, result_onlyIf, prepareStage_result _ _ _ _ _ mesa hmesa,
    selectReads_result, result_acts, Fallible.ok_bind, Fallible.bind_ok]

theorem prepared_result (mesa : Mesa) (hmesa : mesa.lowers = a.lowers) :
    (prepared a o out m).result =
      if m.missing out then .error .internalError
      else (preflight m o.toPsbcCompileOptions).result.bind fun _ =>
        (lowerModules mesa m o.toPsbcCompileOptions).result := by
  rw [prepared, result_refuse_bind, result_bind, prepareModules_result mesa hmesa,
    preflight_result, Fallible.bind_assoc]
  cases m.wrongStage o.toPsbcCompileOptions <;> rfl

theorem attributeLoop_result :
    (attributeLoop o r).result =
      if !o.attributesValid then .error .internalError else .ok () := by
  rw [attributeLoop, result_each (p := fun i => !o.attributeValid (o.vertexAttributes.entry i))
    fun i _ => by rw [result_acts_bind, result_exitIf], CompileOptions.attributesValid,
    List.any_eq_not_all_not]
  simp only [Bool.not_not]

theorem pipelineState_result :
    (pipelineState o r).result =
      if !o.samplesValid || !o.primitiveTypeValid || !o.attributesValid then
        .error .internalError else .ok () := by
  rw [pipelineState, readAll, result_acts_bind, result_exitIf_bind, result_exitIf_bind,
    attributeLoop_result]
  cases o.samplesValid <;> cases o.primitiveTypeValid <;> rfl

def fragmentRefused (a : Answers) (o : CompileOptions) (r : Request) : Bool :=
  r.mesaStage == .fragment &&
    (o.target == .ps5 && !a.splitPs5MixedInputs || !a.buildInputSemantics && a.primIdInput)

theorem lowerStages_result :
    (lowerStages a o r).result =
      if fragmentRefused a.toAnswers o r then .error .internalError else .ok () := by
  have hacts : ∀ (b : Bool) (t : List Act), (onlyIf b (acts t) : Course).result = .ok () := by
    intro b t
    cases b <;> rfl
  rw [lowerStages, readAll, result_acts_bind, result_bind, hacts, Fallible.ok_bind, result_bind,
    hacts, Fallible.ok_bind, result_acts_bind, result_exitIf_bind, result_exitIf, fragmentRefused]
  cases r.mesaStage == .fragment <;> cases o.target == .ps5 <;> cases a.splitPs5MixedInputs <;> rfl

theorem assemble_result :
    (assemble a o r).result =
      match a.nirToAsm with
      | none => .error .compileAco
      | some code => (a.buildshaderbinary code).bind fun _ =>
        if !a.machineCodeFits then .error .outOfMemory else .ok () := by
  unfold assemble
  split
  · rfl
  · next code _ =>
    rw [result_acts_bind, result_bind, buildContainer]
    cases a.buildshaderbinary code with
    | error e => rfl
    | ok binary => exact result_exitIf_bind _ _

theorem finish_result :
    (do
      pipelineState o r
      lowerStages a o r
      assemble a o r : Course).result = (finishCompile a.toAnswers o r).map fun _ => () := by
  rw [result_bind, pipelineState_result, result_bind, lowerStages_result, assemble_result]
  by_cases hstate : (!o.samplesValid || !o.primitiveTypeValid || !o.attributesValid) = true
  · have hfinish : finishCompile a.toAnswers o r = .error .internalError := by
      unfold finishCompile
      grind
    rw [if_pos hstate, hfinish]
    rfl
  · rw [if_neg hstate, Fallible.ok_bind]
    by_cases hfragment : fragmentRefused a.toAnswers o r = true
    · have hfinish : finishCompile a.toAnswers o r = .error .internalError := by
        unfold fragmentRefused at hfragment
        unfold finishCompile
        grind
      rw [if_pos hfragment, hfinish]
      rfl
    · have hsplit : ¬ (r.mesaStage = .fragment ∧ o.target = .ps5 ∧
          (!a.splitPs5MixedInputs) = true) := by
        unfold fragmentRefused at hfragment
        grind
      have hinputs : ¬ (r.mesaStage = .fragment ∧ (!a.buildInputSemantics) = true ∧
          a.primIdInput = true) := by
        unfold fragmentRefused at hfragment
        grind
      simp only [Bool.or_eq_true, not_or] at hstate
      obtain ⟨⟨hsamples, hprimitive⟩, hattributes⟩ := hstate
      rw [if_neg hfragment, Fallible.ok_bind, finishCompile]
      simp only [hsamples, hprimitive, hattributes, hsplit, hinputs, if_false]
      cases a.nirToAsm with
      | none => rfl
      | some code =>
        dsimp only
        cases a.buildshaderbinary code with
        | error e => rfl
        | ok binary => cases a.machineCodeFits <;> rfl

theorem psbcCompileImplCourse_result :
    (psbcCompileImplCourse a o out m).result =
      (psbcCompileImpl (a.mesa m o) m o.toPsbcCompileOptions out).result := by
  rw [psbcCompileImplCourse, result_bind, prepared_result (a.mesa m o) rfl, finish_result,
    psbcCompileImpl, result_refuse_bind, result_bind, result_bind]
  split
  · rfl
  · rw [Fallible.bind_assoc]
    rfl

/-- **The course of a call ends as the call does** in the other models. -/
theorem EntryCall.acts_result (a : Outcomes) (o : CompileOptions) (out : Bool)
    (call : EntryCall) :
    (call.acts a (some o) out).result =
      (call.run (a.mesa call.modules o) (some o.toPsbcCompileOptions) out).result := by
  rw [acts, run, result_bind, result_bind, result_bind, result_bind, result_enter_gate,
    psbcCompileImplCourse_result, leave, result_exitIf, result_refuse]
  rfl

/-! ## How far a call gets -/

structure Checked (m : Modules) (o : PsbcCompileOptions) : Prop where
  descriptors : o.descriptorBindings.count ≤ psbcMaxDescriptorBindings
  specializations : o.specializationsValid = true
  pair : (m.request o).pairRefused = false

theorem checked_of_checks {o : PsbcCompileOptions} (h : (checks m o).result = .ok ()) :
    Checked m o := by
  simp only [checks, stageChecks, optionChecks, result_bind_eq_ok, result_refuse_eq_ok,
    checkSpecializations_result, ite_eq_right_iff, reduceCtorEq, imp_false, Bool.not_eq_true,
    Bool.not_eq_false'] at h
  obtain ⟨-, ⟨-, -, -, -, -, -, -, hpair, -⟩, -, hcount, -, hspec, -⟩ := h
  exact ⟨Nat.le_of_not_lt (of_decide_eq_false hcount), hspec, hpair⟩

theorem checked_of_prepared {a : Outcomes} {o : CompileOptions} {out : Bool}
    (h : (prepared a o out m).result = .ok ()) : Checked m o.toPsbcCompileOptions := by
  simp only [prepared, result_bind_eq_ok] at h
  obtain ⟨_, _, _, hchecks, _⟩ := h
  exact checked_of_checks hchecks

end Results

/-- The entry point and the checks accept the call, and every shader is prepared. -/
structure EntryCall.Prepares (a : Outcomes) (o : CompileOptions) (out : Bool)
    (call : EntryCall) : Prop where
  entered : (call.enter (validate o.toPsbcCompileOptions) o.toPsbcCompileOptions out).result =
    .ok ()
  given : call.modules.missing out = false
  checked : (preflight call.modules o.toPsbcCompileOptions).result = .ok ()
  lowered : (lowerModules (a.mesa call.modules o) call.modules o.toPsbcCompileOptions).result =
    .ok ()

theorem EntryCall.prepares_iff {a : Outcomes} {o : CompileOptions} {out : Bool}
    {call : EntryCall} :
    call.Prepares a o out ↔
      (call.enter (gate o.toPsbcCompileOptions) o.toPsbcCompileOptions out : Course).result =
        .ok () ∧ (prepared a o out call.modules).result = .ok () := by
  rw [prepared_result (a.mesa call.modules o) rfl, result_enter_gate]
  constructor
  · rintro ⟨hentered, hgiven, hchecked, hlowered⟩
    rw [hgiven, hchecked, hlowered]
    exact ⟨hentered, rfl⟩
  · rintro ⟨hentered, hprepared⟩
    split at hprepared
    · exact absurd hprepared (by simp)
    · next hgiven =>
      obtain ⟨_, hchecked, hlowered⟩ := Fallible.bind_eq_ok.mp hprepared
      exact ⟨hentered, Bool.eq_false_iff.mpr hgiven, hchecked, hlowered⟩

/-! ## The checks only read -/

section Checks

variable {P : Act → Prop} {m : Modules}

theorem always_checkEntries {array : OptionArray} {n : Nat} {bad : Nat → Bool}
    {clash : Nat → Nat → Bool} (h : ∀ i < n, P (.read array i)) :
    Always P (checkEntries array n bad clash) := by
  refine always_each fun i hi => ?_
  have hi := List.mem_range.mp hi
  refine always_bind.mpr ⟨always_acts.mpr (List.forall_mem_singleton.mpr (h i hi)), fun _ => ?_⟩
  refine always_bind.mpr ⟨always_refuse, fun _ => always_each fun j hj => ?_⟩
  have hj := List.mem_range.mp hj
  exact always_bind.mpr ⟨always_acts.mpr (List.forall_mem_singleton.mpr (h j (by omega))),
    fun _ => always_refuse⟩

variable (hread : ∀ array i, i < array.capacity → P (.read array i))
include hread

theorem always_checkSpecialization (role : Role) (c : Counted PsbcSpecializationConstant) :
    Always P (checkSpecialization (.specializationConstants role) c) := by
  refine always_bind.mpr ⟨always_refuse, fun hok => always_checkEntries fun i hi => ?_⟩
  have hcount := Nat.le_of_not_lt (of_decide_eq_false (result_refuse_eq_ok.mp hok))
  exact hread _ i (Nat.lt_of_lt_of_le hi hcount)

theorem always_checkSpecializations (o : PsbcCompileOptions) :
    Always P (checkSpecializations o) := by
  refine always_bind.mpr ⟨always_checkSpecialization hread _ _, fun _ => ?_⟩
  refine always_bind.mpr ⟨always_onlyIf fun _ => ?_, fun _ => always_onlyIf fun _ => ?_⟩
  · exact always_checkSpecialization hread _ _
  · exact always_checkSpecialization hread _ _

omit hread in
theorem always_stageChecks (o : PsbcCompileOptions) : Always P (stageChecks (gate o) m o) := by
  have hgate : ∀ b spirv, Always P (onlyIf b (gate o spirv)) := fun b spirv =>
    always_onlyIf fun _ => always_of_trace_nil rfl
  simp only [stageChecks, always_bind, always_refuse, hgate, true_and, implies_true]

theorem always_checks (o : PsbcCompileOptions) : Always P (checks m o) := by
  refine always_bind.mpr ⟨always_stageChecks o, fun _ => ?_⟩
  -- the count of the descriptor bindings is bounded in front of their loop
  refine always_bind.mpr ⟨always_refuse, fun hcount => ?_⟩
  have hcount := Nat.le_of_not_lt (of_decide_eq_false (result_refuse_eq_ok.mp hcount))
  refine always_bind.mpr ⟨always_checkSpecializations hread o, fun _ => ?_⟩
  refine always_bind.mpr ⟨always_refuse, fun _ => always_bind.mpr ⟨always_refuse, fun _ => ?_⟩⟩
  exact always_checkEntries fun i hi => hread _ i (Nat.lt_of_lt_of_le hi hcount)

omit hread in
theorem EntryCall.always_enter (o : PsbcCompileOptions) (out : Bool) (call : EntryCall) :
    Always P (call.enter (gate o) o out) := by
  have hgate : ∀ spirv, Always P (gate o spirv) := fun _ => always_of_trace_nil rfl
  cases call <;> simp only [enter, always_bind, always_refuse, always_pure, hgate, true_and,
    implies_true]

end Checks

end Psbc.Compile
