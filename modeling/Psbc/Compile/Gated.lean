import Psbc.Compile.Impl

/-!
# Every module is gated before it is lowered

`Gated` is the order a compile should keep: a SPIR-V module reaches `prepare_stage_nir`
only when an earlier run of the gate in the same call accepted it, under the same options.
The implementation runs the gate on the compiled and the previous stage. For the link-only
stage it relies on the entry point, and the one of the hull pair passes its evaluation
module on without a run; `EntryCall.gated_iff` has the exact condition.
-/

namespace Psbc.Compile

open Spirv Bytes Traced

/-- What an event needs among the earlier ones: a module that is lowered, a run of the gate
that accepted it under the same options. -/
def Needs (past : List Event) : Event → Prop
  | .lowered opts _ (some data) _ => .validated opts (some data) (.ok ()) ∈ past
  | _ => True

/-- Every SPIR-V module that is lowered was accepted by the gate earlier in the trace. -/
def Gated (trace : List Event) : Prop :=
  ∀ pre opts stage data nir post, trace = pre ++ .lowered opts stage (some data) nir :: post →
    .validated opts (some data) (.ok ()) ∈ pre

theorem gated_iff_meets {trace : List Event} : Gated trace ↔ Meets Needs [] trace := by
  rw [meets_iff_forall_split]
  constructor
  · intro h pre e post heq
    match e with
    | .validated .. => trivial
    | .lowered _ _ none _ => trivial
    | .lowered opts stage (some data) nir => exact h pre opts stage data nir post heq
  · intro h pre opts stage data nir post heq
    exact h pre _ post heq

/-! ## The checks -/

variable {m : Modules} {opts : PsbcCompileOptions} {mesa : Mesa} {past : List Event}

/-- The checks run the gate on the compiled and the previous stage, and lower nothing. -/
theorem mem_preflight_trace {e : Event} (h : e ∈ (preflight m opts).trace) :
    ∃ r, e = .validated opts.capabilities m.spirv r ∨
      e = .validated opts.capabilities m.previousSpirv r := by
  simp only [preflight, stageChecks, optionChecks, mem_trace_bind, trace_refuse,
    List.not_mem_nil, false_or, or_false, and_false, exists_false, mem_trace_onlyIf, validate,
    trace_event, List.mem_singleton] at h
  grind

theorem meets_preflight : Meets Needs past (preflight m opts).trace := by
  refine meets_of_forall fun e he past => ?_
  obtain ⟨r, rfl | rfl⟩ := mem_preflight_trace he <;> trivial

theorem meets_validate {spirv : Option (List Byte)} :
    Meets Needs past (validate opts spirv).trace := ⟨trivial, trivial⟩

theorem ensures_validate (spirv : Option (List Byte)) :
    (validate opts spirv).Ensures (.validated opts.capabilities spirv (.ok ())) := by
  intro u hu
  rw [validate, result_event] at hu
  rw [validate, trace_event, hu]
  exact List.mem_singleton_self _

theorem ensures_preflight_spirv (hnir : m.inputNir = none) :
    (preflight m opts).Ensures (.validated opts.capabilities m.spirv (.ok ())) := by
  unfold preflight stageChecks
  refine .bind_left (.bind_right fun _ => .bind_left ?_)
  rw [hnir]
  exact ensures_validate m.spirv

theorem ensures_preflight_previous (hprev : m.previousSpirv.isSome = true) :
    (preflight m opts).Ensures (.validated opts.capabilities m.previousSpirv (.ok ())) := by
  unfold preflight stageChecks
  refine .bind_left ?_
  iterate 7 refine .bind_right fun _ => ?_
  rw [hprev]
  exact .bind_left (ensures_validate m.previousSpirv)

/-- Which modules have passed the gate when the checks are done. -/
theorem validated_mem_preflight_iff (h : (preflight m opts).result = .ok ())
    (hnir : m.spirv = none ∨ m.inputNir = none) (data : List Byte) :
    .validated opts.capabilities (some data) (.ok ()) ∈ (preflight m opts).trace ↔
      m.spirv = some data ∨ m.previousSpirv = some data := by
  constructor
  · intro hmem
    obtain ⟨r, heq | heq⟩ := mem_preflight_trace hmem
    · exact .inl (Event.validated.inj heq).2.1.symm
    · exact .inr (Event.validated.inj heq).2.1.symm
  · rintro (hspirv | hprev)
    · rw [← hspirv]
      exact ensures_preflight_spirv (hnir.resolve_left (by simp [hspirv])) () h
    · rw [← hprev]
      exact ensures_preflight_previous (by simp [hprev]) () h

/-! ## The lowering -/

/-- The compile gets to its link-only stage: the arguments are given, the checks pass, the
two stages of the pair are lowered, and the pair is a hull or a geometry one. -/
structure ReachesLink (mesa : Mesa) (m : Modules) (opts : PsbcCompileOptions) (out : Bool) :
    Prop where
  given : m.missing out = false
  checked : (preflight m opts).result = .ok ()
  compiled : mesa.lowers opts (psbcToMesaStage opts.stage) m.spirv m.inputNir = true
  previous : mesa.lowers (selectLinkedParameters opts opts.previousParameters)
    (m.request opts).previousRole m.previousSpirv m.previousInputNir = true
  linked : (m.request opts).pairedHull = true ∨ (m.request opts).pairedTessGeometry = true

def Accepted (opts : PsbcCompileOptions) (past : List Event) (spirv : Option (List Byte)) : Prop :=
  ∀ data ∈ spirv, .validated opts.capabilities (some data) (.ok ()) ∈ past

theorem meets_prepareStageNir {stage : MesaStage} {spirv : Option (List Byte)}
    {nir : Option NirShader} :
    Meets Needs past (prepareStageNir mesa opts stage spirv nir).trace ↔
      Accepted opts past spirv := by
  rw [prepareStageNir, trace_event, meets_singleton]
  cases spirv <;> simp [Needs, Accepted]

theorem result_prepareStageNir {stage : MesaStage} {spirv : Option (List Byte)}
    {nir : Option NirShader} {u : Unit} :
    (prepareStageNir mesa opts stage spirv nir).result = .ok u ↔
      mesa.lowers opts stage spirv nir = true := by
  rw [prepareStageNir, result_event]
  split <;> simp_all

/-- Lowering a module does not make another one accepted. -/
theorem accepted_append_prepareStageNir {o : PsbcCompileOptions} {stage : MesaStage}
    {spirv spirv' : Option (List Byte)} {nir : Option NirShader} :
    Accepted opts (past ++ (prepareStageNir mesa o stage spirv nir).trace) spirv' ↔
      Accepted opts past spirv' := by
  simp [Accepted, prepareStageNir]

theorem accepted_append_onlyIf {o : PsbcCompileOptions} {b : Bool} {stage : MesaStage}
    {spirv spirv' : Option (List Byte)} {nir : Option NirShader} :
    Accepted opts (past ++ (onlyIf b (prepareStageNir mesa o stage spirv nir)).trace) spirv' ↔
      Accepted opts past spirv' := by
  cases b with
  | false => simp [onlyIf]
  | true => exact accepted_append_prepareStageNir

theorem accepted_selectLinkedParameters {source : PsbcLinkedStageParameters}
    {spirv : Option (List Byte)} :
    Accepted (selectLinkedParameters opts source) past spirv ↔ Accepted opts past spirv := by
  rw [Accepted, selectLinkedParameters_capabilities]
  rfl

/-- Each module that is lowered has to be accepted before the first one is. -/
theorem meets_lowerModules_iff :
    Meets Needs past (lowerModules mesa m opts).trace ↔
      Accepted opts past m.spirv ∧
      (mesa.lowers opts (psbcToMesaStage opts.stage) m.spirv m.inputNir = true →
        ((m.request opts).pairedPrevious = true → Accepted opts past m.previousSpirv) ∧
        (((m.request opts).pairedPrevious = true →
            mesa.lowers (selectLinkedParameters opts opts.previousParameters)
              (m.request opts).previousRole m.previousSpirv m.previousInputNir = true) →
          (m.request opts).pairedHull = true ∨ (m.request opts).pairedTessGeometry = true →
          Accepted opts past m.nextLinkSpirv)) := by
  simp only [lowerModules, meets_bind, meets_onlyIf, meets_prepareStageNir,
    result_prepareStageNir, result_onlyIf_eq_ok, accepted_append_prepareStageNir,
    accepted_append_onlyIf, accepted_selectLinkedParameters]
  have hlink : m.nextLinkSpirv.isSome = false → Accepted opts past m.nextLinkSpirv := by
    intro h data hdata
    simp_all
  have hrole := @Request.pairedHull_of_pairedTessGeometry (m.request opts)
  refine and_congr_right fun _ => ?_
  rw [forall_const]
  refine imp_congr_right fun _ => and_congr_right fun _ => ?_
  rw [forall_const]
  refine imp_congr_right fun _ => ?_
  -- a null link module is lowered by neither branch, and needs nothing
  cases hsome : m.nextLinkSpirv.isSome with
  | false => simp [hlink hsome]
  | true =>
    rw [Bool.and_true]
    constructor
    · rintro ⟨hhull, htess⟩ (h | h)
      · exact hhull h
      · exact htess () (fun hh => by simp [hrole h] at hh) h
    · intro h
      exact ⟨fun hh => h (.inl hh), fun _ _ ht => h (.inr ht)⟩

/-- The compile keeps the order exactly when its link-only module, if it gets to it, has
been accepted before the call or is one of the modules the checks run the gate on. -/
theorem meets_psbcCompileImpl_iff (hnir : m.spirv = none ∨ m.inputNir = none) (out : Bool) :
    Meets Needs past (psbcCompileImpl mesa m opts out).trace ↔
      (ReachesLink mesa m opts out → ∀ data ∈ m.nextLinkSpirv,
        .validated opts.capabilities (some data) (.ok ()) ∈ past ∨
          m.spirv = some data ∨ m.previousSpirv = some data) := by
  have haccepted : (preflight m opts).result = .ok () → ∀ spirv,
      Accepted opts (past ++ (preflight m opts).trace) spirv ↔
        ∀ data ∈ spirv, .validated opts.capabilities (some data) (.ok ()) ∈ past ∨
          m.spirv = some data ∨ m.previousSpirv = some data := by
    intro h spirv
    simp only [Accepted, List.mem_append, validated_mem_preflight_iff h hnir]
  simp only [psbcCompileImpl, meets_bind, trace_refuse, meets_nil, true_and, List.append_nil,
    result_refuse_eq_ok, meets_preflight, meets_lowerModules_iff]
  constructor
  · -- the two stages of the pair are accepted by the checks, so only the link is left
    intro h hreach
    have hmeets := (h () hreach.given () hreach.checked).1.2 hreach.compiled
    exact (haccepted hreach.checked _).1 (hmeets.2 (fun _ => hreach.previous) hreach.linked)
  · intro h _ hgiven _ hchecked
    refine ⟨⟨?_, fun hcompiled => ⟨fun _ => ?_, fun hprev hlinked => ?_⟩⟩, fun _ _ => trivial⟩
    · exact (haccepted hchecked _).2 fun data hdata => .inr (.inl hdata)
    · exact (haccepted hchecked _).2 fun data hdata => .inr (.inr hdata)
    · have hprevious := hprev (Request.pairedPrevious_of_link hlinked)
      exact (haccepted hchecked _).2 (h ⟨hgiven, hchecked, hcompiled, hprevious, hlinked⟩)

/-- Without a link-only module the compile keeps the order. -/
theorem meets_psbcCompileImpl_of_no_link (hnir : m.spirv = none ∨ m.inputNir = none)
    (hlink : m.nextLinkSpirv = none) (out : Bool) :
    Meets Needs past (psbcCompileImpl mesa m opts out).trace := by
  rw [meets_psbcCompileImpl_iff hnir]
  intro _ data hdata
  simp [hlink] at hdata

/-! ## The entry points -/

theorem EntryCall.meets_run_iff {call : EntryCall} (out : Bool) :
    Meets Needs past (call.run mesa (some opts) out).trace ↔
      ((call.enter (validate opts) opts out).result = .ok () →
        Meets Needs (past ++ (call.enter (validate opts) opts out).trace)
          (psbcCompileImpl mesa call.modules opts out).trace) := by
  have hentered : Meets Needs past (call.enter (validate opts) opts out).trace := by
    cases call <;> simp only [enter, meets_bind, trace_refuse, trace_pure, meets_nil,
      meets_validate, true_and, implies_true]
  simp only [run, meets_bind, hentered, trace_refuse, meets_nil, implies_true, and_true, true_and]
  exact ⟨fun h => h (), fun h _ => h⟩

/-- Only the hull entry and the geometry entry fed by tessellation have a link-only module. -/
theorem EntryCall.meets_run_of_no_link {call : EntryCall} (opts : Option PsbcCompileOptions)
    (out : Bool) (hnir : call.modules.spirv = none ∨ call.modules.inputNir = none)
    (hlink : call.modules.nextLinkSpirv = none) :
    Meets Needs past (call.run mesa opts out).trace := by
  cases opts with
  | none => exact meets_nil
  | some opts =>
    rw [meets_run_iff]
    exact fun _ => meets_psbcCompileImpl_of_no_link hnir hlink out

/-- The geometry entry fed by tessellation runs the gate on its control module itself. -/
theorem EntryCall.meets_run_tessGeometryPipeline
    (control evaluation geometry : Option (List Byte)) (opts : Option PsbcCompileOptions)
    (out : Bool) :
    Meets Needs past
      ((tessGeometryPipeline control evaluation geometry).run mesa opts out).trace := by
  cases opts with
  | none => exact meets_nil
  | some opts =>
    rw [meets_run_iff, meets_psbcCompileImpl_iff (.inr rfl)]
    intro hentered _ data hdata
    obtain rfl : control = some data := hdata
    refine .inl (List.mem_append_right _ ?_)
    exact Ensures.bind_right (fun _ => .bind_right fun _ => ensures_validate _) () hentered

/-- The call lowers an evaluation module that the gate has not seen: it is a call of the
hull entry that gets to its link-only stage, and that module is neither of the other two. -/
def EntryCall.LowersUnseen (mesa : Mesa) (opts : Option PsbcCompileOptions) (out : Bool)
    (call : EntryCall) : Prop :=
  ∃ vertex tessCtrl tessEval o,
    call = .tessPipeline (some vertex) (some tessCtrl) (some tessEval) ∧ opts = some o ∧
      (o.stage = .tessCtrl ∧ o.target = .ps5 ∧ badPatchSize o = false) ∧
      ReachesLink mesa ⟨some tessCtrl, none, some vertex, none, some tessEval⟩ o out ∧
      tessEval ≠ tessCtrl ∧ tessEval ≠ vertex

theorem EntryCall.meets_run_tessPipeline_iff (vertex tessCtrl tessEval : Option (List Byte))
    (opts : Option PsbcCompileOptions) (out : Bool) :
    Meets Needs [] ((tessPipeline vertex tessCtrl tessEval).run mesa opts out).trace ↔
      ¬ LowersUnseen mesa opts out (.tessPipeline vertex tessCtrl tessEval) := by
  constructor
  · rintro h ⟨v, c, e, o, hcall, rfl, ⟨hstage, htarget, hpatch⟩, hreach, hec, hev⟩
    obtain ⟨rfl, rfl, rfl⟩ := EntryCall.tessPipeline.inj hcall
    have hgiven : out = true := by simpa [Modules.missing] using hreach.given
    simp only [meets_run_iff, enter, result_bind_eq_ok, result_refuse_eq_ok] at h
    have hmeets := h ⟨(), by simp [hgiven], (), by simp [hstage, htarget], hpatch⟩
    rw [meets_psbcCompileImpl_iff (.inr rfl)] at hmeets
    rcases hmeets hreach e rfl with hnil | hspirv | hprev
    · simp at hnil
    · exact hec (Option.some.inj hspirv).symm
    · exact hev (Option.some.inj hprev).symm
  · intro h
    cases opts with
    | none => exact meets_nil
    | some o =>
      rw [meets_run_iff, meets_psbcCompileImpl_iff (.inr rfl)]
      simp only [enter, result_bind_eq_ok, result_refuse_eq_ok]
      rintro ⟨_, hgiven, _, hstage, hpatch⟩ hreach e he
      obtain ⟨v, rfl⟩ : ∃ v, vertex = some v := Option.isSome_iff_exists.1 (by simp_all)
      obtain ⟨c, rfl⟩ : ∃ c, tessCtrl = some c := Option.isSome_iff_exists.1 (by simp_all)
      obtain rfl : tessEval = some e := he
      by_contra hunseen
      refine h ⟨v, c, e, o, rfl, rfl, ⟨by simp_all, by simp_all, hpatch⟩, hreach, ?_, ?_⟩
      · rintro rfl
        exact hunseen (.inr (.inl rfl))
      · rintro rfl
        exact hunseen (.inr (.inr rfl))

/-- A call keeps the order exactly when it does not lower an unseen evaluation module. -/
theorem EntryCall.gated_iff (mesa : Mesa) (opts : Option PsbcCompileOptions) (out : Bool)
    (call : EntryCall) :
    Gated (call.run mesa opts out).trace ↔ ¬ call.LowersUnseen mesa opts out := by
  rw [gated_iff_meets]
  cases call with
  | tessPipeline vertex tessCtrl tessEval =>
    exact meets_run_tessPipeline_iff vertex tessCtrl tessEval opts out
  | shader spirv =>
    exact iff_of_true (meets_run_of_no_link opts out (.inr rfl) rfl) (by simp [LowersUnseen])
  | nir shader =>
    exact iff_of_true (meets_run_of_no_link opts out (.inl rfl) rfl) (by simp [LowersUnseen])
  | geometryPipeline vertex geometry =>
    exact iff_of_true (meets_run_of_no_link opts out (.inr rfl) rfl) (by simp [LowersUnseen])
  | nirGeometryPipeline vertex geometry =>
    exact iff_of_true (meets_run_of_no_link opts out (.inl rfl) rfl) (by simp [LowersUnseen])
  | domainPipeline tessCtrl tessEval =>
    exact iff_of_true (meets_run_of_no_link opts out (.inr rfl) rfl) (by simp [LowersUnseen])
  | tessGeometryPipeline control evaluation geometry =>
    exact iff_of_true (meets_run_tessGeometryPipeline control evaluation geometry opts out)
      (by simp [LowersUnseen])

/-! ## A hull pair with a gated evaluation module -/

def emptyMain (capabilities : List Word) (executionModel : Word) (modes : List (List Word)) :
    List (List Word) :=
  capabilities.map (fun c => [0x00020011, c]) ++
    [[0x0003000e, 0, 1], [0x0005000f, executionModel, 1, 0x6e69616d, 0]] ++ modes ++
    [[0x00020013, 2], [0x00030021, 3, 2], [0x00050036, 2, 1, 0, 3], [0x000200f8, 4],
      [0x000100fd], [0x00010038]]

def hullVertex : List Byte := assemble 5 (emptyMain [1] 0 [])

def hullControl : List Byte := assemble 5 (emptyMain [3] 1 [[0x00040010, 1, 26, 3]])

/-- The evaluation module declares `Int8`. -/
def hullEvaluation : List Byte := assemble 5 (emptyMain [3, 39] 2 [[0x00030010, 1, 22]])

def noParameters : PsbcLinkedStageParameters :=
  { enabled := false, entrypoint := none, specializationConstants := ⟨0, fun _ => ⟨0, 0, []⟩⟩ }

/-- A PS5 hull compile of three-vertex patches with every capability off. -/
def hullOptions : PsbcCompileOptions :=
  { target := .ps5, stage := .tessCtrl, entrypoint := none, ngg := false,
    primitiveIdPerPrimitive := false, ps5GlobalStreamout := false,
    descriptorBindings := ⟨0, fun _ => ⟨0, 0, .none, 0, 0, 0⟩⟩,
    specializationConstants := ⟨0, fun _ => ⟨0, 0, []⟩⟩,
    previousParameters := noParameters, nextLinkParameters := noParameters,
    patchControlPoints := 3, spiShaderColFormat := 0, colorIsInt8 := 0, colorIsInt10 := 0,
    capabilities := noCapabilities }

def willingMesa : Mesa :=
  { lowers := fun _ _ _ _ => true, finish := .ok (), tessGeometryMetadata := true }

theorem isRecord_emptyMain {capabilities : List Word} {executionModel : Word}
    {modes : List (List Word)} (h : ∀ r ∈ modes, Records.IsRecord wordCount r) :
    ∀ r ∈ emptyMain capabilities executionModel modes, Records.IsRecord wordCount r := by
  simp only [emptyMain, List.forall_mem_append, List.forall_mem_map]
  refine ⟨⟨⟨fun c _ => ?_, ?_⟩, h⟩, ?_⟩ <;> simp [Records.IsRecord, wordCount]

theorem passesGate_emptyMain_iff {opts : CapabilityOptions} {capabilities : List Word}
    {executionModel : Word} {modes : List (List Word)} (h : ∀ r ∈ modes, r.length ≠ 2) :
    (∀ r ∈ emptyMain capabilities executionModel modes, PassesGate opts r) ↔
      ∀ c ∈ capabilities, Permitted opts c := by
  have hmodes : ∀ r ∈ modes, PassesGate opts r := fun r hr htwo => absurd htwo (h r hr)
  simp only [emptyMain, List.forall_mem_append, List.forall_mem_map]
  constructor
  · intro hpass c hc
    exact declares_cons_cons.1 (hpass.1.1.1 c hc rfl) (by decide)
  · intro hperm
    refine ⟨⟨⟨fun c hc _ => declares_cons_cons.2 fun _ => hperm c hc, ?_⟩, hmodes⟩, ?_⟩ <;>
      simp [PassesGate, opcode, opCapability]

def hullModules : Modules := ⟨some hullControl, none, some hullVertex, none, some hullEvaluation⟩

def hullCall : EntryCall :=
  .tessPipeline (some hullVertex) (some hullControl) (some hullEvaluation)

theorem hullVertex_accepted :
    validateSpirvCapabilities (some hullVertex) noCapabilities = .ok () := by
  refine (validate_assemble_eq_ok_iff (isRecord_emptyMain (by simp))).2 ?_
  exact (passesGate_emptyMain_iff (by simp)).2 (by simp [Permitted, gatedCapabilities])

theorem hullControl_accepted :
    validateSpirvCapabilities (some hullControl) noCapabilities = .ok () := by
  refine (validate_assemble_eq_ok_iff (isRecord_emptyMain ?_)).2 ?_
  · simp [Records.IsRecord, wordCount]
  · exact (passesGate_emptyMain_iff (by simp)).2 (by simp [Permitted, gatedCapabilities])

theorem hullEvaluation_refused :
    validateSpirvCapabilities (some hullEvaluation) noCapabilities ≠ .ok () := by
  intro h
  have hpass := (validate_assemble_eq_ok_iff (isRecord_emptyMain
    (by simp [Records.IsRecord, wordCount]))).1 h
  have hperm := (passesGate_emptyMain_iff (by simp)).1 hpass 39 (by simp)
  exact absurd (hperm _ List.mem_cons_self rfl) (by decide)

theorem reachesLink_hull : ReachesLink willingMesa hullModules hullOptions true where
  given := rfl
  checked := by
    have hvertex : (validate hullOptions (some hullVertex)).result = .ok () :=
      hullVertex_accepted
    have hcontrol : (validate hullOptions (some hullControl)).result = .ok () :=
      hullControl_accepted
    simp only [preflight, stageChecks, optionChecks, result_bind_eq_ok, result_onlyIf_eq_ok,
      result_refuse_eq_ok]
    exact ⟨(), ⟨(), rfl, (), fun _ => hcontrol, (), rfl, (), rfl, (), rfl, (), rfl, (), rfl,
      (), fun _ => hvertex, rfl⟩, (), ⟨(), rfl, (), rfl, (), rfl, (), rfl, rfl⟩, rfl⟩
  compiled := rfl
  previous := rfl
  linked := .inl rfl

/-- The hull entry lowers an evaluation module that the gate would refuse. -/
theorem hullCall_not_gated :
    validateSpirvCapabilities (some hullEvaluation) hullOptions.capabilities ≠ .ok () ∧
      ¬ Gated (hullCall.run willingMesa (some hullOptions) true).trace := by
  refine ⟨hullEvaluation_refused, fun hgated => ?_⟩
  rw [gated_iff_meets, hullCall, EntryCall.meets_run_tessPipeline_iff] at hgated
  have hpatch : badPatchSize hullOptions = false := by decide
  refine hgated ⟨hullVertex, hullControl, hullEvaluation, hullOptions, rfl, rfl,
    ⟨rfl, rfl, hpatch⟩, reachesLink_hull, fun heq => ?_, fun heq => ?_⟩
  · have hrefused := hullEvaluation_refused
    rw [heq] at hrefused
    exact hrefused hullControl_accepted
  · have hrefused := hullEvaluation_refused
    rw [heq] at hrefused
    exact hrefused hullVertex_accepted

end Psbc.Compile
