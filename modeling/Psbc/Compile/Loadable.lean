import Psbc.Compile.Output

/-!
# Which tessellation programs look loadable

A tessellation half is a diagnostic until it is linked with its partner, and
`PSBC_UNRESOLVED_TESS_PIPELINE` says so. The bit is decided by the metadata branches, which
see the stage, the NGG flag and whether there is a previous module; the link and the patch
size are checked by two of the entry points. `EntryCall.linkedIfLoadable_iff` has the calls
of the other entry points that get past both.
-/

namespace Psbc.Compile

open Spirv Bytes Traced

/-- The compiled half has its partner: a control half its vertex and its evaluation module,
an evaluation half its control module. -/
def EntryCall.LinkedWithPartner (opts : CompileOptions) (call : EntryCall) : Prop :=
  let r := call.modules.request opts.toPsbcCompileOptions
  (opts.stage = .tessCtrl → r.pairedHull = true ∧ r.nextLink = true) ∧
    (opts.stage = .tessEval → r.pairedDomain = true)

/-- A tessellation half without the unresolved bit is linked, and its patch size is known. -/
def LinkedIfLoadable (opts : CompileOptions) (call : EntryCall) (out : PsbcShaderOutput) : Prop :=
  opts.stage = .tessCtrl ∨ opts.stage = .tessEval →
    out.metadata.unresolvedFields.tessPipeline = false →
    call.LinkedWithPartner opts ∧ 1 ≤ opts.patchControlPoints ∧ opts.patchControlPoints ≤ 32

/-- The calls whose result looks loadable and is not: an NGG evaluation half on its own, and
through the entries of the geometry pair a control half, which has no evaluation module
there, or an evaluation half whose patch size nobody checks. -/
def EntryCall.SlipsThrough (opts : CompileOptions) : EntryCall → Prop
  | .shader _ | .nir _ => opts.stage = .tessEval ∧ opts.ngg = true
  | .geometryPipeline v _ => slips v.isSome
  | .nirGeometryPipeline v _ => slips v.isSome
  | _ => False
where
  slips (paired : Bool) : Prop :=
    if paired then
      opts.stage = .tessCtrl ∨
        opts.stage = .tessEval ∧ badPatchSize opts.toPsbcCompileOptions = true
    else opts.stage = .tessEval ∧ opts.ngg = true

/-- What the entry point itself has checked when the call succeeds. -/
def EntryCall.EntryChecks (opts : CompileOptions) : EntryCall → Prop
  | .tessPipeline v _ e => (v.isSome = true ∧ e.isSome = true) ∧ opts.stage = .tessCtrl ∧
      badPatchSize opts.toPsbcCompileOptions = false
  | .domainPipeline c _ => c.isSome = true ∧ opts.stage = .tessEval ∧
      badPatchSize opts.toPsbcCompileOptions = false
  | .tessGeometryPipeline _ _ _ => opts.stage = .geometry
  | _ => True

section

variable {a : Answers} {m : Modules} {opts : CompileOptions} {before out : PsbcShaderOutput}

/-- A call that succeeds has passed the checks of its entry point and was filled in by the
implementation. -/
theorem EntryCall.entered_of_outcome {call : EntryCall}
    (h : call.outcome a (some opts) (some before) = ⟨.ok (), some out⟩) :
    (call.enter (gate opts.toPsbcCompileOptions) opts.toPsbcCompileOptions true : Run).result =
        .ok () ∧
      finishCompile a opts (call.modules.request opts.toPsbcCompileOptions) = .ok out := by
  rw [outcome] at h
  dsimp only [Option.isSome_some] at h
  cases hentered : (call.enter (gate opts.toPsbcCompileOptions) opts.toPsbcCompileOptions true :
      Run).result with
  | error e =>
    rw [hentered] at h
    cases h
  | ok _ =>
    rw [hentered] at h
    refine ⟨rfl, ?_⟩
    have hok : (psbcCompileImplOut a call.modules opts (call.received (some before))).result =
        .ok () := by
      by_contra hne
      unfold released at h
      grind
    obtain ⟨filled, hfinish, hfilled⟩ := psbcCompileImplOut_ok hok
    simp only [hfilled, released] at h
    split at h
    · cases h
    · rw [hfinish, Option.some.inj (Outcome.mk.inj h).2]

theorem EntryCall.outcome_eq_ok {call : EntryCall}
    (h : call.outcome a (some opts) (some before) = ⟨.ok (), some out⟩) :
    finishCompile a opts (call.modules.request opts.toPsbcCompileOptions) = .ok out ∧
      call.EntryChecks opts := by
  obtain ⟨hentered, hfinish⟩ := entered_of_outcome h
  refine ⟨hfinish, ?_⟩
  cases call with
  | shader spirv => trivial
  | nir shader => trivial
  | geometryPipeline vertex geometry => trivial
  | nirGeometryPipeline vertex geometry => trivial
  | tessPipeline vertex tessCtrl tessEval =>
    simp only [enter, result_bind_eq_ok, result_refuse_eq_ok] at hentered
    obtain ⟨_, hnull, _, hstage, hpatch⟩ := hentered
    refine ⟨?_, by simp_all, hpatch⟩
    cases vertex <;> cases tessEval <;> simp_all
  | domainPipeline tessCtrl tessEval =>
    simp only [enter, result_bind_eq_ok, result_refuse_eq_ok] at hentered
    obtain ⟨_, hnull, _, hstage, hpatch⟩ := hentered
    refine ⟨?_, by simp_all, hpatch⟩
    cases tessCtrl <;> simp_all
  | tessGeometryPipeline control evaluation geometry =>
    simp only [enter, result_bind_eq_ok, result_refuse_eq_ok] at hentered
    obtain ⟨_, _, _, hstage, _⟩ := hentered
    exact (by simp_all : opts.stage = .geometry)

theorem badPatchSize_eq_false_iff (o : PsbcCompileOptions) :
    badPatchSize o = false ↔ 1 ≤ o.patchControlPoints ∧ o.patchControlPoints ≤ 32 := by
  simp only [badPatchSize, Bool.or_eq_false_iff, beq_eq_false_iff_ne, decide_eq_false_iff_not]
  omega

/-- A control half: it looks loadable as soon as there is a previous module. -/
theorem linkedIfLoadable_tessCtrl_iff {call : EntryCall} (hstage : opts.stage = .tessCtrl)
    (hmetadata : out.metadata =
      fillShaderMetadata a opts (call.modules.request opts.toPsbcCompileOptions)) :
    LinkedIfLoadable opts call out ↔
      ((call.modules.request opts.toPsbcCompileOptions).pairedPrevious = true →
        call.modules.nextLinkSpirv.isSome = true ∧
          badPatchSize opts.toPsbcCompileOptions = false) := by
  have hmesa : (call.modules.request opts.toPsbcCompileOptions).mesaStage = .tessCtrl := by
    rw [Modules.request, hstage]
    rfl
  have hhull : (call.modules.request opts.toPsbcCompileOptions).pairedHull =
      (call.modules.request opts.toPsbcCompileOptions).pairedPrevious := by
    simp [Request.pairedHull, hmesa]
  have hlink : (call.modules.request opts.toPsbcCompileOptions).nextLink =
      call.modules.nextLinkSpirv.isSome := rfl
  simp only [LinkedIfLoadable, EntryCall.LinkedWithPartner, hmetadata,
    tessPipeline_of_tessCtrl hmesa, hhull, hlink, hstage, badPatchSize_eq_false_iff]
  cases (call.modules.request opts.toPsbcCompileOptions).pairedPrevious <;> simp

/-- An evaluation half: it looks loadable with a previous module, and as an NGG program. -/
theorem linkedIfLoadable_tessEval_iff {call : EntryCall} (hstage : opts.stage = .tessEval)
    (hmetadata : out.metadata =
      fillShaderMetadata a opts (call.modules.request opts.toPsbcCompileOptions)) :
    LinkedIfLoadable opts call out ↔
      if (call.modules.request opts.toPsbcCompileOptions).pairedPrevious = true then
        badPatchSize opts.toPsbcCompileOptions = false
      else opts.ngg = false := by
  have hmesa : (call.modules.request opts.toPsbcCompileOptions).mesaStage = .tessEval := by
    rw [Modules.request, hstage]
    rfl
  have hdomain : (call.modules.request opts.toPsbcCompileOptions).pairedDomain =
      (call.modules.request opts.toPsbcCompileOptions).pairedPrevious := by
    simp [Request.pairedDomain, hmesa]
  have hngg : (call.modules.request opts.toPsbcCompileOptions).ngg = opts.ngg := rfl
  simp only [LinkedIfLoadable, EntryCall.LinkedWithPartner, hmetadata,
    tessPipeline_of_tessEval hmesa, hdomain, hngg, hstage, badPatchSize_eq_false_iff]
  cases (call.modules.request opts.toPsbcCompileOptions).pairedPrevious <;> simp

/-- **A tessellation result that looks loadable is linked, except for the calls that slip
through.** -/
theorem EntryCall.linkedIfLoadable_iff (a : Answers) (opts : CompileOptions)
    (before out : PsbcShaderOutput) (call : EntryCall)
    (h : call.outcome a (some opts) (some before) = ⟨.ok (), some out⟩) :
    LinkedIfLoadable opts call out ↔ ¬ call.SlipsThrough opts := by
  obtain ⟨hfinish, hchecks⟩ := EntryCall.outcome_eq_ok h
  have hmetadata := finishCompile_metadata hfinish
  by_cases hctrl : opts.stage = .tessCtrl
  · rw [linkedIfLoadable_tessCtrl_iff hctrl hmetadata]
    cases call <;> simp_all [Modules.request, modules, SlipsThrough, SlipsThrough.slips,
      EntryChecks]
  · by_cases heval : opts.stage = .tessEval
    · rw [linkedIfLoadable_tessEval_iff heval hmetadata]
      cases call <;> simp_all [Modules.request, modules, SlipsThrough, SlipsThrough.slips,
        EntryChecks]
    · have hslips : ¬ call.SlipsThrough opts := by
        cases call <;> simp_all [SlipsThrough, SlipsThrough.slips]
      exact iff_of_true (fun hstage => absurd hstage (by simp [hctrl, heval])) hslips

end

/-! ## An NGG evaluation half on its own -/

def aloneEvaluation : List Byte := assemble 5 (emptyMain [3] 2 [[0x00030010, 1, 22]])

/-- A PS5 evaluation compile without a patch size. -/
def evaluationOptions (ngg : Bool) : CompileOptions :=
  { unsizedHull with
    stage := .tessEval
    ngg := ngg }

theorem aloneEvaluation_accepted :
    validateSpirvCapabilities (some aloneEvaluation) noCapabilities = .ok () := by
  refine (validate_assemble_eq_ok_iff (isRecord_emptyMain ?_)).2 ?_
  · simp [Records.IsRecord, wordCount]
  · exact (passesGate_emptyMain_iff (by simp)).2 (by simp [Permitted, gatedCapabilities])

def aloneModules : Modules := ⟨some aloneEvaluation, none, none, none, none⟩

theorem aloneEvaluation_preflight (ngg : Bool) :
    (preflight aloneModules (evaluationOptions ngg).toPsbcCompileOptions).result = .ok () := by
  have hcapabilities : (evaluationOptions ngg).capabilities = noCapabilities := rfl
  have hvalid : (validate (evaluationOptions ngg).toPsbcCompileOptions
      (some aloneEvaluation)).result = .ok () := by
    rw [validate, result_event, hcapabilities]
    exact aloneEvaluation_accepted
  simp only [preflight, stageChecks, optionChecks, result_bind_eq_ok, result_onlyIf_eq_ok,
    result_refuse_eq_ok]
  have hprevious : aloneModules.previousSpirv.isSome = true → (validate
      (evaluationOptions ngg).toPsbcCompileOptions aloneModules.previousSpirv).result = .ok () :=
    fun h => by cases h
  cases ngg <;>
    exact ⟨(), ⟨(), rfl, (), fun _ => hvalid, (), rfl, (), rfl, (), rfl, (), rfl, (), rfl,
      (), hprevious, rfl⟩, (), ⟨(), rfl, (), rfl, (), rfl, (), rfl, rfl⟩, rfl⟩

theorem aloneEvaluation_compiles (ngg : Bool) :
    ∃ out, (EntryCall.shader (some aloneEvaluation)).outcome willingAnswers
      (some (evaluationOptions ngg)) (some .zero) = ⟨.ok (), some out⟩ := by
  have hresult : (psbcCompileImplOut willingAnswers aloneModules (evaluationOptions ngg)
      (some .zero)).result = .ok () := by
    rw [psbcCompileImplOut_result]
    simp only [psbcCompileImpl, lowerModules, result_bind_eq_ok, result_onlyIf_eq_ok,
      result_refuse_eq_ok]
    refine ⟨(), rfl, (), aloneEvaluation_preflight ngg, (), ⟨(), rfl, (), fun h => ?_,
      (), fun h => ?_, fun h => ?_⟩, rfl⟩
    · cases h
    · cases h
    · cases h
  obtain ⟨out, -, hout⟩ := psbcCompileImplOut_ok hresult
  refine ⟨out, ?_⟩
  change (EntryCall.shader (some aloneEvaluation)).released (psbcCompileImplOut willingAnswers
    aloneModules (evaluationOptions ngg) (some .zero)) = _
  rw [hout]
  rfl

/-- The NGG evaluation half compiles on its own, and its metadata does not say that the
pipeline is missing. -/
theorem aloneEvaluation_looks_loadable :
    ∃ out, (EntryCall.shader (some aloneEvaluation)).outcome willingAnswers
        (some (evaluationOptions true)) (some .zero) = ⟨.ok (), some out⟩ ∧
      ¬ LinkedIfLoadable (evaluationOptions true) (.shader (some aloneEvaluation)) out := by
  obtain ⟨out, hout⟩ := aloneEvaluation_compiles true
  refine ⟨out, hout, fun hlinked => ?_⟩
  have hmetadata := finishCompile_metadata (EntryCall.outcome_eq_ok hout).1
  rw [linkedIfLoadable_tessEval_iff rfl hmetadata] at hlinked
  exact absurd hlinked (by decide)

/-- Without NGG the same half keeps the bit. -/
theorem linkedIfLoadable_aloneEvaluation :
    ∃ out, (EntryCall.shader (some aloneEvaluation)).outcome willingAnswers
        (some (evaluationOptions false)) (some .zero) = ⟨.ok (), some out⟩ ∧
      (LinkedIfLoadable (evaluationOptions false) (.shader (some aloneEvaluation)) out ↔
        ¬ (EntryCall.shader (some aloneEvaluation)).SlipsThrough (evaluationOptions false)) := by
  obtain ⟨out, hout⟩ := aloneEvaluation_compiles false
  exact ⟨out, hout, EntryCall.linkedIfLoadable_iff willingAnswers (evaluationOptions false) .zero
    out (.shader (some aloneEvaluation)) hout⟩

end Psbc.Compile
