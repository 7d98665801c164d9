import Psbc.Compile.Finish
import Psbc.Compile.Gated

/-!
# What a call leaves in its output

The entry points of `Psbc.Compile.Impl` with the contents of `*out`: the implementation clears
the output behind its first check and fills it at the end, and an entry point may return before
it gets there. `EntryCall.outcome_result` says that the two views of a call have one result.

The header promises a zero output with every error. `EntryCall.errorsZero_iff` has the
calls that keep it: those that reach a `memset`, and those whose output was zero before.
-/

namespace Psbc.Compile

open Spirv Bytes Traced

/-- The result of a call and its output afterwards; `none` is the null pointer. -/
structure Outcome where
  result : Except PsbcError Unit
  out : Option PsbcShaderOutput

section Entries

variable (a : Answers)

/-- What a TES-fed geometry program must carry. -/
def PsbcShaderMetadata.tessGeometry (metadata : PsbcShaderMetadata) : Bool :=
  metadata.mergedGeometry && metadata.mergedEsSourceStage == .tessEval &&
    metadata.ps5RingTableValid

/-- Mesa's part of a compile, with the ending that `finishCompile` gives it. -/
def Answers.mesa (m : Modules) (opts : CompileOptions) : Mesa where
  lowers := a.lowers
  finish := (finishCompile a opts (m.request opts.toPsbcCompileOptions)).map fun _ => ()
  tessGeometryMetadata :=
    (fillShaderMetadata a opts (m.request opts.toPsbcCompileOptions)).tessGeometry

/-- `psbc_compile_impl` behind its first check, on a cleared output. -/
def compileCleared (m : Modules) (opts : CompileOptions) : Outcome :=
  let checked : Run := do
    preflight m opts.toPsbcCompileOptions
    lowerModules (a.mesa m opts) m opts.toPsbcCompileOptions
  match checked.result with
  | .error e => ⟨.error e, some .zero⟩
  | .ok () =>
    match finishCompile a opts (m.request opts.toPsbcCompileOptions) with
    | .error e => ⟨.error e, some .zero⟩
    | .ok filled => ⟨.ok (), some filled⟩

def psbcCompileImplOut (m : Modules) (opts : CompileOptions) (out : Option PsbcShaderOutput) :
    Outcome :=
  if m.missing out.isSome then ⟨.error .internalError, out⟩ else compileCleared a m opts

def EntryCall.received (call : EntryCall) (out : Option PsbcShaderOutput) :
    Option PsbcShaderOutput :=
  if call.isTessGeometry then out.map fun _ => .zero else out

/-- What the entry point does with the outcome of the implementation. -/
def EntryCall.released (call : EntryCall) : Outcome → Outcome
  | ⟨.ok (), some filled⟩ =>
    -- `psbc_free_output` clears what the compile has filled in
    if call.isTessGeometry && !filled.metadata.tessGeometry then
      ⟨.error .internalError, some .zero⟩
    else ⟨.ok (), some filled⟩
  | outcome => outcome

def EntryCall.outcome (opts : Option CompileOptions) (out : Option PsbcShaderOutput)
    (call : EntryCall) : Outcome :=
  match opts with
  | none => ⟨.error call.nullError, call.received out⟩
  | some o =>
    let entered : Run := call.enter (gate o.toPsbcCompileOptions) o.toPsbcCompileOptions out.isSome
    match entered.result with
    | .error e => ⟨.error e, call.received out⟩
    | .ok () => call.released (psbcCompileImplOut a call.modules o (call.received out))

end Entries

/-! ## One call, two views -/

section Views

variable {a : Answers} {m : Modules} {opts : CompileOptions} {out : Option PsbcShaderOutput}

theorem compileCleared_result :
    (compileCleared a m opts).result =
      ((do
        preflight m opts.toPsbcCompileOptions
        lowerModules (a.mesa m opts) m opts.toPsbcCompileOptions
        ⟨[], (a.mesa m opts).finish⟩ : Run)).result := by
  have hfinish : (a.mesa m opts).finish =
      (finishCompile a opts (m.request opts.toPsbcCompileOptions)).map fun _ => () := rfl
  unfold compileCleared
  simp only [result_bind, hfinish]
  cases (preflight m opts.toPsbcCompileOptions).result with
  | error e => rfl
  | ok _ =>
    cases (lowerModules (a.mesa m opts) m opts.toPsbcCompileOptions).result with
    | error e => rfl
    | ok _ => cases finishCompile a opts (m.request opts.toPsbcCompileOptions) <;> rfl

theorem psbcCompileImplOut_result :
    (psbcCompileImplOut a m opts out).result =
      (psbcCompileImpl (a.mesa m opts) m opts.toPsbcCompileOptions out.isSome).result := by
  rw [psbcCompileImpl, result_refuse_bind, ← compileCleared_result, psbcCompileImplOut]
  split <;> rfl

theorem psbcCompileImplOut_ok (h : (psbcCompileImplOut a m opts out).result = .ok ()) :
    ∃ filled, finishCompile a opts (m.request opts.toPsbcCompileOptions) = .ok filled ∧
      psbcCompileImplOut a m opts out = ⟨.ok (), some filled⟩ := by
  unfold psbcCompileImplOut compileCleared at h ⊢
  grind

theorem EntryCall.isSome_received (call : EntryCall) : (call.received out).isSome = out.isSome := by
  unfold received
  split
  · exact Option.isSome_map
  · rfl

theorem EntryCall.released_result (a : Answers) (opts : CompileOptions)
    (out : Option PsbcShaderOutput) (call : EntryCall) :
    (call.released (psbcCompileImplOut a call.modules opts out)).result =
      ((psbcCompileImpl (a.mesa call.modules opts) call.modules opts.toPsbcCompileOptions
          out.isSome).result.bind fun _ =>
        if call.isTessGeometry && !(a.mesa call.modules opts).tessGeometryMetadata then
          .error .internalError else .ok ()) := by
  rw [← psbcCompileImplOut_result]
  cases hresult : (psbcCompileImplOut a call.modules opts out).result with
  | error e =>
    unfold released
    split
    next heq => rw [heq] at hresult; cases hresult
    next => exact hresult
  | ok _ =>
    obtain ⟨filled, hfinish, heq⟩ := psbcCompileImplOut_ok hresult
    rw [heq, released, finishCompile_metadata hfinish]
    exact apply_ite Outcome.result _ _ _

/-- **The two views of a call have one result.** -/
theorem EntryCall.outcome_result (call : EntryCall) :
    (call.outcome a (some opts) out).result =
      (call.run (a.mesa call.modules opts) (some opts.toPsbcCompileOptions) out.isSome).result := by
  have hreleased := call.released_result a opts (call.received out)
  rw [isSome_received] at hreleased
  rw [run, result_bind, ← result_enter_gate, outcome]
  cases (call.enter (gate opts.toPsbcCompileOptions) opts.toPsbcCompileOptions out.isSome :
      Run).result with
  | error e => rfl
  | ok _ =>
    dsimp only [Except.bind]
    rw [hreleased, result_bind]
    rfl

end Views

/-! ## Errors and the output -/

def Outcome.ErrorsZero (o : Outcome) : Prop := o.result ≠ .ok () → o.out = some .zero

/-- The call gets past the checks in front of its first `memset`. -/
def EntryCall.Clears (opts : Option CompileOptions) : EntryCall → Prop
  | .shader s => opts.isSome ∧ s.isSome
  | .nir n => opts.isSome ∧ n.isSome
  | .geometryPipeline _ g => opts.isSome ∧ g.isSome
  | .nirGeometryPipeline _ g => opts.isSome ∧ g.isSome
  | .tessPipeline v c e => ∃ o, opts = some o ∧ (v.isSome ∧ c.isSome ∧ e.isSome) ∧
      o.stage = .tessCtrl ∧ o.target = .ps5 ∧ badPatchSize o.toPsbcCompileOptions = false
  | .domainPipeline c e => ∃ o, opts = some o ∧ (c.isSome ∧ e.isSome) ∧
      o.stage = .tessEval ∧ o.target = .ps5 ∧ badPatchSize o.toPsbcCompileOptions = false
  | .tessGeometryPipeline _ _ _ => True

section Zero

variable {a : Answers} {m : Modules} {opts : Option CompileOptions} {before : PsbcShaderOutput}

theorem errorsZero_error_iff {e : PsbcError} :
    Outcome.ErrorsZero ⟨.error e, some before⟩ ↔ before = .zero := by
  simp [Outcome.ErrorsZero]

/-- Behind the `memset` every exit with an error leaves the output as it is. -/
theorem errorsZero_compileCleared (o : CompileOptions) : (compileCleared a m o).ErrorsZero := by
  intro h
  unfold compileCleared at h ⊢
  grind

theorem errorsZero_psbcCompileImplOut_iff {o : CompileOptions} :
    (psbcCompileImplOut a m o (some before)).ErrorsZero ↔
      before = .zero ∨ m.missing true = false := by
  rw [psbcCompileImplOut, Option.isSome_some]
  cases m.missing true with
  | true => simp [errorsZero_error_iff]
  | false => exact iff_of_true (errorsZero_compileCleared o) (.inr rfl)

/-- The entry point that clears the output first. -/
theorem EntryCall.errorsZero_of_isTessGeometry {call : EntryCall}
    (h : call.isTessGeometry = true) : (call.outcome a opts (some before)).ErrorsZero := by
  have hreceived : call.received (some before) = some .zero := if_pos h
  cases opts with
  | none => exact fun _ => hreceived
  | some o =>
    have himpl : (psbcCompileImplOut a call.modules o (some .zero)).ErrorsZero :=
      errorsZero_psbcCompileImplOut_iff.2 (.inl rfl)
    intro hne
    unfold Outcome.ErrorsZero at himpl
    unfold outcome released at hne ⊢
    rw [hreceived] at hne ⊢
    grind

/-- The others hand the output on as they got it. -/
theorem EntryCall.errorsZero_outcome_iff {call : EntryCall} (h : call.isTessGeometry = false) :
    (call.outcome a opts (some before)).ErrorsZero ↔ before = .zero ∨ ∃ o, opts = some o ∧
      (call.enter (gate o.toPsbcCompileOptions) o.toPsbcCompileOptions true : Run).result = .ok () ∧
      call.modules.missing true = false := by
  have hreceived : call.received (some before) = some before :=
    if_neg (by rw [h]; decide)
  have hreleased : ∀ outcome, call.released outcome = outcome := by
    intro outcome
    unfold released
    split
    · rw [h, Bool.false_and, if_neg (by decide)]
    · rfl
  cases opts with
  | none => simp [outcome, hreceived, errorsZero_error_iff]
  | some o =>
    rw [outcome, hreceived]
    dsimp only [Option.isSome_some]
    cases hentered : (call.enter (gate o.toPsbcCompileOptions) o.toPsbcCompileOptions true :
        Run).result with
    | error e => simp [errorsZero_error_iff, hentered]
    | ok _ =>
      rw [hreleased, errorsZero_psbcCompileImplOut_iff]
      simp [hentered]

/-- **Which calls leave a zero output with every error**: those that reach a `memset`, and
those whose output was zero before. -/
theorem EntryCall.errorsZero_iff (a : Answers) (opts : Option CompileOptions)
    (before : PsbcShaderOutput) (call : EntryCall) :
    (call.outcome a opts (some before)).ErrorsZero ↔ before = .zero ∨ call.Clears opts := by
  cases call with
  | tessGeometryPipeline control evaluation geometry =>
    exact iff_of_true (errorsZero_of_isTessGeometry rfl) (.inr trivial)
  | shader spirv =>
    rw [errorsZero_outcome_iff rfl]
    cases opts <;> cases spirv <;> simp [enter, modules, Modules.missing, Clears]
  | nir shader =>
    rw [errorsZero_outcome_iff rfl]
    cases opts <;> cases shader <;> simp [enter, modules, Modules.missing, Clears]
  | geometryPipeline vertex geometry =>
    rw [errorsZero_outcome_iff rfl]
    cases opts <;> cases geometry <;> simp [enter, modules, Modules.missing, Clears]
  | nirGeometryPipeline vertex geometry =>
    rw [errorsZero_outcome_iff rfl]
    cases opts <;> cases geometry <;> simp [enter, modules, Modules.missing, Clears]
  | tessPipeline vertex tessCtrl tessEval =>
    rw [errorsZero_outcome_iff rfl]
    cases vertex <;> cases tessCtrl <;> cases tessEval <;>
      simp [enter, modules, Modules.missing, Clears, and_assoc]
  | domainPipeline tessCtrl tessEval =>
    rw [errorsZero_outcome_iff rfl]
    cases tessCtrl <;> cases tessEval <;>
      simp [enter, modules, Modules.missing, Clears, and_assoc]

/-! ### A hull pair without a patch size -/

/-- Every callee succeeds; the program is one `s_endpgm`. -/
def willingAnswers : Answers where
  lowers _ _ _ _ := true
  splitPs5MixedInputs := true
  buildInputSemantics := true
  primIdInput := false
  nirToAsm := some [0xbf810000]
  buildshaderbinary code := .ok ⟨code.flatMap fun w => leBytes 4 w.toNat, 4 * code.length⟩
  machineCodeFits := true
  fillOutputSemantics := true
  ps5RingTableUsed := true
  otherMetadata _ := 0

def unsizedHull : CompileOptions :=
  { hullOptions with
    patchControlPoints := 0
    rasterizationSamples := 1
    primitiveType := 0
    vertexAttributes := ⟨0, fun _ => ⟨0, 0, .none, 0, 0, 0, 0⟩⟩ }

/-- An output that still has the size of an earlier program. -/
def staleOutput : PsbcShaderOutput := { PsbcShaderOutput.zero with size := 64 }

/-- The hull entry refuses the call and leaves the earlier size in the output. -/
theorem hullCall_leaves_stale_output :
    (hullCall.outcome willingAnswers (some unsizedHull) (some staleOutput)).result =
        .error .unsupportedStage ∧
      ¬ (hullCall.outcome willingAnswers (some unsizedHull) (some staleOutput)).ErrorsZero := by
  have houtcome : hullCall.outcome willingAnswers (some unsizedHull) (some staleOutput) =
      ⟨.error .unsupportedStage, some staleOutput⟩ := rfl
  rw [houtcome, errorsZero_error_iff]
  refine ⟨rfl, fun h => ?_⟩
  have hsize : (64 : Nat) = 0 := congrArg PsbcShaderOutput.size h
  omega

end Zero

end Psbc.Compile
