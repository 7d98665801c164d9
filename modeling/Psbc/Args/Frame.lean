import Psbc.Args.Blocks

/-!
# The frame of a declaration

The calls of a compile are a lead, the window, and a tail: the lead declares the ring
offsets and, for a merged stage, starts the dwords again and declares the system
registers; the window declares user data only; the tail declares system registers only.
`exists_frame` says so for every compile, with one lemma for each case of the source's
switch. Nothing after this module looks at the switch again.
-/

namespace Psbc.Args

open Placement

namespace Ps5Compile

variable (c : Ps5Compile)

/-- The budget the second pass declares with. -/
def userSgprs : UserSgprInfo :=
  allocateUserSgprs c.info c.request.mesaStage
    (run (declareShaderArgs ps5Key c.gfx c.info none c.request.mesaStage c.previousStage)
      .init).numUserSgprs

def calls : List ArgCall :=
  declareShaderArgs ps5Key c.gfx c.info (some c.userSgprs) c.request.mesaStage c.previousStage

theorem args_eq : c.args = run c.calls .init := rfl

/-! ## The parts of the declaration -/

/-- The stages whose dwords start again behind the ring offsets. -/
def restarts : Bool :=
  c.request.ngg || c.request.mesaStage == .tessCtrl || c.request.mesaStage == .tessEval ||
    c.request.mesaStage == .geometry

def systemLead : List ArgCall :=
  if c.request.ngg || c.request.mesaStage == .geometry then geometrySystemSgprs c.info
  else if c.request.mesaStage == .tessCtrl then hullSystemSgprs else []

def lead : List ArgCall :=
  [.addUdArg 2 .ringOffsets Ud.scratchRingOffsets] ++
  (if c.request.mesaStage == .task
    then [.addUdArg 2 .taskRingOffsets Ud.csTaskRingOffsets] else []) ++
  (if c.restarts then [.resetUserSgprs] else []) ++ c.systemLead

def declaresVertex : Bool :=
  c.request.mesaStage == .vertex || c.request.mesaStage == .tessCtrl ||
    (c.request.mesaStage == .geometry && !c.request.pairedTessGeometry)

def vertexBlock : List ArgCall :=
  if c.info.mergedShaderCompiledSeparately then unmergedVsSgprs
  else if c.declaresVertex then declareVsSpecificInputSgprs c.info else []

/-- What the proofs use of the arguments behind the shared ones. -/
structure IsRest (rest : List ArgCall) : Prop where
  inGroup : ∀ y ∈ rest, y.InGroup .stage ∨
    (publishesVertex c = false ∧ y = .addUdArg 1 .drawId Ud.csTaskDrawId)
  viewIndex : c.request.mesaStage = .vertex ∨ c.request.mesaStage = .fragment →
    SettledIn rest viewIndexCall
  nggLdsLayout : c.request.ngg = true →
    ∃ d, At ArgCall.size (fun y => y.loc = nggLdsLayoutCall.loc)
      (fun y => y.arg = nggLdsLayoutCall.arg) rest nggLdsLayoutCall d

theorem isRest_graphics (view tcs vrs nggState : Bool) :
    c.IsRest (graphicsRest c.info view tcs vrs c.request.ngg nggState) where
  inGroup y hy := .inl (graphicsRest_inGroup _ _ _ _ _ _ y hy)
  viewIndex _ := settledIn_viewIndex _ _ _ _ _ _
  nggLdsLayout hngg := by
    rw [hngg]
    exact at_nggLdsLayout ..

def window (rest : List ArgCall) : List ArgCall :=
  c.vertexBlock ++ (ringTableBlock c.info ++ (declareDescriptorSgprs c.info c.userSgprs ++
    (streamoutBlock c.info ++ rest)))

/-- The end of the window and the tail of a declaration. -/
structure Frame (rest tail : List ArgCall) : Prop where
  calls_eq : c.calls = c.lead ++ c.window rest ++ tail
  isRest : c.IsRest rest
  tail_system : ∀ y ∈ tail, y.IsSystem

/-! ## Every compile has a frame -/

theorem ngg_cases (h : c.request.ngg = true) :
    c.request.mesaStage = .vertex ∨ c.request.mesaStage = .tessEval ∨
      (c.request.mesaStage = .geometry ∧ c.request.pairedPrevious = true) := by
  have := c.ngg_accepted
  simp only [Request.nggRefused, Request.pairedGeometry, h] at this
  grind

theorem ngg_eq_false (h : c.request.mesaStage ≠ .vertex ∧ c.request.mesaStage ≠ .tessEval ∧
    c.request.mesaStage ≠ .geometry) : c.request.ngg = false := by
  cases hngg : c.request.ngg with
  | false => rfl
  | true => rcases c.ngg_cases hngg with hs | hs | ⟨hs, -⟩ <;> simp [hs] at h

@[simp]
theorem info_isNgg : c.info.isNgg = c.request.ngg := rfl

@[simp]
theorem info_stage : c.info.stage = c.request.mesaStage := rfl

theorem info_merged :
    c.info.mergedShaderCompiledSeparately = (c.unlinkedConsumer && !c.request.pairedHull) := rfl

/-- The shared arguments as the three blocks of the window. -/
theorem declareGlobalInputSgprs_eq :
    declareGlobalInputSgprs ps5Key c.info (some c.userSgprs) =
      ringTableBlock c.info ++ (declareDescriptorSgprs c.info c.userSgprs ++
        streamoutBlock c.info) :=
  List.append_assoc ..

def fragmentRest : List ArgCall :=
  declareViewIndex (ps5Key.ps5FragmentViewIndex && c.info.usesViewIndex) ++
  (if c.info.psHasEpilog then [.addUdArg 1 .epilogPc Ud.epilogPc] else []) ++
  (if radvPsNeedsStateSgpr c.gfx c.info then [.addUdArg 1 .psState Ud.psState] else [])

def fragmentTail : List ArgCall :=
  [.addArg 1 (some .primMask)] ++
  (if c.info.psPops then [.addArg 1 (some .popsCollisionWaveId)] else []) ++
  (if c.info.psLoadProvokingVtx then [.addArg 1 (some .loadProvokingVtx)] else []) ++
  [.addArg 1 (some .scratchOffset)]

theorem frame_fragment (h : c.request.mesaStage = .fragment) :
    c.Frame c.fragmentRest c.fragmentTail := by
  have hngg := c.ngg_eq_false (by simp [h])
  have hmerged : c.info.mergedShaderCompiledSeparately = false := by
    simp [info_merged, unlinkedConsumer, h]
  refine ⟨?_, ⟨fun y hy => .inl ?_, fun _ => ?_, ?_⟩, ?_⟩
  · simp [calls, declareShaderArgs, declaredStages, previousStage, lead, restarts, systemLead,
      window, vertexBlock, declaresVertex, declareFragmentArgs, declareGlobalInputSgprs_eq,
      fragmentRest, fragmentTail, h, hngg, hmerged]
  · simp only [fragmentRest, List.mem_append] at hy
    rcases hy with (hy | hy) | hy
    · exact forall_mem_ite ⟨rfl, by decide⟩ y hy
    · exact forall_mem_ite ⟨rfl, by decide⟩ y hy
    · exact forall_mem_ite ⟨rfl, by decide⟩ y hy
  · exact ((settled_ite _).append_right (forall_mem_ite (by decide))).append_right
      (forall_mem_ite (by decide))
  · simp [hngg]
  · simp [fragmentTail, ArgCall.IsSystem, Arg.group, or_imp, forall_and]

def computeRest : List ArgCall :=
  (if c.info.csUsesGridSize then [.addUdArg 3 .numWorkGroups Ud.csGridSize] else []) ++
  (if c.info.vsNeedsDrawId then [.addUdArg 1 .drawId Ud.csTaskDrawId] else []) ++
  (if c.request.mesaStage == .task
    then [.addUdArg 1 .taskRingEntry Ud.taskRingEntry] else []) ++
  (if c.request.mesaStage == .task && (c.info.hasPrimQuery || c.info.hasXfbQuery ||
      c.info.csHasQuery)
    then [.addUdArg 1 .taskState Ud.taskState] else [])

def computeTail : List ArgCall :=
  (((List.finRange 3).filter c.info.csUsesBlockId).map fun i =>
    .addArg 1 (some (.workgroupIds i))) ++
  (if c.info.csUsesLocalInvocationIdx then [.addArg 1 (some .tgSize)] else []) ++
  [.addArg 1 (some .scratchOffset)]

theorem frame_compute (h : c.request.mesaStage = .compute ∨ c.request.mesaStage = .task) :
    c.Frame c.computeRest c.computeTail := by
  have hngg := c.ngg_eq_false (by rcases h with h | h <;> simp [h])
  have hmerged : c.info.mergedShaderCompiledSeparately = false := by
    rcases h with h | h <;> simp [info_merged, unlinkedConsumer, h]
  have hpublishes : publishesVertex c = false := by
    rcases h with h | h <;> simp [publishesVertex, hasVertexHalf, h]
  refine ⟨?_, ⟨fun y hy => ?_, ?_, ?_⟩, ?_⟩
  · rcases h with h | h <;>
      simp [calls, declareShaderArgs, declaredStages, previousStage, lead, restarts, systemLead,
        window, vertexBlock, declaresVertex, declareComputeArgs, declareGlobalInputSgprs_eq,
        computeRest, computeTail, h, hngg, hmerged,
        show ps5Key.loadGridSizeFromUserSgpr = true from rfl]
  · simp only [computeRest, List.mem_append, List.mem_ite_nil_right, List.mem_singleton] at hy
    rcases hy with ((⟨-, rfl⟩ | ⟨-, rfl⟩) | ⟨-, rfl⟩) | ⟨-, rfl⟩
    · exact .inl ⟨rfl, by decide⟩
    · exact .inr ⟨hpublishes, rfl⟩
    · exact .inl ⟨rfl, by decide⟩
    · exact .inl ⟨rfl, by decide⟩
  · rcases h with h | h <;> simp [h]
  · simp [hngg]
  · simp [computeTail, ArgCall.IsSystem, Arg.group, or_imp, forall_and]

theorem declareStreamoutSgprs_isSystem (info : ShaderInfo) (stage : MesaStage) :
    ∀ y ∈ declareStreamoutSgprs info stage, y.IsSystem := by
  intro y hy
  rcases List.mem_append.mp hy with hy | hy
  · split at hy
    · simp only [List.mem_cons, List.not_mem_nil, or_false] at hy
      rcases hy with rfl | rfl <;> rfl
    · obtain ⟨-, rfl⟩ := by simpa only [List.mem_ite_nil_right, List.mem_singleton] using hy
      trivial
  · obtain ⟨i, -, rfl⟩ := List.mem_map.mp hy
    rfl

/-- The stage in front of the one an NGG compile is declared as. -/
def nggPrevious : MesaStage :=
  (declaredStages c.info c.request.mesaStage c.previousStage).2

/-- Whether the NGG state is declared: for the provoking vertex, a query, or the vertices
of a primitive. -/
def declaresNggState : Bool :=
  ((c.request.mesaStage == .vertex || c.request.mesaStage == .geometry) &&
      c.gfx.dynamicProvokingVtxMode) ||
    (c.info.hasPrimQuery || c.info.hasXfbQuery ||
      (c.request.mesaStage == .geometry && c.info.gsHasPipelineStatQuery) ||
      (c.request.mesaStage == .task && c.info.csHasQuery)) ||
    (c.nggPrevious == .vertex && c.info.vsDynamicNumVertsPerPrim)

def nggRest : List ArgCall :=
  graphicsRest c.info c.info.usesViewIndex
    (c.nggPrevious == .tessEval && radvTesNeedsStateSgpr c.info)
    (c.info.forceVrsPerVertex && c.info.isNgg) c.request.ngg c.declaresNggState

/-- An NGG stage is declared as a geometry stage, with itself as the previous one. -/
theorem frame_ngg (hngg : c.request.ngg = true) : c.Frame c.nggRest [] := by
  have hmerged : c.info.mergedShaderCompiledSeparately = false := by
    rcases c.ngg_cases hngg with h | h | ⟨h, hp⟩ <;>
      simp [info_merged, unlinkedConsumer, Request.pairedGeometry, *]
  refine ⟨?_, c.isRest_graphics .., by simp⟩
  rcases c.ngg_cases hngg with h | h | ⟨h, hp⟩
  · simp [calls, declareShaderArgs, declaredStages, lead, restarts, systemLead, window,
      vertexBlock, declaresVertex, declareGeometryArgs, declareGlobalInputSgprs_eq,
      graphicsRest, nggRest, nggPrevious, declaresNggState, h, hngg, hmerged]
  · simp [calls, declareShaderArgs, declaredStages, lead, restarts, systemLead, window,
      vertexBlock, declaresVertex, declareGeometryArgs, declareGlobalInputSgprs_eq,
      graphicsRest, nggRest, nggPrevious, declaresNggState, h, hngg, hmerged]
  · cases hlink : c.request.nextLink <;>
      simp [calls, declareShaderArgs, declaredStages, previousStage, lead, restarts, systemLead,
        window, vertexBlock, declaresVertex, declareGeometryArgs, declareGlobalInputSgprs_eq,
        graphicsRest, nggRest, nggPrevious, declaresNggState, h, hngg, hmerged,
        Request.pairedTessGeometry, Request.pairedGeometry, hp, hlink]

def vertexTail : List ArgCall :=
  (if c.info.vsAsEs then [.addArg 1 (some .es2gsOffset)]
    else if c.info.vsAsLs then [] else declareStreamoutSgprs c.info .vertex) ++
  [.addArg 1 (some .scratchOffset)]

theorem vertexTail_isSystem : ∀ y ∈ c.vertexTail, y.IsSystem := by
  intro y hy
  rcases List.mem_append.mp hy with hy | hy
  · split at hy
    · obtain rfl := List.mem_singleton.mp hy
      rfl
    · split at hy
      · cases hy
      · exact declareStreamoutSgprs_isSystem _ _ y hy
  · obtain rfl := List.mem_singleton.mp hy
    rfl

theorem frame_vertex (h : c.request.mesaStage = .vertex) (hngg : c.request.ngg = false) :
    c.Frame (graphicsRest c.info c.info.usesViewIndex false c.info.forceVrsPerVertex
      c.request.ngg false) c.vertexTail := by
  have hmerged : c.info.mergedShaderCompiledSeparately = false := by
    simp [info_merged, unlinkedConsumer, h]
  refine ⟨?_, c.isRest_graphics .., c.vertexTail_isSystem⟩
  simp [calls, declareShaderArgs, declaredStages, previousStage, lead, restarts, systemLead,
    window, vertexBlock, declaresVertex, declareVertexArgs, declareGlobalInputSgprs_eq,
    graphicsRest, vertexTail, declareTcsOffchipLayout, h, hngg, hmerged]

def tessEvalTail : List ArgCall :=
  (if c.info.tesAsEs
    then [.addArg 1 (some .tessOffchipOffset), .addArg 1 none, .addArg 1 (some .es2gsOffset)]
    else declareStreamoutSgprs c.info .tessEval ++ [.addArg 1 (some .tessOffchipOffset)]) ++
  [.addArg 1 (some .scratchOffset)]

theorem tessEvalTail_isSystem : ∀ y ∈ c.tessEvalTail, y.IsSystem := by
  intro y hy
  rcases List.mem_append.mp hy with hy | hy
  · split at hy
    · simp only [List.mem_cons, List.not_mem_nil, or_false] at hy
      rcases hy with rfl | rfl | rfl <;> first | rfl | trivial
    · rcases List.mem_append.mp hy with hy | hy
      · exact declareStreamoutSgprs_isSystem _ _ y hy
      · obtain rfl := List.mem_singleton.mp hy
        rfl
  · obtain rfl := List.mem_singleton.mp hy
    rfl

/-- The evaluation stage on its own starts its dwords again without system registers. -/
theorem frame_tessEval (h : c.request.mesaStage = .tessEval) (hngg : c.request.ngg = false) :
    c.Frame (graphicsRest c.info c.info.usesViewIndex (radvTesNeedsStateSgpr c.info) false
      c.request.ngg false) c.tessEvalTail := by
  have hmerged : c.info.mergedShaderCompiledSeparately = false := by
    simp [info_merged, unlinkedConsumer, h]
  refine ⟨?_, c.isRest_graphics .., c.tessEvalTail_isSystem⟩
  simp [calls, declareShaderArgs, declaredStages, previousStage, lead, restarts, systemLead,
    window, vertexBlock, declaresVertex, declareTessEvalArgs, declareGlobalInputSgprs_eq,
    graphicsRest, tessEvalTail, declareForceVrsRates, h, hngg, hmerged]

theorem frame_tessCtrl (h : c.request.mesaStage = .tessCtrl) : ∃ rest tail, c.Frame rest tail := by
  have hngg := c.ngg_eq_false (by simp [h])
  cases hpair : c.request.pairedPrevious with
  | true =>
    have hmerged : c.info.mergedShaderCompiledSeparately = false := by
      simp [info_merged, Request.pairedHull, h, hpair]
    refine ⟨_, [], ?_, c.isRest_graphics c.info.usesViewIndex
      (radvTcsNeedsStateSgpr c.gfx c.info) false false, by simp⟩
    simp [calls, declareShaderArgs, declaredStages, previousStage, lead, restarts, systemLead,
      window, vertexBlock, declaresVertex, declareTessCtrlArgs, declareGlobalInputSgprs_eq,
      graphicsRest, declareForceVrsRates, h, hngg, hmerged]
  | false =>
    have hmerged : c.info.mergedShaderCompiledSeparately = true := by
      simp [info_merged, unlinkedConsumer, Request.pairedHull, h, hpair]
    refine ⟨unmergedTcsSgprs, [], ?_, ⟨?_, by simp [h], by simp [hngg]⟩, by simp⟩
    · simp [calls, declareShaderArgs, declaredStages, previousStage, lead, restarts, systemLead,
        window, vertexBlock, declareTessCtrlArgs, declareGlobalInputSgprs_eq, h, hngg, hmerged]
    · intro y hy
      simp only [unmergedTcsSgprs, List.mem_cons, List.not_mem_nil, or_false] at hy
      rcases hy with rfl | rfl | rfl | rfl <;> exact .inl ⟨rfl, by decide⟩

/-- A geometry stage that is not NGG was given no previous stage. -/
theorem geometry_unpaired (h : c.request.mesaStage = .geometry) (hngg : c.request.ngg = false) :
    c.request.pairedPrevious = false := by
  cases hp : c.request.pairedPrevious with
  | false => rfl
  | true =>
    have hrefused := c.pair_accepted
    simp [Request.pairRefused, Request.pairedGeometry, h, hngg, hp] at hrefused

theorem geometry_merged (h : c.request.mesaStage = .geometry) (hngg : c.request.ngg = false) :
    c.info.mergedShaderCompiledSeparately = true := by
  simp [info_merged, unlinkedConsumer, Request.pairedHull, Request.pairedGeometry, h,
    c.geometry_unpaired h hngg]

theorem frame_geometry (h : c.request.mesaStage = .geometry) (hngg : c.request.ngg = false) :
    c.Frame (unmergedGsSgprs c.info) [] := by
  have hpair := c.geometry_unpaired h hngg
  have hmerged := c.geometry_merged h hngg
  refine ⟨?_, ⟨?_, by simp [h], by simp [hngg]⟩, by simp⟩
  · simp [calls, declareShaderArgs, declaredStages, previousStage, lead, restarts, systemLead,
      window, vertexBlock, declareGeometryArgs, declareGlobalInputSgprs_eq,
      Request.pairedTessGeometry, Request.pairedGeometry, h, hngg, hmerged, hpair]
  · intro y hy
    simp only [unmergedGsSgprs, info_isNgg, hngg, Bool.false_eq_true, if_false, List.append_nil,
      List.cons_append, List.nil_append, List.mem_cons, List.not_mem_nil, or_false] at hy
    rcases hy with rfl | rfl | rfl | rfl | rfl <;> exact .inl ⟨rfl, by decide⟩

theorem exists_frame : ∃ rest tail, c.Frame rest tail := by
  cases hngg : c.request.ngg with
  | true => exact ⟨_, _, c.frame_ngg hngg⟩
  | false =>
    cases h : c.request.mesaStage with
    | none => exact absurd h c.stage_supported.1
    | mesh => exact absurd h c.stage_supported.2
    | vertex => exact ⟨_, _, c.frame_vertex h hngg⟩
    | tessCtrl => exact c.frame_tessCtrl h
    | tessEval => exact ⟨_, _, c.frame_tessEval h hngg⟩
    | geometry => exact ⟨_, _, c.frame_geometry h hngg⟩
    | fragment => exact ⟨_, _, c.frame_fragment h⟩
    | compute => exact ⟨_, _, c.frame_compute (.inl h)⟩
    | task => exact ⟨_, _, c.frame_compute (.inr h)⟩

/-! ## The state after the lead -/

def leadSgprs : Nat := (run c.lead .init).numSgprsUsed

def leadDwords : Nat := (run c.lead .init).numUserSgprs

theorem systemLead_isSystem : ∀ y ∈ c.systemLead, y.IsSystem := by
  unfold systemLead
  split
  · cases hngg : c.request.ngg <;>
      simp [geometrySystemSgprs, systemSgprs, hngg, ArgCall.IsSystem, Arg.group]
  · split
    · simp [hullSystemSgprs, systemSgprs, ArgCall.IsSystem, Arg.group]
    · simp

theorem run_lead :
    run c.lead .init = run c.systemLead (run ([.addUdArg 2 .ringOffsets Ud.scratchRingOffsets] ++
      (if c.request.mesaStage == .task
        then [.addUdArg 2 .taskRingOffsets Ud.csTaskRingOffsets] else []) ++
      (if c.restarts then [.resetUserSgprs] else [])) .init) :=
  run_append ..

theorem leadDwords_of_restarts (h : c.restarts = true) : c.leadDwords = 0 := by
  rw [leadDwords, run_lead, run_system_numUserSgprs c.systemLead_isSystem, h, run_append]
  rfl

/-- A stage that keeps counting has its dwords in the registers of the same number. -/
theorem leadDwords_of_keeps (h : c.restarts = false) :
    2 ≤ c.leadDwords ∧ c.leadSgprs = c.leadDwords := by
  have hsystem : c.systemLead = [] := by
    simp only [restarts, Bool.or_eq_false_iff] at h
    simp [systemLead, h]
  rw [leadSgprs, leadDwords, run_lead, hsystem, h]
  cases htask : c.request.mesaStage == .task <;> decide

theorem mem_lead {y : ArgCall} (hy : y ∈ c.lead) :
    y = .addUdArg 2 .ringOffsets Ud.scratchRingOffsets ∨
      y = .addUdArg 2 .taskRingOffsets Ud.csTaskRingOffsets ∨ y = .resetUserSgprs ∨
      y.IsSystem := by
  simp only [lead, List.mem_append, List.mem_ite_nil_right, List.mem_singleton] at hy
  rcases hy with ((rfl | ⟨-, rfl⟩) | ⟨-, rfl⟩) | hy
  · exact .inl rfl
  · exact .inr (.inl rfl)
  · exact .inr (.inr (.inl rfl))
  · exact .inr (.inr (.inr (c.systemLead_isSystem y hy)))

theorem lead_arg {a : Arg} (hlead : a.group ≠ .lead) (hsystem : a.group ≠ .system) :
    (run c.lead .init).arg a = none := by
  rw [run_arg_ne]
  · rfl
  · intro y hy
    rcases c.mem_lead hy with rfl | rfl | rfl | hy
    · rintro h
      obtain rfl := Option.some.inj h
      exact hlead rfl
    · rintro h
      obtain rfl := Option.some.inj h
      exact hlead rfl
    · simp [ArgCall.arg]
    · exact hy.arg_ne hsystem

theorem lead_loc {loc : Loc} (hscratch : loc ≠ .ud Ud.scratchRingOffsets)
    (htask : loc ≠ .ud Ud.csTaskRingOffsets) : (run c.lead .init).loc loc = none := by
  rw [run_loc_ne]
  · cases loc <;> rfl
  · intro y hy
    rcases c.mem_lead hy with rfl | rfl | rfl | hy
    · exact fun h => hscratch (Option.some.inj h).symm
    · exact fun h => htask (Option.some.inj h).symm
    · simp [ArgCall.loc]
    · simp [hy.loc_eq]

theorem lead_ringOffsets :
    (run c.lead .init).arg .ringOffsets = some ⟨0, 2⟩ ∧
      (run c.lead .init).shaderData Ud.scratchRingOffsets = some 0 := by
  rw [lead, List.append_assoc, List.append_assoc, run_append]
  refine ⟨?_, run_shaderData_some rfl⟩
  rw [run_arg_ne]
  · rfl
  · intro y hy
    simp only [List.mem_append, List.mem_ite_nil_right, List.mem_singleton] at hy
    rcases hy with ⟨-, rfl⟩ | ⟨-, rfl⟩ | hy
    · decide
    · decide
    · exact (c.systemLead_isSystem y hy).arg_ne (by decide)

end Ps5Compile

end Psbc.Args
