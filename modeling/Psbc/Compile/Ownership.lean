import Psbc.Compile.Steps
import Psbc.Compile.VertexInput
import Psbc.Lib.Contract

/-!
# What a compile acquires and frees

A call takes a reference of the library, and shaders and buffers of its own. It should end with
the count it found, and with each of its objects freed once or handed out. The exits are
scattered over the implementation, so the argument goes from one to the next: an `Account` is
what the call has at a point of its course, and each part of the course is a segment between
two accounts, with the account of its exits.

One object has no account. `radv_postprocess_nir` lowers a legacy geometry shader again, after
`psbc_compile_impl` has, and nothing frees the copy shader that comes out of it.
`EntryCall.balanced_iff` says which calls lose it.
-/

namespace Psbc.Compile

open Spirv Bytes Traced Contract Ledger

/-! ## The world of a call -/

/-- `g_init_refcount`, and the objects of the call. -/
structure World where
  initRefcount : Nat
  books : Books Object

/-- The effect of an act; `psbc_shutdown` leaves a count of zero. -/
def World.step (w : World) : Act → World
  | .read _ _ => w
  | .init => { w with initRefcount := w.initRefcount + 1 }
  | .shutdown =>
    { w with initRefcount := if 0 < w.initRefcount then w.initRefcount - 1 else w.initRefcount }
  | .own op => { w with books := Ledger.step w.books op }

/-- The world that a call leaves, when it is made with `n` references taken. -/
def EntryCall.leaves (a : Outcomes) (opts : Option CompileOptions) (out : Bool)
    (call : EntryCall) (n : Nat) : World :=
  replay World.step ⟨n, blank⟩ (call.acts a opts out).trace

/-- The call gives back the reference it took, and has freed each of its objects once, or
handed it out; a call that fails hands out nothing. -/
structure EntryCall.Balanced (a : Outcomes) (opts : Option CompileOptions) (out : Bool)
    (call : EntryCall) (n : Nat) : Prop where
  initRefcount : (call.leaves a opts out n).initRefcount = n
  settled : Settled (call.leaves a opts out n).books
  handedOut : ∀ e, (call.acts a opts out).result = .error e →
    ∀ x, (call.leaves a opts out n).books x ≠ .handedOut

/-! ## Accounts -/

/-- The references that a call has taken, and its objects. -/
structure Account where
  refs : Nat
  tally : Tally Object
  deriving DecidableEq, Repr

def Account.step (s : Account) : Act → Option Account
  | .read _ _ => some s
  | .init => some { s with refs := s.refs + 1 }
  | .shutdown => if 0 < s.refs then some { s with refs := s.refs - 1 } else none
  | .own op => (s.tally.step op).map fun tally => { s with tally := tally }

def Account.run (s : Account) (t : List Act) : Option Account := t.foldlM Account.step s

/-- The account is right in a world that was entered with `n` references. -/
structure Account.Holds (n : Nat) (s : Account) (w : World) : Prop where
  refs : w.initRefcount = n + s.refs
  owns : Owns s.tally w.books

theorem Account.Holds.step {n : Nat} {s s' : Account} {w : World} {act : Act}
    (h : s.Holds n w) (hstep : s.step act = some s') : s'.Holds n (w.step act) := by
  obtain ⟨hrefs, howns⟩ := h
  cases act with
  | read array index =>
    obtain rfl := Option.some.inj hstep
    exact ⟨hrefs, howns⟩
  | init =>
    obtain rfl := Option.some.inj hstep
    exact ⟨congrArg (· + 1) hrefs, howns⟩
  | shutdown =>
    obtain ⟨hpos, ⟨⟩⟩ := Option.ite_none_right_eq_some.mp hstep
    refine ⟨?_, howns⟩
    rw [World.step, if_pos (by omega)]
    show w.initRefcount - 1 = n + (s.refs - 1)
    omega
  | own op =>
    obtain ⟨tally, htally, rfl⟩ := Option.map_eq_some_iff.mp hstep
    exact ⟨hrefs, howns.step htally⟩

/-- Nothing is owed any more but what is still held. -/
def Ends (n : Nat) (held handedOut : List Object) (w : World) : Prop :=
  ∃ absent, Account.Holds n ⟨0, ⟨absent, held, handedOut⟩⟩ w

/-- From one account to the next, or with an error to the end. -/
abbrev Segment (n : Nat) (s : Account) (x : Course) (s' : Account) (lost : List Object) : Prop :=
  Triple World.step (Account.Holds n s) x (Account.Holds n s') (Ends n lost [])

section Rules

variable {n : Nat} {s s' : Account} {t : List Act} {lost : List Object}

theorem segment_acts (h : s.run t = some s') : Segment n s (acts t) s' lost :=
  triple_acts fun _ hs => replay_of_foldlM Account.Holds.step hs h

theorem triple_exit_of_run {e : PsbcError} {absent : List Object} {Q : World → Prop}
    (h : s.run t = some ⟨0, ⟨absent, lost, []⟩⟩) :
    Triple World.step (Account.Holds n s) (exitIf true t e) Q (Ends n lost []) :=
  triple_exit fun _ hs => ⟨absent, replay_of_foldlM Account.Holds.step hs h⟩

theorem segment_exitIf {b : Bool} {e : PsbcError}
    (h : b = true → ∃ absent, s.run t = some ⟨0, ⟨absent, lost, []⟩⟩) :
    Segment n s (exitIf b t e) s lost := by
  refine triple_exitIf fun hb w hw => ?_
  obtain ⟨absent, hrun⟩ := h hb
  exact ⟨absent, replay_of_foldlM Account.Holds.step hw hrun⟩

theorem segment_readAll {array : OptionArray} {k : Nat} :
    Segment n s (readAll array k) s lost := by
  refine triple_acts fun w hw => ?_
  rw [replay_of_forall (fun act hact w => ?_)]
  · exact hw
  · obtain ⟨i, _, rfl⟩ := List.mem_map.mp hact
    rfl

theorem Account.Holds.forget {refs : Nat} {absent absent' held handedOut : List Object} {w : World}
    (h : Account.Holds n ⟨refs, ⟨absent, held, handedOut⟩⟩ w) (hsub : absent' ⊆ absent) :
    Account.Holds n ⟨refs, ⟨absent', held, handedOut⟩⟩ w :=
  ⟨h.refs, h.owns.forget hsub⟩

end Rules

/-! ## Preparation -/

/-- What a compile acquires once its shaders are prepared. -/
def later : List Object :=
  [.gsCopy .direct, .gsCopy .postprocess, .binary, .newcode, .buffer, .machineCode]

def shaders (pairedPrevious : Bool) : List Object :=
  (if pairedPrevious then [.nir .previous] else []) ++ [.nir .main]

def opened : Account := ⟨0, ⟨.nir .main :: .nir .previous :: .nir .nextLink :: later, [], []⟩⟩

def alone : Account := ⟨1, ⟨.nir .previous :: .nir .nextLink :: later, [.nir .main], []⟩⟩

def paired (pairedPrevious : Bool) : Account :=
  ⟨1, ⟨.nir .nextLink :: later, shaders pairedPrevious, []⟩⟩

def loaded (pairedPrevious : Bool) : Account := ⟨1, ⟨later, shaders pairedPrevious, []⟩⟩

section Parts

variable {n : Nat} {a : Outcomes} {m : Modules} {o : CompileOptions} {r : Request}

theorem prepareStage_segment {s s' : Account} {role : Role} {stage : MesaStage}
    {spirv : Option (List Byte)} {nir : Option NirShader} {cleanup : List Act}
    (hacquire : s.run [acquire (.nir role)] = some s')
    (hexit : ∀ refused : Bool, ∃ absent,
      s.run ((if refused then [acquire (.nir role), free (.nir role)] else []) ++ cleanup) =
        some ⟨0, ⟨absent, [], []⟩⟩) :
    Segment n s (prepareStage a o role stage spirv nir cleanup) s' [] :=
  segment_readAll.bind fun _ => (segment_exitIf fun _ => hexit _).bind fun _ =>
    segment_acts hacquire

theorem selectReads_segment {s : Account} {source : PsbcLinkedStageParameters} {role : Role} :
    Segment n s (selectReads source role) s [] :=
  triple_onlyIf (fun _ => segment_readAll) fun _ _ hs => hs

/-- The link-only shader is there between its preparation and the act that disposes of it. -/
theorem linkStage_segment {stage : MesaStage} {spirv : Option (List Byte)} {dispose : Act}
    (hdispose : Account.run ⟨1, ⟨later, .nir .nextLink :: shaders true, []⟩⟩ [dispose] =
      some (loaded true)) :
    Segment n (paired true)
      (do
        selectReads o.nextLinkParameters .nextLink
        prepareStage a o .nextLink stage spirv none
          [free (.nir .previous), free (.nir .main), .shutdown]
        acts [dispose]) (loaded true) [] := by
  have hprepare : Segment n (paired true) (prepareStage a o .nextLink stage spirv none
      [free (.nir .previous), free (.nir .main), .shutdown])
      ⟨1, ⟨later, .nir .nextLink :: shaders true, []⟩⟩ [] :=
    prepareStage_segment rfl fun refused => by cases refused <;> exact ⟨_, rfl⟩
  exact selectReads_segment.bind fun _ => hprepare.bind fun _ => segment_acts hdispose

theorem previousStage_segment {stage : MesaStage} {spirv : Option (List Byte)}
    {nir : Option NirShader} (pairedPrevious : Bool) :
    Segment n alone
      (onlyIf pairedPrevious do
        selectReads o.previousParameters .previous
        prepareStage a o .previous stage spirv nir [free (.nir .main), .shutdown])
      (paired pairedPrevious) [] := by
  refine triple_onlyIf (fun hp => ?_) fun hp w hw => ?_
  · subst hp
    exact selectReads_segment.bind fun _ =>
      prepareStage_segment rfl fun refused => by cases refused <;> exact ⟨_, rfl⟩
  · subst hp
    exact hw.forget (List.subset_cons_self _ _)

/-- Before the stage that a geometry shader is linked with. A hull pair has used up the
link-only shader, and is no pair with a geometry shader. -/
def unlinked (r : Request) : Account :=
  if r.pairedTessGeometry then paired r.pairedPrevious else loaded r.pairedPrevious

theorem hullLink_segment {spirv : Option (List Byte)} :
    Segment n (paired r.pairedPrevious)
      (onlyIf (r.pairedHull && spirv.isSome) do
        selectReads o.nextLinkParameters .nextLink
        prepareStage a o .nextLink .tessEval spirv none
          [free (.nir .previous), free (.nir .main), .shutdown]
        acts [free (.nir .nextLink)])
      (unlinked r) [] := by
  refine triple_onlyIf (fun hhull => ?_) fun _ w hw => ?_
  · have hpaired := (Bool.and_eq_true_iff.mp hhull).1
    have htess : r.pairedTessGeometry = false := by
      by_contra htess
      have hnot := Request.pairedHull_of_pairedTessGeometry (Bool.not_eq_false _ ▸ htess)
      rw [hpaired] at hnot
      cases hnot
    simp only [unlinked, htess, Request.pairedPrevious_of_link (.inl hpaired)]
    exact linkStage_segment rfl
  · unfold unlinked
    split
    · exact hw
    · exact hw.forget (List.subset_cons_self _ _)

theorem tessGeometryLink_segment {spirv : Option (List Byte)} :
    Segment n (unlinked r)
      (onlyIf r.pairedTessGeometry do
        selectReads o.nextLinkParameters .nextLink
        prepareStage a o .nextLink .tessCtrl spirv none
          [free (.nir .previous), free (.nir .main), .shutdown]
        acts [.own (.steal (.nir .nextLink) (.nir .main))])
      (loaded r.pairedPrevious) [] := by
  refine triple_onlyIf (fun htess => ?_) fun htess w hw => ?_
  · simp only [unlinked, htess, Request.pairedPrevious_of_link (.inr htess)]
    exact linkStage_segment rfl
  · simpa only [unlinked, htess, Bool.false_eq_true, if_false] using hw

theorem prepareModules_segment : Segment n opened (prepareModules a m o)
    (loaded (m.request o.toPsbcCompileOptions).pairedPrevious) [] := by
  have hinit : Segment n opened (acts [.init]) { opened with refs := 1 } [] := segment_acts rfl
  refine hinit.bind fun _ => (segment_exitIf fun _ => ⟨_, rfl⟩).bind fun _ => ?_
  have hmain : Segment n { opened with refs := 1 } (prepareStage a o .main
      (psbcToMesaStage o.stage) m.spirv m.inputNir [.shutdown]) alone [] :=
    prepareStage_segment rfl fun refused => by cases refused <;> exact ⟨_, rfl⟩
  refine hmain.bind fun _ => (previousStage_segment _).bind fun _ => ?_
  exact hullLink_segment.bind fun _ => tessGeometryLink_segment

/-! ## Pipeline state -/

def legacyGs (r : Request) : Bool := r.mesaStage == .geometry && !r.ngg

/-- What the compile of a legacy geometry shader never frees. -/
def leaked (legacy : Bool) : List Object := if legacy then [.gsCopy .postprocess] else []

/-- An exit frees the buffers it has, and then the shaders. -/
theorem drop_run {absent handedOut : List Object} (legacy : Bool) (buffers : List Object)
    (h : buffers = [] ∨ buffers = [.binary] ∨ buffers = [.buffer, .binary]) :
    Account.run ⟨1, ⟨absent, buffers ++ (leaked legacy ++ shaders r.pairedPrevious), handedOut⟩⟩
      (buffers.map free ++ dropShaders r) = some ⟨0, ⟨absent, leaked legacy, handedOut⟩⟩ := by
  unfold dropShaders
  rcases h with rfl | rfl | rfl <;> cases r.pairedPrevious <;> cases legacy <;> rfl

theorem pipelineState_segment :
    Segment n (loaded r.pairedPrevious) (pipelineState o r) (loaded r.pairedPrevious) [] := by
  have hdrop : ∃ absent, (loaded r.pairedPrevious).run (dropShaders r) =
      some ⟨0, ⟨absent, [], []⟩⟩ := ⟨_, drop_run false [] (.inl rfl)⟩
  refine segment_readAll.bind fun _ => (segment_exitIf fun _ => hdrop).bind fun _ => ?_
  refine (segment_exitIf fun _ => hdrop).bind fun _ => triple_each fun i _ => ?_
  exact (segment_acts rfl).bind fun _ => segment_exitIf fun _ => hdrop

/-! ## Lowering -/

/-- The shader before a pair's is no geometry shader. -/
theorem radvPostprocessNir_previous (next : MesaStage) (ngg : Bool) :
    radvPostprocessNir r.previousRole next ngg = [] := by
  have hstage : (r.previousRole == .geometry) = false := by
    unfold Request.previousRole
    split
    · rfl
    · split <;> rfl
  rw [radvPostprocessNir, hstage, Bool.and_false]
  rfl

/-- The next stage is the fragment one, so a legacy geometry shader is lowered once more. -/
theorem radvPostprocessNir_own :
    radvPostprocessNir r.mesaStage (nextStage r.mesaStage) r.ngg =
      if legacyGs r then [acquire (.gsCopy .postprocess)] else [] := by
  unfold legacyGs
  cases r.mesaStage <;> cases r.ngg <;> rfl

def lowered (pairedPrevious legacy : Bool) : Account :=
  ⟨1, ⟨[.binary, .newcode, .buffer, .machineCode], leaked legacy ++ shaders pairedPrevious, []⟩⟩

theorem lowerStages_segment (hpair : r.pairRefused = false) :
    Segment n (loaded r.pairedPrevious) (lowerStages a o r)
      (lowered r.pairedPrevious (legacyGs r)) (leaked (legacyGs r)) := by
  let once : Account := ⟨1, ⟨[.gsCopy .postprocess, .binary, .newcode, .buffer, .machineCode],
    shaders r.pairedPrevious, []⟩⟩
  have hdirect : (loaded r.pairedPrevious).run [acquire (.gsCopy .direct), free (.gsCopy .direct)] =
      some once := by
    unfold once
    cases r.pairedPrevious <;> rfl
  refine segment_readAll.bind fun _ => Triple.bind (Q := once.Holds n) ?_ fun _ => ?_
  · refine triple_onlyIf (fun _ => segment_acts hdirect) fun _ w hw => ?_
    exact hw.forget (List.subset_cons_self _ _)
  refine Triple.bind (Q := once.Holds n) ?_ fun _ => ?_
  · rw [radvPostprocessNir_previous]
    exact triple_onlyIf (fun _ => segment_acts rfl) fun _ _ hw => hw
  have hpost : Segment n once (acts (radvPostprocessNir r.mesaStage (nextStage r.mesaStage) r.ngg))
      (lowered r.pairedPrevious (legacyGs r)) (leaked (legacyGs r)) := by
    rw [radvPostprocessNir_own]
    cases legacyGs r with
    | true => exact segment_acts rfl
    | false => exact triple_acts fun w hw => hw.forget (List.subset_cons_self _ _)
  refine hpost.bind fun _ =>
    (segment_exitIf fun _ => ⟨_, drop_run _ [] (.inl rfl)⟩).bind fun _ => ?_
  refine segment_exitIf fun hfragment => ?_
  -- a fragment compile has no previous shader, and lowers no geometry shader
  have hstage : r.mesaStage = .fragment := by grind
  have halone : r.pairedPrevious = false := by
    by_contra hpaired
    simp [Request.pairRefused, Request.pairedGeometry, Request.pairedHull, Request.pairedDomain,
      hstage, hpaired] at hpair
  have hlegacy : legacyGs r = false := by simp [legacyGs, hstage]
  rw [halone, hlegacy]
  exact ⟨_, rfl⟩

/-! ## Assembly -/

section Assembly

variable {legacy : Bool}

def generated (pairedPrevious legacy : Bool) : Account :=
  ⟨1, ⟨[.newcode, .buffer, .machineCode], .binary :: (leaked legacy ++ shaders pairedPrevious), []⟩⟩

def packaged (pairedPrevious legacy : Bool) : Account :=
  ⟨1, ⟨[.machineCode], .buffer :: .binary :: (leaked legacy ++ shaders pairedPrevious), []⟩⟩

def delivered (pairedPrevious legacy : Bool) : Account :=
  ⟨1, ⟨[], .binary :: (leaked legacy ++ shaders pairedPrevious), [.machineCode, .buffer]⟩⟩

/-- Every exit of `buildshaderbinary` leaves the call with the binary. -/
theorem packagingExit_run (r : Request) (legacy : Bool) (exit : PackagingExit) : ∃ absent,
    (generated r.pairedPrevious legacy).run (exit.acts ++ free .binary :: dropShaders r) =
      some ⟨0, ⟨absent, leaked legacy, []⟩⟩ := by
  unfold dropShaders
  cases exit <;> cases r.pairedPrevious <;> cases legacy <;> exact ⟨_, rfl⟩

theorem buildContainer_segment {code : List Word} :
    Segment n (generated r.pairedPrevious legacy) (buildContainer a r code)
      (packaged r.pairedPrevious legacy) (leaked legacy) := by
  unfold buildContainer
  split
  · obtain ⟨absent, hrun⟩ := packagingExit_run r legacy a.packagingExit
    exact triple_exit_of_run hrun
  · refine segment_acts ?_
    cases r.pairedPrevious <;> cases legacy <;> rfl

theorem assemble_ends :
    Triple World.step (Account.Holds n (lowered r.pairedPrevious legacy)) (assemble a o r)
      (Ends n (leaked legacy) [.machineCode, .buffer]) (Ends n (leaked legacy) []) := by
  unfold assemble
  split
  · exact triple_exit_of_run (drop_run legacy [] (.inl rfl))
  · have hgenerate : Segment n (lowered r.pairedPrevious legacy) (acts [acquire .binary])
        (generated r.pairedPrevious legacy) (leaked legacy) := segment_acts rfl
    have hdeliver : (packaged r.pairedPrevious legacy).run [acquire .machineCode,
        .own (.handOut .buffer), .own (.handOut .machineCode)] =
          some (delivered r.pairedPrevious legacy) := by
      cases r.pairedPrevious <;> cases legacy <;> rfl
    refine hgenerate.bind fun _ => buildContainer_segment.bind fun _ => ?_
    refine (segment_exitIf fun _ =>
      ⟨_, drop_run legacy [.buffer, .binary] (.inr (.inr rfl))⟩).bind fun _ => ?_
    refine (segment_acts hdeliver).bind fun _ => segment_readAll.bind fun _ => ?_
    exact triple_acts fun _ hw => ⟨_, replay_of_foldlM Account.Holds.step hw
      (drop_run legacy [.binary] (.inr (.inl rfl)))⟩

end Assembly

/-! ## Calls -/

/-- The TES-fed geometry entry point takes back what was handed out. -/
theorem EntryCall.leave_ends {call : EntryCall} (legacy : Bool) :
    Triple World.step (Ends n (leaked legacy) [.machineCode, .buffer]) (call.leave a o)
      (Ends n (leaked legacy) [.machineCode, .buffer]) (Ends n (leaked legacy) []) := by
  refine triple_exitIf fun _ w hw => ?_
  obtain ⟨absent, hw⟩ := hw
  have hrun : Account.run ⟨0, ⟨absent, leaked legacy, [.machineCode, .buffer]⟩⟩
      [free .buffer, free .machineCode] = some ⟨0, ⟨absent, leaked legacy, []⟩⟩ := by
    cases legacy <;> rfl
  exact ⟨absent, replay_of_foldlM Account.Holds.step hw hrun⟩

theorem segment_of_reads {x : Course} (h : Always (fun act => ∀ w, World.step w act = w) x) :
    Segment n opened x opened [] :=
  (triple_of_forall h).imp (fun _ hw => hw) (fun _ hw => hw) fun _ hw => ⟨_, hw⟩

theorem prepared_segment {out : Bool} : Segment n opened (prepared a o out m)
    (loaded (m.request o.toPsbcCompileOptions).pairedPrevious) [] := by
  refine (segment_of_reads always_refuse).bind fun _ => ?_
  exact (segment_of_reads (always_checks (fun _ _ _ _ => rfl) _)).bind fun _ =>
    prepareModules_segment

theorem pipelineState_ok_iff : (pipelineState o r).result = .ok () ↔
    o.samplesValid = true ∧ o.primitiveTypeValid = true ∧ o.attributesValid = true := by
  rw [pipelineState_result]
  cases o.samplesValid <;> cases o.primitiveTypeValid <;> cases o.attributesValid <;> simp

end Parts

/-- The call prepares its shaders and its pipeline state. -/
structure EntryCall.Reaches (a : Outcomes) (o : CompileOptions) (out : Bool)
    (call : EntryCall) : Prop extends call.Prepares a o out where
  samples : o.samplesValid = true
  primitive : o.primitiveTypeValid = true
  attributes : o.attributesValid = true

section Calls

variable {a : Outcomes} {o : CompileOptions} {out : Bool} {call : EntryCall} {n : Nat}

theorem EntryCall.reaches_iff : call.Reaches a o out ↔
    (call.enter (gate o.toPsbcCompileOptions) o.toPsbcCompileOptions out : Course).result = .ok () ∧
    (prepared a o out call.modules).result = .ok () ∧
      (pipelineState o (call.modules.request o.toPsbcCompileOptions)).result = .ok () := by
  rw [pipelineState_ok_iff, ← and_assoc, ← prepares_iff]
  exact ⟨fun h => ⟨h.toPrepares, h.samples, h.primitive, h.attributes⟩,
    fun ⟨hprepares, hsamples, hprimitive, hattributes⟩ =>
      { hprepares with samples := hsamples, primitive := hprimitive, attributes := hattributes }⟩

/-- A call that gets to the lowering ends with what the lowering loses. -/
theorem EntryCall.acts_ends_of_reaches (h : call.Reaches a o out) :
    Triple World.step (opened.Holds n) (call.acts a (some o) out)
      (Ends n (leaked (legacyGs (call.modules.request o.toPsbcCompileOptions)))
        [.machineCode, .buffer])
      (Ends n (leaked (legacyGs (call.modules.request o.toPsbcCompileOptions))) []) := by
  obtain ⟨hentered, hprepared, hstate⟩ := reaches_iff.mp h
  have hpair := (checked_of_prepared hprepared).pair
  refine ((segment_of_reads (always_enter _ out call)).of_ok hentered).bind fun _ => ?_
  refine Triple.bind ?_ fun _ => leave_ends _
  refine (prepared_segment.of_ok hprepared).bind fun _ => ?_
  refine (pipelineState_segment.of_ok hstate).bind fun _ => ?_
  exact (lowerStages_segment hpair).bind fun _ => assemble_ends

/-- A call that is stopped before has closed its account. -/
theorem EntryCall.acts_ends_of_not_reaches (h : ¬ call.Reaches a o out) :
    Triple World.step (opened.Holds n) (call.acts a (some o) out)
      (Ends n [] [.machineCode, .buffer]) (Ends n [] []) := by
  rw [reaches_iff] at h
  refine (segment_of_reads (always_enter _ out call)).bind fun hentered => ?_
  refine Triple.bind (Q := Ends n [] [.machineCode, .buffer]) ?_ fun _ =>
    leave_ends false
  refine prepared_segment.bind fun hprepared => pipelineState_segment.bind fun hstate => ?_
  exact absurd ⟨hentered, hprepared, hstate⟩ h

/-- The call gets to the lowering of a legacy geometry shader. -/
structure EntryCall.LowersLegacyGs (a : Outcomes) (o : CompileOptions) (out : Bool)
    (call : EntryCall) : Prop extends call.Reaches a o out where
  stage : o.stage = .geometry
  legacy : o.ngg = false

theorem legacyGs_request {m : Modules} :
    legacyGs (m.request o.toPsbcCompileOptions) = true ↔ o.stage = .geometry ∧ o.ngg = false := by
  unfold legacyGs Modules.request
  cases o.stage <;> cases o.ngg <;> simp [psbcToMesaStage]

theorem ends_of_triple {x : Course} {held given : List Object}
    (h : Triple World.step (opened.Holds n) x (Ends n held given) (Ends n held [])) :
    ∃ handedOut, Ends n held handedOut (replay World.step ⟨n, blank⟩ x.trace) ∧
      ∀ e, x.result = .error e → handedOut = [] := by
  obtain ⟨hok, herr⟩ := h ⟨n, blank⟩ ⟨rfl, owns_blank _⟩
  cases hresult : x.result with
  | ok u => exact ⟨given, hok hresult, fun e he => by cases he⟩
  | error e => exact ⟨[], herr e hresult, fun _ _ => rfl⟩

/-- What a call still holds when it returns, and what it has handed out. -/
theorem EntryCall.leaves_account (a : Outcomes) (o : CompileOptions) (out : Bool)
    (call : EntryCall) (n : Nat) : ∃ held handedOut,
    Ends n held handedOut (call.leaves a (some o) out n) ∧
      (held = [] ↔ ¬ call.LowersLegacyGs a o out) ∧
      ∀ e, (call.acts a (some o) out).result = .error e → handedOut = [] := by
  by_cases hreaches : call.Reaches a o out
  · obtain ⟨handedOut, hends, hgiven⟩ := ends_of_triple (acts_ends_of_reaches (n := n) hreaches)
    refine ⟨_, handedOut, hends, ?_, hgiven⟩
    have hlegacy : call.LowersLegacyGs a o out ↔
        legacyGs (call.modules.request o.toPsbcCompileOptions) = true := by
      rw [legacyGs_request]
      exact ⟨fun h => ⟨h.stage, h.legacy⟩, fun h => { hreaches with stage := h.1, legacy := h.2 }⟩
    rw [hlegacy]
    cases legacyGs (call.modules.request o.toPsbcCompileOptions) <;> simp [leaked]
  · obtain ⟨handedOut, hends, hgiven⟩ :=
      ends_of_triple (acts_ends_of_not_reaches (n := n) hreaches)
    refine ⟨[], handedOut, hends, iff_of_true rfl fun h => hreaches h.toReaches, hgiven⟩

end Calls

/-- **A call is balanced** unless it gets to the lowering of a legacy geometry shader. -/
theorem EntryCall.balanced_iff (a : Outcomes) (opts : Option CompileOptions) (out : Bool)
    (call : EntryCall) (n : Nat) :
    call.Balanced a opts out n ↔ ¬ ∃ o ∈ opts, call.LowersLegacyGs a o out := by
  cases opts with
  | none =>
    refine iff_of_true ⟨rfl, fun _ => .inl rfl, fun _ _ _ => ?_⟩ (by simp)
    exact fun h => by cases h
  | some o =>
    simp only [Option.mem_some_iff, exists_eq_left']
    obtain ⟨held, handedOut, ⟨absent, hrefs, howns⟩, hheld, hgiven⟩ :=
      call.leaves_account a o out n
    rw [← hheld]
    constructor
    · exact fun h => howns.settled_iff.mp h.settled
    · refine fun h => ⟨hrefs, howns.settled_iff.mpr h, fun e herr x hx => ?_⟩
      have hmem := (howns.handedOut_iff x).mp hx
      rw [hgiven e herr] at hmem
      exact absurd hmem List.not_mem_nil

def legacyGeometry : CompileOptions := { vertexOptions [] with stage := .geometry }

/-- The second copy shader outlives the call. -/
theorem legacyGeometry_leaks :
    (EntryCall.acts willingOutcomes (some legacyGeometry) true (.nir (some ⟨.geometry⟩))).result =
        .ok () ∧
      (EntryCall.leaves willingOutcomes (some legacyGeometry) true
        (.nir (some ⟨.geometry⟩)) 0).books (.gsCopy .postprocess) = .held := by
  decide +kernel

end Psbc.Compile
