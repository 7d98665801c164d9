import Psbc.Args.Window

/-!
# The window base

The metadata publishes one base for the whole window: an NGG stage takes it from the pairs
it publishes, a hull pair from its ring table, every other stage leaves it at zero. The
law a driver relies on, that a slot's register is its dword plus that base, holds exactly
where the published base is the one the window has.
-/

namespace Psbc.Args

open Placement

namespace Ps5Compile

variable {c : Ps5Compile} {rest tail : List ArgCall}

/-! ## The published base -/

theorem two_le_leadSgprs : 2 ≤ c.leadSgprs := by
  rw [leadSgprs, run_numSgprsUsed, lead]
  simp only [total_append, total_cons, ArgCall.size]
  omega

theorem windowBaseStep_eq {before : Option Nat} {pair : Nat × Nat} {base : Nat}
    (hbefore : ∀ b ∈ before, b = base) (hpair : pair.1 = base + pair.2) :
    windowBaseStep before pair = some (some base) := by
  have hle : ¬ pair.1 < pair.2 := by omega
  have hsub : pair.1 - pair.2 = base := by omega
  cases before with
  | none => simp [windowBaseStep, hle, hsub]
  | some b => simp [windowBaseStep, hle, hsub, hbefore b rfl]

theorem windowBaseOf_eq {pairs : List (Nat × Nat)} {base : Nat}
    (h : ∀ pair ∈ pairs, pair.1 = base + pair.2) (hne : pairs ≠ []) :
    windowBaseOf pairs = some (some base) := by
  -- after the first pair the loop holds the base, and every later pair agrees
  have hgo : ∀ l : List (Nat × Nat), (∀ pair ∈ l, pair.1 = base + pair.2) →
      l.foldlM windowBaseStep (some base) = some (some base) := by
    intro l hl
    induction l with
    | nil => rfl
    | cons pair l ih =>
      rw [List.foldlM_cons, windowBaseStep_eq (by simp) (hl pair (by simp))]
      exact ih fun p hp => hl p (by simp [hp])
  obtain ⟨pair, l, rfl⟩ := List.exists_cons_of_ne_nil hne
  rw [windowBaseOf, List.foldlM_cons, windowBaseStep_eq (by simp) (h pair (by simp))]
  exact hgo l fun p hp => h p (by simp [hp])

theorem Stands.argOffset {a : Arg} {d : Nat} (h : c.Stands rest a d) :
    c.args.argOffset a + c.leadDwords = c.leadSgprs + d := by
  obtain ⟨x, e, -, -, rfl, harg⟩ := h
  simp only [ShaderArgs.argOffset, harg, Option.map_some, Option.getD_some]
  omega

theorem nggLdsLayout_published (h : c.Frame rest tail) (hngg : c.request.ngg = true) :
    c.args.used .nggLdsLayout = true ∧
      publishedNggLdsLayout c = some (c.args.udDword Ud.nggLdsLayout) := by
  obtain ⟨d, hat⟩ := h.isRest.nggLdsLayout hngg
  have hused : c.args.used .nggLdsLayout = true :=
    h.used_of_mem (x := nggLdsLayoutCall) (by simp [window, hat.mem]) rfl (by decide)
  exact ⟨hused, by simp [publishedNggLdsLayout, publishIf, hngg, hused]⟩

theorem mem_windowPairs {pair : Nat × Nat} (hmem : pair ∈ windowPairs c) :
    ∃ a, a ≠ .ringOffsets ∧ (fillUserData c).slot a = some pair.2 ∧
      pair.1 = c.args.argOffset a := by
  obtain ⟨⟨a, slot⟩, hin, hpair⟩ := List.mem_filterMap.mp hmem
  have hslot : a ≠ .ringOffsets ∧ (fillUserData c).slot a = slot := by
    simp only [List.mem_cons, List.not_mem_nil, or_false, Prod.mk.injEq] at hin
    rcases hin with ⟨rfl, rfl⟩ | ⟨rfl, rfl⟩ | ⟨rfl, rfl⟩ | ⟨rfl, rfl⟩ <;>
      exact ⟨by decide, rfl⟩
  split at hpair
  · obtain ⟨d, hd, rfl⟩ := Option.map_eq_some_iff.mp hpair
    exact ⟨a, hslot.1, hslot.2.trans hd, rfl⟩
  · cases hpair

/-- The pairs of an NGG stage agree on the base of the window. -/
theorem windowBase_ngg (h : c.Frame rest tail) (hngg : c.request.ngg = true) :
    publishedWindowBase c = c.leadSgprs := by
  have hzero := c.leadDwords_of_restarts (by simp [restarts, hngg])
  have hstage : isNggStage c = true := by
    rcases c.ngg_cases hngg with hs | hs | ⟨hs, -⟩ <;> simp [isNggStage, hs, hngg]
  have hpairs : windowBaseOf (windowPairs c) = some (some c.leadSgprs) := by
    refine windowBaseOf_eq (fun pair hmem => ?_) ?_
    · obtain ⟨a, hne, hslot, hoffset⟩ := mem_windowPairs hmem
      have := (h.published_at hslot hne).argOffset
      omega
    · obtain ⟨hused, hlds⟩ := nggLdsLayout_published h hngg
      simp [windowPairs, hused, hlds]
  rw [publishedWindowBase, if_pos hstage, hpairs]
  rfl

theorem ringTable_published (h : c.Frame rest tail) (hreads : readsRingTable c.info = true) :
    c.args.used .ps5RingTable = true := by
  refine h.used_of_mem (x := .addUdArg 2 .ps5RingTable Ud.ps5RingTable) ?_ rfl (by decide)
  simp [window, ringTableBlock, hreads, show ps5Key.ps5TessRingTable = true from rfl]

/-- A hull pair takes its base from the ring table. -/
theorem windowBase_hull (h : c.Frame rest tail) (hhull : c.request.pairedHull = true) :
    publishedWindowBase c = c.leadSgprs := by
  have hstage : c.request.mesaStage = .tessCtrl := by
    simp only [Request.pairedHull, Bool.and_eq_true, beq_iff_eq] at hhull
    exact hhull.2
  have hzero := c.leadDwords_of_restarts (by simp [restarts, hstage])
  have hused := ringTable_published h (by simp [readsRingTable, hstage])
  have hring : publishedRingTable c = some (c.args.udDword Ud.ps5RingTable) := by
    simp [publishedRingTable, publishIf, hused]
  have hoffset := (h.published_at (a := .ps5RingTable) hring (by decide)).argOffset
  have hhalf : hasVertexHalf c = true := by
    simp only [hasVertexHalf, hstage, beq_self_eq_true, Bool.true_and]
    exact hhull
  have hle : (publishedRingTable c).getD 0 ≤ c.args.argOffset .ps5RingTable := by
    rw [hring, Option.getD_some]
    omega
  rw [publishedWindowBase, if_neg (by simp [isNggStage, hstage]),
    if_pos (by simp [hstage, hhalf, hused, hle]), hring, Option.getD_some]
  omega

/-- Every other stage leaves the published base at zero. -/
theorem windowBase_zero (hngg : c.request.ngg = false) (hhull : c.request.pairedHull = false) :
    publishedWindowBase c = 0 := by
  have hhalf : hasVertexHalf c = false := by
    rw [hasVertexHalf, show c.info.vsAsLs = false from hhull, Bool.and_false]
  simp [publishedWindowBase, isNggStage, hngg, hhalf]

/-! ## The window law -/

/-- Every published slot but the scratch table has its dword plus the published base for
its register, and its room ends within the published count. -/
def WindowLaw (c : Ps5Compile) : Prop :=
  ∀ a d, a ≠ .ringOffsets → (fillUserData c).slot a = some d →
    ∃ slot, c.args.arg a = some slot ∧
      slot.offset = d + (fillUserData c).userDataWindowBase ∧
      d + slot.size ≤ (fillUserData c).userSgprCount

theorem Frame.windowLaw (h : c.Frame rest tail)
    (hbase : c.leadSgprs = c.leadDwords + publishedWindowBase c) : c.WindowLaw := by
  intro a d hne hslot
  obtain ⟨x, e, hat, -, rfl, harg⟩ := h.published_at hslot hne
  have hcount : (fillUserData c).userSgprCount =
      c.leadDwords + total ArgCall.size (c.window rest) := h.numUserSgprs
  have hend := hat.end_le
  refine ⟨_, harg, ?_, ?_⟩
  · show c.leadSgprs + e = c.leadDwords + e + publishedWindowBase c
    omega
  · show c.leadDwords + e + x.size ≤ _
    omega

/-- One published slot is enough to show the base the window has. -/
theorem WindowLaw.base_eq (hlaw : c.WindowLaw) (h : c.Frame rest tail) {a : Arg} {d : Nat}
    (hne : a ≠ .ringOffsets) (hslot : (fillUserData c).slot a = some d) :
    c.leadSgprs = c.leadDwords + publishedWindowBase c := by
  obtain ⟨slot, hslotArg, hoffset, -⟩ := hlaw a d hne hslot
  obtain ⟨x, e, -, -, rfl, harg⟩ := h.published_at hslot hne
  obtain rfl := Option.some.inj (hslotArg.symm.trans harg)
  replace hoffset : c.leadSgprs + e = c.leadDwords + e + publishedWindowBase c := hoffset
  omega

/-- A stage that starts its dwords again and publishes no base breaks the law with its
first slot. -/
theorem not_windowLaw (h : c.Frame rest tail) (hrestarts : c.restarts = true)
    (hbase : publishedWindowBase c = 0) {a : Arg} {d : Nat} (hne : a ≠ .ringOffsets)
    (hslot : (fillUserData c).slot a = some d) : ¬ c.WindowLaw := by
  intro hlaw
  have := hlaw.base_eq h hne hslot
  have := c.leadDwords_of_restarts hrestarts
  have := c.two_le_leadSgprs
  omega

/-! ## A geometry stage on its own -/

section GeometryAlone

variable (hstage : c.request.mesaStage = .geometry) (hngg : c.request.ngg = false)
include hstage hngg

theorem geometryAlone_streamoutConfig : c.args.used .streamoutConfig = false := by
  have hframe := c.frame_geometry hstage hngg
  rw [ShaderArgs.used, hframe.args_eq, run, List.foldl_nil,
    run_arg_ne (window_system_ne hframe.isRest rfl), run_arg_ne]
  · rfl
  · simp [lead, restarts, systemLead, geometrySystemSgprs, systemSgprs, hstage, hngg,
      ArgCall.arg]

/-- It publishes push constants and directly passed sets only. -/
theorem geometryAlone_slot {a : Arg} {d : Nat} (hne : a ≠ .ringOffsets)
    (hslot : (fillUserData c).slot a = some d) :
    c.info.loadsPushConstants = true ∨ (c.userSgprs.indirectAllDescriptorSets = false ∧
      ∃ set < 4, c.info.descSetUsedMask.getLsbD set = true) := by
  have hframe := c.frame_geometry hstage hngg
  have hvertex : publishesVertex c = false := by
    simp [publishesVertex, hasVertexHalf, hstage, hngg]
  cases a with
  | ringOffsets => exact absurd rfl hne
  | pushConstants =>
    obtain ⟨hvalid, -⟩ := publishIf_eq_some.mp hslot
    simp only [Bool.and_eq_true] at hvalid
    exact .inl hvalid.1
  | descriptors set =>
    obtain ⟨x, e, hat, harg, -, -⟩ := hframe.published_at hslot hne
    simp only [UserData.slot, fillUserData] at hslot
    split at hslot
    · rename_i hvalid
      have hdirect := hframe.direct_of_some hslot
      exact .inr ⟨hdirect, set, hvalid.1,
        descriptors_used _ hdirect (mem_descriptorBlock hframe.isRest hat.mem harg) harg⟩
    · cases hslot
  | ps5RingTable =>
    obtain ⟨x, e, hat, harg, -, -⟩ := hframe.published_at hslot hne
    have hmem := mem_ringTableBlock hframe.isRest hat.mem harg
    have hpair := c.geometry_unpaired hstage hngg
    have hes : c.info.gsEsType = .vertex := by
      simp [info, Request.pairedTessGeometry, Request.pairedGeometry, hpair]
    simp [ringTableBlock, readsRingTable, hstage, hes] at hmem
  | nggLdsLayout =>
    simp [UserData.slot, fillUserData, publishedNggLdsLayout, publishIf, hngg] at hslot
  | vertexBuffers => simp [UserData.slot, fillUserData, publishIf, hvertex] at hslot
  | baseVertex =>
    simp [UserData.slot, fillUserData, publishedBaseVertex, publishIf, hvertex] at hslot
  | drawId => simp [UserData.slot, fillUserData, publishedDrawId, publishIf, hvertex] at hslot
  | startInstance =>
    simp [UserData.slot, fillUserData, publishedStartInstance, publishIf, hvertex] at hslot
  | viewIndex => simp [UserData.slot, fillUserData, publishIf, hstage] at hslot
  | streamoutBuffers =>
    simp [UserData.slot, fillUserData, publishIf, hngg,
      geometryAlone_streamoutConfig hstage hngg] at hslot
  | _ => cases hslot

theorem geometryAlone_pushConstants (hloads : c.info.loadsPushConstants = true) :
    ∃ d, (fillUserData c).slot .pushConstants = some d := by
  have hframe := c.frame_geometry hstage hngg
  have hused : c.args.used .pushConstants = true := by
    refine hframe.used_of_mem (x := .addUdArg 1 .pushConstants Ud.pushConstants) ?_ rfl (by decide)
    simp [window, declareDescriptorSgprs, c.geometry_merged hstage hngg]
  exact ⟨_, publishIf_eq_some.mpr ⟨by simp [hloads, hused], rfl⟩⟩

theorem geometryAlone_descriptorSet
    (hdirect : c.userSgprs.indirectAllDescriptorSets = false) {set : Nat} (hset : set < 4)
    (hused : c.info.descSetUsedMask.getLsbD set = true) :
    ∃ d, (fillUserData c).slot (.descriptors set) = some d := by
  have hframe := c.frame_geometry hstage hngg
  have hdeclared : c.args.used (.descriptors set) = true := by
    refine hframe.used_of_mem (x := .addDescriptorSet set) ?_ rfl (by simp [Arg.group])
    simp [window, declareDescriptorSgprs, hdirect, hused]
  obtain ⟨d, hd, -⟩ := hframe.stands_direct hdirect hdeclared
  exact ⟨d, by simp [UserData.slot, fillUserData, hset, hdeclared, hd]⟩

end GeometryAlone

/-! ## The compiles that keep the law -/

/-- What a geometry stage on its own would publish: push constants, or a set that is passed
directly. -/
def PublishesAlone (c : Ps5Compile) : Prop :=
  c.info.loadsPushConstants = true ∨ (c.userSgprs.indirectAllDescriptorSets = false ∧
    ∃ set < 4, c.info.descSetUsedMask.getLsbD set = true)

/-- The compiles whose window base is published: no evaluation stage outside NGG, no control
stage on its own, and no geometry stage on its own that publishes a slot. -/
def PublishesBase (c : Ps5Compile) : Prop :=
  ¬ (c.request.mesaStage = .tessEval ∧ c.request.ngg = false) ∧
    ¬ (c.request.mesaStage = .tessCtrl ∧ c.request.pairedPrevious = false) ∧
    ¬ (c.request.mesaStage = .geometry ∧ c.request.pairedPrevious = false ∧ c.PublishesAlone)

theorem windowLaw_iff_publishesAlone (hstage : c.request.mesaStage = .geometry)
    (hngg : c.request.ngg = false) : c.WindowLaw ↔ ¬ c.PublishesAlone := by
  have hframe := c.frame_geometry hstage hngg
  have hrestarts : c.restarts = true := by simp [restarts, hstage]
  have hzero : publishedWindowBase c = 0 :=
    windowBase_zero hngg (by simp [Request.pairedHull, hstage])
  constructor
  · rintro hlaw (hloads | ⟨hdirect, set, hset, hused⟩)
    · obtain ⟨d, hslot⟩ := geometryAlone_pushConstants hstage hngg hloads
      exact not_windowLaw hframe hrestarts hzero (by decide) hslot hlaw
    · obtain ⟨d, hslot⟩ := geometryAlone_descriptorSet hstage hngg hdirect hset hused
      exact not_windowLaw hframe hrestarts hzero (by simp) hslot hlaw
  · intro halone a d hne hslot
    exact absurd (geometryAlone_slot hstage hngg hne hslot) halone

/-- A stage that reads the ring table always publishes it. -/
theorem ringTable_slot (h : c.Frame rest tail) (hreads : readsRingTable c.info = true) :
    ∃ d, (fillUserData c).slot .ps5RingTable = some d :=
  ⟨_, publishIf_eq_some.mpr ⟨ringTable_published h hreads, rfl⟩⟩

/-- A stage that keeps counting publishes base zero, and has it. -/
theorem windowLaw_of_keeps (h : c.Frame rest tail) (hkeeps : c.restarts = false) :
    c.WindowLaw := by
  have hlead := c.leadDwords_of_keeps hkeeps
  simp only [restarts, Bool.or_eq_false_iff, beq_eq_false_iff_ne] at hkeeps
  have hzero : publishedWindowBase c = 0 :=
    windowBase_zero hkeeps.1.1.1 (by simp [Request.pairedHull, hkeeps.1.1.2])
  exact h.windowLaw (by omega)

theorem windowLaw_of_ngg (h : c.Frame rest tail) (hngg : c.request.ngg = true) :
    c.WindowLaw := by
  have hbase := windowBase_ngg h hngg
  have hzero := c.leadDwords_of_restarts (by simp [restarts, hngg])
  exact h.windowLaw (by omega)

theorem windowLaw_of_hull (h : c.Frame rest tail) (hhull : c.request.pairedHull = true)
    (hstage : c.request.mesaStage = .tessCtrl) : c.WindowLaw := by
  have hbase := windowBase_hull h hhull
  have hzero := c.leadDwords_of_restarts (by simp [restarts, hstage])
  exact h.windowLaw (by omega)

/-- The user-data window law holds for exactly the compiles that publish their base. -/
theorem windowLaw_iff (c : Ps5Compile) : c.WindowLaw ↔ c.PublishesBase := by
  obtain ⟨rest, tail, h⟩ := c.exists_frame
  cases hngg : c.request.ngg with
  | true =>
    refine iff_of_true (windowLaw_of_ngg h hngg) ?_
    rcases c.ngg_cases hngg with hs | hs | ⟨hs, hp⟩ <;> simp [PublishesBase, *]
  | false =>
    cases hstage : c.request.mesaStage with
    | none => exact absurd hstage c.stage_supported.1
    | mesh => exact absurd hstage c.stage_supported.2
    | vertex | fragment | compute | task =>
      refine iff_of_true (windowLaw_of_keeps h ?_) ?_
      · simp [restarts, hngg, hstage]
      · simp [PublishesBase, hstage]
    | geometry =>
      rw [windowLaw_iff_publishesAlone hstage hngg]
      simp [PublishesBase, hstage, c.geometry_unpaired hstage hngg]
    | tessEval =>
      obtain ⟨d, hslot⟩ := ringTable_slot h (by simp [readsRingTable, hstage])
      have hzero : publishedWindowBase c = 0 :=
        windowBase_zero hngg (by simp [Request.pairedHull, hstage])
      have hrestarts : c.restarts = true := by simp [restarts, hstage]
      exact iff_of_false (not_windowLaw h hrestarts hzero (by decide) hslot)
        fun hp => hp.1 ⟨hstage, hngg⟩
    | tessCtrl =>
      cases hpair : c.request.pairedPrevious with
      | true =>
        refine iff_of_true (windowLaw_of_hull h ?_ hstage) ?_
        · simp [Request.pairedHull, hpair, hstage]
        · simp [PublishesBase, hpair, hstage]
      | false =>
        obtain ⟨d, hslot⟩ := ringTable_slot h (by simp [readsRingTable, hstage])
        have hzero : publishedWindowBase c = 0 :=
          windowBase_zero hngg (by simp [Request.pairedHull, hpair])
        have hrestarts : c.restarts = true := by simp [restarts, hstage]
        exact iff_of_false (not_windowLaw h hrestarts hzero (by decide) hslot)
          fun hp => hp.2.1 ⟨hstage, hpair⟩

/-- An evaluation stage linked to its control half and not NGG, with nothing else in use. -/
def legacyDomain : Ps5Compile where
  request := ⟨.ps5, .tessEval, false, true, false⟩
  hasDescriptorBindings := false
  gathered := { numTessPatches := 1, tesTcsVerticesOut := 3 }
  gfx := { patchControlPoints := 3 }
  scratchBytesPerWave := 0
  target_eq := rfl
  stage_supported := by decide
  pair_accepted := by decide
  ngg_accepted := by decide

/-- Its ring table is published at dword 0 with base 0, and is read from register 2. -/
theorem legacyDomain_ringTable_misplaced :
    (fillUserData legacyDomain).slot .ps5RingTable = some 0 ∧
      (fillUserData legacyDomain).userDataWindowBase = 0 ∧
      legacyDomain.args.arg .ps5RingTable = some ⟨2, 2⟩ ∧ ¬ legacyDomain.WindowLaw := by
  have hslot : (fillUserData legacyDomain).slot .ps5RingTable = some 0 := by decide +kernel
  have hbase : (fillUserData legacyDomain).userDataWindowBase = 0 := by decide +kernel
  have harg : legacyDomain.args.arg .ps5RingTable = some ⟨2, 2⟩ := by decide +kernel
  refine ⟨hslot, hbase, harg, fun hlaw => ?_⟩
  obtain ⟨slot, hslotArg, hoffset, -⟩ := hlaw _ _ (by decide) hslot
  obtain rfl := Option.some.inj (hslotArg.symm.trans harg)
  rw [hbase] at hoffset
  cases hoffset

end Ps5Compile

end Psbc.Args
