import Psbc.Args.Frame

/-!
# The user-data window

In the window registers and dwords advance together, so an argument of the window has its
dword plus one base for its register. Every published slot but the scratch table is such an
argument (`published_at`).
-/

namespace Psbc.Args

open Placement

namespace Ps5Compile

variable {c : Ps5Compile} {rest tail : List ArgCall}

/-! ## The blocks are apart -/

theorem vertexBlock_inGroup : ∀ y ∈ c.vertexBlock, y.InGroup .vertex := by
  unfold vertexBlock
  split
  · exact unmergedVsSgprs_inGroup
  · split
    · exact declareVsSpecificInputSgprs_inGroup c.info
    · simp

theorem IsRest.arg_ne (h : c.IsRest rest) {a : Arg} (hgroup : a.group ≠ .stage)
    (hdraw : a = .drawId → publishesVertex c = true) : ∀ y ∈ rest, y.arg ≠ some a := by
  intro y hy
  rcases h.inGroup y hy with hy | ⟨hpublishes, rfl⟩
  · exact hy.arg_ne hgroup
  · rintro harg
    obtain rfl := Option.some.inj harg
    simp [hdraw rfl] at hpublishes

/-- Every call of the window is for user data of one of the groups in it, or for the draw
index of a compute stage. -/
theorem window_inGroup (h : c.IsRest rest) {y : ArgCall} (hy : y ∈ c.window rest) :
    (∃ g, g ≠ .lead ∧ g ≠ .system ∧ y.InGroup g) ∨
      y = .addUdArg 1 .drawId Ud.csTaskDrawId := by
  simp only [window, List.mem_append] at hy
  rcases hy with hy | hy | hy | hy | hy
  · exact .inl ⟨_, by decide, by decide, vertexBlock_inGroup y hy⟩
  · exact .inl ⟨_, by decide, by decide, ringTableBlock_inGroup _ y hy⟩
  · exact .inl ⟨_, by decide, by decide, declareDescriptorSgprs_inGroup _ _ y hy⟩
  · exact .inl ⟨_, by decide, by decide, streamoutBlock_inGroup _ y hy⟩
  · rcases h.inGroup y hy with hy | ⟨-, rfl⟩
    · exact .inl ⟨_, by decide, by decide, hy⟩
    · exact .inr rfl

theorem window_user (h : c.IsRest rest) : ∀ y ∈ c.window rest, ∃ loc, y.loc = some loc := by
  intro y hy
  rcases window_inGroup h hy with ⟨g, -, -, hy⟩ | rfl
  · exact hy.user
  · exact ⟨_, rfl⟩

theorem window_system_ne (h : c.IsRest rest) {a : Arg} (ha : a.group = .system) :
    ∀ y ∈ c.window rest, y.arg ≠ some a := by
  intro y hy
  rcases window_inGroup h hy with ⟨g, -, hg, hy⟩ | rfl
  · exact hy.arg_ne (by rw [ha]; exact hg.symm)
  · rintro harg
    obtain rfl := Option.some.inj harg
    cases ha

/-- Only its own block declares the ring table. -/
theorem mem_ringTableBlock (h : c.IsRest rest) {y : ArgCall} (hy : y ∈ c.window rest)
    (harg : y.arg = some .ps5RingTable) : y ∈ ringTableBlock c.info := by
  simp only [window, List.mem_append] at hy
  rcases hy with hy | hy | hy | hy | hy
  · exact absurd harg ((vertexBlock_inGroup y hy).arg_ne (by decide))
  · exact hy
  · exact absurd harg ((declareDescriptorSgprs_inGroup _ _ y hy).arg_ne (by decide))
  · exact absurd harg ((streamoutBlock_inGroup _ y hy).arg_ne (by decide))
  · exact absurd harg (h.arg_ne (by decide) (by simp) y hy)

theorem mem_descriptorBlock (h : c.IsRest rest) {y : ArgCall} {set : Nat}
    (hy : y ∈ c.window rest) (harg : y.arg = some (.descriptors set)) :
    y ∈ declareDescriptorSgprs c.info c.userSgprs := by
  simp only [window, List.mem_append] at hy
  rcases hy with hy | hy | hy | hy | hy
  · exact absurd harg ((vertexBlock_inGroup y hy).arg_ne (by simp [Arg.group]))
  · exact absurd harg ((ringTableBlock_inGroup _ y hy).arg_ne (by simp [Arg.group]))
  · exact hy
  · exact absurd harg ((streamoutBlock_inGroup _ y hy).arg_ne (by simp [Arg.group]))
  · exact absurd harg (h.arg_ne (by simp [Arg.group]) (by simp) y hy)

section Settled

variable {q : ArgCall → Prop} {x : ArgCall} {a : Arg}

/-- Behind the vertex arguments nothing declares one of them again. -/
theorem behind_vertex (h : c.IsRest rest) (hpublishes : publishesVertex c = true)
    (ha : a.group = .vertex) :
    ∀ y ∈ ringTableBlock c.info ++ (declareDescriptorSgprs c.info c.userSgprs ++
      (streamoutBlock c.info ++ rest)), y.arg ≠ some a := by
  intro y hy
  simp only [List.mem_append] at hy
  rcases hy with hy | hy | hy | hy
  · exact (ringTableBlock_inGroup _ y hy).arg_ne (by simp [ha])
  · exact (declareDescriptorSgprs_inGroup _ _ y hy).arg_ne (by simp [ha])
  · exact (streamoutBlock_inGroup _ y hy).arg_ne (by simp [ha])
  · exact h.arg_ne (by simp [ha]) (fun _ => hpublishes) y hy

theorem window_vertex (h : c.IsRest rest) (hpublishes : publishesVertex c = true)
    (hx : x.arg = some a) (ha : a.group = .vertex)
    (hset : Settled ArgCall.size q (fun y => y.arg = x.arg) c.vertexBlock x) :
    Settled ArgCall.size q (fun y => y.arg = x.arg) (c.window rest) x :=
  hset.append_right (hx ▸ behind_vertex h hpublishes ha)

theorem window_ringTable (h : c.IsRest rest) :
    SettledIn (c.window rest) (.addUdArg 2 .ps5RingTable Ud.ps5RingTable) := by
  refine ((settledIn_ringTable c.info).append_right fun y hy => ?_).append_left
    (fun y hy => (vertexBlock_inGroup y hy).ud_ne (by decide))
    (fun y hy => (vertexBlock_inGroup y hy).arg_ne (by decide))
  simp only [List.mem_append] at hy
  rcases hy with hy | hy | hy
  · exact (declareDescriptorSgprs_inGroup _ _ y hy).arg_ne (by decide)
  · exact (streamoutBlock_inGroup _ y hy).arg_ne (by decide)
  · exact h.arg_ne (by decide) (by simp) y hy

theorem window_descriptor (h : c.IsRest rest) (hx : x.arg = some a) (ha : a.group = .descriptor)
    (hvertex : ∀ y : ArgCall, y.InGroup .vertex → y.loc ≠ x.loc)
    (hring : ∀ y : ArgCall, y.InGroup .ringTable → y.loc ≠ x.loc)
    (hset : SettledIn (declareDescriptorSgprs c.info c.userSgprs) x) :
    SettledIn (c.window rest) x := by
  refine ((hset.append_right fun y hy => ?_).append_left
    (fun y hy => hring y (ringTableBlock_inGroup _ y hy)) fun y hy => ?_).append_left
    (fun y hy => hvertex y (vertexBlock_inGroup y hy)) fun y hy => ?_
  · rw [hx]
    rcases List.mem_append.mp hy with hy | hy
    · exact (streamoutBlock_inGroup _ y hy).arg_ne (by simp [ha])
    · exact h.arg_ne (by simp [ha]) (by rintro rfl; cases ha) y hy
  · rw [hx]
    exact (ringTableBlock_inGroup _ y hy).arg_ne (by simp [ha])
  · rw [hx]
    exact (vertexBlock_inGroup y hy).arg_ne (by simp [ha])

theorem window_streamoutBuffers (h : c.IsRest rest) :
    SettledIn (c.window rest) (.addUdArg 1 .streamoutBuffers Ud.streamoutBuffers) := by
  refine ((((settledIn_streamoutBuffers c.info).append_right
    (h.arg_ne (by decide) (by simp))).append_left ?_ ?_).append_left ?_ ?_).append_left ?_ ?_
  · exact fun y hy => (declareDescriptorSgprs_inGroup _ _ y hy).ud_ne (by decide)
  · exact fun y hy => (declareDescriptorSgprs_inGroup _ _ y hy).arg_ne (by decide)
  · exact fun y hy => (ringTableBlock_inGroup _ y hy).ud_ne (by decide)
  · exact fun y hy => (ringTableBlock_inGroup _ y hy).arg_ne (by decide)
  · exact fun y hy => (vertexBlock_inGroup y hy).ud_ne (by decide)
  · exact fun y hy => (vertexBlock_inGroup y hy).arg_ne (by decide)

theorem window_stage {size ud : Nat} (hx : x = .addUdArg size a ud) (ha : a.group = .stage)
    (hud : ∀ g ∈ [Group.vertex, .ringTable, .descriptor, .streamout], ud ∉ g.uds)
    (hset : SettledIn rest x) : SettledIn (c.window rest) x := by
  subst hx
  refine (((hset.append_left ?_ ?_).append_left ?_ ?_).append_left ?_ ?_).append_left ?_ ?_
  · exact fun y hy => (streamoutBlock_inGroup _ y hy).ud_ne (hud _ (by simp))
  · exact fun y hy => (streamoutBlock_inGroup _ y hy).arg_ne (by simp [ha])
  · exact fun y hy => (declareDescriptorSgprs_inGroup _ _ y hy).ud_ne (hud _ (by simp))
  · exact fun y hy => (declareDescriptorSgprs_inGroup _ _ y hy).arg_ne (by simp [ha])
  · exact fun y hy => (ringTableBlock_inGroup _ y hy).ud_ne (hud _ (by simp))
  · exact fun y hy => (ringTableBlock_inGroup _ y hy).arg_ne (by simp [ha])
  · exact fun y hy => (vertexBlock_inGroup y hy).ud_ne (hud _ (by simp))
  · exact fun y hy => (vertexBlock_inGroup y hy).arg_ne (by simp [ha])

end Settled

/-! ## Registers and dwords of the window -/

theorem Frame.args_eq (h : c.Frame rest tail) :
    c.args = run tail (run (c.window rest) (run c.lead .init)) := by
  rw [c.args_eq, h.calls_eq, run_append, run_append]

theorem Frame.numUserSgprs (h : c.Frame rest tail) :
    c.args.numUserSgprs = c.leadDwords + total ArgCall.size (c.window rest) := by
  rw [h.args_eq, run_system_numUserSgprs h.tail_system, run_numUserSgprs (window_user h.isRest)]
  rfl

section Placed

variable {q : ArgCall → Prop} {x : ArgCall} {a : Arg}

theorem Frame.arg_eq (h : c.Frame rest tail) (hsystem : a.group ≠ .system) :
    c.args.arg a = (run (c.window rest) (run c.lead .init)).arg a := by
  rw [h.args_eq, run_arg_ne fun y hy => (h.tail_system y hy).arg_ne hsystem]

theorem Frame.loc_eq (h : c.Frame rest tail) (loc : Loc) :
    c.args.loc loc = (run (c.window rest) (run c.lead .init)).loc loc := by
  rw [h.args_eq, run_loc_ne fun y hy => by simp [(h.tail_system y hy).loc_eq]]

theorem Frame.used_of_mem (h : c.Frame rest tail) (hmem : x ∈ c.window rest)
    (hx : x.arg = some a) (hsystem : a.group ≠ .system) : c.args.used a = true := by
  rw [ShaderArgs.used, h.arg_eq hsystem]
  exact run_arg_isSome (.inr ⟨x, hmem, hx⟩)

theorem Frame.arg_at (h : c.Frame rest tail) (hx : x.arg = some a) (hlead : a.group ≠ .lead)
    (hsystem : a.group ≠ .system) (hused : c.args.used a = true)
    (hset : Settled ArgCall.size q (fun y => y.arg = x.arg) (c.window rest) x) :
    ∃ d, At ArgCall.size q (fun y => y.arg = x.arg) (c.window rest) x d ∧
      c.args.arg a = some ⟨c.leadSgprs + d, x.size⟩ := by
  rw [hx] at hset ⊢
  rcases hset with ⟨d, hat⟩ | habsent
  · refine ⟨d, hat, ?_⟩
    rw [h.arg_eq hsystem, run_arg_at hat hx]
    rfl
  · rw [ShaderArgs.used, h.arg_eq hsystem, run_arg_ne habsent, c.lead_arg hlead hsystem] at hused
    cases hused

theorem Frame.dword_at (h : c.Frame rest tail) {loc : Loc} {d : Nat} (hx : x.arg = some a)
    (hloc : x.loc = some loc) (hscratch : loc ≠ .ud Ud.scratchRingOffsets)
    (htask : loc ≠ .ud Ud.csTaskRingOffsets)
    (hat : At ArgCall.size (fun y => y.loc = x.loc) (fun y => y.arg = x.arg)
      (c.window rest) x d) :
    c.args.loc loc = some (c.leadDwords + d) := by
  rw [hx, hloc] at hat
  rw [h.loc_eq, run_loc_at (window_user h.isRest) hat hx hloc (c.lead_loc hscratch htask)]
  rfl

end Placed

/-! ## Published slots stand in the window -/

/-- `a` has dword `d`, the registers of the same place in the window, and room up to the
published count. -/
def Stands (c : Ps5Compile) (rest : List ArgCall) (a : Arg) (d : Nat) : Prop :=
  ∃ x e, At ArgCall.size (fun _ => False) (fun _ => False) (c.window rest) x e ∧
    x.arg = some a ∧ d = c.leadDwords + e ∧ c.args.arg a = some ⟨c.leadSgprs + e, x.size⟩

theorem Frame.stands_ud (h : c.Frame rest tail) {a : Arg} {size ud : Nat}
    (hgroup : a.group ≠ .lead ∧ a.group ≠ .system)
    (hud : ud ≠ Ud.scratchRingOffsets ∧ ud ≠ Ud.csTaskRingOffsets)
    (hset : SettledIn (c.window rest) (.addUdArg size a ud)) (hused : c.args.used a = true) :
    c.Stands rest a (c.args.udDword ud) := by
  obtain ⟨d, hat, harg⟩ := h.arg_at rfl hgroup.1 hgroup.2 hused hset
  refine ⟨_, d, hat.forget, rfl, ?_, harg⟩
  have hloc := h.dword_at rfl rfl (by simpa using hud.1) (by simpa using hud.2) hat
  rw [ShaderArgs.udDword, show c.args.shaderData ud = _ from hloc]
  rfl

theorem vertexBlock_of_publishes (h : publishesVertex c = true) :
    c.vertexBlock = if c.declaresVertex then declareVsSpecificInputSgprs c.info else [] := by
  have hmerged : c.info.mergedShaderCompiledSeparately = false := by
    simp only [publishesVertex, hasVertexHalf, Bool.or_eq_true, Bool.and_eq_true,
      beq_iff_eq] at h
    rcases h with (⟨hs, hls⟩ | hs) | ⟨hs, hngg⟩
    · rw [info_merged, show c.request.pairedHull = true from hls]
      simp
    · simp [info_merged, unlinkedConsumer, hs]
    · rcases c.ngg_cases hngg with hs' | hs' | ⟨-, hp⟩
      · simp [hs] at hs'
      · simp [hs] at hs'
      · simp [info_merged, unlinkedConsumer, Request.pairedGeometry, hs, hp]
  simp [vertexBlock, hmerged]

section Vertex

variable {x : ArgCall} {q : ArgCall → Prop} {a : Arg}

theorem settled_vertexBlock (hpublishes : publishesVertex c = true)
    (hset : Settled ArgCall.size q (fun y => y.arg = x.arg)
      (declareVsSpecificInputSgprs c.info) x) :
    Settled ArgCall.size q (fun y => y.arg = x.arg) c.vertexBlock x := by
  rw [vertexBlock_of_publishes hpublishes]
  split
  · exact hset
  · exact .inr (by simp)

end Vertex

theorem Frame.stands_baseVertex (h : c.Frame rest tail) (hpublishes : publishesVertex c = true)
    (hused : c.args.used .baseVertex = true) :
    c.Stands rest .baseVertex (c.args.udDword Ud.vsBaseVertexStartInstance) :=
  h.stands_ud (by decide) (by decide)
    (window_vertex h.isRest hpublishes rfl rfl
      (settled_vertexBlock hpublishes (.inl ⟨_, at_baseVertex c.info⟩))) hused

theorem Frame.baseVertex_used (h : c.Frame rest tail) (hpublishes : publishesVertex c = true)
    (hdeclares : c.declaresVertex = true) : c.args.used .baseVertex = true := by
  refine h.used_of_mem (x := baseVertexCall) ?_ rfl (by decide)
  simp [window, vertexBlock_of_publishes hpublishes, hdeclares, (at_baseVertex c.info).mem]

theorem Frame.vertex_unused (h : c.Frame rest tail) (hpublishes : publishesVertex c = true)
    (hdeclares : c.declaresVertex = false) {a : Arg} (ha : a.group = .vertex) :
    c.args.used a = false := by
  have hblock : c.vertexBlock = [] := by
    rw [vertexBlock_of_publishes hpublishes, hdeclares]
    rfl
  rw [ShaderArgs.used, h.arg_eq (by simp [ha]), window, hblock, List.nil_append,
    run_arg_ne (behind_vertex h.isRest hpublishes ha),
    c.lead_arg (by simp [ha]) (by simp [ha])]
  rfl

theorem Frame.stands_baseVertexRelative (h : c.Frame rest tail) {x : ArgCall} {a : Arg}
    (hpublishes : publishesVertex c = true) (hx : x.arg = some a) (ha : a.group = .vertex)
    (hused : c.args.used a = true)
    (hset : DeclaredOnce (declareVsSpecificInputSgprs c.info) x) :
    c.Stands rest a (baseVertexRelative c a) := by
  have hdeclares : c.declaresVertex = true := by
    cases hd : c.declaresVertex with
    | true => rfl
    | false => simp [h.vertex_unused hpublishes hd ha] at hused
  have hbase := h.baseVertex_used hpublishes hdeclares
  obtain ⟨y, e, -, -, hdword, hbaseArg⟩ := h.stands_baseVertex hpublishes hbase
  obtain ⟨d, hat, harg⟩ := h.arg_at hx (by simp [ha]) (by simp [ha]) hused
    (window_vertex h.isRest hpublishes hx ha (settled_vertexBlock hpublishes hset))
  refine ⟨x, d, hat.forget, hx, ?_, harg⟩
  simp only [baseVertexRelative, publishedBaseVertex, publishIf, hpublishes, hbase,
    Bool.and_self, if_true, Option.getD_some, ShaderArgs.argOffset, harg, hbaseArg,
    Option.map_some]
  omega

theorem publishIf_eq_some {valid : Bool} {dword d : Nat} :
    publishIf valid dword = some d ↔ valid = true ∧ dword = d := by
  cases valid <;> simp [publishIf]

theorem Frame.descriptorSets_indirect (h : c.Frame rest tail)
    (hind : c.userSgprs.indirectAllDescriptorSets = true) (set : Nat) :
    c.args.descriptorSets set = none := by
  rw [show c.args.descriptorSets set = c.args.loc (.set set) from rfl, h.loc_eq, run_loc_ne,
    c.lead_loc (by simp) (by simp)]
  intro y hy
  simp only [window, List.mem_append] at hy
  rcases hy with hy | hy | hy | hy | hy
  · exact (vertexBlock_inGroup y hy).set_ne (by decide)
  · exact (ringTableBlock_inGroup _ y hy).set_ne (by decide)
  · exact declareDescriptorSgprs_set_ne _ hind y hy
  · exact (streamoutBlock_inGroup _ y hy).set_ne (by decide)
  · rcases h.isRest.inGroup y hy with hy | ⟨-, rfl⟩
    · exact hy.set_ne (by decide)
    · simp [ArgCall.loc]

theorem Frame.stands_direct (h : c.Frame rest tail)
    (hdirect : c.userSgprs.indirectAllDescriptorSets = false) {set : Nat}
    (hused : c.args.used (.descriptors set) = true) :
    ∃ d, c.args.descriptorSets set = some d ∧ c.Stands rest (.descriptors set) d := by
  have hsettled : SettledIn (c.window rest) (.addDescriptorSet set) :=
    window_descriptor h.isRest rfl rfl (fun y hy => hy.set_ne (by decide))
      (fun y hy => hy.set_ne (by decide)) (settledIn_descriptorSet c.info hdirect set)
  obtain ⟨e, hat, harg⟩ := h.arg_at rfl (by simp [Arg.group]) (by simp [Arg.group]) hused hsettled
  have hloc : c.args.loc (.set set) = some (c.leadDwords + e) :=
    h.dword_at rfl rfl (by simp) (by simp) hat
  exact ⟨_, hloc, _, e, hat.forget, rfl, rfl, harg⟩

/-- A set with a location is passed directly. -/
theorem Frame.direct_of_some (h : c.Frame rest tail) {set d : Nat}
    (hset : c.args.descriptorSets set = some d) :
    c.userSgprs.indirectAllDescriptorSets = false := by
  cases hind : c.userSgprs.indirectAllDescriptorSets with
  | false => rfl
  | true => simp [h.descriptorSets_indirect hind] at hset

/-- Every published slot but the scratch table is an argument of the window. -/
theorem Frame.published_at (h : c.Frame rest tail) {a : Arg} {d : Nat}
    (hslot : (fillUserData c).slot a = some d) (hne : a ≠ .ringOffsets) :
    c.Stands rest a d := by
  cases a with
  | ringOffsets => exact absurd rfl hne
  | descriptors set =>
    simp only [UserData.slot, fillUserData] at hslot
    split at hslot
    · rename_i hvalid
      obtain ⟨d', hd', hstands⟩ := h.stands_direct (h.direct_of_some hslot) hvalid.2
      obtain rfl := Option.some.inj (hd'.symm.trans hslot)
      exact hstands
    · cases hslot
  | pushConstants =>
    obtain ⟨hvalid, rfl⟩ := publishIf_eq_some.mp hslot
    simp only [Bool.and_eq_true] at hvalid
    exact h.stands_ud (by decide) (by decide)
      (window_descriptor h.isRest rfl rfl (fun y hy => hy.ud_ne (by decide))
        (fun y hy => hy.ud_ne (by decide)) (settledIn_pushConstants ..)) hvalid.2
  | ps5RingTable =>
    obtain ⟨hused, rfl⟩ := publishIf_eq_some.mp hslot
    exact h.stands_ud (by decide) (by decide) (window_ringTable h.isRest) hused
  | nggLdsLayout =>
    obtain ⟨hvalid, rfl⟩ := publishIf_eq_some.mp hslot
    simp only [Bool.and_eq_true] at hvalid
    exact h.stands_ud (by decide) (by decide)
      (window_stage rfl rfl (by decide) (.inl (h.isRest.nggLdsLayout hvalid.1))) hvalid.2
  | vertexBuffers =>
    obtain ⟨hvalid, rfl⟩ := publishIf_eq_some.mp hslot
    simp only [Bool.and_eq_true] at hvalid
    exact h.stands_ud (by decide) (by decide)
      (window_vertex h.isRest hvalid.1.1 rfl rfl
        (settled_vertexBlock hvalid.1.1 (settledIn_vertexBuffers c.info))) hvalid.1.2
  | baseVertex =>
    obtain ⟨hvalid, rfl⟩ := publishIf_eq_some.mp hslot
    simp only [Bool.and_eq_true] at hvalid
    exact h.stands_baseVertex hvalid.1 hvalid.2
  | drawId =>
    obtain ⟨hvalid, rfl⟩ := publishIf_eq_some.mp hslot
    simp only [Bool.and_eq_true] at hvalid
    exact h.stands_baseVertexRelative hvalid.1.1 rfl rfl hvalid.2 (declaredOnce_drawId c.info)
  | startInstance =>
    obtain ⟨hvalid, rfl⟩ := publishIf_eq_some.mp hslot
    simp only [Bool.and_eq_true] at hvalid
    exact h.stands_baseVertexRelative hvalid.1 rfl rfl hvalid.2
      (declaredOnce_startInstance c.info)
  | viewIndex =>
    obtain ⟨hvalid, rfl⟩ := publishIf_eq_some.mp hslot
    simp only [Bool.and_eq_true, Bool.or_eq_true, beq_iff_eq] at hvalid
    exact h.stands_ud (by decide) (by decide)
      (window_stage rfl rfl (by decide) (h.isRest.viewIndex hvalid.1)) hvalid.2
  | streamoutBuffers =>
    obtain ⟨hvalid, rfl⟩ := publishIf_eq_some.mp hslot
    simp only [Bool.and_eq_true] at hvalid
    exact h.stands_ud (by decide) (by decide) (window_streamoutBuffers h.isRest) hvalid.1.2
  | _ => cases hslot

end Ps5Compile

end Psbc.Args
