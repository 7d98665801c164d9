import Psbc.Args.Window

/-!
# Overlapping slots

Two arguments of the window never share a dword. The scratch table is not always one: its
location is recorded before a merged stage starts its dwords again, so it is dwords 0 and 1
of a window whose first arguments have these dwords too. The slots of a compile are apart
exactly when it has no scratch table, keeps counting, or leaves its first two dwords to an
argument that is not published.
-/

namespace Psbc.Args

open Placement

/-- `args[arg.arg_index].size`. -/
def ShaderArgs.argSize (s : ShaderArgs) (a : Arg) : Nat := ((s.arg a).map (·.size)).getD 0

namespace Ps5Compile

variable {c : Ps5Compile} {rest tail : List ArgCall}

/-- No dword belongs to two published slots. -/
def SlotsApart (c : Ps5Compile) : Prop :=
  ∀ a b d e, a ≠ b → (fillUserData c).slot a = some d → (fillUserData c).slot b = some e →
    d + c.args.argSize a ≤ e ∨ e + c.args.argSize b ≤ d

/-! ## The scratch table -/

theorem Frame.ringOffsets (h : c.Frame rest tail) :
    c.args.arg .ringOffsets = some ⟨0, 2⟩ ∧ c.args.udDword Ud.scratchRingOffsets = 0 := by
  constructor
  · rw [h.arg_eq (by decide), run_arg_ne, c.lead_ringOffsets.1]
    intro y hy
    rcases window_inGroup h.isRest hy with ⟨g, hg, -, hy⟩ | rfl
    · exact hy.arg_ne hg.symm
    · decide
  · have hloc : c.args.shaderData Ud.scratchRingOffsets = some 0 := by
      rw [h.args_eq]
      exact run_shaderData_some (run_shaderData_some c.lead_ringOffsets.2)
    rw [ShaderArgs.udDword, hloc]
    rfl

theorem scratch_slot (h : c.Frame rest tail) {d : Nat}
    (hslot : (fillUserData c).slot .ringOffsets = some d) :
    c.scratchBytesPerWave ≠ 0 ∧ d = 0 ∧ c.args.argSize .ringOffsets = 2 := by
  obtain ⟨hvalid, rfl⟩ := publishIf_eq_some.mp hslot
  refine ⟨by simpa using hvalid, h.ringOffsets.2, ?_⟩
  simp [ShaderArgs.argSize, h.ringOffsets.1]

/-! ## Slots of the window -/

theorem Stands.argSize {a : Arg} {d : Nat} (h : c.Stands rest a d) :
    ∃ x e, At ArgCall.size (fun _ => False) (fun _ => False) (c.window rest) x e ∧
      x.arg = some a ∧ d = c.leadDwords + e ∧ c.args.argSize a = x.size := by
  obtain ⟨x, e, hat, hx, hd, harg⟩ := h
  exact ⟨x, e, hat, hx, hd, by simp [ShaderArgs.argSize, harg]⟩

theorem Stands.apart {a b : Arg} {d e : Nat} (ha : c.Stands rest a d) (hb : c.Stands rest b e)
    (hne : a ≠ b) : d + c.args.argSize a ≤ e ∨ e + c.args.argSize b ≤ d := by
  obtain ⟨x, i, hx, hxa, rfl, hsizeX⟩ := ha.argSize
  obtain ⟨y, j, hy, hyb, rfl, hsizeY⟩ := hb.argSize
  have hxy : x ≠ y := by
    rintro rfl
    exact hne (Option.some.inj (hxa.symm.trans hyb))
  have := hx.disjoint hy hxy
  omega

/-- A half compiled on its own has the prolog's inputs in its first two dwords. -/
theorem two_le_of_merged (hmerged : c.info.mergedShaderCompiledSeparately = true)
    {x : ArgCall} {e : Nat}
    (hat : At ArgCall.size (fun _ => False) (fun _ => False) (c.window rest) x e)
    (hx : x.arg ≠ some .prologInputs) : 2 ≤ e := by
  have hwindow : ∃ l, c.window rest = .addUdArg 2 .prologInputs Ud.vsPrologInputs :: l := by
    rw [window, vertexBlock, if_pos hmerged]
    exact ⟨_, rfl⟩
  obtain ⟨l, hl⟩ := hwindow
  rw [hl] at hat
  exact hat.size_head_le (by rintro rfl; exact hx rfl)

theorem two_le_dword (h : c.Frame rest tail) {a : Arg} {d : Nat} (hne : a ≠ .ringOffsets)
    (hslot : (fillUserData c).slot a = some d)
    (hfree : c.restarts = false ∨ c.info.mergedShaderCompiledSeparately = true) : 2 ≤ d := by
  obtain ⟨x, e, hat, hx, rfl, -⟩ := h.published_at hslot hne
  rcases hfree with hkeeps | hmerged
  · have := (c.leadDwords_of_keeps hkeeps).1
    omega
  · have := two_le_of_merged hmerged hat (by rw [hx]; rintro ⟨⟩; cases hslot)
    omega

/-! ## The first slot of a merged window -/

/-- A stage that publishes its vertex arguments has the base vertex in dword 0 or 1. -/
theorem baseVertex_low (h : c.Frame rest tail) (hrestarts : c.restarts = true)
    (hpublishes : publishesVertex c = true) (hdeclares : c.declaresVertex = true) :
    ∃ d ≤ 1, (fillUserData c).slot .baseVertex = some d ∧ c.args.argSize .baseVertex = 1 := by
  have hblock := vertexBlock_of_publishes hpublishes
  rw [if_pos hdeclares] at hblock
  have hat := (at_baseVertex c.info).append_right (behind_vertex h.isRest hpublishes rfl)
  rw [← hblock] at hat
  have hloc : c.args.loc (.ud Ud.vsBaseVertexStartInstance) = some (c.leadDwords + _) :=
    h.dword_at rfl rfl (by decide) (by decide) hat
  have hused := h.baseVertex_used hpublishes hdeclares
  have hzero := c.leadDwords_of_restarts hrestarts
  obtain ⟨_, -, harg⟩ := h.arg_at rfl (by decide) (by decide) hused (.inl ⟨_, hat⟩)
  refine ⟨_, ?_, publishIf_eq_some.mpr ⟨by simp [hpublishes, hused], rfl⟩, ?_⟩
  · rw [ShaderArgs.udDword, show c.args.shaderData Ud.vsBaseVertexStartInstance = _ from hloc,
      hzero, show c.info.vsHasProlog = false from rfl]
    simp only [Bool.false_eq_true, if_false, Option.getD_some]
    split <;> omega
  · rw [ShaderArgs.argSize, harg]
    rfl

/-- Without vertex arguments the ring table comes first. -/
theorem ringTable_low (h : c.Frame rest tail) (hrestarts : c.restarts = true)
    (hvertex : c.vertexBlock = []) (hreads : readsRingTable c.info = true) :
    (fillUserData c).slot .ps5RingTable = some 0 ∧ c.args.argSize .ps5RingTable = 2 := by
  have hwindow : ∃ l, c.window rest = .addUdArg 2 .ps5RingTable Ud.ps5RingTable :: l := by
    rw [window, hvertex, ringTableBlock, if_pos (by simp [hreads, ps5Key])]
    exact ⟨_, rfl⟩
  obtain ⟨l, hl⟩ := hwindow
  have hused := h.used_of_mem (x := .addUdArg 2 .ps5RingTable Ud.ps5RingTable) (by simp [hl]) rfl
    (by decide)
  obtain ⟨d, hat, harg⟩ := h.arg_at rfl (by decide) (by decide) hused (window_ringTable h.isRest)
  have hloc : c.args.loc (.ud Ud.ps5RingTable) = some (c.leadDwords + d) :=
    h.dword_at rfl rfl (by decide) (by decide) hat
  rw [hl] at hat
  rw [hat.head_eq_zero rfl, c.leadDwords_of_restarts hrestarts] at hloc
  refine ⟨publishIf_eq_some.mpr ⟨hused, ?_⟩, ?_⟩
  · rw [ShaderArgs.udDword, show c.args.shaderData Ud.ps5RingTable = _ from hloc]
    rfl
  · rw [ShaderArgs.argSize, harg]
    rfl

/-- A merged program with vertex arguments publishes them. -/
theorem publishesVertex_of_declares (hmerged : c.info.mergedShaderCompiledSeparately = false)
    (hdeclares : c.declaresVertex = true) : publishesVertex c = true := by
  rw [info_merged] at hmerged
  simp only [declaresVertex, Bool.or_eq_true, beq_iff_eq, Bool.and_eq_true] at hdeclares
  rcases hdeclares with (hs | hs) | ⟨hs, -⟩
  · simp [publishesVertex, hs]
  · have hhull : c.request.pairedHull = true := by simpa [unlinkedConsumer, hs] using hmerged
    simp [publishesVertex, hasVertexHalf, hs, show c.info.vsAsLs = true from hhull]
  · cases hngg : c.request.ngg with
    | true => simp [publishesVertex, hs, hngg]
    | false => simp [← info_merged, c.geometry_merged hs hngg] at hmerged

/-- A merged program without them reads the ring table. -/
theorem readsRingTable_of_not_declares (hrestarts : c.restarts = true)
    (hdeclares : c.declaresVertex = false) : readsRingTable c.info = true := by
  simp only [declaresVertex, Bool.or_eq_false_iff, beq_eq_false_iff_ne, ne_eq,
    Bool.and_eq_false_iff, Bool.not_eq_false'] at hdeclares
  have hstage : c.request.mesaStage = .tessEval ∨ c.request.mesaStage = .geometry := by
    simp only [restarts, Bool.or_eq_true, beq_iff_eq] at hrestarts
    rcases hrestarts with ((hngg | hs) | hs) | hs
    · rcases c.ngg_cases hngg with hs | hs | ⟨hs, -⟩
      · exact absurd hs hdeclares.1.1
      · exact .inl hs
      · exact .inr hs
    · exact absurd hs hdeclares.1.2
    · exact .inl hs
    · exact .inr hs
  rcases hstage with hs | hs
  · simp [readsRingTable, hs]
  · have htess : c.request.pairedTessGeometry = true := by
      rcases hdeclares.2 with hne | htess
      · exact absurd hs hne
      · exact htess
    simp [readsRingTable, hs, info, htess]

/-- A merged window always publishes a slot below dword 2. -/
theorem exists_low_slot (h : c.Frame rest tail) (hrestarts : c.restarts = true)
    (hmerged : c.info.mergedShaderCompiledSeparately = false) :
    ∃ a d, a ≠ .ringOffsets ∧ (fillUserData c).slot a = some d ∧ d ≤ 1 ∧
      0 < c.args.argSize a := by
  cases hdeclares : c.declaresVertex with
  | true =>
    have hpublishes := publishesVertex_of_declares hmerged hdeclares
    obtain ⟨d, hle, hslot, hsize⟩ := baseVertex_low h hrestarts hpublishes hdeclares
    exact ⟨_, d, by decide, hslot, hle, by omega⟩
  | false =>
    have hvertex : c.vertexBlock = [] := by simp [vertexBlock, hmerged, hdeclares]
    have hreads := readsRingTable_of_not_declares hrestarts hdeclares
    obtain ⟨hslot, hsize⟩ := ringTable_low h hrestarts hvertex hreads
    exact ⟨_, 0, by decide, hslot, by decide, by omega⟩

/-! ## When slots are apart -/

theorem scratch_apart (h : c.Frame rest tail) {a : Arg} {d e : Nat} (hne : a ≠ .ringOffsets)
    (hscratch : (fillUserData c).slot .ringOffsets = some d)
    (hslot : (fillUserData c).slot a = some e)
    (hcond : c.scratchBytesPerWave = 0 ∨ c.restarts = false ∨
      c.info.mergedShaderCompiledSeparately = true) :
    d + c.args.argSize .ringOffsets ≤ e := by
  obtain ⟨hbytes, rfl, hsize⟩ := scratch_slot h hscratch
  have := two_le_dword h hne hslot (hcond.resolve_left hbytes)
  omega

/-- The published slots are apart exactly when there is no scratch table, or it is counted
with the other slots, or the first two dwords hold no published slot. -/
theorem slotsApart_iff (c : Ps5Compile) :
    c.SlotsApart ↔ c.scratchBytesPerWave = 0 ∨ c.restarts = false ∨
      c.info.mergedShaderCompiledSeparately = true := by
  obtain ⟨rest, tail, h⟩ := c.exists_frame
  constructor
  · intro hapart
    by_contra hnone
    simp only [not_or, Bool.not_eq_false, Bool.not_eq_true] at hnone
    obtain ⟨a, d, hne, hslot, hle, hpos⟩ := exists_low_slot h hnone.2.1 hnone.2.2
    have hscratch : (fillUserData c).slot .ringOffsets = some 0 :=
      publishIf_eq_some.mpr ⟨by simpa using hnone.1, h.ringOffsets.2⟩
    have hsize := (scratch_slot h hscratch).2.2
    have := hapart _ _ _ _ hne hslot hscratch
    omega
  · intro hcond a b d e hne ha hb
    by_cases hra : a = .ringOffsets
    · subst hra
      exact .inl (scratch_apart h hne.symm ha hb hcond)
    · by_cases hrb : b = .ringOffsets
      · subst hrb
        exact .inr (scratch_apart h hne hb ha hcond)
      · exact (h.published_at ha hra).apart (h.published_at hb hrb) hne

/-- An NGG vertex stage whose program spills. -/
def spillingVertex : Ps5Compile where
  request := ⟨.ps5, .vertex, true, false, false⟩
  hasDescriptorBindings := false
  gathered := {}
  gfx := {}
  scratchBytesPerWave := 1024
  target_eq := rfl
  stage_supported := by decide
  pair_accepted := by decide
  ngg_accepted := by decide

/-- Its base vertex is published in the first dword of its scratch table. -/
theorem spillingVertex_overlap :
    (fillUserData spillingVertex).slot .ringOffsets = some 0 ∧
      spillingVertex.args.argSize .ringOffsets = 2 ∧
      (fillUserData spillingVertex).slot .baseVertex = some 0 ∧ ¬ spillingVertex.SlotsApart := by
  have hscratch : (fillUserData spillingVertex).slot .ringOffsets = some 0 := by decide +kernel
  have hsize : spillingVertex.args.argSize .ringOffsets = 2 := by decide +kernel
  have hbase : (fillUserData spillingVertex).slot .baseVertex = some 0 := by decide +kernel
  have hbaseSize : spillingVertex.args.argSize .baseVertex = 1 := by decide +kernel
  refine ⟨hscratch, hsize, hbase, fun hapart => ?_⟩
  have := hapart _ _ _ _ (by decide) hscratch hbase
  omega

end Ps5Compile

end Psbc.Args
