import Psbc.Ngg.GsMarks

/-!
# What the phases of an NGG geometry shader leave in the LDS

For each phase before the exports there is a lemma about a thread that runs alone, one about what
it touches, and one about the LDS afterwards: the flags after the culling, the counts of the waves
after the ballots, and the ids of the live vertices after the compaction.
-/

namespace Psbc.Ngg

open Atomic Gs

namespace NggGs

variable {D : Type} {c : NggGs D}

/-! ## Culling -/

section Culling

variable {cmds : Nat → List (Cmd D)} {m m' : LdsCell → LdsValue D} {t : Nat}

def HasOutputs (c : NggGs D) (cmds : Nat → List (Cmd D)) (m : LdsCell → LdsValue D) : Prop :=
  ∀ t v, c.vertexAt cmds t = some v → m (c.layout.outputs t 0) = .outputs v.1

def HasFlags (c : NggGs D) (flags : Nat → BitVec 32) (m : LdsCell → LdsValue D) : Prop :=
  ∀ t < c.maxVtxcnt, (m (c.layout.primflag t 0)).toByte.setWidth 32 = flags t

theorem hasOutputs_of_emitted
    (h : c.layout.Emitted (!c.culls) cmds c.numGsThreads m) : c.HasOutputs cmds m := by
  intro t v hv
  have ht := lt_of_vertexAt hv
  rw [vertexAt, if_pos ht] at hv
  rw [← Nat.div_add_mod' t c.layout.info.verticesOut]
  exact h.outputs (Nat.div_lt_of_lt_mul (Nat.lt_of_lt_of_eq ht (Nat.mul_comm _ _))) hv

theorem hasFlags_of_emitted
    (h : c.layout.Emitted (!c.culls) cmds c.numGsThreads m) :
    c.HasFlags (c.flagAt cmds) m := by
  intro t ht
  obtain ⟨hg, hmod⟩ := div_lt_and_mod_lt ht
  have hflags := h.flags hg hmod
  rw [Nat.div_add_mod'] at hflags
  rw [hflags, flagAt, vertexAt, if_pos ht]
  rfl

theorem run_loadOutVtxPrimflag {flags : Nat → BitVec 32} (hm : c.HasFlags flags m)
    (hout : c.maxVtxcnt ≤ t → flags t = 0) :
    (c.loadOutVtxPrimflag t).run m = (flags t, m) := by
  unfold loadOutVtxPrimflag
  split
  next ht => simp [hm t ht]
  next ht => rw [hout (Nat.not_lt.mp ht)]; rfl

theorem touches_loadOutVtxPrimflag {x : LdsCell}
    (h : (c.loadOutVtxPrimflag t).Touches x m) : x = c.layout.primflag t 0 := by
  unfold loadOutVtxPrimflag at h
  split at h
  · rcases h with rfl | h
    · rfl
    · exact h.elim
  · exact h.elim

theorem not_stores_loadOutVtxPrimflag {x : LdsCell} :
    ¬(c.loadOutVtxPrimflag t).Stores x m := by
  unfold loadOutVtxPrimflag
  split <;> simp [Prog.Stores]

theorem flagAt_bit1 {v : D × Nat} (hv : c.vertexAt cmds t = some v)
    (hc : completes c.prim v.2 = true) (htri : c.prim = .triangleStrip) :
    (c.flagAt cmds t).getLsbD 1 = decide (v.2 % 2 = 1) := by
  rw [flagAt, hv]
  exact GsLayout.vertexFlags_bit1 _ _ htri hc

theorem loaded_vertices {v : D × Nat} (hm : c.HasOutputs cmds m)
    (hv : c.vertexAt cmds t = some v) (hc : completes c.prim v.2 = true) :
    (((c.outPrimAllVtx t (c.flagAt cmds t)).map (c.layout.outputs · 0)).map m).filterMap
        LdsValue.toOutputs =
      orient c.prim false v.2 (window c.prim
        ((c.layout.places (cmds (t / c.layout.info.verticesOut))).map (·.1))
        (t % c.layout.info.verticesOut)) := by
  have ht := lt_of_vertexAt hv
  have hbyte := c.maxVtxcnt_le_byte
  have hmod : t % c.layout.info.verticesOut ≤ t := Nat.mod_le _ _
  have hle := vertices_le_mod hv hc
  have hvertices := map_some_window_places hv hc
  have hloaded : (((c.outPrimAllVtx t (c.flagAt cmds t)).map (c.layout.outputs · 0)).map m).map
      LdsValue.toOutputs = (orient c.prim false v.2 (window c.prim
        ((c.layout.places (cmds (t / c.layout.info.verticesOut))).map (·.1))
        (t % c.layout.info.verticesOut))).map some := by
    rw [outPrimAllVtx_eq (Nat.lt_of_lt_of_le ht hbyte) (by omega) (flagAt_bit1 hv hc), map_orient,
      map_orient, map_orient, map_orient, hvertices]
    simp only [List.map_map]
    congr 1
    refine List.map_congr_left fun j hj => ?_
    have hj := List.mem_range.mp hj
    obtain ⟨v', hv'⟩ := exists_vertexAt_sub hv hc (by omega : c.prim.vertices - 1 - j < _)
    rw [show t - (c.prim.vertices - 1 - j) = t + 1 - c.prim.vertices + j by omega] at hv'
    simp only [Function.comp_apply, hm _ _ hv', hv']
    rfl
  have := congrArg (List.filterMap id) hloaded
  simpa [List.filterMap_map, Function.comp_def] using this

theorem run_cullPrimitive (hflags : c.HasFlags (c.flagAt cmds) m) (houtputs : c.HasOutputs cmds m)
    (hcull : c.culls = true) :
    ((c.cullPrimitive t).run m).1 = c.culledAt cmds t ∧
      (((c.cullPrimitive t).run m).2 (c.layout.primflag t 0) = m (c.layout.primflag t 0) ∧
          c.culledAt cmds t = c.flagAt cmds t ∨
        ((c.cullPrimitive t).run m).2 (c.layout.primflag t 0) = .byte 0 ∧
          c.culledAt cmds t = 0) := by
  unfold cullPrimitive
  rw [Prog.run_bind, run_loadOutVtxPrimflag hflags flagAt_of_le]
  dsimp only
  split
  next h =>
    rw [Bool.and_eq_true, flagAt_bit0, Option.any_eq_true, decide_eq_true_eq] at h
    obtain ⟨⟨v, hv, hc⟩, ht⟩ := h
    have hbit : (c.flagAt cmds t).getLsbD 0 = true := by
      rw [flagAt_bit0, hv]
      exact hc
    have hsome := primAt_isSome hv hc
    rw [accepts, hcull, Bool.not_true, Bool.false_or, ← loaded_vertices houtputs hv hc] at hsome
    have hculled : c.culledAt cmds t =
        if (c.primAt cmds t).isSome then c.flagAt cmds t else 0 := by
      rw [culledAt, hbit, Bool.true_and]
      cases c.primAt cmds t <;> rfl
    rw [Prog.run_bind, Prog.run_loadAll]
    dsimp only
    rw [← hsome]
    split
    next hsome => rw [hsome, if_pos rfl] at hculled; exact ⟨hculled.symm, .inl ⟨rfl, hculled⟩⟩
    next hnone =>
      rw [if_neg hnone] at hculled
      exact ⟨hculled.symm, .inr ⟨Function.update_self _ _ _, hculled⟩⟩
  next h =>
    have hculled : c.culledAt cmds t = c.flagAt cmds t := by
      unfold culledAt
      split
      next hbit =>
        rw [Bool.and_eq_true] at hbit
        rcases Nat.lt_or_ge t c.maxVtxcnt with ht | ht
        · exact absurd (by rw [hbit.1, decide_eq_true ht]; rfl) h
        · rw [flagAt_of_le ht] at hbit
          exact absurd hbit.1 (by decide)
      next => rfl
    exact ⟨hculled.symm, .inl ⟨rfl, hculled⟩⟩

theorem touches_cullPrimitive {x : LdsCell} (h : (c.cullPrimitive t).Touches x m) :
    x = c.layout.primflag t 0 ∨ ∃ i, x = c.layout.outputs i 0 := by
  unfold cullPrimitive at h
  rw [Prog.touches_bind] at h
  rcases h with h | h
  · exact .inl (touches_loadOutVtxPrimflag h)
  · split at h
    · rw [Prog.touches_bind, Prog.touches_loadAll] at h
      rcases h with h | h
      · obtain ⟨i, _, rfl⟩ := List.mem_map.mp h
        exact .inr ⟨i, rfl⟩
      · split at h
        · exact h.elim
        · rcases h with rfl | h
          · exact .inl rfl
          · exact h.elim
    · exact h.elim

theorem stores_cullPrimitive {x : LdsCell} (h : (c.cullPrimitive t).Stores x m) :
    x = c.layout.primflag t 0 := by
  unfold cullPrimitive at h
  rw [Prog.stores_bind] at h
  rcases h with h | h
  · exact absurd h not_stores_loadOutVtxPrimflag
  · split at h
    · rw [Prog.stores_bind] at h
      rcases h with h | h
      · exact absurd h Prog.stores_loadAll
      · split at h
        · exact h.elim
        · rcases h with ⟨rfl, _⟩ | h
          · rfl
          · exact h.elim
    · exact h.elim

theorem raceFree_cullThread :
    RaceFree (fun tid : Fin c.workgroupSize => c.cullThread tid) m := by
  intro i j hne x htouch hstore
  unfold cullThread at htouch hstore
  split at htouch
  next hcull =>
    have hx := stores_cullPrimitive (t := j) (m := m) (by simpa only [if_pos hcull] using hstore)
    rcases touches_cullPrimitive htouch with h | ⟨k, h⟩
    · exact hne (Fin.ext (GsLayout.primflag_inj (by decide) (by decide) (h.symm.trans hx)).1)
    · exact GsLayout.primflag_ne_outputs (hx.symm.trans h)
  next => exact htouch.elim

theorem touches_primflag_cullPrimitive (ht : t < c.maxVtxcnt) :
    (c.cullPrimitive t).Touches (c.layout.primflag t 0) m := by
  unfold cullPrimitive
  rw [Prog.touches_bind]
  refine .inl ?_
  rw [loadOutVtxPrimflag, if_pos ht]
  exact .inl rfl

theorem culled_of_phase {culled : Fin c.workgroupSize → BitVec 32}
    (h : Phase (fun tid : Fin c.workgroupSize => c.cullThread tid) m culled m')
    (hflags : c.HasFlags (c.flagAt cmds) m) (houtputs : c.HasOutputs cmds m) :
    c.HasFlags (c.culledAt cmds) m' ∧ c.HasOutputs cmds m' ∧
      (c.culls = true → ∀ t, culled t = c.culledAt cmds t) := by
  have houtputs' : c.HasOutputs cmds m' := by
    intro t v hv
    rw [h.frame raceFree_cullThread fun i hstore => ?_, houtputs t v hv]
    unfold cullThread at hstore
    split at hstore
    · exact GsLayout.primflag_ne_outputs (stores_cullPrimitive hstore).symm
    · exact hstore
  refine ⟨fun t ht => ?_, houtputs', fun hcull t => ?_⟩
  · cases hcull : c.culls with
    | true =>
      have htid : t < c.workgroupSize := Nat.lt_of_lt_of_le ht c.maxVtxcnt_le
      have hthread : c.cullThread t = c.cullPrimitive t := if_pos hcull
      rw [h.mem_eq raceFree_cullThread (i := ⟨t, htid⟩)
        (by rw [hthread]; exact touches_primflag_cullPrimitive ht), hthread]
      rcases (run_cullPrimitive hflags houtputs hcull).2 with ⟨hmem, hculled⟩ | ⟨hmem, hculled⟩
      · rw [hmem, hflags t ht, hculled]
      · rw [hmem, hculled]
        rfl
    | false =>
      have hthread : ∀ t, c.cullThread t = .ret 0 := fun t => if_neg (by rw [hcull]; decide)
      rw [h.frame raceFree_cullThread fun i hstore => ?_, hflags t ht,
        culledAt_of_not_culls hcull]
      rw [hthread] at hstore
      exact hstore
  · rw [h.out_eq raceFree_cullThread t, show c.cullThread t = c.cullPrimitive t from if_pos hcull]
    exact (run_cullPrimitive hflags houtputs hcull).1

end Culling

/-! ## Ballots -/

section Ballots

variable {cmds : Nat → List (Cmd D)} {m m' : LdsCell → LdsValue D} {t : Nat}

theorem foldl_or_four (flags : List (LdsValue D)) (primflag : BitVec 32) :
    flags.foldl (fun primflag v =>
        primflag ||| if (v.toByte.setWidth 32).getLsbD 0 then 0b100 else 0) primflag =
      primflag ||| if flags.any fun v => (v.toByte.setWidth 32).getLsbD 0 then 0b100 else 0 := by
  induction flags generalizing primflag with
  | nil => simp
  | cons v flags ih =>
    rw [List.foldl_cons, ih, List.any_cons, BitVec.or_assoc]
    congr 1
    generalize (v.toByte.setWidth 32).getLsbD 0 = here
    generalize (flags.any fun v => (v.toByte.setWidth 32).getLsbD 0) = later
    cases here <;> cases later <;> decide

theorem run_updatedPrimflag (hflags : c.HasFlags (c.culledAt cmds) m) {culled : BitVec 32}
    (hculled : c.culls = true → culled = c.culledAt cmds t) :
    (c.updatedPrimflag t culled).run m = (c.liveAt cmds t, m) := by
  unfold updatedPrimflag liveAt
  cases hcull : c.culls with
  | false =>
    rw [if_neg (by decide), Bool.false_and, Bool.false_and, if_neg (by decide)]
    exact run_loadOutVtxPrimflag hflags culledAt_of_le
  | true =>
    obtain rfl := hculled hcull
    rw [if_pos rfl, Bool.true_and, revive]
    split
    next hdead =>
      obtain ⟨hzero, ht⟩ := hdead
      rw [Prog.run_bind, Prog.run_loadAll, decide_eq_true hzero, Bool.true_and]
      dsimp only
      rw [foldl_or_four, hzero]
      have hany : (((((List.range' (t + 1) (c.numVerticesPerPrimitive - 1)).filter
          (· < c.maxVtxcnt)).map (c.layout.primflag · 0)).map m).any fun v =>
            (v.toByte.setWidth 32).getLsbD 0) =
          (List.range' (t + 1) (c.numVerticesPerPrimitive - 1)).any fun i =>
            decide (i < c.maxVtxcnt) && (c.culledAt cmds i).getLsbD 0 := by
        rw [List.any_map, List.any_map, List.any_filter]
        refine List.any_congr rfl fun i => ?_
        by_cases hi : i < c.maxVtxcnt
        · simp only [Function.comp_apply, hflags i hi]
        · simp [hi]
      rw [hany]
      split <;> simp
    next hlive =>
      have hno : (decide (c.culledAt cmds t = 0) &&
          (List.range' (t + 1) (c.numVerticesPerPrimitive - 1)).any fun i =>
            decide (i < c.maxVtxcnt) && (c.culledAt cmds i).getLsbD 0) = false := by
        rw [Bool.and_eq_false_iff, decide_eq_false_iff_not]
        by_cases hzero : c.culledAt cmds t = 0
        · right
          have ht : c.maxVtxcnt ≤ t := Nat.not_lt.mp fun ht => hlive ⟨hzero, ht⟩
          rw [List.any_eq_false]
          intro i hi
          have := (List.mem_range'_1.mp hi).1
          simp [Nat.not_lt.mpr (by omega : c.maxVtxcnt ≤ i)]
        · exact .inl hzero
      rw [hno, if_neg (by decide)]
      rfl

theorem touches_updatedPrimflag {culled : BitVec 32} {x : LdsCell}
    (h : (c.updatedPrimflag t culled).Touches x m) : ∃ i, x = c.layout.primflag i 0 := by
  unfold updatedPrimflag revive at h
  split at h
  · split at h
    · rw [Prog.touches_bind, Prog.touches_loadAll] at h
      rcases h with h | h
      · obtain ⟨i, _, rfl⟩ := List.mem_map.mp h
        exact ⟨i, rfl⟩
      · exact h.elim
    · exact h.elim
  · exact ⟨t, touches_loadOutVtxPrimflag h⟩

theorem not_stores_updatedPrimflag {culled : BitVec 32} {x : LdsCell} :
    ¬(c.updatedPrimflag t culled).Stores x m := by
  unfold updatedPrimflag revive
  split
  · split
    · rw [Prog.stores_bind]
      rintro (h | h)
      · exact Prog.stores_loadAll h
      · exact h
    · exact id
  · exact not_stores_loadOutVtxPrimflag

/-- The counts of the repack are not among the records. -/
theorem scratch_ne_primflag {a i s : Nat} (ha : a < c.layout.ldsScratchSize) :
    LdsCell.byte (c.layout.ldsAddrGsOutVtx + a) ≠ c.layout.primflag i s := by
  intro h
  have haddr := LdsCell.byte.inj h
  unfold GsLayout.outVertexAddr at haddr
  omega

theorem wave_lt_scratch {wave : Nat} (hw : wave < c.numWaves) :
    wave < c.layout.ldsScratchSize := by
  have := c.numWaves_le
  unfold GsLayout.ldsScratchSize
  omega

theorem rowAddr_repack (a : Nat) : c.repack.rowAddr 0 + a = c.layout.ldsAddrGsOutVtx + a := by
  rw [Repack.rowAddr, Nat.zero_mul, Nat.add_zero]
  rfl

theorem cell_of_mem_stores {wave : Nat} {mask : Nat → Nat → Bool} {x : LdsCell}
    (h : x ∈ (c.repack.stores (ldsBytes D) wave mask).map (·.1)) :
    x = .byte (c.layout.ldsAddrGsOutVtx + wave) := by
  obtain ⟨w, hw, rfl⟩ := List.mem_map.mp h
  obtain ⟨_, i, hi, rfl⟩ := (Repack.mem_stores _).mp hw
  obtain rfl : i = 0 := Nat.lt_one_iff.mp hi
  exact congrArg LdsCell.byte (rowAddr_repack wave)

def waveFlags (c : NggGs D) (cmds : Nat → List (Cmd D)) (wave : Nat) : List (BitVec 32) :=
  (List.range c.waveSize).map fun lane => c.liveAt cmds (wave * c.waveSize + lane)

theorem liveMask_waveFlags (c : NggGs D) (cmds : Nat → List (Cmd D)) (wave i : Nat) :
    ∀ lane < c.repack.waveSize, liveMask (c.waveFlags cmds wave) i lane =
      c.repack.ballot (c.survives cmds) wave i lane := by
  intro lane hlane
  have hget : (c.waveFlags cmds wave).getD lane 0 = c.liveAt cmds (wave * c.waveSize + lane) := by
    simp [waveFlags, List.getD_eq_getElem?_getD, show lane < c.waveSize from hlane]
  rw [liveMask, hget]
  rfl

section Wave

variable {culled : Nat → BitVec 32} {wave : Nat} (hflags : c.HasFlags (c.culledAt cmds) m)
  (hculled : c.culls = true →
    ∀ lane < c.waveSize,
      culled (wave * c.waveSize + lane) = c.culledAt cmds (wave * c.waveSize + lane))
include hflags hculled

theorem run_lane {lane : Nat} (hlane : lane < c.waveSize) :
    (c.updatedPrimflag (wave * c.waveSize + lane) (culled (wave * c.waveSize + lane))).run m =
      (c.liveAt cmds (wave * c.waveSize + lane), m) :=
  run_updatedPrimflag hflags fun hcull => hculled hcull lane hlane

theorem run_lanes :
    (Prog.each (fun lane => c.updatedPrimflag (wave * c.waveSize + lane)
      (culled (wave * c.waveSize + lane))) c.waveSize).run m = (c.waveFlags cmds wave, m) := by
  rw [Prog.run_each fun lane hlane => by rw [run_lane hflags hculled hlane]]
  refine congrArg (·, m) (List.map_congr_left fun lane hlane => ?_)
  rw [run_lane hflags hculled (List.mem_range.mp hlane)]

theorem run_ballotWave :
    (c.ballotWave wave culled).run m = (c.waveFlags cmds wave,
      Prog.written m (c.repack.stores (ldsBytes D) wave (liveMask (c.waveFlags cmds wave)))) := by
  rw [ballotWave, Prog.run_bind, run_lanes hflags hculled]
  dsimp only
  rw [Prog.run_bind, Prog.run_storeAll]
  rfl

theorem touches_ballotWave {x : LdsCell} (h : (c.ballotWave wave culled).Touches x m) :
    (∃ i, x = c.layout.primflag i 0) ∨ x = .byte (c.layout.ldsAddrGsOutVtx + wave) := by
  have hkeep : ∀ lane < c.waveSize, ((c.updatedPrimflag (wave * c.waveSize + lane)
      (culled (wave * c.waveSize + lane))).run m).2 = m := fun lane hlane => by
    rw [run_lane hflags hculled hlane]
  rw [ballotWave, Prog.touches_bind, Prog.touches_each hkeep, Prog.touches_bind,
    Prog.touches_storeAll] at h
  rcases h with ⟨lane, _, h⟩ | h | h
  · exact .inl (touches_updatedPrimflag h)
  · exact .inr (cell_of_mem_stores h)
  · exact h.elim

theorem touches_ballotWave_of_mem {x : LdsCell}
    (h : x ∈ (c.repack.stores (ldsBytes D) wave
      (liveMask (c.waveFlags cmds wave))).map (·.1)) : (c.ballotWave wave culled).Touches x m := by
  rw [ballotWave, Prog.touches_bind, run_lanes hflags hculled, Prog.touches_bind,
    Prog.touches_storeAll]
  exact .inr (.inl h)

theorem stores_ballotWave {x : LdsCell} (h : (c.ballotWave wave culled).Stores x m) :
    x = .byte (c.layout.ldsAddrGsOutVtx + wave) := by
  have hkeep : ∀ lane < c.waveSize, ((c.updatedPrimflag (wave * c.waveSize + lane)
      (culled (wave * c.waveSize + lane))).run m).2 = m := fun lane hlane => by
    rw [run_lane hflags hculled hlane]
  rw [ballotWave, Prog.stores_bind, Prog.stores_bind] at h
  rcases h with h | h | h
  · exact absurd h (Prog.not_stores_each hkeep fun _ _ => not_stores_updatedPrimflag)
  · exact cell_of_mem_stores (Prog.mem_of_stores_storeAll h)
  · exact h.elim

end Wave

def HasCounts (c : NggGs D) (cmds : Nat → List (Cmd D)) (m : LdsCell → LdsValue D) : Prop :=
  c.layout.maxNumWaves ≠ 1 → ∀ wave < c.numWaves,
    m (.byte (c.layout.ldsAddrGsOutVtx + wave)) =
      .byte ((c.repack.survivors (c.repack.ballot (c.survives cmds) wave) 0).setWidth 8)

theorem balloted_of_phase {culled : Fin c.workgroupSize → BitVec 32}
    {primflags : Fin c.numWaves → List (BitVec 32)}
    (h : Phase (fun wave : Fin c.numWaves => c.ballotWave wave (byId culled 0)) m primflags m')
    (hflags : c.HasFlags (c.culledAt cmds) m) (houtputs : c.HasOutputs cmds m)
    (hculled : c.culls = true → ∀ t, culled t = c.culledAt cmds t) :
    (∀ wave, primflags wave = c.waveFlags cmds wave) ∧ c.HasCounts cmds m' ∧
      c.HasOutputs cmds m' := by
  have hwave : ∀ wave : Fin c.numWaves, c.culls = true → ∀ lane < c.waveSize,
      byId culled 0 (wave * c.waveSize + lane) = c.culledAt cmds (wave * c.waveSize + lane) := by
    intro wave hcull lane hlane
    have hlt : wave * c.waveSize + lane < c.workgroupSize := by
      have : (wave + 1) * c.waveSize ≤ c.numWaves * c.waveSize :=
        Nat.mul_le_mul_right _ wave.isLt
      rw [Nat.succ_mul] at this
      unfold workgroupSize
      omega
    rw [byId, dif_pos hlt, hculled hcull]
  have hrace : RaceFree (fun wave : Fin c.numWaves => c.ballotWave wave (byId culled 0)) m := by
    intro i j hne x htouch hstore
    have hx := stores_ballotWave hflags (hwave j) hstore
    rcases touches_ballotWave hflags (hwave i) htouch with ⟨k, h⟩ | h
    · exact scratch_ne_primflag (wave_lt_scratch j.isLt) (hx.symm.trans h)
    · exact hne (Fin.ext (Nat.add_left_cancel (LdsCell.byte.inj (h.symm.trans hx))))
  refine ⟨fun wave => ?_, fun hone wave hw => ?_, fun t v hv => ?_⟩
  · rw [h.out_eq hrace wave, run_ballotWave hflags (hwave wave)]
  · have hmem : (LdsCell.byte (c.layout.ldsAddrGsOutVtx + wave), LdsValue.byte
        ((c.repack.survivors (c.repack.ballot (c.survives cmds) wave) 0).setWidth 8)) ∈
        c.repack.stores (ldsBytes D) wave (liveMask (c.waveFlags cmds wave)) := by
      rw [Repack.mem_stores]
      refine ⟨hone, 0, Nat.one_pos, ?_⟩
      rw [Repack.survivors_congr (liveMask_waveFlags c cmds wave 0), rowAddr_repack]
      rfl
    rw [h.mem_eq hrace (i := ⟨wave, hw⟩) (touches_ballotWave_of_mem hflags (hwave ⟨wave, hw⟩)
      (List.mem_map_of_mem hmem)), run_ballotWave hflags (hwave ⟨wave, hw⟩)]
    exact Prog.written_of_mem (Repack.nodup_stores _ hw _) hmem
  · rw [h.frame hrace fun wave hstore => ?_, houtputs t v hv]
    exact nomatch (stores_ballotWave hflags (hwave wave) hstore)

end Ballots

/-! ## Compaction -/

section Compaction

variable {cmds : Nat → List (Cmd D)} {m m' : LdsCell → LdsValue D}

/-- The number of a thread's vertex among the live ones. -/
def rankAt (c : NggGs D) (cmds : Nat → List (Cmd D)) (t : Nat) : Nat :=
  Repack.rank (c.survives cmds) 0 t

/-- The result of the repack in a wave. -/
structure Ranked (c : NggGs D) (cmds : Nat → List (Cmd D)) (wave : Nat) (rep : WgRepackResult) :
    Prop where
  num : rep.numRepackedInvocations.toNat = c.rankAt cmds c.workgroupSize
  index : ∀ lane < c.waveSize,
    (rep.repackedInvocationIndex lane).toNat = c.rankAt cmds (wave * c.waveSize + lane)

section Wave

variable {wave : Nat} (hw : wave < c.numWaves) (hcounts : c.HasCounts cmds m)
  (undef : Nat → Nat → BitVec 32)
include hw hcounts

theorem ranked_result :
    c.Ranked cmds wave (c.repack.result wave (liveMask (c.waveFlags cmds wave))
      (((c.repack.loads (ldsBytes D)).map m).map LdsValue.toByte) undef 0) := by
  have hloaded : c.repack.maxNumWaves ≠ 1 → c.repack.Loaded (c.survives cmds)
      (((c.repack.loads (ldsBytes D)).map m).map LdsValue.toByte) := fun hone =>
    Repack.loaded_of_mem _ (ldsBytes D) (fun {i j} hi hj => by
      obtain rfl : i = 0 := Nat.lt_one_iff.mp hi
      rw [rowAddr_repack]
      exact hcounts hone j hj) hone
  obtain ⟨hnum, hindex⟩ := Repack.result_congr (liveMask_waveFlags c cmds wave 0) wave
    (((c.repack.loads (ldsBytes D)).map m).map LdsValue.toByte) undef
  obtain ⟨hnum', hindex'⟩ := Repack.result_eq (c.survives cmds) hloaded undef hw Nat.one_pos
  exact ⟨hnum ▸ hnum', fun lane hlane => (congrArg (·.toNat) (hindex lane hlane)).trans
    (hindex' lane hlane)⟩

theorem run_compactWave :
    ∃ rep, c.Ranked cmds wave rep ∧
      (c.compactWave wave (c.waveFlags cmds wave) undef).run m =
        (rep, Prog.written m (c.compactionStores wave (c.waveFlags cmds wave) rep)) ∧
      (∀ x, (c.compactWave wave (c.waveFlags cmds wave) undef).Touches x m ↔
        x ∈ c.repack.loads (ldsBytes D) ∨
          x ∈ ((c.compactionStores wave (c.waveFlags cmds wave) rep :
            List (LdsCell × LdsValue D))).map (·.1)) ∧
      ∀ x, (c.compactWave wave (c.waveFlags cmds wave) undef).Stores x m →
        x ∈ ((c.compactionStores wave (c.waveFlags cmds wave) rep :
          List (LdsCell × LdsValue D))).map (·.1) := by
  refine ⟨_, ranked_result hw hcounts undef, ?_, fun x => ?_, fun x hx => ?_⟩
  · rw [compactWave, Prog.run_bind, Prog.run_loadAll]
    dsimp only
    rw [Prog.run_bind, Prog.run_storeAll]
    rfl
  · rw [compactWave, Prog.touches_bind, Prog.touches_loadAll, Prog.run_loadAll, Prog.touches_bind,
      Prog.touches_storeAll]
    simp only [Prog.Touches, or_false]
  · rw [compactWave, Prog.stores_bind, Prog.run_loadAll, Prog.stores_bind] at hx
    rcases hx with hx | hx | hx
    · exact absurd hx Prog.stores_loadAll
    · exact Prog.mem_of_stores_storeAll hx
    · exact hx.elim

end Wave

theorem mem_compactionStores {wave : Nat} {rep : WgRepackResult} (hrep : c.Ranked cmds wave rep)
    {w : LdsCell × LdsValue D} :
    w ∈ c.compactionStores wave (c.waveFlags cmds wave) rep ↔
      ∃ lane < c.waveSize, c.survives cmds 0 (wave * c.waveSize + lane) = true ∧
        w = (c.layout.primflag (c.rankAt cmds (wave * c.waveSize + lane)) 1,
          .byte (BitVec.ofNat 8 (wave * c.waveSize + lane))) := by
  rw [compactionStores, List.mem_map]
  constructor
  · rintro ⟨lane, hlane, rfl⟩
    rw [List.mem_filter, List.mem_range] at hlane
    obtain ⟨hlt, hlive⟩ := hlane
    rw [liveMask_waveFlags c cmds wave 0 lane hlt] at hlive
    exact ⟨lane, hlt, hlive, by rw [hrep.index lane hlt]⟩
  · rintro ⟨lane, hlt, hlive, rfl⟩
    refine ⟨lane, ?_, by rw [hrep.index lane hlt]⟩
    rw [List.mem_filter, List.mem_range, liveMask_waveFlags c cmds wave 0 lane hlt]
    exact ⟨hlt, hlive⟩

theorem nodup_compactionStores {wave : Nat} {rep : WgRepackResult}
    (hrep : c.Ranked cmds wave rep) :
    ((c.compactionStores wave (c.waveFlags cmds wave) rep :
      List (LdsCell × LdsValue D)).map (·.1)).Nodup := by
  rw [compactionStores, List.map_map]
  refine List.Nodup.map_on (fun a ha b hb heq => ?_) (List.nodup_range.filter _)
  rw [List.mem_filter, List.mem_range] at ha hb
  obtain ⟨ha, halive⟩ := ha
  obtain ⟨hb, hblive⟩ := hb
  rw [liveMask_waveFlags c cmds wave 0 a ha] at halive
  rw [liveMask_waveFlags c cmds wave 0 b hb] at hblive
  have hrank := (GsLayout.primflag_inj (by decide) (by decide) heq).1
  rw [hrep.index a ha, hrep.index b hb] at hrank
  exact Nat.add_left_cancel (Repack.rank_inj _ halive hblive hrank)

theorem cell_of_mem_loads {x : LdsCell} (h : x ∈ c.repack.loads (ldsBytes D)) :
    ∃ a < c.layout.ldsScratchSize, x = .byte (c.layout.ldsAddrGsOutVtx + a) := by
  unfold Repack.loads at h
  split at h
  · cases h
  · obtain ⟨i, hi, h⟩ := List.mem_flatMap.mp h
    obtain ⟨a, ha, rfl⟩ := List.mem_map.mp h
    obtain rfl : i = 0 := Nat.lt_one_iff.mp (List.mem_range.mp hi)
    exact ⟨a, List.mem_range.mp ha, congrArg LdsCell.byte (rowAddr_repack a)⟩

theorem lane_inj {i j a b : Nat} (ha : a < c.waveSize) (hb : b < c.waveSize)
    (h : i * c.waveSize + a = j * c.waveSize + b) : i = j := (GsLayout.vertex_inj ha hb h).1

/-- The LDS says where the vertices to export are. -/
def HasExporters (c : NggGs D) (cmds : Nat → List (Cmd D)) (m : LdsCell → LdsValue D) : Prop :=
  ∀ t < c.workgroupSize, c.survives cmds 0 t = true →
    m (c.layout.primflag (c.rankAt cmds t) 1) = .byte (BitVec.ofNat 8 t)

theorem compacted_of_phase {primflags : Fin c.numWaves → List (BitVec 32)}
    {undef : Nat → Nat → Nat → BitVec 32} {rep : Fin c.numWaves → WgRepackResult}
    (h : Phase (fun wave : Fin c.numWaves =>
      c.compactWave wave (primflags wave) (undef wave)) m rep m')
    (hflags : ∀ wave, primflags wave = c.waveFlags cmds wave) (hcounts : c.HasCounts cmds m)
    (houtputs : c.HasOutputs cmds m) :
    (∀ wave : Fin c.numWaves, c.Ranked cmds wave (rep wave)) ∧ c.HasExporters cmds m' ∧
      c.HasOutputs cmds m' := by
  simp only [hflags] at h
  have hrun := fun wave : Fin c.numWaves => run_compactWave wave.isLt hcounts (undef wave)
  have hrace : RaceFree (fun wave : Fin c.numWaves =>
      c.compactWave wave (c.waveFlags cmds wave) (undef wave)) m := by
    intro i j hne x htouch hstore
    obtain ⟨repi, hrepi, _, htouches, _⟩ := hrun i
    obtain ⟨repj, hrepj, _, _, hstores⟩ := hrun j
    obtain ⟨w, hw, rfl⟩ := List.mem_map.mp (hstores x hstore)
    obtain ⟨b, hb, hblive, rfl⟩ := (mem_compactionStores hrepj).mp hw
    rcases (htouches _).mp htouch with hload | hmem
    · obtain ⟨a, ha, heq⟩ := cell_of_mem_loads hload
      exact scratch_ne_primflag ha heq.symm
    · obtain ⟨w, hw, heq⟩ := List.mem_map.mp hmem
      obtain ⟨a, ha, halive, rfl⟩ := (mem_compactionStores hrepi).mp hw
      have hrank := (GsLayout.primflag_inj (by decide) (by decide) heq).1
      exact hne (Fin.ext (lane_inj ha hb (Repack.rank_inj _ halive hblive hrank)))
  refine ⟨fun wave => ?_, fun t ht hlive => ?_, fun t v hv => ?_⟩
  · obtain ⟨repw, hrepw, hrunw, _⟩ := hrun wave
    rw [h.out_eq hrace wave, hrunw]
    exact hrepw
  · have hsize : 0 < c.waveSize := by rcases c.waveSize_eq with h | h <;> omega
    have hwave : t / c.waveSize < c.numWaves :=
      Nat.div_lt_of_lt_mul (Nat.lt_of_lt_of_eq ht (Nat.mul_comm _ _))
    obtain ⟨repw, hrepw, hrunw, htouches, _⟩ := hrun ⟨t / c.waveSize, hwave⟩
    have hmem : (c.layout.primflag (c.rankAt cmds t) 1, LdsValue.byte (BitVec.ofNat 8 t)) ∈
        c.compactionStores (t / c.waveSize) (c.waveFlags cmds (t / c.waveSize)) repw := by
      refine (mem_compactionStores hrepw).mpr ⟨t % c.waveSize, Nat.mod_lt t hsize, ?_⟩
      simp only [Nat.div_add_mod']
      exact ⟨hlive, trivial⟩
    rw [h.mem_eq hrace (i := ⟨t / c.waveSize, hwave⟩)
      ((htouches _).mpr (.inr (List.mem_map_of_mem hmem))), hrunw]
    exact Prog.written_of_mem (nodup_compactionStores hrepw) hmem
  · rw [h.frame hrace fun wave hstore => ?_, houtputs t v hv]
    obtain ⟨repw, hrepw, _, _, hstores⟩ := hrun wave
    obtain ⟨w, hw, heq⟩ := List.mem_map.mp (hstores _ hstore)
    obtain ⟨_, _, _, rfl⟩ := (mem_compactionStores hrepw).mp hw
    exact GsLayout.primflag_ne_outputs heq

end Compaction

end NggGs

end Psbc.Ngg
