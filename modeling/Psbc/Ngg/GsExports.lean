import Psbc.Ngg.GsPhases

/-!
# What an NGG geometry shader exports

The primitives that the threads of a workgroup export, with the vertices that their indices name,
are the primitives of the first stream's strips that the culling accepts, in order. `Exported` says
what the threads export by the numbers of the live vertices. The finale comes to it after a
compaction, and also without one where every vertex is known to be live and its number is its
thread's.
-/

namespace Psbc.Ngg

open Atomic Gs

namespace NggGs

variable {D : Type} {c : NggGs D}

/-! ## Exports -/

section Exports

variable {cmds : Nat → List (Cmd D)} {m m' : LdsCell → LdsValue D} {t : Nat}

theorem not_stores_processOutVertex {x : LdsCell} : ¬(c.processOutVertex t).Stores x m := by
  unfold processOutVertex
  split <;> simp [Prog.Stores]

theorem not_stores_emitOutput {numVertices numPrims : Nat} {exporterTid primflag : BitVec 32}
    {x : LdsCell} : ¬(c.emitOutput t numVertices numPrims exporterTid primflag).Stores x m := by
  unfold emitOutput
  dsimp only
  split
  · rw [Prog.stores_bind]
    exact fun h => h.elim not_stores_processOutVertex id
  · exact id

theorem run_emitOutput {numVertices numPrims : Nat} {exporterTid primflag : BitVec 32} :
    ((c.emitOutput t numVertices numPrims exporterTid primflag).run m).1 =
      ⟨if t < numPrims then some (c.processOutPrimitive exporterTid primflag) else none,
        if t < numVertices then some ((c.processOutVertex t).run m).1 else none⟩ := by
  unfold emitOutput
  dsimp only
  split
  next => rw [Prog.run_bind]; rfl
  next => rfl

theorem maxVtxcnt_le_workgroupSize : c.maxVtxcnt ≤ c.workgroupSize := c.maxVtxcnt_le

theorem run_processOutVertex (hknown : c.outputCompileTimeKnown = false)
    (hexporters : c.HasExporters cmds m) (houtputs : c.HasOutputs cmds m)
    (hlive : c.survives cmds 0 t = true) :
    ((c.processOutVertex (c.rankAt cmds t)).run m).1 = (c.vertexAt cmds t).map (·.1) := by
  have ht := lt_of_survives hlive
  have hwg := Nat.lt_of_lt_of_le ht c.maxVtxcnt_le_workgroupSize
  obtain ⟨v, hv⟩ := exists_vertexAt_of_survives hlive
  have hid : (BitVec.ofNat 8 t).toNat = t := by
    rw [BitVec.toNat_ofNat, Nat.mod_eq_of_lt]
    exact Nat.lt_of_lt_of_le ht c.maxVtxcnt_le_byte
  rw [processOutVertex, hknown, if_neg (by decide)]
  simp only [Prog.run_rmw, Prog.run_ret, id, Function.update_eq_self]
  rw [hexporters t hwg hlive, show (LdsValue.byte (BitVec.ofNat 8 t) : LdsValue D).toByte =
    BitVec.ofNat 8 t from rfl, hid, houtputs t v hv, hv]
  rfl

theorem run_processOutVertex_known (hknown : c.outputCompileTimeKnown = true)
    (houtputs : c.HasOutputs cmds m) {v : D × Nat} (hv : c.vertexAt cmds t = some v) :
    ((c.processOutVertex t).run m).1 = some v.1 := by
  rw [processOutVertex, if_pos hknown]
  simp only [Prog.run_rmw, Prog.run_ret]
  rw [houtputs t v hv]
  rfl

theorem mem_orient {α : Type} {p : OutputPrimitive} {first : Bool} {n : Nat} {x : α}
    {l : List α} : x ∈ orient p first n l ↔ x ∈ l := by
  unfold orient
  split
  · split_ifs <;> simp only [List.mem_cons, List.not_mem_nil, or_false] <;> tauto
  · rfl

theorem length_vtxIndices (exporterTid primflag : BitVec 32) :
    (c.vtxIndices exporterTid primflag).length = c.prim.vertices := by
  unfold vtxIndices
  cases c.prim with
  | points => rfl
  | lineStrip => rfl
  | triangleStrip => dsimp only; split <;> rfl

/-- The number of a vertex of a primitive that is exported. -/
theorem rankAt_window {vertices : List D} (hprim : c.primAt cmds t = some vertices) {j : Nat}
    (hj : j < c.prim.vertices) :
    c.prim.vertices ≤ c.rankAt cmds t + 1 ∧
      c.rankAt cmds (t + 1 - c.prim.vertices + j) = c.rankAt cmds t + 1 - c.prim.vertices + j := by
  obtain ⟨v, hv, hc, _⟩ := primAt_eq_some hprim
  have hle := vertices_le_mod hv hc
  have hmod : t % c.layout.info.verticesOut ≤ t := Nat.mod_le _ _
  have hfirst := rank_sub hprim (by omega : c.prim.vertices - 1 < c.prim.vertices)
  have hself := rank_sub hprim (by omega : c.prim.vertices - 1 - j < c.prim.vertices)
  rw [show t - (c.prim.vertices - 1 - j) = t + 1 - c.prim.vertices + j by omega] at hself
  unfold rankAt
  omega

/-- The indices of a primitive that is exported name the threads that export its vertices. -/
theorem processOutPrimitive_some {vertices : List D} (hprim : c.primAt cmds t = some vertices)
    {exporterTid : BitVec 32} (hrank : exporterTid.toNat = c.rankAt cmds t) {v : D × Nat}
    (hv : c.vertexAt cmds t = some v) :
    isNullPrim (c.processOutPrimitive exporterTid (c.liveAt cmds t)) = false ∧
      (List.range c.numVerticesPerPrimitive).map
          (c.primIndex (c.processOutPrimitive exporterTid (c.liveAt cmds t))) =
        orient c.prim c.provokingFirst v.2 ((List.range c.prim.vertices).map fun j =>
          c.rankAt cmds (t + 1 - c.prim.vertices + j)) := by
  have ht := lt_of_vertexAt hv
  have hbyte := c.maxVtxcnt_le_byte
  have hpos : 0 < c.prim.vertices := by cases c.prim <;> decide
  have hle : c.rankAt cmds t ≤ t := Repack.rank_le _ 0 t
  have he : exporterTid.toNat < 256 :=
    Nat.lt_of_le_of_lt (Nat.le_of_eq hrank) (Nat.lt_of_le_of_lt hle (Nat.lt_of_lt_of_le ht hbyte))
  have hk := (rankAt_window hprim hpos).1
  have hindices := vtxIndices_eq he (hrank ▸ hk) (liveAt_bit1 hprim hv)
  have hlen := c.length_vtxIndices exporterTid (c.liveAt cmds t)
  have hthree : (c.vtxIndices exporterTid (c.liveAt cmds t)).length ≤ 3 := by
    rw [hlen]
    cases c.prim <;> decide
  have hsmall : ∀ x ∈ c.vtxIndices exporterTid (c.liveAt cmds t),
      x.toNat < 2 ^ (c.indexStride - 1) := by
    intro x hx
    have hmem := List.mem_map_of_mem (f := (·.toNat)) hx
    rw [hindices] at hmem
    obtain ⟨j, hj, hjx⟩ := List.mem_map.mp (mem_orient.mp hmem)
    have hj := List.mem_range.mp hj
    have hpow : 2 ^ 8 ≤ 2 ^ (c.indexStride - 1) :=
      Nat.pow_le_pow_right Nat.two_pos (by rcases c.indexStride_eq with h | h <;> omega)
    omega
  have hnull : (c.liveAt cmds t ^^^ BitVec.allOnes 32).getLsbD 0 = false := by
    rw [BitVec.getLsbD_xor, liveAt_bit0, hprim]
    rfl
  refine ⟨isNullPrim_pack hthree hsmall hnull, ?_⟩
  calc (List.range c.numVerticesPerPrimitive).map
        (c.primIndex (c.processOutPrimitive exporterTid (c.liveAt cmds t)))
      = (c.vtxIndices exporterTid (c.liveAt cmds t)).map (·.toNat) := by
        refine List.ext_getElem (by simp [hlen, numVerticesPerPrimitive]) fun i hi hi' => ?_
        rw [List.length_map] at hi'
        rw [List.getElem_map, List.getElem_map, List.getElem_range]
        exact primIndex_pack hthree hsmall hi'
    _ = _ := by
        rw [hindices, hrank]
        congr 1
        exact List.map_congr_left fun j hj =>
          ((rankAt_window hprim (List.mem_range.mp hj)).2).symm

theorem processOutPrimitive_none (hprim : c.primAt cmds t = none) (exporterTid : BitVec 32) :
    isNullPrim (c.processOutPrimitive exporterTid (c.liveAt cmds t)) = true := by
  refine isNullPrim_pack_null ?_
  rw [BitVec.getLsbD_xor, liveAt_bit0, hprim]
  rfl

end Exports

/-! ## The finale -/

section Finale

variable {cmds : Nat → List (Cmd D)} {m : LdsCell → LdsValue D}
  {exports : Fin c.workgroupSize → LaneExport D} {allocation : Allocation}

/-- What the threads export, by the numbers of the live vertices. -/
structure Exported (c : NggGs D) (cmds : Nat → List (Cmd D))
    (exports : Fin c.workgroupSize → LaneExport D) : Prop where
  primitive_isSome : ∀ t, (exports t).primitive.isSome =
    decide (t.val < c.maxPrmcnt (c.rankAt cmds c.workgroupSize))
  primitive : ∀ t arg, (exports t).primitive = some arg → ∃ exporterTid : BitVec 32,
    exporterTid.toNat = c.rankAt cmds t ∧ arg = c.processOutPrimitive exporterTid (c.liveAt cmds t)
  vertex_isSome : ∀ t, (exports t).vertex.isSome =
    decide (t.val < c.rankAt cmds c.workgroupSize)
  vertex : ∀ t i, c.survives cmds 0 t = true → i.val = c.rankAt cmds t →
    (exports i).vertex = some ((c.vertexAt cmds t).map (·.1))

structure Allocated (c : NggGs D) (cmds : Nat → List (Cmd D)) (allocation : Allocation) :
    Prop where
  vertices : allocation.request.toNat % 2 ^ 12 =
    c.rankAt cmds c.workgroupSize + allocation.degenerate.toList.length
  primitives : allocation.request.toNat / 2 ^ 12 =
    c.maxPrmcnt (c.rankAt cmds c.workgroupSize) + allocation.degenerate.toList.length
  degenerate : ∀ d ∈ allocation.degenerate, c.hasNggFullyCulledBug = true ∧
    c.maxPrmcnt (c.rankAt cmds c.workgroupSize) = 0 ∧ d = ⟨0, List.replicate 4 (-1)⟩
  nonzero : c.hasNggFullyCulledBug = true → 0 < c.numGsThreads →
    allocation.request.toNat / 2 ^ 12 ≠ 0

theorem isSome_ite {α : Type} (p : Prop) [Decidable p] (x : α) :
    (if p then some x else none).isSome = decide p := by
  split <;> simp_all

theorem rankAt_lt_workgroupSize {t : Nat} (hlive : c.survives cmds 0 t = true) :
    c.rankAt cmds t < c.workgroupSize :=
  Nat.lt_of_le_of_lt (Repack.rank_le _ 0 t)
    (Nat.lt_of_lt_of_le (lt_of_survives hlive) maxVtxcnt_le_workgroupSize)

/-! ### Allocation -/

theorem rankAt_eq_zero (h : c.maxPrmcnt (c.rankAt cmds c.workgroupSize) = 0) :
    c.rankAt cmds c.workgroupSize = 0 := by
  unfold maxPrmcnt at h
  split at h
  next hne =>
    obtain ⟨t, _, hlive, _⟩ := Repack.exists_rank_eq (c.survives cmds) (Nat.pos_of_ne_zero hne)
    have := lt_of_survives hlive
    omega
  next hzero => exact not_not.mp hzero

theorem maxPrmcnt_le (n : Nat) : c.maxPrmcnt n ≤ c.maxVtxcnt := by
  unfold maxPrmcnt
  split
  · exact Nat.le_refl _
  · exact Nat.zero_le _

/-- The two counts do not meet in the message. -/
theorem toNat_request {numVtx numPrim : Nat} (hvtx : numVtx < 2 ^ 12) (hprim : numPrim < 2 ^ 12) :
    ((BitVec.ofNat 32 numPrim <<< 12) ||| BitVec.ofNat 32 numVtx).toNat =
      2 ^ 12 * numPrim + numVtx := by
  rw [BitVec.toNat_or, BitVec.toNat_shiftLeft, BitVec.toNat_ofNat, BitVec.toNat_ofNat,
    Nat.mod_eq_of_lt (by omega : numPrim < 2 ^ 32), Nat.mod_eq_of_lt (by omega : numVtx < 2 ^ 32),
    Nat.shiftLeft_eq, Nat.mod_eq_of_lt (by omega), ← Nat.shiftLeft_eq,
    ← Nat.shiftLeft_add_eq_or_of_lt hvtx, Nat.shiftLeft_eq, Nat.mul_comm]

theorem allocated (workaround : Bool) (hbug : workaround = true → c.hasNggFullyCulledBug = true)
    (hnone : c.hasNggFullyCulledBug = true → 0 < c.numGsThreads → workaround = true ∨
      c.maxPrmcnt (c.rankAt cmds c.workgroupSize) ≠ 0) :
    c.Allocated cmds (allocVerticesAndPrimitives
      (BitVec.ofNat 32 (c.rankAt cmds c.workgroupSize))
      (BitVec.ofNat 32 (c.maxPrmcnt (c.rankAt cmds c.workgroupSize))) workaround) := by
  have hsize : c.workgroupSize ≤ 8 * 64 :=
    Nat.mul_le_mul (Nat.le_trans c.numWaves_le c.maxNumWaves_le) (Repack.waveSize_le c.repack)
  have hvtx : c.rankAt cmds c.workgroupSize ≤ c.workgroupSize := Repack.rank_le _ 0 _
  have hbyte : c.maxVtxcnt ≤ 256 := c.maxVtxcnt_le_byte
  have hprim := c.maxPrmcnt_le (c.rankAt cmds c.workgroupSize)
  have hzero : BitVec.ofNat 32 (c.maxPrmcnt (c.rankAt cmds c.workgroupSize)) = 0 ↔
      c.maxPrmcnt (c.rankAt cmds c.workgroupSize) = 0 := by
    rw [← BitVec.toNat_inj, BitVec.toNat_ofNat, Nat.mod_eq_of_lt (by omega)]
    rfl
  unfold allocVerticesAndPrimitives
  split
  next h =>
    rw [Bool.and_eq_true, decide_eq_true_eq, hzero] at h
    refine ⟨?_, ?_, fun d hd => ⟨hbug h.1, h.2, (Option.mem_some.mp hd).symm⟩, fun _ _ => by decide⟩
    · rw [rankAt_eq_zero h.2]
      rfl
    · rw [h.2]
      rfl
  next h =>
    rw [Bool.and_eq_true, decide_eq_true_eq, hzero] at h
    refine ⟨?_, ?_, nofun, fun hbug hpos => ?_⟩ <;> dsimp only <;>
      rw [toNat_request (by omega) (by omega)]
    · exact (Nat.mul_add_mod ..).trans (Nat.mod_eq_of_lt (by omega))
    · change _ = c.maxPrmcnt (c.rankAt cmds c.workgroupSize)
      omega
    · have hne : c.maxPrmcnt (c.rankAt cmds c.workgroupSize) ≠ 0 :=
        (hnone hbug hpos).elim (fun hw hzero => h ⟨hw, hzero⟩) id
      omega

/-! ### With a compaction -/

theorem exported_of_compacted {primflags : Fin c.numWaves → List (BitVec 32)}
    {rep : Fin c.numWaves → WgRepackResult} {final : LdsCell → LdsValue D}
    (hknown : c.outputCompileTimeKnown = false)
    (hflags : ∀ wave, primflags wave = c.waveFlags cmds wave)
    (hranked : ∀ wave : Fin c.numWaves, c.Ranked cmds wave (rep wave))
    (hexporters : c.HasExporters cmds m) (houtputs : c.HasOutputs cmds m)
    (output : Phase (fun tid : Fin c.workgroupSize =>
      let rep := byId rep ⟨0, fun _ => 0⟩ (tid / c.waveSize)
      c.emitOutput tid rep.numRepackedInvocations.toNat
        (c.maxPrmcnt rep.numRepackedInvocations.toNat)
        (rep.repackedInvocationIndex (tid % c.waveSize))
        ((byId primflags [] (tid / c.waveSize)).getD (tid % c.waveSize) 0)) m exports final) :
    c.Exported cmds exports := by
  have hsize : 0 < c.waveSize := by rcases c.waveSize_eq with h | h <;> omega
  have hthread : ∀ t : Fin c.workgroupSize, ∃ exporterTid : BitVec 32,
      exporterTid.toNat = c.rankAt cmds t ∧
      exports t = ⟨if t.val < c.maxPrmcnt (c.rankAt cmds c.workgroupSize) then
          some (c.processOutPrimitive exporterTid (c.liveAt cmds t)) else none,
        if t.val < c.rankAt cmds c.workgroupSize then some ((c.processOutVertex t).run m).1
          else none⟩ := by
    intro t
    have hlane := Nat.mod_lt t hsize
    have hwave : t / c.waveSize < c.numWaves :=
      Nat.div_lt_of_lt_mul (Nat.lt_of_lt_of_eq t.isLt (Nat.mul_comm _ _))
    have hrep := hranked ⟨t / c.waveSize, hwave⟩
    have hindex := hrep.index (t % c.waveSize) hlane
    rw [Nat.div_add_mod'] at hindex
    have hflag : (primflags ⟨t / c.waveSize, hwave⟩).getD (t % c.waveSize) 0 =
        c.liveAt cmds t := by
      simp [hflags, waveFlags, List.getD_eq_getElem?_getD, hlane, Nat.div_add_mod']
    refine ⟨_, hindex, ?_⟩
    rw [output.out_eq (fun _ _ _ hstore => not_stores_emitOutput hstore) t]
    simp only [byId, dif_pos hwave, hflag, hrep.num]
    exact run_emitOutput
  refine ⟨fun t => ?_, fun t arg harg => ?_, fun t => ?_, fun t i hlive hi => ?_⟩
  · obtain ⟨_, _, heq⟩ := hthread t
    rw [heq]
    exact isSome_ite _ _
  · obtain ⟨exporterTid, hrank, heq⟩ := hthread t
    rw [heq] at harg
    dsimp only at harg
    split at harg
    · exact ⟨exporterTid, hrank, (Option.some.inj harg).symm⟩
    · cases harg
  · obtain ⟨_, _, heq⟩ := hthread t
    rw [heq]
    exact isSome_ite _ _
  · obtain ⟨_, _, heq⟩ := hthread i
    have hwg := Nat.lt_of_lt_of_le (lt_of_survives hlive) maxVtxcnt_le_workgroupSize
    have hrank : c.rankAt cmds t < c.rankAt cmds c.workgroupSize := Repack.rank_lt _ hlive hwg
    rw [heq]
    dsimp only
    rw [hi, if_pos hrank, run_processOutVertex hknown hexporters houtputs hlive]

/-! ### With known output -/

theorem culls_of_known (h : c.outputCompileTimeKnown = true) : c.culls = false := by
  simp only [outputCompileTimeKnown, Bool.and_eq_true, Bool.not_eq_true'] at h
  rw [culls, h.1.1.1, Bool.false_and]

theorem verticesOut_pos_of_known (h : c.outputCompileTimeKnown = true) :
    0 < c.layout.info.verticesOut := by
  simp only [outputCompileTimeKnown, Bool.and_eq_true, decide_eq_true_eq] at h
  exact h.2

section Known

variable
  (hfull : ∀ tid < c.numGsThreads, (c.layout.places (cmds tid)).length = c.layout.info.verticesOut)
include hfull

theorem exists_vertexAt_of_full {t : Nat} (ht : t < c.maxVtxcnt) :
    ∃ v, c.vertexAt cmds t = some v := by
  obtain ⟨hg, hmod⟩ := div_lt_and_mod_lt ht
  exact ⟨_, (if_pos ht).trans (List.getElem?_eq_getElem (hmod.trans_eq (hfull _ hg).symm))⟩

variable (hknown : c.outputCompileTimeKnown = true)
include hknown

theorem survives_of_known {t : Nat} (ht : t < c.maxVtxcnt) : c.survives cmds 0 t = true := by
  obtain ⟨v, hv⟩ := exists_vertexAt_of_full hfull ht
  exact decide_eq_true (liveAt_ne_zero_of_not_culls (culls_of_known hknown) hv)

theorem rankAt_of_known {t : Nat} (ht : t ≤ c.maxVtxcnt) : c.rankAt cmds t = t :=
  Nat.count_of_forall fun _ hlt => survives_of_known hfull hknown (Nat.lt_of_lt_of_le hlt ht)

theorem rankAt_workgroupSize_of_known : c.rankAt cmds c.workgroupSize = c.maxVtxcnt := by
  obtain ⟨d, hd⟩ := Nat.exists_eq_add_of_le (maxVtxcnt_le_workgroupSize (c := c))
  have hbeyond : Nat.count (fun k => c.survives cmds 0 (c.maxVtxcnt + k) = true) d = 0 :=
    Nat.count_of_forall_not fun k _ hlive =>
      Nat.not_lt.mpr (Nat.le_add_right _ k) (lt_of_survives hlive)
  have hbelow : Nat.count (c.survives cmds 0 · = true) c.maxVtxcnt = c.maxVtxcnt :=
    rankAt_of_known hfull hknown (Nat.le_refl _)
  rw [rankAt, Repack.rank, hd, Nat.count_add, hbelow, hbeyond]
  rfl

theorem maxPrmcnt_of_known : c.maxPrmcnt (c.rankAt cmds c.workgroupSize) = c.maxVtxcnt := by
  rw [rankAt_workgroupSize_of_known hfull hknown, maxPrmcnt]
  split
  · rfl
  · omega

theorem exported_of_known {final : LdsCell → LdsValue D} (hflags : c.HasFlags (c.flagAt cmds) m)
    (houtputs : c.HasOutputs cmds m)
    (output : Phase (fun tid : Fin c.workgroupSize => c.knownThread tid) m exports final) :
    c.Exported cmds exports := by
  have hstore : ∀ {t : Nat} {x : LdsCell}, ¬(c.knownThread t).Stores x m := by
    intro t x
    rw [knownThread, Prog.stores_bind]
    exact fun h => h.elim not_stores_loadOutVtxPrimflag not_stores_emitOutput
  have hthread : ∀ t : Fin c.workgroupSize, exports t =
      ⟨if t.val < c.maxVtxcnt then
          some (c.processOutPrimitive (BitVec.ofNat 32 t) (c.liveAt cmds t)) else none,
        if t.val < c.maxVtxcnt then some ((c.processOutVertex t).run m).1 else none⟩ := by
    intro t
    rw [output.out_eq (fun _ _ _ hstores => hstore hstores) t, knownThread, Prog.run_bind,
      run_loadOutVtxPrimflag hflags flagAt_of_le, liveAt_of_not_culls (culls_of_known hknown)]
    exact run_emitOutput
  have hwg := rankAt_workgroupSize_of_known hfull hknown
  refine ⟨fun t => ?_, fun t arg harg => ?_, fun t => ?_, fun t i hlive hi => ?_⟩
  · rw [hthread t, maxPrmcnt_of_known hfull hknown]
    exact isSome_ite _ _
  · rw [hthread t] at harg
    dsimp only at harg
    split at harg
    next ht =>
      refine ⟨_, ?_, (Option.some.inj harg).symm⟩
      have hbyte : c.maxVtxcnt ≤ 256 := c.maxVtxcnt_le_byte
      rw [rankAt_of_known hfull hknown (Nat.le_of_lt ht), BitVec.toNat_ofNat,
        Nat.mod_eq_of_lt (by omega)]
    next => cases harg
  · rw [hthread t, hwg]
    exact isSome_ite _ _
  · have ht := lt_of_survives hlive
    obtain ⟨v, hv⟩ := exists_vertexAt_of_full hfull ht
    have hrank := rankAt_of_known hfull hknown (Nat.le_of_lt ht)
    rw [hthread]
    dsimp only
    rw [hi, hrank, if_pos ht, run_processOutVertex_known hknown houtputs hv, hv]
    rfl

end Known

theorem Finale.exported (h : c.Finale m exports allocation)
    (hemitted : c.layout.Emitted (!c.culls) cmds c.numGsThreads m)
    (hfull : c.outputCompileTimeKnown = true → ∀ tid < c.numGsThreads,
      (c.layout.places (cmds tid)).length = c.layout.info.verticesOut) :
    c.Exported cmds exports ∧ c.Allocated cmds allocation := by
  cases h with
  | known hknown output =>
    have hfull := hfull hknown
    refine ⟨exported_of_known hfull hknown (hasFlags_of_emitted hemitted)
      (hasOutputs_of_emitted hemitted) output, ?_⟩
    have hout := verticesOut_pos_of_known hknown
    have hprims := maxPrmcnt_of_known hfull hknown
    have hallocated : c.Allocated cmds _ := allocated false nofun
      fun _ hpos => .inr (by rw [hprims]; exact Nat.ne_of_gt (Nat.mul_pos hpos hout))
    rwa [hprims, rankAt_workgroupSize_of_known hfull hknown, ← Bool.false_and,
      ← decide_eq_false (Nat.ne_of_gt hout)] at hallocated
  | compacted undef hknown cull ballot compact output =>
    obtain ⟨hflags, houtputs, hculled⟩ := culled_of_phase cull (hasFlags_of_emitted hemitted)
      (hasOutputs_of_emitted hemitted)
    obtain ⟨hprimflags, hcounts, houtputs⟩ := balloted_of_phase ballot hflags houtputs hculled
    obtain ⟨hranked, hexporters, houtputs⟩ :=
      compacted_of_phase compact hprimflags hcounts houtputs
    refine ⟨exported_of_compacted hknown hprimflags hranked hexporters houtputs output, ?_⟩
    have hallocated : c.Allocated cmds _ := allocated _ id fun hbug _ => .inl hbug
    rwa [← (hranked ⟨0, c.numWaves_pos⟩).num, BitVec.ofNat_toNat, BitVec.setWidth_eq]
      at hallocated

end Finale

/-! ## Whole executions -/

section Executions

section Lists

variable {α : Type} {f : Nat → Option α}

theorem filterMap_range_mul (n M : Nat) :
    (List.range (n * M)).filterMap f =
      (List.range n).flatMap fun g => (List.range M).filterMap fun i => f (g * M + i) := by
  induction n with
  | zero => simp
  | succ n ih =>
    rw [Nat.succ_mul, List.range_add, List.filterMap_append, ih, List.range_succ,
      List.flatMap_append, List.filterMap_map]
    simp

theorem filterMap_range_of_le {n n' : Nat} (hle : n ≤ n') (h : ∀ i, n ≤ i → f i = none) :
    (List.range n').filterMap f = (List.range n).filterMap f := by
  obtain ⟨d, rfl⟩ := Nat.exists_eq_add_of_le hle
  rw [List.range_add, List.filterMap_append, List.filterMap_map]
  have hnil : (List.range d).filterMap (f ∘ (n + ·)) = [] :=
    List.filterMap_eq_nil_iff.mpr fun i _ => h (n + i) (Nat.le_add_right n i)
  rw [hnil, List.append_nil]

theorem filterMap_ofFn {β : Type} {n : Nat} {x : Fin n → β} {g : β → Option α}
    (h : ∀ t : Fin n, g (x t) = f t) : (List.ofFn x).filterMap g = (List.range n).filterMap f := by
  rw [List.ofFn_eq_map, ← List.map_coe_finRange_eq_range, List.filterMap_map, List.filterMap_map]
  exact List.filterMap_congr fun t _ => h t

theorem length_filter_ofFn {β : Type} {n k : Nat} {x : Fin n → β} {p : β → Bool} (hk : k ≤ n)
    (h : ∀ t : Fin n, p (x t) = decide (t.val < k)) : ((List.ofFn x).filter p).length = k := by
  have hrange : (List.range n).filter (· < k) = List.range k := by
    obtain ⟨d, rfl⟩ := Nat.exists_eq_add_of_le hk
    rw [List.range_add, List.filter_append, List.filter_eq_self.mpr fun i hi =>
      decide_eq_true (List.mem_range.mp hi), List.filter_eq_nil_iff.mpr, List.append_nil]
    intro i hi
    obtain ⟨j, _, rfl⟩ := List.mem_map.mp hi
    simp
  rw [← List.map_coe_finRange_eq_range, List.filter_map] at hrange
  have hlen := congrArg List.length hrange
  rw [List.length_map, List.length_range] at hlen
  rw [List.ofFn_eq_map, List.filter_map, List.length_map, ← hlen]
  exact congrArg List.length (List.filter_congr fun t _ => h t)

end Lists

theorem filterMap_primAt
    (hfits : ∀ tid < c.numGsThreads, emitCount (cmds tid) ≤ c.layout.info.verticesOut) :
    (List.range c.workgroupSize).filterMap (c.primAt cmds) =
      (List.range c.numGsThreads).flatMap fun tid => (strips c.prim (cmds tid)).flatMap
        (stripPrimitives c.prim c.provokingFirst c.accepts) := by
  have hnone : ∀ t, c.maxVtxcnt ≤ t → c.primAt cmds t = none := fun t ht =>
    if_neg (Nat.not_lt.mpr ht)
  rw [filterMap_range_of_le maxVtxcnt_le_workgroupSize hnone, maxVtxcnt, GsLayout.maxVtxcnt,
    filterMap_range_mul]
  refine List.flatMap_congr fun tid htid => ?_
  have htid := List.mem_range.mp htid
  rw [show c.prim = c.layout.info.outputPrimitive from rfl, flatMap_stripPrimitives]
  have hlen := GsLayout.length_places_le (hfits tid htid)
  rw [List.filterMap_congr fun i hi => (vertexAt_mul_add htid (List.mem_range.mp hi)).2]
  exact filterMap_range_of_le hlen fun i hi => by
    rw [placePrimitive, show (c.layout.places (cmds tid))[i]? = none from List.getElem?_eq_none hi,
      Option.bind_none]

/-- The primitive of a thread, when `vertex` finds the exported vertices by their numbers. -/
theorem Exported.primitive_eq {cmds : Nat → List (Cmd D)}
    {exports : Fin c.workgroupSize → LaneExport D} (h : c.Exported cmds exports)
    (t : Fin c.workgroupSize) (vertex : Nat → Option D)
    (hvertex : ∀ t, c.survives cmds 0 t = true →
      vertex (c.rankAt cmds t) = (c.vertexAt cmds t).map (·.1)) :
    ((exports t).primitive.bind fun arg => if isNullPrim arg then none
      else some ((List.range c.numVerticesPerPrimitive).map fun i => vertex (c.primIndex arg i))) =
      (c.primAt cmds t).map (List.map some) := by
  have hsome := h.primitive_isSome t
  cases hprim : c.primAt cmds t with
  | none =>
    cases harg : (exports t).primitive with
    | none => rfl
    | some arg =>
      obtain ⟨exporterTid, _, rfl⟩ := h.primitive t arg harg
      rw [Option.bind_some, if_pos (processOutPrimitive_none hprim exporterTid)]
      rfl
  | some vertices =>
    obtain ⟨v, hv, hc, hvertices⟩ := primAt_eq_some hprim
    have hle := vertices_le_mod hv hc
    have hmod : t % c.layout.info.verticesOut ≤ t := Nat.mod_le _ _
    -- its own vertex is live, so there are vertices
    have hany : c.rankAt cmds c.workgroupSize ≠ 0 := by
      have hself := survives_of_primAt hprim (i := 0) (by cases c.prim <;> decide)
      rw [Nat.sub_zero] at hself
      exact Nat.ne_of_gt (Nat.lt_of_le_of_lt (Nat.zero_le _) (Repack.rank_lt _ hself t.isLt))
    rw [maxPrmcnt, if_pos hany, decide_eq_true (lt_of_vertexAt hv),
      Option.isSome_iff_exists] at hsome
    obtain ⟨arg, harg⟩ := hsome
    obtain ⟨exporterTid, hrank, rfl⟩ := h.primitive t arg harg
    obtain ⟨hnull, hindices⟩ := processOutPrimitive_some hprim hrank hv
    rw [harg, Option.bind_some, if_neg (by rw [hnull]; decide), Option.map_some, hvertices]
    have hlookup := congrArg (List.map vertex) hindices
    rw [List.map_map, map_orient, List.map_map] at hlookup
    refine congrArg some (hlookup.trans (congrArg _ (List.map_congr_left fun j hj => ?_)))
    have hj := List.mem_range.mp hj
    rw [Function.comp_apply,
      show t + 1 - c.prim.vertices + j = t - (c.prim.vertices - 1 - j) by omega]
    exact hvertex _ (survives_of_primAt hprim (by omega))

theorem Exported.assembled_eq {cmds : Nat → List (Cmd D)}
    {exports : Fin c.workgroupSize → LaneExport D} (h : c.Exported cmds exports) :
    c.assembled (List.ofFn exports) =
      ((List.range c.workgroupSize).filterMap (c.primAt cmds)).map (List.map some) := by
  rw [assembled, List.map_filterMap]
  refine filterMap_ofFn fun t => h.primitive_eq t
    (fun i => (List.ofFn exports)[i]?.bind fun y => y.vertex.bind id) fun t' hlive => ?_
  have hlt := rankAt_lt_workgroupSize hlive
  rw [List.getElem?_ofFn, dif_pos hlt, Option.bind_some, h.vertex t' ⟨_, hlt⟩ hlive rfl]
  rfl

/-- A vertex that is exported is one of a primitive that is. -/
theorem Exported.vertex_used {cmds : Nat → List (Cmd D)}
    {exports : Fin c.workgroupSize → LaneExport D} (h : c.Exported cmds exports)
    (hfits : ∀ tid < c.numGsThreads, emitCount (cmds tid) ≤ c.layout.info.verticesOut)
    (t : Fin c.workgroupSize) {x : Option D} (hx : (exports t).vertex = some x) :
    ∃ primitive ∈ c.assembled (List.ofFn exports), x ∈ primitive := by
  have hsome := h.vertex_isSome t
  rw [hx, Option.isSome_some, eq_comm, decide_eq_true_eq] at hsome
  obtain ⟨t', _, hlive, hrank⟩ := Repack.exists_rank_eq (c.survives cmds) hsome
  have hlt := rankAt_lt_workgroupSize hlive
  obtain rfl : (⟨c.rankAt cmds t', hlt⟩ : Fin c.workgroupSize) = t := Fin.ext hrank
  obtain rfl := Option.some.inj ((h.vertex t' _ hlive rfl).symm.trans hx)
  obtain ⟨last, vertices, hprim, hle, hlast⟩ := exists_primAt_of_survives hfits hlive
  obtain ⟨v, hv, hc, hvertices⟩ := primAt_eq_some hprim
  have hwindow := vertices_le_mod hv hc
  have hmod : last % c.layout.info.verticesOut ≤ last := Nat.mod_le _ _
  refine ⟨vertices.map some, ?_, ?_⟩
  · rw [h.assembled_eq]
    exact List.mem_map_of_mem (List.mem_filterMap.mpr ⟨last, List.mem_range.mpr
      (Nat.lt_of_lt_of_le (lt_of_vertexAt hv) maxVtxcnt_le_workgroupSize), hprim⟩)
  · rw [hvertices, mem_orient, List.mem_map]
    exact ⟨t' + c.prim.vertices - 1 - last, List.mem_range.mpr (by omega), by
      rw [show last + 1 - c.prim.vertices + (t' + c.prim.vertices - 1 - last) = t' by omega]⟩

section Main

variable {shader : Nat → List (Nat × Cmd D)} {m : LdsCell → LdsValue D}
  (hfits : ∀ tid < c.numGsThreads,
    emitCount (onStream c.layout.info 0 (shader tid)) ≤ c.layout.info.verticesOut)
  (hconst : ∀ tid < c.numGsThreads, ∀ count ∈ c.constOutVtxcnt,
    (streamCounts c.layout.info (shader tid) 0).1 = count)
include hfits hconst

theorem Execution.exported (ex : c.Execution shader m) :
    c.Exported (fun tid => onStream c.layout.info 0 (shader tid)) ex.exports ∧
      c.Allocated (fun tid => onStream c.layout.info 0 (shader tid)) ex.allocation := by
  refine ex.finale.exported (GsLayout.emitted_of_phase hfits ex.emit) fun hknown tid htid => ?_
  simp only [outputCompileTimeKnown, Bool.and_eq_true, decide_eq_true_eq] at hknown
  rw [← GsLayout.length_places (hfits tid htid), ← streamCounts_eq]
  exact hconst tid htid _ hknown.1.1.2

theorem Execution.length_exports (ex : c.Execution shader m) :
    ((List.ofFn ex.exports).filter (·.vertex.isSome)).length =
        c.rankAt (fun tid => onStream c.layout.info 0 (shader tid)) c.workgroupSize ∧
      ((List.ofFn ex.exports).filter (·.primitive.isSome)).length =
        c.maxPrmcnt (c.rankAt (fun tid => onStream c.layout.info 0 (shader tid))
          c.workgroupSize) := by
  have hexported := (ex.exported hfits hconst).1
  exact ⟨length_filter_ofFn (Repack.rank_le _ 0 _) hexported.vertex_isSome, length_filter_ofFn
    (Nat.le_trans (maxPrmcnt_le _) maxVtxcnt_le_workgroupSize) hexported.primitive_isSome⟩

end Main

/-- **An NGG geometry shader exports the primitives of its strips.** Whatever the schedules of the
phases and whatever the LDS held, the primitives that are exported, with the exported vertices
that their indices name, are the accepted primitives of the strips that the invocations of the
workgroup emit to the first stream, in order. -/
theorem nggGs_exports (c : NggGs D) (shader : Nat → List (Nat × Cmd D))
    (hfits : ∀ tid < c.numGsThreads,
      emitCount (onStream c.layout.info 0 (shader tid)) ≤ c.layout.info.verticesOut)
    (hconst : ∀ tid < c.numGsThreads, ∀ count ∈ c.constOutVtxcnt,
      (streamCounts c.layout.info (shader tid) 0).1 = count)
    (m : LdsCell → LdsValue D) (ex : c.Execution shader m) :
    c.assembled (List.ofFn ex.exports) =
      ((List.range c.numGsThreads).flatMap fun tid =>
        (strips c.prim (onStream c.layout.info 0 (shader tid))).flatMap
          (stripPrimitives c.prim c.provokingFirst c.accepts)).map (List.map some) := by
  rw [(ex.exported hfits hconst).1.assembled_eq, filterMap_primAt hfits]

/-- **The allocation is what is exported.** The message of the first wave announces as many
vertices and primitives as the workgroup exports. The vertices are exported by the first threads
without a gap, and each of them belongs to a primitive that is exported. A degenerate triangle
without a position is added only where nothing else is exported, and the hardware that needs it
never sees a message without primitives. -/
theorem nggGs_allocation (c : NggGs D) (shader : Nat → List (Nat × Cmd D))
    (hfits : ∀ tid < c.numGsThreads,
      emitCount (onStream c.layout.info 0 (shader tid)) ≤ c.layout.info.verticesOut)
    (hconst : ∀ tid < c.numGsThreads, ∀ count ∈ c.constOutVtxcnt,
      (streamCounts c.layout.info (shader tid) 0).1 = count)
    (m : LdsCell → LdsValue D) (ex : c.Execution shader m) :
    let request := ex.allocation.request.toNat
    let vertices := ((List.ofFn ex.exports).filter (·.vertex.isSome)).length
    let primitives := ((List.ofFn ex.exports).filter (·.primitive.isSome)).length
    request % 2 ^ 12 = vertices + ex.allocation.degenerate.toList.length ∧
      request / 2 ^ 12 = primitives + ex.allocation.degenerate.toList.length ∧
      (∀ t, (ex.exports t).vertex.isSome = decide (t.val < vertices)) ∧
      (∀ t x, (ex.exports t).vertex = some x →
        ∃ primitive ∈ c.assembled (List.ofFn ex.exports), x ∈ primitive) ∧
      (∀ d ∈ ex.allocation.degenerate, c.hasNggFullyCulledBug = true ∧
        vertices = 0 ∧ primitives = 0 ∧ isNullPrim d.primitive = false ∧
        (∀ i, c.primIndex d.primitive i = 0) ∧
        d.position.length = 4 ∧ ∀ word ∈ d.position, isNaN word = true) ∧
      (c.hasNggFullyCulledBug = true → 0 < c.numGsThreads → request / 2 ^ 12 ≠ 0) := by
  intro request vertices primitives
  obtain ⟨hexported, hallocated⟩ := ex.exported hfits hconst
  have hvertices : vertices = _ := (ex.length_exports hfits hconst).1
  have hprimitives : primitives = _ := (ex.length_exports hfits hconst).2
  rw [hvertices, hprimitives]
  refine ⟨hallocated.vertices, hallocated.primitives, hexported.vertex_isSome,
    fun t x => hexported.vertex_used hfits t, fun d hd => ?_, hallocated.nonzero⟩
  obtain ⟨hbug, hzero, rfl⟩ := hallocated.degenerate d hd
  refine ⟨hbug, rankAt_eq_zero hzero, hzero, by decide, fun i => by simp [primIndex], rfl,
    fun word hword => ?_⟩
  rw [List.eq_of_mem_replicate hword]
  decide

theorem nonempty_execution (c : NggGs D) (shader : Nat → List (Nat × Cmd D))
    (m : LdsCell → LdsValue D) : Nonempty (c.Execution shader m) := by
  obtain ⟨_, emitted, emit⟩ := exists_phase (fun tid : Fin c.numGsThreads => Prog.storeAll
    (c.layout.invocationStores (!c.culls) tid (shader tid))) m List.mem_finRange
  cases hknown : c.outputCompileTimeKnown with
  | true =>
    obtain ⟨exports, final, output⟩ := exists_phase
      (fun tid : Fin c.workgroupSize => c.knownThread tid) emitted List.mem_finRange
    exact ⟨emitted, exports, _, emit, .known hknown output⟩
  | false =>
    obtain ⟨culled, culledMem, cull⟩ := exists_phase
      (fun tid : Fin c.workgroupSize => c.cullThread tid) emitted List.mem_finRange
    obtain ⟨primflags, balloted, ballot⟩ := exists_phase
      (fun wave : Fin c.numWaves => c.ballotWave wave (byId culled 0)) culledMem List.mem_finRange
    obtain ⟨rep, compacted, compact⟩ := exists_phase (fun wave : Fin c.numWaves =>
      c.compactWave wave (primflags wave) fun _ _ => 0) balloted List.mem_finRange
    obtain ⟨exports, final, output⟩ := exists_phase (fun tid : Fin c.workgroupSize =>
      let rep := byId rep ⟨0, fun _ => 0⟩ (tid / c.waveSize)
      c.emitOutput tid rep.numRepackedInvocations.toNat
        (c.maxPrmcnt rep.numRepackedInvocations.toNat)
        (rep.repackedInvocationIndex (tid % c.waveSize))
        ((byId primflags [] (tid / c.waveSize)).getD (tid % c.waveSize) 0)) compacted
      List.mem_finRange
    exact ⟨emitted, exports, _, emit,
      .compacted (fun _ _ _ => 0) hknown cull ballot compact output⟩

/-- Two invocations with triangle strips, where the triangles that begin with vertex 2 are
culled. -/
def culledTriangles : NggGs Nat where
  layout :=
    { info := ⟨.triangleStrip, 6, 0b1⟩
      maxNumWaves := 2
      ldsAddrGsOutVtx := 64
      totalPackedGsOutSize := 16 }
  waveSize := 32
  numWaves := 2
  numGsThreads := 2
  useDot := false
  gfx12 := false
  hasNggFullyCulledBug := true
  provokingFirst := true
  canCull := true
  cullAnyEnabled := true
  constOutVtxcnt := none
  constOutPrmcnt := none
  accept
    | 2 :: _ => false
    | _ => true
  waveSize_eq := Repack.pairOfWaves.waveSize_eq
  numWaves_pos := Nat.two_pos
  numWaves_le := Nat.le_refl 2
  maxNumWaves_le := Nat.le_of_ble_eq_true rfl
  maxVtxcnt_le := Nat.le_of_ble_eq_true rfl
  maxVtxcnt_le_byte := Nat.le_of_ble_eq_true rfl

/-- A strip of four vertices, and one with two vertices before one with three. -/
def twoStrips : Nat → List (Nat × Cmd Nat)
  | 0 => [.emitVertex 0, .emitVertex 1, .emitVertex 2, .emitVertex 3].map (0, ·)
  | _ => [.emitVertex 7, .emitVertex 8, .endPrimitive, .emitVertex 4, .emitVertex 5,
      .emitVertex 6].map (0, ·)

def shortStrips (_tid : Nat) : List (Nat × Cmd Nat) := [.emitVertex 0, .emitVertex 1].map (0, ·)

/-- Three invocations that always emit two points, and points to another stream. -/
def knownPoints : NggGs Nat :=
  { culledTriangles with
    layout := { culledTriangles.layout with info := ⟨.points, 2, 0b11⟩ }
    numGsThreads := 3
    canCull := false
    constOutVtxcnt := some 2
    constOutPrmcnt := some 2
    maxVtxcnt_le := Nat.le_of_ble_eq_true rfl
    maxVtxcnt_le_byte := Nat.le_of_ble_eq_true rfl }

def twoStreams (tid : Nat) : List (Nat × Cmd Nat) :=
  [(0, .emitVertex tid), (1, .emitVertex 7), (0, .emitVertex (10 + tid)), (1, .emitVertex 8)]

theorem nggGs_exports_triangles :
    (∃ ex : culledTriangles.Execution twoStrips fun _ => .byte 0xff,
      culledTriangles.assembled (List.ofFn ex.exports) =
        [[some 0, some 1, some 2], [some 4, some 5, some 6]]) ∧
    ∃ ex : knownPoints.Execution twoStreams fun _ => .byte 0xff,
      knownPoints.outputCompileTimeKnown = true ∧
      knownPoints.assembled (List.ofFn ex.exports) =
        [[some 0], [some 10], [some 1], [some 11], [some 2], [some 12]] := by
  obtain ⟨ex⟩ := nonempty_execution culledTriangles twoStrips fun _ => .byte 0xff
  obtain ⟨ex'⟩ := nonempty_execution knownPoints twoStreams fun _ => .byte 0xff
  refine ⟨⟨ex, ?_⟩, ex', by decide, ?_⟩
  · rw [nggGs_exports culledTriangles twoStrips (by decide) (by decide) _ ex]
    decide
  · rw [nggGs_exports knownPoints twoStreams (by decide) (by decide) _ ex']
    decide

theorem nggGs_allocation_triangles :
    (∃ ex : culledTriangles.Execution twoStrips fun _ => .byte 0xff,
      ex.allocation.request.toNat % 2 ^ 12 = 6 ∧ ex.allocation.request.toNat / 2 ^ 12 = 12 ∧
        ex.allocation.degenerate.isNone = true) ∧
    ∃ ex : culledTriangles.Execution shortStrips fun _ => .byte 0xff,
      ex.allocation.request.toNat % 2 ^ 12 = 1 ∧ ex.allocation.request.toNat / 2 ^ 12 = 1 ∧
        ex.allocation.degenerate.isSome = true := by
  have hsome : culledTriangles.rankAt
      (fun tid => onStream culledTriangles.layout.info 0 (twoStrips tid))
      culledTriangles.workgroupSize = 6 := by decide +kernel
  have hnone : culledTriangles.rankAt
      (fun tid => onStream culledTriangles.layout.info 0 (shortStrips tid))
      culledTriangles.workgroupSize = 0 := by decide +kernel
  obtain ⟨ex⟩ := nonempty_execution culledTriangles twoStrips fun _ => .byte 0xff
  obtain ⟨ex'⟩ := nonempty_execution culledTriangles shortStrips fun _ => .byte 0xff
  refine ⟨⟨ex, ?_⟩, ex', ?_⟩
  · obtain ⟨hvertices, hprimitives⟩ := ex.length_exports (by decide) (by decide)
    obtain ⟨hlow, hhigh, _, _, hdegenerate, _⟩ :=
      nggGs_allocation culledTriangles twoStrips (by decide) (by decide) _ ex
    rw [hvertices, hsome] at hdegenerate hlow
    rw [hprimitives, hsome] at hhigh
    have hd : ex.allocation.degenerate = none :=
      Option.eq_none_iff_forall_not_mem.mpr fun d hd => absurd (hdegenerate d hd).2.1 (by decide)
    rw [hlow, hhigh, hd]
    decide
  · obtain ⟨hvertices, hprimitives⟩ := ex'.length_exports (by decide) (by decide)
    obtain ⟨hlow, hhigh, _, _, _, hnonzero⟩ :=
      nggGs_allocation culledTriangles shortStrips (by decide) (by decide) _ ex'
    rw [hvertices, hnone] at hlow
    rw [hhigh, hprimitives, hnone] at hnonzero
    rw [hprimitives, hnone] at hhigh
    cases hd : ex'.allocation.degenerate with
    | none =>
      rw [hd] at hnonzero
      exact absurd rfl (hnonzero rfl (by decide))
    | some d =>
      rw [hd] at hlow hhigh
      exact ⟨hlow, hhigh, rfl⟩

end Executions

end NggGs

end Psbc.Ngg
