import Psbc.Ngg.GsLds

/-!
# The finale of an NGG geometry shader

After a barrier the threads of the workgroup take over the records, one each: they cull the
primitives, find out which vertices are live, number the live ones with a repack and tell the
thread that exports a vertex where it is. Then thread `t` exports the primitive that vertex `t`
completes, if it does, and every thread below the number of live vertices exports one of them.
When the compiler knows that every invocation fills its records, all vertices are live and each
thread exports its own without more ado.

Between two barriers the threads, or the waves where their lanes ballot, form a `Phase`. An
`Execution` has the phases of a workgroup whose shader has no transform feedback.
-/

namespace Psbc.Ngg

open Atomic Gs

/-- A geometry shader lowered for NGG and a workgroup that runs it. The counts of the first stream
are there if they are compile-time constants; `accept` is the culling test on the vertices of a
primitive. -/
structure NggGs (D : Type) where
  layout : GsLayout
  waveSize : Nat
  numWaves : Nat
  numGsThreads : Nat
  useDot : Bool
  gfx12 : Bool
  hasNggFullyCulledBug : Bool
  provokingFirst : Bool
  canCull : Bool
  cullAnyEnabled : Bool
  constOutVtxcnt : Option Nat
  constOutPrmcnt : Option Nat
  accept : List D → Bool
  waveSize_eq : waveSize = 32 ∨ waveSize = 64
  numWaves_pos : 0 < numWaves
  numWaves_le : numWaves ≤ layout.maxNumWaves
  maxNumWaves_le : layout.maxNumWaves ≤ 8
  /-- Every vertex has a thread. -/
  maxVtxcnt_le : layout.maxVtxcnt numGsThreads ≤ numWaves * waveSize
  /-- The id of a vertex fits into a byte. -/
  maxVtxcnt_le_byte : layout.maxVtxcnt numGsThreads ≤ 256

/-- What a thread exports: the argument of the primitive export, and the outputs of a vertex. -/
structure LaneExport (D : Type) where
  primitive : Option (BitVec 32)
  vertex : Option (Option D)

namespace NggGs

variable {D : Type} (c : NggGs D)

def prim : OutputPrimitive := c.layout.info.outputPrimitive

def numVerticesPerPrimitive : Nat := c.prim.vertices

/-- `load_workgroup_num_input_vertices_amd` -/
def maxVtxcnt : Nat := c.layout.maxVtxcnt c.numGsThreads

def workgroupSize : Nat := c.numWaves * c.waveSize

/-- Whether primitives are culled when the shader runs. -/
def culls : Bool := c.canCull && c.cullAnyEnabled

def outputCompileTimeKnown : Bool :=
  !c.canCull && decide (c.constOutVtxcnt = some c.layout.info.verticesOut) &&
    c.constOutPrmcnt.isSome && decide (0 < c.layout.info.verticesOut)

def repack : Repack where
  waveSize := c.waveSize
  maxNumWaves := c.layout.maxNumWaves
  numWaves := c.numWaves
  numRepacks := 1
  ldsAddrBase := c.layout.ldsAddrGsOutVtx
  useDot := c.useDot
  waveSize_eq := c.waveSize_eq
  numWaves_pos := c.numWaves_pos
  numWaves_le := c.numWaves_le
  maxNumWaves_le := c.maxNumWaves_le
  numRepacks_le := Nat.le_succ 1

/-! ## Culling -/

/-- `ngg_gs_load_out_vtx_primflag` for the first stream -/
def loadOutVtxPrimflag (tid : Nat) : Prog LdsCell (LdsValue D) (BitVec 32) :=
  if tid < c.maxVtxcnt then
    .rmw (c.layout.primflag tid 0) id fun v => .ret (v.toByte.setWidth 32)
  else .ret 0

/-- `nir_ubfe_imm(primflag, 1, 1)` -/
def isOdd (primflag : BitVec 32) : BitVec 32 := (primflag >>> 1) &&& 1

/-- `ngg_gs_out_prim_all_vtxptr`: the vertices of the primitive that a vertex completes. -/
def outPrimAllVtx (lastVtxidx : Nat) (lastVtxPrimflag : BitVec 32) : List Nat :=
  let lastVtx := c.numVerticesPerPrimitive - 1
  ((List.range lastVtx).map fun i =>
    let vtxidx := BitVec.ofNat 32 lastVtxidx - BitVec.ofNat 32 (lastVtx - i)
    let vtxidx :=
      if c.numVerticesPerPrimitive = 3 then
        if i = 0 then vtxidx + isOdd lastVtxPrimflag else vtxidx - isOdd lastVtxPrimflag
      else vtxidx
    vtxidx.toNat) ++ [lastVtxidx]

/-- The first half of `ngg_gs_cull_primitive`: the flags of a primitive that is rejected are
cleared. -/
def cullPrimitive (tid : Nat) : Prog LdsCell (LdsValue D) (BitVec 32) :=
  (c.loadOutVtxPrimflag tid).bind fun primflag =>
    if primflag.getLsbD 0 && decide (tid < c.maxVtxcnt) then
      (Prog.loadAll
        ((c.outPrimAllVtx tid primflag).map (c.layout.outputs · 0))).bind fun vertices =>
        if c.accept (vertices.filterMap LdsValue.toOutputs) then .ret primflag
        else .rmw (c.layout.primflag tid 0) (fun _ => .byte 0) fun _ => .ret 0
    else .ret primflag

/-- The second half, after a barrier: a vertex without flags is live if one of the next ones
completes a primitive. -/
def revive (tid : Nat) (primflag : BitVec 32) : Prog LdsCell (LdsValue D) (BitVec 32) :=
  if primflag = 0 ∧ tid < c.maxVtxcnt then
    (Prog.loadAll (((List.range' (tid + 1) (c.numVerticesPerPrimitive - 1)).filter
      (· < c.maxVtxcnt)).map (c.layout.primflag · 0))).bind fun flags =>
        .ret (flags.foldl (fun primflag v =>
          primflag ||| if (v.toByte.setWidth 32).getLsbD 0 then 0b100 else 0) primflag)
  else .ret primflag

/-- What runs before the barrier in the middle of the culling. -/
def cullThread (tid : Nat) : Prog LdsCell (LdsValue D) (BitVec 32) :=
  if c.culls then c.cullPrimitive tid else .ret 0

/-- The flags that decide whether the vertex of a thread is live. -/
def updatedPrimflag (tid : Nat) (culled : BitVec 32) : Prog LdsCell (LdsValue D) (BitVec 32) :=
  if c.culls then c.revive tid culled else c.loadOutVtxPrimflag tid

/-! ## Compaction -/

def liveMask (primflags : List (BitVec 32)) (_repack lane : Nat) : Bool :=
  decide (primflags.getD lane 0 ≠ 0)

/-- The lanes of wave `wave` find their flags, ballot, and the wave stores its count. -/
def ballotWave (wave : Nat) (culled : Nat → BitVec 32) :
    Prog LdsCell (LdsValue D) (List (BitVec 32)) :=
  (Prog.each (fun lane => c.updatedPrimflag (wave * c.waveSize + lane)
    (culled (wave * c.waveSize + lane))) c.waveSize).bind fun primflags =>
      (Prog.storeAll (c.repack.stores (ldsBytes D) wave (liveMask primflags))).bind fun _ =>
        .ret primflags

/-- `ngg_gs_setup_vertex_compaction`: the live lanes of a wave leave their ids in the flags of the
second stream of the threads that export their vertices. -/
def compactionStores (wave : Nat) (primflags : List (BitVec 32)) (rep : WgRepackResult) :
    List (LdsCell × LdsValue D) :=
  ((List.range c.waveSize).filter (liveMask primflags 0)).map fun lane =>
    (c.layout.primflag (rep.repackedInvocationIndex lane).toNat 1,
      .byte (BitVec.ofNat 8 (wave * c.waveSize + lane)))

/-- The rest of the repack and the compaction in wave `wave`. -/
def compactWave (wave : Nat) (primflags : List (BitVec 32)) (undef : Nat → Nat → BitVec 32) :
    Prog LdsCell (LdsValue D) WgRepackResult :=
  (Prog.loadAll (c.repack.loads (ldsBytes D))).bind fun counts =>
    let rep := c.repack.result wave (liveMask primflags) (counts.map LdsValue.toByte) undef 0
    (Prog.storeAll (c.compactionStores wave primflags rep)).bind fun _ => .ret rep

/-! ## Exports -/

def vtxIndices (exporterTid primflag : BitVec 32) : List (BitVec 32) :=
  let v2 := exporterTid
  let v1 := exporterTid - 1
  let v0 := exporterTid - 2
  match c.prim with
  | .points => [v2]
  | .lineStrip => [v1, v2]
  | .triangleStrip =>
    if c.provokingFirst then [v0, v1 + isOdd primflag, v2 - isOdd primflag]
    else [v0 + isOdd primflag, v1 - isOdd primflag, v2]

/-- The width of a vertex index with its edge flag. -/
def indexStride : Nat := if c.gfx12 then 9 else 10

/-- `ac_nir_pack_ngg_prim_exp_arg`, with no initial edge flags. -/
def packNggPrimExpArg (vertexIndices : List (BitVec 32)) (isNullPrim : BitVec 32) : BitVec 32 :=
  let arg := vertexIndices.zipIdx.foldl
    (fun (arg : BitVec 32) (v : BitVec 32 × Nat) => arg ||| (v.1 <<< (c.indexStride * v.2))) 0
  arg ||| (isNullPrim <<< 31)

/-- `ngg_gs_process_out_primitive` -/
def processOutPrimitive (exporterTid primflag : BitVec 32) : BitVec 32 :=
  c.packNggPrimExpArg (c.vtxIndices exporterTid primflag) (primflag ^^^ BitVec.allOnes 32)

/-- `ngg_gs_process_out_vertex`: the outputs of the thread's own vertex, or of the one whose id it
finds. -/
def processOutVertex (tid : Nat) : Prog LdsCell (LdsValue D) (Option D) :=
  if c.outputCompileTimeKnown then
    .rmw (c.layout.outputs tid 0) id fun v => .ret v.toOutputs
  else
    .rmw (c.layout.primflag tid 1) id fun idx =>
      .rmw (c.layout.outputs idx.toByte.toNat 0) id fun v => .ret v.toOutputs

/-- `ngg_gs_emit_output` in thread `tid`, whose vertex is exported by `exporterTid`. -/
def emitOutput (tid maxNumOutVtx maxNumOutPrims : Nat) (exporterTid primflag : BitVec 32) :
    Prog LdsCell (LdsValue D) (LaneExport D) :=
  let primitive :=
    if tid < maxNumOutPrims then some (c.processOutPrimitive exporterTid primflag) else none
  if tid < maxNumOutVtx then
    (c.processOutVertex tid).bind fun vertex => .ret ⟨primitive, some vertex⟩
  else .ret ⟨primitive, none⟩

/-! ## Allocation -/

/-- The exports that keep the hardware from hanging when nothing else is exported. -/
structure DegenerateExport where
  primitive : BitVec 32
  position : List (BitVec 32)

/-- The message of the first wave, and what its first thread exports with it. -/
structure Allocation where
  request : BitVec 32
  degenerate : Option DegenerateExport

/-- `ac_nir_ngg_alloc_vertices_and_primitives` -/
def allocVerticesAndPrimitives (numVtx numPrim : BitVec 32) (fullyCulledWorkaround : Bool) :
    Allocation :=
  if fullyCulledWorkaround && decide (numPrim = 0) then
    ⟨(1 <<< 12) ||| 1, some ⟨0, List.replicate 4 (-1)⟩⟩
  else ⟨(numPrim <<< 12) ||| numVtx, none⟩

/-- The number of primitive exports after a compaction: none when no vertex is live. -/
def maxPrmcnt (numVertices : Nat) : Nat := if numVertices ≠ 0 then c.maxVtxcnt else 0

/-- The allocation for the vertices that are left. -/
def compactedAllocation (numVertices : BitVec 32) : Allocation :=
  allocVerticesAndPrimitives numVertices (BitVec.ofNat 32 (c.maxPrmcnt numVertices.toNat))
    c.hasNggFullyCulledBug

/-- The allocation when all vertices are known to be live. -/
def knownAllocation : Allocation :=
  allocVerticesAndPrimitives (BitVec.ofNat 32 c.maxVtxcnt) (BitVec.ofNat 32 c.maxVtxcnt)
    (decide (c.layout.info.verticesOut = 0) && c.hasNggFullyCulledBug)

/-! ## Executions -/

def byId {n : Nat} {α : Type} (f : Fin n → α) (none : α) (i : Nat) : α :=
  if h : i < n then f ⟨i, h⟩ else none

def knownThread (tid : Nat) : Prog LdsCell (LdsValue D) (LaneExport D) :=
  (c.loadOutVtxPrimflag tid).bind fun primflag =>
    c.emitOutput tid c.maxVtxcnt c.maxVtxcnt (BitVec.ofNat 32 tid) primflag

/-- `ngg_gs_finale`: the phases after the shaders, with what the threads export and the
allocation. -/
inductive Finale (emitted : LdsCell → LdsValue D) :
    (Fin c.workgroupSize → LaneExport D) → Allocation → Prop where
  | known {exports : Fin c.workgroupSize → LaneExport D} {final : LdsCell → LdsValue D}
      (hknown : c.outputCompileTimeKnown = true)
      (output : Phase (fun tid : Fin c.workgroupSize => c.knownThread tid) emitted exports final) :
      Finale emitted exports c.knownAllocation
  | compacted {culled : Fin c.workgroupSize → BitVec 32} {culledMem : LdsCell → LdsValue D}
      {primflags : Fin c.numWaves → List (BitVec 32)} {balloted : LdsCell → LdsValue D}
      {rep : Fin c.numWaves → WgRepackResult} {compacted : LdsCell → LdsValue D}
      {exports : Fin c.workgroupSize → LaneExport D} {final : LdsCell → LdsValue D}
      (undef : Nat → Nat → Nat → BitVec 32) (hknown : c.outputCompileTimeKnown = false)
      (cull : Phase (fun tid : Fin c.workgroupSize => c.cullThread tid) emitted culled culledMem)
      (ballot : Phase (fun wave : Fin c.numWaves => c.ballotWave wave (byId culled 0)) culledMem
        primflags balloted)
      (compact : Phase (fun wave : Fin c.numWaves =>
        c.compactWave wave (primflags wave) (undef wave)) balloted rep compacted)
      (output : Phase (fun tid : Fin c.workgroupSize =>
        let rep := byId rep ⟨0, fun _ => 0⟩ (tid / c.waveSize)
        c.emitOutput tid rep.numRepackedInvocations.toNat
          (c.maxPrmcnt rep.numRepackedInvocations.toNat)
          (rep.repackedInvocationIndex (tid % c.waveSize))
          ((byId primflags [] (tid / c.waveSize)).getD (tid % c.waveSize) 0))
        compacted exports final) :
      Finale emitted exports
        (c.compactedAllocation (rep ⟨0, c.numWaves_pos⟩).numRepackedInvocations)

/-- A workgroup whose invocations run `shader`, from the LDS `m`. -/
structure Execution (shader : Nat → List (Nat × Cmd D)) (m : LdsCell → LdsValue D) where
  emitted : LdsCell → LdsValue D
  exports : Fin c.workgroupSize → LaneExport D
  allocation : Allocation
  emit : Phase (fun tid : Fin c.numGsThreads => Prog.storeAll
    (c.layout.invocationStores (!c.culls) tid (shader tid))) m (fun _ => ()) emitted
  finale : c.Finale emitted exports allocation

/-! ## What the hardware makes of the exports -/

/-- The bit of a primitive export that says that there is no primitive. -/
def isNullPrim (arg : BitVec 32) : Bool := arg.getLsbD 31

def primIndex (arg : BitVec 32) (i : Nat) : Nat :=
  (arg >>> (c.indexStride * i)).toNat % 2 ^ (c.indexStride - 1)

def isNaN (word : BitVec 32) : Bool :=
  decide ((word >>> 23) &&& 0xff = 0xff) && decide (word &&& 0x7fffff ≠ 0)

/-- The primitives that are exported, with the exported vertices. -/
def assembled (exports : List (LaneExport D)) : List (List (Option D)) :=
  exports.filterMap fun x => x.primitive.bind fun arg =>
    if isNullPrim arg then none
    else some ((List.range c.numVerticesPerPrimitive).map fun i =>
      exports[c.primIndex arg i]?.bind fun y => y.vertex.bind id)

end NggGs

end Psbc.Ngg
