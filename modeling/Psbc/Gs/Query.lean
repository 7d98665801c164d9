import Mathlib.Algebra.BigOperators.Group.List.Basic
import Mathlib.Algebra.BigOperators.Pi
import Mathlib.Data.BitVec
import Psbc.Gs.Streams
import Psbc.Lib.Additive

/-!
# Primitive queries

`ac_nir_gs_shader_query` computes the number of primitives that a wave's geometry shaders emit to
a stream from their counts of vertices and of strips. Counts that are compile-time constants are
multiplied by the number of lanes, others are added up over the lanes. The result is added once for
the wave, to a counter of the stream and to one that all streams share.
-/

namespace Psbc.Gs

open Atomic

variable {D : Type} (info : Info)

def gsPrmCnt (vertexCount primitiveCount : Nat) : BitVec 32 :=
  if 1 < info.outputPrimitive.vertices then
    BitVec.ofNat 32 primitiveCount *
      BitVec.ofInt 32 (-((info.outputPrimitive.vertices : Int) - 1)) + BitVec.ofNat 32 vertexCount
  else BitVec.ofNat 32 primitiveCount

/-- `total_prm_cnt`: the primitives of every invocation, when the counts are constants. -/
def totalPrmCnt (gsVtxCnt gsPrmCnt : Nat) : BitVec 32 :=
  BitVec.ofNat 32 gsVtxCnt -
    BitVec.ofNat 32 gsPrmCnt * BitVec.ofNat 32 (info.outputPrimitive.vertices - 1)

/-- `num_prims_in_wave` of a stream, where `none` is the null pointer. `known` has the counts that
are constants. -/
def numPrimsInWave (known : Nat → Option (Nat × Nat)) (lanes : List (List (Nat × Cmd D)))
    (stream : Nat) : Option (BitVec 32) :=
  if info.active stream then
    match known stream with
    | some counts =>
      if totalPrmCnt info counts.1 counts.2 = 0 then none
      else some (BitVec.ofNat 32 lanes.length * totalPrmCnt info counts.1 counts.2)
    | none =>
      some (lanes.map fun cmds =>
        gsPrmCnt info (streamCounts info cmds stream).1 (streamCounts info cmds stream).2).sum
  else none

inductive QueryCell where
  | gsEmitPrimCount
  | shaderInvocationCount
  | genPrimCount (stream : Nat)
  deriving DecidableEq, Repr

/-- The queries that the shader is compiled for and those that are enabled when it runs. -/
structure Queries where
  hasGenPrimQuery : Bool
  hasGsInvocationsQuery : Bool
  hasGsPrimitivesQuery : Bool
  primGenQueryEnabled : Bool
  pipelineStatQueryEnabled : Bool

/-- All streams' numbers in one. -/
def allStreams (prims : Nat → Option (BitVec 32)) : Option (BitVec 32) :=
  (List.range 4).foldl (fun count i =>
    match prims i with
    | some p => some (match count with
      | some count => count + p
      | none => p)
    | none => count) none

/-- What the first active lane of a wave adds. -/
def Queries.additions (q : Queries) (known : Nat → Option (Nat × Nat))
    (lanes : List (List (Nat × Cmd D))) : List (QueryCell × BitVec 32) :=
  let prims := numPrimsInWave info known lanes
  let pipelineQuery :=
    (q.hasGsInvocationsQuery || q.hasGsPrimitivesQuery) && q.pipelineStatQueryEnabled
  let primGenQuery := q.hasGenPrimQuery && q.primGenQueryEnabled
  if (primGenQuery || pipelineQuery) && !lanes.isEmpty then
    (if pipelineQuery then
      (if q.hasGsPrimitivesQuery then
        ((allStreams prims).map (QueryCell.gsEmitPrimCount, ·)).toList else []) ++
      (if q.hasGsInvocationsQuery then
        [(QueryCell.shaderInvocationCount, BitVec.ofNat 32 lanes.length)] else [])
    else []) ++
    (if primGenQuery then
      (List.range 4).filterMap fun i => (prims i).map (QueryCell.genPrimCount i, ·)
    else [])
  else []

def addAll : List (QueryCell × BitVec 32) → Prog QueryCell (BitVec 32) Unit
  | [] => .ret ()
  | (c, v) :: adds => .rmw c (· + v) fun _ => addAll adds

def acNirGsShaderQuery (q : Queries) (known : Nat → Option (Nat × Nat))
    (lanes : List (List (Nat × Cmd D))) : Prog QueryCell (BitVec 32) Unit :=
  addAll (q.additions info known lanes)

/-- The constants are the counts of every invocation. -/
def KnownIn (known : Nat → Option (Nat × Nat)) (lanes : List (List (Nat × Cmd D))) : Prop :=
  ∀ stream counts, known stream = some counts → ∀ cmds ∈ lanes,
    streamCounts info cmds stream = counts

def primitives (provokingFirst : Bool) (cmds : List (Cmd D)) : List (List D) :=
  (strips info.outputPrimitive cmds).flatMap
    (stripPrimitives info.outputPrimitive provokingFirst fun _ => true)

theorem length_filterMap_range {α : Type} (a n : Nat) (f : Nat → α) :
    ((List.range n).filterMap fun j => if a ≤ j then some (f j) else none).length = n - a := by
  induction n with
  | zero => simp
  | succ n ih =>
    rw [List.range_succ, List.filterMap_append, List.length_append, ih]
    by_cases h : a ≤ n
    · simp [h]
      omega
    · simp [h]
      omega

theorem length_stripPrimitives (p : OutputPrimitive) (first : Bool) (strip : List D) :
    (stripPrimitives p first (fun _ => true) strip).length = strip.length - (p.vertices - 1) := by
  simp only [stripPrimitives, completes, Bool.and_true, decide_eq_true_eq]
  exact length_filterMap_range _ _ _

/-- Every strip has one primitive less for each vertex that only begins one. -/
theorem length_primitives (first : Bool) {kept : List (List D)}
    (h : ∀ strip ∈ kept, info.outputPrimitive.vertices ≤ strip.length) :
    (kept.flatMap (stripPrimitives info.outputPrimitive first fun _ => true)).length +
        kept.length * (info.outputPrimitive.vertices - 1) =
      (kept.flatMap (numbered info)).length := by
  induction kept with
  | nil => simp
  | cons strip kept ih =>
    have hlen := h strip List.mem_cons_self
    have hrest := ih fun strip hmem => h strip (List.mem_cons_of_mem _ hmem)
    rw [List.flatMap_cons, List.flatMap_cons, List.length_append, List.length_append,
      length_stripPrimitives, length_numbered, List.length_cons, Nat.succ_mul]
    omega

theorem ofInt_neg_vertices (h : 1 < info.outputPrimitive.vertices) :
    BitVec.ofInt 32 (-((info.outputPrimitive.vertices : Int) - 1)) =
      -BitVec.ofNat 32 (info.outputPrimitive.vertices - 1) := by
  rw [BitVec.ofInt_neg, ← BitVec.ofInt_natCast, Int.natCast_sub (Nat.le_of_lt h)]
  rfl

/-- The product with the negated number takes the strips' first vertices away. -/
theorem gsPrmCnt_eq {cmds : List (Cmd D)} (first : Bool)
    (hfits : emitCount cmds ≤ info.verticesOut) :
    gsPrmCnt info ((emissions info Counters.start cmds).2.finish info).1
        ((emissions info Counters.start cmds).2.finish info).2 =
      BitVec.ofNat 32 (primitives info first cmds).length := by
  obtain ⟨hvertices, hprims, -⟩ := emissions_finish info hfits (fun _ => none)
  have hlen := length_primitives info first
    fun strip (hmem : strip ∈ strips info.outputPrimitive cmds) => complete_of_mem_strips hmem
  rw [← hvertices] at hlen
  unfold gsPrmCnt primitives
  cases hpoints : info.isPoints with
  | true =>
    have hp : info.outputPrimitive.vertices = 1 := by
      rw [Info.isPoints, decide_eq_true_eq] at hpoints
      rw [hpoints]
      rfl
    rw [hp] at hlen
    rw [if_neg (by omega)]
    simp only [Counters.finish, hpoints, if_true] at hlen ⊢
    rw [← hlen, Nat.mul_zero, Nat.add_zero]
  | false =>
    have hone : 1 < info.outputPrimitive.vertices := by
      rw [Info.isPoints, decide_eq_false_iff_not] at hpoints
      cases hp : info.outputPrimitive with
      | points => exact absurd hp hpoints
      | lineStrip => decide
      | triangleStrip => decide
    rw [if_pos hone, hprims hpoints, ofInt_neg_vertices info hone, ← hlen, BitVec.ofNat_add,
      BitVec.ofNat_mul, BitVec.mul_neg]
    grind

theorem totalPrmCnt_eq {cmds : List (Cmd D)} (first : Bool)
    (hfits : emitCount cmds ≤ info.verticesOut) :
    totalPrmCnt info ((emissions info Counters.start cmds).2.finish info).1
        ((emissions info Counters.start cmds).2.finish info).2 =
      BitVec.ofNat 32 (primitives info first cmds).length := by
  rw [← gsPrmCnt_eq info first hfits]
  have hpos : 1 ≤ info.outputPrimitive.vertices := by cases info.outputPrimitive <;> decide
  unfold totalPrmCnt gsPrmCnt
  split
  next hone =>
    rw [ofInt_neg_vertices info hone, BitVec.mul_neg]
    grind
  next hone =>
    have hvertices : info.outputPrimitive.vertices = 1 := by omega
    have hpoints : info.isPoints = true := by
      unfold Info.isPoints
      cases hp : info.outputPrimitive <;> simp_all [OutputPrimitive.vertices]
    simp [Counters.finish, hpoints, hvertices]

section Stream

variable {known : Nat → Option (Nat × Nat)} {lanes : List (List (Nat × Cmd D))} {stream : Nat}

def streamPrimitives (lanes : List (List (Nat × Cmd D))) (stream : Nat) : List (List D) :=
  lanes.flatMap fun cmds => primitives info false (onStream info stream cmds)

theorem streamPrimitives_cons (cmds : List (Nat × Cmd D)) :
    streamPrimitives info (cmds :: lanes) stream =
      primitives info false (onStream info stream cmds) ++ streamPrimitives info lanes stream :=
  rfl

theorem streamPrimitives_of_inactive (h : info.active stream = false) :
    streamPrimitives info lanes stream = [] := by
  refine List.flatMap_eq_nil_iff.mpr fun cmds _ => ?_
  rw [onStream_of_inactive h]
  cases hp : info.outputPrimitive <;>
    simp [primitives, strips, stripsFrom, hp, OutputPrimitive.vertices]

variable (hfits : ∀ cmds ∈ lanes, emitCount (onStream info stream cmds) ≤ info.verticesOut)
include hfits

theorem sum_gsPrmCnt :
    (lanes.map fun cmds => gsPrmCnt info (streamCounts info cmds stream).1
        (streamCounts info cmds stream).2).sum =
      BitVec.ofNat 32 (streamPrimitives info lanes stream).length := by
  induction lanes with
  | nil => rfl
  | cons cmds lanes ih =>
    have hrest := ih fun cmds hmem => hfits cmds (List.mem_cons_of_mem _ hmem)
    rw [List.map_cons, List.sum_cons, hrest, streamCounts_eq,
      gsPrmCnt_eq info false (hfits cmds List.mem_cons_self), streamPrimitives_cons,
      List.length_append, BitVec.ofNat_add]

theorem length_mul_totalPrmCnt {counts : Nat × Nat}
    (hcounts : ∀ cmds ∈ lanes, streamCounts info cmds stream = counts) :
    BitVec.ofNat 32 lanes.length * totalPrmCnt info counts.1 counts.2 =
      BitVec.ofNat 32 (streamPrimitives info lanes stream).length := by
  induction lanes with
  | nil => simp [streamPrimitives]
  | cons cmds lanes ih =>
    have hrest := ih (fun cmds hmem => hfits cmds (List.mem_cons_of_mem _ hmem))
      fun cmds hmem => hcounts cmds (List.mem_cons_of_mem _ hmem)
    have hhere : totalPrmCnt info counts.1 counts.2 =
        BitVec.ofNat 32 (primitives info false (onStream info stream cmds)).length := by
      rw [← hcounts cmds List.mem_cons_self, streamCounts_eq,
        totalPrmCnt_eq info false (hfits cmds List.mem_cons_self)]
    rw [streamPrimitives_cons, List.length_append, List.length_cons, BitVec.ofNat_add,
      BitVec.ofNat_add, ← hhere, BitVec.add_mul, hrest, BitVec.one_mul, BitVec.add_comm]

theorem numPrimsInWave_getD (hknown : KnownIn info known lanes) :
    (numPrimsInWave info known lanes stream).getD 0 =
      BitVec.ofNat 32 (streamPrimitives info lanes stream).length := by
  unfold numPrimsInWave
  split
  next =>
    split
    next counts hcounts =>
      have hproduct := length_mul_totalPrmCnt info hfits (hknown stream counts hcounts)
      split
      next hzero => rw [← hproduct, hzero, mul_zero]; rfl
      next => exact hproduct
    next => exact sum_gsPrmCnt info hfits
  next hactive =>
    rw [streamPrimitives_of_inactive info (Bool.not_eq_true _ ▸ hactive)]
    rfl

end Stream

theorem getD_allStreams (prims : Nat → Option (BitVec 32)) :
    (allStreams prims).getD 0 = ((List.range 4).map fun i => (prims i).getD 0).sum := by
  have hfold : ∀ (l : List Nat) (count : Option (BitVec 32)),
      (l.foldl (fun count i =>
        match prims i with
        | some p => some (match count with
          | some count => count + p
          | none => p)
        | none => count) count).getD 0 = count.getD 0 + (l.map fun i => (prims i).getD 0).sum := by
    intro l
    induction l with
    | nil => simp
    | cons i l ih =>
      intro count
      rw [List.foldl_cons, ih, List.map_cons, List.sum_cons, ← add_assoc]
      congr 1
      cases prims i <;> cases count <;> simp
  rw [allStreams, hfold]
  exact zero_add _

/-! ## All waves -/

/-- What a list of additions adds to a counter. -/
def totalOf (adds : List (QueryCell × BitVec 32)) (c : QueryCell) : BitVec 32 :=
  (adds.map fun a => if a.1 = c then a.2 else 0).sum

theorem totalOf_append (adds adds' : List (QueryCell × BitVec 32)) (c : QueryCell) :
    totalOf (adds ++ adds') c = totalOf adds c + totalOf adds' c := by
  rw [totalOf, List.map_append, List.sum_append]
  rfl

theorem totalOf_ite (p : Bool) (adds : List (QueryCell × BitVec 32)) (c : QueryCell) :
    totalOf (if p then adds else []) c = if p then totalOf adds c else 0 := by
  cases p <;> rfl

theorem totalOf_singleton (a c : QueryCell) (v : BitVec 32) :
    totalOf [(a, v)] c = if a = c then v else 0 := by
  simp [totalOf]

theorem totalOf_option (a c : QueryCell) (v : Option (BitVec 32)) :
    totalOf (v.map (a, ·)).toList c = if a = c then v.getD 0 else 0 := by
  cases v <;> simp [totalOf]

theorem totalOf_streams (prims : Nat → Option (BitVec 32)) (c : QueryCell) (n : Nat) :
    totalOf ((List.range n).filterMap fun i => (prims i).map (QueryCell.genPrimCount i, ·)) c =
      match c with
      | .genPrimCount s => if s < n then (prims s).getD 0 else 0
      | _ => 0 := by
  induction n with
  | zero => cases c <;> rfl
  | succ n ih =>
    have hlast : [n].filterMap (fun i => (prims i).map (QueryCell.genPrimCount i, ·)) =
        ((prims n).map (QueryCell.genPrimCount n, ·)).toList := by
      cases hn : prims n <;> simp [hn]
    rw [List.range_succ, List.filterMap_append, totalOf_append, ih, hlast, totalOf_option]
    cases c with
    | genPrimCount s =>
      rcases Nat.lt_trichotomy s n with hs | rfl | hs
      · simp [hs, Nat.lt_succ_of_lt hs, Nat.ne_of_gt hs]
      · simp
      · simp [Nat.not_lt.mpr (Nat.le_of_lt hs), Nat.not_lt.mpr (Nat.succ_le_of_lt hs),
          Nat.ne_of_lt hs]
    | gsEmitPrimCount => simp
    | shaderInvocationCount => simp

theorem adds_addAll (m : QueryCell → BitVec 32) (adds : List (QueryCell × BitVec 32)) :
    Adds (fun _ => False) m (addAll adds) () (totalOf adds) := by
  induction adds with
  | nil => exact .ret ()
  | cons a adds ih =>
    have htotal : totalOf (a :: adds) = Pi.single a.1 a.2 + totalOf adds := by
      funext c
      by_cases hc : a.1 = c
      · subst hc
        simp [totalOf]
      · simp [totalOf, hc]
    rw [htotal]
    exact .add a.2 id (fun _ => rfl) fun _ => ih

/-- What a query is to count in a wave. -/
def Queries.amount (q : Queries) (lanes : List (List (Nat × Cmd D))) : QueryCell → Nat
  | .gsEmitPrimCount =>
    if q.hasGsPrimitivesQuery && q.pipelineStatQueryEnabled then
      ((List.range 4).map fun stream => (streamPrimitives info lanes stream).length).sum else 0
  | .shaderInvocationCount =>
    if q.hasGsInvocationsQuery && q.pipelineStatQueryEnabled then lanes.length else 0
  | .genPrimCount stream =>
    if q.hasGenPrimQuery && q.primGenQueryEnabled then
      (streamPrimitives info lanes stream).length else 0

theorem totalOf_additions (q : Queries) {known : Nat → Option (Nat × Nat)}
    {lanes : List (List (Nat × Cmd D))}
    (hfits : ∀ cmds ∈ lanes, ∀ stream, emitCount (onStream info stream cmds) ≤ info.verticesOut)
    (hknown : KnownIn info known lanes) (c : QueryCell) :
    totalOf (q.additions info known lanes) c = BitVec.ofNat 32 (q.amount info lanes c) := by
  have hprims : ∀ stream, (numPrimsInWave info known lanes stream).getD 0 =
      BitVec.ofNat 32 (streamPrimitives info lanes stream).length := fun stream =>
    numPrimsInWave_getD info (fun cmds hmem => hfits cmds hmem stream) hknown
  unfold Queries.additions
  dsimp only
  rw [totalOf_ite]
  simp only [totalOf_append, totalOf_ite, totalOf_singleton, totalOf_option, totalOf_streams,
    getD_allStreams, hprims]
  cases lanes with
  | nil => cases c <;> simp [Queries.amount, streamPrimitives]
  | cons cmds lanes =>
    have hsum : ((List.range 4).map fun i => BitVec.ofNat 32
        (streamPrimitives info (cmds :: lanes) i).length).sum = BitVec.ofNat 32
          ((List.range 4).map fun i => (streamPrimitives info (cmds :: lanes) i).length).sum := by
      simp only [← BitVec.natCast_eq_ofNat, Nat.cast_list_sum, List.map_map, Function.comp_def]
    rw [List.isEmpty_cons, Bool.not_false, Bool.and_true, hsum]
    obtain ⟨gen, inv, prims, genOn, statOn⟩ := q
    cases c with
    | gsEmitPrimCount =>
      cases inv <;> cases prims <;> cases statOn <;> simp [Queries.amount]
    | shaderInvocationCount =>
      cases inv <;> cases prims <;> cases statOn <;> simp [Queries.amount]
    | genPrimCount s =>
      have hnone : 4 ≤ s → streamPrimitives info (cmds :: lanes) s = [] := fun hs =>
        streamPrimitives_of_inactive info
          (Bool.eq_false_iff.mpr fun hactive => absurd (Info.lt_four_of_active hactive) (by omega))
      rcases Nat.lt_or_ge s 4 with hs | hs
      · cases gen <;> cases genOn <;> simp [Queries.amount, hs]
      · simp [Queries.amount, hnone hs, Nat.not_lt.mpr hs]

/-- **The queries count what the shaders emit.** Whatever the order in which the waves add to the
counters, each counter ends at its value before plus the number of primitives of its stream, of
primitives of all streams, or of invocations, of all waves. -/
theorem gsShaderQuery_counts (q : Queries) (known : Nat → Option (Nat × Nat))
    (waves : Nat → List (List (Nat × Cmd D))) {n : Nat}
    (hfits : ∀ w < n, ∀ cmds ∈ waves w, ∀ stream,
      emitCount (onStream info stream cmds) ≤ info.verticesOut)
    (hknown : ∀ w < n, KnownIn info known (waves w))
    (m : QueryCell → BitVec 32) (sched : List (Fin n))
    (hdone : ((⟨fun w => acNirGsShaderQuery info q known (waves w), m⟩ :
      Pool (Fin n) QueryCell (BitVec 32) Unit).exec sched).Finished) (c : QueryCell) :
    ((⟨fun w => acNirGsShaderQuery info q known (waves w), m⟩ :
        Pool (Fin n) QueryCell (BitVec 32) Unit).exec sched).mem c =
      m c + BitVec.ofNat 32 (∑ w ∈ Finset.range n, q.amount info (waves w) c) := by
  have hadds : ∀ w < n, Adds (fun _ => False) m (acNirGsShaderQuery info q known (waves w)) ()
      (totalOf (q.additions info known (waves w))) := fun w _ => adds_addAll m _
  rw [(exec_isSeq_of_adds hadds sched hdone).mem, (seqMem_of_adds hadds n (Nat.le_refl n)).2,
    Pi.add_apply, Finset.sum_apply]
  congr 1
  rw [← BitVec.natCast_eq_ofNat, Nat.cast_sum]
  refine Finset.sum_congr rfl fun w hw => ?_
  have hw := Finset.mem_range.mp hw
  rw [totalOf_additions info q (hfits w hw) (hknown w hw), BitVec.natCast_eq_ofNat]

/-- Line strips on stream 0, and on stream 2 one line in each invocation. -/
def lineCommands : Nat → List (List (Nat × Cmd Nat))
  | 0 => [[(0, .emitVertex 1), (2, .emitVertex 7), (0, .emitVertex 2), (0, .emitVertex 3),
      (2, .emitVertex 8)]]
  | _ => [[(0, .emitVertex 4), (0, .emitVertex 5), (0, .endPrimitive), (2, .emitVertex 7),
      (2, .emitVertex 8), (0, .emitVertex 6)], [(2, .emitVertex 7), (2, .emitVertex 8)]]

def lineStrips : Info where
  outputPrimitive := .lineStrip
  verticesOut := 3
  activeStreamMask := 0b0101

/-- The compiler knows the counts of stream 2. -/
def lineCounts : Nat → Option (Nat × Nat)
  | 2 => some (2, 1)
  | _ => none

def allQueries : Queries := ⟨true, true, true, true, true⟩

theorem gsShaderQuery_counts_lines :
    let after := ((⟨fun w => acNirGsShaderQuery lineStrips allQueries lineCounts (lineCommands w),
      fun _ => 7#32⟩ : Pool (Fin 2) QueryCell (BitVec 32) Unit).exec [0, 1, 1, 0, 0, 1, 1, 0])
    after.mem (.genPrimCount 0) = 10#32 ∧ after.mem (.genPrimCount 2) = 10#32 ∧
      after.mem .gsEmitPrimCount = 13#32 ∧ after.mem .shaderInvocationCount = 10#32 := by
  have hstreams : ∀ w < 2, ∀ cmds ∈ lineCommands w, ∀ stream < 4,
      emitCount (onStream lineStrips stream cmds) ≤ lineStrips.verticesOut := by
    decide
  have hfits : ∀ w < 2, ∀ cmds ∈ lineCommands w, ∀ stream,
      emitCount (onStream lineStrips stream cmds) ≤ lineStrips.verticesOut := by
    intro w hw cmds hmem stream
    cases hactive : lineStrips.active stream with
    | true => exact hstreams w hw cmds hmem stream (Info.lt_four_of_active hactive)
    | false => rw [onStream_of_inactive hactive]; decide
  have hline : ∀ w < 2, ∀ cmds ∈ lineCommands w, streamCounts lineStrips cmds 2 = (2, 1) := by
    decide
  have hknown : ∀ w < 2, KnownIn lineStrips lineCounts (lineCommands w) := by
    intro w hw stream counts hcounts
    unfold lineCounts at hcounts
    split at hcounts
    · cases hcounts
      exact hline w hw
    · cases hcounts
  have hcounts := gsShaderQuery_counts lineStrips allQueries lineCounts lineCommands hfits hknown
    (fun _ => 7#32) [0, 1, 1, 0, 0, 1, 1, 0] (by decide)
  exact ⟨(hcounts _).trans (by decide), (hcounts _).trans (by decide),
    (hcounts _).trans (by decide), (hcounts _).trans (by decide)⟩

end Psbc.Gs
