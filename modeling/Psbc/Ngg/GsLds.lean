import Psbc.Gs.Streams
import Psbc.Ngg.Repack

/-!
# LDS of an NGG geometry shader

Every vertex that a geometry shader of a workgroup may emit has a record in LDS: the outputs, and
a byte of flags for each stream. The record's place in the LDS is its number with some low bits
swizzled. While the shaders run each of them stores its vertices and, at the end, clears the flags
of the records that it has not used. `Emitted` is what the LDS then holds for the first stream,
the one that is exported.
-/

namespace Psbc.Ngg

open Atomic Gs

/-! ## Layout -/

/-- `ffs`: the lowest set bit of a 32-bit number, counted from one. -/
def ffs (n : Nat) : Nat :=
  match (List.range 32).find? (n.testBit ·) with
  | some i => i + 1
  | none => 0

/-- What decides where things are in the LDS. -/
structure GsLayout where
  info : Info
  maxNumWaves : Nat
  ldsAddrGsOutVtx : Nat
  totalPackedGsOutSize : Nat

/-- A byte of LDS, or the outputs of a stream in the record at an address. Every component of a
record belongs to one stream. -/
inductive LdsCell where
  | byte (addr : Nat)
  | outputs (stream addr : Nat)
  deriving DecidableEq, Repr

/-- The value of a cell; `D` is what the shader writes for a vertex. -/
inductive LdsValue (D : Type) where
  | byte (b : BitVec 8)
  | outputs (d : D)

instance (D : Type) : Nontrivial (LdsValue D) :=
  ⟨.byte 0, .byte 1, fun h => absurd (LdsValue.byte.inj h) (by decide)⟩

def LdsValue.toByte {D : Type} : LdsValue D → BitVec 8
  | byte b => b
  | outputs _ => 0

def LdsValue.toOutputs {D : Type} : LdsValue D → Option D
  | byte _ => none
  | outputs d => some d

def ldsBytes (D : Type) : LdsBytes LdsCell (LdsValue D) where
  cell := .byte
  ofByte := .byte
  toByte := LdsValue.toByte
  cell_injective _ _ h := LdsCell.byte.inj h
  toByte_ofByte _ := rfl

namespace GsLayout

variable (l : GsLayout)

/-- `ac_ngg_get_scratch_lds_size` for a geometry shader without streamout. -/
def ldsScratchSize : Nat := (l.maxNumWaves + 3) / 4 * 4

def ldsOffsPrimflags : Nat := l.totalPackedGsOutSize

def ldsBytesPerGsOutVertex : Nat := (l.totalPackedGsOutSize + 4) ||| 0x4

def writeStride2exp : Nat := ffs (max l.info.verticesOut 1) - 1

def outVertexSlot (outVtxIdx : Nat) : Nat :=
  if l.writeStride2exp ≠ 0 then
    let row := outVtxIdx >>> 5
    let swizzle := row &&& (2 ^ l.writeStride2exp - 1)
    outVtxIdx ^^^ swizzle
  else outVtxIdx

/-- `ngg_gs_out_vertex_addr` -/
def outVertexAddr (outVtxIdx : Nat) : Nat :=
  l.outVertexSlot outVtxIdx * l.ldsBytesPerGsOutVertex + (l.ldsAddrGsOutVtx + l.ldsScratchSize)

def primflag (outVtxIdx stream : Nat) : LdsCell :=
  .byte (l.outVertexAddr outVtxIdx + (l.ldsOffsPrimflags + stream))

def outputs (outVtxIdx stream : Nat) : LdsCell := .outputs stream (l.outVertexAddr outVtxIdx)

/-- The number of vertices that `n` shaders may emit. -/
def maxVtxcnt (n : Nat) : Nat := n * l.info.verticesOut

end GsLayout

/-! ## Records lie apart -/

section Swizzle

variable {e x y : Nat}

theorem testBit_swizzle (i : Nat) :
    (x ^^^ ((x >>> 5) &&& (2 ^ e - 1))).testBit i =
      (x.testBit i ^^ (x.testBit (5 + i) && decide (i < e))) := by
  rw [Nat.testBit_xor, Nat.testBit_and, Nat.testBit_shiftRight, Nat.testBit_two_pow_sub_one]

/-- Each bit is changed by a higher one only. -/
theorem swizzle_inj (h : x ^^^ ((x >>> 5) &&& (2 ^ e - 1)) = y ^^^ ((y >>> 5) &&& (2 ^ e - 1))) :
    x = y := by
  -- from the top down: `n` bits from `max x y` on, where both are clear
  have hbits : ∀ n i, max x y ≤ i + n → x.testBit i = y.testBit i := by
    intro n
    induction n using Nat.strong_induction_on with
    | _ n ih =>
      intro i hi
      have hbit := congrArg (·.testBit i) h
      simp only [testBit_swizzle] at hbit
      rcases Nat.eq_zero_or_pos n with rfl | hpos
      · have hpow : i < 2 ^ i := Nat.lt_two_pow_self
        rw [Nat.testBit_lt_two_pow (by omega), Nat.testBit_lt_two_pow (by omega)]
      · have hhigh : x.testBit (5 + i) = y.testBit (5 + i) :=
          ih (n - 1) (by omega) (5 + i) (by omega)
        rw [hhigh] at hbit
        exact Bool.xor_left_inj.mp hbit
  exact Nat.eq_of_testBit_eq fun i => hbits (max x y) i (Nat.le_add_left _ _)

end Swizzle

namespace GsLayout

variable {l : GsLayout}

theorem outVertexSlot_inj {i j : Nat} (h : l.outVertexSlot i = l.outVertexSlot j) : i = j := by
  unfold outVertexSlot at h
  split at h
  · exact swizzle_inj h
  · exact h

theorem lt_ldsBytesPerGsOutVertex {stream : Nat} (hs : stream < 4) :
    l.ldsOffsPrimflags + stream < l.ldsBytesPerGsOutVertex := by
  have hle : l.totalPackedGsOutSize + 4 ≤ l.ldsBytesPerGsOutVertex := Nat.left_le_or
  unfold ldsOffsPrimflags
  omega

theorem primflag_inj {i j s t : Nat} (hs : s < 4) (ht : t < 4)
    (h : l.primflag i s = l.primflag j t) : i = j ∧ s = t := by
  have hs := lt_ldsBytesPerGsOutVertex (l := l) hs
  have ht := lt_ldsBytesPerGsOutVertex (l := l) ht
  have haddr : l.ldsOffsPrimflags + s + l.ldsBytesPerGsOutVertex * l.outVertexSlot i =
      l.ldsOffsPrimflags + t + l.ldsBytesPerGsOutVertex * l.outVertexSlot j := by
    have := LdsCell.byte.inj h
    unfold outVertexAddr at this
    rw [Nat.mul_comm _ (l.outVertexSlot i), Nat.mul_comm _ (l.outVertexSlot j)]
    omega
  have hmod := congrArg (· % l.ldsBytesPerGsOutVertex) haddr
  have hdiv := congrArg (· / l.ldsBytesPerGsOutVertex) haddr
  simp only [Nat.add_mul_mod_self_left, Nat.mod_eq_of_lt hs, Nat.mod_eq_of_lt ht] at hmod
  simp only [Nat.add_mul_div_left _ _ (Nat.lt_of_le_of_lt (Nat.zero_le _) hs),
    Nat.div_eq_of_lt hs, Nat.div_eq_of_lt ht, Nat.zero_add] at hdiv
  exact ⟨outVertexSlot_inj hdiv, by omega⟩

theorem outputs_inj {i j s t : Nat} (h : l.outputs i s = l.outputs j t) : i = j ∧ s = t := by
  have hpos : 0 < l.ldsBytesPerGsOutVertex :=
    Nat.lt_of_le_of_lt (Nat.zero_le _) (lt_ldsBytesPerGsOutVertex (l := l) (by omega : 0 < 4))
  obtain ⟨hstream, haddr⟩ := LdsCell.outputs.inj h
  unfold outVertexAddr at haddr
  exact ⟨outVertexSlot_inj (Nat.eq_of_mul_eq_mul_right hpos (Nat.add_right_cancel haddr)), hstream⟩

theorem primflag_ne_outputs {i j s t : Nat} : l.primflag i s ≠ l.outputs j t := nofun

end GsLayout

/-! ## Emission -/

namespace GsLayout

variable {D : Type} (l : GsLayout)

/-- The flags that `lower_ngg_gs_emit_vertex_with_counter` stores for a vertex: bit 0 says that it
completes a primitive, bit 1 that this is an odd one of a triangle strip, bit 2 that the vertex is
live. -/
def vertexFlags (live : Bool) (currentVtxPerPrim : Nat) : BitVec 8 :=
  let vertexLiveFlag : BitVec 32 := if live then 0b100 else 0
  let completeFlag : BitVec 32 :=
    if l.info.outputPrimitive.vertices - 1 ≤ currentVtxPerPrim then 1 else 0
  let primFlag := vertexLiveFlag ||| completeFlag
  let primFlag :=
    if l.info.outputPrimitive.vertices = 3 then
      primFlag ||| ((BitVec.ofNat 32 currentVtxPerPrim &&& completeFlag) <<< 1)
    else primFlag
  primFlag.setWidth 8

/-- The stores of an emission in shader invocation `tid`. Only the vertices of the first stream are
culled. -/
def emitStores (live : Bool) (tid stream : Nat) (e : Emission D) : List (LdsCell × LdsValue D) :=
  let idx := tid * l.info.verticesOut + e.place
  [(l.outputs idx stream, .outputs e.outputs),
    (l.primflag idx stream,
      .byte (l.vertexFlags (if stream = 0 then live else true) e.perPrimitive))]

/-- `ngg_gs_clear_primflags` -/
def clearStores (tid stream numVertices : Nat) : List (LdsCell × LdsValue D) :=
  (List.range' numVertices (l.info.verticesOut - numVertices)).map fun i =>
    (l.primflag (tid * l.info.verticesOut + i) stream, .byte 0)

/-- What invocation `tid` stores while it runs. The flags are cleared where
`set_vertex_and_primitive_count` is: for the first stream even if it is not active. -/
def invocationStores (live : Bool) (tid : Nat) (cmds : List (Nat × Cmd D)) :
    List (LdsCell × LdsValue D) :=
  ((streamEmissions l.info (fun _ => Counters.start) cmds).1.flatMap fun e =>
      l.emitStores live tid e.1 e.2) ++
    (List.range 4).flatMap fun stream =>
      if stream = 0 ∨ l.info.active stream then
        l.clearStores tid stream (streamCounts l.info cmds stream).1
      else []

/-- The vertices of the strips of an invocation, in their places. -/
def places (cmds : List (Cmd D)) : List (D × Nat) :=
  (strips l.info.outputPrimitive cmds).flatMap (numbered l.info)

def placeFlags (live : Bool) (v : Option (D × Nat)) : BitVec 8 :=
  match v with
  | some v => l.vertexFlags live v.2
  | none => 0

@[simp] theorem placeFlags_some (live : Bool) (v : D × Nat) :
    l.placeFlags live (some v) = l.vertexFlags live v.2 := rfl

@[simp] theorem placeFlags_none (live : Bool) : l.placeFlags live (none : Option (D × Nat)) = 0 :=
  rfl

/-- What the LDS has for the first stream after the invocations `0`, …, `n - 1`. -/
structure Emitted (live : Bool) (cmds : Nat → List (Cmd D)) (n : Nat)
    (m : LdsCell → LdsValue D) : Prop where
  flags : ∀ {tid i : Nat}, tid < n → i < l.info.verticesOut →
    m (l.primflag (tid * l.info.verticesOut + i) 0) =
      .byte (l.placeFlags live (l.places (cmds tid))[i]?)
  outputs : ∀ {tid i : Nat} {v : D × Nat}, tid < n → (l.places (cmds tid))[i]? = some v →
    m (l.outputs (tid * l.info.verticesOut + i) 0) = .outputs v.1

variable {l}

/-! ### Flags of a vertex -/

theorem and_one_eq (n : Nat) : BitVec.ofNat 32 n &&& 1 = if n % 2 = 1 then 1 else 0 := by
  apply BitVec.eq_of_toNat_eq
  rw [BitVec.toNat_and, BitVec.toNat_ofNat, show (1 : BitVec 32).toNat = 1 from rfl,
    Nat.and_one_is_mod, Nat.mod_mod_of_dvd _ (by decide)]
  split <;> simp <;> omega

theorem vertexFlags_eq (live : Bool) (n : Nat) :
    l.vertexFlags live n = (if live then 4 else 0) |||
      (if completes l.info.outputPrimitive n then
        if l.info.outputPrimitive = .triangleStrip ∧ n % 2 = 1 then 3 else 1 else 0) := by
  unfold vertexFlags completes
  by_cases hc : l.info.outputPrimitive.vertices - 1 ≤ n
  · simp only [if_pos hc, decide_eq_true hc, and_one_eq]
    cases l.info.outputPrimitive <;> cases live <;> by_cases hn : n % 2 = 1 <;>
      simp [OutputPrimitive.vertices, hn]
  · simp only [if_neg hc, decide_eq_false hc]
    cases live <;> split <;> simp

section Bits

variable (live : Bool) (n : Nat)

theorem vertexFlags_bit0 :
    ((l.vertexFlags live n).setWidth 32).getLsbD 0 = completes l.info.outputPrimitive n := by
  rw [vertexFlags_eq]
  cases live <;> cases completes l.info.outputPrimitive n <;>
    simp only [Bool.false_eq_true, if_true, if_false] <;> (try split) <;> rfl

theorem vertexFlags_bit1 (h : l.info.outputPrimitive = .triangleStrip)
    (hc : completes l.info.outputPrimitive n = true) :
    ((l.vertexFlags live n).setWidth 32).getLsbD 1 = decide (n % 2 = 1) := by
  rw [vertexFlags_eq, hc, h]
  by_cases hn : n % 2 = 1 <;> cases live <;> simp [hn]

theorem vertexFlags_eq_zero :
    (l.vertexFlags live n).setWidth 32 = 0#32 ↔
      live = false ∧ completes l.info.outputPrimitive n = false := by
  rw [vertexFlags_eq]
  cases live <;> cases completes l.info.outputPrimitive n <;>
    simp only [Bool.false_eq_true, if_true, if_false] <;> (try split) <;> decide

end Bits

/-! ### Stores of the invocations -/

variable {live : Bool} {n : Nat}

theorem place_lt {c : Counters} {cs : List (Cmd D)} {e : Emission D}
    (h : e ∈ (emissions l.info c cs).1) : e.place < l.info.verticesOut := by
  induction cs generalizing c with
  | nil => cases h
  | cons cmd cs ih =>
    cases cmd with
    | emitVertex d =>
      by_cases hroom : c.vertexCount < l.info.verticesOut
      · simp only [emissions, Counters.emitVertex, if_pos hroom, List.mem_cons] at h
        rcases h with rfl | h
        · exact hroom
        · exact ih h
      · simp only [emissions, Counters.emitVertex, if_neg hroom] at h
        exact ih h
    | endPrimitive => exact ih h

theorem vertex_inj {M g h i j : Nat} (hi : i < M) (hj : j < M) (heq : g * M + i = h * M + j) :
    g = h ∧ i = j := by
  have hdiv := congrArg (· / M) heq
  have hmod := congrArg (· % M) heq
  simp only [Nat.mul_comm _ M, Nat.mul_add_div (Nat.lt_of_le_of_lt (Nat.zero_le _) hi),
    Nat.div_eq_of_lt hi, Nat.div_eq_of_lt hj, Nat.mul_add_mod, Nat.mod_eq_of_lt hi,
    Nat.mod_eq_of_lt hj, Nat.add_zero] at hdiv hmod
  exact ⟨hdiv, hmod⟩

theorem cell_of_mem_emitStores {tid stream : Nat} {e : Emission D} {c : LdsCell}
    (h : c ∈ (l.emitStores live tid stream e).map (·.1)) :
    c = l.outputs (tid * l.info.verticesOut + e.place) stream ∨
      c = l.primflag (tid * l.info.verticesOut + e.place) stream := by
  simpa [emitStores] using h

theorem mem_clearStores {tid stream numVertices : Nat} {c : LdsCell} :
    c ∈ (l.clearStores tid stream numVertices : List (LdsCell × LdsValue D)).map (·.1) ↔
      ∃ i, numVertices ≤ i ∧ i < l.info.verticesOut ∧
        c = l.primflag (tid * l.info.verticesOut + i) stream := by
  simp only [clearStores, List.map_map, List.mem_map, List.mem_range'_1, Function.comp_apply]
  constructor
  · rintro ⟨i, hi, rfl⟩
    exact ⟨i, hi.1, by omega, rfl⟩
  · rintro ⟨i, hlow, hhigh, rfl⟩
    exact ⟨i, by omega, rfl⟩

theorem cell_of_mem {tid : Nat} {cs : List (Nat × Cmd D)} {c : LdsCell}
    (h : c ∈ (l.invocationStores live tid cs).map (·.1)) :
    ∃ i < l.info.verticesOut, ∃ s < 4, c = l.outputs (tid * l.info.verticesOut + i) s ∨
      c = l.primflag (tid * l.info.verticesOut + i) s := by
  rw [invocationStores, List.map_append, List.mem_append, List.map_flatMap, List.map_flatMap] at h
  rcases h with hemit | hclear
  · obtain ⟨e, he, hw⟩ := List.mem_flatMap.mp hemit
    have hplace := mem_ofStream he
    rw [(emissions_stream (fun _ => Counters.start) cs e.1).1] at hplace
    exact ⟨e.2.place, place_lt hplace, e.1, Info.lt_four_of_active (active_of_mem_emissions he),
      cell_of_mem_emitStores hw⟩
  · obtain ⟨stream, hstream, hw⟩ := List.mem_flatMap.mp hclear
    split at hw
    · obtain ⟨i, _, hi, rfl⟩ := mem_clearStores.mp hw
      exact ⟨i, hi, stream, List.mem_range.mp hstream, .inr rfl⟩
    · cases hw

theorem raceFree_invocations {shader : Nat → List (Nat × Cmd D)} {m : LdsCell → LdsValue D} :
    RaceFree (fun tid : Fin n => Prog.storeAll (l.invocationStores live tid (shader tid))) m := by
  intro g h hne c htouch hstore
  obtain ⟨i, hi, s, hs, hci⟩ := cell_of_mem (Prog.touches_storeAll.mp htouch)
  obtain ⟨j, hj, t, ht, hcj⟩ := cell_of_mem (Prog.mem_of_stores_storeAll hstore)
  have hsame : g * l.info.verticesOut + i = h * l.info.verticesOut + j := by
    rcases hci with rfl | rfl <;> rcases hcj with hcj | hcj
    · exact (outputs_inj hcj).1
    · exact absurd hcj.symm primflag_ne_outputs
    · exact absurd hcj primflag_ne_outputs
    · exact (primflag_inj hs ht hcj).1
  exact hne (Fin.ext (vertex_inj hi hj hsame).1)

/-! ### The first stream -/

/-- The stores of an invocation that has the first stream only. -/
def firstStores (l : GsLayout) (live : Bool) (tid : Nat) (cs : List (Cmd D)) :
    List (LdsCell × LdsValue D) :=
  (emissions l.info Counters.start cs).1.flatMap (l.emitStores live tid 0) ++
    l.clearStores tid 0 ((emissions l.info Counters.start cs).2.finish l.info).1

/-- Other streams do not store to the cells of the first. -/
theorem written_firstStores {tid i : Nat} {cs : List (Nat × Cmd D)} {c : LdsCell}
    (hc : c = l.outputs i 0 ∨ c = l.primflag i 0) (m : LdsCell → LdsValue D) :
    Prog.written m (l.invocationStores live tid cs) c =
      Prog.written m (l.firstStores live tid (onStream l.info 0 cs)) c := by
  have hemit : ∀ e ∈ (streamEmissions l.info (fun _ => Counters.start) cs).1, e.1 ≠ 0 →
      (l.emitStores live tid e.1 e.2).filter (·.1 = c) = [] := by
    intro e he hne
    refine List.filter_eq_nil_iff.mpr fun w hw heq => hne ?_
    have hcell := cell_of_mem_emitStores (List.mem_map_of_mem hw)
    rw [of_decide_eq_true heq] at hcell
    have hfour := Info.lt_four_of_active (active_of_mem_emissions he)
    rcases hc with rfl | rfl <;> rcases hcell with hcell | hcell
    · exact (outputs_inj hcell).2.symm
    · exact absurd hcell.symm primflag_ne_outputs
    · exact absurd hcell primflag_ne_outputs
    · exact (primflag_inj (by decide) hfour hcell).2.symm
  have hclear : ∀ stream, stream ≠ 0 → stream < 4 → ∀ k,
      (l.clearStores tid stream k : List (LdsCell × LdsValue D)).filter (·.1 = c) = [] := by
    intro stream hne hfour k
    refine List.filter_eq_nil_iff.mpr fun w hw heq => hne ?_
    obtain ⟨j, _, _, hcell⟩ := mem_clearStores.mp (List.mem_map_of_mem hw)
    rw [of_decide_eq_true heq] at hcell
    rcases hc with rfl | rfl
    · exact absurd hcell.symm primflag_ne_outputs
    · exact (primflag_inj (by decide) hfour hcell).2.symm
  have hothers : ∀ stream, stream ≠ 0 → stream < 4 →
      (if stream = 0 ∨ l.info.active stream then
        l.clearStores tid stream (streamCounts l.info cs stream).1
      else ([] : List (LdsCell × LdsValue D))).filter (·.1 = c) = [] := by
    intro stream hne hfour
    split
    · exact hclear stream hne hfour _
    · rfl
  have hfirst := flatMap_ofStream (g := fun stream e =>
    (l.emitStores live tid stream e).filter (·.1 = c)) hemit
  rw [(emissions_stream (fun _ => Counters.start) cs 0).1] at hfirst
  rw [Prog.written_filter rfl (l.invocationStores live tid cs),
    Prog.written_filter rfl (l.firstStores live tid _), invocationStores, firstStores,
    List.filter_append, List.filter_append, List.filter_flatMap, List.filter_flatMap,
    List.filter_flatMap, hfirst]
  simp only [List.range_succ, List.range_zero, List.nil_append, List.cons_append,
    List.flatMap_cons, List.flatMap_nil, hothers 1 (by decide) (by decide),
    hothers 2 (by decide) (by decide), hothers 3 (by decide) (by decide), List.append_nil]
  rw [if_pos (.inl trivial), streamCounts_eq]

/-- The records of an invocation hold the vertices in `slots`. -/
def HoldsSlots (l : GsLayout) (live : Bool) (tid : Nat) (slots : Slots D)
    (m : LdsCell → LdsValue D) : Prop :=
  ∀ (i : Nat) (v : D × Nat), slots i = some v →
    m (l.outputs (tid * l.info.verticesOut + i) 0) = .outputs v.1 ∧
      m (l.primflag (tid * l.info.verticesOut + i) 0) = .byte (l.vertexFlags live v.2)

theorem holdsSlots_none {tid : Nat} (m : LdsCell → LdsValue D) :
    HoldsSlots l live tid (fun _ => none) m := by
  intro i v hv
  cases hv

theorem HoldsSlots.emit {tid : Nat} {slots : Slots D} {m : LdsCell → LdsValue D}
    (h : HoldsSlots l live tid slots m) (e : Emission D) :
    HoldsSlots l live tid (Function.update slots e.place (some (e.outputs, e.perPrimitive)))
      (Prog.written m (l.emitStores live tid 0 e)) := by
  intro i v hv
  by_cases hi : i = e.place
  · subst hi
    rw [Function.update_self, Option.some.injEq] at hv
    subst hv
    have hnodup : ((l.emitStores live tid 0 e).map (·.1)).Nodup := by
      simp [emitStores, Ne.symm primflag_ne_outputs]
    exact ⟨Prog.written_of_mem hnodup (List.mem_cons_self ..),
      Prog.written_of_mem hnodup (List.mem_cons_of_mem _ (List.mem_cons_self ..))⟩
  · rw [Function.update_of_ne hi] at hv
    have hne : tid * l.info.verticesOut + i ≠ tid * l.info.verticesOut + e.place := by omega
    refine ⟨?_, ?_⟩
    · refine Eq.trans ?_ (h i v hv).1
      refine Prog.written_of_not_mem ?_
      simp only [emitStores, List.map_cons, List.map_nil, List.mem_cons, List.not_mem_nil,
        or_false, not_or]
      exact ⟨fun heq => hne (outputs_inj heq).1, Ne.symm primflag_ne_outputs⟩
    · refine Eq.trans ?_ (h i v hv).2
      refine Prog.written_of_not_mem ?_
      simp only [emitStores, List.map_cons, List.map_nil, List.mem_cons, List.not_mem_nil,
        or_false, not_or]
      exact ⟨primflag_ne_outputs, fun heq => hne (primflag_inj (by decide) (by decide) heq).1⟩

theorem HoldsSlots.run {tid : Nat} {slots : Slots D} {m : LdsCell → LdsValue D}
    (h : HoldsSlots l live tid slots m) (es : List (Emission D)) :
    HoldsSlots l live tid (slots.after es)
      (Prog.written m (es.flatMap (l.emitStores live tid 0))) := by
  induction es generalizing slots m with
  | nil => exact h
  | cons e es ih =>
    rw [List.flatMap_cons, Prog.written, List.foldl_append]
    exact ih (h.emit e)

theorem nodup_clearStores (tid numVertices : Nat) :
    ((l.clearStores tid 0 numVertices : List (LdsCell × LdsValue D)).map (·.1)).Nodup := by
  rw [clearStores, List.map_map]
  refine List.Nodup.map_on (fun i _ j _ heq => ?_) List.nodup_range'
  have := (primflag_inj (by decide) (by decide) heq).1
  omega

theorem length_places {cs : List (Cmd D)} (hfits : emitCount cs ≤ l.info.verticesOut) :
    ((emissions l.info Counters.start cs).2.finish l.info).1 = (l.places cs).length :=
  (emissions_finish l.info hfits fun _ => none).1

theorem length_places_le {cs : List (Cmd D)} (hfits : emitCount cs ≤ l.info.verticesOut) :
    (l.places cs).length ≤ l.info.verticesOut := by
  rw [← length_places hfits, (finish_eq _ _).1]
  exact Nat.le_trans (vertexCount_endPrimitive_le _ _) (vertexCount_emissions_le (Nat.zero_le _) cs)

/-- The memory that an invocation leaves when it runs alone. -/
theorem written_invocation {tid i : Nat} {cs : List (Cmd D)} (m : LdsCell → LdsValue D)
    (hfits : emitCount cs ≤ l.info.verticesOut) :
    (i < l.info.verticesOut →
      Prog.written m (l.firstStores live tid cs)
        (l.primflag (tid * l.info.verticesOut + i) 0) =
          .byte (l.placeFlags live (l.places cs)[i]?)) ∧
      ∀ {v : D × Nat}, (l.places cs)[i]? = some v →
        Prog.written m (l.firstStores live tid cs)
          (l.outputs (tid * l.info.verticesOut + i) 0) = .outputs v.1 := by
  have hslots : HoldsSlots l live tid (Slots.after (fun _ => none)
      (emissions l.info Counters.start cs).1)
      (Prog.written m ((emissions l.info Counters.start cs).1.flatMap (l.emitStores live tid 0))) :=
    (holdsSlots_none m).run _
  have hplaces : i < _ → _ = _ := (emissions_finish l.info hfits fun _ => none).2.2
  rw [firstStores, Prog.written, List.foldl_append, ← Prog.written, ← Prog.written,
    length_places hfits]
  rw [length_places hfits] at hplaces
  generalize Prog.written m _ = m' at hslots ⊢
  have hheld : ∀ {v : D × Nat}, (l.places cs)[i]? = some v →
      m' (l.outputs (tid * l.info.verticesOut + i) 0) = .outputs v.1 ∧
        m' (l.primflag (tid * l.info.verticesOut + i) 0) = .byte (l.vertexFlags live v.2) := by
    intro v hv
    obtain ⟨hi, _⟩ := List.getElem?_eq_some_iff.mp hv
    exact hslots i v ((hplaces hi).trans hv)
  refine ⟨fun hi => ?_, fun {v} hv => ?_⟩
  · cases hv : (l.places cs)[i]? with
    | some v =>
      obtain ⟨hlt, _⟩ := List.getElem?_eq_some_iff.mp hv
      refine Eq.trans (Prog.written_of_not_mem fun hmem => ?_) (hheld hv).2
      obtain ⟨j, hj, _, heq⟩ := mem_clearStores.mp hmem
      have := (primflag_inj (by decide) (by decide) heq).1
      omega
    | none =>
      refine Prog.written_of_mem (nodup_clearStores tid _)
        (w := (l.primflag (tid * l.info.verticesOut + i) 0, .byte 0))
        (List.mem_map.mpr ⟨i, ?_, rfl⟩)
      rw [List.mem_range'_1]
      have := List.getElem?_eq_none_iff.mp hv
      omega
  · refine Eq.trans (Prog.written_of_not_mem fun hmem => ?_) (hheld hv).1
    obtain ⟨j, _, _, heq⟩ := mem_clearStores.mp hmem
    exact primflag_ne_outputs heq.symm

theorem touches_invocation {tid i : Nat} {cs : List (Nat × Cmd D)} {m : LdsCell → LdsValue D}
    (hfits : emitCount (onStream l.info 0 cs) ≤ l.info.verticesOut) :
    (i < l.info.verticesOut →
      (Prog.storeAll (l.invocationStores live tid cs)).Touches
        (l.primflag (tid * l.info.verticesOut + i) 0) m) ∧
      ∀ {v : D × Nat}, (l.places (onStream l.info 0 cs))[i]? = some v →
        (Prog.storeAll (l.invocationStores live tid cs)).Touches
          (l.outputs (tid * l.info.verticesOut + i) 0) m := by
  simp only [Prog.touches_storeAll]
  exact ⟨fun hi => Prog.mem_of_written_eq fun m =>
      (written_firstStores (.inr rfl) m).trans ((written_invocation m hfits).1 hi),
    fun hv => Prog.mem_of_written_eq fun m =>
      (written_firstStores (.inl rfl) m).trans ((written_invocation m hfits).2 hv)⟩

/-- **The LDS after the shaders.** Whatever the order in which the invocations store, every record
of a vertex that belongs to a strip with a primitive holds the vertex, and the flags of all other
records are clear. -/
theorem emitted_of_phase {shader : Nat → List (Nat × Cmd D)} {m m' : LdsCell → LdsValue D}
    (hfits : ∀ tid < n, emitCount (onStream l.info 0 (shader tid)) ≤ l.info.verticesOut)
    (h : Phase (fun tid : Fin n => Prog.storeAll (l.invocationStores live tid (shader tid))) m
      (fun _ => ()) m') : l.Emitted live (fun tid => onStream l.info 0 (shader tid)) n m' where
  flags {tid i} htid hi := by
    rw [h.mem_eq raceFree_invocations (i := ⟨tid, htid⟩)
      ((touches_invocation (hfits tid htid)).1 hi), Prog.run_storeAll]
    exact (written_firstStores (.inr rfl) m).trans ((written_invocation m (hfits tid htid)).1 hi)
  outputs {tid i v} htid hv := by
    rw [h.mem_eq raceFree_invocations (i := ⟨tid, htid⟩)
      ((touches_invocation (hfits tid htid)).2 hv), Prog.run_storeAll]
    exact (written_firstStores (.inl rfl) m).trans ((written_invocation m (hfits tid htid)).2 hv)

end GsLayout

end Psbc.Ngg
