import Psbc.Ngg.GsFinale

/-!
# Flags of the records and indices of the primitives

`vertexAt` and `primAt` say what the strips put at a thread, `flagAt`, `culledAt` and `liveAt` what
the flags of its record are after each step. The vertices of a primitive that is exported are live
and have numbers without gaps, so that the indices computed from the number of the last one name
the others too.
-/

namespace Psbc.Ngg

open Atomic Gs

namespace NggGs

variable {D : Type} {c : NggGs D}

/-! ## Indices of a primitive -/

theorem getLsbD_foldl_or {α : Type} {w : Nat} (g : α → BitVec w) (l : List α) (acc : BitVec w)
    (p : Nat) :
    (l.foldl (fun a v => a ||| g v) acc).getLsbD p =
      (acc.getLsbD p || l.any fun v => (g v).getLsbD p) := by
  induction l generalizing acc with
  | nil => simp
  | cons v l ih => rw [List.foldl_cons, ih, BitVec.getLsbD_or, List.any_cons, Bool.or_assoc]

theorem indexStride_eq : c.indexStride = 9 ∨ c.indexStride = 10 := by
  unfold indexStride
  split
  · exact .inl rfl
  · exact .inr rfl

theorem getLsbD_of_toNat_lt {w n k : Nat} {x : BitVec w} (h : x.toNat < 2 ^ n) (hk : n ≤ k) :
    x.getLsbD k = false := by
  rw [← BitVec.testBit_toNat]
  exact Nat.testBit_lt_two_pow (Nat.lt_of_lt_of_le h (Nat.pow_le_pow_right Nat.two_pos hk))

section Pack

variable {l : List (BitVec 32)} {isNull : BitVec 32}

theorem primIndex_pack (hlen : l.length ≤ 3) (hsmall : ∀ v ∈ l, v.toNat < 2 ^ (c.indexStride - 1))
    {i : Nat} (hi : i < l.length) :
    c.primIndex (c.packNggPrimExpArg l isNull) i = l[i].toNat := by
  have hw := c.indexStride_eq
  have hwi : c.indexStride * i + c.indexStride ≤ 30 := by
    have : c.indexStride * (i + 1) ≤ 10 * 3 := Nat.mul_le_mul (by omega) (by omega)
    rwa [Nat.mul_succ] at this
  unfold primIndex packNggPrimExpArg
  refine Nat.eq_of_testBit_eq fun n => ?_
  rw [Nat.testBit_mod_two_pow, BitVec.testBit_toNat, BitVec.testBit_toNat]
  rcases Nat.lt_or_ge n (c.indexStride - 1) with hn | hn
  · rw [decide_eq_true hn, Bool.true_and, BitVec.getLsbD_ushiftRight, BitVec.getLsbD_or,
      getLsbD_foldl_or, BitVec.getLsbD_shiftLeft, decide_eq_true (by omega : _ < 31)]
    simp only [BitVec.ofNat_eq_ofNat, BitVec.getLsbD_zero, Bool.false_or, Bool.not_true,
      Bool.and_false, Bool.false_and, Bool.or_false]
    rw [Bool.eq_iff_iff, List.any_eq_true]
    constructor
    · rintro ⟨v, hv, hbit⟩
      obtain ⟨_, hlt, hget⟩ := List.mem_zipIdx hv
      rw [BitVec.getLsbD_shiftLeft, Bool.and_eq_true, Bool.and_eq_true, Bool.not_eq_true',
        decide_eq_false_iff_not] at hbit
      obtain ⟨⟨_, hge⟩, hbit⟩ := hbit
      rcases Nat.lt_trichotomy v.2 i with hvi | hvi | hvi
      · have hmul : c.indexStride * (v.2 + 1) ≤ c.indexStride * i := Nat.mul_le_mul_left _ hvi
        rw [Nat.mul_succ] at hmul
        rw [getLsbD_of_toNat_lt (hsmall v.1 (List.fst_mem_of_mem_zipIdx hv)) (by omega)] at hbit
        exact absurd hbit (by decide)
      · simp only [hvi, Nat.add_sub_cancel_left, Nat.sub_zero] at hbit hget
        rw [← hget]
        exact hbit
      · have hmul : c.indexStride * (i + 1) ≤ c.indexStride * v.2 := Nat.mul_le_mul_left _ hvi
        rw [Nat.mul_succ] at hmul
        omega
    · intro hbit
      refine ⟨(l[i], i), List.mem_zipIdx_iff_getElem?.mpr (List.getElem?_eq_getElem hi), ?_⟩
      rw [BitVec.getLsbD_shiftLeft, decide_eq_true (by omega), Nat.add_sub_cancel_left, hbit]
      simp
  · rw [decide_eq_false (Nat.not_lt.mpr hn), Bool.false_and,
      getLsbD_of_toNat_lt (hsmall _ (List.getElem_mem hi)) hn]

theorem isNullPrim_pack (hlen : l.length ≤ 3)
    (hsmall : ∀ v ∈ l, v.toNat < 2 ^ (c.indexStride - 1)) (hnull : isNull.getLsbD 0 = false) :
    isNullPrim (c.packNggPrimExpArg l isNull) = false := by
  have hw := c.indexStride_eq
  unfold isNullPrim packNggPrimExpArg
  rw [BitVec.getLsbD_or, getLsbD_foldl_or, BitVec.getLsbD_shiftLeft, Nat.sub_self, hnull]
  simp only [BitVec.ofNat_eq_ofNat, BitVec.getLsbD_zero, Bool.false_or, Bool.and_false,
    Bool.or_false]
  rw [List.any_eq_false]
  rintro v hv hbit
  obtain ⟨_, hlt, _⟩ := List.mem_zipIdx hv
  have hmul : c.indexStride * v.2 ≤ 10 * 2 := Nat.mul_le_mul (by omega) (by omega)
  rw [BitVec.getLsbD_shiftLeft,
    getLsbD_of_toNat_lt (hsmall v.1 (List.fst_mem_of_mem_zipIdx hv)) (by omega)] at hbit
  simp at hbit

theorem isNullPrim_pack_null (h : isNull.getLsbD 0 = true) :
    isNullPrim (c.packNggPrimExpArg l isNull) = true := by
  unfold isNullPrim packNggPrimExpArg
  rw [BitVec.getLsbD_or, BitVec.getLsbD_shiftLeft, Nat.sub_self, h]
  simp

end Pack

section Indices

variable {n : Nat} {primflag : BitVec 32}

theorem isOdd_eq (primflag : BitVec 32) :
    isOdd primflag = if primflag.getLsbD 1 then 1 else 0 := by
  unfold isOdd
  refine BitVec.eq_of_getLsbD_eq fun i hi => ?_
  rw [BitVec.getLsbD_and, BitVec.getLsbD_ushiftRight]
  rcases Nat.eq_zero_or_pos i with rfl | hpos
  · cases primflag.getLsbD (1 + 0) <;> rfl
  · have hone : (1 : BitVec 32).getLsbD i = false := by
      rw [show (1 : BitVec 32) = 1#32 from rfl, BitVec.getLsbD_one]
      simp
      omega
    rw [hone, Bool.and_false]
    split
    · exact hone.symm
    · exact BitVec.getLsbD_zero.symm

theorem toNat_sub_ofNat {e : BitVec 32} {d : Nat} (hd : d ≤ e.toNat) :
    (e - BitVec.ofNat 32 d).toNat = e.toNat - d := by
  have he := e.isLt
  have hd' : (BitVec.ofNat 32 d).toNat = d := by
    rw [BitVec.toNat_ofNat, Nat.mod_eq_of_lt (by omega)]
  rw [BitVec.toNat_sub_of_le (by rwa [BitVec.le_def, hd']), hd']

theorem toNat_add_one {e : BitVec 32} (he : e.toNat < 256) : (e + 1).toNat = e.toNat + 1 := by
  rw [BitVec.toNat_add, show (1 : BitVec 32).toNat = 1 from rfl, Nat.mod_eq_of_lt (by omega)]

theorem triangle_eq {e odd : BitVec 32} (he : e.toNat < 256) (hk : 2 ≤ e.toNat)
    (hodd : odd = if n % 2 = 1 then 1 else 0) (first : Bool) :
    (if first then [(e - 2).toNat, (e - 1 + odd).toNat, (e - odd).toNat]
      else [(e - 2 + odd).toNat, (e - 1 - odd).toNat, e.toNat]) =
      orient .triangleStrip first n [e.toNat - 2, e.toNat - 1, e.toNat] := by
  have h1 : (e - 1).toNat = e.toNat - 1 := toNat_sub_ofNat (by omega : 1 ≤ e.toNat)
  have h2 : (e - 2).toNat = e.toNat - 2 := toNat_sub_ofNat hk
  have h11 : (e - 1 - 1).toNat = e.toNat - 2 := by
    have hle : 1 ≤ (e - 1).toNat := by omega
    have hsub : (e - 1 - 1).toNat = (e - 1).toNat - 1 := toNat_sub_ofNat hle
    omega
  subst hodd
  by_cases hn : n % 2 = 1
  · rw [if_pos hn]
    cases first with
    | true =>
      simp only [if_true, orient, if_pos hn, h1, h2, toNat_add_one (by omega : (e - 1).toNat < 256)]
      rw [show e.toNat - 1 + 1 = e.toNat by omega]
    | false =>
      simp only [Bool.false_eq_true, if_false, orient, if_pos hn, h2, h11,
        toNat_add_one (by omega : (e - 2).toNat < 256)]
      rw [show e.toNat - 2 + 1 = e.toNat - 1 by omega]
  · rw [if_neg hn]
    have hadd : ∀ x : BitVec 32, x + 0 = x := fun _ => BitVec.add_zero _
    have hsub : ∀ x : BitVec 32, x - 0 = x := fun _ => BitVec.sub_zero _
    cases first <;>
      simp only [Bool.false_eq_true, if_true, if_false, orient, hn, hadd, hsub, h1, h2]

/-- The indices are those of the vertex and of the ones before it, in the order of the primitive. -/
theorem vtxIndices_eq {e : BitVec 32} (he : e.toNat < 256) (hk : c.prim.vertices ≤ e.toNat + 1)
    (hodd : c.prim = .triangleStrip → primflag.getLsbD 1 = decide (n % 2 = 1)) :
    (c.vtxIndices e primflag).map (·.toNat) =
      orient c.prim c.provokingFirst n
        ((List.range c.prim.vertices).map fun j => e.toNat + 1 - c.prim.vertices + j) := by
  unfold vtxIndices
  cases hprim : c.prim with
  | points => rfl
  | lineStrip =>
    rw [hprim, OutputPrimitive.vertices] at hk
    have h1 : (e - 1).toNat = e.toNat - 1 := toNat_sub_ofNat (by omega : 1 ≤ e.toNat)
    have h2 : e.toNat + 1 - 2 + 1 = e.toNat := by omega
    simp only [orient, OutputPrimitive.vertices, List.range_succ, List.range_zero,
      List.nil_append, List.cons_append, List.map_cons, List.map_nil, h1, h2, Nat.add_zero]
    rfl
  | triangleStrip =>
    rw [hprim, OutputPrimitive.vertices] at hk
    have hlist : ((List.range 3).map fun j => e.toNat + 1 - 3 + j) =
        [e.toNat - 2, e.toNat - 1, e.toNat] := by
      simp [List.range_succ]
      omega
    rw [OutputPrimitive.vertices, hlist, ← triangle_eq he (by omega) rfl, isOdd_eq, hodd hprim]
    simp only [decide_eq_true_eq]
    split <;> rfl

theorem outPrimAllVtx_eq {t : Nat} (ht : t < 256) (hk : c.prim.vertices ≤ t + 1)
    (hodd : c.prim = .triangleStrip → primflag.getLsbD 1 = decide (n % 2 = 1)) :
    c.outPrimAllVtx t primflag =
      orient c.prim false n
        ((List.range c.prim.vertices).map fun j => t + 1 - c.prim.vertices + j) := by
  have hnat : (BitVec.ofNat 32 t).toNat = t := by
    rw [BitVec.toNat_ofNat, Nat.mod_eq_of_lt (by omega)]
  unfold outPrimAllVtx numVerticesPerPrimitive
  cases hprim : c.prim with
  | points => rfl
  | lineStrip =>
    rw [hprim, OutputPrimitive.vertices] at hk
    have h1 : (BitVec.ofNat 32 t - BitVec.ofNat 32 1).toNat = t - 1 := by
      rw [toNat_sub_ofNat (by omega), hnat]
    have h2 : t + 1 - 2 + 1 = t := by omega
    simp only [orient, OutputPrimitive.vertices, List.range_succ, List.range_zero,
      List.nil_append, List.cons_append, List.map_cons, List.map_nil, h2, Nat.add_zero]
    rw [if_neg (by decide), show 2 - 1 - 0 = 1 from rfl, h1]
    rfl
  | triangleStrip =>
    rw [hprim, OutputPrimitive.vertices] at hk
    have hlist : ((List.range 3).map fun j => t + 1 - 3 + j) = [t - 2, t - 1, t] := by
      simp [List.range_succ]
      omega
    have htri := triangle_eq (e := BitVec.ofNat 32 t) (n := n) (by omega) (by omega)
      (isOdd_eq primflag |>.trans (by rw [hodd hprim]; simp only [decide_eq_true_eq])) false
    rw [hnat] at htri
    rw [OutputPrimitive.vertices, hlist, ← htri]
    rfl

end Indices

/-! ## Marks -/

section Marks

variable (c) (cmds : Nat → List (Cmd D))

/-- The primitives that are not culled. -/
def accepts (vertices : List D) : Bool := !c.culls || c.accept vertices

/-- The vertex of a thread, with its number in its strip. -/
def vertexAt (t : Nat) : Option (D × Nat) :=
  if t < c.maxVtxcnt then
    (c.layout.places (cmds (t / c.layout.info.verticesOut)))[t % c.layout.info.verticesOut]?
  else none

/-- The primitive that the vertex of a thread completes. -/
def primAt (t : Nat) : Option (List D) :=
  if t < c.maxVtxcnt then
    placePrimitive c.layout.info c.provokingFirst c.accepts
      (c.layout.places (cmds (t / c.layout.info.verticesOut))) (t % c.layout.info.verticesOut)
  else none

def flagAt (t : Nat) : BitVec 32 :=
  (c.layout.placeFlags (!c.culls) (c.vertexAt cmds t)).setWidth 32

/-- The flags after the primitives have been culled. -/
def culledAt (t : Nat) : BitVec 32 :=
  if (c.flagAt cmds t).getLsbD 0 && (c.primAt cmds t).isNone then 0 else c.flagAt cmds t

/-- The flags that say whether the vertex is live. -/
def liveAt (t : Nat) : BitVec 32 :=
  if c.culls && decide (c.culledAt cmds t = 0) &&
      ((List.range' (t + 1) (c.numVerticesPerPrimitive - 1)).any fun i =>
        decide (i < c.maxVtxcnt) && (c.culledAt cmds i).getLsbD 0) then 4
  else c.culledAt cmds t

/-- The survivors of the repack. -/
def survives (_repack t : Nat) : Bool := decide (c.liveAt cmds t ≠ 0)

variable {c cmds} {t : Nat}

theorem lt_of_vertexAt {v : D × Nat} (h : c.vertexAt cmds t = some v) : t < c.maxVtxcnt := by
  unfold vertexAt at h
  split at h
  · assumption
  · cases h

theorem getElem?_places {v : D × Nat} (h : c.vertexAt cmds t = some v) :
    (c.layout.places (cmds (t / c.layout.info.verticesOut)))[t % c.layout.info.verticesOut]? =
      some v := by
  rwa [vertexAt, if_pos (lt_of_vertexAt h)] at h

theorem vertexAt_mul_add {g i : Nat} (hg : g < c.numGsThreads)
    (hi : i < c.layout.info.verticesOut) :
    c.vertexAt cmds (g * c.layout.info.verticesOut + i) = (c.layout.places (cmds g))[i]? ∧
      c.primAt cmds (g * c.layout.info.verticesOut + i) =
        placePrimitive c.layout.info c.provokingFirst c.accepts (c.layout.places (cmds g)) i := by
  have hM : 0 < c.layout.info.verticesOut := Nat.lt_of_le_of_lt (Nat.zero_le _) hi
  have hlt : g * c.layout.info.verticesOut + i < c.maxVtxcnt := by
    have hle : (g + 1) * c.layout.info.verticesOut ≤ c.numGsThreads * c.layout.info.verticesOut :=
      Nat.mul_le_mul_right _ hg
    rw [Nat.succ_mul] at hle
    unfold maxVtxcnt GsLayout.maxVtxcnt
    omega
  rw [vertexAt, primAt, if_pos hlt, if_pos hlt, Nat.mul_comm, Nat.mul_add_div hM,
    Nat.div_eq_of_lt hi, Nat.add_zero, Nat.mul_add_mod, Nat.mod_eq_of_lt hi]
  exact ⟨rfl, rfl⟩

theorem div_lt_and_mod_lt (ht : t < c.maxVtxcnt) :
    t / c.layout.info.verticesOut < c.numGsThreads ∧
      t % c.layout.info.verticesOut < c.layout.info.verticesOut := by
  have hM : 0 < c.layout.info.verticesOut := by
    rcases Nat.eq_zero_or_pos c.layout.info.verticesOut with hzero | hpos
    · rw [maxVtxcnt, GsLayout.maxVtxcnt, hzero] at ht
      omega
    · exact hpos
  exact ⟨Nat.div_lt_of_lt_mul (Nat.lt_of_lt_of_eq ht (Nat.mul_comm _ _)), Nat.mod_lt t hM⟩

theorem vertexAt_sub (ht : t < c.maxVtxcnt) {i : Nat} (hi : i ≤ t % c.layout.info.verticesOut) :
    c.vertexAt cmds (t - i) =
      (c.layout.places (cmds (t / c.layout.info.verticesOut)))[
        t % c.layout.info.verticesOut - i]? := by
  obtain ⟨hg, hmod⟩ := div_lt_and_mod_lt ht
  have hsplit := Nat.div_add_mod' t c.layout.info.verticesOut
  rw [show t - i = t / c.layout.info.verticesOut * c.layout.info.verticesOut +
    (t % c.layout.info.verticesOut - i) by omega]
  exact (vertexAt_mul_add hg (by omega)).1

theorem vertices_le_mod {v : D × Nat} (hv : c.vertexAt cmds t = some v)
    (hc : completes c.prim v.2 = true) :
    c.prim.vertices ≤ t % c.layout.info.verticesOut + 1 := by
  exact (vertices_le_of_completes (number_le (getElem?_places hv)) hc :
    c.layout.info.outputPrimitive.vertices ≤ _)

theorem exists_vertexAt_sub {v : D × Nat} (hv : c.vertexAt cmds t = some v)
    (hc : completes c.prim v.2 = true) {i : Nat} (hi : i < c.prim.vertices) :
    ∃ v', c.vertexAt cmds (t - i) = some v' := by
  have ht := lt_of_vertexAt hv
  have hle := vertices_le_mod hv hc
  obtain ⟨hlen, _⟩ := List.getElem?_eq_some_iff.mp (getElem?_places hv)
  exact ⟨_, (vertexAt_sub ht (by omega)).trans (List.getElem?_eq_getElem (by omega))⟩

theorem map_some_window_places {v : D × Nat} (hv : c.vertexAt cmds t = some v)
    (hc : completes c.prim v.2 = true) :
    (window c.prim ((c.layout.places (cmds (t / c.layout.info.verticesOut))).map (·.1))
        (t % c.layout.info.verticesOut)).map some =
      (List.range c.prim.vertices).map fun j =>
        (c.vertexAt cmds (t + 1 - c.prim.vertices + j)).map (·.1) := by
  have ht := lt_of_vertexAt hv
  have hle := vertices_le_mod hv hc
  have hmod : t % c.layout.info.verticesOut ≤ t := Nat.mod_le _ _
  obtain ⟨hlen, _⟩ := List.getElem?_eq_some_iff.mp (getElem?_places hv)
  rw [map_some_window hle (by rwa [List.length_map])]
  refine List.map_congr_left fun j hj => ?_
  have hj := List.mem_range.mp hj
  rw [show t + 1 - c.prim.vertices + j = t - (c.prim.vertices - 1 - j) by omega,
    vertexAt_sub ht (by omega), List.getElem?_map]
  congr 2
  omega

theorem primAt_eq_some {vertices : List D} (h : c.primAt cmds t = some vertices) :
    ∃ v, c.vertexAt cmds t = some v ∧ completes c.prim v.2 = true ∧
      vertices.map some = orient c.prim c.provokingFirst v.2
        ((List.range c.prim.vertices).map fun j =>
          (c.vertexAt cmds (t + 1 - c.prim.vertices + j)).map (·.1)) := by
  unfold primAt at h
  split at h
  next ht =>
    obtain ⟨v, hv, hc, _, rfl⟩ := (placePrimitive_eq_some _ _).mp h
    have hat : c.vertexAt cmds t = some v := by rw [vertexAt, if_pos ht, hv]
    refine ⟨v, hat, hc, ?_⟩
    rw [← map_some_window_places hat hc]
    exact map_orient _ _ _ _ _
  next => cases h

/-- Of the vertices that complete a primitive those of a rejected one have none. -/
theorem primAt_isSome {v : D × Nat} (hv : c.vertexAt cmds t = some v)
    (hc : completes c.prim v.2 = true) :
    (c.primAt cmds t).isSome = c.accepts (orient c.prim false v.2
      (window c.prim ((c.layout.places (cmds (t / c.layout.info.verticesOut))).map (·.1))
        (t % c.layout.info.verticesOut))) := by
  have ht := lt_of_vertexAt hv
  rw [vertexAt, if_pos ht] at hv
  rw [primAt, if_pos ht, placePrimitive, hv, Option.bind_some]
  rw [prim] at *
  rw [hc, Bool.true_and]
  split
  next h => rw [h]; rfl
  next h => rw [Bool.not_eq_true] at h; rw [h]; rfl

theorem flagAt_bit0 :
    (c.flagAt cmds t).getLsbD 0 = (c.vertexAt cmds t).any fun v => completes c.prim v.2 := by
  unfold flagAt
  cases c.vertexAt cmds t with
  | none => simp
  | some v => exact GsLayout.vertexFlags_bit0 _ _

theorem flagAt_of_le (ht : c.maxVtxcnt ≤ t) : c.flagAt cmds t = 0 := by
  rw [flagAt, vertexAt, if_neg (Nat.not_lt.mpr ht)]
  rfl

theorem culledAt_of_le (ht : c.maxVtxcnt ≤ t) : c.culledAt cmds t = 0 := by
  rw [culledAt, flagAt_of_le ht, ite_self]

theorem culledAt_of_not_culls (h : c.culls = false) : c.culledAt cmds t = c.flagAt cmds t := by
  unfold culledAt
  split
  next hbit =>
    rw [Bool.and_eq_true, flagAt_bit0, Option.any_eq_true, Option.isNone_iff_eq_none] at hbit
    obtain ⟨⟨v, hv, hc⟩, hnone⟩ := hbit
    have hsome := primAt_isSome hv hc
    rw [hnone, accepts, h, Bool.not_false, Bool.true_or] at hsome
    exact absurd hsome Bool.false_ne_true
  next => rfl

theorem liveAt_of_not_culls (h : c.culls = false) : c.liveAt cmds t = c.flagAt cmds t := by
  rw [liveAt, h, Bool.false_and, Bool.false_and, if_neg (by decide), culledAt_of_not_culls h]

theorem liveAt_ne_zero_of_not_culls (h : c.culls = false) {v : D × Nat}
    (hv : c.vertexAt cmds t = some v) : c.liveAt cmds t ≠ 0 := by
  rw [liveAt_of_not_culls h, flagAt, hv, h]
  exact fun hzero => Bool.noConfusion ((GsLayout.vertexFlags_eq_zero _ _).mp hzero).1

theorem culledAt_bit0 : (c.culledAt cmds t).getLsbD 0 = (c.primAt cmds t).isSome := by
  unfold culledAt
  cases hprim : c.primAt cmds t with
  | none =>
    cases hbit : (c.flagAt cmds t).getLsbD 0 with
    | true => simp
    | false => exact hbit
  | some vertices =>
    obtain ⟨v, hv, hc, _⟩ := primAt_eq_some hprim
    have hbit : (c.flagAt cmds t).getLsbD 0 = true := by
      rw [flagAt_bit0, hv]
      exact hc
    simpa using hbit

theorem liveAt_bit0 : (c.liveAt cmds t).getLsbD 0 = (c.primAt cmds t).isSome := by
  rw [← culledAt_bit0]
  unfold liveAt
  split
  next h =>
    rw [Bool.and_eq_true, Bool.and_eq_true, decide_eq_true_eq] at h
    rw [h.1.2]
    rfl
  next => rfl

/-- In a primitive that is exported the odd flag is that of the strip. -/
theorem liveAt_bit1 {v : D × Nat} {vertices : List D} (hprim : c.primAt cmds t = some vertices)
    (hv : c.vertexAt cmds t = some v) (htri : c.prim = .triangleStrip) :
    (c.liveAt cmds t).getLsbD 1 = decide (v.2 % 2 = 1) := by
  obtain ⟨v', hv', hc, _⟩ := primAt_eq_some hprim
  obtain rfl : v' = v := Option.some.inj (hv'.symm.trans hv)
  have hculled : c.culledAt cmds t = c.flagAt cmds t := by
    rw [culledAt, hprim, Option.isNone_some, Bool.and_false, if_neg (by decide)]
  have hlive : c.liveAt cmds t = c.flagAt cmds t := by
    have hbit : (c.culledAt cmds t).getLsbD 0 = true := by rw [culledAt_bit0, hprim]; rfl
    have hne : c.culledAt cmds t ≠ 0 := by
      intro hzero
      rw [hzero] at hbit
      exact absurd hbit (by decide)
    rw [liveAt, decide_eq_false hne, Bool.and_false, Bool.false_and, if_neg (by decide), hculled]
  rw [hlive, flagAt, hv]
  exact GsLayout.vertexFlags_bit1 _ _ htri hc

/-- The vertices of a primitive that is exported are live. -/
theorem liveAt_sub_ne_zero {vertices : List D} (hprim : c.primAt cmds t = some vertices) {i : Nat}
    (hi : i < c.prim.vertices) : c.liveAt cmds (t - i) ≠ 0 := by
  obtain ⟨v, hv, hc, _⟩ := primAt_eq_some hprim
  have ht := lt_of_vertexAt hv
  have hle := vertices_le_mod hv hc
  have hmod : t % c.layout.info.verticesOut ≤ t := Nat.mod_le _ _
  have hbit : (c.culledAt cmds t).getLsbD 0 = true := by rw [culledAt_bit0, hprim]; rfl
  unfold liveAt
  split
  next => decide
  next hdead =>
    intro hzero
    refine hdead ?_
    rw [hzero]
    rcases Nat.eq_zero_or_pos i with rfl | hpos
    · rw [Nat.sub_zero] at hzero
      rw [hzero] at hbit
      exact absurd hbit (by decide)
    · -- a vertex that is not culled away has flags, unless the culling clears them
      have hcull : c.culls = true := by
        by_contra hcull
        rw [Bool.not_eq_true] at hcull
        obtain ⟨v', hplace⟩ := exists_vertexAt_sub hv hc hi
        refine liveAt_ne_zero_of_not_culls hcull hplace ?_
        rw [liveAt_of_not_culls hcull, ← culledAt_of_not_culls hcull, hzero]
      rw [hcull, decide_eq_true rfl, Bool.true_and, Bool.true_and, List.any_eq_true]
      refine ⟨t, List.mem_range'_1.mpr ?_, ?_⟩
      · unfold numVerticesPerPrimitive
        omega
      · rw [decide_eq_true ht, hbit]
        rfl

theorem survives_of_primAt {vertices : List D} (hprim : c.primAt cmds t = some vertices) {i : Nat}
    (hi : i < c.prim.vertices) : c.survives cmds 0 (t - i) = true :=
  decide_eq_true (liveAt_sub_ne_zero hprim hi)

theorem lt_of_survives (h : c.survives cmds 0 t = true) : t < c.maxVtxcnt := by
  by_contra ht
  have ht := Nat.not_lt.mp ht
  rw [survives, decide_eq_true_eq, liveAt] at h
  split at h
  next hany =>
    rw [Bool.and_eq_true, List.any_eq_true] at hany
    obtain ⟨_, i, hi, hlt⟩ := hany
    have := (List.mem_range'_1.mp hi).1
    rw [Bool.and_eq_true, decide_eq_true_eq] at hlt
    omega
  next => exact h (culledAt_of_le ht)

theorem exists_vertexAt_of_survives (h : c.survives cmds 0 t = true) :
    ∃ v, c.vertexAt cmds t = some v := by
  rw [survives, decide_eq_true_eq, liveAt] at h
  split at h
  next hany =>
    rw [Bool.and_eq_true, List.any_eq_true] at hany
    obtain ⟨_, i, hi, hbit⟩ := hany
    rw [Bool.and_eq_true, culledAt_bit0, Option.isSome_iff_exists] at hbit
    obtain ⟨_, vertices, hprim⟩ := hbit
    obtain ⟨v, hv, hc, _⟩ := primAt_eq_some hprim
    have hi := List.mem_range'_1.mp hi
    unfold numVerticesPerPrimitive at hi
    have hvertex := exists_vertexAt_sub hv hc (by omega : i - t < c.prim.vertices)
    rwa [show i - (i - t) = t by omega] at hvertex
  next =>
    rw [← Option.isSome_iff_exists, ← Option.not_isNone, Bool.not_eq_true', Bool.eq_false_iff]
    intro hnone
    rw [Option.isNone_iff_eq_none] at hnone
    refine h ?_
    rw [culledAt, flagAt, hnone, GsLayout.placeFlags_none]
    exact ite_self _

/-- A live vertex is one of a primitive that is exported. -/
theorem exists_primAt_of_survives
    (hfits : ∀ tid < c.numGsThreads, emitCount (cmds tid) ≤ c.layout.info.verticesOut)
    (h : c.survives cmds 0 t = true) :
    ∃ t' vertices, c.primAt cmds t' = some vertices ∧ t ≤ t' ∧ t' < t + c.prim.vertices := by
  have ht := lt_of_survives h
  have hpos : 0 < c.prim.vertices := by cases c.prim <;> decide
  obtain ⟨v, hv⟩ := exists_vertexAt_of_survives h
  rw [survives, decide_eq_true_eq, liveAt] at h
  split at h
  next hany =>
    rw [Bool.and_eq_true, List.any_eq_true] at hany
    obtain ⟨_, i, hi, hbit⟩ := hany
    rw [Bool.and_eq_true, culledAt_bit0, Option.isSome_iff_exists] at hbit
    obtain ⟨_, vertices, hprim⟩ := hbit
    have hi := List.mem_range'_1.mp hi
    unfold numVerticesPerPrimitive at hi
    exact ⟨i, vertices, hprim, by omega, by omega⟩
  next =>
    cases hprim : c.primAt cmds t with
    | some vertices => exact ⟨t, vertices, hprim, Nat.le_refl t, by omega⟩
    | none =>
      -- flags without a primitive are left only where nothing is culled
      have hbit : (c.flagAt cmds t).getLsbD 0 = false := by
        by_contra hbit
        rw [Bool.not_eq_false] at hbit
        refine h ?_
        rw [culledAt, hbit, hprim]
        rfl
      have hculled : c.culledAt cmds t = c.flagAt cmds t := by
        rw [culledAt, hbit, Bool.false_and, if_neg (by decide)]
      rw [hculled] at h
      rw [flagAt_bit0, hv] at hbit
      have hcull : c.culls = false := by
        by_contra hcull
        rw [Bool.not_eq_false] at hcull
        refine h ?_
        rw [flagAt, hv]
        exact (GsLayout.vertexFlags_eq_zero _ _).mpr ⟨by rw [hcull]; rfl, hbit⟩
      obtain ⟨hg, hmod⟩ := div_lt_and_mod_lt ht
      obtain ⟨hlen, _⟩ := List.getElem?_eq_some_iff.mp (getElem?_places hv)
      obtain ⟨d, hd, v', hv', hc⟩ := exists_completing (fun _ => complete_of_mem_strips) hlen
      have hroom : t % c.layout.info.verticesOut + d < c.layout.info.verticesOut := by
        obtain ⟨hlt, _⟩ := List.getElem?_eq_some_iff.mp hv'
        exact Nat.lt_of_lt_of_le hlt (GsLayout.length_places_le (hfits _ hg))
      have hsplit := Nat.div_add_mod' t c.layout.info.verticesOut
      have hat : c.vertexAt cmds _ = _ := (vertexAt_mul_add hg hroom).1
      rw [show t / c.layout.info.verticesOut * c.layout.info.verticesOut +
        (t % c.layout.info.verticesOut + d) = t + d by omega] at hat
      have hsome := primAt_isSome (hat.trans hv') hc
      rw [accepts, hcull, Bool.not_false, Bool.true_or, Option.isSome_iff_exists] at hsome
      obtain ⟨vertices, hvertices⟩ := hsome
      exact ⟨t + d, vertices, hvertices, Nat.le_add_right t d, Nat.add_lt_add_left hd t⟩

/-- The vertices of a primitive that is exported have numbers without gaps. -/
theorem rank_sub {vertices : List D} (hprim : c.primAt cmds t = some vertices) {i : Nat}
    (hi : i < c.prim.vertices) :
    Repack.rank (c.survives cmds) 0 (t - i) + i = Repack.rank (c.survives cmds) 0 t := by
  induction i with
  | zero => rfl
  | succ i ih =>
    obtain ⟨v, hv, hc, _⟩ := primAt_eq_some hprim
    have hle := vertices_le_mod hv hc
    have hmod : t % c.layout.info.verticesOut ≤ t := Nat.mod_le _ _
    rw [← ih (by omega), show t - i = t - (i + 1) + 1 by omega, Repack.rank, Repack.rank,
      Nat.count_succ, if_pos (survives_of_primAt hprim hi)]
    omega

end Marks

end NggGs

end Psbc.Ngg
