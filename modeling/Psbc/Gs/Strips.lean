import Mathlib.Data.List.Basic
import Mathlib.Logic.Function.Basic

/-!
# Strips of a geometry shader

A geometry shader emits vertices and ends primitives. `strips` is what it means: the vertices
between two ends are a strip, a strip too short for one primitive gives none, and every vertex
from the last of the first primitive on completes one more. `stripPrimitives` lists them with the
vertices in the order that keeps the face and the provoking vertex.

`nir_lower_gs_intrinsics` carries the same with three counters, and reuses the places of the
vertices of incomplete strips: `Counters`, with the places in `Slots`.
-/

namespace Psbc.Gs

/-- What a geometry shader does on a stream. -/
inductive Cmd (D : Type) where
  | emitVertex (outputs : D)
  | endPrimitive

inductive OutputPrimitive where
  | points
  | lineStrip
  | triangleStrip
  deriving DecidableEq, Repr

/-- `nir_verts_in_output_prim` -/
def OutputPrimitive.vertices : OutputPrimitive → Nat
  | points => 1
  | lineStrip => 2
  | triangleStrip => 3

/-! ## Primitives -/

section Primitives

variable {D : Type} (p : OutputPrimitive)

/-- The strips, with one that is not ended yet. -/
def stripsFrom : List D → List (Cmd D) → List (List D)
  | current, [] => [current]
  | current, .emitVertex d :: cmds => stripsFrom (current ++ [d]) cmds
  | current, .endPrimitive :: cmds => current :: stripsFrom [] cmds

/-- The strips that have a primitive. -/
def strips (cmds : List (Cmd D)) : List (List D) :=
  (stripsFrom [] cmds).filter fun strip => p.vertices ≤ strip.length

/-- The vertices of a primitive whose last vertex is number `j` of its strip. In every other
triangle two vertices change places; the provoking vertex, the first or the last, does not. -/
def orient (provokingFirst : Bool) (j : Nat) (vertices : List D) : List D :=
  match p, vertices with
  | .triangleStrip, [a, b, c] =>
    if j % 2 = 1 then if provokingFirst then [a, c, b] else [b, a, c] else [a, b, c]
  | _, vertices => vertices

/-- The vertices of the primitive that ends with vertex `i` of the list. -/
def window (vertices : List D) (i : Nat) : List D :=
  (vertices.drop (i + 1 - p.vertices)).take p.vertices

/-- Whether vertex `j` of a strip completes a primitive. -/
def completes (j : Nat) : Bool := decide (p.vertices - 1 ≤ j)

/-- The primitives of a strip that are accepted. -/
def stripPrimitives (provokingFirst : Bool) (accept : List D → Bool) (strip : List D) :
    List (List D) :=
  (List.range strip.length).filterMap fun j =>
    if completes p j && accept (orient p false j (window p strip j)) then
      some (orient p provokingFirst j (window p strip j))
    else none

variable {p} in
theorem complete_of_mem_strips {cmds : List (Cmd D)} {strip : List D} (h : strip ∈ strips p cmds) :
    p.vertices ≤ strip.length :=
  of_decide_eq_true (List.mem_filter.mp h).2

end Primitives

/-! ## Counters -/

/-- The variables of `nir_lower_gs_intrinsics` for a stream. -/
structure Counters where
  vertexCount : Nat
  vtxcntPerPrim : Nat
  primitiveCount : Nat
  deriving DecidableEq, Repr

/-- Vertices in their places, each with its number in the strip as it was emitted. -/
abbrev Slots (D : Type) := Nat → Option (D × Nat)

/-- The output declaration of the shader, and the streams that it has commands for. -/
structure Info where
  outputPrimitive : OutputPrimitive
  verticesOut : Nat
  activeStreamMask : BitVec 4

section Lowering

variable {D : Type} (info : Info)

def Counters.start : Counters := ⟨0, 0, 1⟩

def Info.isPoints : Bool := info.outputPrimitive = .points

/-- The second source of `emit_vertex_with_counter`. -/
def Counters.perPrimitive (c : Counters) : Nat := if info.isPoints then 0 else c.vtxcntPerPrim

/-- `rewrite_emit_vertex`: the place of the vertex, if it is not one too many. -/
def Counters.emitVertex (c : Counters) : Option (Nat × Nat) × Counters :=
  if c.vertexCount < info.verticesOut then
    (some (c.vertexCount, c.perPrimitive info),
      { c with
        vertexCount := c.vertexCount + 1
        vtxcntPerPrim := if info.isPoints then c.vtxcntPerPrim else c.vtxcntPerPrim + 1 })
  else (none, c)

/-- `overwrite_incomplete_primitives` -/
def Counters.overwriteIncomplete (c : Counters) : Counters :=
  let isIncPrim := decide (c.vtxcntPerPrim < info.outputPrimitive.vertices)
  { c with
    vertexCount := c.vertexCount - if isIncPrim then c.vtxcntPerPrim else 0
    primitiveCount := c.primitiveCount - if isIncPrim then 1 else 0 }

/-- `rewrite_end_primitive` -/
def Counters.endPrimitive (c : Counters) : Counters :=
  if info.isPoints then c
  else
    let c := { c with primitiveCount := c.primitiveCount + 1 }
    { c.overwriteIncomplete info with vtxcntPerPrim := 0 }

/-- `append_set_vertex_and_primitive_count`: the two sources of the last instruction. -/
def Counters.finish (c : Counters) : Nat × Nat :=
  if info.isPoints then (c.vertexCount, c.vertexCount)
  else
    let c := c.overwriteIncomplete info
    (c.vertexCount, c.primitiveCount)

/-- An emission: the place, the number in the strip and the outputs. -/
structure Emission (D : Type) where
  place : Nat
  perPrimitive : Nat
  outputs : D

/-- The emissions of a run and the counters after it. -/
def emissions : Counters → List (Cmd D) → List (Emission D) × Counters
  | c, [] => ([], c)
  | c, .emitVertex d :: cmds =>
    let next := c.emitVertex info
    let rest := emissions next.2 cmds
    match next.1 with
    | some (place, perPrimitive) => (⟨place, perPrimitive, d⟩ :: rest.1, rest.2)
    | none => rest
  | c, .endPrimitive :: cmds => emissions (c.endPrimitive info) cmds

def Slots.after (slots : Slots D) (es : List (Emission D)) : Slots D :=
  es.foldl (fun slots e => Function.update slots e.place (some (e.outputs, e.perPrimitive))) slots

end Lowering

/-! ## The counters follow the strips -/

section Tracking

variable {D : Type} (info : Info)

def numbered (strip : List D) : List (D × Nat) :=
  strip.zipIdx.map fun v => (v.1, if info.isPoints then 0 else v.2)

theorem length_numbered (strip : List D) : (numbered info strip).length = strip.length := by
  simp [numbered]

theorem numbered_append_singleton (strip : List D) (d : D) :
    numbered info (strip ++ [d]) =
      numbered info strip ++ [(d, if info.isPoints then 0 else strip.length)] := by
  simp [numbered, List.zipIdx_append]

/-- The complete strips so far are `done`, and `current` has begun. -/
structure Tracks (done : List (List D)) (current : List D) (c : Counters) (slots : Slots D) :
    Prop where
  vertexCount : c.vertexCount = (done.flatMap (numbered info)).length + current.length
  perPrim : info.isPoints = false → c.vtxcntPerPrim = current.length
  primitiveCount : info.isPoints = false → c.primitiveCount = done.length + 1
  slots : ∀ {i : Nat}, i < c.vertexCount →
    slots i = (done.flatMap (numbered info) ++ numbered info current)[i]?
  complete : ∀ strip ∈ done, info.outputPrimitive.vertices ≤ strip.length

theorem tracks_start (slots : Slots D) : Tracks info [] [] Counters.start slots where
  vertexCount := rfl
  perPrim _ := rfl
  primitiveCount _ := rfl
  slots hi := absurd hi (Nat.not_lt_zero _)
  complete _ hmem := absurd hmem List.not_mem_nil

variable {info} {done : List (List D)} {current : List D} {c : Counters} {slots : Slots D}

theorem Tracks.emitVertex (h : Tracks info done current c slots)
    (hfits : c.vertexCount < info.verticesOut) (d : D) :
    Tracks info done (current ++ [d]) (c.emitVertex info).2
      (Function.update slots c.vertexCount (some (d, c.perPrimitive info))) := by
  have hnumber : c.perPrimitive info = if info.isPoints then 0 else current.length := by
    unfold Counters.perPrimitive
    cases hpoints : info.isPoints with
    | true => rfl
    | false => exact h.perPrim hpoints
  have hlen : (done.flatMap (numbered info) ++ numbered info current).length =
      c.vertexCount := by
    rw [List.length_append, length_numbered, h.vertexCount]
  unfold Counters.emitVertex
  rw [if_pos hfits]
  refine ⟨?_, fun hpoints => ?_, h.primitiveCount, fun {i} hi => ?_, h.complete⟩
  · simp only [List.length_append, List.length_singleton, h.vertexCount]
    omega
  · simp [hpoints, h.perPrim hpoints]
  · rw [numbered_append_singleton, ← List.append_assoc, hnumber]
    rcases Nat.lt_succ_iff_lt_or_eq.mp hi with hlt | rfl
    · rw [Function.update_of_ne (Nat.ne_of_lt hlt), h.slots hlt,
        List.getElem?_append_left (Nat.lt_of_lt_of_eq hlt hlen.symm)]
    · rw [Function.update_self, ← hlen, List.getElem?_concat_length]

/-- A complete strip stays; the places of an incomplete one are free again. -/
theorem Tracks.endPrimitive (h : Tracks info done current c slots) :
    Tracks info
      (if info.outputPrimitive.vertices ≤ current.length then done ++ [current] else done) []
      (c.endPrimitive info) slots := by
  have hcomplete : ∀ strip ∈ (if info.outputPrimitive.vertices ≤ current.length then
      done ++ [current] else done), info.outputPrimitive.vertices ≤ strip.length := by
    intro strip hmem
    split at hmem
    next hfull =>
      rcases List.mem_append.mp hmem with hdone | hcurrent
      · exact h.complete strip hdone
      · rwa [List.mem_singleton.mp hcurrent]
    next => exact h.complete strip hmem
  unfold Counters.endPrimitive
  cases hpoints : info.isPoints with
  | true =>
    have hvertices : info.outputPrimitive.vertices = 1 := by
      rw [Info.isPoints, decide_eq_true_eq] at hpoints
      rw [hpoints]
      rfl
    have hflat : (if info.outputPrimitive.vertices ≤ current.length then done ++ [current]
        else done).flatMap (numbered info) =
        done.flatMap (numbered info) ++ numbered info current := by
      split
      next => simp
      next hshort =>
        obtain rfl : current = [] := List.eq_nil_of_length_eq_zero (by omega)
        simp [numbered]
    refine ⟨?_, fun hfalse => absurd (hpoints.symm.trans hfalse) (by decide),
      fun hfalse => absurd (hpoints.symm.trans hfalse) (by decide), fun {i} hi => ?_, hcomplete⟩
    · rw [hflat, List.length_append, length_numbered]
      exact h.vertexCount
    · rw [hflat, show numbered info ([] : List D) = [] from rfl, List.append_nil]
      exact h.slots hi
  | false =>
    have hcount := h.vertexCount
    have hper := h.perPrim hpoints
    have hprim := h.primitiveCount hpoints
    simp only [Bool.false_eq_true, if_false, Counters.overwriteIncomplete, hper,
      decide_eq_true_eq]
    revert hcomplete
    split
    next hfull =>
      intro hcomplete
      simp only [if_neg (Nat.not_lt.mpr hfull), Nat.sub_zero]
      refine ⟨?_, fun _ => rfl, fun _ => ?_, fun {i} hi => ?_, hcomplete⟩
      · simp [length_numbered, hcount]
      · simp [hprim]
      · rw [h.slots hi]
        simp [numbered]
    next hshort =>
      intro hcomplete
      simp only [if_pos (Nat.not_le.mp hshort)]
      refine ⟨?_, fun _ => rfl, fun _ => ?_, fun {i} hi => ?_, hcomplete⟩
      · simp only [List.length_nil, hcount]
        omega
      · simp only [hprim]
        omega
      · have hlt : i < (done.flatMap (numbered info)).length := by
          simp only [hcount] at hi
          omega
        rw [h.slots (by omega), List.getElem?_append_left hlt, List.getElem?_append_left hlt]

def emitCount : List (Cmd D) → Nat
  | [] => 0
  | .emitVertex _ :: cmds => emitCount cmds + 1
  | .endPrimitive :: cmds => emitCount cmds

theorem vertexCount_endPrimitive_le (info : Info) (c : Counters) :
    (c.endPrimitive info).vertexCount ≤ c.vertexCount := by
  unfold Counters.endPrimitive
  split
  · exact Nat.le_refl _
  · exact Nat.sub_le _ _

theorem Tracks.run {cmds : List (Cmd D)} (h : Tracks info done current c slots)
    (hfits : c.vertexCount + emitCount cmds ≤ info.verticesOut) :
    ∃ done' current', Tracks info done' current' (emissions info c cmds).2
        (slots.after (emissions info c cmds).1) ∧
      (done' ++ [current']).filter (fun strip => info.outputPrimitive.vertices ≤ strip.length) =
        (done ++ stripsFrom current cmds).filter
          (fun strip => info.outputPrimitive.vertices ≤ strip.length) := by
  induction cmds generalizing done current c slots with
  | nil => exact ⟨done, current, h, rfl⟩
  | cons cmd cmds ih =>
    cases cmd with
    | emitVertex d =>
      rw [emitCount] at hfits
      have hroom : c.vertexCount < info.verticesOut := by omega
      have hnext := h.emitVertex hroom d
      have hcount : (c.emitVertex info).2.vertexCount = c.vertexCount + 1 := by
        rw [Counters.emitVertex, if_pos hroom]
      have hplace : (c.emitVertex info).1 = some (c.vertexCount, c.perPrimitive info) := by
        rw [Counters.emitVertex, if_pos hroom]
      simp only [emissions, hplace]
      exact ih hnext (by omega)
    | endPrimitive =>
      rw [emitCount] at hfits
      have hle := vertexCount_endPrimitive_le info c
      obtain ⟨done', current', htracks, hstrips⟩ := ih h.endPrimitive (by omega)
      refine ⟨done', current', htracks, ?_⟩
      rw [hstrips, stripsFrom]
      split
      next => simp
      next hshort => simp [hshort]

/-- At the end the last strip is treated as if it had been ended. -/
theorem finish_eq (info : Info) (c : Counters) :
    (c.finish info).1 = (c.endPrimitive info).vertexCount ∧
      (info.isPoints = false →
        (c.finish info).2 = (c.endPrimitive info).primitiveCount - 1) := by
  unfold Counters.finish Counters.endPrimitive
  cases info.isPoints with
  | true => exact ⟨rfl, fun hfalse => absurd hfalse (by decide)⟩
  | false =>
    refine ⟨rfl, fun _ => ?_⟩
    simp only [Bool.false_eq_true, if_false, Counters.overwriteIncomplete]
    split <;> omega

/-- The vertex counter stays within what was declared. -/
theorem vertexCount_emissions_le {c : Counters} (hc : c.vertexCount ≤ info.verticesOut)
    (cmds : List (Cmd D)) : (emissions info c cmds).2.vertexCount ≤ info.verticesOut := by
  induction cmds generalizing c with
  | nil => exact hc
  | cons cmd cmds ih =>
    cases cmd with
    | emitVertex d =>
      by_cases hroom : c.vertexCount < info.verticesOut
      · simp only [emissions, Counters.emitVertex, if_pos hroom]
        exact ih hroom
      · simp only [emissions, Counters.emitVertex, if_neg hroom]
        exact ih hc
    | endPrimitive => exact ih (Nat.le_trans (vertexCount_endPrimitive_le info c) hc)

variable (info) in
theorem emissions_finish {cmds : List (Cmd D)} (hfits : emitCount cmds ≤ info.verticesOut)
    (slots : Slots D) :
    ((emissions info Counters.start cmds).2.finish info).1 =
        ((strips info.outputPrimitive cmds).flatMap (numbered info)).length ∧
      (info.isPoints = false →
        ((emissions info Counters.start cmds).2.finish info).2 =
          (strips info.outputPrimitive cmds).length) ∧
      ∀ {i : Nat}, i < ((emissions info Counters.start cmds).2.finish info).1 →
        slots.after (emissions info Counters.start cmds).1 i =
          ((strips info.outputPrimitive cmds).flatMap (numbered info))[i]? := by
  obtain ⟨done, current, htracks, hstrips⟩ :=
    (tracks_start info slots).run (Nat.le_trans (Nat.le_of_eq (Nat.zero_add _)) hfits)
  have hkept : (if info.outputPrimitive.vertices ≤ current.length then done ++ [current]
      else done) = strips info.outputPrimitive cmds := by
    rw [strips, ← List.nil_append (stripsFrom [] cmds), ← hstrips, List.filter_append,
      List.filter_eq_self.mpr fun strip hmem => decide_eq_true (htracks.complete strip hmem)]
    split
    next hfull => simp [hfull]
    next hshort => simp [hshort]
  have hend := htracks.endPrimitive
  rw [hkept] at hend
  obtain ⟨hfirst, hsecond⟩ := finish_eq info (emissions info Counters.start cmds).2
  refine ⟨?_, fun hpoints => ?_, fun {i} hi => ?_⟩
  · rw [hfirst, hend.vertexCount]
    rfl
  · rw [hsecond hpoints, hend.primitiveCount hpoints, Nat.add_sub_cancel]
  · rw [hfirst] at hi
    rw [hend.slots hi]
    exact congrArg (·[i]?) (List.append_nil _)

end Tracking

/-! ## Primitives by places -/

section Places

variable {D : Type} (info : Info) (provokingFirst : Bool) (accept : List D → Bool)

/-- The primitive that the vertex in a place completes. -/
def placePrimitive (places : List (D × Nat)) (i : Nat) : Option (List D) :=
  places[i]?.bind fun v =>
    if completes info.outputPrimitive v.2 &&
        accept (orient info.outputPrimitive false v.2
          (window info.outputPrimitive (places.map (·.1)) i)) then
      some (orient info.outputPrimitive provokingFirst v.2
        (window info.outputPrimitive (places.map (·.1)) i))
    else none

theorem map_fst_numbered (strip : List D) : (numbered info strip).map (·.1) = strip := by
  simp [numbered, Function.comp_def]

theorem getElem?_numbered (strip : List D) (i : Nat) :
    (numbered info strip)[i]? = strip[i]?.map fun d => (d, if info.isPoints then 0 else i) := by
  simp [numbered, Function.comp_def]

variable {info}

theorem window_append_left {p : OutputPrimitive} {a : List D} (b : List D) {i : Nat}
    (hi : i < a.length) (hk : p.vertices ≤ i + 1) : window p (a ++ b) i = window p a i := by
  rw [window, window, List.drop_append_of_le_length (by omega),
    List.take_append_of_le_length (by rw [List.length_drop]; omega)]

theorem window_append_right {p : OutputPrimitive} (a b : List D) {i : Nat}
    (hk : p.vertices ≤ i + 1) : window p (a ++ b) (a.length + i) = window p b i := by
  rw [window, window, List.drop_append, List.drop_eq_nil_of_le (by omega), List.nil_append,
    show a.length + i + 1 - p.vertices - a.length = i + 1 - p.vertices by omega]

/-- A vertex that completes a primitive is preceded by the others. -/
theorem vertices_le_of_completes {j i : Nat} (hj : j ≤ i)
    (h : completes info.outputPrimitive j = true) : info.outputPrimitive.vertices ≤ i + 1 := by
  rw [completes, decide_eq_true_eq] at h
  omega

theorem number_le {kept : List (List D)} {i : Nat} {v : D × Nat}
    (h : (kept.flatMap (numbered info))[i]? = some v) : v.2 ≤ i := by
  induction kept generalizing i with
  | nil => simp at h
  | cons strip kept ih =>
    rw [List.flatMap_cons] at h
    rcases Nat.lt_or_ge i (numbered info strip).length with hlt | hge
    · rw [List.getElem?_append_left hlt, getElem?_numbered, Option.map_eq_some_iff] at h
      obtain ⟨d, _, rfl⟩ := h
      dsimp only
      split <;> omega
    · rw [List.getElem?_append_right hge] at h
      have hle := ih h
      omega

theorem completes_number (i : Nat) :
    completes info.outputPrimitive (if info.isPoints then 0 else i) =
      completes info.outputPrimitive i := by
  unfold Info.isPoints
  cases info.outputPrimitive with
  | points => simp [completes, OutputPrimitive.vertices]
  | lineStrip => rfl
  | triangleStrip => rfl

theorem orient_number (first : Bool) (i : Nat) (vertices : List D) :
    orient info.outputPrimitive first (if info.isPoints then 0 else i) vertices =
      orient info.outputPrimitive first i vertices := by
  unfold Info.isPoints
  cases info.outputPrimitive <;> rfl

/-- A vertex of a strip that has a primitive is one of a primitive's. -/
theorem exists_completing {kept : List (List D)}
    (hkept : ∀ strip ∈ kept, info.outputPrimitive.vertices ≤ strip.length) {i : Nat}
    (h : i < (kept.flatMap (numbered info)).length) :
    ∃ d < info.outputPrimitive.vertices, ∃ v, (kept.flatMap (numbered info))[i + d]? = some v ∧
      completes info.outputPrimitive v.2 = true := by
  induction kept generalizing i with
  | nil => exact absurd h (Nat.not_lt_zero _)
  | cons strip kept ih =>
    have hfull := hkept strip (List.mem_cons_self ..)
    have hpos : 0 < info.outputPrimitive.vertices := by cases info.outputPrimitive <;> decide
    rw [List.flatMap_cons] at h ⊢
    rcases Nat.lt_or_ge i strip.length with hlt | hge
    · have hstrip : ∀ d, i + d < strip.length → info.outputPrimitive.vertices - 1 ≤ i + d →
          ∃ v, (numbered info strip ++ kept.flatMap (numbered info))[i + d]? = some v ∧
            completes info.outputPrimitive v.2 = true := by
        intro d hd hlast
        refine ⟨(strip[i + d], if info.isPoints then 0 else i + d), ?_, ?_⟩
        · rw [List.getElem?_append_left (by rwa [length_numbered]), getElem?_numbered,
            List.getElem?_eq_getElem hd, Option.map_some]
        · rw [completes_number]
          exact decide_eq_true hlast
      rcases Nat.lt_or_ge i (info.outputPrimitive.vertices - 1) with hfirst | hlast
      · exact ⟨info.outputPrimitive.vertices - 1 - i, by omega, hstrip _ (by omega) (by omega)⟩
      · exact ⟨0, hpos, hstrip 0 hlt hlast⟩
    · rw [List.length_append, length_numbered] at h
      obtain ⟨d, hd, v, hv, hc⟩ := ih (fun s hs => hkept s (List.mem_cons_of_mem _ hs))
        (by omega : i - strip.length < _)
      refine ⟨d, hd, v, ?_, hc⟩
      rw [List.getElem?_append_right (by rw [length_numbered]; omega), length_numbered,
        show i + d - strip.length = i - strip.length + d by omega, hv]

theorem placePrimitive_append_left (strip : List D) (places : List (D × Nat)) {i : Nat}
    (hi : i < strip.length) :
    placePrimitive info provokingFirst accept (numbered info strip ++ places) i =
      if completes info.outputPrimitive i &&
          accept (orient info.outputPrimitive false i (window info.outputPrimitive strip i)) then
        some (orient info.outputPrimitive provokingFirst i (window info.outputPrimitive strip i))
      else none := by
  rw [placePrimitive, List.getElem?_append_left (by rwa [length_numbered]), getElem?_numbered,
    List.getElem?_eq_getElem hi, Option.map_some, Option.bind_some, List.map_append,
    map_fst_numbered, completes_number]
  cases hc : completes info.outputPrimitive i with
  | false => rfl
  | true =>
    rw [window_append_left _ hi (vertices_le_of_completes (Nat.le_refl i) hc), orient_number,
      orient_number]

theorem placePrimitive_append_right (strip : List D) (kept : List (List D)) (i : Nat) :
    placePrimitive info provokingFirst accept
        (numbered info strip ++ kept.flatMap (numbered info)) ((numbered info strip).length + i) =
      placePrimitive info provokingFirst accept (kept.flatMap (numbered info)) i := by
  rw [placePrimitive, placePrimitive, List.getElem?_append_right (Nat.le_add_right _ _),
    Nat.add_sub_cancel_left]
  cases hv : (kept.flatMap (numbered info))[i]? with
  | none => rfl
  | some v =>
    rw [Option.bind_some, Option.bind_some]
    cases hc : completes info.outputPrimitive v.2 with
    | false => rfl
    | true =>
      rw [List.map_append, map_fst_numbered, length_numbered,
        window_append_right _ _ (vertices_le_of_completes (number_le hv) hc)]

theorem placePrimitive_eq_some {places : List (D × Nat)} {i : Nat} {vertices : List D} :
    placePrimitive info provokingFirst accept places i = some vertices ↔
      ∃ v, places[i]? = some v ∧ completes info.outputPrimitive v.2 = true ∧
        accept (orient info.outputPrimitive false v.2
          (window info.outputPrimitive (places.map (·.1)) i)) = true ∧
        orient info.outputPrimitive provokingFirst v.2
          (window info.outputPrimitive (places.map (·.1)) i) = vertices := by
  unfold placePrimitive
  cases places[i]? with
  | none => simp
  | some v => simp [and_assoc]

theorem map_some_window {p : OutputPrimitive} {l : List D} {i : Nat} (hk : p.vertices ≤ i + 1)
    (hi : i < l.length) :
    (window p l i).map some =
      (List.range p.vertices).map fun j => l[i + 1 - p.vertices + j]? := by
  refine List.ext_getElem? fun j => ?_
  rw [List.getElem?_map, List.getElem?_map, window, List.getElem?_take, List.getElem?_drop]
  rcases Nat.lt_or_ge j p.vertices with hj | hj
  · have hlt : i + 1 - p.vertices + j < l.length := by omega
    rw [if_pos hj, List.getElem?_range hj, Option.map_some, List.getElem?_eq_getElem hlt,
      Option.map_some]
  · rw [if_neg (Nat.not_lt.mpr hj), List.getElem?_eq_none (by simpa using hj), Option.map_none,
      Option.map_none]

theorem map_orient {E : Type} (p : OutputPrimitive) (j : Nat) (f : D → E) (vertices : List D) :
    (orient p provokingFirst j vertices).map f = orient p provokingFirst j (vertices.map f) := by
  cases p with
  | points => rfl
  | lineStrip => rfl
  | triangleStrip =>
    match vertices with
    | [] | [_] | [_, _] | _ :: _ :: _ :: _ :: _ => rfl
    | [a, b, c] =>
      simp only [orient, List.map_cons, List.map_nil]
      split_ifs <;> rfl

theorem flatMap_stripPrimitives (kept : List (List D)) :
    kept.flatMap (stripPrimitives info.outputPrimitive provokingFirst accept) =
      (List.range (kept.flatMap (numbered info)).length).filterMap
        (placePrimitive info provokingFirst accept (kept.flatMap (numbered info))) := by
  induction kept with
  | nil => rfl
  | cons strip kept ih =>
    rw [List.flatMap_cons, List.flatMap_cons, List.length_append, List.range_add,
      List.filterMap_append, ih, List.filterMap_map]
    congr 1
    · rw [stripPrimitives, length_numbered]
      refine List.filterMap_congr fun i hi => ?_
      exact (placePrimitive_append_left provokingFirst accept strip _ (List.mem_range.mp hi)).symm
    · refine List.filterMap_congr fun i _ => ?_
      exact (placePrimitive_append_right provokingFirst accept strip kept i).symm

end Places

end Psbc.Gs
