import Psbc.Gs.Strips

/-!
# Streams of a geometry shader

A shader may emit to four streams. `nir_lower_gs_intrinsics` gives every active one counters of
its own, so a run that goes back and forth between the streams is a run on each of them:
`emissions_stream` and `streamCounts_eq`.
-/

namespace Psbc.Gs

variable {D : Type} (info : Info)

def Info.active (stream : Nat) : Bool := info.activeStreamMask.getLsbD stream

theorem Info.lt_four_of_active {info : Info} {stream : Nat} (h : info.active stream = true) :
    stream < 4 := BitVec.lt_of_getLsbD h

/-- What a shader does on a stream, if that is active. -/
def onStream (stream : Nat) (cmds : List (Nat × Cmd D)) : List (Cmd D) :=
  cmds.filterMap fun c => if c.1 = stream && info.active stream then some c.2 else none

/-- The emissions to the active streams in order, and the counters afterwards. -/
def streamEmissions :
    (Nat → Counters) → List (Nat × Cmd D) → List (Nat × Emission D) × (Nat → Counters)
  | counters, [] => ([], counters)
  | counters, (stream, cmd) :: cmds =>
    if info.active stream then
      let here := emissions info (counters stream) [cmd]
      let rest := streamEmissions (Function.update counters stream here.2) cmds
      (here.1.map (stream, ·) ++ rest.1, rest.2)
    else streamEmissions counters cmds

/-- `append_set_vertex_and_primitive_count`: the counts of vertices and of primitives of a
stream. -/
def streamCounts (cmds : List (Nat × Cmd D)) (stream : Nat) : Nat × Nat :=
  if info.active stream then
    ((streamEmissions info (fun _ => Counters.start) cmds).2 stream).finish info
  else (0, 0)

variable {info}

theorem emissions_cons (c : Counters) (cmd : Cmd D) (cmds : List (Cmd D)) :
    emissions info c (cmd :: cmds) =
      ((emissions info c [cmd]).1 ++ (emissions info (emissions info c [cmd]).2 cmds).1,
        (emissions info (emissions info c [cmd]).2 cmds).2) := by
  cases cmd with
  | emitVertex d =>
    simp only [emissions]
    cases (c.emitVertex info).1 <;> rfl
  | endPrimitive => rfl

theorem onStream_of_inactive {stream : Nat} (h : info.active stream = false)
    (cmds : List (Nat × Cmd D)) : onStream info stream cmds = [] := by
  simp [onStream, h]

theorem onStream_cons_self {stream : Nat} (h : info.active stream = true) (cmd : Cmd D)
    (cmds : List (Nat × Cmd D)) :
    onStream info stream ((stream, cmd) :: cmds) = cmd :: onStream info stream cmds := by
  simp [onStream, h]

theorem onStream_cons_of_ne {stream s : Nat} (h : stream ≠ s ∨ info.active stream = false)
    (cmd : Cmd D) (cmds : List (Nat × Cmd D)) :
    onStream info s ((stream, cmd) :: cmds) = onStream info s cmds := by
  by_cases heq : stream = s
  · subst heq
    simp [onStream, h.resolve_left (not_not_intro rfl)]
  · simp [onStream, heq]

theorem active_of_mem_emissions {counters : Nat → Counters} {cmds : List (Nat × Cmd D)}
    {e : Nat × Emission D} (h : e ∈ (streamEmissions info counters cmds).1) :
    info.active e.1 = true := by
  induction cmds generalizing counters with
  | nil => cases h
  | cons c cmds ih =>
    obtain ⟨stream, cmd⟩ := c
    unfold streamEmissions at h
    split at h
    next hactive =>
      rcases List.mem_append.mp h with hhere | hrest
      · obtain ⟨_, _, rfl⟩ := List.mem_map.mp hhere
        exact hactive
      · exact ih hrest
    next => exact ih h

def ofStream (stream : Nat) (es : List (Nat × Emission D)) : List (Emission D) :=
  es.filterMap fun e => if e.1 = stream then some e.2 else none

theorem ofStream_append (stream : Nat) (es es' : List (Nat × Emission D)) :
    ofStream stream (es ++ es') = ofStream stream es ++ ofStream stream es' :=
  List.filterMap_append

theorem ofStream_map_self (stream : Nat) (es : List (Emission D)) :
    ofStream stream (es.map (stream, ·)) = es := by
  simp [ofStream, List.filterMap_map]

theorem ofStream_map_of_ne {stream s : Nat} (h : stream ≠ s) (es : List (Emission D)) :
    ofStream s (es.map (stream, ·)) = [] := by
  simp [ofStream, h]

theorem mem_ofStream {es : List (Nat × Emission D)} {e : Nat × Emission D} (h : e ∈ es) :
    e.2 ∈ ofStream e.1 es :=
  List.mem_filterMap.mpr ⟨e, h, if_pos rfl⟩

theorem flatMap_ofStream {α : Type} {es : List (Nat × Emission D)}
    {g : Nat → Emission D → List α} {s : Nat} (h : ∀ e ∈ es, e.1 ≠ s → g e.1 e.2 = []) :
    (es.flatMap fun e => g e.1 e.2) = (ofStream s es).flatMap (g s) := by
  induction es with
  | nil => rfl
  | cons e es ih =>
    rw [← List.singleton_append, List.flatMap_append, ofStream_append, List.flatMap_append,
      ih fun e hmem => h e (List.mem_cons_of_mem _ hmem)]
    congr 1
    by_cases heq : e.1 = s
    · subst heq
      simp [ofStream]
    · simp [ofStream, heq, h e List.mem_cons_self heq]

theorem emissions_stream (counters : Nat → Counters) (cmds : List (Nat × Cmd D)) (s : Nat) :
    ofStream s (streamEmissions info counters cmds).1 =
        (emissions info (counters s) (onStream info s cmds)).1 ∧
      (streamEmissions info counters cmds).2 s =
        (emissions info (counters s) (onStream info s cmds)).2 := by
  induction cmds generalizing counters with
  | nil => exact ⟨rfl, rfl⟩
  | cons c cmds ih =>
    obtain ⟨stream, cmd⟩ := c
    unfold streamEmissions
    split
    next hactive =>
      obtain ⟨hlist, hcounters⟩ :=
        ih (Function.update counters stream (emissions info (counters stream) [cmd]).2)
      dsimp only
      rw [ofStream_append, hlist]
      by_cases heq : stream = s
      · subst heq
        rw [Function.update_self] at hcounters ⊢
        rw [onStream_cons_self hactive, emissions_cons _ cmd (onStream info stream cmds),
          ofStream_map_self]
        exact ⟨rfl, hcounters⟩
      · rw [Function.update_of_ne (Ne.symm heq)] at hcounters ⊢
        rw [onStream_cons_of_ne (.inl heq), ofStream_map_of_ne heq]
        exact ⟨rfl, hcounters⟩
    next hactive =>
      rw [onStream_cons_of_ne (.inr (Bool.not_eq_true _ ▸ hactive))]
      exact ih counters

/-- The counts of an inactive stream are those of a shader that does nothing. -/
theorem finish_start (info : Info) : Counters.start.finish info = (0, 0) := by
  unfold Counters.finish Counters.overwriteIncomplete Counters.start
  cases hp : info.outputPrimitive <;> simp [Info.isPoints, hp, OutputPrimitive.vertices]

variable (info) in
theorem streamCounts_eq (cmds : List (Nat × Cmd D)) (s : Nat) :
    streamCounts info cmds s =
      (emissions info Counters.start (onStream info s cmds)).2.finish info := by
  unfold streamCounts
  split
  next => rw [(emissions_stream (fun _ => Counters.start) cmds s).2]
  next hs =>
    rw [onStream_of_inactive (Bool.not_eq_true _ ▸ hs)]
    exact (finish_start info).symm

end Psbc.Gs
