import Psbc.Args.Metadata
import Psbc.Lib.Placement

/-!
# What the calls declare

What a run of calls leaves in the tables: a call's argument has the registers of the last
call for it, its location the dword of the first call there. The window is declared in
blocks whose arguments and locations are apart, so that in each block a published argument
is settled: its first location and its last registers come from one call.
-/

namespace Psbc.Args

open Placement

/-! ## What a call declares -/

inductive Loc where
  | ud (index : Nat)
  | set (index : Nat)
  deriving DecidableEq, Repr

namespace ArgCall

def size : ArgCall → Nat
  | .addArg size _ => size
  | .addUdArg size _ _ => size
  | .addDescriptorSet _ => 1
  | .resetUserSgprs => 0

def arg : ArgCall → Option Arg
  | .addArg _ arg => arg
  | .addUdArg _ arg _ => some arg
  | .addDescriptorSet set => some (.descriptors set)
  | .resetUserSgprs => none

def loc : ArgCall → Option Loc
  | .addUdArg _ _ ud => some (.ud ud)
  | .addDescriptorSet set => some (.set set)
  | _ => none

end ArgCall

def ShaderArgs.loc (s : ShaderArgs) : Loc → Option Nat
  | .ud index => s.shaderData index
  | .set index => s.descriptorSets index

section Apply

variable (s : ShaderArgs) (x : ArgCall)

theorem apply_numSgprsUsed : (x.apply s).numSgprsUsed = s.numSgprsUsed + x.size := by
  cases x <;> rfl

theorem apply_numUserSgprs {l : Loc} (h : x.loc = some l) :
    (x.apply s).numUserSgprs = s.numUserSgprs + x.size := by
  cases x with
  | addUdArg | addDescriptorSet => rfl
  | addArg | resetUserSgprs => cases h

theorem apply_arg_ne {a : Arg} (h : x.arg ≠ some a) : (x.apply s).arg a = s.arg a := by
  cases x with
  | addArg size arg =>
    cases arg with
    | none => rfl
    | some b => exact Function.update_of_ne (by rintro rfl; exact h rfl) _ _
  | addUdArg size b ud => exact Function.update_of_ne (by rintro rfl; exact h rfl) _ _
  | addDescriptorSet set => exact Function.update_of_ne (by rintro rfl; exact h rfl) _ _
  | resetUserSgprs => rfl

theorem apply_arg_self {a : Arg} (h : x.arg = some a) :
    (x.apply s).arg a = some ⟨s.numSgprsUsed, x.size⟩ := by
  cases x with
  | addArg size arg => obtain rfl : arg = some a := h; exact Function.update_self ..
  | addUdArg size b ud => obtain rfl := Option.some.inj h; exact Function.update_self ..
  | addDescriptorSet set => obtain rfl := Option.some.inj h; exact Function.update_self ..
  | resetUserSgprs => cases h

theorem apply_loc_ne {l : Loc} (h : x.loc ≠ some l) : (x.apply s).loc l = s.loc l := by
  cases x with
  | addArg | resetUserSgprs => rfl
  | addUdArg size a ud =>
    cases l with
    | set => rfl
    | ud index =>
      have hne : index ≠ ud := by rintro rfl; exact h rfl
      simp only [ShaderArgs.loc, ArgCall.apply, ShaderArgs.addUdArg]
      split <;> simp [hne]
  | addDescriptorSet set =>
    cases l with
    | ud => rfl
    | set index => exact Function.update_of_ne (by rintro rfl; exact h rfl) _ _

theorem apply_loc_self {l : Loc} (h : x.loc = some l) (hnew : s.loc l = none) :
    (x.apply s).loc l = some s.numUserSgprs := by
  cases x with
  | addArg | resetUserSgprs => cases h
  | addUdArg size a ud =>
    obtain rfl := Option.some.inj h
    simp only [ShaderArgs.loc] at hnew
    simp [ShaderArgs.loc, ArgCall.apply, ShaderArgs.addUdArg, hnew]
  | addDescriptorSet set =>
    obtain rfl := Option.some.inj h
    exact Function.update_self ..

/-- A location of `shader_data` keeps its first entry. -/
theorem apply_shaderData_some {u d : Nat} (h : s.shaderData u = some d) :
    (x.apply s).shaderData u = some d := by
  cases x with
  | addArg | addDescriptorSet | resetUserSgprs => exact h
  | addUdArg size a ud =>
    simp only [ArgCall.apply, ShaderArgs.addUdArg]
    split
    · rename_i hnew
      rw [Function.update_of_ne (by rintro rfl; simp [h] at hnew), h]
    · exact h

end Apply

/-! ## Runs of calls -/

section Run

variable {l : List ArgCall} {s : ShaderArgs}

theorem run_numSgprsUsed : (run l s).numSgprsUsed = s.numSgprsUsed + total ArgCall.size l := by
  induction l generalizing s with
  | nil => rfl
  | cons x l ih =>
    rw [run, List.foldl_cons, ← run, ih, apply_numSgprsUsed, total_cons]
    omega

theorem run_numUserSgprs (h : ∀ x ∈ l, ∃ loc, x.loc = some loc) :
    (run l s).numUserSgprs = s.numUserSgprs + total ArgCall.size l := by
  induction l generalizing s with
  | nil => rfl
  | cons x l ih =>
    obtain ⟨loc, hx⟩ := h x (by simp)
    rw [run, List.foldl_cons, ← run, ih fun y hy => h y (by simp [hy]),
      apply_numUserSgprs s x hx, total_cons]
    omega

theorem run_frame {β : Type} {f : ShaderArgs → β} (h : ∀ x ∈ l, ∀ s, f (x.apply s) = f s) :
    f (run l s) = f s := by
  induction l generalizing s with
  | nil => rfl
  | cons x l ih =>
    obtain ⟨hx, hl⟩ := List.forall_mem_cons.mp h
    rw [run, List.foldl_cons, ← run, ih hl, hx]

theorem run_arg_ne {a : Arg} (h : ∀ x ∈ l, x.arg ≠ some a) : (run l s).arg a = s.arg a :=
  run_frame (f := (·.arg a)) fun x hx s => apply_arg_ne s x (h x hx)

theorem run_arg_isSome {a : Arg} (h : (s.arg a).isSome ∨ ∃ x ∈ l, x.arg = some a) :
    ((run l s).arg a).isSome := by
  induction l generalizing s with
  | nil => simpa [run] using h
  | cons x l ih =>
    refine ih ?_
    by_cases hx : x.arg = some a
    · exact .inl (by rw [apply_arg_self s x hx]; rfl)
    · rw [apply_arg_ne s x hx]
      rcases h with h | ⟨y, hy, hya⟩
      · exact .inl h
      · rcases List.mem_cons.mp hy with rfl | hy
        · exact absurd hya hx
        · exact .inr ⟨y, hy, hya⟩

theorem run_loc_ne {loc : Loc} (h : ∀ x ∈ l, x.loc ≠ some loc) :
    (run l s).loc loc = s.loc loc :=
  run_frame (f := (·.loc loc)) fun x hx s => apply_loc_ne s x (h x hx)

theorem run_shaderData_some {u d : Nat} (h : s.shaderData u = some d) :
    (run l s).shaderData u = some d := by
  induction l generalizing s with
  | nil => exact h
  | cons x l ih => exact ih (apply_shaderData_some s x h)

end Run

section RunAt

variable {l : List ArgCall} {s : ShaderArgs} {x : ArgCall} {a : Arg} {loc : Loc} {d : Nat}

theorem run_arg_at {q : ArgCall → Prop}
    (h : At ArgCall.size q (fun y => y.arg = some a) l x d) (hx : x.arg = some a) :
    (run l s).arg a = some ⟨s.numSgprsUsed + d, x.size⟩ := by
  obtain ⟨pre, post, rfl, rfl, -, hpost⟩ := h
  rw [run_append, run, List.foldl_cons, ← run, run_arg_ne hpost, apply_arg_self _ _ hx,
    run_numSgprsUsed]

theorem run_loc_at (hl : ∀ y ∈ l, ∃ loc, y.loc = some loc)
    (h : At ArgCall.size (fun y => y.loc = some loc) (fun y => y.arg = some a) l x d)
    (hx : x.arg = some a) (hloc : x.loc = some loc) (hnew : s.loc loc = none) :
    (run l s).loc loc = some (s.numUserSgprs + d) := by
  obtain ⟨pre, post, rfl, rfl, hpre, hpost⟩ := h
  have hself := apply_loc_self (run pre s) x hloc (by rw [run_loc_ne hpre, hnew])
  rw [run_numUserSgprs fun y hy => hl y (by simp [hy])] at hself
  rw [run_append, run, List.foldl_cons, ← run]
  cases loc with
  | ud index => exact run_shaderData_some hself
  | set index =>
    -- a descriptor set is recorded anew by each call for it, and each declares its argument
    rw [run_loc_ne, hself]
    intro y hy hyloc
    cases y with
    | addArg | addUdArg | resetUserSgprs => simp [ArgCall.loc] at hyloc
    | addDescriptorSet set =>
      refine hpost _ hy ?_
      cases x with
      | addArg | addUdArg | resetUserSgprs => simp [ArgCall.loc] at hloc
      | addDescriptorSet set' =>
        simp only [ArgCall.loc, Option.some.injEq, Loc.set.injEq] at hyloc hloc
        rw [← hx, ArgCall.arg, ArgCall.arg, hyloc, hloc]

end RunAt

/-! ## Blocks of the window -/

/-- The part of the declaration an argument belongs to. -/
inductive Group where
  | lead
  | vertex
  | ringTable
  | descriptor
  | streamout
  | stage
  | system
  deriving DecidableEq, Repr

def Arg.group : Arg → Group
  | .ringOffsets | .taskRingOffsets => .lead
  | .prologInputs | .vertexBuffers | .baseVertex | .drawId | .startInstance => .vertex
  | .ps5RingTable => .ringTable
  | .descriptors _ | .pushConstants | .dynamicDescriptors | .dynamicDescriptorsOffsetAddr
  | .inlinePushConsts _ => .descriptor
  | .streamoutBuffers => .streamout
  | .viewIndex | .forceVrsRates | .tcsOffchipLayout | .epilogPc | .nextStagePc
  | .vgtEsgsRingItemsize | .nggLdsLayout | .nggState | .nggcSettings | .nggcViewportScale _
  | .nggcViewportTranslate _ | .psState | .numWorkGroups | .taskRingEntry | .taskState => .stage
  | _ => .system

def Group.uds : Group → List Nat
  | .vertex => [Ud.vsPrologInputs, Ud.vsVertexBuffers, Ud.vsBaseVertexStartInstance]
  | .ringTable => [Ud.ps5RingTable]
  | .descriptor => [Ud.indirectDescriptors, Ud.pushConstants, Ud.dynamicDescriptors,
      Ud.dynamicDescriptorsOffsetAddr, Ud.inlinePushConstants]
  | .streamout => [Ud.streamoutBuffers]
  | .stage => [Ud.viewIndex, Ud.forceVrsRates, Ud.tcsOffchipLayout, Ud.epilogPc, Ud.nextStagePc,
      Ud.vgtEsgsRingItemsize, Ud.nggLdsLayout, Ud.nggState, Ud.nggcSettings, Ud.nggcViewport,
      Ud.psState, Ud.csGridSize, Ud.csTaskDrawId, Ud.taskRingEntry, Ud.taskState]
  | .lead | .system => []

def ArgCall.InGroup (g : Group) : ArgCall → Prop
  | .addUdArg _ a ud => a.group = g ∧ ud ∈ g.uds
  | .addDescriptorSet _ => g = .descriptor
  | _ => False

section InGroup

variable {g : Group} {y : ArgCall}

theorem ArgCall.InGroup.user (h : y.InGroup g) : ∃ loc, y.loc = some loc := by
  cases y with
  | addUdArg size a ud => exact ⟨_, rfl⟩
  | addDescriptorSet set => exact ⟨_, rfl⟩
  | addArg | resetUserSgprs => exact h.elim

theorem ArgCall.InGroup.arg_ne (h : y.InGroup g) {a : Arg} (ha : a.group ≠ g) :
    y.arg ≠ some a := by
  cases y with
  | addUdArg size b ud =>
    rintro hb
    obtain rfl := Option.some.inj hb
    exact ha h.1
  | addDescriptorSet set =>
    rintro hb
    obtain rfl := Option.some.inj hb
    exact ha h.symm
  | addArg | resetUserSgprs => exact h.elim

theorem ArgCall.InGroup.ud_ne (h : y.InGroup g) {u : Nat} (hu : u ∉ g.uds) :
    y.loc ≠ some (.ud u) := by
  cases y with
  | addUdArg size b ud =>
    rintro hb
    obtain rfl : ud = u := by simpa [ArgCall.loc] using hb
    exact hu h.2
  | addDescriptorSet set => simp [ArgCall.loc]
  | addArg | resetUserSgprs => exact h.elim

theorem ArgCall.InGroup.set_ne (h : y.InGroup g) (hg : g ≠ .descriptor) {k : Nat} :
    y.loc ≠ some (.set k) := by
  cases y with
  | addUdArg size b ud => simp [ArgCall.loc]
  | addDescriptorSet set => exact (hg h).elim
  | addArg | resetUserSgprs => exact h.elim

end InGroup

section Blocks

variable (info : ShaderInfo)

theorem unmergedVsSgprs_inGroup : ∀ y ∈ unmergedVsSgprs, y.InGroup .vertex := by
  simp [unmergedVsSgprs, ArgCall.InGroup, Arg.group, Group.uds]

theorem declareVsSpecificInputSgprs_inGroup :
    ∀ y ∈ declareVsSpecificInputSgprs info, y.InGroup .vertex := by
  intro y hy
  refine unmergedVsSgprs_inGroup y ?_
  simp only [declareVsSpecificInputSgprs, List.mem_append, List.mem_ite_nil_right,
    List.mem_singleton] at hy
  simp only [unmergedVsSgprs, List.mem_cons]
  tauto

theorem declareDescriptorSgprs_inGroup (user : UserSgprInfo) :
    ∀ y ∈ declareDescriptorSgprs info user, y.InGroup .descriptor := by
  intro y hy
  simp only [declareDescriptorSgprs, List.mem_append] at hy
  rcases hy with (((hy | hy) | hy) | hy)
  · split at hy
    · obtain rfl := List.mem_singleton.mp hy
      simp [ArgCall.InGroup, Arg.group, Group.uds]
    · obtain ⟨set, -, rfl⟩ := List.mem_map.mp hy
      rfl
  · obtain ⟨-, rfl⟩ := by simpa only [List.mem_ite_nil_right, List.mem_singleton] using hy
    simp [ArgCall.InGroup, Arg.group, Group.uds]
  · simp only [List.mem_ite_nil_right, List.mem_append, List.mem_singleton] at hy
    rcases hy with ⟨-, rfl | ⟨-, rfl⟩⟩ <;> simp [ArgCall.InGroup, Arg.group, Group.uds]
  · obtain ⟨i, -, rfl⟩ := List.mem_map.mp hy
    simp [ArgCall.InGroup, Arg.group, Group.uds]

/-- Sets that are passed indirectly get no location of their own. -/
theorem declareDescriptorSgprs_set_ne {user : UserSgprInfo}
    (h : user.indirectAllDescriptorSets = true) {k : Nat} :
    ∀ y ∈ declareDescriptorSgprs info user, y.loc ≠ some (.set k) := by
  intro y hy
  simp only [declareDescriptorSgprs, h, if_true, List.mem_append, List.mem_ite_nil_right,
    List.mem_singleton, List.mem_map] at hy
  rcases hy with ((rfl | ⟨-, rfl⟩) | ⟨-, rfl | ⟨-, rfl⟩⟩) | ⟨i, -, rfl⟩ <;> simp [ArgCall.loc]

/-- Sets that are passed directly are the ones the shader uses. -/
theorem descriptors_used {user : UserSgprInfo} (h : user.indirectAllDescriptorSets = false)
    {y : ArgCall} {set : Nat} (hy : y ∈ declareDescriptorSgprs info user)
    (harg : y.arg = some (.descriptors set)) : info.descSetUsedMask.getLsbD set = true := by
  simp only [declareDescriptorSgprs, h, Bool.false_eq_true, if_false, List.mem_append,
    List.mem_ite_nil_right, List.mem_singleton, List.mem_map] at hy
  rcases hy with ((⟨k, hk, rfl⟩ | ⟨-, rfl⟩) | ⟨-, rfl | ⟨-, rfl⟩⟩) | ⟨i, -, rfl⟩
  · obtain rfl : k = set := by simpa [ArgCall.arg] using harg
    exact Mask.mem_bits.mp hk
  all_goals simp [ArgCall.arg] at harg

/-- The first call of `declare_global_input_sgprs`. -/
def ringTableBlock : List ArgCall :=
  if ps5Key.ps5TessRingTable && readsRingTable info
    then [.addUdArg 2 .ps5RingTable Ud.ps5RingTable] else []

def streamoutBlock : List ArgCall :=
  if needsStreamoutBuffers info
    then [.addUdArg 1 .streamoutBuffers Ud.streamoutBuffers] else []

theorem ringTableBlock_inGroup : ∀ y ∈ ringTableBlock info, y.InGroup .ringTable :=
  forall_mem_ite ⟨rfl, by decide⟩

theorem streamoutBlock_inGroup : ∀ y ∈ streamoutBlock info, y.InGroup .streamout :=
  forall_mem_ite ⟨rfl, by decide⟩

end Blocks

/-! ## Settled arguments

A call is settled in a block when it is the first one with its location and the last one
with its argument there, or when nothing there declares its argument. -/

def SettledIn (l : List ArgCall) (x : ArgCall) : Prop :=
  Settled ArgCall.size (fun y => y.loc = x.loc) (fun y => y.arg = x.arg) l x

/-- The same for the argument alone: `drawId` and `startInstance` share the base vertex's
location. -/
def DeclaredOnce (l : List ArgCall) (x : ArgCall) : Prop :=
  Settled ArgCall.size (fun _ => False) (fun y => y.arg = x.arg) l x

def baseVertexCall : ArgCall := .addUdArg 1 .baseVertex Ud.vsBaseVertexStartInstance

section SettledIn

variable (info : ShaderInfo)

theorem settledIn_vertexBuffers :
    SettledIn (declareVsSpecificInputSgprs info)
      (.addUdArg 1 .vertexBuffers Ud.vsVertexBuffers) := by
  refine ((((settled_ite _).append_left ?_ ?_).append_right ?_).append_right ?_).append_right ?_
  all_goals simp +decide [ArgCall.arg, ArgCall.loc]

/-- The base vertex stands behind the prolog's inputs and the vertex buffers. -/
theorem at_baseVertex :
    At ArgCall.size (fun y => y.loc = baseVertexCall.loc) (fun y => y.arg = baseVertexCall.arg)
      (declareVsSpecificInputSgprs info) baseVertexCall
      ((if info.vsHasProlog then 2 else 0) + if info.vsVbDescUsageMask != 0 then 1 else 0) := by
  have h : At ArgCall.size (fun y => y.loc = baseVertexCall.loc)
      (fun y => y.arg = baseVertexCall.arg) (declareVsSpecificInputSgprs info) baseVertexCall
      (total ArgCall.size
        ((if info.vsHasProlog then [.addUdArg 2 .prologInputs Ud.vsPrologInputs] else []) ++
        (if info.vsVbDescUsageMask != 0
          then [.addUdArg 1 .vertexBuffers Ud.vsVertexBuffers] else [])) + 0) := by
    refine (((At.head ?_).append_left ?_).append_right ?_).append_right ?_
    all_goals simp +decide [baseVertexCall, ArgCall.arg, ArgCall.loc, or_imp, forall_and]
  convert h using 1
  split <;> split <;> rfl

theorem declaredOnce_drawId :
    DeclaredOnce (declareVsSpecificInputSgprs info)
      (.addUdArg 1 .drawId Ud.vsBaseVertexStartInstance) := by
  refine ((settled_ite _).append_left ?_ ?_).append_right ?_
  all_goals simp +decide [ArgCall.arg, or_imp, forall_and]

theorem declaredOnce_startInstance :
    DeclaredOnce (declareVsSpecificInputSgprs info)
      (.addUdArg 1 .startInstance Ud.vsBaseVertexStartInstance) := by
  refine (settled_ite _).append_left ?_ ?_
  all_goals simp +decide [ArgCall.arg, or_imp, forall_and]

theorem settledIn_ringTable :
    SettledIn (ringTableBlock info) (.addUdArg 2 .ps5RingTable Ud.ps5RingTable) :=
  settled_ite _

theorem settledIn_streamoutBuffers :
    SettledIn (streamoutBlock info) (.addUdArg 1 .streamoutBuffers Ud.streamoutBuffers) :=
  settled_ite _

theorem settledIn_pushConstants (user : UserSgprInfo) :
    SettledIn (declareDescriptorSgprs info user)
      (.addUdArg 1 .pushConstants Ud.pushConstants) := by
  refine (((settled_ite _).append_left ?_ ?_).append_right ?_).append_right ?_
  · split <;> simp +decide [ArgCall.loc]
  · split <;> simp [ArgCall.arg]
  · split <;> simp +decide [ArgCall.arg, or_imp, forall_and]
  · simp [ArgCall.arg]

theorem settledIn_descriptorSet {user : UserSgprInfo} (h : user.indirectAllDescriptorSets = false)
    (set : Nat) : SettledIn (declareDescriptorSgprs info user) (.addDescriptorSet set) := by
  refine ((Settled.append_right ?_ ?_).append_right ?_).append_right ?_
  · simp only [h, Bool.false_eq_true, if_false]
    by_cases hmem : set ∈ Mask.bits info.descSetUsedMask
    · obtain ⟨below, above, hbits⟩ := List.append_of_mem hmem
      have hnodup : (Mask.bits info.descSetUsedMask).Nodup := List.nodup_range.filter _
      rw [hbits, List.nodup_middle, List.nodup_cons, List.mem_append, not_or] at hnodup
      refine .inl ⟨_, below.map .addDescriptorSet, above.map .addDescriptorSet, ?_, rfl, ?_, ?_⟩
      · simp [hbits]
      · rintro y hy hloc
        obtain ⟨k, hk, rfl⟩ := List.mem_map.mp hy
        obtain rfl : k = set := by simpa [ArgCall.loc] using hloc
        exact hnodup.1.1 hk
      · rintro y hy harg
        obtain ⟨k, hk, rfl⟩ := List.mem_map.mp hy
        obtain rfl : k = set := by simpa [ArgCall.arg] using harg
        exact hnodup.1.2 hk
    · refine .inr ?_
      rintro y hy harg
      obtain ⟨k, hk, rfl⟩ := List.mem_map.mp hy
      obtain rfl : k = set := by simpa [ArgCall.arg] using harg
      exact hmem hk
  · simp [ArgCall.arg]
  · split <;> simp +decide [ArgCall.arg, or_imp, forall_and]
  · simp [ArgCall.arg]

end SettledIn

/-! ## System registers and the end of the window -/

/-- A call that declares a system register, or none at all. -/
def ArgCall.IsSystem : ArgCall → Prop
  | .addArg _ none => True
  | .addArg _ (some a) => a.group = .system
  | _ => False

section System

variable {l : List ArgCall} {s : ShaderArgs}

theorem ArgCall.IsSystem.loc_eq {x : ArgCall} (h : x.IsSystem) : x.loc = none := by
  cases x with
  | addArg => rfl
  | addUdArg | addDescriptorSet | resetUserSgprs => exact h.elim

theorem ArgCall.IsSystem.arg_ne {x : ArgCall} (h : x.IsSystem) {a : Arg}
    (ha : a.group ≠ .system) : x.arg ≠ some a := by
  cases x with
  | addArg size arg =>
    rintro rfl
    exact ha h
  | addUdArg | addDescriptorSet | resetUserSgprs => exact h.elim

theorem run_system_numUserSgprs (h : ∀ x ∈ l, x.IsSystem) :
    (run l s).numUserSgprs = s.numUserSgprs := by
  refine run_frame (f := (·.numUserSgprs)) fun x hx s => ?_
  cases x with
  | addArg => rfl
  | addUdArg | addDescriptorSet | resetUserSgprs => exact (h _ hx).elim

end System

/-- What follows the shared arguments in the window of a linked graphics stage. -/
def graphicsRest (info : ShaderInfo) (view tcs vrs ngg nggState : Bool) : List ArgCall :=
  declareViewIndex view ++ declareTcsOffchipLayout tcs ++ declareForceVrsRates vrs ++
    (if ngg then declareNggSgprs info nggState else [])

def viewIndexCall : ArgCall := .addUdArg 1 .viewIndex Ud.viewIndex

def nggLdsLayoutCall : ArgCall := .addUdArg 1 .nggLdsLayout Ud.nggLdsLayout

section Rest

variable (info : ShaderInfo) (view tcs vrs ngg nggState : Bool)

theorem declareNggSgprs_inGroup :
    ∀ y ∈ declareNggSgprs info nggState, y.InGroup .stage := by
  intro y hy
  simp only [declareNggSgprs, List.mem_append, List.mem_ite_nil_right, List.mem_cons,
    List.not_mem_nil, or_false] at hy
  rcases hy with (rfl | ⟨-, rfl⟩) | ⟨-, rfl | rfl | rfl | rfl | rfl⟩ <;>
    exact ⟨rfl, by decide⟩

theorem graphicsRest_inGroup :
    ∀ y ∈ graphicsRest info view tcs vrs ngg nggState, y.InGroup .stage := by
  intro y hy
  simp only [graphicsRest, List.mem_append] at hy
  rcases hy with ((hy | hy) | hy) | hy
  · exact forall_mem_ite ⟨rfl, by decide⟩ y hy
  · exact forall_mem_ite ⟨rfl, by decide⟩ y hy
  · exact forall_mem_ite ⟨rfl, by decide⟩ y hy
  · cases ngg with
    | false => cases hy
    | true => exact declareNggSgprs_inGroup info nggState y hy

theorem settledIn_viewIndex :
    SettledIn (graphicsRest info view tcs vrs ngg nggState) viewIndexCall := by
  refine (((settled_ite _).append_right ?_).append_right ?_).append_right ?_
  · exact forall_mem_ite (by decide)
  · exact forall_mem_ite (by decide)
  · cases ngg with
    | false => simp
    | true =>
      simp +decide [declareNggSgprs, viewIndexCall, ArgCall.arg, or_imp, forall_and]

theorem at_nggLdsLayout :
    ∃ d, At ArgCall.size (fun y => y.loc = nggLdsLayoutCall.loc)
      (fun y => y.arg = nggLdsLayoutCall.arg) (graphicsRest info view tcs vrs true nggState)
      nggLdsLayoutCall d := by
  refine ⟨_, ((At.head ?_).append_right ?_).append_right ?_ |>.append_left ?_⟩
  · simp
  · exact forall_mem_ite (by decide)
  · simp +decide [nggLdsLayoutCall, ArgCall.arg, or_imp, forall_and]
  · simp +decide [declareViewIndex, declareTcsOffchipLayout, declareForceVrsRates,
      nggLdsLayoutCall, ArgCall.loc, or_imp, forall_and]

end Rest

end Psbc.Args
