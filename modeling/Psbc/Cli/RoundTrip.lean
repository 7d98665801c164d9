import Psbc.Cli.Settings

/-!
# Options that are written and read back

`Renders A settings` says that the settings, in any order, are a way to write the assignment `A`:
they hold in it, each field that differs from its default is set, and the records come in their
order.

The parser reads `A` back and takes the names of the options, and nothing else, for options,
exactly if no path and no entry point of `A` spells an option: the options that store these
leave them to the loop. The values of the other options may be anything, since the parser goes
past them, or they are names that no option has.
-/

namespace Psbc.Cli

open Compile

/-! ## The loop over settings -/

def render (settings : List Setting) : List Arg := settings.flatMap Setting.render

def namePositions : List Setting → Nat → List Nat
  | [], _ => []
  | s :: settings, i => i :: namePositions settings (i + s.render.length)

/-- An option at `i`, and what is taken behind it. -/
def taking (i : Nat) (r : CmdOptions × List Nat) : CmdOptions × List Nat := (r.1, i :: r.2)

theorem parseLoop_of_none {arg : Arg} (h : Opt.ofArg arg = none) (args : List Arg) (i : Nat)
    (res : CmdOptions) :
    parseLoop false (arg :: args) i res = parseLoop false args (i + 1) res := by
  rw [parseLoop, h]

theorem parseLoop_of_some {arg : Arg} {o : Opt} (h : Opt.ofArg arg = some o) (args : List Arg)
    (i : Nat) (res : CmdOptions) :
    parseLoop false (arg :: args) i res =
      taking i (parseLoop (o.apply res args.head?).2 args (i + 1) (o.apply res args.head?).1) := by
  rw [parseLoop, h]
  rfl

/-- The value that is left to the loop is no option. -/
def Setting.Plain (s : Setting) : Prop := ∀ v ∈ s.loose, Opt.ofArg v = none

section Loop

variable {s : Setting} {res : CmdOptions}

/-- The name of a setting is taken; then comes the value that is left to the loop. -/
theorem parseLoop_name (hs : s.InRange) (hfits : s.Fits res) (rest : List Arg) (i : Nat) :
    parseLoop false (s.render ++ rest) i res =
      taking i (parseLoop s.passed.isSome (s.loose.toList ++ s.passed.toList ++ rest) (i + 1)
        (s.assign res)) := by
  have happly := Opt.apply_render hs hfits rest
  rw [Setting.render, List.cons_append, parseLoop_of_some (Opt.ofArg_name s.opt), happly]

/-- A setting whose value is no option is read as it was written. -/
theorem parseLoop_setting (hs : s.InRange) (hfits : s.Fits res) (hplain : s.Plain)
    (rest : List Arg) (i : Nat) :
    parseLoop false (s.render ++ rest) i res =
      taking i (parseLoop false rest (i + s.render.length) (s.assign res)) := by
  rw [parseLoop_name hs hfits]
  -- Either the value is left to the loop, or the option went past it, or there is none.
  cases s with
  | inputfile v | outputfile v | previousfile v | metadatafile v | entrypoint v | stage st =>
    exact congrArg (taking i) (parseLoop_of_none (hplain _ rfl) rest (i + 1) _)
  | target t => cases t <;> rfl
  | _ => rfl

/-- A value that spells an option is taken for one. -/
theorem parseLoop_taken (hs : s.InRange) (hfits : s.Fits res) (hplain : ¬ s.Plain)
    (rest : List Arg) (i : Nat) :
    s.render.length = 2 ∧
      ∃ taken, (parseLoop false (s.render ++ rest) i res).2 = i :: (i + 1) :: taken := by
  simp only [Setting.Plain, not_forall] at hplain
  obtain ⟨v, hv, hsome⟩ := hplain
  obtain ⟨o, ho⟩ := Option.ne_none_iff_exists'.mp hsome
  have hpassed : s.passed = none := by
    cases s <;> first | rfl | cases hv
  constructor
  · rw [Setting.render, hv, hpassed]
    rfl
  · rw [parseLoop_name hs hfits, hv, hpassed]
    exact ⟨_, congrArg (fun r => (taking i r).2) (parseLoop_of_some ho rest (i + 1) _)⟩

end Loop

/-- There is room for the records of the settings. -/
structure Room (res : CmdOptions) (settings : List Setting) : Prop where
  attributes : res.vertexAttributes.length + (settings.filterMap Setting.attribute?).length ≤
    psbcMaxVertexAttributes
  bindings : res.descriptorBindings.length + (settings.filterMap Setting.binding?).length ≤
    psbcMaxDescriptorBindings

theorem assign_vertexAttributes (s : Setting) (res : CmdOptions) :
    (s.assign res).vertexAttributes = res.vertexAttributes ++ s.attribute?.toList := by
  cases s <;> first | rfl | exact (List.append_nil _).symm

theorem assign_descriptorBindings (s : Setting) (res : CmdOptions) :
    (s.assign res).descriptorBindings = res.descriptorBindings ++ s.binding?.toList := by
  cases s <;> first | rfl | exact (List.append_nil _).symm

theorem length_filterMap_cons {α β : Type} (f : α → Option β) (x : α) (xs : List α) :
    ((x :: xs).filterMap f).length = (f x).toList.length + (xs.filterMap f).length := by
  rw [List.filterMap_cons]
  cases f x <;> simp [Nat.add_comm]

namespace Room

variable {s : Setting} {settings : List Setting} {res : CmdOptions}

theorem fits (h : Room res (s :: settings)) : s.Fits res := by
  obtain ⟨hattributes, hbindings⟩ := h
  rw [length_filterMap_cons] at hattributes hbindings
  constructor
  · intro hsome
    obtain ⟨a, ha⟩ := Option.isSome_iff_exists.mp hsome
    rw [ha, Option.toList_some, List.length_singleton] at hattributes
    omega
  · intro hsome
    obtain ⟨b, hb⟩ := Option.isSome_iff_exists.mp hsome
    rw [hb, Option.toList_some, List.length_singleton] at hbindings
    omega

theorem tail (h : Room res (s :: settings)) : Room (s.assign res) settings := by
  obtain ⟨hattributes, hbindings⟩ := h
  rw [length_filterMap_cons] at hattributes hbindings
  constructor
  · rw [assign_vertexAttributes, List.length_append]
    omega
  · rw [assign_descriptorBindings, List.length_append]
    omega

end Room

section Settings

variable {settings : List Setting} {res : CmdOptions}

theorem namePositions_head {i j : Nat} (h : j ∈ (namePositions settings i).head?) : j = i := by
  cases settings with
  | nil => cases h
  | cons s settings => exact (Option.some.inj h).symm

theorem parseLoop_settings (hrange : ∀ s ∈ settings, s.InRange) (hroom : Room res settings)
    (hplain : ∀ s ∈ settings, s.Plain) (i : Nat) :
    parseLoop false (render settings) i res =
      (settings.foldl Setting.assign res, namePositions settings i) := by
  induction settings generalizing res i with
  | nil => rfl
  | cons s settings ih =>
    rw [List.forall_mem_cons] at hrange hplain
    rw [render, List.flatMap_cons, parseLoop_setting hrange.1 hroom.fits hplain.1]
    exact congrArg (taking i) (ih hrange.2 hroom.tail hplain.2 _)

/-- Only the names are taken, if and only if no value spells an option. -/
theorem taken_eq_namePositions_iff (hrange : ∀ s ∈ settings, s.InRange)
    (hroom : Room res settings) (i : Nat) :
    (parseLoop false (render settings) i res).2 = namePositions settings i ↔
      ∀ s ∈ settings, s.Plain := by
  refine ⟨fun h => ?_, fun hplain => by rw [parseLoop_settings hrange hroom hplain]⟩
  induction settings generalizing res i with
  | nil => exact nofun
  | cons s settings ih =>
    rw [List.forall_mem_cons] at hrange ⊢
    rw [render, List.flatMap_cons] at h
    by_cases hplain : s.Plain
    · rw [parseLoop_setting hrange.1 hroom.fits hplain] at h
      exact ⟨hplain, ih hrange.2 hroom.tail _ (List.tail_eq_of_cons_eq h)⟩
    · -- The value is at `i + 1`, where no name is.
      obtain ⟨hlength, taken, htaken⟩ :=
        parseLoop_taken hrange.1 hroom.fits hplain (settings.flatMap Setting.render) i
      rw [htaken, namePositions, hlength] at h
      have hhead : i + 1 ∈ (namePositions settings (i + 2)).head? := by
        rw [← List.tail_eq_of_cons_eq h]
        rfl
      have := namePositions_head hhead
      omega

end Settings

/-! ## Assignments -/

inductive Field where
  | inputfile
  | previousfile
  | outputfile
  | metadatafile
  | entrypoint
  | stage
  | showhelp
  | target
  | optimise
  | verbose
  | ngg
  | ps5GlobalStreamout
  | forceAcceleratedDot
  | provokingVtxLast
  | raw
  | primitiveType
  | address32Hi
  deriving DecidableEq, Repr

inductive FieldValue where
  | path (p : Option Arg)
  | name (n : Arg)
  | stage (s : PsbcStage)
  | target (t : PsbcTarget)
  | flag (b : Bool)
  | number (n : Nat)
  deriving DecidableEq, Repr

/-- Paths and entry points, which may be any text. -/
def FieldValue.text : FieldValue → Option Arg
  | path p => p
  | name n => some n
  | _ => none

def CmdOptions.get (A : CmdOptions) : Field → FieldValue
  | .inputfile => .path A.inputfile
  | .previousfile => .path A.previousfile
  | .outputfile => .path A.outputfile
  | .metadatafile => .path A.metadatafile
  | .entrypoint => .name A.entrypoint
  | .stage => .stage A.stage
  | .showhelp => .flag A.showhelp
  | .target => .target A.target
  | .optimise => .flag A.optimise
  | .verbose => .flag A.verbose
  | .ngg => .flag A.ngg
  | .ps5GlobalStreamout => .flag A.ps5GlobalStreamout
  | .forceAcceleratedDot => .flag A.forceAcceleratedDot
  | .provokingVtxLast => .flag A.provokingVtxLast
  | .raw => .flag A.raw
  | .primitiveType => .number A.primitiveType
  | .address32Hi => .number A.address32Hi

theorem CmdOptions.ext_get {A B : CmdOptions} (hget : ∀ f, A.get f = B.get f)
    (hattributes : A.vertexAttributes = B.vertexAttributes)
    (hbindings : A.descriptorBindings = B.descriptorBindings)
    (herror : A.parseError = B.parseError) : A = B := by
  apply CmdOptions.ext
  case vertexAttributes => exact hattributes
  case descriptorBindings => exact hbindings
  case parseError => exact herror
  case inputfile => exact FieldValue.path.inj (hget .inputfile)
  case previousfile => exact FieldValue.path.inj (hget .previousfile)
  case outputfile => exact FieldValue.path.inj (hget .outputfile)
  case metadatafile => exact FieldValue.path.inj (hget .metadatafile)
  case entrypoint => exact FieldValue.name.inj (hget .entrypoint)
  case stage => exact FieldValue.stage.inj (hget .stage)
  case showhelp => exact FieldValue.flag.inj (hget .showhelp)
  case target => exact FieldValue.target.inj (hget .target)
  case optimise => exact FieldValue.flag.inj (hget .optimise)
  case verbose => exact FieldValue.flag.inj (hget .verbose)
  case ngg => exact FieldValue.flag.inj (hget .ngg)
  case ps5GlobalStreamout => exact FieldValue.flag.inj (hget .ps5GlobalStreamout)
  case forceAcceleratedDot => exact FieldValue.flag.inj (hget .forceAcceleratedDot)
  case provokingVtxLast => exact FieldValue.flag.inj (hget .provokingVtxLast)
  case raw => exact FieldValue.flag.inj (hget .raw)
  case primitiveType => exact FieldValue.number.inj (hget .primitiveType)
  case address32Hi => exact FieldValue.number.inj (hget .address32Hi)

namespace Setting

def field? : Setting → Option Field
  | showhelp => some .showhelp
  | inputfile _ => some .inputfile
  | outputfile _ => some .outputfile
  | previousfile _ => some .previousfile
  | metadatafile _ => some .metadatafile
  | entrypoint _ => some .entrypoint
  | stage _ => some .stage
  | target _ => some .target
  | noOptimise => some .optimise
  | verbose => some .verbose
  | ngg => some .ngg
  | ps5GlobalStreamout => some .ps5GlobalStreamout
  | forceAcceleratedDot => some .forceAcceleratedDot
  | provokingVtxLast => some .provokingVtxLast
  | raw => some .raw
  | primitiveType _ => some .primitiveType
  | address32Hi _ => some .address32Hi
  | vertexAttribute .. | descriptorBinding _ => none

theorem get_assign (s : Setting) (res A : CmdOptions) (f : Field) :
    (s.assign res).get f = if s.field? = some f then (s.assign A).get f else res.get f := by
  cases s <;> cases f <;> rfl

/-- A text that a setting writes is left to the loop. -/
theorem text_subset_loose {s : Setting} {A : CmdOptions} {f : Field} {v : Arg}
    (hf : s.field? = some f) (hv : v ∈ ((s.assign A).get f).text) : v ∈ s.loose := by
  cases s <;> cases hf <;> first | exact hv | cases hv

theorem loose_cases {s : Setting} (A : CmdOptions) {v : Arg} (hv : v ∈ s.loose) :
    (∃ f, v ∈ ((s.assign A).get f).text) ∨ ∃ st, s = stage st := by
  cases s with
  | inputfile => exact .inl ⟨.inputfile, hv⟩
  | outputfile => exact .inl ⟨.outputfile, hv⟩
  | previousfile => exact .inl ⟨.previousfile, hv⟩
  | metadatafile => exact .inl ⟨.metadatafile, hv⟩
  | entrypoint => exact .inl ⟨.entrypoint, hv⟩
  | stage st => exact .inr ⟨st, rfl⟩
  | _ => cases hv

def HoldsIn (A : CmdOptions) (s : Setting) : Prop := ∀ f, (s.assign A).get f = A.get f

end Setting

/-- Values that can be written, as many as there is room for. -/
structure CmdOptions.Valid (A : CmdOptions) : Prop where
  primitiveType : A.primitiveType = 0 ∨ A.primitiveType ∈ primitiveTypeNames.map Prod.snd
  address32Hi : A.address32Hi < 2 ^ 32
  attributes : ∀ a ∈ A.vertexAttributes, AttributeInRange a
  attribute_count : A.vertexAttributes.length ≤ psbcMaxVertexAttributes
  bindings : ∀ b ∈ A.descriptorBindings, BindingInRange b
  binding_count : A.descriptorBindings.length ≤ psbcMaxDescriptorBindings
  parseError : A.parseError = false

/-- The settings write the assignment, in one of the orders there are. -/
structure Renders (A : CmdOptions) (settings : List Setting) : Prop where
  inRange : ∀ s ∈ settings, s.InRange
  holds : ∀ s ∈ settings, s.HoldsIn A
  given : ∀ f, A.get f ≠ CmdOptions.get {} f → f ∈ settings.filterMap Setting.field?
  attributes : settings.filterMap Setting.attribute? = A.vertexAttributes
  bindings : settings.filterMap Setting.binding? = A.descriptorBindings

section Fold

variable {settings : List Setting}

theorem foldl_assign_vertexAttributes (res : CmdOptions) :
    (settings.foldl Setting.assign res).vertexAttributes =
      res.vertexAttributes ++ settings.filterMap Setting.attribute? := by
  induction settings generalizing res with
  | nil => exact (List.append_nil _).symm
  | cons s settings ih =>
    rw [List.foldl_cons, ih, assign_vertexAttributes, List.append_assoc, List.filterMap_cons]
    cases s.attribute? <;> rfl

theorem foldl_assign_descriptorBindings (res : CmdOptions) :
    (settings.foldl Setting.assign res).descriptorBindings =
      res.descriptorBindings ++ settings.filterMap Setting.binding? := by
  induction settings generalizing res with
  | nil => exact (List.append_nil _).symm
  | cons s settings ih =>
    rw [List.foldl_cons, ih, assign_descriptorBindings, List.append_assoc, List.filterMap_cons]
    cases s.binding? <;> rfl

theorem foldl_assign_parseError (res : CmdOptions) :
    (settings.foldl Setting.assign res).parseError = res.parseError := by
  induction settings generalizing res with
  | nil => rfl
  | cons s settings ih =>
    rw [List.foldl_cons, ih]
    cases s <;> rfl

theorem get_foldl_assign {A : CmdOptions} (hholds : ∀ s ∈ settings, s.HoldsIn A)
    (res : CmdOptions) (f : Field) :
    (settings.foldl Setting.assign res).get f =
      if f ∈ settings.filterMap Setting.field? then A.get f else res.get f := by
  induction settings generalizing res with
  | nil => rfl
  | cons s settings ih =>
    rw [List.forall_mem_cons] at hholds
    have hmem : f ∈ (s :: settings).filterMap Setting.field? ↔
        f ∈ settings.filterMap Setting.field? ∨ s.field? = some f := by
      rw [List.filterMap_cons]
      cases s.field? with
      | none => simp
      | some g => simp [or_comm, eq_comm]
    rw [List.foldl_cons, ih hholds.2, s.get_assign res A, hholds.1 f]
    simp only [hmem, ite_or]

end Fold

/-- No path and no entry point spells an option. -/
def CmdOptions.Plain (A : CmdOptions) : Prop := ∀ f, ∀ v ∈ (A.get f).text, Opt.ofArg v = none

theorem CmdOptions.plain_default : CmdOptions.Plain {} := by
  intro f v hv
  cases f with
  | entrypoint =>
    cases hv
    decide
  | _ => cases hv

namespace Renders

variable {A : CmdOptions} {settings : List Setting}

theorem room (h : Renders A settings) (hA : A.Valid) : Room {} settings := by
  constructor
  · rw [h.attributes, List.length_nil, Nat.zero_add]
    exact hA.attribute_count
  · rw [h.bindings, List.length_nil, Nat.zero_add]
    exact hA.binding_count

theorem foldl_assign (h : Renders A settings) (hA : A.Valid) :
    settings.foldl Setting.assign {} = A := by
  apply CmdOptions.ext_get
  · intro f
    rw [get_foldl_assign h.holds]
    split
    · rfl
    · rename_i hnot
      by_contra hne
      exact hnot (h.given f (Ne.symm hne))
  · rw [foldl_assign_vertexAttributes, h.attributes]
    rfl
  · rw [foldl_assign_descriptorBindings, h.bindings]
    rfl
  · rw [foldl_assign_parseError, hA.parseError]

/-- A field that differs from its default is written by a setting. -/
theorem exists_setting (h : Renders A settings) {f : Field}
    (hf : A.get f ≠ CmdOptions.get {} f) : ∃ s ∈ settings, s.field? = some f :=
  List.mem_filterMap.mp (h.given f hf)

theorem plain_of_settings (h : Renders A settings) (hplain : ∀ s ∈ settings, s.Plain) :
    A.Plain := by
  intro f v hv
  by_cases hf : A.get f = CmdOptions.get {} f
  · exact CmdOptions.plain_default f v (hf ▸ hv)
  · obtain ⟨s, hs, hfield⟩ := h.exists_setting hf
    refine hplain s hs v (Setting.text_subset_loose hfield (A := A) ?_)
    rwa [h.holds s hs f]

theorem settings_plain (h : Renders A settings) (hA : A.Plain) : ∀ s ∈ settings, s.Plain := by
  intro s hs v hv
  rcases Setting.loose_cases A hv with ⟨f, htext⟩ | ⟨st, rfl⟩
  · rw [h.holds s hs f] at htext
    exact hA f v htext
  · cases hv
    exact (psbcStageFromName_nameIn (h.inRange _ hs)).2

end Renders

/-! ## Every assignment can be written -/

def Field.all : List Field :=
  [.inputfile, .previousfile, .outputfile, .metadatafile, .entrypoint, .stage, .showhelp, .target,
    .optimise, .verbose, .ngg, .ps5GlobalStreamout, .forceAcceleratedDot, .provokingVtxLast, .raw,
    .primitiveType, .address32Hi]

namespace CmdOptions

/-- The setting that writes a field; a flag and a number at their defaults have none. -/
def write? (A : CmdOptions) : Field → Option Setting
  | .inputfile => A.inputfile.map .inputfile
  | .previousfile => A.previousfile.map .previousfile
  | .outputfile => A.outputfile.map .outputfile
  | .metadatafile => A.metadatafile.map .metadatafile
  | .entrypoint => some (.entrypoint A.entrypoint)
  | .stage => if A.stage = .none then none else some (.stage A.stage)
  | .showhelp => if A.showhelp then some .showhelp else none
  | .target => some (.target A.target)
  | .optimise => if A.optimise then none else some .noOptimise
  | .verbose => if A.verbose then some .verbose else none
  | .ngg => if A.ngg then some .ngg else none
  | .ps5GlobalStreamout => if A.ps5GlobalStreamout then some .ps5GlobalStreamout else none
  | .forceAcceleratedDot => if A.forceAcceleratedDot then some .forceAcceleratedDot else none
  | .provokingVtxLast => if A.provokingVtxLast then some .provokingVtxLast else none
  | .raw => if A.raw then some .raw else none
  | .primitiveType => if A.primitiveType = 0 then none else some (.primitiveType A.primitiveType)
  | .address32Hi => some (.address32Hi A.address32Hi)

def settings (A : CmdOptions) : List Setting :=
  Field.all.filterMap A.write? ++ A.vertexAttributes.map (.vertexAttribute · false) ++
    A.descriptorBindings.map .descriptorBinding

variable {A : CmdOptions}

/-- A setting that writes the field `f` of `A`. -/
structure Writes (A : CmdOptions) (f : Field) (s : Setting) : Prop where
  field : s.field? = some f
  holds : (s.assign A).get f = A.get f
  inRange : s.InRange

theorem writes_of_write? (hA : A.Valid) {f : Field} {s : Setting} (h : s ∈ A.write? f) :
    A.Writes f s := by
  cases f with
  | inputfile | previousfile | outputfile | metadatafile =>
    obtain ⟨path, hpath, rfl⟩ := Option.map_eq_some_iff.mp h
    exact ⟨rfl, congrArg FieldValue.path hpath.symm, trivial⟩
  | entrypoint | target =>
    cases h
    exact ⟨rfl, rfl, trivial⟩
  | stage =>
    obtain ⟨hne, hs⟩ := Option.ite_none_left_eq_some.mp h
    cases hs
    exact ⟨rfl, rfl, hne⟩
  | showhelp | verbose | ngg | ps5GlobalStreamout | forceAcceleratedDot | provokingVtxLast | raw =>
    obtain ⟨hflag, hs⟩ := Option.ite_none_right_eq_some.mp h
    cases hs
    exact ⟨rfl, congrArg FieldValue.flag hflag.symm, trivial⟩
  | optimise =>
    obtain ⟨hflag, hs⟩ := Option.ite_none_left_eq_some.mp h
    cases hs
    exact ⟨rfl, congrArg FieldValue.flag (Bool.eq_false_iff.mpr hflag).symm, trivial⟩
  | primitiveType =>
    obtain ⟨hne, hs⟩ := Option.ite_none_left_eq_some.mp h
    cases hs
    exact ⟨rfl, rfl, hA.primitiveType.resolve_left hne⟩
  | address32Hi =>
    cases h
    exact ⟨rfl, rfl, hA.address32Hi⟩

theorem default_of_write?_eq_none {f : Field} (h : A.write? f = none) :
    A.get f = CmdOptions.get {} f := by
  cases f with
  | inputfile | previousfile | outputfile | metadatafile =>
    exact congrArg FieldValue.path (Option.map_eq_none_iff.mp h)
  | entrypoint | target | address32Hi => cases h
  | stage => exact congrArg FieldValue.stage (by simpa [write?] using h)
  | showhelp | verbose | ngg | ps5GlobalStreamout | forceAcceleratedDot | provokingVtxLast | raw
  | optimise =>
    exact congrArg FieldValue.flag (by simpa [write?] using h)
  | primitiveType => exact congrArg FieldValue.number (by simpa [write?] using h)

theorem Writes.holdsIn {f : Field} {s : Setting} (h : A.Writes f s) : s.HoldsIn A := by
  intro g
  rw [s.get_assign A A]
  split
  · rename_i hg
    cases h.field.symm.trans hg
    exact h.holds
  · rfl

theorem Writes.no_record {f : Field} {s : Setting} (h : A.Writes f s) :
    s.attribute? = none ∧ s.binding? = none := by
  cases s <;> first | exact ⟨rfl, rfl⟩ | cases h.field

theorem mem_settings {s : Setting} : s ∈ A.settings ↔
    (∃ f, s ∈ A.write? f) ∨ (∃ a ∈ A.vertexAttributes, s = .vertexAttribute a false) ∨
      ∃ b ∈ A.descriptorBindings, s = .descriptorBinding b := by
  have hall : ∀ f, f ∈ Field.all := by
    intro f
    cases f <;> decide
  simp only [settings, List.mem_append, List.mem_filterMap, List.mem_map, hall, true_and, or_assoc,
    Option.mem_def, eq_comm]

theorem filterMap_settings {β : Type} {g : Setting → Option β}
    (hg : ∀ f, ∀ s ∈ A.write? f, g s = none) :
    A.settings.filterMap g =
      A.vertexAttributes.filterMap (fun a => g (.vertexAttribute a false)) ++
        A.descriptorBindings.filterMap (fun b => g (.descriptorBinding b)) := by
  have hnil : (Field.all.filterMap A.write?).filterMap g = [] := by
    rw [List.filterMap_eq_nil_iff]
    intro s hs
    obtain ⟨f, _, hf⟩ := List.mem_filterMap.mp hs
    exact hg f s hf
  rw [settings, List.filterMap_append, List.filterMap_append, hnil, List.nil_append,
    List.filterMap_map, List.filterMap_map]
  rfl

/-- **Every valid assignment has a rendering.** -/
theorem renders_settings (hA : A.Valid) : Renders A A.settings where
  inRange s hs := by
    rcases mem_settings.mp hs with ⟨f, hf⟩ | ⟨a, ha, rfl⟩ | ⟨b, hb, rfl⟩
    · exact (writes_of_write? hA hf).inRange
    · exact ⟨hA.attributes a ha, nofun⟩
    · exact hA.bindings b hb
  holds s hs := by
    rcases mem_settings.mp hs with ⟨f, hf⟩ | ⟨a, ha, rfl⟩ | ⟨b, hb, rfl⟩
    · exact (writes_of_write? hA hf).holdsIn
    · intro f
      cases f <;> rfl
    · intro f
      cases f <;> rfl
  given f hf := by
    obtain ⟨s, hs⟩ := Option.ne_none_iff_exists'.mp (mt default_of_write?_eq_none hf)
    exact List.mem_filterMap.mpr
      ⟨s, mem_settings.mpr (.inl ⟨f, hs⟩), (writes_of_write? hA hs).field⟩
  attributes := by
    rw [filterMap_settings fun f s hs => (writes_of_write? hA hs).no_record.1]
    simp [Setting.attribute?]
  bindings := by
    rw [filterMap_settings fun f s hs => (writes_of_write? hA hs).no_record.2]
    simp [Setting.binding?]

end CmdOptions

/-! ## The round trip -/

/-- **An assignment is read back, and no value is taken for an option, if and only if** no path
and no entry point spells one, and the name of the program does not. -/
theorem parsecmdoptions_render_iff {A : CmdOptions} {settings : List Setting} (hA : A.Valid)
    (h : Renders A settings) (program : Arg) :
    (parsecmdoptions (program :: render settings) = A ∧
      takenForOptions (program :: render settings) = namePositions settings 1) ↔
    Opt.ofArg program = none ∧ A.Plain := by
  constructor
  · rintro ⟨_, htaken⟩
    have hprogram : Opt.ofArg program = none := by
      by_contra hsome
      obtain ⟨o, ho⟩ := Option.ne_none_iff_exists'.mp hsome
      rw [takenForOptions, parseLoop_of_some ho] at htaken
      have hhead : 0 ∈ (namePositions settings 1).head? := by
        rw [← htaken]
        rfl
      exact absurd (namePositions_head hhead) (by decide)
    rw [takenForOptions, parseLoop_of_none hprogram,
      taken_eq_namePositions_iff h.inRange (h.room hA)] at htaken
    exact ⟨hprogram, h.plain_of_settings htaken⟩
  · rintro ⟨hprogram, hplain⟩
    have hloop := parseLoop_settings h.inRange (h.room hA) (h.settings_plain hplain) 1
    rw [h.foldl_assign hA] at hloop
    rw [parsecmdoptions, takenForOptions, parseLoop_of_none hprogram, hloop]
    exact ⟨rfl, rfl⟩

def fewOptions : CmdOptions where
  inputfile := some "a.vert.spv".toList
  outputfile := some "a.sb".toList
  entrypoint := "vs-main".toList
  stage := .vertex
  raw := true
  primitiveType := 4
  address32Hi := 65536
  vertexAttributes := [⟨1, 0, .r32g32Float, 8, 16, 4, 0⟩]
  descriptorBindings := [⟨0, 3, .uniformBuffer, 1, 0, 16⟩]

theorem fewOptions_valid : fewOptions.Valid where
  primitiveType := by decide
  address32Hi := by decide
  attributes := by
    simp only [fewOptions, List.forall_mem_singleton]
    exact ⟨by decide, by decide, by decide, by decide, by decide, by decide, by decide⟩
  attribute_count := by decide
  bindings := by
    simp only [fewOptions, List.forall_mem_singleton]
    exact ⟨by decide, by decide, by decide, by decide, by decide, by decide⟩
  binding_count := by decide
  parseError := rfl

theorem fewOptions_plain : fewOptions.Plain := by
  intro f v hv
  cases f <;> cases hv <;> decide

theorem fewOptions_read_back :
    parsecmdoptions ("psbc".toList :: render fewOptions.settings) = fewOptions ∧
      takenForOptions ("psbc".toList :: render fewOptions.settings) =
        namePositions fewOptions.settings 1 :=
  (parsecmdoptions_render_iff fewOptions_valid (CmdOptions.renders_settings fewOptions_valid)
    "psbc".toList).mpr ⟨by decide, fewOptions_plain⟩

/-- A file that has the name of an option. -/
def rawOutput : CmdOptions where
  inputfile := some "a.spv".toList
  outputfile := some "--raw".toList

def rawOutputSettings : List Setting := [.inputfile "a.spv".toList, .outputfile "--raw".toList]

/-- `psbc -f a.spv -o --raw` -/
theorem rawOutput_taken_for_option :
    rawOutput.Valid ∧ Renders rawOutput rawOutputSettings ∧
      parsecmdoptions ("psbc".toList :: render rawOutputSettings) = { rawOutput with raw := true } ∧
      takenForOptions ("psbc".toList :: render rawOutputSettings) = [1, 3, 4] ∧
      namePositions rawOutputSettings 1 = [1, 3] := by
  refine ⟨⟨.inl rfl, by decide, nofun, by decide, nofun, by decide, rfl⟩, ?_, by decide +kernel⟩
  constructor
  · simp [rawOutputSettings, Setting.InRange]
  · simp only [rawOutputSettings, List.forall_mem_cons]
    refine ⟨?_, ?_, nofun⟩ <;> intro f <;> cases f <;> rfl
  · intro f hf
    cases f <;> first | exact absurd rfl hf | decide
  · rfl
  · rfl

end Psbc.Cli
