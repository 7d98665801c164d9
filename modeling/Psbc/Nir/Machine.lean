import Psbc.Nir.Alu
import Mathlib.Data.List.Nodup

/-!
# Shaders that run

A shader in SSA form: blocks of instructions, each with the name of the value it defines, and a
choice of the next block at the end of each. Integer divisions, constants and vectors of scalar
expressions have their meaning here; every other instruction is some function of the machine's
state, which may also change the memory. Nothing is defined before its instruction has run.
-/

namespace Psbc.Nir.Ssa

inductive DivOp where
  | udiv
  | idiv
  | umod
  | imod
  | irem
  deriving DecidableEq, Repr

def DivOp.binOp : DivOp → BinOp
  | udiv => .udiv
  | idiv => .idiv
  | umod => .umod
  | imod => .imod
  | irem => .irem

/-- The base type of the second source in `nir_op_infos`. -/
def DivOp.isUint : DivOp → Bool
  | udiv => true
  | umod => true
  | idiv => false
  | imod => false
  | irem => false

/-- A source with the component that it takes for each component of the result. -/
structure AluSrc where
  ssa : Nat
  swizzle : Nat → Nat

/-- A division. The sources have the bit size of the result. -/
structure DivAlu where
  op : DivOp
  bitSize : Nat
  numComponents : Nat
  src0 : AluSrc
  src1 : AluSrc
  sized : bitSize = 1 ∨ BitSize bitSize

/-- Where the machine is, the values defined so far, and the memory. `pred` is the block that it
came from. -/
structure State (μ : Type) where
  block : Nat
  pos : Nat
  pred : Nat
  values : Nat → Option (List (BitVec 64))
  memory : μ

inductive Instr (μ : Type) where
  | loadConst (value : List (BitVec 64))
  | div (alu : DivAlu)
  | vec (bitSize : Nat) (channels : List (Scalar bitSize))
  | other (effect : State μ → Option (List (BitVec 64) × μ))

structure Block (μ : Type) where
  instrs : List (Nat × Instr μ)
  /-- The next block, or none at the end of the shader. -/
  next : State μ → Option Nat

def defs {μ : Type} (blocks : List (Block μ)) : List (Nat × Instr μ) :=
  blocks.flatMap (·.instrs)

/-- Every value has one definition. -/
structure Shader (μ : Type) where
  blocks : List (Block μ)
  nodup : ((defs blocks).map (·.1)).Nodup

/-! ## Meaning -/

section Meaning

variable {μ : Type}

def State.read (st : State μ) : Values := fun ssa comp => ((st.values ssa).getD []).getD comp 0

def State.isDefined (st : State μ) (ssa : Nat) : Bool := (st.values ssa).isSome

/-- Whether the values that an expression reads all have the property. -/
@[simp] def Scalar.reads (p : Nat → Bool) {w : Nat} : Scalar w → Bool
  | .chan ssa _ => p ssa
  | .imm _ => true
  | .un _ a => reads p a
  | .bin _ a b => reads p a && reads p b
  | .shift _ a amount => reads p a && reads p amount
  | .compare _ a b => reads p a && reads p b
  | .bcsel c a b => reads p c && reads p a && reads p b
  | .b2i c => reads p c

/-- A signed quotient that overflows is undefined. -/
def DivOp.eval {w : Nat} (op : DivOp) (x y : BitVec w) : Option (BitVec w) :=
  if op = .idiv ∧ x.toInt = uIntNMin w ∧ y.toInt = -1 then none else some (op.binOp.eval x y)

def AluSrc.channel (src : AluSrc) (w comp : Nat) : Scalar w := .chan src.ssa (src.swizzle comp)

def DivAlu.component (alu : DivAlu) (values : Values) (comp : Nat) : Option (BitVec 64) :=
  (alu.op.eval ((alu.src0.channel alu.bitSize comp).eval values)
    ((alu.src1.channel alu.bitSize comp).eval values)).map (BitVec.setWidth 64)

def DivAlu.eval (alu : DivAlu) (st : State μ) : Option (List (BitVec 64)) :=
  if st.isDefined alu.src0.ssa && st.isDefined alu.src1.ssa then
    (List.range alu.numComponents).mapM (alu.component st.read)
  else none

/-- The components an instruction gives and the memory it leaves. -/
def Instr.eval (instr : Instr μ) (st : State μ) : Option (List (BitVec 64) × μ) :=
  match instr with
  | .loadConst value => some (value, st.memory)
  | .div alu => (alu.eval st).map (·, st.memory)
  | .vec _ channels =>
    if channels.all (Scalar.reads st.isDefined) then
      some (channels.map fun c => (c.eval st.read).setWidth 64, st.memory)
    else none
  | .other effect => effect st

def State.define (st : State μ) (ssa : Nat) (result : List (BitVec 64) × μ) : State μ :=
  { st with
    pos := st.pos + 1
    values := fun i => if i = ssa then some result.1 else st.values i
    memory := result.2 }

inductive Outcome (μ : Type) where
  | running (st : State μ)
  | finished (st : State μ)
  | undefined

/-- One instruction, or the move from the end of a block to the next. -/
def Shader.step (s : Shader μ) (st : State μ) : Outcome μ :=
  match s.blocks[st.block]? with
  | none => .undefined
  | some block =>
    match block.instrs[st.pos]? with
    | some (ssa, instr) =>
      match instr.eval st with
      | some result => .running (st.define ssa result)
      | none => .undefined
    | none =>
      match block.next st with
      | some b => .running { st with block := b, pos := 0, pred := st.block }
      | none => .finished st

/-- The outcome after at most `n` steps. -/
def Shader.run (s : Shader μ) : Nat → State μ → Outcome μ
  | 0, st => .running st
  | n + 1, st =>
    match s.step st with
    | .running st => s.run n st
    | outcome => outcome

def State.start (memory : μ) : State μ :=
  { block := 0, pos := 0, pred := 0, values := fun _ => none, memory }

end Meaning

/-! ## Definitions of values -/

section Parents

variable {μ : Type} {s : Shader μ}

/-- The instruction that defines a value, `nir_def_instr`. -/
def Shader.parent (s : Shader μ) (ssa : Nat) : Option (Instr μ) :=
  ((defs s.blocks).find? (·.1 == ssa)).map (·.2)

theorem Shader.parent_eq_of_mem {ssa : Nat} {instr : Instr μ}
    (h : (ssa, instr) ∈ defs s.blocks) : s.parent ssa = some instr := by
  have hnodup := s.nodup
  unfold Shader.parent
  generalize defs s.blocks = l at h hnodup
  induction l with
  | nil => cases h
  | cons p l ih =>
    rw [List.map_cons, List.nodup_cons] at hnodup
    rcases List.mem_cons.mp h with rfl | hmem
    · rw [List.find?_cons_of_pos (by simp)]
      rfl
    · have hne : p.1 ≠ ssa := fun heq => hnodup.1 (heq ▸ List.mem_map_of_mem hmem)
      rw [List.find?_cons_of_neg (by simpa using hne)]
      exact ih hmem hnodup.2

theorem Shader.mem_defs {b : Nat} {block : Block μ} {pos : Nat} {p : Nat × Instr μ}
    (hblock : s.blocks[b]? = some block) (hinstr : block.instrs[pos]? = some p) :
    p ∈ defs s.blocks :=
  List.mem_flatMap.mpr ⟨block, List.mem_of_getElem? hblock, List.mem_of_getElem? hinstr⟩

/-- The constants that have been loaded are those of their instructions. -/
def ConstsHold (s : Shader μ) (st : State μ) : Prop :=
  ∀ {ssa : Nat} {value v : List (BitVec 64)},
    s.parent ssa = some (.loadConst value) → st.values ssa = some v → v = value

theorem constsHold_start (memory : μ) : ConstsHold s (State.start memory) :=
  fun _ hv => nomatch hv

theorem ConstsHold.define {st : State μ} (h : ConstsHold s st) {ssa : Nat} {instr : Instr μ}
    (hmem : (ssa, instr) ∈ defs s.blocks) {result : List (BitVec 64) × μ}
    (heval : instr.eval st = some result) : ConstsHold s (st.define ssa result) := by
  intro i value v hparent hv
  by_cases hi : i = ssa
  · subst hi
    rw [Shader.parent_eq_of_mem hmem, Option.some.injEq] at hparent
    subst hparent
    obtain rfl : (value, st.memory) = result := Option.some.inj heval
    simp only [State.define, if_true, Option.some.injEq] at hv
    exact hv.symm
  · exact h hparent (by simpa only [State.define, if_neg hi] using hv)

theorem ConstsHold.step {st st' : State μ} (h : ConstsHold s st)
    (hstep : s.step st = .running st') : ConstsHold s st' := by
  unfold Shader.step at hstep
  split at hstep
  next => cases hstep
  next block hblock =>
    split at hstep
    next ssa instr hinstr =>
      split at hstep
      next result heval =>
        cases hstep
        exact h.define (Shader.mem_defs hblock hinstr) heval
      next => cases hstep
    next =>
      split at hstep
      next => cases hstep; exact h
      next => cases hstep

end Parents

/-! ## Rewriting instructions -/

section Rewrite

variable {μ : Type}

/-- The blocks with every instruction rewritten in its place. -/
def rewriteBlocks (f : Instr μ → Instr μ) (blocks : List (Block μ)) : List (Block μ) :=
  blocks.map fun block => { block with instrs := block.instrs.map fun p => (p.1, f p.2) }

theorem defs_rewriteBlocks (f : Instr μ → Instr μ) (blocks : List (Block μ)) :
    (defs (rewriteBlocks f blocks)).map (·.1) = (defs blocks).map (·.1) := by
  simp only [defs, rewriteBlocks, List.map_flatMap, List.flatMap_map, List.map_map,
    Function.comp_def]

def Shader.rewrite (f : Instr μ → Instr μ) (s : Shader μ) : Shader μ where
  blocks := rewriteBlocks f s.blocks
  nodup := by rw [defs_rewriteBlocks]; exact s.nodup

variable {f : Instr μ → Instr μ} {s : Shader μ}

/-- The rewriting keeps a defined instruction's result, where the constants are loaded. -/
def Keeps (f : Instr μ → Instr μ) (s : Shader μ) : Prop :=
  ∀ {instr : Instr μ} {st : State μ} {result : List (BitVec 64) × μ},
    ConstsHold s st → instr.eval st = some result → (f instr).eval st = some result

theorem step_rewrite (h : Keeps f s) {st : State μ} (hconsts : ConstsHold s st)
    (hdef : s.step st ≠ .undefined) : (s.rewrite f).step st = s.step st := by
  unfold Shader.step at hdef ⊢
  simp only [Shader.rewrite, rewriteBlocks, List.getElem?_map]
  cases hblock : s.blocks[st.block]? with
  | none => rfl
  | some block =>
    simp only [Option.map_some, List.getElem?_map]
    cases hinstr : block.instrs[st.pos]? with
    | none => rfl
    | some p =>
      cases heval : p.2.eval st with
      | none =>
        simp only [hblock, hinstr, heval] at hdef
        exact absurd rfl hdef
      | some result => simp only [Option.map_some, heval, h hconsts heval]

/-- A run whose instructions are all defined is a run of the rewritten shader. -/
theorem run_rewrite (h : Keeps f s) (n : Nat) {st : State μ} (hconsts : ConstsHold s st)
    (hdef : s.run n st ≠ .undefined) : (s.rewrite f).run n st = s.run n st := by
  induction n generalizing st with
  | zero => rfl
  | succ n ih =>
    unfold Shader.run at hdef ⊢
    have hstep : s.step st ≠ .undefined := fun hundef => by
      rw [hundef] at hdef
      exact hdef rfl
    rw [step_rewrite h hconsts hstep]
    cases hnext : s.step st with
    | running st' =>
      rw [hnext] at hdef
      exact ih (hconsts.step hnext) hdef
    | finished _ => rfl
    | undefined => rfl

end Rewrite

end Psbc.Nir.Ssa
