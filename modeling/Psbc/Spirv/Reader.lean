import Psbc.Spirv.Module

/-!
# The SPIR-V reader's preamble

`spirv_to_nir` goes over the same words on its own: `vtn_foreach_instruction` hands each
instruction to a handler, and the handler of the preamble turns a capability on for every
`OpCapability` it meets. It takes the word behind the instruction's first one, and does
not ask whether the instruction has it.

What else makes the reader give up at an instruction (an unimplemented capability, a bad
operand) is the parameter `fails`.
-/

namespace Psbc.Spirv

open Bytes Records

def opNop : Nat := 0
def opLine : Nat := 8
def opNoLine : Nat := 317

/-- The instructions of the preamble, `OpCapability` apart. -/
def preambleOpcodes : List Nat :=
  [7, 3, 4, 2, 330,                       -- strings, sources, processed
    10, 11, 14, 15, 5,                    -- extensions, memory model, entry points, names
    6, 16, 331, 73, 71, 332, 72, 5127, 74, 75, 5632, 5633]  -- decorations

/-- `vtn_foreach_instruction` from `offset` on: where it stops, and the state the handler
has built. The handler sees the words from the instruction on and answers `none` to stop.
`none` as a result is `vtn_fail`. -/
def vtnForeachInstruction {σ : Type} (fails : Nat → Bool)
    (handler : σ → List Word → Option σ) (spirv : List Word) (s : σ) (offset : Nat) :
    Option (Nat × σ) :=
  if h : offset < spirv.length then
    let count := wordCount spirv[offset]
    if hbad : (count = 0 ∨ spirv.length - offset < count) ∨ fails offset = true then
      none
    else if opcode spirv[offset] ∈ [opNop, opLine, opNoLine] then
      vtnForeachInstruction fails handler spirv s (offset + count)
    else
      match handler s (spirv.drop offset) with
      | none => some (offset, s)
      | some s' => vtnForeachInstruction fails handler spirv s' (offset + count)
  else
    some (offset, s)
termination_by spirv.length - offset

/-- `vtn_handle_preamble_instruction`, as far as `enabled_capabilities` goes. `past` is
the word in memory behind the module. -/
def vtnHandlePreambleInstruction (past : Word) (enabled : List Word) :
    List Word → Option (List Word)
  | [] => none
  | instruction :: rest =>
    if opcode instruction = opCapability then some (rest.headD past :: enabled)
    else if opcode instruction ∈ preambleOpcodes then some enabled
    else none

/-- The header checks of `vtn_create_builder`. -/
def vtnCreateBuilder (data : List Byte) : Bool :=
  decide (5 < (words data).length) && word data 0 == magicNumber &&
    decide (0x10000 ≤ (word data 1).toNat) && word data 4 == 0

/-- The capabilities the reader turns on in a module, latest first. -/
def enabledCapabilities (fails : Nat → Bool) (past : Word) (data : List Byte) :
    Option (List Word) :=
  if vtnCreateBuilder data then
    (vtnForeachInstruction fails (vtnHandlePreambleInstruction past) (words data) [] 5).map
      Prod.snd
  else none

/-- What the handler does to the capabilities when it goes on. -/
theorem vtnHandlePreambleInstruction_cases {past a : Word} {l enabled enabled' : List Word}
    (h : vtnHandlePreambleInstruction past enabled (a :: l) = some enabled') :
    (opcode a = opCapability ∧ enabled' = l.headD past :: enabled) ∨ enabled' = enabled := by
  simp only [vtnHandlePreambleInstruction] at h
  split at h
  · next hop => exact .inl ⟨hop, (Option.some.inj h).symm⟩
  · split at h
    · exact .inr (Option.some.inj h).symm
    · simp at h

/-- A property of the handler's state is kept over a tiled stream when the handler keeps
it at every instruction of it. -/
theorem vtnForeachInstruction_keeps {σ : Type} {fails : Nat → Bool}
    {handler : σ → List Word → Option σ} {spirv : List Word} {s t : σ} {offset stop : Nat}
    {P : List Word → Prop} {I : σ → Prop}
    (hstep : ∀ s s' a l, Fits wordCount a (a :: l) → Tiled wordCount P (a :: l) →
      handler s (a :: l) = some s' → I s → I s')
    (htiled : Tiled wordCount P (spirv.drop offset)) (hs : I s)
    (hrun : vtnForeachInstruction fails handler spirv s offset = some (stop, t)) : I t := by
  fun_induction vtnForeachInstruction fails handler spirv s offset with
  | case1 s offset h count hbad => simp at hrun
  | case2 s offset h count hok hskip ih =>
    exact ih ((tiled_drop_iff h (not_or.1 hok).1).1 htiled).2 hs hrun
  | case3 s offset h count hok hskip hstop =>
    obtain ⟨-, rfl⟩ := Prod.mk.inj (Option.some.inj hrun)
    exact hs
  | case4 s offset h count hok hskip s' hnext ih =>
    have hrest := ((tiled_drop_iff h (not_or.1 hok).1).1 htiled).2
    rw [List.drop_eq_getElem_cons h] at htiled hnext
    exact ih hrest (hstep s s' _ _ (fits_drop h (not_or.1 hok).1) htiled hnext hs) hrun
  | case5 s offset h =>
    obtain ⟨-, rfl⟩ := Prod.mk.inj (Option.some.inj hrun)
    exact hs

end Psbc.Spirv
