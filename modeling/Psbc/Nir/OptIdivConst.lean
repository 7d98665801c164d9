import Psbc.Nir.IdivConst
import Psbc.Nir.Machine

/-!
# The pass over a shader

`nir_opt_idiv_const` walks the instructions of a shader and replaces each division whose divisor
is a constant, component by component, by what `Psbc.Nir.IdivConst` builds. The value keeps its
uses, so it keeps its name here.
-/

namespace Psbc.Nir.Ssa

variable {μ : Type}

/-- A component of a constant with its sign. -/
def nirSrcCompAsInt (bitSize : Nat) (value : List (BitVec 64)) (comp : Nat) : Int :=
  ((value.getD comp 0).setWidth bitSize).toInt

/-- The divisor of a component, as the 64-bit variable of the pass has it. -/
def DivAlu.divisor (alu : DivAlu) (value : List (BitVec 64)) (comp : Nat) : Int :=
  let d := nirSrcCompAsInt alu.bitSize value (alu.src1.swizzle comp)
  if alu.op.isUint && decide (alu.bitSize < 64) then d % 2 ^ alu.bitSize else d

/-- What replaces a component. The unsigned builders take the divisor as a `uint64_t`. -/
def DivAlu.quotient (alu : DivAlu) (lowerBitops : Bool) (value : List (BitVec 64)) (comp : Nat) :
    Scalar alu.bitSize :=
  let n := alu.src0.channel alu.bitSize comp
  let d := alu.divisor value comp
  match alu.op with
  | .udiv => buildUdiv n (d % 2 ^ 64).toNat
  | .idiv => buildIdiv n d
  | .umod => buildUmod lowerBitops n (d % 2 ^ 64).toNat
  | .imod => buildImod lowerBitops n d
  | .irem => buildIrem lowerBitops n d

/-- The instruction that takes this one's place, if there is progress. -/
def nirOptIdivConstInstr (s : Shader μ) (lowerBitops : Bool) (minBitSize : Nat) :
    Instr μ → Option (Instr μ)
  | .div alu =>
    if alu.bitSize < minBitSize then none
    else
      match s.parent alu.src1.ssa with
      | some (.loadConst value) =>
        some (.vec alu.bitSize
          ((List.range alu.numComponents).map (alu.quotient lowerBitops value)))
      | _ => none
  | _ => none

/-- The shader after the pass and whether there was progress. -/
def nirOptIdivConst (s : Shader μ) (lowerBitops : Bool) (minBitSize : Nat) : Shader μ × Bool :=
  let pass := nirOptIdivConstInstr s lowerBitops minBitSize
  (s.rewrite fun instr => (pass instr).getD instr,
    (defs s.blocks).any fun p => (pass p.2).isSome)

/-! ## What the replacements read

A replacement reads nothing but the dividend. -/

section Reads

variable {w : Nat} {p : Nat → Bool} {n : Scalar w}

@[simp] theorem reads_nirImmIntN (x : Int) : Scalar.reads p (nirImmIntN x : Scalar w) = true := rfl

@[simp] theorem reads_ite {c : Prop} [Decidable c] {a b : Scalar w} :
    Scalar.reads p (if c then a else b) = if c then Scalar.reads p a else Scalar.reads p b := by
  split <;> rfl

@[simp] theorem reads_nirIaddImm (h : Scalar.reads p n = true) (y : Int) :
    Scalar.reads p (nirIaddImm n y) = true := by
  simp [nirIaddImm, h]

@[simp] theorem reads_nirImulImm (h : Scalar.reads p n = true) (lowerBitops : Bool) (y : Int) :
    Scalar.reads p (nirImulImm lowerBitops n y) = true := by
  simp [nirImulImm, h]

@[simp] theorem reads_nirIandImm (h : Scalar.reads p n = true) (y : Int) :
    Scalar.reads p (nirIandImm n y) = true := by
  simp [nirIandImm, h]

@[simp] theorem reads_nirIshrImm (h : Scalar.reads p n = true) (y : Nat) :
    Scalar.reads p (nirIshrImm n y) = true := by
  simp [nirIshrImm, h]

@[simp] theorem reads_nirUshrImm (h : Scalar.reads p n = true) (y : Nat) :
    Scalar.reads p (nirUshrImm n y) = true := by
  simp [nirUshrImm, h]

@[simp] theorem reads_nirCompareImm (h : Scalar.reads p n = true) (op : CompareOp) (y : Int) :
    Scalar.reads p (nirCompareImm op n y) = true := by
  simp [nirCompareImm, h]

@[simp] theorem reads_buildUdiv (h : Scalar.reads p n = true) (d : Nat) :
    Scalar.reads p (buildUdiv n d) = true := by
  simp [buildUdiv, buildUdivMagic, h]

@[simp] theorem reads_buildIdiv (h : Scalar.reads p n = true) (d : Int) :
    Scalar.reads p (buildIdiv n d) = true := by
  simp [buildIdiv, buildIdivPot, buildIdivMagic, buildIdivHigh, h]

@[simp] theorem reads_buildUmod (h : Scalar.reads p n = true) (lowerBitops : Bool) (d : Nat) :
    Scalar.reads p (buildUmod lowerBitops n d) = true := by
  simp [buildUmod, h]

@[simp] theorem reads_buildIrem (h : Scalar.reads p n = true) (lowerBitops : Bool) (d : Int) :
    Scalar.reads p (buildIrem lowerBitops n d) = true := by
  simp [buildIrem, h]

@[simp] theorem reads_buildImod (h : Scalar.reads p n = true) (lowerBitops : Bool) (d : Int) :
    Scalar.reads p (buildImod lowerBitops n d) = true := by
  simp [buildImod, h]

end Reads

theorem DivAlu.reads_quotient (alu : DivAlu) {p : Nat → Bool} (h : p alu.src0.ssa = true)
    (lowerBitops : Bool) (value : List (BitVec 64)) (comp : Nat) :
    Scalar.reads p (alu.quotient lowerBitops value comp) = true := by
  have hn : Scalar.reads p (alu.src0.channel alu.bitSize comp) = true := h
  unfold DivAlu.quotient
  cases alu.op <;> simp [hn]

/-! ## Meaning -/

section Meaning

variable (alu : DivAlu) (value : List (BitVec 64)) (comp : Nat)

/-- The component of the constant that the division takes. -/
def DivAlu.divisorWord : BitVec alu.bitSize :=
  (value.getD (alu.src1.swizzle comp) 0).setWidth alu.bitSize

theorem divisor_signed (hop : alu.op.isUint = false) :
    alu.divisor value comp = (alu.divisorWord value comp).toInt := by
  simp [DivAlu.divisor, nirSrcCompAsInt, DivAlu.divisorWord, hop]

theorem toInt_emod_two_pow {w : Nat} (x : BitVec w) : x.toInt % 2 ^ w = x.toNat := by
  have hlt : (x.toNat : Int) < (2 ^ w : Nat) := by exact_mod_cast x.isLt
  have hcast : ((2 ^ w : Nat) : Int) = 2 ^ w := Int.natCast_pow 2 w
  rw [← hcast, BitVec.toInt_eq_toNat_bmod, Int.bmod_emod]
  exact Int.emod_eq_of_lt (Int.natCast_nonneg _) hlt

theorem divisor_unsigned (h : BitSize alu.bitSize) (hop : alu.op.isUint = true) :
    (alu.divisor value comp % 2 ^ 64).toNat = (alu.divisorWord value comp).toNat := by
  have hword := toInt_emod_two_pow (alu.divisorWord value comp)
  have hlt := (alu.divisorWord value comp).isLt
  have hle : 2 ^ alu.bitSize ≤ 2 ^ 64 := Nat.pow_le_pow_right (by decide) h.le
  simp only [DivAlu.divisor, nirSrcCompAsInt, hop, Bool.true_and, decide_eq_true_eq]
  change ((if alu.bitSize < 64 then (alu.divisorWord value comp).toInt % 2 ^ alu.bitSize
    else (alu.divisorWord value comp).toInt) % 2 ^ 64).toNat = _
  split
  next => rw [hword]; omega
  next hbig =>
    have hbits : alu.bitSize = 64 := by have := h.le; omega
    have hsize : (2 : Int) ^ alu.bitSize = 2 ^ 64 := by rw [hbits]
    rw [← hsize, hword]
    omega

theorem eval_quotient (h : BitSize alu.bitSize) (lowerBitops : Bool) {values : Values}
    (hdef : ¬(alu.op = .idiv ∧
      ((alu.src0.channel alu.bitSize comp).eval values).toInt = uIntNMin alu.bitSize ∧
      (alu.divisorWord value comp).toInt = -1)) :
    (alu.quotient lowerBitops value comp).eval values =
      alu.op.binOp.eval ((alu.src0.channel alu.bitSize comp).eval values)
        (alu.divisorWord value comp) := by
  have hlow := BitVec.le_toInt (alu.divisorWord value comp)
  have hhigh : (alu.divisorWord value comp).toInt < 2 ^ (alu.bitSize - 1) := BitVec.toInt_lt
  have hlt := (alu.divisorWord value comp).isLt
  unfold DivAlu.quotient
  cases hop : alu.op with
  | udiv =>
    dsimp only
    rw [divisor_unsigned alu value comp h (by rw [hop]; rfl), eval_buildUdiv values _ h hlt,
      BitVec.ofNat_toNat, BitVec.setWidth_eq]
    rfl
  | umod =>
    dsimp only
    rw [divisor_unsigned alu value comp h (by rw [hop]; rfl), eval_buildUmod values _ h _ hlt,
      BitVec.ofNat_toNat, BitVec.setWidth_eq]
    rfl
  | idiv =>
    rw [divisor_signed alu value comp (by rw [hop]; rfl),
      eval_buildIdiv values _ h hlow hhigh fun hover => hdef ⟨hop, hover⟩, BitVec.ofInt_toInt]
    rfl
  | imod =>
    rw [divisor_signed alu value comp (by rw [hop]; rfl),
      eval_buildImod values _ lowerBitops h hlow hhigh, BitVec.ofInt_toInt]
    rfl
  | irem =>
    rw [divisor_signed alu value comp (by rw [hop]; rfl),
      eval_buildIrem values _ lowerBitops h hlow hhigh, BitVec.ofInt_toInt]
    rfl

theorem component_eq (h : BitSize alu.bitSize) (lowerBitops : Bool) {values : Values}
    (hvalue : ∀ i, values alu.src1.ssa i = value.getD i 0) {v : BitVec 64}
    (hv : alu.component values comp = some v) :
    ((alu.quotient lowerBitops value comp).eval values).setWidth 64 = v := by
  have hsrc1 : (alu.src1.channel alu.bitSize comp).eval values = alu.divisorWord value comp :=
    congrArg (BitVec.setWidth alu.bitSize) (hvalue _)
  unfold DivAlu.component DivOp.eval at hv
  rw [hsrc1] at hv
  split at hv
  next => cases hv
  next hdef =>
    rw [eval_quotient alu value comp h lowerBitops hdef]
    exact Option.some.inj hv

end Meaning

theorem mapM_eq_map {α β : Type} {f : α → Option β} {g : α → β}
    (h : ∀ {a : α} {b : β}, f a = some b → g a = b) {l : List α} {l' : List β}
    (hl : l.mapM f = some l') : l.map g = l' := by
  induction l generalizing l' with
  | nil => exact Option.some.inj hl
  | cons a l ih =>
    rw [List.mapM_cons] at hl
    obtain ⟨b, hb, hl⟩ := Option.bind_eq_some_iff.mp hl
    obtain ⟨bs, hbs, hl⟩ := Option.bind_eq_some_iff.mp hl
    rw [List.map_cons, h hb, ih hbs]
    exact Option.some.inj hl

theorem eval_vec_quotient {s : Shader μ} {st : State μ} (hconsts : ConstsHold s st)
    {alu : DivAlu} (h : BitSize alu.bitSize) (lowerBitops : Bool) {value : List (BitVec 64)}
    (hparent : s.parent alu.src1.ssa = some (.loadConst value)) {result : List (BitVec 64) × μ}
    (heval : (Instr.div alu).eval st = some result) :
    (Instr.vec alu.bitSize ((List.range alu.numComponents).map
      (alu.quotient lowerBitops value))).eval st = some result := by
  obtain ⟨v, hv, rfl⟩ := Option.map_eq_some_iff.mp heval
  unfold DivAlu.eval at hv
  split at hv
  next hsrcs =>
    obtain ⟨hsrc0, hsrc1⟩ := Bool.and_eq_true_iff.mp hsrcs
    have hvalue : ∀ i, st.read alu.src1.ssa i = value.getD i 0 := fun i => by
      obtain ⟨c, hc⟩ := Option.isSome_iff_exists.mp hsrc1
      rw [State.read, hc, hconsts hparent hc]
      rfl
    have hreads : ((List.range alu.numComponents).map (alu.quotient lowerBitops value)).all
        (Scalar.reads st.isDefined) = true := by
      simp [alu.reads_quotient hsrc0]
    rw [Instr.eval, if_pos hreads, List.map_map]
    rw [← mapM_eq_map (fun hb => component_eq alu value _ h lowerBitops hvalue hb) hv]
    rfl
  next => cases hv

theorem keeps_nirOptIdivConstInstr (s : Shader μ) (lowerBitops : Bool) {minBitSize : Nat}
    (hmin : 1 < minBitSize) :
    Keeps (fun instr => (nirOptIdivConstInstr s lowerBitops minBitSize instr).getD instr) s := by
  intro instr st result hconsts heval
  cases instr with
  | div alu =>
    unfold nirOptIdivConstInstr
    dsimp only
    split
    next => exact heval
    next hsize =>
      split
      next value hparent =>
        have h : BitSize alu.bitSize := alu.sized.resolve_left (by omega)
        exact eval_vec_quotient hconsts h lowerBitops hparent heval
      next => exact heval
  | loadConst value => exact heval
  | vec bitSize channels => exact heval
  | other effect => exact heval

/-- **The pass preserves meaning.** From any memory and for any number of steps, a run of the
shader in which no signed quotient overflows is, state for state, a run of the shader that the
pass leaves. -/
theorem nirOptIdivConst_preserves (s : Shader μ) (lowerBitops : Bool) {minBitSize : Nat}
    (hmin : 1 < minBitSize) (memory : μ) (steps : Nat)
    (hdef : s.run steps (State.start memory) ≠ .undefined) :
    (nirOptIdivConst s lowerBitops minBitSize).1.run steps (State.start memory) =
      s.run steps (State.start memory) :=
  run_rewrite (keeps_nirOptIdivConstInstr s lowerBitops hmin) steps (constsHold_start memory) hdef

/-- The two components of a loaded value over the constants -7 and 10. -/
def quotientShader : Shader Unit where
  blocks := [
    { instrs := [
        (0, .other fun st => some ([0xffffff9c, 100], st.memory)),
        (1, .loadConst [0xfffffff9, 10]),
        (2, .div { op := .idiv, bitSize := 32, numComponents := 2, src0 := ⟨0, id⟩,
                   src1 := ⟨1, id⟩, sized := .inr .int32 })]
      next := fun _ => none }]
  nodup := (List.nodup_range : (List.range 3).Nodup)

theorem nirOptIdivConst_preserves_quotient :
    (nirOptIdivConst quotientShader false 8).2 = true ∧
    quotientShader.run 3 (State.start ()) ≠ .undefined ∧
    (nirOptIdivConst quotientShader false 8).1.run 3 (State.start ()) =
      quotientShader.run 3 (State.start ()) := by
  have hdef : quotientShader.run 3 (State.start ()) ≠ .undefined := fun h => nomatch h
  exact ⟨rfl, hdef, nirOptIdivConst_preserves quotientShader false (by decide) () 3 hdef⟩

end Psbc.Nir.Ssa
