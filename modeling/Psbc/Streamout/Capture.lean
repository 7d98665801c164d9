import Psbc.Streamout.BufferInfo
import Mathlib.Order.Bounds.Basic
import Mathlib.Data.BitVec
import Mathlib.Tactic.Abel

/-!
# What one workgroup captures

`Fits d m s c`: `c` primitives of stream `s` fit whole in every buffer of the
stream behind the offsets of `m`. The code finds the largest such number by a
chain of signed 32-bit minima over the buffers; `le_emitPrim_iff_of_lt` says that it
does, and `capture_run` gives the memory a workgroup leaves when it runs alone:
each counter advances by exactly the bytes written, although the reservation
itself may have wrapped.
-/

namespace Psbc.Streamout

open Atomic

/-! ## Signed words that are not negative -/

theorem slt_iff {x y : Word} (hx : x.toNat < 2 ^ 31) (hy : y.toNat < 2 ^ 31) :
    x.slt y = true ↔ x.toNat < y.toNat := by
  rw [BitVec.slt_iff_toInt_lt, BitVec.toInt_eq_toNat_of_lt (by omega),
    BitVec.toInt_eq_toNat_of_lt (by omega)]
  omega

theorem imin_toNat {x y : Word} (hx : x.toNat < 2 ^ 31) (hy : y.toNat < 2 ^ 31) :
    (imin x y).toNat = min x.toNat y.toNat := by
  simp only [imin, slt_iff hx hy]
  split <;> omega

theorem sdiv_toNat {x y : Word} (hx : x.toNat < 2 ^ 31) (hy : y.toNat < 2 ^ 31) :
    (x.sdiv y).toNat = x.toNat / y.toNat := by
  have hmx : x.msb = false := by rw [BitVec.msb_eq_false_iff_two_mul_lt]; omega
  have hmy : y.msb = false := by rw [BitVec.msb_eq_false_iff_two_mul_lt]; omega
  simp [BitVec.sdiv, hmx, hmy]

/-! ## Strides and lists of a draw -/

section Draw

variable {d : Draw} {b : Fin 4}

theorem Draw.mem_buffers : b ∈ d.buffers ↔ d.buffersWritten b = true := by
  simp [Draw.buffers]

theorem Draw.nodup_buffers (d : Draw) : d.buffers.Nodup := (List.nodup_finRange 4).filter _

theorem Draw.mem_streams {s : Fin 4} : s ∈ d.streams ↔ d.streamsWritten s = true := by
  simp [Draw.streams]

theorem Draw.nodup_streams (d : Draw) : d.streams.Nodup := (List.nodup_finRange 4).filter _

/-- Three vertices of at most `2 ^ 16 - 1` bytes do not overflow. -/
theorem Draw.primStride_toNat (d : Draw) (b : Fin 4) :
    (d.primStride b).toNat = d.numVertPerPrim.toNat * (d.stride b).toNat := by
  have h3 := d.numVert_le
  have hs := (d.stride b).isLt
  have hmul : d.numVertPerPrim.toNat * (d.stride b).toNat ≤ 3 * 2 ^ 16 :=
    Nat.mul_le_mul h3 hs.le
  rw [Draw.primStride, BitVec.toNat_mul]
  simp only [BitVec.truncate_eq_setWidth, BitVec.toNat_setWidth]
  rw [Nat.mod_eq_of_lt (show (d.stride b).toNat < 2 ^ 32 by omega), Nat.mod_eq_of_lt (by omega)]

theorem Draw.primStride_lt (d : Draw) (b : Fin 4) : (d.primStride b).toNat < 2 ^ 31 := by
  have hmul : d.numVertPerPrim.toNat * (d.stride b).toNat ≤ 3 * 2 ^ 16 :=
    Nat.mul_le_mul d.numVert_le (d.stride b).isLt.le
  rw [d.primStride_toNat]; omega

theorem Draw.primStride_pos (hb : d.buffersWritten b = true) : 0 < (d.primStride b).toNat := by
  rw [d.primStride_toNat]; exact Nat.mul_pos d.numVert_pos (d.stride_pos b hb)

end Draw

/-! ## The largest number of primitives that fits -/

/-- `c` primitives of stream `s` fit whole behind the buffer offsets `start`. -/
def Fits (d : Draw) (start : Fin 4 → Nat) (s : Fin 4) (c : Nat) : Prop :=
  ∀ b, d.buffersWritten b = true → d.bufferToStream b = s →
    start b + c * (d.primStride b).toNat ≤ (d.bufferSize b).toNat

theorem Fits.mono {d : Draw} {start : Fin 4 → Nat} {s : Fin 4} {c c' : Nat}
    (h : Fits d start s c) (hc : c' ≤ c) : Fits d start s c' := fun b hb hs =>
  (Nat.add_le_add_left (Nat.mul_le_mul_right _ hc) _).trans (h b hb hs)

section Emit

variable {d : Draw} {w : Workgroup} {offset : Fin 4 → Word}

theorem Draw.bufferSize_eq_zero {b : Fin 4} (hv : ¬ d.bufferValid b = true) :
    (d.bufferSize b).toNat = 0 := by
  have hzero : d.bufferSize b = 0 := by simpa [Draw.bufferValid] using hv
  rw [hzero]
  rfl

/-- An unbound buffer has no room, so that there too the offset is what was read. -/
theorem bufferOffset_eq_of_le {b : Fin 4} {x : Nat} (hread : (offset b).toNat = x)
    (hle : x ≤ (d.bufferSize b).toNat) : (bufferOffset d offset b).toNat = x := by
  unfold bufferOffset
  split
  · exact hread
  · next hv =>
    rw [Draw.bufferSize_eq_zero hv] at hle
    exact (Nat.le_zero.mp hle).symm

/-- An offset past the end leaves room for nothing. -/
theorem le_limitPrim_iff {b : Fin 4} {emit : Word} (hb : d.buffersWritten b = true)
    (hoff : (bufferOffset d offset b).toNat < 2 ^ 31) (hemit : emit.toNat < 2 ^ 31) (c : Nat) :
    c ≤ (limitPrim d offset b emit).toNat ↔ c ≤ emit.toNat ∧ (0 < c →
      (bufferOffset d offset b).toNat + c * (d.primStride b).toNat ≤ (d.bufferSize b).toNat) := by
  have hsize := d.bufferSize_lt b
  have hpos := Draw.primStride_pos hb
  rcases Nat.lt_or_ge (d.bufferSize b).toNat (bufferOffset d offset b).toNat with hlt | hle
  · have hover : (d.bufferSize b).slt (bufferOffset d offset b) = true := by
      rw [slt_iff hsize hoff]; exact hlt
    simp only [limitPrim, hover, if_true]
    constructor
    · intro hc
      have hzero : c = 0 := Nat.le_zero.mp hc
      exact ⟨by omega, fun h => by omega⟩
    · rintro ⟨-, hc⟩
      rcases Nat.eq_zero_or_pos c with hzero | hcpos
      · simp [hzero]
      · have := hc hcpos; omega
  · have hno : ¬ (d.bufferSize b).slt (bufferOffset d offset b) = true := by
      rw [slt_iff hsize hoff]; omega
    have hsub : (d.bufferSize b - bufferOffset d offset b).toNat =
        (d.bufferSize b).toNat - (bufferOffset d offset b).toNat :=
      BitVec.toNat_sub_of_le (by simpa [BitVec.le_def] using hle)
    have hdiv := sdiv_toNat (x := d.bufferSize b - bufferOffset d offset b)
      (by rw [hsub]; omega) (d.primStride_lt b)
    have hdivle := Nat.div_le_self (d.bufferSize b - bufferOffset d offset b).toNat
      (d.primStride b).toNat
    simp only [limitPrim, hno, if_false, Bool.false_eq_true]
    rw [imin_toNat hemit (by rw [hdiv]; omega), hdiv, hsub, le_min_iff,
      Nat.le_div_iff_mul_le hpos]
    rcases Nat.eq_zero_or_pos c with hzero | hcpos
    · simp [hzero]
    · simp only [hcpos, forall_const]
      omega

/-- The chain of minima over some buffers keeps, per stream, exactly the numbers
that fit in each of them. -/
theorem le_foldl_limitPrim_iff {bs : List (Fin 4)}
    (hbs : ∀ b ∈ bs, d.buffersWritten b = true ∧ (bufferOffset d offset b).toNat < 2 ^ 31)
    {emit : Fin 4 → Word} (hemit : ∀ s, (emit s).toNat < 2 ^ 31) (s : Fin 4) (c : Nat) :
    c ≤ (bs.foldl (fun emit b => Function.update emit (d.bufferToStream b)
        (limitPrim d offset b (emit (d.bufferToStream b)))) emit s).toNat ↔
      c ≤ (emit s).toNat ∧ ∀ b ∈ bs, d.bufferToStream b = s → 0 < c →
        (bufferOffset d offset b).toNat + c * (d.primStride b).toNat ≤
          (d.bufferSize b).toNat := by
  induction bs generalizing emit with
  | nil => simp
  | cons b bs ih =>
    obtain ⟨hb, hoff⟩ := hbs b List.mem_cons_self
    have hlimit := le_limitPrim_iff hb hoff (hemit (d.bufferToStream b))
    have hnext : ∀ t, (Function.update emit (d.bufferToStream b)
        (limitPrim d offset b (emit (d.bufferToStream b))) t).toNat < 2 ^ 31 := fun t => by
      by_cases ht : t = d.bufferToStream b
      · subst ht
        rw [Function.update_self]
        exact ((hlimit _).mp le_rfl).1.trans_lt (hemit _)
      · rw [Function.update_of_ne ht]; exact hemit t
    rw [List.foldl_cons, ih (fun b' hb' => hbs b' (List.mem_cons_of_mem b hb')) hnext,
      List.forall_mem_cons]
    by_cases hs : s = d.bufferToStream b
    · subst hs
      rw [Function.update_self, hlimit]
      simp [and_assoc]
    · rw [Function.update_of_ne hs]
      simp [Ne.symm hs]

/-- **The emitted primitives are the most that fit**, also behind an offset past the end
of a buffer, where none fits. -/
theorem le_emitPrim_iff_of_lt
    (h : ∀ b, d.buffersWritten b = true → (bufferOffset d offset b).toNat < 2 ^ 31) (s : Fin 4)
    (c : Nat) :
    c ≤ (emitPrim d w offset s).toNat ↔ c ≤ (w.genPrim s).toNat ∧
      (0 < c → Fits d (fun b => (bufferOffset d offset b).toNat) s c) := by
  rw [emitPrim, le_foldl_limitPrim_iff (fun b hb => ⟨Draw.mem_buffers.mp hb,
    h b (Draw.mem_buffers.mp hb)⟩) w.genPrim_lt]
  simp only [Fits, Draw.mem_buffers]
  exact and_congr_right fun _ => ⟨fun hall hc b hb hs => hall b hb hs hc,
    fun hall b hb hs hc => hall hc b hb hs⟩

/-- The offsets the workgroup reads are within the buffers. -/
def Within (d : Draw) (offset : Fin 4 → Word) : Prop :=
  ∀ b, d.buffersWritten b = true → (bufferOffset d offset b).toNat ≤ (d.bufferSize b).toNat

theorem le_emitPrim_iff (h : Within d offset) (s : Fin 4) (c : Nat) :
    c ≤ (emitPrim d w offset s).toNat ↔ c ≤ (w.genPrim s).toNat ∧
      Fits d (fun b => (bufferOffset d offset b).toNat) s c := by
  rw [le_emitPrim_iff_of_lt fun b hb => (h b hb).trans_lt (d.bufferSize_lt b)]
  refine and_congr_right fun _ => ⟨fun hc => ?_, fun hc _ => hc⟩
  rcases Nat.eq_zero_or_pos c with hzero | hpos
  · intro b hb _
    simpa [hzero] using h b hb
  · exact hc hpos

theorem limitPrim_congr {offset' : Fin 4 → Word} {b : Fin 4} (h : offset' b = offset b)
    (emit : Word) : limitPrim d offset' b emit = limitPrim d offset b emit := by
  have hoff : bufferOffset d offset' b = bufferOffset d offset b := by
    rw [bufferOffset, bufferOffset, h]
  rw [limitPrim, limitPrim, hoff]

theorem emitPrim_congr {offset' : Fin 4 → Word} {s : Fin 4}
    (h : ∀ b ∈ d.buffers, d.bufferToStream b = s → offset' b = offset b) :
    emitPrim d w offset' s = emitPrim d w offset s := by
  have hfold : ∀ (bs : List (Fin 4)) (emit emit' : Fin 4 → Word), emit' s = emit s →
      (∀ b ∈ bs, d.bufferToStream b = s → offset' b = offset b) →
      bs.foldl (fun emit b => Function.update emit (d.bufferToStream b)
          (limitPrim d offset' b (emit (d.bufferToStream b)))) emit' s =
        bs.foldl (fun emit b => Function.update emit (d.bufferToStream b)
          (limitPrim d offset b (emit (d.bufferToStream b)))) emit s := by
    intro bs
    induction bs with
    | nil => exact fun _ _ heq _ => heq
    | cons b bs ih =>
      intro emit emit' heq hbs
      refine ih _ _ ?_ fun b' hb' => hbs b' (List.mem_cons_of_mem b hb')
      by_cases hs : s = d.bufferToStream b
      · have hoff := hbs b List.mem_cons_self hs.symm
        subst hs
        simp only [Function.update_self, heq, limitPrim_congr hoff]
      · simp only [Function.update_of_ne hs, heq]
  exact hfold d.buffers _ _ rfl h

end Emit

/-! ## Running a workgroup alone -/

section Run

variable (d : Draw) (w : Workgroup)

/-- Add `v b` to the offset of each buffer of `bs`. -/
def addBuffers (bs : List (Fin 4)) (v : Fin 4 → Word) (m : Cell → Word) : Cell → Word
  | .buffer b => if b ∈ bs then m (.buffer b) + v b else m (.buffer b)
  | c => m c

/-- Add to the totals of each stream of `ss`. -/
def addTotals (ss : List (Fin 4)) (gen emit : Fin 4 → Word) (m : Cell → Word) : Cell → Word
  | .generated s => if s ∈ ss then m (.generated s) + gen s else m (.generated s)
  | .captured s => if s ∈ ss then m (.captured s) + emit s else m (.captured s)
  | c => m c

variable {d w}

theorem addBuffers_cons {b : Fin 4} {bs : List (Fin 4)} (hb : b ∉ bs) (v : Fin 4 → Word)
    (m : Cell → Word) :
    addBuffers bs v (Function.update m (.buffer b) (m (.buffer b) + v b)) =
      addBuffers (b :: bs) v m := by
  funext c
  cases c with
  | buffer b' =>
    by_cases h : b' = b
    · subst h; simp [addBuffers, hb]
    · simp [addBuffers, h]
  | _ => simp [addBuffers]

theorem addBuffers_add (bs : List (Fin 4)) (u v : Fin 4 → Word) (m : Cell → Word) :
    addBuffers bs v (addBuffers bs u m) = addBuffers bs (u + v) m := by
  funext c
  cases c with
  | buffer b =>
    by_cases h : b ∈ bs
    · simp [addBuffers, h, add_assoc]
    · simp [addBuffers, h]
  | _ => rfl

theorem addTotals_cons {s : Fin 4} {ss : List (Fin 4)} (hs : s ∉ ss) (gen emit : Fin 4 → Word)
    (m : Cell → Word) :
    addTotals ss gen emit
        (Function.update (Function.update m (.generated s) (m (.generated s) + gen s))
          (.captured s) (m (.captured s) + emit s)) =
      addTotals (s :: ss) gen emit m := by
  funext c
  cases c with
  | generated s' =>
    by_cases h : s' = s
    · subst h; simp [addTotals, hs]
    · simp [addTotals, h]
  | captured s' =>
    by_cases h : s' = s
    · subst h; simp [addTotals, hs]
    · simp [addTotals, h]
  | _ => simp [addTotals]

theorem reserve_run {bs : List (Fin 4)} (hbs : bs.Nodup) (offset : Fin 4 → Word)
    (m : Cell → Word) :
    (reserve d w bs offset).run m =
      (fun b => if b ∈ bs then m (.buffer b) else offset b,
        addBuffers bs (workgroupBufferSize d w) m) := by
  induction bs generalizing offset m with
  | nil =>
    rw [reserve, Prog.run_ret]
    refine Prod.ext (by simp) (funext fun c => ?_)
    cases c <;> simp [addBuffers]
  | cons b bs ih =>
    rw [List.nodup_cons] at hbs
    rw [reserve, atomicAdd, Prog.run_rmw, ih hbs.2, addBuffers_cons hbs.1]
    refine Prod.ext (funext fun b' => ?_) rfl
    by_cases h : b' = b
    · subst h; simp [hbs.1]
    · simp [h]

theorem giveBack_run {emit : Fin 4 → Word} {bs : List (Fin 4)} (hbs : bs.Nodup)
    (m : Cell → Word) :
    (giveBack d w emit bs).run m = ((), addBuffers bs (-unused d w emit) m) := by
  induction bs generalizing m with
  | nil =>
    refine Prod.ext rfl (funext fun c => ?_)
    cases c <;> simp [giveBack, addBuffers]
  | cons b bs ih =>
    rw [List.nodup_cons] at hbs
    rw [giveBack, ← addBuffers_cons hbs.1]
    split
    · rw [atomicAdd, Prog.run_rmw, ih hbs.2]; rfl
    · next h =>
      -- nothing to return: adding zero
      rw [ih hbs.2, Pi.neg_apply, not_not.mp h, neg_zero, add_zero, Function.update_eq_self]

theorem countPrims_run {emit : Fin 4 → Word} {ss : List (Fin 4)} (hss : ss.Nodup)
    (m : Cell → Word) :
    (countPrims w emit ss).run m = ((), addTotals ss w.genPrim emit m) := by
  induction ss generalizing m with
  | nil =>
    refine Prod.ext rfl (funext fun c => ?_)
    cases c <;> simp [countPrims, addTotals]
  | cons s ss ih =>
    rw [List.nodup_cons] at hss
    rw [countPrims, atomicAdd, Prog.run_rmw, atomicAdd, Prog.run_rmw, ih hss.2,
      ← addTotals_cons hss.1]
    simp

def readOffsets (d : Draw) (m : Cell → Word) (b : Fin 4) : Word :=
  if b ∈ d.buffers then m (.buffer b) else 0

/-- **A workgroup run alone**: it reads the offsets, and each offset ends behind
the primitives written, whatever the reservation was. -/
theorem capture_run (m : Cell → Word) :
    (capture d w).run m =
      (⟨bufferOffset d (readOffsets d m), emitPrim d w (readOffsets d m)⟩,
        addTotals d.streams w.genPrim (emitPrim d w (readOffsets d m))
          (addBuffers d.buffers (fun b =>
            emitPrim d w (readOffsets d m) (d.bufferToStream b) * d.primStride b) m)) := by
  have hnet : workgroupBufferSize d w + -unused d w (emitPrim d w (readOffsets d m)) =
      fun b => emitPrim d w (readOffsets d m) (d.bufferToStream b) * d.primStride b := by
    funext b
    simp only [Pi.add_apply, Pi.neg_apply, unused]
    abel
  rw [capture, Prog.run_bind, reserve_run d.nodup_buffers, Prog.run_bind,
    giveBack_run d.nodup_buffers, Prog.run_bind, countPrims_run d.nodup_streams, addBuffers_add]
  rw [← hnet]
  rfl

end Run

end Psbc.Streamout
