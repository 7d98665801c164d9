import Psbc.Streamout.Capture
import Psbc.Lib.Turnstile
import Psbc.Lib.Additive
import Mathlib.Tactic.Linarith

/-!
# Ordered streamout equals sequential capture

A draw with a bound buffer is a turnstile on the ticket: workgroup `i` waits for
its first primitive id, captures, and hands over the id behind its last input
primitive. A draw without one never waits, and its workgroups only add to the
query totals. Either way an interleaving that records no timeout ends as the
workgroups run one after another (`launch_isSeq`), and what that sequence captures
is the longest prefix of each stream's primitives that fits (`CaptureSeq.prefixes`).
-/

namespace Psbc.Streamout

open Atomic

/-! ## The sequence of captures -/

/-- Workgroup `k` captures from memory `M k`; only the ticket may change besides. -/
structure CaptureSeq (d : Draw) (n : Nat) (ws : Nat → Workgroup) (M : Nat → Cell → Word)
    (out : Nat → BufferInfo) : Prop where
  out_eq : ∀ k < n, out k = ((capture d (ws k)).run (M k)).1
  mem_eq : ∀ k < n, ∀ c ≠ .ticket, M (k + 1) c = ((capture d (ws k)).run (M k)).2 c

def generatedBefore (ws : Nat → Workgroup) (s : Fin 4) (k : Nat) : Nat :=
  ∑ i ∈ Finset.range k, ((ws i).genPrim s).toNat

def capturedBefore (out : Nat → BufferInfo) (s : Fin 4) (k : Nat) : Nat :=
  ∑ i ∈ Finset.range k, ((out i).emitPrim s).toNat

theorem generatedBefore_succ (ws : Nat → Workgroup) (s : Fin 4) (k : Nat) :
    generatedBefore ws s (k + 1) = generatedBefore ws s k + ((ws k).genPrim s).toNat :=
  Finset.sum_range_succ ..

theorem capturedBefore_succ (out : Nat → BufferInfo) (s : Fin 4) (k : Nat) :
    capturedBefore out s (k + 1) = capturedBefore out s k + ((out k).emitPrim s).toNat :=
  Finset.sum_range_succ ..

section Sequence

variable {d : Draw} {n : Nat} {ws : Nat → Workgroup} {M : Nat → Cell → Word}
  {out : Nat → BufferInfo}

abbrev offsets (m : Cell → Word) (b : Fin 4) : Nat := (m (.buffer b)).toNat

/-- Before workgroup `k`: the counters stand behind what was captured, and what was
captured is the longest prefix that fits. -/
structure Captured (d : Draw) (ws : Nat → Workgroup) (M : Nat → Cell → Word)
    (out : Nat → BufferInfo) (k : Nat) : Prop where
  counter : ∀ b, d.buffersWritten b = true → offsets (M k) b =
    offsets (M 0) b + capturedBefore out (d.bufferToStream b) k * (d.primStride b).toNat
  longest : ∀ s c, c ≤ capturedBefore out s k ↔
    c ≤ generatedBefore ws s k ∧ Fits d (offsets (M 0)) s c
  generated : ∀ s, d.streamsWritten s = true → M k (.generated s) =
    M 0 (.generated s) + BitVec.ofNat 32 (generatedBefore ws s k)
  captured : ∀ s, d.streamsWritten s = true → M k (.captured s) =
    M 0 (.captured s) + BitVec.ofNat 32 (capturedBefore out s k)

theorem Captured.fits {k : Nat} (h : Captured d ws M out k) (s : Fin 4) :
    Fits d (offsets (M 0)) s (capturedBefore out s k) := ((h.longest s _).mp le_rfl).2

theorem longest_extend {P : Nat → Prop} (hP : ∀ {c c'}, P c → c' ≤ c → P c') {E G e g : Nat}
    (hE : ∀ c, c ≤ E ↔ c ≤ G ∧ P c) (he : ∀ c, c ≤ e ↔ c ≤ g ∧ P (E + c)) (c : Nat) :
    c ≤ E + e ↔ c ≤ G + g ∧ P c := by
  have hEG := ((hE E).mp le_rfl).1
  have heg := (he e).mp le_rfl
  constructor
  · intro hc
    exact ⟨by omega, hP heg.2 hc⟩
  · rintro ⟨hc, hPc⟩
    by_cases hcE : c ≤ E
    · omega
    · -- one more than `E` would fit, so all `G` are taken already
      have hstop : ¬ E + 1 ≤ G := fun hG => by
        have := (hE (E + 1)).mpr ⟨hG, hP hPc (by omega)⟩
        omega
      have := (he (c - E)).mpr ⟨by omega, by rwa [Nat.add_sub_cancel' (by omega)]⟩
      omega

/-- The offset a workgroup reads is where the captured primitives end; for an
unbound buffer both are zero. -/
theorem Captured.offset_eq {k : Nat} (h : Captured d ws M out k) {b : Fin 4}
    (hb : d.buffersWritten b = true) :
    (bufferOffset d (readOffsets d (M k)) b).toNat =
      offsets (M 0) b + capturedBefore out (d.bufferToStream b) k * (d.primStride b).toNat := by
  refine bufferOffset_eq_of_le ?_ (h.fits _ b hb rfl)
  rw [readOffsets, if_pos (Draw.mem_buffers.mpr hb)]
  exact h.counter b hb

theorem Captured.within {k : Nat} (h : Captured d ws M out k) :
    Within d (readOffsets d (M k)) := fun b hb => by
  rw [h.offset_eq hb]; exact h.fits _ b hb rfl

theorem Captured.emit_iff {k : Nat} (h : Captured d ws M out k) (w : Workgroup) (s : Fin 4)
    (c : Nat) :
    c ≤ (emitPrim d w (readOffsets d (M k)) s).toNat ↔
      c ≤ (w.genPrim s).toNat ∧ Fits d (offsets (M 0)) s (capturedBefore out s k + c) := by
  rw [le_emitPrim_iff h.within]
  refine and_congr_right fun _ => forall_congr' fun b => forall_congr' fun hb =>
    forall_congr' fun hs => ?_
  simp only [h.offset_eq hb, hs, Nat.add_mul, Nat.add_assoc]

theorem CaptureSeq.out_eq' (hseq : CaptureSeq d n ws M out) {k : Nat} (hk : k < n) :
    out k = ⟨bufferOffset d (readOffsets d (M k)), emitPrim d (ws k) (readOffsets d (M k))⟩ := by
  rw [hseq.out_eq k hk, capture_run]

theorem Captured.zero (hm : ∀ b, d.buffersWritten b = true →
    offsets (M 0) b ≤ (d.bufferSize b).toNat) : Captured d ws M out 0 where
  counter b _ := by simp [capturedBefore]
  longest s c := by
    simp only [capturedBefore, generatedBefore, Finset.range_zero, Finset.sum_empty]
    refine ⟨fun hc => ⟨hc, fun b hb _ => ?_⟩, fun h => h.1⟩
    rw [Nat.le_zero.mp hc]
    simpa using hm b hb
  generated s _ := by simp [generatedBefore]
  captured s _ := by simp [capturedBefore]

theorem Captured.succ (hseq : CaptureSeq d n ws M out) {k : Nat} (hk : k < n)
    (h : Captured d ws M out k) : Captured d ws M out (k + 1) := by
  have hout := hseq.out_eq' hk
  have hmem := fun c hc => (hseq.mem_eq k hk c hc).trans (congrFun (congrArg Prod.snd
    (capture_run (d := d) (w := ws k) (M k))) c)
  have hE : ∀ s, capturedBefore out s (k + 1) =
      capturedBefore out s k + (emitPrim d (ws k) (readOffsets d (M k)) s).toNat := fun s => by
    rw [capturedBefore_succ, hout]
  refine ⟨fun b hb => ?_, fun s => ?_, fun s hs => ?_, fun s hs => ?_⟩
  · -- the counter advances by the bytes written, which fit in the buffer
    have hfits := ((h.emit_iff (ws k) (d.bufferToStream b) _).mp le_rfl).2 b hb rfl
    have hsize := d.bufferSize_lt b
    have hb' := Draw.mem_buffers.mpr hb
    have hcount : (M k (.buffer b)).toNat = _ := h.counter b hb
    rw [Nat.add_mul] at hfits
    have hmul := BitVec.toNat_mul (emitPrim d (ws k) (readOffsets d (M k)) (d.bufferToStream b))
      (d.primStride b)
    rw [Nat.mod_eq_of_lt (by omega)] at hmul
    rw [offsets, hmem _ (by simp)]
    simp only [addTotals, addBuffers, if_pos hb']
    rw [BitVec.toNat_add, hmul, Nat.mod_eq_of_lt (by omega), hE, Nat.add_mul]
    omega
  · simp only [hE, generatedBefore_succ]
    exact longest_extend (fun hc => hc.mono) (h.longest s) (h.emit_iff (ws k) s)
  · rw [hmem _ (by simp)]
    simp only [addTotals, addBuffers, if_pos (Draw.mem_streams.mpr hs), h.generated s hs,
      generatedBefore_succ, BitVec.ofNat_add, BitVec.ofNat_toNat, BitVec.setWidth_eq, add_assoc]
  · rw [hmem _ (by simp)]
    simp only [addTotals, addBuffers, if_pos (Draw.mem_streams.mpr hs), h.captured s hs,
      hE, BitVec.ofNat_add, BitVec.ofNat_toNat, BitVec.setWidth_eq, add_assoc]

theorem CaptureSeq.captured (hseq : CaptureSeq d n ws M out)
    (hm : ∀ b, d.buffersWritten b = true → offsets (M 0) b ≤ (d.bufferSize b).toNat) :
    ∀ k ≤ n, Captured d ws M out k
  | 0, _ => Captured.zero hm
  | k + 1, hk => (hseq.captured hm k (by omega)).succ hseq hk

end Sequence

/-! ## The interleavings of a draw -/

section Draw

variable {d : Draw} {n N : Nat} {ws : Nat → Workgroup} {m : Cell → Word}

instance : Nontrivial Word := ⟨0, 1, by decide⟩

theorem ticketWait_eq_wait (orderedId : Word) (polls : Nat) :
    ticketWait orderedId polls = wait .ticket .timeout (· + 1) orderedId polls := by
  induction polls with
  | zero => rfl
  | succ polls ih =>
    have hpoll : (fun x : Word => x + 0) = id := funext fun x => add_zero x
    rw [ticketWait, atomicAdd, hpoll, wait, ih]

theorem reserve_avoids {c : Cell} (hc : ∀ b, c ≠ .buffer b) (w : Workgroup) (bs : List (Fin 4))
    (offset : Fin 4 → Word) : (reserve d w bs offset).Avoids c := by
  induction bs generalizing offset with
  | nil => trivial
  | cons b bs ih => exact ⟨Ne.symm (hc b), fun _ => ih _⟩

theorem giveBack_avoids {c : Cell} (hc : ∀ b, c ≠ .buffer b) (w : Workgroup)
    (emit : Fin 4 → Word) (bs : List (Fin 4)) : (giveBack d w emit bs).Avoids c := by
  induction bs with
  | nil => trivial
  | cons b bs ih =>
    rw [giveBack]
    split
    · exact ⟨Ne.symm (hc b), fun _ => ih⟩
    · exact ih

theorem countPrims_avoids {c : Cell} (hg : ∀ s, c ≠ .generated s) (hc : ∀ s, c ≠ .captured s)
    (w : Workgroup) (emit : Fin 4 → Word) (ss : List (Fin 4)) :
    (countPrims w emit ss).Avoids c := by
  induction ss with
  | nil => trivial
  | cons s ss ih => exact ⟨Ne.symm (hg s), fun _ => ⟨Ne.symm (hc s), fun _ => ih⟩⟩

/-- A capture leaves the ticket and the timeout count alone. -/
theorem capture_avoids {c : Cell} (hb : ∀ b, c ≠ .buffer b) (hg : ∀ s, c ≠ .generated s)
    (hc : ∀ s, c ≠ .captured s) (w : Workgroup) : (capture d w).Avoids c :=
  (reserve_avoids hb w _ _).bind fun _ => (giveBack_avoids hb w _ _).bind fun _ =>
    (countPrims_avoids hg hc w _ _).bind fun _ => trivial

/-- The first primitive id of workgroup `i`, and the number of primitives for `n`. -/
def firstId (ws : Nat → Workgroup) (i : Nat) : Nat :=
  ∑ j ∈ Finset.range i, (ws j).numInputPrims.toNat

theorem firstId_succ (ws : Nat → Workgroup) (i : Nat) :
    firstId ws (i + 1) = firstId ws i + (ws i).numInputPrims.toNat := Finset.sum_range_succ ..

theorem Tiles.firstId_lt (h : Tiles n ws N) {i j : Nat} (hij : i < j) (hj : j ≤ n) :
    firstId ws i < firstId ws j := by
  induction j with
  | zero => omega
  | succ j ih =>
    have hpos := h.nonempty j (by omega)
    rw [firstId_succ]
    rcases Nat.lt_succ_iff_lt_or_eq.mp hij with hlt | rfl
    · have := ih hlt (by omega); omega
    · omega

/-- Ranges that are not empty: there are at most as many workgroups as primitives. -/
theorem Tiles.le_firstId (h : Tiles n ws N) {i : Nat} (hi : i ≤ n) : i ≤ firstId ws i := by
  induction i with
  | zero => omega
  | succ i ih =>
    have hpos := h.nonempty i (by omega)
    have := ih (by omega)
    rw [firstId_succ]; omega

theorem Tiles.firstId_le (h : Tiles n ws N) {i : Nat} (hi : i ≤ n) : firstId ws i ≤ N := by
  rw [← h.total]
  rcases hi.lt_or_eq with hlt | rfl
  · exact (h.firstId_lt hlt le_rfl).le
  · exact le_rfl

/-- The ticket as a turnstile. -/
def turnstile (d : Draw) (h : Tiles n ws N) (hN : N < 2 ^ 32) : Turnstile Cell Word BufferInfo where
  n := n
  turnCell := .ticket
  faultCell := .timeout
  bump := (· + 1)
  bound := 2 ^ 16
  bound_pos := by decide
  turn i := BitVec.ofNat 32 (firstId ws i)
  body i := capture d (ws i)
  cells_ne := by simp
  turn_inj i hi j hj hij := by
    have hi' := h.firstId_le hi.le
    have hj' := h.firstId_le hj.le
    have heq : firstId ws i = firstId ws j := by
      have := congrArg BitVec.toNat hij
      simp only [BitVec.toNat_ofNat] at this
      rwa [Nat.mod_eq_of_lt (by omega), Nat.mod_eq_of_lt (by omega)] at this
    rcases Nat.lt_trichotomy i j with hlt | rfl | hgt
    · exact absurd heq (h.firstId_lt hlt hj.le).ne
    · rfl
    · exact absurd heq.symm (h.firstId_lt hgt hi.le).ne
  body_turn i := capture_avoids (by simp) (by simp) (by simp) _
  body_fault i := capture_avoids (by simp) (by simp) (by simp) _

theorem streamoutBufferInfo_eq_thread (h : Tiles n ws N) (hN : N < 2 ^ 32)
    (hv : d.anyBufferValid = true) {i : Nat} (hi : i < n) :
    (turnstile d h hN).thread i = streamoutBufferInfo d (ws i) := by
  have hfirst : (ws i).primitiveId = BitVec.ofNat 32 (firstId ws i) := by
    rw [firstId, ← h.first i hi, BitVec.ofNat_toNat, BitVec.setWidth_eq]
  have hnext : orderedNext (ws i) = BitVec.ofNat 32 (firstId ws (i + 1)) := by
    rw [orderedNext, hfirst, firstId_succ, BitVec.ofNat_add, BitVec.ofNat_toNat,
      BitVec.setWidth_eq]
  simp only [streamoutBufferInfo, hv, if_true, ticketWait_eq_wait, hnext]
  rw [hfirst]
  rfl

theorem launch_eq_start (h : Tiles n ws N) (hN : N < 2 ^ 32) (hv : d.anyBufferValid = true)
    (m : Cell → Word) : launch d n ws m = (turnstile d h hN).start m := by
  simp only [launch, Turnstile.start]
  congr
  funext i
  exact (streamoutBufferInfo_eq_thread h hN hv i.isLt).symm

/-- At most `N < 2 ^ 32` timeouts cannot bring the count back to zero. -/
theorem timeouts_eq_zero {t : Nat} (ht : t < 2 ^ 32) (h : (0 : Word) = (· + 1)^[t] 0) :
    t = 0 := by
  have hcount : ∀ t, (· + 1)^[t] (0 : Word) = BitVec.ofNat 32 t := fun t => by
    induction t with
    | zero => rfl
    | succ t ih => rw [Function.iterate_succ_apply', ih, BitVec.ofNat_add]; rfl
  rw [hcount] at h
  have := congrArg BitVec.toNat h
  rw [BitVec.toNat_ofNat, Nat.mod_eq_of_lt ht] at this
  exact this.symm

/-! ### Draws without a bound buffer -/

/-- The buffer offsets, which such a draw does not move. -/
def IsBuffer (c : Cell) : Prop := ∃ b, c = .buffer b

theorem reserve_adds {w : Workgroup} {bs : List (Fin 4)}
    (hbs : ∀ b ∈ bs, d.bufferValid b = false) (offset : Fin 4 → Word) :
    Adds IsBuffer m (reserve d w bs offset)
      (fun b => if b ∈ bs then m (.buffer b) else offset b) 0 := by
  induction bs generalizing offset with
  | nil =>
    have hret : Adds IsBuffer m (.ret offset) offset 0 := .ret offset
    simpa [reserve] using hret
  | cons b bs ih =>
    have hsize : workgroupBufferSize d w b = 0 := by
      simp [workgroupBufferSize, hbs b List.mem_cons_self]
    refine .peek ⟨b, rfl⟩ (by simp [hsize]) ?_
    convert ih (fun b' hb' => hbs b' (List.mem_cons_of_mem b hb'))
      (Function.update offset b (m (.buffer b))) using 2 with b'
    by_cases h : b' = b
    · subst h; simp
    · simp [h]

theorem giveBack_eq_ret {w : Workgroup} {emit : Fin 4 → Word} {bs : List (Fin 4)}
    (h : ∀ b ∈ bs, unused d w emit b = 0) : giveBack d w emit bs = .ret () := by
  induction bs with
  | nil => rfl
  | cons b bs ih =>
    rw [giveBack, if_neg (not_not.mpr (h b List.mem_cons_self)),
      ih fun b' hb' => h b' (List.mem_cons_of_mem b hb')]

theorem countPrims_adds (w : Workgroup) (emit : Fin 4 → Word) (ss : List (Fin 4)) :
    ∃ δ, Adds IsBuffer m (countPrims w emit ss) () δ := by
  induction ss with
  | nil => exact ⟨0, .ret ()⟩
  | cons s ss ih =>
    obtain ⟨δ, hδ⟩ := ih
    exact ⟨_, .add (w.genPrim s) (by rintro ⟨b, hb⟩; cases hb) (fun _ => rfl) fun _ =>
      .add (emit s) (by rintro ⟨b, hb⟩; cases hb) (fun _ => rfl) fun _ => hδ⟩

/-- Without a bound buffer nothing of a stream with buffers is emitted. -/
theorem unused_eq_zero (hv : d.anyBufferValid = false) (w : Workgroup) {offset : Fin 4 → Word}
    {b : Fin 4} (hb : b ∈ d.buffers) : unused d w (emitPrim d w offset) b = 0 := by
  have hall : ∀ b ∈ d.buffers, d.bufferValid b = false := by
    simpa [Draw.anyBufferValid] using hv
  have hsize : (d.bufferSize b).toNat = 0 := Draw.bufferSize_eq_zero (by simp [hall b hb])
  have hwithin : Within d offset := fun b' hb' => by
    simp [bufferOffset, hall b' (Draw.mem_buffers.mpr hb')]
  have hfits := ((le_emitPrim_iff (w := w) hwithin (d.bufferToStream b) _).mp le_rfl).2 b
    (Draw.mem_buffers.mp hb) rfl
  have hpos := Draw.primStride_pos (Draw.mem_buffers.mp hb)
  have hzero : emitPrim d w offset (d.bufferToStream b) = 0 := by
    apply BitVec.eq_of_toNat_eq
    rw [hsize] at hfits
    rcases Nat.mul_eq_zero.mp (by simpa using Nat.le_of_add_left_le hfits) with h | h
    · simpa using h
    · omega
  simp [unused, workgroupBufferSize, hall b hb, hzero]

theorem capture_adds (hv : d.anyBufferValid = false) (w : Workgroup) :
    ∃ out δ, Adds IsBuffer m (capture d w) out δ := by
  have hall : ∀ b ∈ d.buffers, d.bufferValid b = false := by
    simpa [Draw.anyBufferValid] using hv
  obtain ⟨δ, hδ⟩ := countPrims_adds (m := m) w
    (emitPrim d w fun b => if b ∈ d.buffers then m (.buffer b) else 0) d.streams
  refine ⟨⟨bufferOffset d fun b => if b ∈ d.buffers then m (.buffer b) else 0,
    emitPrim d w fun b => if b ∈ d.buffers then m (.buffer b) else 0⟩, 0 + (δ + 0),
    (reserve_adds hall fun _ => 0).bind ?_⟩
  rw [giveBack_eq_ret fun b hb => unused_eq_zero hv w hb, Prog.ret_bind]
  exact hδ.bind (.ret _)

theorem streamoutBufferInfo_of_not_valid (hv : d.anyBufferValid = false) (w : Workgroup) :
    streamoutBufferInfo d w = (capture d w).bind .ret := by
  simp [streamoutBufferInfo, hv]

/-! ### The main results -/

/-- **Every interleaving that records no timeout ends as the workgroups run one
after another in primitive order.** -/
theorem launch_isSeq (h : Tiles n ws N) (hN : N < 2 ^ 32) (hticket : m .ticket = 0)
    (htimeout : m .timeout = 0) (sched : List (Fin n))
    (hdone : ((launch d n ws m).exec sched).Finished)
    (hend : ((launch d n ws m).exec sched).mem .timeout = 0) :
    ((launch d n ws m).exec sched).IsSeq (fun i => streamoutBufferInfo d (ws i)) m := by
  cases hv : d.anyBufferValid with
  | true =>
    rw [launch_eq_start h hN hv] at hdone hend ⊢
    have h0 : m .ticket = (turnstile d h hN).turn 0 := hticket
    have hseq := (turnstile d h hN).exec_isSeq h0 sched hdone fun t ht hcount => ?_
    · exact hseq.congr fun i hi => streamoutBufferInfo_eq_thread h hN hv hi
    · have htn := h.le_firstId le_rfl
      have hnN := h.firstId_le le_rfl
      refine timeouts_eq_zero (show t < 2 ^ 32 from ?_) (hend.symm.trans (hcount.trans ?_))
      · exact (show t ≤ n from ht).trans_lt (by omega)
      · change (· + 1)^[t] (m .timeout) = _
        rw [htimeout]
  | false =>
    have hadds : ∀ i, ∃ out δ, Adds IsBuffer m (streamoutBufferInfo d (ws i)) out δ := fun i => by
      obtain ⟨out, δ, hδ⟩ := capture_adds (m := m) hv (ws i)
      rw [streamoutBufferInfo_of_not_valid hv]
      exact ⟨out, δ + 0, hδ.bind (.ret out)⟩
    choose out δ hδ using hadds
    exact exec_isSeq_of_adds (fun i _ => hδ i) sched hdone

theorem captureSeq_seqMem (h : Tiles n ws N) (hN : N < 2 ^ 32) (hticket : m .ticket = 0) :
    CaptureSeq d n ws (seqMem (fun i => streamoutBufferInfo d (ws i)) m)
      (seqOut (fun i => streamoutBufferInfo d (ws i)) m) := by
  cases hv : d.anyBufferValid with
  | true =>
    have h0 : m .ticket = (turnstile d h hN).turn 0 := hticket
    have hmem : ∀ k ≤ n, seqMem (fun i => streamoutBufferInfo d (ws i)) m k =
        (turnstile d h hN).critMem m k := fun k hk => by
      rw [← Turnstile.seqMem_thread h0]
      exact seqMem_congr (fun i hi => (streamoutBufferInfo_eq_thread h hN hv (by omega)).symm) m
    have hrun : ∀ k < n, (streamoutBufferInfo d (ws k)).run ((turnstile d h hN).critMem m k) = _ :=
      fun k hk => by
        rw [← streamoutBufferInfo_eq_thread h hN hv hk,
          Turnstile.thread_run (Turnstile.critMem_turn h0 k)]
    refine ⟨fun k hk => ?_, fun k hk c hc => ?_⟩
    · rw [seqOut, hmem k hk.le, hrun k hk]; rfl
    · rw [hmem (k + 1) hk, hmem k hk.le]
      exact Function.update_of_ne hc _ _
  | false =>
    refine ⟨fun k _ => ?_, fun k _ c _ => ?_⟩
    · simp only [seqOut, streamoutBufferInfo_of_not_valid hv, Prog.run_bind, Prog.run_ret]
    · simp only [seqMem, streamoutBufferInfo_of_not_valid hv, Prog.run_bind, Prog.run_ret]

/-- The bytes of buffer `b` that workgroup `i` captures: from its offset, whole
primitives. -/
def rangeStart (out : Nat → BufferInfo) (b : Fin 4) (i : Nat) : Nat :=
  ((out i).bufferOffset b).toNat

def rangeEnd (d : Draw) (out : Nat → BufferInfo) (b : Fin 4) (i : Nat) : Nat :=
  rangeStart out b i + ((out i).emitPrim (d.bufferToStream b)).toNat * (d.primStride b).toNat

/-- What capturing the primitives one after another in id order means, from the
memory `m` to the memory `m'`: in each buffer the ranges follow one another from the
initial offset and stay inside, each stream captures the longest prefix of its
primitives that fits whole in all its buffers, and the counters and totals say so. -/
structure SequentialCapture (d : Draw) (n : Nat) (ws : Nat → Workgroup) (m m' : Cell → Word)
    (out : Nat → BufferInfo) : Prop where
  first : ∀ b, d.buffersWritten b = true → 0 < n → rangeStart out b 0 = offsets m b
  contiguous : ∀ b, d.buffersWritten b = true → ∀ i, i + 1 < n →
    rangeStart out b (i + 1) = rangeEnd d out b i
  ordered : ∀ b, d.buffersWritten b = true → ∀ i j, i < j → j < n →
    rangeEnd d out b i ≤ rangeStart out b j
  inside : ∀ b, d.buffersWritten b = true → ∀ i < n,
    rangeEnd d out b i ≤ (d.bufferSize b).toNat
  longest : ∀ s, ∀ k ≤ n, IsGreatest
    {c | c ≤ generatedBefore ws s k ∧ Fits d (offsets m) s c} (capturedBefore out s k)
  counter : ∀ b, d.buffersWritten b = true → offsets m' b =
    offsets m b + capturedBefore out (d.bufferToStream b) n * (d.primStride b).toNat
  generated : ∀ s, d.streamsWritten s = true →
    m' (.generated s) = m (.generated s) + BitVec.ofNat 32 (generatedBefore ws s n)
  captured : ∀ s, d.streamsWritten s = true →
    m' (.captured s) = m (.captured s) + BitVec.ofNat 32 (capturedBefore out s n)

theorem capturedBefore_mono (out : Nat → BufferInfo) (s : Fin 4) {i j : Nat} (h : i ≤ j) :
    capturedBefore out s i ≤ capturedBefore out s j := by
  induction j with
  | zero => rw [Nat.le_zero.mp h]
  | succ j ih =>
    rcases Nat.le_succ_iff.mp h with hle | rfl
    · rw [capturedBefore_succ]; have := ih hle; omega
    · exact le_rfl

theorem CaptureSeq.sequential {M : Nat → Cell → Word} {out : Nat → BufferInfo}
    (hseq : CaptureSeq d n ws M out)
    (hm : ∀ b, d.buffersWritten b = true → offsets (M 0) b ≤ (d.bufferSize b).toNat) :
    SequentialCapture d n ws (M 0) (M n) out := by
  have hinv := hseq.captured hm
  have hstart : ∀ b, d.buffersWritten b = true → ∀ i < n, rangeStart out b i = offsets (M 0) b +
      capturedBefore out (d.bufferToStream b) i * (d.primStride b).toNat := fun b hb i hi => by
    rw [rangeStart, hseq.out_eq' hi]
    exact (hinv i hi.le).offset_eq hb
  have hend : ∀ b, d.buffersWritten b = true → ∀ i < n, rangeEnd d out b i = offsets (M 0) b +
      capturedBefore out (d.bufferToStream b) (i + 1) * (d.primStride b).toNat :=
    fun b hb i hi => by
      rw [rangeEnd, hstart b hb i hi, capturedBefore_succ, Nat.add_mul, Nat.add_assoc]
  refine ⟨fun b hb hn => ?_, fun b hb i hi => ?_, fun b hb i j hij hj => ?_, fun b hb i hi => ?_,
    fun s k hk => ?_, (hinv n le_rfl).counter, (hinv n le_rfl).generated, (hinv n le_rfl).captured⟩
  · rw [hstart b hb 0 hn]; simp [capturedBefore]
  · rw [hstart b hb _ hi, hend b hb i (by omega)]
  · rw [hend b hb i (by omega), hstart b hb j hj]
    exact Nat.add_le_add_left (Nat.mul_le_mul_right _ (capturedBefore_mono out _ hij)) _
  · rw [hend b hb i hi]
    exact (hinv (i + 1) hi).fits _ b hb rfl
  · have hlongest := (hinv k hk).longest s
    exact ⟨(hlongest _).mp le_rfl, fun c hc => (hlongest c).mpr hc⟩

/-- **Ordered streamout equals sequential capture.** Whatever the interleaving of
the workgroups' atomic operations, if no timeout is recorded the draw ends as if
the workgroups had run one after another in primitive order, and captures what a
sequential capture captures. -/
theorem ordered_streamout_sequential (d : Draw) (n N : Nat) (ws : Nat → Workgroup)
    (m : Cell → Word) (htiles : Tiles n ws N) (hN : N < 2 ^ 32) (hticket : m .ticket = 0)
    (htimeout : m .timeout = 0)
    (hm : ∀ b, d.buffersWritten b = true → offsets m b ≤ (d.bufferSize b).toNat)
    (sched : List (Fin n)) (hdone : ((launch d n ws m).exec sched).Finished)
    (hend : ((launch d n ws m).exec sched).mem .timeout = 0) :
    ((launch d n ws m).exec sched).IsSeq (fun i => streamoutBufferInfo d (ws i)) m ∧
      ∃ out : Nat → BufferInfo,
        (∀ i : Fin n, ((launch d n ws m).exec sched).progs i = .ret (out i)) ∧
        SequentialCapture d n ws m ((launch d n ws m).exec sched).mem out := by
  have hseq := launch_isSeq htiles hN hticket htimeout sched hdone hend
  refine ⟨hseq, seqOut (fun i => streamoutBufferInfo d (ws i)) m, hseq.progs, ?_⟩
  rw [hseq.mem]
  exact (captureSeq_seqMem htiles hN hticket).sequential hm

/-- Two workgroups of three points, one buffer with room for five: the second
workgroup polls before and while the first one captures. -/
def twoGroups : Draw where
  buffersWritten b := b = 0
  streamsWritten s := s = 0
  bufferToStream _ := 0
  stride _ := 4
  numVertPerPrim := 1
  bufferSize _ := 20
  stride_pos := by decide
  numVert_pos := by decide
  numVert_le := by decide
  bufferSize_lt := by decide

def threePoints (i : Nat) : Workgroup := ⟨3 * BitVec.ofNat 32 i, 3, fun _ => 3, by decide⟩

def twoGroupsSchedule : List (Fin 2) := [1, 0, 1, 0, 0, 1, 0, 0, 0] ++ [1, 1, 1, 1, 1, 1]

theorem ordered_streamout_sequential_twoGroups :
    ((launch twoGroups 2 threePoints fun _ => 0).exec twoGroupsSchedule).IsSeq
        (fun i => streamoutBufferInfo twoGroups (threePoints i)) (fun _ => 0) ∧
      ∃ out : Nat → BufferInfo,
        (∀ i : Fin 2, ((launch twoGroups 2 threePoints fun _ => 0).exec
          twoGroupsSchedule).progs i = .ret (out i)) ∧
        SequentialCapture twoGroups 2 threePoints (fun _ => 0)
          ((launch twoGroups 2 threePoints fun _ => 0).exec twoGroupsSchedule).mem out :=
  ordered_streamout_sequential twoGroups 2 6 threePoints (fun _ => 0)
    ⟨by decide, by decide, by decide⟩ (by decide) rfl rfl (by decide) twoGroupsSchedule
    (by decide +kernel) (by decide +kernel)

end Draw

end Psbc.Streamout
