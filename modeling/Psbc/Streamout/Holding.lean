import Psbc.Streamout.Ordered

/-!
# What a workgroup holds of the counters

A workgroup that captures out of turn reserves in one buffer after another, works out what
it can emit, and gives the rest back. `Thread` says where it stands, with a ghost state: the
offsets it has read, the buffers it still has to reserve in, and how much of each counter is
its own. `Thread.step_cases` is what one operation does to it.
-/

namespace Psbc.Streamout

open Atomic

/-! ## The code behind the wait -/

section Code

variable (d : Draw) (w : Workgroup)

/-- What a workgroup that has read `offset` returns. -/
def settled (offset : Fin 4 → Word) : BufferInfo := ⟨bufferOffset d offset, emitPrim d w offset⟩

def handOver (info : BufferInfo) : Prog Cell Word BufferInfo :=
  if d.anyBufferValid then .rmw .ticket (fun _ => orderedNext w) fun _ => .ret info
  else .ret info

/-- Everything behind the last reservation. -/
def settle (offset : Fin 4 → Word) : Prog Cell Word BufferInfo :=
  (giveBack d w (emitPrim d w offset) d.buffers).bind fun _ =>
    (countPrims w (emitPrim d w offset) d.streams).bind fun _ => handOver d w (settled d w offset)

/-- A workgroup that still has to reserve in the buffers `todo`. -/
def reserving (todo : List (Fin 4)) (offset : Fin 4 → Word) : Prog Cell Word BufferInfo :=
  (reserve d w todo offset).bind (settle d w)

theorem streamoutBufferInfo_eq_reserving : streamoutBufferInfo d w =
    (if d.anyBufferValid then ticketWait w.primitiveId (2 ^ 16) else .ret ()).bind fun _ =>
      reserving d w d.buffers fun _ => 0 := by
  simp only [streamoutBufferInfo, capture, reserving, Prog.bind_assoc, Prog.ret_bind]
  rfl

/-- The bytes a workgroup reserves in buffer `b`. -/
def asked (b : Fin 4) : Nat :=
  if d.bufferValid b then (w.genPrim (d.bufferToStream b)).toNat * (d.primStride b).toNat else 0

end Code

/-! ## A workgroup's part of the counters -/

section Thread

variable {d : Draw} {w : Workgroup} {offset : Fin 4 → Word}

theorem bufferOffset_lt (h : ∀ b, (offset b).toNat < 2 ^ 31) (b : Fin 4) :
    (bufferOffset d offset b).toNat < 2 ^ 31 := by
  unfold bufferOffset
  split
  · exact h b
  · decide

theorem le_emitPrim_iff_of_small (h : ∀ b, (offset b).toNat < 2 ^ 31) (s : Fin 4) (c : Nat) :
    c ≤ (emitPrim d w offset s).toNat ↔ c ≤ (w.genPrim s).toNat ∧
      (0 < c → Fits d (fun b => (bufferOffset d offset b).toNat) s c) :=
  le_emitPrim_iff_of_lt (fun b _ => bufferOffset_lt h b) s c

theorem emitPrim_le_genPrim (h : ∀ b, (offset b).toNat < 2 ^ 31) (s : Fin 4) :
    (emitPrim d w offset s).toNat ≤ (w.genPrim s).toNat :=
  ((le_emitPrim_iff_of_small h s _).mp le_rfl).1

theorem fits_of_emitPrim_pos (h : ∀ b, (offset b).toNat < 2 ^ 31) {s : Fin 4}
    (hpos : 0 < (emitPrim d w offset s).toNat) :
    Fits d (fun b => (bufferOffset d offset b).toNat) s (emitPrim d w offset s).toNat :=
  ((le_emitPrim_iff_of_small h s _).mp le_rfl).2 hpos

theorem emitPrim_mul_le_asked (h : ∀ b, (offset b).toNat < 2 ^ 31) {b : Fin 4}
    (hb : b ∈ d.buffers) :
    (emitPrim d w offset (d.bufferToStream b)).toNat * (d.primStride b).toNat ≤ asked d w b := by
  unfold asked
  split
  · exact Nat.mul_le_mul_right _ (emitPrim_le_genPrim h _)
  · next hv =>
    -- nothing fits in a buffer of size zero
    rcases Nat.eq_zero_or_pos (emitPrim d w offset (d.bufferToStream b)).toNat with h0 | hpos
    · simp [h0]
    · have hfits := fits_of_emitPrim_pos h hpos b (Draw.mem_buffers.mp hb) rfl
      rw [Draw.bufferSize_eq_zero hv] at hfits
      omega

theorem workgroupBufferSize_toNat {b : Fin 4} (h : asked d w b < 2 ^ 32) :
    (workgroupBufferSize d w b).toNat = asked d w b := by
  unfold asked at h
  unfold workgroupBufferSize asked
  split
  · next hv =>
    rw [if_pos hv] at h
    rw [BitVec.toNat_mul, Nat.mod_eq_of_lt h]
  · rfl

theorem unused_toNat (hsmall : ∀ b, (offset b).toNat < 2 ^ 31) {b : Fin 4} (hb : b ∈ d.buffers)
    (h : asked d w b < 2 ^ 32) : (unused d w (emitPrim d w offset) b).toNat = asked d w b -
      (emitPrim d w offset (d.bufferToStream b)).toNat * (d.primStride b).toNat := by
  have hle := emitPrim_mul_le_asked (w := w) hsmall hb
  have hwritten : (emitPrim d w offset (d.bufferToStream b) * d.primStride b).toNat =
      (emitPrim d w offset (d.bufferToStream b)).toNat * (d.primStride b).toNat := by
    rw [BitVec.toNat_mul, Nat.mod_eq_of_lt (by omega)]
  have hsize := workgroupBufferSize_toNat h
  rw [unused, BitVec.toNat_sub_of_le, hsize, hwritten]
  rw [BitVec.le_def, hsize, hwritten]
  exact hle

theorem giveBack_owes {a : BufferInfo} {emit : Fin 4 → Word} {p : Prog Cell Word BufferInfo}
    (hp : ∀ u : Cell → Word, (∀ b, u (.buffer b) = 0) → Owes IsBuffer a u p) {bs : List (Fin 4)}
    (hbs : bs.Nodup) {u : Cell → Word}
    (hu : ∀ b, u (.buffer b) = if b ∈ bs then unused d w emit b else 0) :
    Owes IsBuffer a u ((giveBack d w emit bs).bind fun _ => p) := by
  induction bs generalizing u with
  | nil => exact hp u (by simpa using hu)
  | cons b bs ih =>
    rw [List.nodup_cons] at hbs
    rw [giveBack]
    split
    · refine .pay ⟨b, rfl⟩ (fun x => ?_) fun x => ih hbs.2 fun b' => ?_
      · rw [hu b, if_pos List.mem_cons_self, sub_eq_add_neg]
      · by_cases h : b' = b
        · subst h; simp [hbs.1]
        · rw [Function.update_of_ne (by simpa using h), hu b']
          simp [h]
    · next hzero =>
      refine ih hbs.2 fun b' => ?_
      by_cases h : b' = b
      · subst h; rw [hu b', if_pos List.mem_cons_self, if_neg hbs.1, not_not.mp hzero]
      · rw [hu b']; simp [h]

theorem settle_owes {u : Cell → Word} (hu : ∀ b, u (.buffer b) =
    if b ∈ d.buffers then unused d w (emitPrim d w offset) b else 0) :
    Owes IsBuffer (settled d w offset) u (settle d w offset) := by
  refine giveBack_owes (fun u hu => ?_) d.nodup_buffers hu
  refine Owes.bind_of_avoids (fun c hc => ?_) fun _ => ?_
  · obtain ⟨b, rfl⟩ := hc
    exact countPrims_avoids (by simp) (by simp) w _ _
  · have hdone : ∀ c, IsBuffer c → u c = 0 := by rintro c ⟨b, rfl⟩; exact hu b
    unfold handOver
    split
    · exact .other (by rintro ⟨b, hb⟩; cases hb) fun _ => .done hdone
    · exact .done hdone

/-- The ghost state of a workgroup: the offsets it has read, the buffers it has still to
reserve in, and its part of each counter. -/
structure Ghost where
  offset : Fin 4 → Word
  todo : List (Fin 4)
  held : Fin 4 → Nat

/-- Before the last reservation: `q` is what is left of the wait, and the workgroup holds
all it asked for in the buffers it has reserved in. -/
structure Reserving (d : Draw) (w : Workgroup) (g : Ghost) (q : Prog Cell Word Unit) : Prop where
  avoids : ∀ c, IsBuffer c → q.Avoids c
  waits : q = .ret () ∨ g.todo = d.buffers
  suffix : g.todo <:+ d.buffers
  held : ∀ b ∈ d.buffers, g.held b = if b ∈ g.todo then 0 else asked d w b

/-- Behind it: the workgroup holds what it captures and what it owes. -/
structure Settling (d : Draw) (w : Workgroup) (g : Ghost) (u : Cell → Word)
    (p : Prog Cell Word BufferInfo) : Prop where
  todo : g.todo = []
  owes : Owes IsBuffer (settled d w g.offset) u p
  held : ∀ b ∈ d.buffers, g.held b =
    (emitPrim d w g.offset (d.bufferToStream b)).toNat * (d.primStride b).toNat +
      (u (.buffer b)).toNat
  le : ∀ b ∈ d.buffers, g.held b ≤ asked d w b

inductive Thread (d : Draw) (w : Workgroup) (g : Ghost) : Prog Cell Word BufferInfo → Prop
  | before {q : Prog Cell Word Unit} (h : Reserving d w g q) :
      Thread d w g (q.bind fun _ => reserving d w g.todo g.offset)
  | after {u : Cell → Word} {p : Prog Cell Word BufferInfo} (h : Settling d w g u p) :
      Thread d w g p

variable {g : Ghost} {p : Prog Cell Word BufferInfo}

theorem Thread.held_of_mem (h : Thread d w g p) {b : Fin 4} (hb : b ∈ d.buffers)
    (htodo : b ∈ g.todo) : g.held b = 0 := by
  cases h with
  | before h => rw [h.held b hb, if_pos htodo]
  | after h => rw [h.todo] at htodo; exact absurd htodo List.not_mem_nil

/-- Where a workgroup has reserved, it holds all it asked for, or it has read all offsets
and may have given something back. -/
theorem Thread.held_cases (h : Thread d w g p) {b : Fin 4} (hb : b ∈ d.buffers)
    (htodo : b ∉ g.todo) : g.held b = asked d w b ∨ g.todo = [] ∧
      (emitPrim d w g.offset (d.bufferToStream b)).toNat * (d.primStride b).toNat ≤ g.held b ∧
        g.held b ≤ asked d w b := by
  cases h with
  | before h => exact .inl (by rw [h.held b hb, if_neg htodo])
  | after h => exact .inr ⟨h.todo, by rw [h.held b hb]; omega, h.le b hb⟩

theorem Thread.held_bounds (h : Thread d w g p) (hsmall : ∀ b, (g.offset b).toNat < 2 ^ 31)
    {b : Fin 4} (hb : b ∈ d.buffers) (htodo : b ∉ g.todo) :
    (emitPrim d w g.offset (d.bufferToStream b)).toNat * (d.primStride b).toNat ≤ g.held b ∧
      g.held b ≤ asked d w b := by
  rcases h.held_cases hb htodo with heq | ⟨-, hbounds⟩
  · exact ⟨heq ▸ emitPrim_mul_le_asked hsmall hb, heq.le⟩
  · exact hbounds

/-- With its last reservation made, a workgroup owes what it cannot use. -/
theorem Reserving.settling (h : Reserving d w g (.ret ())) (htodo : g.todo = [])
    (hsmall : ∀ b, (g.offset b).toNat < 2 ^ 31) (hlt : ∀ b ∈ d.buffers, g.held b < 2 ^ 32) :
    ∃ u, Settling d w g u (settle d w g.offset) := by
  have hheld : ∀ b ∈ d.buffers, g.held b = asked d w b := fun b hb => by
    rw [h.held b hb, htodo, if_neg List.not_mem_nil]
  have hu : ∀ b, addBuffers d.buffers (unused d w (emitPrim d w g.offset)) (fun _ => 0)
      (.buffer b) = if b ∈ d.buffers then unused d w (emitPrim d w g.offset) b else 0 :=
    fun b => by simp [addBuffers]
  refine ⟨_, htodo, settle_owes hu, fun b hb => ?_, fun b hb => (hheld b hb).le⟩
  have hasked : asked d w b < 2 ^ 32 := hheld b hb ▸ hlt b hb
  have hle := emitPrim_mul_le_asked (w := w) hsmall hb
  rw [hu, if_pos hb, unused_toNat hsmall hb hasked, hheld b hb]
  omega

theorem Thread.cases (h : Thread d w g p) (hsmall : ∀ b, (g.offset b).toNat < 2 ^ 31)
    (hlt : ∀ b ∈ d.buffers, g.held b < 2 ^ 32) :
    (∃ c f k, Reserving d w g (.rmw c f k) ∧
      p = .rmw c f fun v => (k v).bind fun _ => reserving d w g.todo g.offset) ∨
    (∃ b todo, Reserving d w g (.ret ()) ∧ g.todo = b :: todo ∧
      p = reserving d w (b :: todo) g.offset) ∨
    ∃ u, Settling d w g u p := by
  cases h with
  | after h => exact .inr (.inr ⟨_, h⟩)
  | @before q h =>
    cases q with
    | rmw c f k => exact .inl ⟨c, f, k, h, rfl⟩
    | ret =>
      cases htodo : g.todo with
      | cons b todo => exact .inr (.inl ⟨b, todo, h, rfl, rfl⟩)
      | nil => exact .inr (.inr (h.settling htodo hsmall hlt))

theorem Thread.of_ret {out : BufferInfo} (h : Thread d w g (.ret out))
    (hsmall : ∀ b, (g.offset b).toNat < 2 ^ 31) (hlt : ∀ b ∈ d.buffers, g.held b < 2 ^ 32) :
    g.todo = [] ∧ out = settled d w g.offset ∧ ∀ b ∈ d.buffers, g.held b =
      (emitPrim d w g.offset (d.bufferToStream b)).toNat * (d.primStride b).toNat := by
  rcases h.cases hsmall hlt with ⟨_, _, _, _, hp⟩ | ⟨_, _, _, _, hp⟩ | ⟨u, h⟩
  · cases hp
  · cases hp
  · obtain ⟨htodo, howes, hheld, -⟩ := h
    cases howes with
    | done hu =>
      refine ⟨htodo, rfl, fun b hb => ?_⟩
      rw [hheld b hb, hu _ ⟨b, rfl⟩]
      rfl

/-- An operation of a workgroup: on another cell, a reservation, or a give-back. -/
theorem Thread.step_cases {c : Cell} {f : Word → Word} {k : Word → Prog Cell Word BufferInfo}
    (h : Thread d w g (.rmw c f k)) (hsmall : ∀ b, (g.offset b).toNat < 2 ^ 31)
    (hlt : ∀ b ∈ d.buffers, g.held b < 2 ^ 32) :
    (¬ IsBuffer c ∧ ∀ v, Thread d w g (k v)) ∨
    (∃ b todo, c = .buffer b ∧ b ∈ d.buffers ∧ g.todo = b :: todo ∧ b ∉ todo ∧
      Prog.rmw c f k = reserving d w (b :: todo) g.offset ∧
      (∀ x, f x = x + workgroupBufferSize d w b) ∧ ∀ v, Thread d w
        ⟨Function.update g.offset b v, todo, Function.update g.held b (asked d w b)⟩ (k v)) ∨
    (∃ (b : Fin 4) (paid : Word), c = .buffer b ∧ (∀ x, f x = x - paid) ∧
      (b ∈ d.buffers → paid.toNat ≤ g.held b) ∧ ∀ v, Thread d w
        { g with held := Function.update g.held b (g.held b - paid.toNat) } (k v)) := by
  rcases h.cases hsmall hlt with ⟨c', f', k', hr, hp⟩ | ⟨b, todo, hr, htodo, hp⟩ | ⟨u, hs⟩
  · cases hp
    have hwait : g.todo = d.buffers := hr.waits.resolve_left (by simp)
    refine .inl ⟨fun hc => (hr.avoids c hc).1 rfl, fun v => .before ⟨fun c' hc' => ?_, .inr hwait,
      hr.suffix, hr.held⟩⟩
    exact (hr.avoids c' hc').2 v
  · have hnodup : (b :: todo).Nodup := (htodo ▸ hr.suffix).sublist.nodup d.nodup_buffers
    rw [List.nodup_cons] at hnodup
    have hb : b ∈ d.buffers := hr.suffix.subset (htodo ▸ List.mem_cons_self)
    have hsuffix : todo <:+ d.buffers := (List.suffix_cons b todo).trans (htodo ▸ hr.suffix)
    refine .inr (.inl ⟨b, todo, ?_⟩)
    cases hp
    refine ⟨rfl, hb, htodo, hnodup.1, rfl, fun _ => rfl, fun v => ?_⟩
    refine Thread.before (q := .ret ()) ⟨fun _ _ => trivial, .inl rfl, hsuffix, fun b' hb' => ?_⟩
    by_cases hbb : b' = b
    · subst hbb; simp [hnodup.1]
    · simp only [Function.update_of_ne hbb, hr.held b' hb', htodo, List.mem_cons, hbb, false_or]
  · obtain ⟨htodo, howes, hheld, hle⟩ := hs
    cases howes with
    | other hc hk => exact .inl ⟨hc, fun v => .after ⟨htodo, hk v, hheld, hle⟩⟩
    | pay hc hf hk =>
      obtain ⟨b, rfl⟩ := hc
      refine .inr (.inr ⟨b, u (.buffer b), rfl, hf, fun hb => by rw [hheld b hb]; omega,
        fun v => .after ⟨htodo, hk v, fun b' hb' => ?_, fun b' hb' => ?_⟩⟩)
      · by_cases hbb : b' = b
        · subst hbb
          simp only [Function.update_self, hheld b' hb']
          simp
        · rw [Function.update_of_ne (by simpa using hbb)]
          simp only [Function.update_of_ne hbb, hheld b' hb']
      · by_cases hbb : b' = b
        · subst hbb
          have := hle b' hb'
          simp only [Function.update_self]
          omega
        · simpa only [Function.update_of_ne hbb] using hle b' hb'

end Thread

end Psbc.Streamout
