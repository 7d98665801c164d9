import Psbc.Streamout.Sharing

/-!
# Streamout when waits time out

A workgroup whose wait for the ticket times out captures out of turn, so the
reservations and give-backs of several workgroups can overlap. Each of them is one
atomic operation on one buffer's counter, but a workgroup reserves in the buffers of a
stream one after another.

* `UniqueRanges`: no byte is captured twice or outside its buffer, and the counters end
  behind what was captured.
* `ReservesSafely`: a workgroup reserves in a buffer of a stream that has room for all
  workgroups (`Roomy`), or while no other workgroup is part-way through the buffers of that
  stream and the counter stays in range.
* `unordered_streamout_unique`: runs of such steps keep the ranges unique.
* `crossedGroups_overlap`: two workgroups that reserve in two buffers crosswise make a
  third one capture a byte again.

The invariant (`Inv`) gives each workgroup a ghost state.
-/

namespace Psbc.Streamout

open Atomic

/-! ## Unique ranges -/

/-- The workgroups that are done have captured bytes of their own inside the buffers, and
when all are done the counters stand behind the captured bytes. -/
structure UniqueRanges {n : Nat} (d : Draw) (m : Cell → Word)
    (st : Pool (Fin n) Cell Word BufferInfo) : Prop where
  inside : ∀ b, d.buffersWritten b = true → ∀ i out, st.progs i = .ret out →
    bytes d out b ⊆ Set.Iio (d.bufferSize b).toNat
  disjoint : ∀ b, d.buffersWritten b = true → ∀ i j, i ≠ j → ∀ out out', st.progs i = .ret out →
    st.progs j = .ret out' → Disjoint (bytes d out b) (bytes d out' b)
  counter : ∀ out : Fin n → BufferInfo, (∀ i, st.progs i = .ret (out i)) → ∀ b,
    d.buffersWritten b = true → offsets st.mem b = offsets m b +
      ∑ i, ((out i).emitPrim (d.bufferToStream b)).toNat * (d.primStride b).toNat

section Condition

variable {n : Nat} (d : Draw) (ws : Nat → Workgroup) (st : Pool (Fin n) Cell Word BufferInfo)

/-- Workgroup `j` has reserved in some buffers of stream `s` but not in all. -/
def PartWay (s : Fin 4) (j : Fin n) : Prop :=
  ∃ todo offset, st.progs j = reserving d (ws j) todo offset ∧ todo <:+ d.buffers ∧
    (∃ b ∈ d.buffers, d.bufferToStream b = s ∧ b ∉ todo) ∧ ∃ b ∈ todo, d.bufferToStream b = s

/-- If the next operation of workgroup `i` is a reservation, then no buffer of that stream
overflows in the draw, or no other workgroup is part-way through these buffers, the counter
is no negative number and the sum does not wrap around. -/
def ReservesSafely (m : Cell → Word) (i : Fin n) : Prop :=
  ∀ b todo offset, st.progs i = reserving d (ws i) (b :: todo) offset →
    Roomy n d ws m (d.bufferToStream b) ∨
      (∀ j ≠ i, ¬ PartWay d ws st (d.bufferToStream b) j) ∧
        offsets st.mem b < 2 ^ 31 ∧ offsets st.mem b + asked d (ws i) b < 2 ^ 32

end Condition

/-! ## The invariant -/

section Invariant

variable {n : Nat} {d : Draw} {ws : Nat → Workgroup} {m : Cell → Word} {g : Fin n → Ghost}

structure Inv (d : Draw) (ws : Nat → Workgroup) (m : Cell → Word)
    (st : Pool (Fin n) Cell Word BufferInfo) (g : Fin n → Ghost) : Prop where
  thread : ∀ i : Fin n, Thread d (ws i) (g i) (st.progs i)
  small : ∀ i b, ((g i).offset b).toNat < 2 ^ 31
  counter : ∀ b ∈ d.buffers, offsets st.mem b = offsets m b + ∑ i, (g i).held b
  shared : ∀ b ∈ d.buffers, ¬ Roomy n d ws m (d.bufferToStream b) →
    ∃ base E, Shared d ws m g (d.bufferToStream b) base E
  spread : ∀ b ∈ d.buffers, Roomy n d ws m (d.bufferToStream b) →
    ∃ base E, Spread d ws m g b base E

theorem sum_held_update (g : Fin n → Ghost) (i : Fin n) (g' : Ghost) (b : Fin 4) :
    ∑ j, (Function.update g i g' j).held b + (g i).held b = ∑ j, (g j).held b + g'.held b := by
  have hrest : ∑ j ∈ Finset.univ.erase i, (Function.update g i g' j).held b =
      ∑ j ∈ Finset.univ.erase i, (g j).held b :=
    Finset.sum_congr rfl fun j hj => by rw [Function.update_of_ne (Finset.ne_of_mem_erase hj)]
  rw [← Finset.add_sum_erase _ _ (Finset.mem_univ i),
    ← Finset.add_sum_erase _ (fun j => (g j).held b) (Finset.mem_univ i), hrest,
    Function.update_self]
  omega

/-! ## Every step keeps it -/

variable {st : Pool (Fin n) Cell Word BufferInfo}

theorem Inv.held_le (h : Inv d ws m st g) (i : Fin n) {b : Fin 4} (hb : b ∈ d.buffers) :
    (g i).held b ≤ offsets st.mem b := by
  have hle := Finset.single_le_sum (f := fun j => (g j).held b) (fun _ _ => Nat.zero_le _)
    (Finset.mem_univ i)
  rw [h.counter b hb]
  exact hle.trans (Nat.le_add_left ..)

theorem Inv.held_lt (h : Inv d ws m st g) (i : Fin n) {b : Fin 4} (hb : b ∈ d.buffers) :
    (g i).held b < 2 ^ 32 := (h.held_le i hb).trans_lt (st.mem _).isLt

theorem Inv.set (h : Inv d ws m st g) {i : Fin n} {g' : Ghost} {p : Prog Cell Word BufferInfo}
    {mem : Cell → Word} (hthread : Thread d (ws i) g' p)
    (hsmall : ∀ b, (g'.offset b).toNat < 2 ^ 31)
    (hcounter : ∀ b ∈ d.buffers, offsets mem b + (g i).held b = offsets st.mem b + g'.held b)
    (hshared : ∀ b ∈ d.buffers, ¬ Roomy n d ws m (d.bufferToStream b) →
      ∃ base E, Shared d ws m (Function.update g i g') (d.bufferToStream b) base E)
    (hspread : ∀ b ∈ d.buffers, Roomy n d ws m (d.bufferToStream b) →
      ∃ base E, Spread d ws m (Function.update g i g') b base E) :
    Inv d ws m (st.set i p mem) (Function.update g i g') where
  thread j := by
    by_cases hj : j = i
    · subst hj; rw [Function.update_self, Pool.set_progs_self]; exact hthread
    · rw [Function.update_of_ne hj, Pool.set_progs_ne hj]; exact h.thread j
  small j b := by
    by_cases hj : j = i
    · subst hj; rw [Function.update_self]; exact hsmall b
    · rw [Function.update_of_ne hj]; exact h.small j b
  counter b hb := by
    have hold := h.counter b hb
    have hnew := hcounter b hb
    have hsum := sum_held_update g i g' b
    rw [Pool.set_mem]
    omega
  shared := hshared
  spread := hspread

theorem Inv.alone (h : Inv d ws m st g) {i : Fin n} {s : Fin 4}
    (hok : ∀ j ≠ i, ¬ PartWay d ws st s j) :
    ∀ j ≠ i, j ∉ placed d g s → ∀ b ∈ d.buffers, d.bufferToStream b = s → b ∈ (g j).todo := by
  intro j hj hnot b hb hs
  by_contra hb'
  have hleft : ∃ b' ∈ (g j).todo, d.bufferToStream b' = s := by
    simp only [mem_placed, not_forall, not_not] at hnot
    obtain ⟨b', -, hs', hmem⟩ := hnot
    exact ⟨b', hmem, hs'⟩
  rcases (h.thread j).cases (h.small j) fun b hb => h.held_lt j hb with
    ⟨_, _, _, hr, -⟩ | ⟨b', todo, hr, htodo, hp⟩ | ⟨u, hset⟩
  · rw [hr.waits.resolve_left (by simp)] at hb'
    exact hb' hb
  · have hsuffix := hr.suffix
    rw [htodo] at hb' hleft hsuffix
    exact hok j hj ⟨b' :: todo, (g j).offset, hp, hsuffix, ⟨b, hb, hs, hb'⟩, hleft⟩
  · rw [hset.todo] at hleft
    obtain ⟨b', hmem, -⟩ := hleft
    exact absurd hmem List.not_mem_nil

/-- In a stream with room, a workgroup holds what it generates in each buffer it has
reserved in: it has nothing to give back. -/
theorem Inv.held_of_roomy (h : Inv d ws m st g) {b : Fin 4} (hb : b ∈ d.buffers)
    (hroom : Roomy n d ws m (d.bufferToStream b)) {j : Fin n} (hnot : b ∉ (g j).todo) :
    (g j).held b = gens ws (d.bufferToStream b) j * (d.primStride b).toNat := by
  have hasked := asked_of_roomy hroom hb j
  rcases (h.thread j).held_cases hb hnot with heq | ⟨htodo, hge, hle⟩
  · exact heq.trans hasked
  · have hall : emits d ws g (d.bufferToStream b) j = gens ws (d.bufferToStream b) j :=
      emits_of_spread (h.small j) fun b' hb' hs => by
        rw [← hs] at hroom
        exact ⟨htodo ▸ List.not_mem_nil, h.spread b' hb' hroom⟩
    exact le_antisymm (hle.trans hasked.le) (hall ▸ hge)

theorem Inv.counter_of_roomy (h : Inv d ws m st g) {b : Fin 4} (hb : b ∈ d.buffers)
    (hroom : Roomy n d ws m (d.bufferToStream b)) {base : Fin n → Nat} {E : Nat}
    (hlaid : Spread d ws m g b base E) :
    offsets st.mem b = offsets m b + E * (d.primStride b).toNat := by
  rw [h.counter b hb, ← hlaid.packed.total, Finset.sum_mul]
  refine congrArg _ ((Finset.sum_subset (Finset.subset_univ (reservedIn g b))
    fun j _ hj => ?_).symm.trans (Finset.sum_congr rfl fun j hj => ?_))
  · exact (h.thread j).held_of_mem hb (not_not.mp fun hnot => hj (mem_reservedIn.mpr hnot))
  · exact h.held_of_roomy hb hroom (mem_reservedIn.mp hj)

theorem Inv.inRange (h : Inv d ws m st g) {i : Fin n} {b : Fin 4} (hb : b ∈ d.buffers)
    (hmem : b ∈ (g i).todo)
    (hok : Roomy n d ws m (d.bufferToStream b) ∨
      offsets st.mem b < 2 ^ 31 ∧ offsets st.mem b + asked d (ws i) b < 2 ^ 32) :
    offsets st.mem b < 2 ^ 31 ∧ offsets st.mem b + asked d (ws i) b < 2 ^ 32 := by
  rcases hok with hroom | hok
  · -- the counter and what is asked for are within the buffer
    obtain ⟨base, E, hlaid⟩ := h.spread b hb hroom
    have hmore := hlaid.fits_more hroom (fun hi => mem_reservedIn.mp hi hmem) b
      (Draw.mem_buffers.mp hb) rfl
    have hsize := d.bufferSize_lt b
    rw [Nat.add_mul] at hmore
    rw [h.counter_of_roomy hb hroom hlaid, asked_of_roomy hroom hb]
    omega
  · exact hok

section Reservation

variable {i : Fin n} {b : Fin 4} {todo : List (Fin 4)} {held : Fin 4 → Nat}

theorem reserved_other (htodo : (g i).todo = b :: todo) (v : Word) {b' : Fin 4} (hbb : b' ≠ b)
    (j : Fin n) :
    (Function.update g i ⟨Function.update (g i).offset b v, todo, held⟩ j).offset b' =
        (g j).offset b' ∧
      (b' ∈ (Function.update g i ⟨Function.update (g i).offset b v, todo, held⟩ j).todo ↔
        b' ∈ (g j).todo) := by
  by_cases hj : j = i
  · subst hj
    rw [Function.update_self, htodo]
    exact ⟨Function.update_of_ne hbb .., by simp [hbb]⟩
  · rw [Function.update_of_ne hj]
    exact ⟨rfl, Iff.rfl⟩

/-- A reservation, for a stream that may overflow. -/
theorem Inv.reserve_shared (h : Inv d ws m st g) (hb : b ∈ d.buffers)
    (htodo : (g i).todo = b :: todo)
    (hok : Roomy n d ws m (d.bufferToStream b) ∨
      ∀ j ≠ i, ¬ PartWay d ws st (d.bufferToStream b) j)
    (hsmall : ∀ b', (Function.update (g i).offset b (st.mem (.buffer b)) b').toNat < 2 ^ 31)
    {b' : Fin 4} (hb' : b' ∈ d.buffers) (hfull : ¬ Roomy n d ws m (d.bufferToStream b')) :
    ∃ base E, Shared d ws m (Function.update g i
      ⟨Function.update (g i).offset b (st.mem (.buffer b)), todo, held⟩)
      (d.bufferToStream b') base E := by
  obtain ⟨base, E, hshared⟩ := h.shared b' hb' hfull
  by_cases hs : d.bufferToStream b = d.bufferToStream b'
  · -- the stream of the reservation may overflow, so nobody else is part-way
    rw [hs] at hok
    have hothers := h.alone (hok.resolve_left hfull)
    refine hshared.reserve hb hs htodo (fun b' hbb => Function.update_of_ne hbb ..) hsmall
      hothers (hshared.read hb hs (fun j hj => ?_) (fun j hj => ?_) ?_)
    · have hbounds := (h.thread j).held_bounds (h.small j) hb (mem_placed.mp hj b hb hs)
      rwa [hs] at hbounds
    · refine (h.thread j).held_of_mem hb ?_
      by_cases hj' : j = i
      · exact hj' ▸ htodo ▸ List.mem_cons_self
      · exact hothers j hj' hj b hb hs
    · simp only [Function.update_self]
      exact h.counter b hb
  · have hother : ∀ b'', d.bufferToStream b'' = d.bufferToStream b' → b'' ≠ b :=
      fun b'' hs'' hbb => hs (hbb ▸ hs'')
    exact ⟨base, E, hshared.congr
      (fun j b'' _ hs'' => (reserved_other htodo _ (hother b'' hs'') j).1)
      fun j b'' _ hs'' => (reserved_other htodo _ (hother b'' hs'') j).2⟩

/-- A reservation, for a stream that has room. -/
theorem Inv.reserve_spread (h : Inv d ws m st g) (htodo : (g i).todo = b :: todo)
    (hnot : b ∉ todo) {b' : Fin 4} (hb' : b' ∈ d.buffers)
    (hroom : Roomy n d ws m (d.bufferToStream b')) :
    ∃ base E, Spread d ws m (Function.update g i
      ⟨Function.update (g i).offset b (st.mem (.buffer b)), todo, held⟩) b' base E := by
  obtain ⟨base, E, hlaid⟩ := h.spread b' hb' hroom
  by_cases hbb : b' = b
  · subst hbb
    refine hlaid.reserve hroom hb' (htodo ▸ List.mem_cons_self) hnot ?_
    simp only [Function.update_self]
    exact h.counter_of_roomy hb' hroom hlaid
  · exact ⟨base, E, Spread.congr hlaid (fun j => (reserved_other htodo _ hbb j).1)
      fun j => (reserved_other htodo _ hbb j).2⟩

theorem Inv.reserve (h : Inv d ws m st g) {p : Prog Cell Word BufferInfo} (hb : b ∈ d.buffers)
    (htodo : (g i).todo = b :: todo) (hnot : b ∉ todo)
    (hok : Roomy n d ws m (d.bufferToStream b) ∨
      (∀ j ≠ i, ¬ PartWay d ws st (d.bufferToStream b) j) ∧
        offsets st.mem b < 2 ^ 31 ∧ offsets st.mem b + asked d (ws i) b < 2 ^ 32)
    (hthread : Thread d (ws i) ⟨Function.update (g i).offset b (st.mem (.buffer b)), todo,
      Function.update (g i).held b (asked d (ws i) b)⟩ p) :
    ∃ g, Inv d ws m (st.set i p (Function.update st.mem (.buffer b)
      (st.mem (.buffer b) + workgroupBufferSize d (ws i) b))) g := by
  have hmem : b ∈ (g i).todo := htodo ▸ List.mem_cons_self
  obtain ⟨hlt, hwrap⟩ := h.inRange hb hmem (hok.imp_right And.right)
  have hsmall : ∀ b', (Function.update (g i).offset b (st.mem (.buffer b)) b').toNat < 2 ^ 31 :=
    fun b' => by
      by_cases hbb : b' = b
      · subst hbb; rw [Function.update_self]; exact hlt
      · rw [Function.update_of_ne hbb]; exact h.small i b'
  refine ⟨_, h.set hthread hsmall (fun b' hb' => ?_)
    (fun b' => h.reserve_shared hb htodo (hok.imp_right And.left) hsmall)
    fun b' => h.reserve_spread htodo hnot⟩
  by_cases hbb : b' = b
  · subst hbb
    have hsize := workgroupBufferSize_toNat (d := d) (w := ws i) (b := b') (by omega)
    have hzero := (h.thread i).held_of_mem hb hmem
    simp only [offsets, Function.update_self]
    rw [BitVec.toNat_add, hsize, Nat.mod_eq_of_lt hwrap, hzero]
    rfl
  · have hcell : Cell.buffer b' ≠ .buffer b := by simpa using hbb
    simp only [offsets, Function.update_of_ne hcell, Function.update_of_ne hbb]

end Reservation

theorem Inv.pay (h : Inv d ws m st g) {i : Fin n} {b : Fin 4} {paid : Word}
    {p : Prog Cell Word BufferInfo} (hle : b ∈ d.buffers → paid.toNat ≤ (g i).held b)
    (hthread : Thread d (ws i)
      { g i with held := Function.update (g i).held b ((g i).held b - paid.toNat) } p) :
    ∃ g, Inv d ws m (st.set i p (Function.update st.mem (.buffer b)
      (st.mem (.buffer b) - paid))) g := by
  have hsame : ∀ (j : Fin n) (b' : Fin 4), (Function.update g i
      { g i with held := Function.update (g i).held b ((g i).held b - paid.toNat) } j).offset b' =
        (g j).offset b' ∧ (Function.update g i
      { g i with held := Function.update (g i).held b ((g i).held b - paid.toNat) } j).todo =
        (g j).todo := fun j b' => by
    by_cases hj : j = i
    · subst hj; rw [Function.update_self]; exact ⟨rfl, rfl⟩
    · rw [Function.update_of_ne hj]; exact ⟨rfl, rfl⟩
  refine ⟨_, h.set hthread (h.small i) (fun b' hb' => ?_) (fun b' hb' hfull => ?_)
    fun b' hb' hroom => ?_⟩
  · by_cases hbb : b' = b
    · subst hbb
      have hheld := h.held_le i hb'
      have hpaid := hle hb'
      simp only [offsets, Function.update_self] at hheld ⊢
      rw [BitVec.toNat_sub_of_le (by rw [BitVec.le_def]; omega)]
      omega
    · have hcell : Cell.buffer b' ≠ .buffer b := by simpa using hbb
      simp only [offsets, Function.update_of_ne hcell, Function.update_of_ne hbb]
  · obtain ⟨base, E, hshared⟩ := h.shared b' hb' hfull
    exact ⟨base, E, hshared.congr (fun j b'' _ _ => (hsame j b'').1)
      fun j b'' _ _ => by rw [(hsame j b'').2]⟩
  · obtain ⟨base, E, hlaid⟩ := h.spread b' hb' hroom
    exact ⟨base, E, Spread.congr hlaid (fun j => (hsame j b').1) fun j => by rw [(hsame j b').2]⟩

theorem Inv.step (h : Inv d ws m st g) {i : Fin n} (hok : ReservesSafely d ws st m i) :
    ∃ g, Inv d ws m (st.step i) g := by
  cases hp : st.progs i with
  | ret a => exact ⟨g, by rw [Pool.step_ret hp]; exact h⟩
  | rmw c f k =>
    have hi := h.thread i
    rw [hp] at hi
    rw [Pool.step_rmw hp]
    rcases hi.step_cases (h.small i) (fun b hb => h.held_lt i hb) with
      ⟨hc, hk⟩ | ⟨b, todo, rfl, hb, htodo, hnot, hres, hf, hk⟩ | ⟨b, paid, rfl, hf, hle, hk⟩
    · refine ⟨_, h.set (hk _) (h.small i) (fun b _ => ?_) ?_ ?_⟩
      · rw [offsets, Function.update_of_ne fun hcb => hc ⟨b, hcb.symm⟩]
      · rw [Function.update_eq_self]; exact h.shared
      · rw [Function.update_eq_self]; exact h.spread
    · rw [hf]
      exact h.reserve hb htodo hnot (hok b todo _ (hp.trans hres)) (hk _)
    · rw [hf]
      exact h.pay hle (hk _)

/-! ## Whole runs -/

theorem ticketWait_avoids {c : Cell} (hticket : c ≠ .ticket) (htimeout : c ≠ .timeout)
    (orderedId : Word) (polls : Nat) : (ticketWait orderedId polls).Avoids c := by
  induction polls with
  | zero => exact ⟨Ne.symm htimeout, fun _ => trivial⟩
  | succ polls ih =>
    refine ⟨Ne.symm hticket, fun v => ?_⟩
    dsimp only
    split
    · trivial
    · exact ih

theorem Inv.launch (hm : ∀ b, d.buffersWritten b = true → offsets m b ≤ (d.bufferSize b).toNat) :
    Inv d ws m (launch d n ws m) fun _ => ⟨fun _ => 0, d.buffers, fun _ => 0⟩ where
  thread i := by
    change Thread d (ws i) _ (streamoutBufferInfo d (ws i))
    rw [streamoutBufferInfo_eq_reserving]
    refine .before ⟨fun c hc => ?_, .inr rfl, List.suffix_refl _, fun b hb => by rw [if_pos hb]⟩
    obtain ⟨b, rfl⟩ := hc
    split
    · exact ticketWait_avoids (by simp) (by simp) _ _
    · trivial
  small _ _ := (by decide : (0 : Word).toNat < 2 ^ 31)
  counter b _ := by simp [Streamout.launch]
  shared b hb _ := by
    have hnone : ∀ i, i ∉ placed d (fun _ : Fin n => ⟨fun _ => 0, d.buffers, fun _ => 0⟩)
        (d.bufferToStream b) := fun i hi => mem_placed.mp hi b hb rfl hb
    refine ⟨fun _ => 0, 0, ?_, fun i hi => absurd hi (hnone i), fun i _ b' hb' _ hnot =>
      absurd hb' hnot⟩
    rw [Finset.eq_empty_of_forall_notMem hnone]
    exact .empty fun b' hb' _ => by simpa using hm b' hb'
  spread b hb _ := by
    have hnone : ∀ i, i ∉ reservedIn (fun _ : Fin n => ⟨fun _ => 0, d.buffers, fun _ => 0⟩) b :=
      fun i hi => mem_reservedIn.mp hi hb
    refine ⟨fun _ => 0, 0, ?_, fun i hi => absurd hi (hnone i)⟩
    rw [Finset.eq_empty_of_forall_notMem hnone]
    exact .empty fun b' hb' _ => by simpa using hm b' hb'

/-- Each buffer is shared out among those who are done with reserving. -/
theorem Inv.laid (h : Inv d ws m st g) {b : Fin 4} (hb : b ∈ d.buffers) :
    ∃ S len base E, Laid d ws m g b S len base E ∧
      ∀ i, (g i).todo = [] → i ∈ S ∧ emits d ws g (d.bufferToStream b) i ≤ len i := by
  by_cases hroom : Roomy n d ws m (d.bufferToStream b)
  · obtain ⟨base, E, hlaid⟩ := h.spread b hb hroom
    refine ⟨_, _, base, E, hlaid, fun i hi => ⟨mem_reservedIn.mpr (hi ▸ List.not_mem_nil), ?_⟩⟩
    exact emitPrim_le_genPrim (h.small i) _
  · obtain ⟨base, E, hshared⟩ := h.shared b hb hroom
    refine ⟨_, _, base, E, hshared.laid hb rfl, fun i hi =>
      ⟨mem_placed.mpr fun b _ _ => ?_, le_rfl⟩⟩
    rw [hi]
    exact List.not_mem_nil

theorem Inv.uniqueRanges (h : Inv d ws m st g) : UniqueRanges d m st := by
  have hret : ∀ i out, st.progs i = .ret out → (g i).todo = [] ∧
      out = settled d (ws i) (g i).offset ∧ ∀ b ∈ d.buffers, (g i).held b =
        (emitPrim d (ws i) (g i).offset (d.bufferToStream b)).toNat * (d.primStride b).toNat := by
    intro i out hp
    exact (hp ▸ h.thread i).of_ret (h.small i) fun b hb => h.held_lt i hb
  refine ⟨fun b hb i out hp => ?_, fun b hb i j hij out out' hp hp' => ?_, fun out hp b hb => ?_⟩
  · obtain ⟨S, len, base, E, hlaid, hdone⟩ := h.laid (Draw.mem_buffers.mpr hb)
    obtain ⟨htodo, hout, -⟩ := hret i out hp
    obtain ⟨hi, hle⟩ := hdone i htodo
    rw [hout]
    exact hlaid.bytes_subset hb hi hle
  · obtain ⟨S, len, base, E, hlaid, hdone⟩ := h.laid (Draw.mem_buffers.mpr hb)
    obtain ⟨htodo, hout, -⟩ := hret i out hp
    obtain ⟨htodo', hout', -⟩ := hret j out' hp'
    obtain ⟨hi, hle⟩ := hdone i htodo
    obtain ⟨hj, hle'⟩ := hdone j htodo'
    rw [hout, hout']
    exact hlaid.bytes_disjoint hij hi hj hle hle'
  · rw [h.counter b (Draw.mem_buffers.mpr hb)]
    refine congrArg _ (Finset.sum_congr rfl fun i _ => ?_)
    obtain ⟨-, hout, hheld⟩ := hret i _ (hp i)
    rw [hheld b (Draw.mem_buffers.mpr hb), hout]
    rfl

end Invariant

/-! ## A wait that times out -/

section Timeout

variable {n : Nat} {d : Draw} {ws : Nat → Workgroup} {m : Cell → Word}
  {st : Pool (Fin n) Cell Word BufferInfo} {i : Fin n} {orderedId : Word} {polls : Nat}
  {p : Prog Cell Word BufferInfo}

theorem step_poll (hp : st.progs i = (ticketWait orderedId (polls + 1)).bind fun _ => p)
    (hne : st.mem .ticket ≠ orderedId) :
    st.step i = st.set i ((ticketWait orderedId polls).bind fun _ => p) st.mem := by
  rw [Pool.step_rmw hp, add_zero, Function.update_eq_self]
  simp only [if_neg hne]

theorem exec_timeout (hp : st.progs i = (ticketWait orderedId polls).bind fun _ => p)
    (hne : st.mem .ticket ≠ orderedId) :
    st.exec (List.replicate (polls + 1) i) =
      st.set i p (Function.update st.mem .timeout (st.mem .timeout + 1)) := by
  induction polls generalizing st with
  | zero => exact Pool.step_rmw hp
  | succ polls ih =>
    rw [List.replicate_succ, Pool.exec_cons, step_poll hp hne, ih (Pool.set_progs_self ..) hne,
      Pool.set_set, Pool.set_mem]

/-- Polling is no reservation. -/
theorem meets_timeout (hp : st.progs i = (ticketWait orderedId polls).bind fun _ => p)
    (hne : st.mem .ticket ≠ orderedId) :
    st.Meets (fun st => ReservesSafely d ws st m) (List.replicate (polls + 1) i) := by
  induction polls generalizing st with
  | zero =>
    refine ⟨fun b todo offset hres => ?_, trivial⟩
    rw [hp] at hres
    cases hres
  | succ polls ih =>
    refine ⟨fun b todo offset hres => ?_, ?_⟩
    · rw [hp] at hres
      cases hres
    · rw [step_poll hp hne]
      exact ih (Pool.set_progs_self ..) hne

theorem launch_progs (hv : d.anyBufferValid = true) (m : Cell → Word) (i : Fin n) :
    (launch d n ws m).progs i = (ticketWait (ws i).primitiveId (2 ^ 16)).bind fun _ =>
      reserving d (ws i) d.buffers fun _ => 0 := by
  simp only [launch, streamoutBufferInfo_eq_reserving, hv, if_true]

/-- In a draw with one buffer per stream nobody is ever part-way. -/
theorem reservesSafely_of_single
    (hsingle : ∀ b ∈ d.buffers, ∀ b' ∈ d.buffers, d.bufferToStream b = d.bufferToStream b' → b = b')
    (h : ∀ b, offsets st.mem b < 2 ^ 31 ∧ offsets st.mem b + asked d (ws i) b < 2 ^ 32) :
    ReservesSafely d ws st m i := by
  refine fun b _ _ _ => .inr ⟨fun j _ hpart => ?_, h b⟩
  obtain ⟨todo, _, -, hsuffix, ⟨b₁, hb₁, hs₁, hnot⟩, b₂, hb₂, hs₂⟩ := hpart
  exact hnot (hsingle b₁ hb₁ b₂ (hsuffix.subset hb₂) (hs₁.trans hs₂.symm) ▸ hb₂)

end Timeout

/-- **Out of turn, the ranges stay unique as long as no buffer overflows or reservations do
not cross.** Whatever the interleaving and whoever timed out: in every state reached by steps
under `ReservesSafely` no byte is captured twice or outside its buffer, and at the end the
counters stand behind the captured bytes. -/
theorem unordered_streamout_unique (d : Draw) (n : Nat) (ws : Nat → Workgroup) (m : Cell → Word)
    (hm : ∀ b, d.buffersWritten b = true → offsets m b ≤ (d.bufferSize b).toNat)
    (sched : List (Fin n))
    (hok : (launch d n ws m).Meets (fun st => ReservesSafely d ws st m) sched) :
    UniqueRanges d m ((launch d n ws m).exec sched) := by
  obtain ⟨g, hinv⟩ := Pool.exec_invariant_of_meets (P := fun st => ∃ g, Inv d ws m st g)
    (fun st i hok ⟨g, hg⟩ => hg.step hok) ⟨_, Inv.launch hm⟩ hok
  exact hinv.uniqueRanges

/-- Points in two buffers of one stream, with room for five points in the first and for
three in the second. -/
def crossedGroups : Draw where
  buffersWritten b := b = 0 ∨ b = 1
  streamsWritten s := s = 0
  bufferToStream _ := 0
  stride _ := 4
  numVertPerPrim := 1
  bufferSize b := if b = 0 then 20 else 12
  stride_pos := by decide
  numVert_pos := twoGroups.numVert_pos
  numVert_le := twoGroups.numVert_le
  bufferSize_lt := by decide

/-- Workgroups of two points, four points and one point. -/
def crossedPoints : Nat → Workgroup
  | 0 => ⟨0, 2, fun _ => 2, by decide⟩
  | 1 => ⟨2, 4, fun _ => 4, by decide⟩
  | _ => ⟨6, 1, fun _ => 1, by decide⟩

/-- The workgroups are written as numerals of `Fin 3`. -/
scoped instance neZero_three : NeZero 3 := ⟨by decide⟩

/-- Workgroup 1 has timed out and workgroup 0 got its turn: 1 reserves first in buffer 0,
0 first in buffer 1. Then 0, 1 and 2 finish in order. -/
def crossedSchedule : List (Fin 3) :=
  [0, 1, 0, 0, 1] ++ List.replicate 5 0 ++ List.replicate 5 1 ++ List.replicate 6 2

/-- What a workgroup captures of buffer `b`: offset and number of points. -/
def capturedOf (b : Fin 4) (p : Prog Cell Word BufferInfo) : Option (Word × Word) :=
  p.result?.map fun out => (out.bufferOffset b, out.emitPrim 0)

theorem exists_of_capturedOf {b : Fin 4} {p : Prog Cell Word BufferInfo} {offset emit : Word}
    (h : capturedOf b p = some (offset, emit)) :
    ∃ out, p = .ret out ∧ out.bufferOffset b = offset ∧ out.emitPrim 0 = emit := by
  obtain ⟨out, hout, heq⟩ := Option.map_eq_some_iff.mp h
  obtain ⟨rfl, rfl⟩ := Prod.mk.inj heq
  exact ⟨out, Prog.result?_eq_some.mp hout, rfl, rfl⟩

/-- A draw whose workgroup `i` has timed out before any other moved. -/
def afterTimeout (d : Draw) (n : Nat) (ws : Nat → Workgroup) (i : Fin n) :
    Pool (Fin n) Cell Word BufferInfo :=
  (launch d n ws fun _ => 0).set i (reserving d (ws i) d.buffers fun _ => 0)
    (Function.update (fun _ => 0) .timeout 1)

/-- Workgroups 1 and 2 both capture bytes 8 to 11 of buffer 1. -/
theorem crossedGroups_overlap : Tiles 3 crossedPoints 7 ∧
    ¬ UniqueRanges crossedGroups (fun _ => 0)
      ((launch crossedGroups 3 crossedPoints fun _ => 0).exec
        (List.replicate (2 ^ 16 + 1) 1 ++ crossedSchedule)) := by
  refine ⟨⟨by decide, by decide, by decide⟩, fun h => ?_⟩
  rw [Pool.exec_append, exec_timeout (launch_progs (by decide) _ 1) (by decide)] at h
  have hone : capturedOf 1 (((afterTimeout crossedGroups 3 crossedPoints 1).exec
      crossedSchedule).progs 1) = some (8, 1) := by decide +kernel
  have htwo : capturedOf 1 (((afterTimeout crossedGroups 3 crossedPoints 1).exec
      crossedSchedule).progs 2) = some (8, 1) := by decide +kernel
  obtain ⟨out, hp, hoffset, hemit⟩ := exists_of_capturedOf hone
  obtain ⟨out', hp', hoffset', hemit'⟩ := exists_of_capturedOf htwo
  have hdisjoint := h.disjoint 1 (by decide) 1 2 (by decide) out out' hp hp'
  have hmem : 8 ∈ bytes crossedGroups out 1 := by
    change (out.bufferOffset 1).toNat ≤ 8 ∧ 8 < (out.bufferOffset 1).toNat +
      (out.emitPrim 0).toNat * (crossedGroups.primStride 1).toNat
    rw [hoffset, hemit]
    decide
  have hmem' : 8 ∈ bytes crossedGroups out' 1 := by
    change (out'.bufferOffset 1).toNat ≤ 8 ∧ 8 < (out'.bufferOffset 1).toNat +
      (out'.emitPrim 0).toNat * (crossedGroups.primStride 1).toNat
    rw [hoffset', hemit']
    decide
  exact Set.disjoint_left.mp hdisjoint hmem hmem'

/-- The same points with room for all seven in either buffer. -/
def roomyGroups : Draw :=
  { crossedGroups with bufferSize := fun _ => 28, bufferSize_lt := by decide }

/-- The two workgroups of `twoGroups`, the second timed out and both reserving and giving
back in turns; and the crossed schedule where nothing overflows. -/
theorem unordered_streamout_unique_timedOut :
    UniqueRanges twoGroups (fun _ => 0) ((launch twoGroups 2 threePoints fun _ => 0).exec
      (List.replicate (2 ^ 16 + 1) 1 ++ [0, 1, 0, 1, 0, 1, 0, 1, 0, 1, 0])) ∧
    UniqueRanges roomyGroups (fun _ => 0)
      ((launch roomyGroups 3 crossedPoints fun _ => 0).exec
        (List.replicate (2 ^ 16 + 1) 1 ++ crossedSchedule)) := by
  constructor
  · refine unordered_streamout_unique twoGroups 2 threePoints (fun _ => 0) (by decide) _
      ((meets_timeout (launch_progs (by decide) _ 1) (by decide)).append ?_)
    rw [exec_timeout (launch_progs (by decide) _ 1) (by decide)]
    have hrange : (afterTimeout twoGroups 2 threePoints 1).Meets
        (fun st (i : Fin 2) => ∀ b, offsets st.mem b < 2 ^ 31 ∧
          offsets st.mem b + asked twoGroups (threePoints i) b < 2 ^ 32)
        [0, 1, 0, 1, 0, 1, 0, 1, 0, 1, 0] := by decide +kernel
    exact hrange.mono fun st i => reservesSafely_of_single (by decide)
  · have hroom : ∀ s b, roomyGroups.buffersWritten b = true → roomyGroups.bufferToStream b = s →
        ∑ i : Fin 3, ((crossedPoints i).genPrim s).toNat * (roomyGroups.primStride b).toNat ≤
          (roomyGroups.bufferSize b).toNat := by decide
    exact unordered_streamout_unique roomyGroups 3 crossedPoints (fun _ => 0) (by decide) _
      (.of_forall (fun st i b _ _ _ => .inl (by
        intro b' hb' hs
        have := hroom _ b' hb' hs
        rw [← Finset.sum_mul] at this
        exact (Nat.zero_add _).trans_le this)) _ _)

end Psbc.Streamout
