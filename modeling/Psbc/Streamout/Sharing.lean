import Psbc.Streamout.Holding
import Psbc.Lib.Packing
import Mathlib.Algebra.Order.BigOperators.Group.Finset
import Mathlib.Order.CompletePartialOrder

/-!
# How the workgroups share the buffers

What the workgroups have reserved of the buffers of one stream, in terms of their ghost
states (`Laid`).

* `Shared`: a stream that may overflow. The workgroups that are through with all its buffers
  have the same places in each of them. `Shared.reserve` needs that no other workgroup is
  part-way.
* `Spread`: a stream that has room for all workgroups (`Roomy`). Each buffer is shared out by
  itself, and `Spread.reserve` needs nothing of the others.
-/

namespace Psbc.Streamout

open Atomic

variable {n : Nat} {d : Draw} {ws : Nat → Workgroup} {m : Cell → Word} {g : Fin n → Ghost}

/-! ## The bytes of a buffer -/

abbrev emits (d : Draw) (ws : Nat → Workgroup) (g : Fin n → Ghost) (s : Fin 4) (i : Fin n) : Nat :=
  (emitPrim d (ws i) (g i).offset s).toNat

abbrev gens (ws : Nat → Workgroup) (s : Fin 4) (i : Fin n) : Nat := ((ws i).genPrim s).toNat

/-- What the workgroups `S` have of buffer `b`: of the first `E` primitives, workgroup `i`
has the `len i` ones from `base i` on. -/
structure Laid (d : Draw) (ws : Nat → Workgroup) (m : Cell → Word) (g : Fin n → Ghost) (b : Fin 4)
    (S : Finset (Fin n)) (len base : Fin n → Nat) (E : Nat) : Prop where
  packed : Packed (Fits d (offsets m) (d.bufferToStream b)) S (gens ws (d.bufferToStream b)) len
    base E
  start : ∀ i ∈ S, 0 < len i →
    (bufferOffset d (g i).offset b).toNat = offsets m b + base i * (d.primStride b).toNat

def bytes (d : Draw) (out : BufferInfo) (b : Fin 4) : Set Nat :=
  Set.Ico (out.bufferOffset b).toNat
    ((out.bufferOffset b).toNat +
      (out.emitPrim (d.bufferToStream b)).toNat * (d.primStride b).toNat)

section Laid

variable {b : Fin 4} {S : Finset (Fin n)} {len base : Fin n → Nat} {E : Nat} {i j : Fin n}

theorem Laid.mem_bytes (h : Laid d ws m g b S len base E) (hi : i ∈ S)
    (hle : emits d ws g (d.bufferToStream b) i ≤ len i) {x : Nat}
    (hx : x ∈ bytes d (settled d (ws i) (g i).offset) b) :
    0 < len i ∧ offsets m b + base i * (d.primStride b).toNat ≤ x ∧
      x < offsets m b + (base i + len i) * (d.primStride b).toNat := by
  obtain ⟨hfrom, hto⟩ : (bufferOffset d (g i).offset b).toNat ≤ x ∧
      x < (bufferOffset d (g i).offset b).toNat +
        emits d ws g (d.bufferToStream b) i * (d.primStride b).toNat := hx
  have hmul := Nat.mul_le_mul_right (d.primStride b).toNat hle
  have hpos : 0 < len i := Nat.pos_of_ne_zero fun hzero => by
    rw [hzero, Nat.zero_mul] at hmul
    omega
  rw [h.start i hi hpos] at hfrom hto
  rw [Nat.add_mul]
  exact ⟨hpos, hfrom, by omega⟩

theorem Laid.bytes_subset (h : Laid d ws m g b S len base E) (hb : d.buffersWritten b = true)
    (hi : i ∈ S) (hle : emits d ws g (d.bufferToStream b) i ≤ len i) :
    bytes d (settled d (ws i) (g i).offset) b ⊆ Set.Iio (d.bufferSize b).toNat := by
  intro x hx
  obtain ⟨hpos, -, hlt⟩ := h.mem_bytes hi hle hx
  have hwithin := h.packed.within i hi hpos
  exact hlt.trans_le ((Nat.add_le_add_left (Nat.mul_le_mul_right _ hwithin) _).trans
    (h.packed.fits b hb rfl))

theorem Laid.bytes_disjoint (h : Laid d ws m g b S len base E) (hij : i ≠ j) (hi : i ∈ S)
    (hj : j ∈ S) (hle : emits d ws g (d.bufferToStream b) i ≤ len i)
    (hle' : emits d ws g (d.bufferToStream b) j ≤ len j) :
    Disjoint (bytes d (settled d (ws i) (g i).offset) b)
      (bytes d (settled d (ws j) (g j).offset) b) := by
  rw [Set.disjoint_left]
  intro x hx hx'
  obtain ⟨hpos, hfrom, hto⟩ := h.mem_bytes hi hle hx
  obtain ⟨hpos', hfrom', hto'⟩ := h.mem_bytes hj hle' hx'
  rcases h.packed.apart i hi j hj hij hpos hpos' with hij | hji
  · have := Nat.mul_le_mul_right (d.primStride b).toNat hij
    omega
  · have := Nat.mul_le_mul_right (d.primStride b).toNat hji
    omega

end Laid

/-! ## A stream that may overflow -/

/-- The workgroups that have reserved in all buffers of stream `s`. -/
noncomputable def placed (d : Draw) (g : Fin n → Ghost) (s : Fin 4) : Finset (Fin n) :=
  {i | ∀ b ∈ d.buffers, d.bufferToStream b = s → b ∉ (g i).todo}.toFinite.toFinset

/-- All workgroups that are through with stream `s` capture all they generate. -/
abbrev AllFit (d : Draw) (ws : Nat → Workgroup) (g : Fin n → Ghost) (s : Fin 4) : Prop :=
  ∀ i ∈ placed d g s, emits d ws g s i = gens ws s i

/-- The buffers of stream `s`: the primitives captured are the first `E` ones that fit,
workgroup `i` has those from `base i` on in every buffer, and a workgroup that is
part-way has read offsets behind them. -/
structure Shared (d : Draw) (ws : Nat → Workgroup) (m : Cell → Word) (g : Fin n → Ghost)
    (s : Fin 4) (base : Fin n → Nat) (E : Nat) : Prop where
  packed : Packed (Fits d (offsets m) s) (placed d g s) (gens ws s) (emits d ws g s) base E
  start : ∀ i ∈ placed d g s, 0 < emits d ws g s i → ∀ b ∈ d.buffers, d.bufferToStream b = s →
    (bufferOffset d (g i).offset b).toNat = offsets m b + base i * (d.primStride b).toNat
  ahead : ∀ i ∉ placed d g s, ∀ b ∈ d.buffers, d.bufferToStream b = s → b ∉ (g i).todo →
    offsets m b + E * (d.primStride b).toNat ≤ (bufferOffset d (g i).offset b).toNat ∧
      (AllFit d ws g s → (bufferOffset d (g i).offset b).toNat =
        offsets m b + E * (d.primStride b).toNat)

theorem mem_placed {s : Fin 4} {i : Fin n} : i ∈ placed d g s ↔
    ∀ b ∈ d.buffers, d.bufferToStream b = s → b ∉ (g i).todo := by
  simp [placed]

/-- A stream sees only what the workgroups did in its own buffers. -/
theorem Shared.congr {g' : Fin n → Ghost} {s : Fin 4} {base : Fin n → Nat} {E : Nat}
    (h : Shared d ws m g s base E)
    (hoffset : ∀ i, ∀ b ∈ d.buffers, d.bufferToStream b = s → (g' i).offset b = (g i).offset b)
    (htodo : ∀ i, ∀ b ∈ d.buffers, d.bufferToStream b = s → (b ∈ (g' i).todo ↔ b ∈ (g i).todo)) :
    Shared d ws m g' s base E := by
  have hplaced : placed d g' s = placed d g s := by
    ext i
    simp only [mem_placed]
    exact forall_congr' fun b => forall_congr' fun hb => forall_congr' fun hs =>
      not_congr (htodo i b hb hs)
  have hemits : ∀ i, emits d ws g' s i = emits d ws g s i := fun i => by
    rw [emits, emitPrim_congr (hoffset i)]
  have hoff : ∀ i, ∀ b ∈ d.buffers, d.bufferToStream b = s →
      bufferOffset d (g' i).offset b = bufferOffset d (g i).offset b := fun i b hb hs => by
    rw [bufferOffset, bufferOffset, hoffset i b hb hs]
  refine ⟨?_, fun i hi hpos b hb hs => ?_, fun i hi b hb hs hnot => ?_⟩
  · rw [hplaced]
    exact h.packed.congr (fun i _ => hemits i) fun _ _ => rfl
  · rw [hplaced] at hi
    rw [hemits] at hpos
    rw [hoff i b hb hs]
    exact h.start i hi hpos b hb hs
  · rw [hplaced] at hi
    rw [htodo i b hb hs] at hnot
    rw [hoff i b hb hs]
    refine ⟨(h.ahead i hi b hb hs hnot).1, fun hall => (h.ahead i hi b hb hs hnot).2 fun j hj => ?_⟩
    rw [← hemits j]
    exact hall j (hplaced ▸ hj)

theorem Shared.laid {s : Fin 4} {base : Fin n → Nat} {E : Nat} (h : Shared d ws m g s base E)
    {b : Fin 4} (hb : b ∈ d.buffers) (hs : d.bufferToStream b = s) :
    Laid d ws m g b (placed d g s) (emits d ws g s) base E := by
  subst hs
  exact ⟨h.packed, fun i hi hpos => h.start i hi hpos b hb rfl⟩

/-- Buffer `b` at these offsets stands behind the first `E` primitives, and right behind
them as long as everybody captures all they generate. -/
abbrev Ahead (d : Draw) (ws : Nat → Workgroup) (m : Cell → Word) (g : Fin n → Ghost) (s : Fin 4)
    (E : Nat) (offset : Fin 4 → Word) (b : Fin 4) : Prop :=
  offsets m b + E * (d.primStride b).toNat ≤ (bufferOffset d offset b).toNat ∧
    (AllFit d ws g s → (bufferOffset d offset b).toNat =
      offsets m b + E * (d.primStride b).toNat)

theorem Shared.read {s : Fin 4} {base : Fin n → Nat} {E : Nat} (h : Shared d ws m g s base E)
    {b : Fin 4} (hb : b ∈ d.buffers) (hs : d.bufferToStream b = s)
    (hplaced : ∀ j ∈ placed d g s, emits d ws g s j * (d.primStride b).toNat ≤ (g j).held b ∧
      (g j).held b ≤ asked d (ws j) b)
    (hothers : ∀ j ∉ placed d g s, (g j).held b = 0) {offset : Fin 4 → Word}
    (hread : (offset b).toNat = offsets m b + ∑ j, (g j).held b) :
    Ahead d ws m g s E offset b := by
  have hfits := h.packed.fits b (Draw.mem_buffers.mp hb) hs
  have hsum : ∑ j, (g j).held b = ∑ j ∈ placed d g s, (g j).held b :=
    (Finset.sum_subset (Finset.subset_univ _) fun j _ hj => hothers j hj).symm
  have htotal : E * (d.primStride b).toNat =
      ∑ j ∈ placed d g s, emits d ws g s j * (d.primStride b).toNat := by
    rw [← h.packed.total, Finset.sum_mul]
  unfold Ahead bufferOffset
  split
  · next hv =>
    rw [hread, hsum, htotal]
    refine ⟨Nat.add_le_add_left (Finset.sum_le_sum fun j hj => (hplaced j hj).1) _, fun hall => ?_⟩
    refine congrArg _ (Finset.sum_congr rfl fun j hj => ?_)
    -- a workgroup that captures all it generates holds just that
    have hgen : emits d ws g s j = ((ws j).genPrim s).toNat := hall j hj
    have hle := hplaced j hj
    rw [asked, if_pos hv, hs, ← hgen] at hle
    omega
  · next hv =>
    rw [Draw.bufferSize_eq_zero hv] at hfits
    exact ⟨hfits, fun _ => (Nat.le_zero.mp hfits).symm⟩

section Reserve

variable {s : Fin 4} {base : Fin n → Nat} {E : Nat} {i j : Fin n} {g' : Ghost}

theorem mem_placed_update (hj : j ≠ i) :
    j ∈ placed d (Function.update g i g') s ↔ j ∈ placed d g s := by
  rw [mem_placed, mem_placed, Function.update_of_ne hj]

theorem emits_update (hj : j ≠ i) :
    emits d ws (Function.update g i g') s j = emits d ws g s j := by
  rw [emits, Function.update_of_ne hj]

theorem Shared.ahead_reserved (h : Shared d ws m g s base E) {b : Fin 4} (hi : i ∉ placed d g s)
    (htodo : (g i).todo = b :: g'.todo) (hoffset : ∀ b' ≠ b, g'.offset b' = (g i).offset b')
    (hread : Ahead d ws m g s E g'.offset b) {b' : Fin 4} (hb' : b' ∈ d.buffers)
    (hs' : d.bufferToStream b' = s) (hnot : b' ∉ g'.todo) : Ahead d ws m g s E g'.offset b' := by
  by_cases hbb : b' = b
  · rw [hbb]
    exact hread
  · have hold := h.ahead i hi b' hb' hs' (by simp [htodo, hbb, hnot])
    have hoff : bufferOffset d g'.offset b' = bufferOffset d (g i).offset b' := by
      rw [bufferOffset, bufferOffset, hoffset b' hbb]
    rwa [← hoff] at hold

/-- What a workgroup captures fits behind the first `E` primitives. -/
theorem fits_emitPrim {w : Workgroup} {offset : Fin 4 → Word}
    (hsmall : ∀ b, (offset b).toNat < 2 ^ 31)
    (hahead : ∀ b ∈ d.buffers, d.bufferToStream b = s →
      offsets m b + E * (d.primStride b).toNat ≤ (bufferOffset d offset b).toNat)
    (hpos : 0 < (emitPrim d w offset s).toNat) :
    Fits d (offsets m) s (E + (emitPrim d w offset s).toNat) := by
  intro b hb hs
  have hle := fits_of_emitPrim_pos hsmall hpos b hb hs
  have hfrom := hahead b (Draw.mem_buffers.mpr hb) hs
  simp only at hle
  rw [Nat.add_mul]
  omega

/-- Right behind the first `E` primitives it captures as many as fit. -/
theorem not_fits_emitPrim_succ {w : Workgroup} {offset : Fin 4 → Word}
    (hsmall : ∀ b, (offset b).toNat < 2 ^ 31)
    (hexact : ∀ b ∈ d.buffers, d.bufferToStream b = s →
      (bufferOffset d offset b).toNat = offsets m b + E * (d.primStride b).toNat)
    (hlt : (emitPrim d w offset s).toNat < (w.genPrim s).toNat) :
    ¬ Fits d (offsets m) s (E + (emitPrim d w offset s).toNat + 1) := by
  intro hmore
  have hfits : Fits d (fun b => (bufferOffset d offset b).toNat) s
      ((emitPrim d w offset s).toNat + 1) := by
    intro b hb hs
    have hroom := hmore b hb hs
    have heq := hexact b (Draw.mem_buffers.mpr hb) hs
    simp only [heq]
    rw [Nat.add_assoc E, Nat.add_mul] at hroom
    omega
  have hone := (le_emitPrim_iff_of_small hsmall s _).mpr ⟨hlt, fun _ => hfits⟩
  omega

/-- The last buffer of the stream: `i` takes what still fits behind the first `E`
primitives, and nobody is part-way. -/
theorem Shared.reserve_last (h : Shared d ws m g s base E) (hi : i ∉ placed d g s)
    (hsmall : ∀ b, (g'.offset b).toNat < 2 ^ 31)
    (halone : ∀ j ≠ i, j ∉ placed d g s → ∀ b ∈ d.buffers, d.bufferToStream b = s →
      b ∈ (g j).todo)
    (hlast : ∀ b ∈ d.buffers, d.bufferToStream b = s → b ∉ g'.todo)
    (hahead : ∀ b ∈ d.buffers, d.bufferToStream b = s → Ahead d ws m g s E g'.offset b) :
    ∃ base E, Shared d ws m (Function.update g i g') s base E := by
  have hself : Function.update g i g' i = g' := Function.update_self ..
  have hne : ∀ j ∈ placed d g s, j ≠ i := fun j hj hji => hi (hji ▸ hj)
  have hlen : emits d ws (Function.update g i g') s i = (emitPrim d (ws i) g'.offset s).toNat := by
    rw [emits, hself]
  have hwant := emitPrim_le_genPrim (d := d) (w := ws i) hsmall s
  have hfits := fits_emitPrim (w := ws i) hsmall fun b hb hs => (hahead b hb hs).1
  have hplaced : placed d (Function.update g i g') s = insert i (placed d g s) := by
    ext j
    rw [Finset.mem_insert]
    by_cases hj : j = i
    · subst hj
      simpa [mem_placed, hself] using hlast
    · rw [mem_placed_update hj]
      simp [hj]
  have hpacked := (h.packed.congr (fun j hj => emits_update (hne j hj))
      (fun j hj => (Function.update_of_ne (hne j hj) ..))).insert (fun hc => hc.mono) hi
    (hlen ▸ hwant) (fun _ => Function.update_self i E base) (hlen ▸ hfits)
    (fun hall hlt => by
      rw [hlen] at hlt ⊢
      have hfit : AllFit d ws g s := fun j hj => emits_update (hne j hj) ▸ hall j hj
      exact not_fits_emitPrim_succ hsmall (fun b hb hs => (hahead b hb hs).2 hfit) hlt)
  rw [← hplaced] at hpacked
  refine ⟨_, _, hpacked, fun j hj hpos b hb hs => ?_, fun j hj b hb hs hnot => ?_⟩
  · by_cases hji : j = i
    · subst hji
      rw [hlen] at hpos
      have hall := h.packed.all_of_fits (fun hc => hc.mono) hpos (hfits hpos)
      rw [hself, Function.update_self]
      exact (hahead b hb hs).2 hall
    · rw [emits_update hji] at hpos
      rw [Function.update_of_ne hji, Function.update_of_ne hji]
      exact h.start j ((mem_placed_update hji).mp hj) hpos b hb hs
  · have hji : j ≠ i := fun hji => hj (hplaced ▸ hji ▸ Finset.mem_insert_self ..)
    rw [Function.update_of_ne hji] at hnot
    exact absurd (halone j hji (fun hold => hj ((mem_placed_update hji).mpr hold)) b hb hs) hnot

theorem Shared.reserve_partway (h : Shared d ws m g s base E) (hi : i ∉ placed d g s)
    (halone : ∀ j ≠ i, j ∉ placed d g s → ∀ b ∈ d.buffers, d.bufferToStream b = s →
      b ∈ (g j).todo)
    (hlast : ¬ ∀ b ∈ d.buffers, d.bufferToStream b = s → b ∉ g'.todo)
    (hahead : ∀ b ∈ d.buffers, d.bufferToStream b = s → b ∉ g'.todo →
      Ahead d ws m g s E g'.offset b) :
    Shared d ws m (Function.update g i g') s base E := by
  have hself : Function.update g i g' i = g' := Function.update_self ..
  have hne : ∀ j ∈ placed d g s, j ≠ i := fun j hj hji => hi (hji ▸ hj)
  have hplaced : placed d (Function.update g i g') s = placed d g s := by
    ext j
    by_cases hj : j = i
    · subst hj
      simpa [hi, mem_placed, hself] using hlast
    · exact mem_placed_update hj
  have hall : AllFit d ws (Function.update g i g') s → AllFit d ws g s := fun hall j hj =>
    emits_update (hne j hj) ▸ hall j (hplaced ▸ hj)
  refine ⟨?_, fun j hj hpos b hb hs => ?_, fun j hj b hb hs hnot => ?_⟩
  · rw [hplaced]
    exact h.packed.congr (fun j hj => emits_update (hne j hj)) fun _ _ => rfl
  · rw [hplaced] at hj
    rw [emits_update (hne j hj)] at hpos
    rw [Function.update_of_ne (hne j hj)]
    exact h.start j hj hpos b hb hs
  · by_cases hji : j = i
    · subst hji
      rw [hself] at hnot ⊢
      exact ⟨(hahead b hb hs hnot).1, fun hfit => (hahead b hb hs hnot).2 (hall hfit)⟩
    · rw [Function.update_of_ne hji] at hnot
      exact absurd (halone j hji (fun hold => hj (hplaced ▸ hold)) b hb hs) hnot

theorem Shared.reserve (h : Shared d ws m g s base E) {b : Fin 4} (hb : b ∈ d.buffers)
    (hs : d.bufferToStream b = s) (htodo : (g i).todo = b :: g'.todo)
    (hoffset : ∀ b' ≠ b, g'.offset b' = (g i).offset b')
    (hsmall : ∀ b', (g'.offset b').toNat < 2 ^ 31)
    (halone : ∀ j ≠ i, j ∉ placed d g s → ∀ b' ∈ d.buffers, d.bufferToStream b' = s →
      b' ∈ (g j).todo)
    (hread : Ahead d ws m g s E g'.offset b) :
    ∃ base E, Shared d ws m (Function.update g i g') s base E := by
  have hi : i ∉ placed d g s := fun hi =>
    mem_placed.mp hi b hb hs (htodo ▸ List.mem_cons_self)
  by_cases hlast : ∀ b' ∈ d.buffers, d.bufferToStream b' = s → b' ∉ g'.todo
  · exact h.reserve_last hi hsmall halone hlast fun b' hb' hs' =>
      h.ahead_reserved hi htodo hoffset hread hb' hs' (hlast b' hb' hs')
  · exact ⟨base, E, h.reserve_partway hi halone hlast fun b' hb' hs' hnot =>
      h.ahead_reserved hi htodo hoffset hread hb' hs' hnot⟩

end Reserve

/-! ## A stream with room -/

/-- Behind the counters of `m` no buffer of stream `s` overflows. -/
def Roomy (n : Nat) (d : Draw) (ws : Nat → Workgroup) (m : Cell → Word) (s : Fin 4) : Prop :=
  Fits d (offsets m) s (∑ i : Fin n, ((ws i).genPrim s).toNat)

noncomputable def reservedIn (g : Fin n → Ghost) (b : Fin 4) : Finset (Fin n) :=
  {i | b ∉ (g i).todo}.toFinite.toFinset

/-- A buffer of a stream that has room, by itself: whoever has reserved in it has all they
generate. -/
abbrev Spread (d : Draw) (ws : Nat → Workgroup) (m : Cell → Word) (g : Fin n → Ghost) (b : Fin 4)
    (base : Fin n → Nat) (E : Nat) : Prop :=
  Laid d ws m g b (reservedIn g b) (gens ws (d.bufferToStream b)) base E

section Room

variable {b : Fin 4} {base : Fin n → Nat} {E : Nat} {i : Fin n}

theorem mem_reservedIn : i ∈ reservedIn g b ↔ b ∉ (g i).todo := by simp [reservedIn]

/-- In a buffer of size zero there is room for nothing, so nothing is generated. -/
theorem asked_of_roomy (hroom : Roomy n d ws m (d.bufferToStream b)) (hb : b ∈ d.buffers)
    (i : Fin n) : asked d (ws i) b = gens ws (d.bufferToStream b) i * (d.primStride b).toNat := by
  unfold asked
  split
  · rfl
  · next hv =>
    have hle : gens ws (d.bufferToStream b) i ≤ ∑ j : Fin n, gens ws (d.bufferToStream b) j :=
      Finset.single_le_sum (fun _ _ => Nat.zero_le _) (Finset.mem_univ i)
    have hfits := hroom.mono hle b (Draw.mem_buffers.mp hb) rfl
    rw [Draw.bufferSize_eq_zero hv] at hfits
    omega

/-- A buffer sees only what the workgroups did in it. -/
theorem Spread.congr {g' : Fin n → Ghost} (h : Spread d ws m g b base E)
    (hoffset : ∀ i, (g' i).offset b = (g i).offset b)
    (htodo : ∀ i, b ∈ (g' i).todo ↔ b ∈ (g i).todo) : Spread d ws m g' b base E := by
  have hreserved : reservedIn g' b = reservedIn g b := by
    ext i
    rw [mem_reservedIn, mem_reservedIn, htodo i]
  refine ⟨hreserved ▸ h.packed, fun i hi hpos => ?_⟩
  rw [hreserved] at hi
  rw [bufferOffset, hoffset i]
  exact h.start i hi hpos

theorem Spread.fits_more (h : Spread d ws m g b base E)
    (hroom : Roomy n d ws m (d.bufferToStream b)) (hi : i ∉ reservedIn g b) :
    Fits d (offsets m) (d.bufferToStream b) (E + gens ws (d.bufferToStream b) i) := by
  refine hroom.mono ?_
  rw [← h.packed.total, Nat.add_comm, ← Finset.sum_insert hi]
  exact Finset.sum_le_sum_of_subset (Finset.subset_univ _)

/-- A workgroup that has reserved in all buffers of the stream captures all it generates. -/
theorem emits_of_spread {s : Fin 4} (hsmall : ∀ b, ((g i).offset b).toNat < 2 ^ 31)
    (hspread : ∀ b ∈ d.buffers, d.bufferToStream b = s →
      b ∉ (g i).todo ∧ ∃ base E, Spread d ws m g b base E) :
    emits d ws g s i = gens ws s i := by
  refine le_antisymm (emitPrim_le_genPrim hsmall s)
    ((le_emitPrim_iff_of_small hsmall s _).mpr ⟨le_rfl, fun hpos b hb hs => ?_⟩)
  subst hs
  obtain ⟨hnot, base, E, hlaid⟩ := hspread b (Draw.mem_buffers.mpr hb) rfl
  have hi := mem_reservedIn.mpr hnot
  have hwithin := Nat.mul_le_mul_right (d.primStride b).toNat (hlaid.packed.within i hi hpos)
  have hfits := hlaid.packed.fits b hb rfl
  have hstart := hlaid.start i hi hpos
  rw [Nat.add_mul] at hwithin
  simp only [hstart]
  omega

theorem Spread.reserve {g' : Ghost} (h : Spread d ws m g b base E)
    (hroom : Roomy n d ws m (d.bufferToStream b)) (hb : b ∈ d.buffers)
    (hmem : b ∈ (g i).todo) (hnot : b ∉ g'.todo)
    (hread : (g'.offset b).toNat = offsets m b + E * (d.primStride b).toNat) :
    ∃ base E, Spread d ws m (Function.update g i g') b base E := by
  have hi : i ∉ reservedIn g b := fun hi => mem_reservedIn.mp hi hmem
  have hne : ∀ j ∈ reservedIn g b, j ≠ i := fun j hj hji => hi (hji ▸ hj)
  have hreserved : reservedIn (Function.update g i g') b = insert i (reservedIn g b) := by
    ext j
    rw [Finset.mem_insert, mem_reservedIn]
    by_cases hj : j = i
    · subst hj
      simpa using hnot
    · rw [Function.update_of_ne hj, mem_reservedIn]
      simp [hj]
  have hpacked := (h.packed.congr (fun _ _ => rfl)
      (fun j hj => Function.update_of_ne (hne j hj) ..)).insert (fun hc => hc.mono) hi le_rfl
    (fun _ => Function.update_self i E base) (fun _ => h.fits_more hroom hi)
    (fun _ hlt => absurd hlt (lt_irrefl _))
  refine ⟨_, _, hreserved ▸ hpacked, fun j hj hpos => ?_⟩
  by_cases hji : j = i
  · subst hji
    rw [Function.update_self, Function.update_self]
    exact bufferOffset_eq_of_le hread (h.packed.fits b (Draw.mem_buffers.mp hb) rfl)
  · rw [Function.update_of_ne hji, Function.update_of_ne hji]
    rw [hreserved, Finset.mem_insert] at hj
    exact h.start j (hj.resolve_left hji) hpos

end Room

end Psbc.Streamout
