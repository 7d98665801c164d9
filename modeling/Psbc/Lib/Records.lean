import Mathlib.Data.List.Basic

/-!
# Streams of length-prefixed records

A record is a nonempty list whose first element announces the record's length, its
header included. A stream is tiled when it is a sequence of records with nothing left
over. `Tiled P l` says so and that every record on the way satisfies `P`; its rules follow
a reader that goes from header to header, on the stream itself (`tiled_iff_of_fits`,
`not_tiled_of_not_fits`) or by an offset into it (`tiled_drop_iff`, `not_tiled_drop`).
-/

namespace Records

variable {α : Type} (len : α → Nat)

/-- The first element of `r` announces `r`'s length. -/
def IsRecord (r : List α) : Prop := ∃ a ∈ r.head?, len a = r.length

/-- The records `rs`, one after the other, are the stream `l`. -/
structure Tiles (rs : List (List α)) (l : List α) : Prop where
  flatten : rs.flatten = l
  isRecord : ∀ r ∈ rs, IsRecord len r

/-- The announced length is positive and does not pass the end of the stream. -/
def Fits (a : α) (l : List α) : Prop := 0 < len a ∧ len a ≤ l.length

/-- The stream is a sequence of records that all satisfy `P`. -/
def Tiled (P : List α → Prop) (l : List α) : Prop := ∃ rs, Tiles len rs l ∧ ∀ r ∈ rs, P r

variable {len} {P Q : List α → Prop} {a : α} {r l : List α} {rs : List (List α)}

theorem IsRecord.pos (h : IsRecord len r) : 0 < r.length := by
  obtain ⟨a, ha, -⟩ := h
  cases r with
  | nil => simp at ha
  | cons b t => simp

theorem tiles_nil_iff : Tiles len rs [] ↔ rs = [] := by
  constructor
  · intro h
    cases rs with
    | nil => rfl
    | cons r rs =>
      have hpos := (h.isRecord r List.mem_cons_self).pos
      have hflat := h.flatten
      rw [List.flatten_cons, List.append_eq_nil_iff] at hflat
      simp [hflat.1] at hpos
  · rintro rfl
    exact ⟨rfl, by simp⟩

theorem tiles_cons_iff :
    Tiles len (r :: rs) l ↔ IsRecord len r ∧ r <+: l ∧ Tiles len rs (l.drop r.length) := by
  constructor
  · rintro ⟨rfl, hrec⟩
    refine ⟨hrec r List.mem_cons_self, by simp, ?_, fun q hq => hrec q (List.mem_cons_of_mem _ hq)⟩
    simp
  · rintro ⟨hr, ⟨t, rfl⟩, ht⟩
    rw [List.drop_left] at ht
    exact ⟨by simp [ht.flatten], List.forall_mem_cons.2 ⟨hr, ht.isRecord⟩⟩

theorem Tiles.head_eq (h : Tiles len (r :: rs) (a :: l)) :
    Fits len a (a :: l) ∧ r = (a :: l).take (len a) := by
  obtain ⟨⟨b, hb, hlen⟩, hpre, -⟩ := tiles_cons_iff.1 h
  cases r with
  | nil => simp at hb
  | cons c t =>
    obtain ⟨rfl, -⟩ := List.cons_prefix_cons.1 hpre
    obtain rfl : c = b := by simpa using hb
    rw [Fits, hlen]
    exact ⟨⟨by simp, hpre.length_le⟩, List.prefix_iff_eq_take.1 hpre⟩

theorem isRecord_take (h : Fits len a (a :: l)) : IsRecord len ((a :: l).take (len a)) := by
  obtain ⟨hpos, hle⟩ := h
  refine ⟨a, ?_, ?_⟩
  · rw [List.head?_take]
    simp [Nat.pos_iff_ne_zero.1 hpos]
  · rw [List.length_take, Nat.min_eq_left hle]

theorem Tiles.unique {rs' : List (List α)} (h : Tiles len rs l) (h' : Tiles len rs' l) :
    rs = rs' := by
  induction rs generalizing rs' l with
  | nil =>
    obtain rfl : [] = l := h.flatten
    exact (tiles_nil_iff.1 h').symm
  | cons r rs ih =>
    cases l with
    | nil => exact absurd (tiles_nil_iff.1 h) (by simp)
    | cons a l =>
      cases rs' with
      | nil => exact absurd h'.flatten (by simp)
      | cons r' rs' =>
        obtain rfl : r = r' := h.head_eq.2.trans h'.head_eq.2.symm
        rw [ih (tiles_cons_iff.1 h).2.2 (tiles_cons_iff.1 h').2.2]

@[simp] theorem tiled_nil : Tiled len P [] := ⟨[], tiles_nil_iff.2 rfl, by simp⟩

theorem not_tiled_of_not_fits (h : ¬ Fits len a (a :: l)) : ¬ Tiled len P (a :: l) := by
  rintro ⟨rs, ht, -⟩
  cases rs with
  | nil => exact absurd ht.flatten (by simp)
  | cons r rs => exact h ht.head_eq.1

/-- One step of the reader: the record its header announces, then the rest. -/
theorem tiled_iff_of_fits (h : Fits len a (a :: l)) :
    Tiled len P (a :: l) ↔
      P ((a :: l).take (len a)) ∧ Tiled len P ((a :: l).drop (len a)) := by
  have hlen : ((a :: l).take (len a)).length = len a := by
    rw [List.length_take, Nat.min_eq_left h.2]
  constructor
  · rintro ⟨rs, ht, hP⟩
    cases rs with
    | nil => exact absurd ht.flatten (by simp)
    | cons r rs =>
      obtain ⟨-, rfl⟩ := ht.head_eq
      have htail := (tiles_cons_iff.1 ht).2.2
      rw [hlen] at htail
      exact ⟨hP _ List.mem_cons_self, rs, htail, fun q hq => hP q (List.mem_cons_of_mem _ hq)⟩
  · rintro ⟨hr, rs, ht, hP⟩
    refine ⟨_ :: rs, tiles_cons_iff.2 ⟨isRecord_take h, List.take_prefix _ _, ?_⟩,
      List.forall_mem_cons.2 ⟨hr, hP⟩⟩
    rwa [hlen]

theorem Tiled.imp (hPQ : ∀ r, P r → Q r) (h : Tiled len P l) : Tiled len Q l := by
  obtain ⟨rs, ht, hP⟩ := h
  exact ⟨rs, ht, fun r hr => hPQ r (hP r hr)⟩

/-! ## A reader that keeps an offset -/

variable {i : Nat}

theorem fits_drop (h : i < l.length) (hok : ¬ (len l[i] = 0 ∨ l.length - i < len l[i])) :
    Fits len l[i] (l[i] :: l.drop (i + 1)) := by
  rw [Fits, ← List.drop_eq_getElem_cons h, List.length_drop]
  omega

theorem not_tiled_drop (h : i < l.length) (hbad : len l[i] = 0 ∨ l.length - i < len l[i]) :
    ¬ Tiled len P (l.drop i) := by
  rw [List.drop_eq_getElem_cons h]
  refine not_tiled_of_not_fits ?_
  rw [Fits, ← List.drop_eq_getElem_cons h, List.length_drop]
  omega

theorem tiled_drop_iff (h : i < l.length)
    (hok : ¬ (len l[i] = 0 ∨ l.length - i < len l[i])) :
    Tiled len P (l.drop i) ↔
      P ((l.drop i).take (len l[i])) ∧ Tiled len P (l.drop (i + len l[i])) := by
  rw [← List.drop_drop, List.drop_eq_getElem_cons h]
  exact tiled_iff_of_fits (fits_drop h hok)

end Records
