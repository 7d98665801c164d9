import Mathlib.Logic.Function.Basic

/-!
# Tables filled by agreeing entries

A partial table `α → Option β` is filled one entry at a time. `record` fails on an
entry that disagrees with the one already there; recording the same entry again is
harmless. Recording a whole list succeeds exactly when some table has the list's
entries and no others (`recordAll_eq_some_iff`), so the order of the list does not
matter.

`foldlM_guard` separates a loop that checks and records into its checks and its
entries.
-/

namespace AgreeTable

variable {α β γ : Type} [DecidableEq α] [DecidableEq β]

/-- Enter `e.2` at `e.1`, unless something else is there. -/
def record (t : α → Option β) (e : α × β) : Option (α → Option β) :=
  match t e.1 with
  | some b => if b = e.2 then some (Function.update t e.1 (some e.2)) else none
  | none => some (Function.update t e.1 (some e.2))

def recordAll (t : α → Option β) (l : List (α × β)) : Option (α → Option β) := l.foldlM record t

@[simp]
theorem recordAll_singleton (t : α → Option β) (e : α × β) : recordAll t [e] = record t e := by
  simp [recordAll]

theorem recordAll_append (t : α → Option β) (l l' : List (α × β)) :
    recordAll t (l ++ l') = (recordAll t l).bind fun t' => recordAll t' l' := by
  simp [recordAll, Option.bind_eq_bind]

/-- An entry that agrees with the table. -/
theorem record_of_agree {t : α → Option β} {e : α × β} (h : ∀ b, t e.1 = some b → b = e.2) :
    record t e = some (Function.update t e.1 (some e.2)) := by
  unfold record
  split
  · next b hb => rw [if_pos (h b hb)]
  · rfl

omit [DecidableEq β] in
theorem update_eq_some_iff {t : α → Option β} {e : α × β} (h : ∀ b, t e.1 = some b → b = e.2)
    (a : α) (b : β) :
    Function.update t e.1 (some e.2) a = some b ↔ t a = some b ∨ (a, b) = e := by
  obtain ⟨k, v⟩ := e
  by_cases hak : a = k
  · subst hak
    simp only [Function.update_self, Option.some.injEq, Prod.mk.injEq, true_and]
    constructor
    · exact fun hvb => Or.inr hvb.symm
    · rintro (hb | rfl)
      · exact (h b hb).symm
      · rfl
  · simp [hak]

theorem record_eq_some {t t' : α → Option β} {e : α × β} (h : record t e = some t') :
    ∀ b, t e.1 = some b → b = e.2 := by
  intro b hb
  unfold record at h
  simp only [hb] at h
  by_contra hne
  rw [if_neg hne] at h
  cases h

/-- **A list is recorded exactly when its entries agree**, with each other and with the
table. -/
theorem recordAll_eq_some_iff {t t' : α → Option β} {l : List (α × β)} :
    recordAll t l = some t' ↔ ∀ a b, t' a = some b ↔ t a = some b ∨ (a, b) ∈ l := by
  induction l generalizing t with
  | nil =>
    constructor
    · intro h
      obtain rfl : t = t' := by simpa [recordAll] using h
      simp
    · intro h
      have heq : t = t' := by
        funext a
        exact Option.ext fun b => by simp [h a b]
      simp [recordAll, heq]
  | cons e l ih =>
    have hcons : recordAll t (e :: l) = (record t e).bind fun mid => recordAll mid l := by
      simp [recordAll, Option.bind_eq_bind]
    rw [hcons, Option.bind_eq_some_iff]
    constructor
    · rintro ⟨mid, hmid, hrest⟩ a b
      have hagree := record_eq_some hmid
      rw [record_of_agree hagree, Option.some.injEq] at hmid
      rw [ih.mp hrest a b, ← hmid, update_eq_some_iff hagree a b, List.mem_cons, or_assoc]
    · intro h
      -- the final table holds both the old entry and the new one
      have hagree : ∀ b, t e.1 = some b → b = e.2 := by
        intro b hb
        have hold := (h e.1 b).mpr (Or.inl hb)
        have hnew := (h e.1 e.2).mpr (Or.inr List.mem_cons_self)
        exact Option.some.inj (hold.symm.trans hnew)
      refine ⟨_, record_of_agree hagree, ih.mpr fun a b => ?_⟩
      rw [h a b, update_eq_some_iff hagree a b, List.mem_cons, or_assoc]

/-- A loop that checks each element and records its entries: all checks pass and all
entries are recorded, or it fails. -/
theorem foldlM_guard {f : (α → Option β) → γ → Option (α → Option β)} (ok : γ → Prop)
    (entries : γ → List (α × β)) (l : List γ)
    (hf : ∀ c ∈ l, ∀ t t', f t c = some t' ↔ ok c ∧ recordAll t (entries c) = some t')
    {t t' : α → Option β} :
    l.foldlM f t = some t' ↔ (∀ c ∈ l, ok c) ∧ recordAll t (l.flatMap entries) = some t' := by
  induction l generalizing t with
  | nil => simp [recordAll]
  | cons c l ih =>
    obtain ⟨hc, hl⟩ := List.forall_mem_cons.mp hf
    simp only [List.foldlM_cons, Option.bind_eq_bind, Option.bind_eq_some_iff, hc, ih hl,
      List.flatMap_cons, recordAll_append, List.forall_mem_cons]
    constructor
    · rintro ⟨mid, ⟨hok, hmid⟩, hoks, hrest⟩
      exact ⟨⟨hok, hoks⟩, mid, hmid, hrest⟩
    · rintro ⟨⟨hok, hoks⟩, mid, hmid, hrest⟩
      exact ⟨mid, ⟨hok, hmid⟩, hoks, hrest⟩

omit [DecidableEq β] in
theorem mapM_range_eq_some_iff {t : Nat → Option β} {n : Nat} {ws : List β} :
    (List.range n).mapM t = some ws ↔ ws.length = n ∧ ∀ a < n, t a = ws[a]? := by
  induction n generalizing ws with
  | zero =>
    simp only [List.range_zero, List.mapM_nil, Option.pure_def, Option.some.injEq]
    constructor
    · rintro rfl
      simp
    · rintro ⟨hlen, -⟩
      exact (List.eq_nil_of_length_eq_zero hlen).symm
  | succ n ih =>
    simp only [List.range_succ, List.mapM_append, List.mapM_cons, List.mapM_nil,
      Option.bind_eq_bind, Option.bind_eq_some_iff, Option.pure_def, Option.some.injEq]
    constructor
    · rintro ⟨init, hinit, _, ⟨b, hb, _, rfl, rfl⟩, rfl⟩
      obtain ⟨hlen, hread⟩ := ih.mp hinit
      refine ⟨by simp [hlen], fun a ha => ?_⟩
      rcases Nat.lt_succ_iff_lt_or_eq.mp ha with hlt | rfl
      · rw [hread a hlt, List.getElem?_append_left (by omega)]
      · rw [hb, List.getElem?_append_right (by omega)]
        simp [hlen]
    · rintro ⟨hlen, hread⟩
      have hlast := hread n (Nat.lt_succ_self n)
      have hne : n < ws.length := by omega
      rw [List.getElem?_eq_getElem hne] at hlast
      refine ⟨ws.take n, ih.mpr ⟨by simp [hlen], fun a ha => ?_⟩, [ws[n]], ?_, ?_⟩
      · rw [hread a (by omega), List.getElem?_take_of_lt ha]
      · exact ⟨_, hlast, [], rfl, rfl⟩
      · rw [List.take_append_getElem hne, List.take_of_length_le (by omega)]

end AgreeTable
