import Mathlib.Data.List.Basic

/-!
# Fallible computations with a trace

A `Traced ε ev α` ends with an `α` or an error and has done the events of its trace, in
order; what follows an error is not done. `Meets needs past t` says that every event of
`t` finds what it needs among the events before it, those of `past` included. The rules
reduce it, and membership in a trace, from a sequence of computations to its parts.
`exitIf` is an exit that cleans up, `each` a loop; `Always P` says that every event
satisfies `P`.
-/

structure Traced (ε ev α : Type) where
  trace : List ev
  result : Except ε α

namespace Traced

variable {ε ev α β : Type}

protected def bind (x : Traced ε ev α) (f : α → Traced ε ev β) : Traced ε ev β :=
  match x.result with
  | .error e => ⟨x.trace, .error e⟩
  | .ok a => ⟨x.trace ++ (f a).trace, (f a).result⟩

instance : Monad (Traced ε ev) where
  pure a := ⟨[], .ok a⟩
  bind := Traced.bind

/-- Stop with `e` when the test is true. -/
def refuse (test : Bool) (e : ε) : Traced ε ev Unit :=
  ⟨[], if test then .error e else .ok ()⟩

/-- Do `x` only when the test is true. -/
def onlyIf (test : Bool) (x : Traced ε ev Unit) : Traced ε ev Unit :=
  if test then x else pure ()

def acts (t : List ev) : Traced ε ev Unit := ⟨t, .ok ()⟩

/-- Do the events `t` and stop with `e` when the test is true. -/
def exitIf (test : Bool) (t : List ev) (e : ε) : Traced ε ev Unit :=
  if test then ⟨t, .error e⟩ else pure ()

/-- A loop: `f` for the members of the list, in order. -/
def each (f : α → Traced ε ev Unit) : List α → Traced ε ev Unit
  | [] => pure ()
  | a :: l => f a >>= fun _ => each f l

def event (e : ev) (result : Except ε α) : Traced ε ev α := ⟨[e], result⟩

@[simp] theorem trace_pure (a : α) : (pure a : Traced ε ev α).trace = [] := rfl

@[simp] theorem result_pure (a : α) : (pure a : Traced ε ev α).result = .ok a := rfl

@[simp] theorem trace_refuse (b : Bool) (e : ε) :
    (refuse b e : Traced ε ev Unit).trace = [] := rfl

@[simp] theorem trace_event (e : ev) (r : Except ε α) : (event e r).trace = [e] := rfl

@[simp] theorem result_event (e : ev) (r : Except ε α) : (event e r).result = r := rfl

@[simp] theorem result_refuse_eq_ok {b : Bool} {e : ε} {u : Unit} :
    (refuse b e : Traced ε ev Unit).result = .ok u ↔ b = false := by
  cases b <;> simp [refuse]

@[simp] theorem result_onlyIf_eq_ok {b : Bool} {x : Traced ε ev Unit} {u : Unit} :
    (onlyIf b x).result = .ok u ↔ (b = true → x.result = .ok u) := by
  cases b <;> simp [onlyIf]

@[simp] theorem mem_trace_onlyIf {b : Bool} {x : Traced ε ev Unit} {e : ev} :
    e ∈ (onlyIf b x).trace ↔ b = true ∧ e ∈ x.trace := by
  cases b <;> simp [onlyIf]

theorem result_bind (x : Traced ε ev α) (f : α → Traced ε ev β) :
    (x >>= f).result = x.result.bind fun a => (f a).result := by
  obtain ⟨t, r⟩ := x
  cases r <;> rfl

theorem result_refuse (b : Bool) (e : ε) :
    (refuse b e : Traced ε ev Unit).result = if b then .error e else .ok () := rfl

theorem result_onlyIf (b : Bool) (x : Traced ε ev Unit) :
    (onlyIf b x).result = if b then x.result else .ok () := by
  cases b <;> rfl

theorem result_refuse_bind (b : Bool) (e : ε) (f : Unit → Traced ε ev β) :
    (refuse b e >>= f).result = if b then .error e else (f ()).result := by
  cases b <;> rfl

@[simp] theorem result_bind_eq_ok {x : Traced ε ev α} {f : α → Traced ε ev β} {b : β} :
    (x >>= f).result = .ok b ↔ ∃ a, x.result = .ok a ∧ (f a).result = .ok b := by
  obtain ⟨t, r⟩ := x
  cases r <;> simp [bind, Traced.bind]

theorem trace_bind_of_ok {x : Traced ε ev α} {f : α → Traced ε ev β} {a : α}
    (h : x.result = .ok a) : (x >>= f).trace = x.trace ++ (f a).trace := by
  obtain ⟨t, r⟩ := x
  cases h
  rfl

theorem trace_bind_of_error {x : Traced ε ev α} {f : α → Traced ε ev β} {e : ε}
    (h : x.result = .error e) : (x >>= f).trace = x.trace := by
  obtain ⟨t, r⟩ := x
  cases h
  rfl

@[simp] theorem mem_trace_bind {x : Traced ε ev α} {f : α → Traced ε ev β} {e : ev} :
    e ∈ (x >>= f).trace ↔ e ∈ x.trace ∨ ∃ a, x.result = .ok a ∧ e ∈ (f a).trace := by
  cases h : x.result with
  | error err => simp [trace_bind_of_error h]
  | ok a => simp [trace_bind_of_ok h]

/-- When `x` succeeds, it has done `e`. -/
def Ensures (x : Traced ε ev α) (e : ev) : Prop := ∀ a, x.result = .ok a → e ∈ x.trace

theorem Ensures.bind_left {x : Traced ε ev α} {f : α → Traced ε ev β} {e : ev}
    (h : x.Ensures e) : (x >>= f).Ensures e := by
  intro b hb
  obtain ⟨a, ha, -⟩ := result_bind_eq_ok.1 hb
  exact mem_trace_bind.2 (.inl (h a ha))

theorem Ensures.bind_right {x : Traced ε ev α} {f : α → Traced ε ev β} {e : ev}
    (h : ∀ a, (f a).Ensures e) : (x >>= f).Ensures e := by
  intro b hb
  obtain ⟨a, ha, hf⟩ := result_bind_eq_ok.1 hb
  exact mem_trace_bind.2 (.inr ⟨a, ha, h a b hf⟩)

/-! ## Events that need earlier ones -/

variable (needs : List ev → ev → Prop)

/-- Every event of the trace finds what it needs in `past` and the events before it. -/
def Meets (past : List ev) : List ev → Prop
  | [] => True
  | e :: t => needs past e ∧ Meets (past ++ [e]) t

variable {needs} {past t t₁ t₂ : List ev}

@[simp] theorem meets_nil : Meets needs past [] := trivial

@[simp] theorem meets_singleton {e : ev} : Meets needs past [e] ↔ needs past e :=
  and_iff_left trivial

theorem meets_append :
    Meets needs past (t₁ ++ t₂) ↔ Meets needs past t₁ ∧ Meets needs (past ++ t₁) t₂ := by
  induction t₁ generalizing past with
  | nil => simp
  | cons e t₁ ih =>
    rw [List.cons_append, Meets, Meets, ih, List.append_assoc, and_assoc]
    rfl

/-- `Meets` as a statement about every place of the trace. -/
theorem meets_iff_forall_split :
    Meets needs past t ↔ ∀ pre e post, t = pre ++ e :: post → needs (past ++ pre) e := by
  constructor
  · rintro h pre e post rfl
    exact (meets_append.1 h).2.1
  · intro h
    induction t generalizing past with
    | nil => trivial
    | cons e t ih =>
      refine ⟨by simpa using h [] e t rfl, ih fun pre e' post heq => ?_⟩
      rw [List.append_assoc]
      exact h (e :: pre) e' post (by rw [heq]; rfl)

theorem meets_of_forall (h : ∀ e ∈ t, ∀ past, needs past e) : Meets needs past t := by
  rw [meets_iff_forall_split]
  rintro pre e post rfl
  exact h e (by simp) _

theorem meets_bind {x : Traced ε ev α} {f : α → Traced ε ev β} :
    Meets needs past (x >>= f).trace ↔
      Meets needs past x.trace ∧
        ∀ a, x.result = .ok a → Meets needs (past ++ x.trace) (f a).trace := by
  cases h : x.result with
  | error err => simp [trace_bind_of_error h]
  | ok a => simp [trace_bind_of_ok h, meets_append]

theorem meets_onlyIf {b : Bool} {x : Traced ε ev Unit} :
    Meets needs past (onlyIf b x).trace ↔ (b = true → Meets needs past x.trace) := by
  cases b <;> simp [onlyIf]

/-! ## Exits and loops -/

section Loops

variable {f : α → Traced ε ev Unit} {l : List α} {b : Bool} {e : ε}

@[simp] theorem trace_acts (t : List ev) : (acts t : Traced ε ev Unit).trace = t := rfl

@[simp] theorem result_acts (t : List ev) : (acts t : Traced ε ev Unit).result = .ok () := rfl

theorem result_exitIf (t : List ev) :
    (exitIf b t e).result = if b then .error e else .ok () := by
  cases b <;> rfl

theorem result_acts_bind (t : List ev) (g : Unit → Traced ε ev β) :
    (acts t >>= g).result = (g ()).result := rfl

theorem result_exitIf_bind (t : List ev) (g : Unit → Traced ε ev β) :
    (exitIf b t e >>= g).result = if b then .error e else (g ()).result := by
  cases b <;> rfl

@[simp] theorem mem_trace_exitIf {t : List ev} {x : ev} :
    x ∈ (exitIf b t e).trace ↔ b = true ∧ x ∈ t := by
  cases b <;> simp [exitIf]

theorem result_each {p : α → Bool}
    (h : ∀ a ∈ l, (f a).result = if p a then .error e else .ok ()) :
    (each f l).result = if l.any p then .error e else .ok () := by
  induction l with
  | nil => rfl
  | cons a l ih =>
    obtain ⟨ha, hl⟩ := List.forall_mem_cons.mp h
    rw [each, result_bind, ha, ih hl, List.any_cons]
    cases p a <;> rfl

/-- An event of a loop belongs to a turn that the turns before let happen. -/
theorem mem_trace_each {x : ev} :
    x ∈ (each f l).trace ↔ ∃ pre a post, l = pre ++ a :: post ∧
      (∀ c ∈ pre, (f c).result = .ok ()) ∧ x ∈ (f a).trace := by
  induction l with
  | nil => simp [each]
  | cons a l ih =>
    rw [each, mem_trace_bind]
    constructor
    · rintro (hx | ⟨_, ha, hx⟩)
      · exact ⟨[], a, l, rfl, by simp, hx⟩
      · obtain ⟨pre, c, post, rfl, hpre, hc⟩ := ih.mp hx
        exact ⟨a :: pre, c, post, rfl, List.forall_mem_cons.mpr ⟨ha, hpre⟩, hc⟩
    · rintro ⟨pre, c, post, heq, hpre, hc⟩
      cases pre with
      | nil =>
        obtain ⟨rfl, -⟩ := List.cons_eq_cons.mp heq
        exact .inl hc
      | cons d pre =>
        obtain ⟨rfl, rfl⟩ := List.cons_eq_cons.mp heq
        obtain ⟨hd, hpre⟩ := List.forall_mem_cons.mp hpre
        exact .inr ⟨(), hd, ih.mpr ⟨pre, c, post, rfl, hpre, hc⟩⟩

theorem mem_trace_each_range {g : Nat → Traced ε ev Unit} {n : Nat} {x : ev} :
    x ∈ (each g (List.range n)).trace ↔
      ∃ i < n, (∀ j < i, (g j).result = .ok ()) ∧ x ∈ (g i).trace := by
  rw [mem_trace_each]
  constructor
  · rintro ⟨pre, i, post, heq, hpre, hx⟩
    have hlength : n = pre.length + (post.length + 1) := by
      simpa using congrArg List.length heq
    have hat := congrArg (·[pre.length]?) heq
    simp only [List.getElem?_range (show pre.length < n by omega), List.getElem?_append_right,
      Nat.le_refl, Nat.sub_self, List.getElem?_cons_zero, Option.some.injEq] at hat
    have htake : pre = List.range i := by
      rw [← hat, ← Nat.min_eq_left (show pre.length ≤ n by omega), ← List.take_range, heq,
        List.take_left']
      omega
    exact ⟨i, by omega, fun j hj => hpre j (htake ▸ List.mem_range.mpr hj), hx⟩
  · rintro ⟨i, hi, hpre, hx⟩
    refine ⟨List.range i, i, (List.range n).drop (i + 1), ?_,
      fun j hj => hpre j (List.mem_range.mp hj), hx⟩
    have hsplit := List.take_append_drop i (List.range n)
    rw [List.take_range, Nat.min_eq_left (by omega),
      List.drop_eq_getElem_cons (by simpa using hi), List.getElem_range] at hsplit
    exact hsplit.symm

end Loops

/-! ## Events of one kind -/

/-- Every event satisfies `P`. -/
def Always (P : ev → Prop) (x : Traced ε ev α) : Prop := ∀ e ∈ x.trace, P e

section Always

variable {P Q : ev → Prop} {x y : Traced ε ev Unit} {b : Bool} {e : ε}

theorem Always.imp (h : Always P x) (hPQ : ∀ a, P a → Q a) : Always Q x :=
  fun a ha => hPQ a (h a ha)

theorem always_bind :
    Always P (x >>= fun _ => y) ↔ Always P x ∧ (x.result = .ok () → Always P y) := by
  simp only [Always, mem_trace_bind, or_imp, forall_and, forall_exists_index, and_imp]
  refine and_congr_right fun _ => ⟨fun h hok a ha => h a () hok ha, ?_⟩
  intro h a _ hok ha
  exact h hok a ha

theorem always_of_trace_nil (h : x.trace = []) : Always P x := by
  intro a ha
  rw [h] at ha
  exact absurd ha List.not_mem_nil

theorem always_pure : Always P (pure () : Traced ε ev Unit) := always_of_trace_nil rfl

theorem always_refuse : Always P (refuse b e : Traced ε ev Unit) := always_of_trace_nil rfl

theorem always_acts {t : List ev} : Always P (acts t : Traced ε ev Unit) ↔ ∀ a ∈ t, P a := .rfl

theorem always_exitIf {t : List ev} (h : ∀ a ∈ t, P a) : Always P (exitIf b t e) :=
  fun a ha => h a (mem_trace_exitIf.mp ha).2

theorem always_onlyIf (h : b = true → Always P x) : Always P (onlyIf b x) := by
  intro a ha
  obtain ⟨hb, ha⟩ := mem_trace_onlyIf.mp ha
  exact h hb a ha

theorem always_each {f : α → Traced ε ev Unit} {l : List α} (h : ∀ a ∈ l, Always P (f a)) :
    Always P (each f l) := by
  intro a ha
  obtain ⟨pre, c, post, rfl, -, ha⟩ := mem_trace_each.mp ha
  exact h c (by simp) a ha

end Always

end Traced
