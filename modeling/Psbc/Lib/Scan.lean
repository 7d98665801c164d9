import Mathlib.Algebra.Group.Nat.Defs
import Mathlib.Data.List.Basic
import Mathlib.Data.List.TakeWhile

/-!
# Numbers and fields in a text

`strtoul` and `sscanf` of the C library, for the conversions `%u` and `%<width>[^<stop>]` and
single characters of the format, and what they read of a text that was written for them:
numbers in decimal digits, fields without the stop character, with a character between them
that is part of neither.
-/

namespace Scan

/-! ## Digits -/

/-- The value of a digit or letter; 36 is no digit in any base. -/
def digitVal (c : Char) : Nat :=
  if c.isDigit then c.toNat - '0'.toNat
  else if c.isLower then c.toNat - 'a'.toNat + 10
  else if c.isUpper then c.toNat - 'A'.toNat + 10
  else 36

def isDigitOf (base : Nat) (c : Char) : Bool := decide (digitVal c < base)

def valueOf (base : Nat) (digits : List Char) : Nat :=
  digits.foldl (fun n c => base * n + digitVal c) 0

def decimal (n : Nat) : List Char := Nat.toDigits 10 n

theorem digitVal_of_isDigit {c : Char} (h : c.isDigit) : digitVal c = c.toNat - '0'.toNat :=
  if_pos h

theorem isDigitOf_ten {c : Char} (h : c.isDigit) : isDigitOf 10 c = true := by
  obtain ⟨hge, hle⟩ := Char.isDigit_iff_toNat.mp h
  have hnine : '9'.toNat = '0'.toNat + 9 := rfl
  rw [isDigitOf, digitVal_of_isDigit h, decide_eq_true_eq]
  omega

theorem isDigit_of_mem_decimal {n : Nat} {c : Char} (h : c ∈ decimal n) : c.isDigit :=
  Nat.isDigit_of_mem_toDigits (by decide) (by decide) h

theorem valueOf_eq_ofDigitChars {digits : List Char} (h : ∀ c ∈ digits, c.isDigit) :
    valueOf 10 digits = Nat.ofDigitChars 10 digits 0 := by
  rw [valueOf, Nat.ofDigitChars_eq_foldl]
  refine List.foldl_ext _ _ _ fun n c hc => ?_
  rw [digitVal_of_isDigit (h c hc)]

theorem valueOf_decimal (n : Nat) : valueOf 10 (decimal n) = n := by
  rw [valueOf_eq_ofDigitChars fun _ => isDigit_of_mem_decimal]
  exact Nat.ofDigitChars_ten_toDigits

theorem decimal_ne_nil (n : Nat) : decimal n ≠ [] := Nat.toDigits_ne_nil

theorem head?_decimal_ne_zero {n : Nat} (hn : n ≠ 0) : (decimal n).head? ≠ some '0' := by
  induction n using Nat.strongRecOn with
  | ind n ih =>
    rw [decimal, Nat.toDigits_eq_if (by decide)]
    split
    next hlt =>
      intro hhead
      have hdigit : Nat.digitChar n = '0' := Option.some.inj hhead
      have hall : ∀ m < 10, Nat.digitChar m = '0' → m = 0 := by decide
      exact hn (hall n hlt hdigit)
    next hge =>
      rw [List.head?_append_of_ne_nil _ Nat.toDigits_ne_nil]
      exact ih (n / 10) (by omega) (by omega)

/-! ## Conversions -/

def isSpace (c : Char) : Bool := c ∈ [' ', '\t', '\n', '\x0b', '\x0c', '\r']

/-- An optional sign, and whether it is a minus. -/
def splitSign : List Char → Bool × List Char
  | '-' :: cs => (true, cs)
  | '+' :: cs => (false, cs)
  | cs => (false, cs)

/-- A number as an `unsigned long`: the largest one when it does not fit. -/
def toUlong (negative : Bool) (n : Nat) : Nat :=
  if 2 ^ 64 ≤ n then 2 ^ 64 - 1 else if negative then (2 ^ 64 - n) % 2 ^ 64 else n

/-- The base that base 0 stands for, and the text behind its mark. -/
def splitBase : List Char → Nat × List Char
  | '0' :: x :: d :: cs =>
    if (x = 'x' ∨ x = 'X') ∧ isDigitOf 16 d then (16, d :: cs) else (8, '0' :: x :: d :: cs)
  | '0' :: cs => (8, '0' :: cs)
  | cs => (10, cs)

/-- `strtoul(text, &end, 0)`: the value, and the text from `end` on. -/
def strtoul (text : List Char) : Nat × List Char :=
  let (negative, unsigned) := splitSign (text.dropWhile isSpace)
  let (base, digits) := splitBase unsigned
  if digits.takeWhile (isDigitOf base) = [] then (0, text)
  else (toUlong negative (valueOf base (digits.takeWhile (isDigitOf base))),
    digits.dropWhile (isDigitOf base))

/-! ## Formats -/

inductive Directive where
  /-- `%u` -/
  | unsigned
  /-- `%<width>[^<stop>]` -/
  | field (width : Nat) (stop : Char)
  | literal (c : Char)
  deriving DecidableEq, Repr

inductive Item where
  | number (n : Nat)
  | text (cs : List Char)
  deriving DecidableEq, Repr

/-- `%u`, and the text behind it. -/
def scanUnsigned (text : List Char) : Option (Nat × List Char) :=
  let (negative, digits) := splitSign (text.dropWhile isSpace)
  if digits.takeWhile (isDigitOf 10) = [] then none
  else some (toUlong negative (valueOf 10 (digits.takeWhile (isDigitOf 10))) % 2 ^ 32,
    digits.dropWhile (isDigitOf 10))

/-- The items that were assigned up to the first directive that fails. -/
def sscanf : List Directive → List Char → List Item
  | [], _ => []
  | .literal c :: format, text =>
    match text with
    | [] => []
    | c' :: text => if c = c' then sscanf format text else []
  | .unsigned :: format, text =>
    match scanUnsigned text with
    | none => []
    | some (n, text) => .number n :: sscanf format text
  | .field width stop :: format, text =>
    let field := (text.takeWhile (· ≠ stop)).take width
    if field = [] then [] else .text field :: sscanf format (text.drop field.length)

/-! ## Reading what was written -/

/-- The text is at its end or goes on with a character without `p`. -/
def Stops (p : Char → Bool) (rest : List Char) : Prop := ∀ c ∈ rest.head?, p c = false

section Stops

variable {p : Char → Bool} {cs rest : List Char}

theorem takeWhile_append_of_stops (hcs : ∀ c ∈ cs, p c = true) (hrest : Stops p rest) :
    (cs ++ rest).takeWhile p = cs := by
  rw [List.takeWhile_append_of_pos hcs]
  cases rest with
  | nil => exact List.append_nil cs
  | cons c rest =>
    rw [List.takeWhile_cons_of_neg (by rw [hrest c rfl]; decide), List.append_nil]

theorem dropWhile_append_of_stops (hcs : ∀ c ∈ cs, p c = true) (hrest : Stops p rest) :
    (cs ++ rest).dropWhile p = rest := by
  rw [List.dropWhile_append_of_pos hcs]
  cases rest with
  | nil => rfl
  | cons c rest => rw [List.dropWhile_cons_of_neg (by rw [hrest c rfl]; decide)]

end Stops

theorem isSpace_of_isDigit {c : Char} (h : c.isDigit) : isSpace c = false := by
  have hno : [' ', '\t', '\n', '\x0b', '\x0c', '\r'].all (!·.isDigit) := by decide
  refine decide_eq_false fun hspace => ?_
  have hc := List.all_eq_true.mp hno c hspace
  rw [h] at hc
  cases hc

theorem splitSign_of_isDigit {cs : List Char} (h : ∀ c ∈ cs.head?, c.isDigit) :
    splitSign (cs.dropWhile isSpace) = (false, cs) := by
  cases cs with
  | nil => rfl
  | cons c cs =>
    have hc : c.isDigit := h c rfl
    rw [List.dropWhile_cons_of_neg (by rw [isSpace_of_isDigit hc]; decide)]
    unfold splitSign
    split
    next heq =>
      obtain ⟨rfl, _⟩ := List.cons.inj heq
      cases hc
    next heq =>
      obtain ⟨rfl, _⟩ := List.cons.inj heq
      cases hc
    next => rfl

theorem toUlong_of_lt {n : Nat} (h : n < 2 ^ 64) : toUlong false n = n := by
  rw [toUlong, if_neg (Nat.not_le.mpr h)]
  rfl

theorem isDigitOf_of_mem_decimal {n : Nat} {c : Char} (h : c ∈ decimal n) :
    isDigitOf 10 c = true := isDigitOf_ten (isDigit_of_mem_decimal h)

theorem splitSign_decimal (n : Nat) (rest : List Char) :
    splitSign ((decimal n ++ rest).dropWhile isSpace) = (false, decimal n ++ rest) := by
  refine splitSign_of_isDigit fun c hc => ?_
  rw [List.head?_append_of_ne_nil _ (decimal_ne_nil n)] at hc
  exact isDigit_of_mem_decimal (List.mem_of_head? hc)

theorem scanUnsigned_decimal {n : Nat} (hn : n < 2 ^ 32) {rest : List Char}
    (hrest : Stops (isDigitOf 10) rest) : scanUnsigned (decimal n ++ rest) = some (n, rest) := by
  have htake := takeWhile_append_of_stops (fun _ => isDigitOf_of_mem_decimal (n := n)) hrest
  have hdrop := dropWhile_append_of_stops (fun _ => isDigitOf_of_mem_decimal (n := n)) hrest
  rw [scanUnsigned, splitSign_decimal]
  simp only [htake, hdrop, decimal_ne_nil, if_false, valueOf_decimal]
  rw [toUlong_of_lt (by omega), Nat.mod_eq_of_lt hn]

theorem strtoul_decimal {n : Nat} (hn : n < 2 ^ 64) : strtoul (decimal n) = (n, []) := by
  by_cases hzero : n = 0
  · subst hzero
    decide
  have hsign : splitSign ((decimal n).dropWhile isSpace) = (false, decimal n) := by
    simpa using splitSign_decimal n []
  have hbase : splitBase (decimal n) = (10, decimal n) := by
    have hhead := head?_decimal_ne_zero hzero
    unfold splitBase
    split
    next heq =>
      rw [heq] at hhead
      exact absurd rfl hhead
    next heq =>
      rw [heq] at hhead
      exact absurd rfl hhead
    next => rfl
  have htake : (decimal n).takeWhile (isDigitOf 10) = decimal n :=
    List.takeWhile_eq_self_iff.mpr fun _ => isDigitOf_of_mem_decimal
  have hdrop : (decimal n).dropWhile (isDigitOf 10) = [] :=
    List.dropWhile_eq_nil_iff.mpr fun _ => isDigitOf_of_mem_decimal
  rw [strtoul, hsign]
  simp only [hbase, htake, hdrop, decimal_ne_nil, if_false, valueOf_decimal, toUlong_of_lt hn]

/-! ### Directives -/

section Directives

variable {format : List Directive} {rest : List Char}

theorem sscanf_decimal {n : Nat} (hn : n < 2 ^ 32) (hrest : Stops (isDigitOf 10) rest) :
    sscanf (.unsigned :: format) (decimal n ++ rest) = .number n :: sscanf format rest := by
  rw [sscanf, scanUnsigned_decimal hn hrest]

theorem sscanf_literal {c : Char} :
    sscanf (.literal c :: format) (c :: rest) = sscanf format rest := by
  rw [sscanf, if_pos rfl]

theorem sscanf_field {width : Nat} {stop : Char} {cs : List Char} (hne : cs ≠ [])
    (hlen : cs.length ≤ width) (hcs : stop ∉ cs) (hrest : Stops (· ≠ stop) rest) :
    sscanf (.field width stop :: format) (cs ++ rest) = .text cs :: sscanf format rest := by
  have hall : ∀ c ∈ cs, decide (c ≠ stop) = true := fun c hc =>
    decide_eq_true fun heq => hcs (heq ▸ hc)
  rw [sscanf]
  simp only [takeWhile_append_of_stops hall hrest, List.take_of_length_le hlen, hne, if_false,
    List.drop_left]

end Directives

/-! ### Records -/

/-- A part of a record: a number, or a text of at most `width` characters. -/
inductive Part where
  | number (n : Nat)
  | field (width : Nat) (cs : List Char)

namespace Part

def directive (sep : Char) : Part → Directive
  | number _ => .unsigned
  | field width _ => .field width sep

def text : Part → List Char
  | number n => decimal n
  | field _ cs => cs

def item : Part → Item
  | number n => .number n
  | field _ cs => .text cs

/-- The part can be read back. -/
def Fits (sep : Char) : Part → Prop
  | number n => n < 2 ^ 32
  | field width cs => cs ≠ [] ∧ cs.length ≤ width ∧ sep ∉ cs

end Part

/-- The parts with a separator between them. -/
def recordText (sep : Char) (parts : List Part) : List Char :=
  [sep].intercalate (parts.map Part.text)

def recordFormat (sep : Char) (parts : List Part) : List Directive :=
  (parts.map (Part.directive sep)).intersperse (.literal sep)

section Records

variable {sep : Char} {format : List Directive} {rest : List Char}

theorem stops_of_head {p : Char → Bool} (hp : p sep = false) (hrest : ∀ c ∈ rest.head?, c = sep) :
    Stops p rest := by
  intro c hc
  rw [hrest c hc, hp]

theorem sscanf_part {p : Part} (hsep : isDigitOf 10 sep = false) (hp : p.Fits sep)
    (hrest : ∀ c ∈ rest.head?, c = sep) :
    sscanf (p.directive sep :: format) (p.text ++ rest) = p.item :: sscanf format rest := by
  cases p with
  | number n => exact sscanf_decimal hp (stops_of_head hsep hrest)
  | field width cs =>
    obtain ⟨hne, hlen, hcs⟩ := hp
    exact sscanf_field hne hlen hcs (stops_of_head (by simp) hrest)

/-- **A record is read back**, also when the format goes on behind its last part. -/
theorem sscanf_record {parts : List Part} (hsep : isDigitOf 10 sep = false)
    (hparts : ∀ p ∈ parts, p.Fits sep) (hne : parts ≠ []) (hformat : sscanf format [] = []) :
    sscanf (recordFormat sep parts ++ format) (recordText sep parts) = parts.map Part.item := by
  unfold recordFormat recordText
  induction parts with
  | nil => exact absurd rfl hne
  | cons p parts ih =>
    obtain ⟨hp, hparts⟩ := List.forall_mem_cons.mp hparts
    cases parts with
    | nil =>
      have hend : ∀ c ∈ ([] : List Char).head?, c = sep := nofun
      have hpart : sscanf (p.directive sep :: format) (p.text ++ []) = [p.item] := by
        rw [sscanf_part hsep hp hend, hformat]
      rw [List.append_nil] at hpart
      simp only [List.map_singleton, List.intersperse_singleton, List.intercalate_singleton]
      exact hpart
    | cons q parts =>
      have hrest : ∀ rest, ∀ c ∈ (sep :: rest).head?, c = sep := by
        rintro rest c ⟨⟩
        rfl
      simp only [List.map_cons, List.intersperse_cons_cons, List.intercalate_cons_cons,
        List.cons_append, List.append_assoc, List.nil_append] at ih ⊢
      rw [sscanf_part hsep hp (hrest _), sscanf_literal, ih hparts (List.cons_ne_nil q parts)]

end Records

end Scan
