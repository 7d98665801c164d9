import Psbc.Lib.Bytes
import Psbc.Lib.Records

/-!
# SPIR-V modules

A module is its bytes. `words` is what a little-endian host reads of them; behind the
five words of the header they are a stream of records (`Psbc.Lib.Records`), since an
instruction's first word announces its length. `assemble` writes a module from its
instructions, and its words are read back as written (`words_wordBytes`).
-/

namespace Psbc.Spirv

open Bytes

abbrev Word := BitVec 32

/-- `spirv[i]` on the little-endian host. -/
def word (data : List Byte) (i : Nat) : Word := BitVec.ofNat 32 (readLe data (4 * i) 4)

def words (data : List Byte) : List Word := (List.range (data.length / 4)).map (word data)

/-- The upper half of an instruction's first word: its length in words. -/
def wordCount (instruction : Word) : Nat := (instruction >>> 16).toNat

def opcode (instruction : Word) : Nat := (instruction &&& 0xffff).toNat

def magicNumber : Word := 0x07230203

def opCapability : Nat := 17

/-- The first operand of an `OpCapability` instruction that has one. -/
def declaredCapability : List Word → Option Word
  | instruction :: operand :: _ =>
    if opcode instruction = opCapability then some operand else none
  | _ => none

/-- A whole number of words, at least the five of the header, with the magic number. -/
def HeaderOk (data : List Byte) : Prop :=
  20 ≤ data.length ∧ data.length % 4 = 0 ∧ word data 0 = magicNumber

/-- The instructions of a module, behind its header. -/
def body (data : List Byte) : List Word := (words data).drop 5

/-! ## Assembled modules -/

def wordBytes (ws : List Word) : List Byte := ws.flatMap fun w => leBytes 4 w.toNat

theorem word_cons_zero (w : Word) (ws : List Word) : word (wordBytes (w :: ws)) 0 = w := by
  have hread : readLe ([] ++ (leBytes 4 w.toNat ++ wordBytes ws)) 0 4 = w.toNat % 256 ^ 4 :=
    readLe_mid [] (wordBytes ws) rfl
  have hlt := w.isLt
  rw [word, wordBytes, List.flatMap_cons, ← wordBytes, ← List.nil_append (leBytes 4 _ ++ _),
    Nat.mul_zero, hread, Nat.mod_eq_of_lt (by omega), BitVec.ofNat_toNat, BitVec.setWidth_eq]

theorem word_cons_succ (w : Word) (ws : List Word) (i : Nat) :
    word (wordBytes (w :: ws)) (i + 1) = word (wordBytes ws) i := by
  have hslice : slice (leBytes 4 w.toNat ++ wordBytes ws) (4 * (i + 1)) 4 =
      slice (wordBytes ws) (4 * i) 4 :=
    slice_append_right _ _ (by rw [length_leBytes]; omega)
  rw [word, word, readLe, readLe, wordBytes, List.flatMap_cons, ← wordBytes, hslice]

@[simp] theorem length_wordBytes (ws : List Word) : (wordBytes ws).length = 4 * ws.length := by
  have hfour : ∀ w : Word, (leBytes 4 w.toNat).length = 4 := fun w => length_leBytes 4 _
  rw [wordBytes, length_flatMap_const hfour, Nat.mul_comm]

theorem words_wordBytes (ws : List Word) : words (wordBytes ws) = ws := by
  induction ws with
  | nil => rfl
  | cons w ws ih =>
    rw [words, length_wordBytes, Nat.mul_div_cancel_left _ (by decide)] at ih ⊢
    rw [List.length_cons, List.range_succ_eq_map, List.map_cons, List.map_map, word_cons_zero]
    refine congrArg (w :: ·) (Eq.trans ?_ ih)
    exact List.map_congr_left fun i _ => word_cons_succ w ws i

/-- A module of these instructions, with a header that bounds its ids by `bound`. -/
def assemble (bound : Word) (instructions : List (List Word)) : List Byte :=
  wordBytes ([magicNumber, 0x00010000, 0, bound, 0] ++ instructions.flatten)

theorem headerOk_assemble (bound : Word) (instructions : List (List Word)) :
    HeaderOk (assemble bound instructions) := by
  refine ⟨?_, ?_, word_cons_zero _ _⟩ <;> rw [assemble, length_wordBytes]
  · rw [List.length_append]
    simp only [List.length_cons, List.length_nil]
    omega
  · omega

theorem body_assemble (bound : Word) (instructions : List (List Word)) :
    body (assemble bound instructions) = instructions.flatten := by
  rw [body, assemble, words_wordBytes]
  rfl

end Psbc.Spirv
