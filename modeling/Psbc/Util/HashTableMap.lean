import Psbc.Lib.Simulation
import Psbc.Lib.Slots
import Psbc.Lib.Trial
import Psbc.Util.HashTable

/-!
# The hash table is a map

The entries of a table are a list of keys with their data, up to order and with no key twice.
`Sound` is why a search finds them: from the slot of its hash to the entry, the walk of a key
meets no slot that was never used. The sizes of the table are primes, so that every walk visits
every slot, and the limit of the entries leaves one unused.

A run of insertions, removals and searches on the table gives what it gives on the list. The walk
of the last size adds beyond 32 bits; the runs here stay below it, which takes a billion entries.
-/

namespace Psbc.Util

open Probing Simulation Slots

/-! ## Sizes -/

/-- What the probing needs of a size. -/
structure HashSize.Good (s : HashSize) : Prop where
  prime : s.size.Prime
  lt : s.size < 2 ^ 31
  rehash : 0 < s.rehash ∧ s.rehash + 2 = s.size
  room : s.maxEntries < s.size

def HashSize.check (s : HashSize) : Bool :=
  let k := if s.size < 49 then 1 else if s.size < 361 then 3 else if s.size < 67081 then 7 else 15
  Trial.isPrime k s.size && decide (s.size < 2 ^ 31) &&
    decide (0 < s.rehash ∧ s.rehash + 2 = s.size) && decide (s.maxEntries < s.size)

theorem check_hashSizes : (hashSizes.take 27).all HashSize.check = true := by decide +kernel

theorem HashSize.good {i : Nat} {s : HashSize} (hi : i ≤ 26) (hs : hashSizes[i]? = some s) :
    s.Good := by
  have hmem : s ∈ hashSizes.take 27 := by
    refine List.mem_of_getElem? (i := i) ?_
    rw [List.getElem?_take_of_lt (by omega), hs]
  have hcheck := List.all_eq_true.mp check_hashSizes s hmem
  simp only [HashSize.check, Bool.and_eq_true, decide_eq_true_eq] at hcheck
  obtain ⟨⟨⟨hprime, hlt⟩, hrehash⟩, hroom⟩ := hcheck
  exact ⟨Trial.prime_of_isPrime hprime, hlt, hrehash, hroom⟩

theorem exists_hashSize {i : Nat} (hi : i ≤ 26) :
    ∃ s, hashSizes[i]? = some s ∧ s.maxEntries = 2 ^ (i + 4) := by
  have hall : ∀ i < 27, (hashSizes[i]?).map HashSize.maxEntries = some (2 ^ (i + 4)) := by decide
  obtain ⟨s, hs, hmax⟩ := Option.map_eq_some_iff.mp (hall i (by omega))
  exact ⟨s, hs, hmax⟩

/-! ## Walks -/

namespace HashTable

variable {K V : Type} {ht : HashTable K V} {hash : Nat}

structure Shaped (ht : HashTable K V) (s : HashSize) : Prop where
  index : ht.sizeIndex ≤ 26
  entry : hashSizes[ht.sizeIndex]? = some s
  size : ht.size = s.size
  rehash : ht.rehash = s.rehash
  sizeMagic : ht.sizeMagic = s.sizeMagic
  rehashMagic : ht.rehashMagic = s.rehashMagic
  maxEntries : ht.maxEntries = s.maxEntries

/-- The slots that the walk of a hash visits. -/
def walk (ht : HashTable K V) (hash : Nat) : List Nat :=
  path ht.size (hash % ht.size) (1 + hash % ht.rehash)

namespace Shaped

variable {s : HashSize}

theorem good (h : ht.Shaped s) : s.Good := HashSize.good h.index h.entry

theorem size_pos (h : ht.Shaped s) : 0 < ht.size := by
  rw [h.size]
  exact h.good.prime.pos

theorem start_eq (h : ht.Shaped s) (hhash : hash < 2 ^ 32) :
    ht.startHashAddress hash = slot ht.size (hash % ht.size) (1 + hash % ht.rehash) 0 := by
  have hlt := h.good.lt
  rw [startHashAddress, h.sizeMagic, h.size, HashSize.sizeMagic,
    utilFastUrem32_eq hhash h.good.prime.pos (by omega), slot, Nat.zero_mul, Nat.add_zero,
    Nat.mod_mod]

theorem doubleHash_eq (h : ht.Shaped s) (hhash : hash < 2 ^ 32) :
    ht.doubleHash hash = 1 + hash % ht.rehash := by
  have hlt := h.good.lt
  have hrehash := h.good.rehash
  rw [doubleHash, h.rehashMagic, h.rehash, HashSize.rehashMagic,
    utilFastUrem32_eq hhash hrehash.1 (by omega)]

theorem stride_lt (h : ht.Shaped s) (hash : Nat) : 1 + hash % ht.rehash < ht.size := by
  have hrehash := h.good.rehash
  have hmod : hash % s.rehash < s.rehash := Nat.mod_lt _ hrehash.1
  rw [h.rehash, h.size]
  omega

theorem coprime (h : ht.Shaped s) (hash : Nat) : ht.size.Coprime (1 + hash % ht.rehash) := by
  have hlt := h.stride_lt hash
  rw [h.size] at hlt ⊢
  refine (Nat.Prime.coprime_iff_not_dvd h.good.prime).mpr fun hdvd => ?_
  exact Nat.not_dvd_of_pos_of_lt (by omega) hlt hdvd

/-- Below 2 ^ 31 slots the addition of the stride does not overflow. -/
theorem next_eq (h : ht.Shaped s) (hhash : hash < 2 ^ 32) (i : Nat) :
    ht.nextHashAddress hash (slot ht.size (hash % ht.size) (1 + hash % ht.rehash) i) =
      slot ht.size (hash % ht.size) (1 + hash % ht.rehash) (i + 1) := by
  have hslot := slot_lt (s := hash % ht.size) (d := 1 + hash % ht.rehash) h.size_pos i
  have hstride := h.stride_lt hash
  have hlt := h.good.lt
  rw [← h.size] at hlt
  rw [nextHashAddress, h.doubleHash_eq hhash, Nat.mod_eq_of_lt (by omega),
    slot_succ hslot hstride.le]

theorem doWhile_eq {σ β : Type} (h : ht.Shaped s) (hhash : hash < 2 ^ 32)
    (body : Nat → σ → β ⊕ σ) (x : σ) :
    doWhile body (ht.nextHashAddress hash) (ht.startHashAddress hash) ht.size
      (ht.startHashAddress hash) x = scan body (ht.walk hash) x := by
  rw [h.start_eq hhash]
  exact doWhile_eq_scan h.size_pos (h.next_eq hhash) (h.coprime hash) x

theorem rehashAddress_eq (h : ht.Shaped s) (hhash : hash < 2 ^ 32) :
    ht.rehashAddress hash = (ht.walk hash).find? fun a => !(ht.table a).present := by
  rw [rehashAddress, h.start_eq hhash, loop_eq_findSome (h.next_eq hhash), walk, path,
    ← List.range_eq_range', List.find?_eq_findSome?_guard]
  refine congrArg (fun body => List.findSome? body _) (funext fun a => ?_)
  cases hpresent : (ht.table a).present <;> simp [Option.guard, hpresent]

theorem mem_walk (h : ht.Shaped s) {a : Nat} : a ∈ ht.walk hash ↔ a < ht.size :=
  mem_path (h.coprime hash)

end Shaped

/-! ## Searches -/

section Search

variable {keyEquals : K → K → Bool} {key : K}

/-- Where a loop over a walk stops: at an entry that was never used or that has the key. -/
def stops (ht : HashTable K V) (hash : Nat) (keyEquals : K → K → Bool) (key : K) (a : Nat) : Bool :=
  ht.free a || ht.hits hash keyEquals key a

theorem scan_searchBody (l : List Nat) :
    scan (ht.searchBody hash keyEquals key) l () =
      match l.find? (ht.stops hash keyEquals key) with
      | some a => .inl (if ht.free a then none else some a)
      | none => .inr () := by
  induction l with
  | nil => rfl
  | cons a l ih =>
    rw [scan, searchBody, List.find?_cons, stops]
    cases hfree : ht.free a <;> cases hhits : ht.hits hash keyEquals key a <;>
      simp [hfree, ih]

theorem search_eq {s : HashSize} (h : ht.Shaped s) (hhash : hash < 2 ^ 32) :
    hashTableSearch keyEquals ht hash key =
      ((ht.walk hash).find? (ht.stops hash keyEquals key)).filter fun a => !ht.free a := by
  simp only [hashTableSearch, h.doWhile_eq hhash, scan_searchBody]
  cases (ht.walk hash).find? (ht.stops hash keyEquals key) with
  | none => rfl
  | some a => cases hfree : ht.free a <;> simp [hfree, Option.filter]

theorem scan_getEntryBody (ht : HashTable K V) (hash : Nat) (keyEquals : K → K → Bool) (key : K)
    (l : List Nat) (available : Option Nat) :
    (∀ a, l.find? (ht.stops hash keyEquals key) = some a → ht.free a = false →
      ∃ available', scan (ht.getEntryBody hash keyEquals key) l available =
        .inl (some a, available')) ∧
    (∀ a, l.find? (ht.stops hash keyEquals key) = some a → ht.free a = true →
      scan (ht.getEntryBody hash keyEquals key) l available =
        .inl (none, available.or (l.find? fun a => !(ht.table a).present))) ∧
    (l.find? (ht.stops hash keyEquals key) = none →
      scan (ht.getEntryBody hash keyEquals key) l available =
        .inr (available.or (l.find? fun a => !(ht.table a).present))) := by
  induction l generalizing available with
  | nil => exact ⟨nofun, nofun, fun _ => congrArg Sum.inr available.or_none.symm⟩
  | cons a l ih =>
    rw [scan, getEntryBody, List.find?_cons, stops]
    cases hfree : ht.free a with
    | true =>
      have hpresent : (ht.table a).present = false := by
        simp only [free, Bool.and_eq_true, Bool.not_eq_true'] at hfree
        exact hfree.1
      cases available <;> simp [hpresent, hfree]
    | false =>
      cases hhits : ht.hits hash keyEquals key a with
      | true => simp [hfree]
      | false =>
        have hstash : ∀ l : List Nat,
            (if !(ht.table a).present && available.isNone then some a else available).or
                (l.find? fun a => !(ht.table a).present) =
              available.or ((a :: l).find? fun a => !(ht.table a).present) := by
          intro l
          rw [List.find?_cons]
          cases available <;> cases (ht.table a).present <;> rfl
        have hrest := ih (if !(ht.table a).present && available.isNone then some a else available)
        rw [hstash] at hrest
        exact hrest

end Search

/-! ## Contents -/

def pair (ht : HashTable K V) (a : Nat) : K × V := ((ht.table a).key, (ht.table a).data)

def held (ht : HashTable K V) (a : Nat) : Option (K × V) :=
  if (ht.table a).present then some (ht.pair a) else none

def tomb (ht : HashTable K V) (a : Nat) : Option Unit :=
  if (ht.table a).deleted then some () else none

def content (ht : HashTable K V) : List (K × V) := contents ht.held (List.range ht.size)

def tombs (ht : HashTable K V) : List Unit := contents ht.tomb (List.range ht.size)

theorem setEntry_table (a : Nat) (entry : HashEntry K V) :
    (ht.setEntry a entry).table a = entry := Function.update_self ..

theorem setEntry_table_of_ne {a b : Nat} (hb : b ≠ a) (entry : HashEntry K V) :
    (ht.setEntry a entry).table b = ht.table b := Function.update_of_ne hb ..

theorem content_setEntry {a : Nat} (ha : a < ht.size) (entry : HashEntry K V) :
    ∃ rest, ht.content.Perm ((ht.held a).toList ++ rest) ∧
      (ht.setEntry a entry).content.Perm (((ht.setEntry a entry).held a).toList ++ rest) := by
  refine contents_change List.nodup_range (List.mem_range.mpr ha) fun b hb => ?_
  rw [held, held, pair, pair, setEntry_table_of_ne hb]

theorem tombs_setEntry {a : Nat} (ha : a < ht.size) (entry : HashEntry K V) :
    ∃ rest, ht.tombs.Perm ((ht.tomb a).toList ++ rest) ∧
      (ht.setEntry a entry).tombs.Perm (((ht.setEntry a entry).tomb a).toList ++ rest) := by
  refine contents_change List.nodup_range (List.mem_range.mpr ha) fun b hb => ?_
  rw [tomb, tomb, setEntry_table_of_ne hb]

theorem mem_content {e : K × V} : e ∈ ht.content ↔
    ∃ a < ht.size, (ht.table a).present = true ∧ ht.pair a = e := by
  rw [content, mem_contents]
  refine exists_congr fun a => and_congr List.mem_range ?_
  rw [held]
  split
  next h => simp [h]
  next h => simp [h]

end HashTable

/-! ## The invariant -/

/-- The functions of the keys: equal keys have one hash, of 32 bits. -/
structure Keyed {K : Type} (keyHash : K → Nat) (keyEquals : K → K → Bool) : Prop where
  refl : ∀ k, keyEquals k k = true
  symm : ∀ k l, keyEquals k l = true → keyEquals l k = true
  trans : ∀ k l m, keyEquals k l = true → keyEquals l m = true → keyEquals k m = true
  hash : ∀ k l, keyEquals k l = true → keyHash k = keyHash l
  lt : ∀ k, keyHash k < 2 ^ 32

namespace HashTable

variable {K V : Type} (keyHash : K → Nat) (keyEquals : K → K → Bool)

/-- The walk of every key leads to its entry over entries that are or were in use. -/
structure Sound (s : HashSize) (ht : HashTable K V) : Prop where
  shaped : ht.Shaped s
  hash : ∀ a < ht.size, (ht.table a).present = true → (ht.table a).hash = keyHash (ht.table a).key
  reach : ∀ a < ht.size, (ht.table a).present = true → ∃ before after,
    ht.walk (ht.table a).hash = before ++ a :: after ∧ ∀ b ∈ before, ht.free b = false
  unique : ∀ a < ht.size, ∀ b < ht.size, (ht.table a).present = true →
    (ht.table b).present = true → keyEquals (ht.table a).key (ht.table b).key = true → a = b
  present : ∀ a, (ht.table a).present = true → (ht.table a).deleted = false

/-- The table counts its entries, and together with the deleted ones they keep below the limit. -/
structure Counted (ht : HashTable K V) : Prop where
  entries : ht.entries = ht.content.length
  deleted : ht.deletedEntries = ht.tombs.length
  load : ht.entries + ht.deletedEntries ≤ ht.maxEntries

variable {keyHash keyEquals} {ht : HashTable K V} {s : HashSize} {k : K} {a : Nat}

theorem hits_iff {hash : Nat} : ht.hits hash keyEquals k a = true ↔
    (ht.table a).present = true ∧ (ht.table a).hash = hash ∧
      keyEquals k (ht.table a).key = true := by
  simp [hits, and_assoc]

/-- The walk of a key does not stop before its entry. -/
theorem Sound.find_stops (h : ht.Sound keyHash keyEquals s) (hk : Keyed keyHash keyEquals)
    (ha : a < ht.size) (hpresent : (ht.table a).present = true)
    (hkey : keyEquals k (ht.table a).key = true) :
    (ht.walk (keyHash k)).find? (ht.stops (keyHash k) keyEquals k) = some a := by
  have hhash : (ht.table a).hash = keyHash k := (h.hash a ha hpresent).trans (hk.hash _ _ hkey).symm
  obtain ⟨before, after, hwalk, hbefore⟩ := h.reach a ha hpresent
  rw [hhash] at hwalk
  have hlt : ∀ b ∈ before, b < ht.size := fun b hb => by
    refine h.shaped.mem_walk.mp (?_ : b ∈ ht.walk (keyHash k))
    rw [hwalk]
    exact List.mem_append_left _ hb
  rw [hwalk, List.find?_append, List.find?_eq_none.mpr, Option.none_or, List.find?_cons_of_pos]
  · rw [stops, hits_iff.mpr ⟨hpresent, hhash, hkey⟩, Bool.or_true]
  · intro b hb hstops
    rw [stops, hbefore b hb, Bool.false_or, hits_iff] at hstops
    obtain ⟨hbpresent, _, hbkey⟩ := hstops
    have hba : b = a := h.unique b (hlt b hb) a ha hbpresent hpresent
      (hk.trans _ _ _ (hk.symm _ _ hbkey) hkey)
    have hnodup : (before ++ a :: after).Nodup := hwalk ▸ path_nodup (h.shaped.coprime _)
    exact (List.nodup_append.mp hnodup).2.2 b hb a List.mem_cons_self hba

theorem Sound.search (h : ht.Sound keyHash keyEquals s) (hk : Keyed keyHash keyEquals) (k : K) :
    (∃ a < ht.size, hashTableSearch keyEquals ht (keyHash k) k = some a ∧
      (ht.table a).present = true ∧ keyEquals k (ht.table a).key = true) ∨
    hashTableSearch keyEquals ht (keyHash k) k = none ∧
      ∀ a < ht.size, (ht.table a).present = true → keyEquals k (ht.table a).key = false := by
  rw [search_eq h.shaped (hk.lt k)]
  by_cases hfound : ∃ a < ht.size, (ht.table a).present = true ∧
      keyEquals k (ht.table a).key = true
  · obtain ⟨a, ha, hpresent, hkey⟩ := hfound
    refine .inl ⟨a, ha, ?_, hpresent, hkey⟩
    rw [h.find_stops hk ha hpresent hkey]
    simp [Option.filter, free, hpresent]
  · have hnone : ∀ a < ht.size, (ht.table a).present = true →
        keyEquals k (ht.table a).key = false := fun a ha hpresent =>
      Bool.not_eq_true _ ▸ fun hkey => hfound ⟨a, ha, hpresent, hkey⟩
    refine .inr ⟨?_, hnone⟩
    cases hfind : (ht.walk (keyHash k)).find? (ht.stops (keyHash k) keyEquals k) with
    | none => rfl
    | some a =>
      have hstops := List.find?_some hfind
      have ha : a < ht.size := h.shaped.mem_walk.mp (List.mem_of_find?_eq_some hfind)
      cases hfree : ht.free a with
      | true => simp [Option.filter, hfree]
      | false =>
        rw [stops, hfree, Bool.false_or, hits_iff] at hstops
        rw [hnone a ha hstops.1] at hstops
        cases hstops.2.2

/-! ## Changes of one entry -/

theorem Shaped.setEntry (h : ht.Shaped s) (a : Nat) (entry : HashEntry K V) :
    (ht.setEntry a entry).Shaped s :=
  ⟨h.index, h.entry, h.size, h.rehash, h.sizeMagic, h.rehashMagic, h.maxEntries⟩

theorem free_setEntry {entry : HashEntry K V} (hentry : entry.present = true ∨ entry.deleted = true)
    {b : Nat} (hb : ht.free b = false) : (ht.setEntry a entry).free b = false := by
  by_cases hba : b = a
  · subst hba
    rw [free, setEntry_table]
    obtain hpresent | hdeleted := hentry
    · rw [hpresent]
      rfl
    · rw [hdeleted, Bool.not_true, Bool.and_false]
  · rw [free, setEntry_table_of_ne hba]
    exact hb

theorem Sound.reach_setEntry (h : ht.Sound keyHash keyEquals s) {entry : HashEntry K V}
    (hentry : entry.present = true ∨ entry.deleted = true) {b : Nat} (hb : b < ht.size)
    (hpresent : (ht.table b).present = true) : ∃ before after,
      (ht.setEntry a entry).walk (ht.table b).hash = before ++ b :: after ∧
        ∀ c ∈ before, (ht.setEntry a entry).free c = false := by
  obtain ⟨before, after, hwalk, hbefore⟩ := h.reach b hb hpresent
  exact ⟨before, after, hwalk, fun c hc => free_setEntry hentry (hbefore c hc)⟩

/-- An entry with a key that no other one has. -/
theorem Sound.put (h : ht.Sound keyHash keyEquals s) (hk : Keyed keyHash keyEquals)
    {entry : HashEntry K V} (hpresent : entry.present = true) (hdeleted : entry.deleted = false)
    (hhash : entry.hash = keyHash entry.key)
    (hreach : ∃ before after, ht.walk entry.hash = before ++ a :: after ∧
      ∀ b ∈ before, ht.free b = false)
    (hnew : ∀ b < ht.size, b ≠ a → (ht.table b).present = true →
      keyEquals entry.key (ht.table b).key = false) :
    (ht.setEntry a entry).Sound keyHash keyEquals s where
  shaped := h.shaped.setEntry a entry
  hash b hb := by
    by_cases hba : b = a
    · rw [hba, setEntry_table]
      exact fun _ => hhash
    · rw [setEntry_table_of_ne hba]
      exact h.hash b hb
  reach b hb := by
    by_cases hba : b = a
    · subst hba
      rw [setEntry_table]
      obtain ⟨before, after, hwalk, hbefore⟩ := hreach
      exact fun _ => ⟨before, after, hwalk,
        fun c hc => free_setEntry (.inl hpresent) (hbefore c hc)⟩
    · rw [setEntry_table_of_ne hba]
      exact h.reach_setEntry (.inl hpresent) hb
  unique b hb c hc := by
    by_cases hba : b = a <;> by_cases hca : c = a
    · exact fun _ _ _ => hba.trans hca.symm
    · rw [hba, setEntry_table, setEntry_table_of_ne hca]
      intro _ hcpresent hkey
      rw [hnew c hc hca hcpresent] at hkey
      cases hkey
    · rw [hca, setEntry_table, setEntry_table_of_ne hba]
      intro hbpresent _ hkey
      have hkey' := hk.symm _ _ hkey
      rw [hnew b hb hba hbpresent] at hkey'
      cases hkey'
    · rw [setEntry_table_of_ne hba, setEntry_table_of_ne hca]
      exact h.unique b hb c hc
  present b := by
    by_cases hba : b = a
    · rw [hba, setEntry_table]
      exact fun _ => hdeleted
    · rw [setEntry_table_of_ne hba]
      exact h.present b

/-- An entry that is left behind as deleted. -/
theorem Sound.bury (h : ht.Sound keyHash keyEquals s) {entry : HashEntry K V}
    (hpresent : entry.present = false) (hdeleted : entry.deleted = true) :
    (ht.setEntry a entry).Sound keyHash keyEquals s := by
  have hother : ∀ b, ((ht.setEntry a entry).table b).present = true →
      (ht.setEntry a entry).table b = ht.table b := by
    intro b hb
    refine setEntry_table_of_ne ?_ entry
    rintro rfl
    rw [setEntry_table, hpresent] at hb
    cases hb
  refine ⟨h.shaped.setEntry a entry, fun b hb hb' => ?_, fun b hb hb' => ?_,
    fun b hb c hc hb' hc' => ?_, fun b hb' => ?_⟩
  · have heq := hother b hb'
    rw [heq] at hb' ⊢
    exact h.hash b hb hb'
  · have heq := hother b hb'
    rw [heq] at hb' ⊢
    exact h.reach_setEntry (.inr hdeleted) hb hb'
  · have hbeq := hother b hb'
    have hceq := hother c hc'
    rw [hbeq] at hb' ⊢
    rw [hceq] at hc' ⊢
    exact h.unique b hb c hc hb' hc'
  · have heq := hother b hb'
    rw [heq] at hb' ⊢
    exact h.present b hb'

/-! ## Room -/

/-- A table that is not full has a vacant entry on every walk, behind entries in use. -/
theorem Shaped.exists_vacant (h : ht.Shaped s) (hroom : ht.content.length < ht.size) (hash : Nat) :
    ∃ a < ht.size, (ht.walk hash).find? (fun a => !(ht.table a).present) = some a ∧
      (ht.table a).present = false ∧ ∃ before after, ht.walk hash = before ++ a :: after ∧
        ∀ b ∈ before, ht.free b = false := by
  cases hfind : (ht.walk hash).find? fun a => !(ht.table a).present with
  | some a =>
    obtain ⟨hvacant, before, after, hwalk, hbefore⟩ := List.find?_eq_some_iff_append.mp hfind
    refine ⟨a, h.mem_walk.mp (List.mem_of_find?_eq_some hfind), rfl, by simpa using hvacant,
      before, after, hwalk, fun b hb => ?_⟩
    have hb' := hbefore b hb
    rw [Bool.not_not] at hb'
    rw [free, hb']
    rfl
  | none =>
    have hall : ∀ a ∈ List.range ht.size, ht.held a ≠ none ∨ (none : Option Unit) ≠ none := by
      intro a ha
      have hpresent := List.find?_eq_none.mp hfind a (h.mem_walk.mpr (List.mem_range.mp ha))
      simp only [Bool.not_eq_true, Bool.not_eq_false'] at hpresent
      exact .inl (by simp [held, hpresent])
    have hle := Slots.length_le hall
    have hnil : contents (fun _ => (none : Option Unit)) (List.range ht.size) = [] :=
      List.filterMap_none _
    rw [hnil, List.length_range, List.length_nil] at hle
    exact absurd hroom (by unfold content; omega)

/-! ## Rebuilding -/

theorem Sound.insertRehash (h : ht.Sound keyHash keyEquals s) (hk : Keyed keyHash keyEquals)
    (hfresh : ∀ a, (ht.table a).deleted = false) (hroom : ht.content.length < ht.size) {v : V}
    (hnew : ∀ e ∈ ht.content, keyEquals k e.1 = false) :
    ∃ a entry, hashTableInsertRehash ht (keyHash k) k v = ht.setEntry a entry ∧
      (ht.setEntry a entry).Sound keyHash keyEquals s ∧ entry.deleted = false ∧
      (ht.setEntry a entry).content.Perm ((k, v) :: ht.content) := by
  obtain ⟨a, ha, hfind, hvacant, hreach⟩ := h.shaped.exists_vacant hroom (keyHash k)
  let entry : HashEntry K V :=
    { ht.table a with hash := keyHash k, key := k, data := v, present := true }
  have hput : (ht.setEntry a entry).Sound keyHash keyEquals s := by
    refine h.put hk rfl (hfresh a) rfl hreach fun b hb _ hpresent => ?_
    exact hnew _ (mem_content.mpr ⟨b, hb, hpresent, rfl⟩)
  refine ⟨a, entry, ?_, hput, hfresh a, ?_⟩
  · rw [hashTableInsertRehash, h.shaped.rehashAddress_eq (hk.lt k), hfind]
  · obtain ⟨rest, hold, hnew⟩ := content_setEntry ha entry
    rw [held, hvacant] at hold
    rw [held, pair, setEntry_table] at hnew
    exact hnew.trans (hold.symm.cons (k, v))

/-- The first entry that is present from an address on. -/
def nextFrom (ht : HashTable K V) (i : Nat) : Option Nat :=
  (List.range' i (ht.size - i)).find? fun a => (ht.table a).present

theorem foreach_from {i n fuel : Nat} {entry : Option Nat}
    (hnext : hashTableNextEntry ht entry = ht.nextFrom i) (hn : i + n = ht.size)
    (hfuel : n ≤ fuel) :
    hashTableForeach ht fuel entry = (List.range' i n).filter fun a => (ht.table a).present := by
  induction n generalizing i fuel entry with
  | zero =>
    cases fuel with
    | zero => rfl
    | succ fuel =>
      have hnone : ht.nextFrom i = none := by
        rw [nextFrom, show ht.size - i = 0 by omega]
        rfl
      rw [hashTableForeach, hnext, hnone]
      rfl
  | succ n ih =>
    obtain ⟨fuel, rfl⟩ : ∃ m, fuel = m + 1 := ⟨fuel - 1, by omega⟩
    have hrest : ht.size - (i + 1) = n := by omega
    have hsplit : ht.nextFrom i = if (ht.table i).present then some i else ht.nextFrom (i + 1) := by
      rw [nextFrom, nextFrom, hrest, show ht.size - i = n + 1 by omega, List.range'_succ,
        List.find?_cons]
      cases (ht.table i).present <;> rfl
    rw [List.range'_succ]
    cases hpresent : (ht.table i).present with
    | true =>
      rw [hpresent, if_pos rfl] at hsplit
      rw [hashTableForeach, hnext, hsplit,
        List.filter_cons_of_pos (p := fun a => (ht.table a).present) hpresent]
      have htail : hashTableNextEntry ht (some i) = ht.nextFrom (i + 1) := rfl
      exact congrArg (i :: ·) (ih htail (by omega) (by omega))
    | false =>
      rw [hpresent, if_neg Bool.false_ne_true] at hsplit
      rw [List.filter_cons_of_neg (by simp [hpresent])]
      exact ih (hnext.trans hsplit) (by omega) (by omega)

theorem foreach_eq (ht : HashTable K V) :
    hashTableForeach ht ht.size none =
      (List.range ht.size).filter fun a => (ht.table a).present := by
  rw [List.range_eq_range']
  exact foreach_from (i := 0) rfl (by omega) (by omega)

theorem content_eq_map (ht : HashTable K V) :
    ht.content = (hashTableForeach ht ht.size none).map ht.pair := by
  rw [foreach_eq, content, contents, ← List.filterMap_eq_map, List.filterMap_filter]
  rfl

/-- What the rebuilding keeps. -/
structure Fresh (keyHash : K → Nat) (keyEquals : K → K → Bool) (s : HashSize) (i : Nat)
    (ht : HashTable K V) : Prop where
  sound : ht.Sound keyHash keyEquals s
  index : ht.sizeIndex = i
  undeleted : ∀ a, (ht.table a).deleted = false
  deletedEntries : ht.deletedEntries = 0

theorem Fresh.rebuild {old new : HashTable K V} {s₀ : HashSize} {i : Nat} {l : List Nat}
    (hold : old.Sound keyHash keyEquals s₀) (hk : Keyed keyHash keyEquals)
    (hnew : new.Fresh keyHash keyEquals s i) (hl : l.Nodup)
    (hmem : ∀ a ∈ l, a < old.size ∧ (old.table a).present = true)
    (hsep : ∀ a ∈ l, ∀ e ∈ new.content, keyEquals (old.table a).key e.1 = false)
    (hroom : new.content.length + l.length < s.size) :
    (l.foldl (fun new a => hashTableInsertRehash new (old.table a).hash (old.table a).key
      (old.table a).data) new).Fresh keyHash keyEquals s i ∧
    (l.foldl (fun new a => hashTableInsertRehash new (old.table a).hash (old.table a).key
      (old.table a).data) new).content.Perm (l.map old.pair ++ new.content) := by
  induction l generalizing new with
  | nil => exact ⟨hnew, .refl _⟩
  | cons a l ih =>
    obtain ⟨⟨ha, hpresent⟩, hmem⟩ := List.forall_mem_cons.mp hmem
    obtain ⟨hasep, hsep⟩ := List.forall_mem_cons.mp hsep
    obtain ⟨hal, hl⟩ := List.nodup_cons.mp hl
    rw [List.length_cons] at hroom
    obtain ⟨b, entry, hinsert, hsound, hdeleted, hcontent⟩ :=
      hnew.sound.insertRehash hk hnew.undeleted (by rw [hnew.sound.shaped.size]; omega)
        (v := (old.table a).data) hasep
    have hfresh : (new.setEntry b entry).Fresh keyHash keyEquals s i := by
      refine ⟨hsound, hnew.index, fun c => ?_, hnew.deletedEntries⟩
      by_cases hcb : c = b
      · rw [hcb, setEntry_table]
        exact hdeleted
      · rw [setEntry_table_of_ne hcb]
        exact hnew.undeleted c
    have hsep' : ∀ c ∈ l, ∀ e ∈ (new.setEntry b entry).content,
        keyEquals (old.table c).key e.1 = false := by
      intro c hc e he
      rcases List.mem_cons.mp (hcontent.mem_iff.mp he) with rfl | he
      · refine Bool.eq_false_iff.mpr fun hkey => hal ?_
        have hca := hold.unique c (hmem c hc).1 a ha (hmem c hc).2 hpresent hkey
        exact hca ▸ hc
      · exact hsep c hc e he
    rw [List.foldl_cons, hold.hash a ha hpresent, hinsert]
    obtain ⟨hdone, hperm⟩ := ih hfresh hl hmem hsep' (by rw [hcontent.length_eq]; simp; omega)
    refine ⟨hdone, hperm.trans ?_⟩
    refine ((hcontent.append_left _)).trans ?_
    exact List.perm_middle

/-- The table is sound and counts its entries. -/
structure Inv (keyHash : K → Nat) (keyEquals : K → K → Bool) (ht : HashTable K V) : Prop where
  sound : ∃ s, ht.Sound keyHash keyEquals s
  counted : ht.Counted

theorem Sound.setCounts (h : ht.Sound keyHash keyEquals s) (entries deletedEntries : Nat) :
    ({ ht with entries := entries, deletedEntries := deletedEntries } :
      HashTable K V).Sound keyHash keyEquals s where
  shaped := ⟨h.shaped.index, h.shaped.entry, h.shaped.size, h.shaped.rehash, h.shaped.sizeMagic,
    h.shaped.rehashMagic, h.shaped.maxEntries⟩
  hash := h.hash
  reach := h.reach
  unique := h.unique
  present := h.present

theorem Fresh.inv {i n : Nat} (h : ht.Fresh keyHash keyEquals s i) (hn : n = ht.content.length)
    (hload : n ≤ s.maxEntries) :
    ({ ht with entries := n } : HashTable K V).Inv keyHash keyEquals := by
  have htombs : ht.tombs = [] := by
    refine List.filterMap_eq_nil_iff.mpr fun a _ => ?_
    rw [tomb, h.undeleted a]
    rfl
  refine ⟨⟨s, h.sound.setCounts n ht.deletedEntries⟩, hn, ?_, ?_⟩
  · exact h.deletedEntries.trans (congrArg List.length htombs).symm
  · dsimp only
    rw [h.deletedEntries, h.sound.shaped.maxEntries]
    exact hload

section Room

variable [Inhabited K] [Inhabited V]

theorem fresh_ofSize {i : Nat} (hi : i ≤ 26) (hs : hashSizes[i]? = some s) :
    (ofSize i s : HashTable K V).Fresh keyHash keyEquals s i where
  sound := {
    shaped := ⟨hi, hs, rfl, rfl, rfl, rfl, rfl⟩
    hash := nofun
    reach := nofun
    unique := nofun
    present := nofun }
  index := rfl
  undeleted _ := rfl
  deletedEntries := rfl

theorem content_ofSize (i : Nat) : (ofSize i s : HashTable K V).content = [] :=
  List.filterMap_none _

theorem clearFast_eq (h : ht.Shaped s) : hashTableClearFast ht = ofSize ht.sizeIndex s := by
  obtain ⟨_, size, rehash, sizeMagic, rehashMagic, maxEntries, _, _, _⟩ := ht
  obtain ⟨_, _, rfl, rfl, rfl, rfl, rfl⟩ := h
  rfl

theorem inv_ofSize {i : Nat} (hi : i ≤ 26) (hs : hashSizes[i]? = some s) :
    (ofSize i s : HashTable K V).Inv keyHash keyEquals :=
  (fresh_ofSize hi hs).inv (n := 0) (congrArg List.length (content_ofSize i)).symm (Nat.zero_le _)

/-- A rebuilt table has the same content and nothing deleted. -/
theorem Inv.rehash {i : Nat} (h : ht.Inv keyHash keyEquals) (hk : Keyed keyHash keyEquals)
    (hi : i ≤ 26) (hs : hashSizes[i]? = some s) (hfit : ht.entries ≤ s.maxEntries) :
    (hashTableRehash ht i true).Inv keyHash keyEquals ∧
      (hashTableRehash ht i true).content.Perm ht.content ∧
      (hashTableRehash ht i true).deletedEntries = 0 ∧
      (hashTableRehash ht i true).maxEntries = s.maxEntries := by
  obtain ⟨⟨s₀, hsound⟩, hcounted⟩ := h
  rw [hashTableRehash]
  split
  next hclear =>
    -- as many deleted entries as the limit allows: no others are left
    obtain ⟨rfl, hfull⟩ := hclear
    obtain rfl : s₀ = s := Option.some.inj (hsound.shaped.entry.symm.trans hs)
    have hnil : ht.content = [] := by
      have hload := hcounted.load
      have hentries := hcounted.entries
      exact List.length_eq_zero_iff.mp (by omega)
    rw [clearFast_eq hsound.shaped, hnil, content_ofSize]
    exact ⟨inv_ofSize hi hs, .refl _, rfl, rfl⟩
  next =>
    rw [hs]
    dsimp only
    rw [if_pos rfl]
    have hlength : ht.entries = (hashTableForeach ht ht.size none).length := by
      rw [hcounted.entries, content_eq_map, List.length_map]
    have hroom := (HashSize.good hi hs).room
    obtain ⟨hfresh, hperm⟩ := Fresh.rebuild (l := hashTableForeach ht ht.size none) hsound hk
      (fresh_ofSize (K := K) (V := V) hi hs) (foreach_eq ht ▸ List.nodup_range.filter _)
      (by
        rw [foreach_eq]
        intro a ha
        obtain ⟨ha, hpresent⟩ := List.mem_filter.mp ha
        exact ⟨List.mem_range.mp ha, hpresent⟩)
      (by
        rw [content_ofSize]
        exact fun _ _ _ he => nomatch he)
      (by
        rw [content_ofSize, List.length_nil]
        omega)
    rw [content_ofSize, List.append_nil, ← content_eq_map] at hperm
    refine ⟨hfresh.inv ?_ hfit, hperm, hfresh.deletedEntries, hfresh.sound.shaped.maxEntries⟩
    rw [hperm.length_eq, hcounted.entries]

theorem Inv.makeRoom (h : ht.Inv keyHash keyEquals) (hk : Keyed keyHash keyEquals)
    (hentries : ht.entries < 2 ^ 30) :
    (hashTableMakeRoom ht true).Inv keyHash keyEquals ∧
      (hashTableMakeRoom ht true).content.Perm ht.content ∧
      (hashTableMakeRoom ht true).entries + (hashTableMakeRoom ht true).deletedEntries <
        (hashTableMakeRoom ht true).maxEntries := by
  obtain ⟨s, hsound⟩ := h.sound
  obtain ⟨s', hs', hmax⟩ := exists_hashSize hsound.shaped.index
  obtain rfl : s' = s := Option.some.inj (hs'.symm.trans hsound.shaped.entry)
  have hmaxEntries := hsound.shaped.maxEntries
  have hindex := hsound.shaped.index
  have hload := h.counted.load
  rw [hashTableMakeRoom]
  split
  next hfull =>
    -- the limit is below 2 ^ 30, so the next size is one of those
    have hlt : ht.sizeIndex + 1 ≤ 26 := by
      refine Nat.lt_of_not_le fun hge => ?_
      have hbig : 2 ^ 30 ≤ 2 ^ (ht.sizeIndex + 4) := Nat.pow_le_pow_right (by omega) (by omega)
      omega
    obtain ⟨t, ht', htmax⟩ := exists_hashSize hlt
    have hdouble : t.maxEntries = 2 * s'.maxEntries := by
      rw [htmax, hmax, ← pow_succ', show ht.sizeIndex + 1 + 4 = ht.sizeIndex + 4 + 1 by omega]
    have hpos : 0 < s'.maxEntries := hmax ▸ Nat.pow_pos (by omega)
    obtain ⟨hinv, hperm, hdeleted, hnewmax⟩ := h.rehash hk hlt ht' (by omega)
    refine ⟨hinv, hperm, ?_⟩
    have hnew := hinv.counted.entries
    rw [hperm.length_eq, ← h.counted.entries] at hnew
    omega
  next hfull =>
    split
    next =>
      obtain ⟨hinv, hperm, hdeleted, hnewmax⟩ := h.rehash hk hindex hs' (by omega)
      refine ⟨hinv, hperm, ?_⟩
      have hnew := hinv.counted.entries
      rw [hperm.length_eq, ← h.counted.entries] at hnew
      omega
    next => exact ⟨h, .refl _, by omega⟩

end Room

/-! ## Insertions and removals -/

theorem Sound.distinct (h : ht.Sound keyHash keyEquals s) :
    ht.content.Pairwise fun e f => keyEquals e.1 f.1 = false := by
  refine (List.pairwise_filterMap).mpr ?_
  refine (List.nodup_range (n := ht.size)).pairwise_of_forall_ne fun a ha b hb hab e he f hf => ?_
  obtain ⟨hapresent, he⟩ := Option.ite_none_right_eq_some.mp he
  obtain ⟨hbpresent, hf⟩ := Option.ite_none_right_eq_some.mp hf
  obtain rfl := Option.some.inj he
  obtain rfl := Option.some.inj hf
  refine Bool.eq_false_iff.mpr fun hkey => hab ?_
  exact h.unique a (List.mem_range.mp ha) b (List.mem_range.mp hb) hapresent hbpresent hkey

/-- The entries without those of a key. -/
def without (keyEquals : K → K → Bool) (k : K) (m : List (K × V)) : List (K × V) :=
  m.filter fun e => !keyEquals k e.1

theorem without_eq_self (h : ∀ a < ht.size, (ht.table a).present = true →
    keyEquals k (ht.table a).key = false) : without keyEquals k ht.content = ht.content := by
  refine List.filter_eq_self.mpr fun e he => ?_
  obtain ⟨b, hb, hbpresent, rfl⟩ := mem_content.mp he
  exact (Bool.not_eq_true' _).mpr (h b hb hbpresent)

theorem Sound.rest_eq (h : ht.Sound keyHash keyEquals s) (hk : Keyed keyHash keyEquals)
    {e : K × V} {rest : List (K × V)} (hcontent : ht.content.Perm (e :: rest))
    (hkey : keyEquals k e.1 = true) : (without keyEquals k ht.content).Perm rest := by
  have hdistinct : (e :: rest).Pairwise fun e f => keyEquals e.1 f.1 = false := by
    refine hcontent.pairwise h.distinct fun {e f} hef => Bool.eq_false_iff.mpr fun hfe => ?_
    rw [hk.symm _ _ hfe] at hef
    cases hef
  have hrest : rest.filter (fun e => !keyEquals k e.1) = rest := by
    refine List.filter_eq_self.mpr fun f hf => ?_
    rw [Bool.not_eq_true']
    refine Bool.eq_false_iff.mpr fun hkf => ?_
    have hef := (List.pairwise_cons.mp hdistinct).1 f hf
    rw [hk.trans _ _ _ (hk.symm _ _ hkey) hkf] at hef
    cases hef
  refine (hcontent.filter _).trans ?_
  rw [List.filter_cons_of_neg (by simp [hkey]), hrest]

theorem Sound.search_content (h : ht.Sound keyHash keyEquals s) (hk : Keyed keyHash keyEquals)
    {m : List (K × V)} (hm : ht.content.Perm m) (k : K) :
    (hashTableSearch keyEquals ht (keyHash k) k).map ht.pair =
      m.find? fun e => keyEquals k e.1 := by
  obtain ⟨a, ha, hsearch, hpresent, hkey⟩ | ⟨hsearch, hnone⟩ := h.search hk k
  · have hmem : ht.pair a ∈ ht.content := mem_content.mpr ⟨a, ha, hpresent, rfl⟩
    rw [hsearch, Option.map_some]
    cases hfind : m.find? fun e => keyEquals k e.1 with
    | none =>
      have hnone := List.find?_eq_none.mp hfind _ (hm.mem_iff.mp hmem)
      exact absurd hkey hnone
    | some e =>
      obtain ⟨b, hb, hbpresent, rfl⟩ :=
        mem_content.mp (hm.mem_iff.mpr (List.mem_of_find?_eq_some hfind))
      have hbkey := List.find?_some hfind
      rw [h.unique a ha b hb hpresent hbpresent (hk.trans _ _ _ (hk.symm _ _ hkey) hbkey)]
  · rw [hsearch, Option.map_none]
    refine (List.find?_eq_none.mpr fun e he => ?_).symm
    obtain ⟨b, hb, hbpresent, rfl⟩ := mem_content.mp (hm.mem_iff.mpr he)
    exact Bool.eq_false_iff.mp (hnone b hb hbpresent)

theorem Inv.removeKey (h : ht.Inv keyHash keyEquals) (hk : Keyed keyHash keyEquals) (k : K) :
    (hashTableRemoveKey keyEquals keyHash ht k).Inv keyHash keyEquals ∧
      (hashTableRemoveKey keyEquals keyHash ht k).content.Perm (without keyEquals k ht.content) ∧
      (hashTableRemoveKey keyEquals keyHash ht k).entries ≤ ht.entries := by
  obtain ⟨⟨s, hsound⟩, hcounted⟩ := h
  rw [hashTableRemoveKey]
  obtain ⟨a, ha, hsearch, hpresent, hkey⟩ | ⟨hsearch, hnone⟩ := hsound.search hk k
  · rw [hsearch, hashTableRemove]
    have hdeleted := hsound.present a hpresent
    obtain ⟨rest, hold, hnew⟩ := content_setEntry ha
      { ht.table a with present := false, deleted := true }
    obtain ⟨tombs, htold, htnew⟩ := tombs_setEntry ha
      { ht.table a with present := false, deleted := true }
    rw [held, if_pos hpresent] at hold
    rw [held, setEntry_table] at hnew
    rw [tomb, hdeleted] at htold
    rw [tomb, setEntry_table] at htnew
    have hentries : ht.entries = rest.length + 1 := hcounted.entries.trans hold.length_eq
    have htombs : ht.deletedEntries = tombs.length := hcounted.deleted.trans htold.length_eq
    have hload := hcounted.load
    refine ⟨⟨⟨s, (hsound.bury rfl rfl).setCounts _ _⟩, ?_, ?_, ?_⟩,
      hnew.trans (hsound.rest_eq hk hold hkey).symm, Nat.sub_le _ _⟩
    · exact (by omega : ht.entries - 1 = rest.length).trans hnew.length_eq.symm
    · exact (by omega : ht.deletedEntries + 1 = tombs.length + 1).trans htnew.length_eq.symm
    · exact (by omega : ht.entries - 1 + (ht.deletedEntries + 1) ≤ ht.maxEntries)
  · rw [hsearch, hashTableRemove]
    refine ⟨⟨⟨s, hsound⟩, hcounted⟩, ?_, le_rfl⟩
    rw [without_eq_self hnone]

def inserted (keyHash : K → Nat) (k : K) (v : V) : HashEntry K V := ⟨keyHash k, true, false, k, v⟩

theorem Inv.replace (h : ht.Inv keyHash keyEquals) (hk : Keyed keyHash keyEquals)
    (ha : a < ht.size) (hpresent : (ht.table a).present = true)
    (hkey : keyEquals k (ht.table a).key = true) (v : V) :
    (ht.setEntry a (inserted keyHash k v)).Inv keyHash keyEquals ∧
      (ht.setEntry a (inserted keyHash k v)).content.Perm
        ((k, v) :: without keyEquals k ht.content) := by
  obtain ⟨⟨s, hsound⟩, hcounted⟩ := h
  have hhash : (ht.table a).hash = keyHash k :=
    (hsound.hash a ha hpresent).trans (hk.hash _ _ hkey).symm
  have hput : (ht.setEntry a (inserted keyHash k v)).Sound keyHash keyEquals s := by
    refine hsound.put hk rfl rfl rfl ?_ fun b hb hba hbpresent => ?_
    · have hreach := hsound.reach a ha hpresent
      rw [hhash] at hreach
      exact hreach
    · refine Bool.eq_false_iff.mpr fun hkb => hba ?_
      exact (hsound.unique a ha b hb hpresent hbpresent
        (hk.trans _ _ _ (hk.symm _ _ hkey) hkb)).symm
  obtain ⟨rest, hold, hnew⟩ := content_setEntry ha (inserted keyHash k v)
  obtain ⟨tombs, htold, htnew⟩ := tombs_setEntry ha (inserted keyHash k v)
  rw [held, if_pos hpresent] at hold
  rw [held, pair, setEntry_table] at hnew
  rw [tomb, hsound.present a hpresent] at htold
  rw [tomb, setEntry_table] at htnew
  refine ⟨⟨⟨s, hput⟩, ?_, ?_, hcounted.load⟩, ?_⟩
  · exact hcounted.entries.trans (hold.length_eq.trans hnew.length_eq.symm)
  · exact hcounted.deleted.trans (htold.length_eq.trans htnew.length_eq.symm)
  · exact hnew.trans ((hsound.rest_eq hk hold hkey).symm.cons (k, v))

theorem Inv.fill (h : ht.Inv keyHash keyEquals) (hk : Keyed keyHash keyEquals)
    (hload : ht.entries + ht.deletedEntries < ht.maxEntries) (ha : a < ht.size)
    (hvacant : (ht.table a).present = false)
    (hreach : ∃ before after, ht.walk (keyHash k) = before ++ a :: after ∧
      ∀ b ∈ before, ht.free b = false)
    (hnone : ∀ b < ht.size, (ht.table b).present = true → keyEquals k (ht.table b).key = false)
    (v : V) :
    ({ ht.setEntry a (inserted keyHash k v) with
        entries := ht.entries + 1
        deletedEntries :=
          if (ht.table a).deleted then ht.deletedEntries - 1 else ht.deletedEntries } :
      HashTable K V).Inv keyHash keyEquals ∧
      (ht.setEntry a (inserted keyHash k v)).content.Perm
        ((k, v) :: without keyEquals k ht.content) := by
  obtain ⟨⟨s, hsound⟩, hcounted⟩ := h
  have hput : (ht.setEntry a (inserted keyHash k v)).Sound keyHash keyEquals s :=
    hsound.put hk rfl rfl rfl hreach fun b hb _ hbpresent => hnone b hb hbpresent
  obtain ⟨rest, hold, hnew⟩ := content_setEntry ha (inserted keyHash k v)
  obtain ⟨tombs, htold, htnew⟩ := tombs_setEntry ha (inserted keyHash k v)
  rw [held, hvacant] at hold
  rw [held, pair, setEntry_table] at hnew
  rw [tomb, setEntry_table] at htnew
  have htombs : (if (ht.table a).deleted then ht.deletedEntries - 1 else ht.deletedEntries) =
      tombs.length := by
    have hlength := hcounted.deleted.trans htold.length_eq
    rw [tomb] at hlength
    split
    next hdeleted =>
      rw [if_pos hdeleted] at hlength
      simp only [Option.toList_some, List.singleton_append, List.length_cons] at hlength
      omega
    next hdeleted =>
      rw [if_neg hdeleted] at hlength
      exact hlength
  refine ⟨⟨⟨s, hput.setCounts _ _⟩, ?_, ?_, ?_⟩, ?_⟩
  · exact (congrArg (· + 1) (hcounted.entries.trans hold.length_eq)).trans hnew.length_eq.symm
  · exact htombs.trans htnew.length_eq.symm
  · dsimp only [setEntry]
    split <;> omega
  · rw [without_eq_self hnone]
    exact hnew.trans (hold.symm.cons (k, v))

section Insert

variable [Inhabited K] [Inhabited V]

/-- Where an insertion goes in a table with room: to the entry of the key, or to a vacant one on
the walk of the key. -/
theorem Inv.getEntry (h : ht.Inv keyHash keyEquals) (hk : Keyed keyHash keyEquals)
    (hentries : ht.entries < 2 ^ 30) (k : K) :
    (∃ a < (hashTableMakeRoom ht true).size,
      hashTableGetEntry keyEquals ht (keyHash k) k true = (hashTableMakeRoom ht true, some a) ∧
      ((hashTableMakeRoom ht true).table a).present = true ∧
      keyEquals k ((hashTableMakeRoom ht true).table a).key = true) ∨
    (∃ a < (hashTableMakeRoom ht true).size,
      hashTableGetEntry keyEquals ht (keyHash k) k true =
        (hashTableMakeRoom ht true).take (keyHash k) (some a) ∧
      ((hashTableMakeRoom ht true).table a).present = false ∧
      (∃ before after, (hashTableMakeRoom ht true).walk (keyHash k) = before ++ a :: after ∧
        ∀ b ∈ before, (hashTableMakeRoom ht true).free b = false) ∧
      ∀ b < (hashTableMakeRoom ht true).size,
        ((hashTableMakeRoom ht true).table b).present = true →
          keyEquals k ((hashTableMakeRoom ht true).table b).key = false) := by
  obtain ⟨hinv, _, hload⟩ := h.makeRoom hk hentries
  simp only [hashTableGetEntry]
  generalize hashTableMakeRoom ht true = new at hinv hload
  obtain ⟨⟨s, hsound⟩, hcounted⟩ := hinv
  have hroom : new.content.length < new.size := by
    have hlt := hsound.shaped.good.room
    have hmax := hsound.shaped.maxEntries
    have hcount := hcounted.entries
    rw [hsound.shaped.size]
    omega
  obtain ⟨a, ha, hfind, hvacant, hreach⟩ := hsound.shaped.exists_vacant hroom (keyHash k)
  rw [hsound.shaped.doWhile_eq (hk.lt k)]
  obtain ⟨hhit, hfree, hround⟩ :=
    scan_getEntryBody new (keyHash k) keyEquals k (new.walk (keyHash k)) none
  by_cases hfound : ∃ b < new.size, (new.table b).present = true ∧
      keyEquals k (new.table b).key = true
  · obtain ⟨b, hb, hpresent, hkey⟩ := hfound
    obtain ⟨available, hscan⟩ := hhit b (hsound.find_stops hk hb hpresent hkey)
      (by rw [free, hpresent]; rfl)
    rw [hscan]
    exact .inl ⟨b, hb, rfl, hpresent, hkey⟩
  · have hnone : ∀ b < new.size, (new.table b).present = true →
        keyEquals k (new.table b).key = false := fun b hb hpresent =>
      Bool.eq_false_iff.mpr fun hkey => hfound ⟨b, hb, hpresent, hkey⟩
    refine .inr ⟨a, ha, ?_, hvacant, hreach, hnone⟩
    cases hstop : (new.walk (keyHash k)).find? (new.stops (keyHash k) keyEquals k) with
    | none =>
      rw [hround hstop, hfind]
      rfl
    | some b =>
      have hb : b < new.size := hsound.shaped.mem_walk.mp (List.mem_of_find?_eq_some hstop)
      have hbfree : new.free b = true := by
        have hstops := List.find?_some hstop
        rw [stops, Bool.or_eq_true, hits_iff] at hstops
        refine hstops.resolve_right fun hhits => ?_
        rw [hnone b hb hhits.1] at hhits
        cases hhits.2.2
      rw [hfree b hstop hbfree, hfind]
      rfl

theorem Inv.insert (h : ht.Inv keyHash keyEquals) (hk : Keyed keyHash keyEquals)
    (hentries : ht.entries < 2 ^ 30) (k : K) (v : V) :
    (hashTableInsert keyEquals ht (keyHash k) k v true).1.Inv keyHash keyEquals ∧
      (hashTableInsert keyEquals ht (keyHash k) k v true).1.content.Perm
        ((k, v) :: without keyEquals k ht.content) ∧
      (hashTableInsert keyEquals ht (keyHash k) k v true).2.map
        (hashTableInsert keyEquals ht (keyHash k) k v true).1.pair = some (k, v) := by
  obtain ⟨hinv, hperm, hload⟩ := h.makeRoom hk hentries
  have hgetEntry := h.getEntry hk hentries k
  generalize hashTableMakeRoom ht true = new at hinv hperm hload hgetEntry
  have hwithout : (without keyEquals k new.content).Perm (without keyEquals k ht.content) :=
    hperm.filter _
  obtain ⟨a, ha, hget, hpresent, hkey⟩ | ⟨a, ha, hget, hvacant, hreach, hnone⟩ := hgetEntry
  · obtain ⟨hreplaced, hcontent⟩ := hinv.replace hk ha hpresent hkey v
    obtain ⟨s, hsound⟩ := hinv.sound
    have hentry : ({ new.table a with
        key := k, data := v, present := true, deleted := false } : HashEntry K V) =
        inserted keyHash k v :=
      congrArg (fun hash => (⟨hash, true, false, k, v⟩ : HashEntry K V))
        ((hsound.hash a ha hpresent).trans (hk.hash _ _ hkey).symm)
    have hinsert : hashTableInsert keyEquals ht (keyHash k) k v true =
        (new.setEntry a (inserted keyHash k v), some a) := by
      rw [hashTableInsert, hget, ← hentry]
    rw [hinsert]
    refine ⟨hreplaced, hcontent.trans (hwithout.cons _), ?_⟩
    rw [Option.map_some, pair, setEntry_table]
    rfl
  · obtain ⟨hfilled, hcontent⟩ := hinv.fill hk hload ha hvacant hreach hnone v
    have hentry : hashTableInsert keyEquals ht (keyHash k) k v true =
        ({ new.setEntry a (inserted keyHash k v) with
          entries := new.entries + 1
          deletedEntries :=
            if (new.table a).deleted then new.deletedEntries - 1 else new.deletedEntries },
          some a) := by
      rw [hashTableInsert, hget, take]
      simp only [setEntry, Function.update_idem, Function.update_self]
      rfl
    rw [hentry]
    refine ⟨hfilled, hcontent.trans (hwithout.cons _), ?_⟩
    exact congrArg (fun e : HashEntry K V => some (e.key, e.data)) (setEntry_table a _)

end Insert

end HashTable

/-! ## Runs -/

section Runs

variable {K V : Type} [Inhabited K] [Inhabited V] {keyHash : K → Nat} {keyEquals : K → K → Bool}

inductive HashOp (K V : Type) where
  | search (key : K)
  | insert (key : K) (data : V)
  | removeKey (key : K)
  | clear
  deriving DecidableEq, Repr

/-- An operation on the table, with the entry it answers. -/
def HashOp.perform (keyHash : K → Nat) (keyEquals : K → K → Bool) (ht : HashTable K V) :
    HashOp K V → HashTable K V × Option (K × V)
  | search k => (ht, (hashTableSearch keyEquals ht (keyHash k) k).map ht.pair)
  | insert k v =>
    let inserted := hashTableInsert keyEquals ht (keyHash k) k v true
    (inserted.1, inserted.2.map inserted.1.pair)
  | removeKey k => (hashTableRemoveKey keyEquals keyHash ht k, none)
  | clear => (hashTableClearFast ht, none)

/-- The operation on a list of keys with their data. -/
def HashOp.onMap (keyEquals : K → K → Bool) (m : List (K × V)) :
    HashOp K V → List (K × V) × Option (K × V)
  | search k => (m, m.find? fun e => keyEquals k e.1)
  | insert k v => ((k, v) :: HashTable.without keyEquals k m, some (k, v))
  | removeKey k => (HashTable.without keyEquals k m, none)
  | clear => ([], none)

/-- The table has the entries of the list, and `n` more can come. -/
structure Holds (keyHash : K → Nat) (keyEquals : K → K → Bool) (n : Nat) (ht : HashTable K V)
    (m : List (K × V)) : Prop where
  inv : ht.Inv keyHash keyEquals
  content : ht.content.Perm m
  room : ht.entries + n ≤ 2 ^ 30

theorem Holds.perform (hk : Keyed keyHash keyEquals) {n : Nat} {ht : HashTable K V}
    {m : List (K × V)} (op : HashOp K V) (h : Holds keyHash keyEquals (n + 1) ht m) :
    Holds keyHash keyEquals n (op.perform keyHash keyEquals ht).1 (op.onMap keyEquals m).1 ∧
      (op.perform keyHash keyEquals ht).2 = (op.onMap keyEquals m).2 := by
  have hroom := h.room
  cases op with
  | search k =>
    obtain ⟨s, hsound⟩ := h.inv.sound
    exact ⟨⟨h.inv, h.content, Nat.le_of_succ_le hroom⟩, hsound.search_content hk h.content k⟩
  | insert k v =>
    obtain ⟨hinv, hcontent, hanswer⟩ := h.inv.insert hk (by omega) k v
    refine ⟨⟨hinv, hcontent.trans ((h.content.filter _).cons _), ?_⟩, hanswer⟩
    have hle : (HashTable.without keyEquals k ht.content).length ≤ ht.content.length :=
      List.length_filter_le _ _
    have hentries := hinv.counted.entries
    rw [hcontent.length_eq, List.length_cons] at hentries
    have hold := h.inv.counted.entries
    exact (by omega :
      (hashTableInsert keyEquals ht (keyHash k) k v true).1.entries + n ≤ 2 ^ 30)
  | removeKey k =>
    obtain ⟨hinv, hcontent, hle⟩ := h.inv.removeKey hk k
    refine ⟨⟨hinv, hcontent.trans (h.content.filter _), ?_⟩, rfl⟩
    exact (by omega : (hashTableRemoveKey keyEquals keyHash ht k).entries + n ≤ 2 ^ 30)
  | clear =>
    obtain ⟨s, hsound⟩ := h.inv.sound
    have hclear : ((HashOp.clear : HashOp K V).perform keyHash keyEquals ht).1 =
        .ofSize ht.sizeIndex s := HashTable.clearFast_eq hsound.shaped
    refine ⟨?_, rfl⟩
    rw [hclear]
    refine ⟨HashTable.inv_ofSize hsound.shaped.index hsound.shaped.entry, ?_, ?_⟩
    · exact .of_eq (HashTable.content_ofSize ht.sizeIndex)
    · exact (by omega : 0 + n ≤ 2 ^ 30)

theorem Holds.init {n : Nat} (hn : n ≤ 2 ^ 30) :
    Holds keyHash keyEquals n (hashTableInit : HashTable K V) [] where
  inv := HashTable.inv_ofSize (by decide) rfl
  content := .of_eq (HashTable.content_ofSize 0)
  room := (by omega : 0 + n ≤ 2 ^ 30)

/-- **A run on the table is a run on the list.** The answers agree, and the table has and counts
the entries of the list. -/
theorem hashTable_answers (hk : Keyed keyHash keyEquals) {ops : List (HashOp K V)}
    (hops : ops.length ≤ 2 ^ 30) :
    (answers (HashOp.perform keyHash keyEquals) hashTableInit ops).2 =
        (answers (HashOp.onMap keyEquals) [] ops).2 ∧
      (answers (HashOp.perform keyHash keyEquals) hashTableInit ops).1.content.Perm
        (answers (HashOp.onMap keyEquals) [] ops).1 ∧
      (answers (HashOp.perform keyHash keyEquals) hashTableInit ops).1.entries =
        (answers (HashOp.onMap keyEquals) [] ops).1.length := by
  obtain ⟨hholds, hanswers⟩ := answers_eq (R := Holds keyHash keyEquals)
    (fun op h => h.perform hk op) (.init hops)
  exact ⟨hanswers, hholds.content, hholds.inv.counted.entries.trans hholds.content.length_eq⟩

/-- Two keys of one slot: the walk of the second goes on past the first after its removal. -/
theorem hashTable_answers_collision :
    (answers (HashOp.perform (· % 2 ^ 32) (· == ·)) hashTableInit
      [.insert 7 10, .insert 330 20, .removeKey 7, .search 330, .search 7, .insert 330 30,
        .search 330]).2 =
      [some (7, 10), some (330, 20), none, some (330, 20), none, some (330, 30),
        some (330, 30)] := by
  have hk : Keyed (· % 2 ^ 32) (· == · : Nat → Nat → Bool) := by
    refine ⟨by simp, fun k l => ?_, fun k l m => ?_, fun k l => ?_, fun k => ?_⟩
    · simp only [beq_iff_eq]
      exact Eq.symm
    · simp only [beq_iff_eq]
      exact Eq.trans
    · simp only [beq_iff_eq]
      exact congrArg (· % 2 ^ 32)
    · exact Nat.mod_lt _ (by decide)
  exact (hashTable_answers hk (by decide)).1.trans (by decide)

end Runs

end Psbc.Util
