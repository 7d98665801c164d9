import Psbc.Lib.Probing
import Psbc.Util.FastUrem

/-!
# The hash table

`hash_table.c` keeps its entries in an array and finds them by double hashing: from the slot of
the hash it goes on by a stride of its own until it is back. A removed entry stays behind as
deleted, so that the walks of other keys go on past it. When the entries, or they and the deleted
ones together, have come up to the limit, the table is rebuilt, larger or at the same size.

The array is a function of the address. The two functions of the keys are parameters, and whether
memory for a new array was to be had is an argument.
-/

namespace Psbc.Util

open Probing

structure HashEntry (K V : Type) where
  hash : Nat
  present : Bool
  deleted : Bool
  key : K
  data : V

structure HashSize where
  maxEntries : Nat
  size : Nat
  rehash : Nat
  deriving DecidableEq, Repr

def hashSizes : List HashSize :=
  [⟨16, 19, 17⟩, ⟨32, 43, 41⟩, ⟨64, 73, 71⟩, ⟨128, 151, 149⟩, ⟨256, 283, 281⟩, ⟨512, 571, 569⟩,
    ⟨1024, 1153, 1151⟩, ⟨2048, 2269, 2267⟩, ⟨4096, 4519, 4517⟩, ⟨8192, 9013, 9011⟩,
    ⟨16384, 18043, 18041⟩, ⟨32768, 36109, 36107⟩, ⟨65536, 72091, 72089⟩,
    ⟨131072, 144409, 144407⟩, ⟨262144, 288361, 288359⟩, ⟨524288, 576883, 576881⟩,
    ⟨1048576, 1153459, 1153457⟩, ⟨2097152, 2307163, 2307161⟩, ⟨4194304, 4613893, 4613891⟩,
    ⟨8388608, 9227641, 9227639⟩, ⟨16777216, 18455029, 18455027⟩, ⟨33554432, 36911011, 36911009⟩,
    ⟨67108864, 73819861, 73819859⟩, ⟨134217728, 147639589, 147639587⟩,
    ⟨268435456, 295279081, 295279079⟩, ⟨536870912, 590559793, 590559791⟩,
    ⟨1073741824, 1181116273, 1181116271⟩, ⟨2147483648, 2362232233, 2362232231⟩]

def HashSize.sizeMagic (s : HashSize) : Nat := REMAINDER_MAGIC s.size

def HashSize.rehashMagic (s : HashSize) : Nat := REMAINDER_MAGIC s.rehash

structure HashTable (K V : Type) where
  table : Nat → HashEntry K V
  size : Nat
  rehash : Nat
  sizeMagic : Nat
  rehashMagic : Nat
  maxEntries : Nat
  sizeIndex : Nat
  entries : Nat
  deletedEntries : Nat

section Table

variable {K V : Type} [Inhabited K] [Inhabited V]

def HashEntry.zeroed : HashEntry K V := ⟨0, false, false, default, default⟩

def HashTable.ofSize (sizeIndex : Nat) (s : HashSize) : HashTable K V where
  table _ := .zeroed
  size := s.size
  rehash := s.rehash
  sizeMagic := s.sizeMagic
  rehashMagic := s.rehashMagic
  maxEntries := s.maxEntries
  sizeIndex := sizeIndex
  entries := 0
  deletedEntries := 0

def hashTableInit : HashTable K V := .ofSize 0 ⟨16, 19, 17⟩

def hashTableClearFast (ht : HashTable K V) : HashTable K V :=
  { ht with table := fun _ => .zeroed, entries := 0, deletedEntries := 0 }

end Table

namespace HashTable

variable {K V : Type} (ht : HashTable K V) (hash : Nat)

def setEntry (a : Nat) (entry : HashEntry K V) : HashTable K V :=
  { ht with table := Function.update ht.table a entry }

def startHashAddress : Nat := utilFastUrem32 hash ht.size ht.sizeMagic

def doubleHash : Nat := 1 + utilFastUrem32 hash ht.rehash ht.rehashMagic

def nextHashAddress (hashAddress : Nat) : Nat :=
  let hashAddress := (hashAddress + ht.doubleHash hash) % 2 ^ 32
  if hashAddress ≥ ht.size then hashAddress - ht.size else hashAddress

def free (a : Nat) : Bool := !(ht.table a).present && !(ht.table a).deleted

variable (keyEquals : K → K → Bool) (key : K)

def hits (a : Nat) : Bool :=
  (ht.table a).present && (ht.table a).hash == hash && keyEquals key (ht.table a).key

def searchBody (a : Nat) (_ : Unit) : Option Nat ⊕ Unit :=
  if ht.free a then .inl none
  else if ht.hits hash keyEquals key a then .inl (some a)
  else .inr ()

/-- The body of the loop of `hash_table_get_entry`: the entry that has the key, and the first one
that is available. -/
def getEntryBody (a : Nat) (available : Option Nat) : (Option Nat × Option Nat) ⊕ Option Nat :=
  let available :=
    if !(ht.table a).present && available.isNone then some a else available
  if ht.free a then .inl (none, available)
  else if ht.hits hash keyEquals key a then .inl (some a, available)
  else .inr available

def take (available : Option Nat) : HashTable K V × Option Nat :=
  match available with
  | some a =>
    let deletedEntries := if (ht.table a).deleted then ht.deletedEntries - 1 else ht.deletedEntries
    ({ ht.setEntry a { ht.table a with hash := hash } with
      deletedEntries := deletedEntries
      entries := ht.entries + 1 }, some a)
  | none => (ht, none)

/-- Where a new entry goes while a table is rebuilt. -/
def rehashAddress : Option Nat :=
  loop (fun a => if (ht.table a).present then none else some a) (ht.nextHashAddress hash) ht.size
    (ht.startHashAddress hash)

end HashTable

section Operations

variable {K V : Type} (keyEquals : K → K → Bool)

def hashTableSearch (ht : HashTable K V) (hash : Nat) (key : K) : Option Nat :=
  let start := ht.startHashAddress hash
  match doWhile (ht.searchBody hash keyEquals key) (ht.nextHashAddress hash) start ht.size start ()
  with
  | .inl found => found
  | .inr _ => none

def hashTableInsertRehash (ht : HashTable K V) (hash : Nat) (key : K) (data : V) :
    HashTable K V :=
  match ht.rehashAddress hash with
  | some a =>
    ht.setEntry a { ht.table a with hash := hash, key := key, data := data, present := true }
  | none => ht

/-- `_mesa_hash_table_next_entry`: the next entry that is present, or the first one. -/
def hashTableNextEntry (ht : HashTable K V) (entry : Option Nat) : Option Nat :=
  let start := match entry with
    | none => 0
    | some a => a + 1
  (List.range' start (ht.size - start)).find? fun a => (ht.table a).present

/-- The entries that `hash_table_foreach` visits. -/
def hashTableForeach (ht : HashTable K V) : Nat → Option Nat → List Nat
  | 0, _ => []
  | fuel + 1, entry =>
    match hashTableNextEntry ht entry with
    | none => []
    | some a => a :: hashTableForeach ht fuel (some a)

def hashTableRemove (ht : HashTable K V) (entry : Option Nat) : HashTable K V :=
  match entry with
  | none => ht
  | some a =>
    { ht.setEntry a { ht.table a with present := false, deleted := true } with
      entries := ht.entries - 1
      deletedEntries := ht.deletedEntries + 1 }

def hashTableRemoveKey (keyHash : K → Nat) (ht : HashTable K V) (key : K) : HashTable K V :=
  hashTableRemove ht (hashTableSearch keyEquals ht (keyHash key) key)

variable [Inhabited K] [Inhabited V]

def hashTableRehash (ht : HashTable K V) (newSizeIndex : Nat) (alloc : Bool) : HashTable K V :=
  if ht.sizeIndex = newSizeIndex ∧ ht.deletedEntries = ht.maxEntries then hashTableClearFast ht
  else
    match hashSizes[newSizeIndex]? with
    | none => ht
    | some s =>
      if alloc then
        let rebuilt := (hashTableForeach ht ht.size none).foldl (fun new a =>
          let entry := ht.table a
          hashTableInsertRehash new entry.hash entry.key entry.data) (.ofSize newSizeIndex s)
        { rebuilt with entries := ht.entries }
      else ht

/-- The table with room for one more entry, if memory could be had. -/
def hashTableMakeRoom (ht : HashTable K V) (alloc : Bool) : HashTable K V :=
  if ht.entries ≥ ht.maxEntries then hashTableRehash ht (ht.sizeIndex + 1) alloc
  else if ht.deletedEntries + ht.entries ≥ ht.maxEntries then hashTableRehash ht ht.sizeIndex alloc
  else ht

def hashTableGetEntry (ht : HashTable K V) (hash : Nat) (key : K) (alloc : Bool) :
    HashTable K V × Option Nat :=
  let ht := hashTableMakeRoom ht alloc
  let start := ht.startHashAddress hash
  match doWhile (ht.getEntryBody hash keyEquals key) (ht.nextHashAddress hash) start ht.size start
    none with
  | .inl (some a, _) => (ht, some a)
  | .inl (none, available) => ht.take hash available
  | .inr available => ht.take hash available

def hashTableInsert (ht : HashTable K V) (hash : Nat) (key : K) (data : V) (alloc : Bool) :
    HashTable K V × Option Nat :=
  match hashTableGetEntry keyEquals ht hash key alloc with
  | (ht, some a) =>
    (ht.setEntry a
      { ht.table a with key := key, data := data, present := true, deleted := false }, some a)
  | (ht, none) => (ht, none)

end Operations

end Psbc.Util
