import Psbc.Lib.Atomic
import Mathlib.Data.List.FinRange
import Mathlib.Algebra.BigOperators.Group.Finset.Basic
import Mathlib.Algebra.GroupWithZero.Nat

/-!
# Ordered streamout without GDS: the code of one workgroup

`ac_nir_ngg_build_streamout_buffer_info` (`ac_nir_prerast_utils.c`) on the PS5
path, as run by invocation 0 of a workgroup. The control block is record 4 of the
streamout table: the buffer offsets at `+0`, the generated and captured primitive
counts of the streams at `+16` and `+32`, the ticket at `+48` and the timeout
count at `+52`. Every access to it is a 32-bit atomic, so the workgroup is a
program of atomic operations on those cells (`streamoutBufferInfo`), and a draw is
a pool of such programs (`launch`).
-/

namespace Psbc.Streamout

open Atomic

abbrev Word := BitVec 32

/-- Buffers and streams are written as numerals of `Fin 4`. -/
scoped instance neZero_four : NeZero 4 := ⟨by decide⟩

/-- The 32-bit cells of the control block. -/
inductive Cell where
  | buffer (b : Fin 4)
  | generated (s : Fin 4)
  | captured (s : Fin 4)
  | ticket
  | timeout
  deriving DecidableEq, Repr

def Cell.offset : Cell → Nat
  | buffer b => b * 4
  | generated s => 16 + s * 4
  | captured s => 32 + s * 4
  | ticket => 48
  | timeout => 52

/-- Distinct cells are distinct words of the control block. -/
theorem Cell.offset_injective : Function.Injective Cell.offset := by
  rintro (b | s | s | _ | _) (b' | s' | s' | _ | _) h <;> simp only [offset] at h <;>
    first | rfl | (congr 1; omega)

/-- The fields of `nir_xfb_info` the function reads, the vertices per primitive and
channel 2 (the size) of each buffer's descriptor. -/
structure Draw where
  buffersWritten : Fin 4 → Bool
  streamsWritten : Fin 4 → Bool
  bufferToStream : Fin 4 → Fin 4
  stride : Fin 4 → BitVec 16
  numVertPerPrim : Word
  bufferSize : Fin 4 → Word
  /-- The assertion at the head of the function. -/
  stride_pos : ∀ b, buffersWritten b = true → 0 < (stride b).toNat
  numVert_pos : 0 < numVertPerPrim.toNat
  numVert_le : numVertPerPrim.toNat ≤ 3
  bufferSize_lt : ∀ b, (bufferSize b).toNat < 2 ^ 31

/-- What a workgroup brings: the id of its first input primitive, the number of its
input primitives, and per stream the number of its live invocations. -/
structure Workgroup where
  primitiveId : Word
  numInputPrims : Word
  genPrim : Fin 4 → Word
  genPrim_lt : ∀ s, (genPrim s).toNat < 2 ^ 31

/-- The values every wave fetches afterwards. -/
structure BufferInfo where
  bufferOffset : Fin 4 → Word
  emitPrim : Fin 4 → Word

namespace Draw

variable (d : Draw)

def buffers : List (Fin 4) := (List.finRange 4).filter d.buffersWritten

def streams : List (Fin 4) := (List.finRange 4).filter d.streamsWritten

def primStride (b : Fin 4) : Word := d.numVertPerPrim * (d.stride b).zeroExtend 32

/-- A buffer of size zero is not bound. -/
def bufferValid (b : Fin 4) : Bool := d.bufferSize b != 0

def anyBufferValid : Bool := d.buffers.any d.bufferValid

end Draw

section Code

variable (d : Draw) (w : Workgroup)

def workgroupBufferSize (b : Fin 4) : Word :=
  if d.bufferValid b then w.genPrim (d.bufferToStream b) * d.primStride b else 0

def atomicAdd {α : Type} (c : Cell) (v : Word) (k : Word → Prog Cell Word α) :
    Prog Cell Word α := .rmw c (· + v) k

/-- The bounded wait for the ticket, with the number of polls left. -/
def ticketWait (orderedId : Word) : Nat → Prog Cell Word Unit
  | 0 => atomicAdd .timeout 1 fun _ => .ret ()
  | polls + 1 =>
    atomicAdd .ticket 0 fun ticket =>
      if ticket = orderedId then .ret () else ticketWait orderedId polls

def reserve : List (Fin 4) → (Fin 4 → Word) → Prog Cell Word (Fin 4 → Word)
  | [], offset => .ret offset
  | b :: bs, offset =>
    atomicAdd (.buffer b) (workgroupBufferSize d w b) fun o =>
      reserve bs (Function.update offset b o)

/-- An unbound buffer's offset counts as zero. -/
def bufferOffset (offset : Fin 4 → Word) (b : Fin 4) : Word :=
  if d.bufferValid b then offset b else 0

def imin (x y : Word) : Word := if x.slt y then x else y

def limitPrim (offset : Fin 4 → Word) (b : Fin 4) (emit : Word) : Word :=
  let remainSize := d.bufferSize b - bufferOffset d offset b
  let remainPrim := remainSize.sdiv (d.primStride b)
  let overflow := (d.bufferSize b).slt (bufferOffset d offset b)
  if overflow then 0 else imin emit remainPrim

def emitPrim (offset : Fin 4 → Word) : Fin 4 → Word :=
  d.buffers.foldl
    (fun emit b =>
      Function.update emit (d.bufferToStream b) (limitPrim d offset b (emit (d.bufferToStream b))))
    w.genPrim

/-- The part of the reservation of buffer `b` that is not written. -/
def unused (emit : Fin 4 → Word) (b : Fin 4) : Word :=
  workgroupBufferSize d w b - emit (d.bufferToStream b) * d.primStride b

def giveBack (emit : Fin 4 → Word) : List (Fin 4) → Prog Cell Word Unit
  | [] => .ret ()
  | b :: bs =>
    if unused d w emit b ≠ 0 then
      atomicAdd (.buffer b) (-unused d w emit b) fun _ => giveBack emit bs
    else giveBack emit bs

def countPrims (emit : Fin 4 → Word) : List (Fin 4) → Prog Cell Word Unit
  | [] => .ret ()
  | s :: ss =>
    atomicAdd (.generated s) (w.genPrim s) fun _ =>
      atomicAdd (.captured s) (emit s) fun _ => countPrims emit ss

/-- Reserve, emit, give back and count: everything between the wait and the
hand-over. -/
def capture : Prog Cell Word BufferInfo :=
  (reserve d w d.buffers fun _ => 0).bind fun offset =>
    (giveBack d w (emitPrim d w offset) d.buffers).bind fun _ =>
      (countPrims w (emitPrim d w offset) d.streams).bind fun _ =>
        .ret ⟨bufferOffset d offset, emitPrim d w offset⟩

def orderedNext : Word := w.primitiveId + w.numInputPrims

/-- `ac_nir_ngg_build_streamout_buffer_info`, invocation 0, PS5 path. -/
def streamoutBufferInfo : Prog Cell Word BufferInfo :=
  (if d.anyBufferValid then ticketWait w.primitiveId (2 ^ 16) else .ret ()).bind fun _ =>
    (capture d w).bind fun info =>
      if d.anyBufferValid then .rmw .ticket (fun _ => orderedNext w) fun _ => .ret info
      else .ret info

end Code

/-- The input primitives of the first `n` workgroups are non-empty ranges of ids
that follow one another from `0` to `N`. -/
structure Tiles (n : Nat) (ws : Nat → Workgroup) (N : Nat) : Prop where
  first : ∀ i < n, (ws i).primitiveId.toNat = ∑ j ∈ Finset.range i, (ws j).numInputPrims.toNat
  nonempty : ∀ i < n, 0 < (ws i).numInputPrims.toNat
  total : ∑ j ∈ Finset.range n, (ws j).numInputPrims.toNat = N

def launch (d : Draw) (n : Nat) (ws : Nat → Workgroup) (m : Cell → Word) :
    Pool (Fin n) Cell Word BufferInfo :=
  ⟨fun i => streamoutBufferInfo d (ws i), m⟩

end Psbc.Streamout
