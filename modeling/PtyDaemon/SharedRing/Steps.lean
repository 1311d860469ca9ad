import PtyDaemon.Framework.Transition
import PtyDaemon.SharedRing.Contents
import Mathlib.Logic.Function.Iterate

/-!
# The accessors taken apart into atomic steps

One writer and any number of readers share the ring. Every atomic load, store and
`fetch_add`, every chunk `write` copies and every slice `dump` copies is one step of a
sequentially consistent interleaving. The state also keeps the history the results are about:
the blocks of the completed writes, where chunks were copied, and what each `read_snapshot`
returned.
-/

namespace PtyDaemon

open Circular

namespace SharedRingBuffer

/-- A step of `write` that changes the ring. -/
inductive Op
  | copy (i : Nat) (block : List UInt8)
  | seqBeginWrite
  | storeWritePos (v : Nat)
  | storeTotalWritten (v : Nat)
  | seqEndWrite
  deriving DecidableEq

def Op.apply (r : SharedRingBuffer) : Op → SharedRingBuffer
  | .copy i block => r.copyIn i block
  | .seqBeginWrite => r.seqBeginWrite
  | .storeWritePos v => r.storeWritePos v
  | .storeTotalWritten v => r.storeTotalWritten v
  | .seqEndWrite => r.seqEndWrite

def nextWritePos (capacity writePos len : Nat) : Nat :=
  if capacity ≤ len then 0 else wrapAdd writePos len % capacity

/-- The counter steps of `write`, which come after all of its copies. -/
def counterOps (capacity writePos totalWritten len : Nat) : List Op :=
  [.seqBeginWrite, .storeWritePos (nextWritePos capacity writePos len),
    .storeTotalWritten (wrapAdd totalWritten len), .seqEndWrite]

/-- The steps of `write` after its two loads. -/
def writeOps (capacity writePos totalWritten : Nat) (data : List UInt8) : List Op :=
  (writeChunks capacity writePos data).map (fun c => .copy c.1 c.2) ++
    counterOps capacity writePos totalWritten data.length

theorem write_eq_ops (r : SharedRingBuffer) {data : List UInt8} (hd : data ≠ []) :
    r.write data = (writeOps r.capacity r.writePos r.totalWritten data).foldl Op.apply r := by
  have hne : ¬data.isEmpty = true := by simpa using hd
  simp only [write, writeOps, counterOps, writeChunks, nextWritePos, if_neg hne]
  split
  · rfl
  · split <;> rfl

/-- Where the writer stands in `write`. -/
inductive Writer
  | idle
  | loadWritePos (data : List UInt8)
  | loadTotalWritten (data : List UInt8) (writePos : Nat)
  | running (data : List UInt8) (op : Op) (ops : List Op)
  deriving DecidableEq

/-- A copy that leaves the mapping ends the writer's process. -/
def Writer.faults (r : SharedRingBuffer) : Writer → Bool
  | .running _ (.copy i block) _ => !decide (r.Mapped i block)
  | _ => false

def Writer.next (data : List UInt8) : List Op → Writer
  | [] => .idle
  | op :: ops => .running data op ops

/-- One step of the writer; its own two loads see its own values. -/
def Writer.step (r : SharedRingBuffer) : Writer → SharedRingBuffer × Writer
  | .idle => (r, .idle)
  | .loadWritePos data => (r, .loadTotalWritten data r.writePos)
  | .loadTotalWritten data writePos =>
    (r, .next data (writeOps r.capacity writePos r.totalWritten data))
  | .running data op ops => (op.apply r, .next data ops)

/-- The accessors that begin with `read_snapshot`. -/
inductive Reading
  | snapshot
  | dump
  deriving DecidableEq

/-- The slices `dump` copies once it has its snapshot. -/
def dumpSlices (capacity writePos totalWritten : Nat) : List (Nat × Nat) :=
  if capacity ≤ writePos then []
  else
    let validLen := if capacity ≤ totalWritten then capacity else totalWritten
    if validLen = 0 then []
    else if capacity ≤ totalWritten then [(writePos, capacity - writePos), (0, writePos)]
    else [(0, writePos)]

/-- Where a reader stands; `slices [] result` is a `dump` that has returned `result`. -/
inductive Reader
  | idle
  | magic
  | seq1 (call : Reading)
  | writePos (call : Reading) (seq1 : Nat)
  | totalWritten (call : Reading) (seq1 writePos : Nat)
  | seq2 (call : Reading) (seq1 writePos totalWritten : Nat)
  | slices (todo : List (Nat × Nat)) (result : List UInt8)
  deriving DecidableEq

def Reader.step (r : SharedRingBuffer) : Reader → Reader
  | .idle => .idle
  | .magic => if r.magic ≠ shmMagic then .slices [] [] else .seq1 .dump
  | .seq1 call => if r.sequence % 2 ≠ 0 then .seq1 call else .writePos call r.sequence
  | .writePos call s1 => .totalWritten call s1 r.writePos
  | .totalWritten call s1 wp => .seq2 call s1 wp r.totalWritten
  | .seq2 call s1 wp total =>
    if s1 = r.sequence then
      match call with
      | .snapshot => .idle
      | .dump => .slices (dumpSlices r.capacity wp total) []
    else .seq1 call
  | .slices [] result => .slices [] result
  | .slices ((i, n) :: todo) result => .slices todo (result ++ slice r.data i n)

def Reader.returned : Reader → Option (List UInt8)
  | .slices [] result => some result
  | _ => none

def Reader.atRest : Reader → Bool
  | .idle => true
  | .slices [] _ => true
  | _ => false

@[simp] theorem Reader.seq1_atRest (c : Reading) : (Reader.seq1 c).atRest = false := rfl

@[simp] theorem Reader.writePos_atRest (c : Reading) (s1 : Nat) :
    (Reader.writePos c s1).atRest = false := rfl

@[simp] theorem Reader.totalWritten_atRest (c : Reading) (s1 wp : Nat) :
    (Reader.totalWritten c s1 wp).atRest = false := rfl

@[simp] theorem Reader.seq2_atRest (c : Reading) (s1 wp total : Nat) :
    (Reader.seq2 c s1 wp total).atRest = false := rfl

def Reader.start : Reading → Reader
  | .snapshot => .seq1 .snapshot
  | .dump => .magic

/-- A chunk copied by write number `write`, counted from zero. -/
structure Copied where
  write : Nat
  start : Nat
  len : Nat
  deriving DecidableEq

def Copied.Covers (c : Copied) (j : Nat) : Prop := c.start ≤ j ∧ j < c.start + c.len

instance (c : Copied) (j : Nat) : Decidable (c.Covers j) :=
  inferInstanceAs (Decidable (_ ∧ _))

/-- A pair returned by `read_snapshot`, with the writes completed when it was called and
when it returned. -/
structure Taken (ι : Type) where
  reader : ι
  started : Nat
  finished : Nat
  writePos : Nat
  totalWritten : Nat

structure State (ι : Type) where
  ring : SharedRingBuffer
  writer : Writer
  reader : ι → Reader
  /-- the blocks of the completed writes -/
  blocks : List (List UInt8)
  /-- how many writes have executed `seq_begin_write` -/
  begun : Nat
  copies : List Copied
  /-- completed writes when the reader's current `read_snapshot` was called -/
  started : ι → Nat
  /-- completed writes when the reader last loaded the sequence for the first time -/
  seenAt : ι → Nat
  taken : List (Taken ι)

inductive Label (ι : Type)
  | write (data : List UInt8)
  | writer
  | call (i : ι) (c : Reading)
  | reader (i : ι)

variable {ι : Type} [DecidableEq ι]

def Writer.copied (n : Nat) : Writer → List Copied
  | .running _ (.copy i block) _ => [⟨n, i, block.length⟩]
  | _ => []

def Writer.begins : Writer → Nat
  | .running _ .seqBeginWrite _ => 1
  | _ => 0

def Writer.completes : Writer → List (List UInt8)
  | .running data _ [] => [data]
  | _ => []

def State.writerStep (s : State ι) : State ι :=
  { s with
    ring := (s.writer.step s.ring).1
    writer := (s.writer.step s.ring).2
    blocks := s.blocks ++ s.writer.completes
    begun := s.begun + s.writer.begins
    copies := s.copies ++ s.writer.copied s.blocks.length }

def State.readerStep (s : State ι) (i : ι) : State ι :=
  { s with
    reader := Function.update s.reader i ((s.reader i).step s.ring)
    started :=
      match s.reader i with
      | .magic => Function.update s.started i s.blocks.length
      | _ => s.started
    seenAt :=
      match s.reader i with
      | .seq1 _ => Function.update s.seenAt i s.blocks.length
      | _ => s.seenAt
    taken :=
      match s.reader i with
      | .seq2 _ s1 wp total =>
        if s1 = s.ring.sequence then s.taken ++ [⟨i, s.started i, s.blocks.length, wp, total⟩]
        else s.taken
      | _ => s.taken }

/-- An empty block makes `write` return before its first step. A writer whose copy faults takes no
step any more. -/
def State.step (s : State ι) : Label ι → Option (State ι)
  | .write data =>
    if s.writer ≠ .idle then none
    else if data.isEmpty then some s
    else some { s with writer := .loadWritePos data }
  | .writer =>
    if s.writer = .idle ∨ s.writer.faults s.ring then none else some s.writerStep
  | .call i c =>
    if (s.reader i).atRest then
      some
        { s with
          reader := Function.update s.reader i (.start c)
          started := Function.update s.started i s.blocks.length }
    else none
  | .reader i => if (s.reader i).atRest then none else some (s.readerStep i)

def State.initial (ι : Type) (r : SharedRingBuffer) : State ι where
  ring := r
  writer := .idle
  reader := fun _ => .idle
  blocks := []
  begun := 0
  copies := []
  started := fun _ => 0
  seenAt := fun _ => 0
  taken := []

/-- The interleavings of one writer and the readers `ι` on the ring `r`. -/
def ringSystem (ι : Type) [DecidableEq ι] (r : SharedRingBuffer) :
    Transition.System (State ι) (Label ι) where
  init s := s = State.initial ι r
  step := State.step

/-! ## A reader alone -/

theorem dump_eq_slices (r : SharedRingBuffer) :
    r.dump =
      if r.magic ≠ shmMagic then some []
      else r.readSnapshot.map fun p =>
        (dumpSlices r.capacity p.1 p.2).flatMap fun s => slice r.data s.1 s.2 := by
  rw [dump]
  split
  · rfl
  · cases r.readSnapshot with
    | none => rfl
    | some p =>
      simp only [Option.bind_eq_bind, Option.bind_some, Option.map_some, dumpSlices]
      split
      · rfl
      · split
        · split
          · rfl
          · simp
        · split
          · rfl
          · simp

private theorem slices_iterate (r : SharedRingBuffer) (todo : List (Nat × Nat))
    (result : List UInt8) :
    (Reader.step r)^[todo.length] (.slices todo result) =
      .slices [] (result ++ todo.flatMap fun s => slice r.data s.1 s.2) := by
  induction todo generalizing result with
  | nil => simp
  | cons s todo ih =>
    rw [List.length_cons, Function.iterate_succ_apply, Reader.step, ih]
    simp

/-- While the sequence is odd the loop of `read_snapshot` comes back to its head. -/
theorem snapshot_spins {r : SharedRingBuffer} (h : r.sequence % 2 ≠ 0) (c : Reading) (n : Nat) :
    (Reader.step r)^[n] (.seq1 c) = .seq1 c := by
  induction n with
  | zero => rfl
  | succ n ih => rw [Function.iterate_succ_apply, Reader.step, if_pos h, ih]

private theorem slices_stay (r : SharedRingBuffer) (result : List UInt8) (n : Nat) :
    (Reader.step r)^[n] (.slices [] result) = .slices [] result := by
  induction n with
  | zero => rfl
  | succ n ih => rw [Function.iterate_succ_apply, Reader.step, ih]

/-- With nobody writing, the steps of `dump` lead to the value of `SharedRingBuffer.dump`, and
never return where that has none. -/
theorem dump_alone (r : SharedRingBuffer) (bytes : List UInt8) :
    (∃ n, ((Reader.step r)^[n] .magic).returned = some bytes) ↔ r.dump = some bytes := by
  have hend : ∀ n m result, (Reader.step r)^[m] .magic = .slices [] result →
      ((Reader.step r)^[n] .magic).returned = some bytes → result = bytes := by
    intro n m result hm hn
    have hmax : (Reader.step r)^[n + m] .magic = .slices [] result := by
      rw [Function.iterate_add_apply, hm, slices_stay]
    cases hr : (Reader.step r)^[n] .magic with
    | slices todo res =>
      rw [hr] at hn
      cases todo with
      | nil =>
        rw [Nat.add_comm, Function.iterate_add_apply, hr, slices_stay] at hmax
        cases hmax
        exact Option.some.inj hn
      | cons s todo => cases hn
    | _ =>
      rw [hr] at hn
      cases hn
  rw [dump_eq_slices]
  by_cases hmagic : r.magic ≠ shmMagic
  · have h1 : (Reader.step r)^[1] .magic = .slices [] [] := by
      rw [Function.iterate_one, Reader.step, if_pos hmagic]
    rw [if_pos hmagic, Option.some.injEq]
    constructor
    · rintro ⟨n, hn⟩
      exact hend n 1 [] h1 hn
    · intro hb
      exact ⟨1, by rw [h1, ← hb]; rfl⟩
  · have h1 : Reader.step r .magic = .seq1 .dump := by rw [Reader.step, if_neg hmagic]
    rw [if_neg hmagic, readSnapshot]
    by_cases hodd : r.sequence % 2 ≠ 0
    · rw [if_pos hodd]
      constructor
      · rintro ⟨n, hn⟩
        cases n with
        | zero => cases hn
        | succ n =>
          rw [Function.iterate_succ_apply, h1, snapshot_spins hodd] at hn
          cases hn
      · intro h
        cases h
    · let todo := dumpSlices r.capacity r.writePos r.totalWritten
      have h5 : (Reader.step r)^[5] .magic = .slices todo [] := by
        simp only [Function.iterate_succ_apply, Function.iterate_zero_apply, h1]
        simp only [Reader.step, if_neg hodd, if_true, todo]
      have hall : (Reader.step r)^[todo.length + 5] .magic =
          .slices [] (todo.flatMap fun s => slice r.data s.1 s.2) := by
        rw [Function.iterate_add_apply, h5, slices_iterate, List.nil_append]
      rw [if_neg hodd, Option.map_some, Option.some.injEq]
      constructor
      · rintro ⟨n, hn⟩
        exact hend n _ _ hall hn
      · intro hb
        exact ⟨todo.length + 5, by rw [hall, ← hb]; rfl⟩

end SharedRingBuffer

end PtyDaemon
