import Mathlib.Algebra.Ring.Nat
import PtyDaemon.Framework.Circular

/-!
# The shared ring buffer

Terminal output lives in a POSIX shared-memory object: a header, three counters on cache
lines of their own (the SeqLock sequence, the write position and the total), and the data
area. This module embeds the accessors of `SharedRingBuffer` as one process runs them with
nobody else writing; `SharedRing/Steps` takes the same accessors apart into their atomic
steps. A `u64` is a natural number below `2 ^ 64`, and sums and differences of `u64` and
`usize` values wrap, as they do in the release build.
-/

namespace PtyDaemon

open Circular

def headerSize : Nat := 512

/-- "PTYD" -/
def shmMagic : Nat := 0x50545944

def defaultRingSize : Nat := 1024 * 1024

def wrapAdd (a b : Nat) : Nat := (a + b) % 2 ^ 64

def wrapSub (a b : Nat) : Nat := if b ≤ a then a - b else a + 2 ^ 64 - b

/-- The mapped object. `capacity` is what the header says, `data` the data area as far as it is
mapped. -/
structure SharedRingBuffer where
  magic : Nat
  capacity : Nat
  sequence : Nat
  writePos : Nat
  totalWritten : Nat
  data : List UInt8
  deriving DecidableEq

/-- What `sysconf` gives for the page: a power of two, with room for the header. -/
structure PageSize where
  bits : Nat
  header_le : 9 ≤ bits
  lt : bits < 63
  deriving DecidableEq

def PageSize.bytes (page : PageSize) : Nat := 2 ^ page.bits

/-- A page of 4096 bytes. -/
def page4096 : PageSize := ⟨12, by decide, by decide⟩

/-- `usize::div_ceil`. -/
def divCeil (a b : Nat) : Nat := if 0 < a % b then a / b + 1 else a / b

/-- Whole pages for the header and the data area; the sum and the product wrap. -/
def mmapSizeFor (page : PageSize) (capacity : Nat) : Nat :=
  divCeil (wrapAdd headerSize capacity) page.bytes * page.bytes % 2 ^ 64

namespace SharedRingBuffer

/-- What `create` makes where the kernel grants what can be granted: `ftruncate` takes the size as
an `i64`, and nothing of size zero is mapped. Of the data area there is what is mapped, which is less
than the capacity where the sum has wrapped. -/
def create (page : PageSize) (capacity : Nat) : Option SharedRingBuffer :=
  let mmapSize := mmapSizeFor page capacity
  if mmapSize = 0 ∨ 2 ^ 63 ≤ mmapSize then none
  else
    some
      { magic := shmMagic
        capacity := capacity
        sequence := 0
        writePos := 0
        totalWritten := 0
        data := List.replicate (min capacity (mmapSize - headerSize)) 0 }

/-- `copy_nonoverlapping` into the data area. -/
def copyIn (r : SharedRingBuffer) (i : Nat) (block : List UInt8) : SharedRingBuffer :=
  { r with data := overwrite r.data i block }

def seqBeginWrite (r : SharedRingBuffer) : SharedRingBuffer :=
  { r with sequence := wrapAdd r.sequence 1 }

def seqEndWrite (r : SharedRingBuffer) : SharedRingBuffer :=
  { r with sequence := wrapAdd r.sequence 1 }

def storeWritePos (r : SharedRingBuffer) (v : Nat) : SharedRingBuffer :=
  { r with writePos := v }

def storeTotalWritten (r : SharedRingBuffer) (v : Nat) : SharedRingBuffer :=
  { r with totalWritten := v }

/-- The data copies come first; only the two counter stores stand inside the lock. -/
def write (r : SharedRingBuffer) (data : List UInt8) : SharedRingBuffer :=
  if data.isEmpty then r
  else
    let len := data.length
    let writePos := r.writePos
    let totalWritten := r.totalWritten
    if r.capacity ≤ len then
      let start := len - r.capacity
      ((((r.copyIn 0 (data.drop start)).seqBeginWrite).storeWritePos 0).storeTotalWritten
        (wrapAdd totalWritten len)).seqEndWrite
    else
      let firstChunk := wrapSub r.capacity writePos
      let copied :=
        if len ≤ firstChunk then r.copyIn writePos data
        else (r.copyIn writePos (data.take firstChunk)).copyIn 0 (data.drop firstChunk)
      (((copied.seqBeginWrite).storeWritePos (wrapAdd writePos len % r.capacity)).storeTotalWritten
        (wrapAdd totalWritten len)).seqEndWrite

/-- `none`: the sequence is odd and nobody changes it, so the loop never ends. -/
def readSnapshot (r : SharedRingBuffer) : Option (Nat × Nat) :=
  if r.sequence % 2 ≠ 0 then none else some (r.writePos, r.totalWritten)

/-- `none`: `readSnapshot` does not return. -/
def dump (r : SharedRingBuffer) : Option (List UInt8) :=
  if r.magic ≠ shmMagic then some []
  else do
    let (writePos, totalWritten) ← r.readSnapshot
    if r.capacity ≤ writePos then return []
    let validLen := if r.capacity ≤ totalWritten then r.capacity else totalWritten
    if validLen = 0 then return []
    if r.capacity ≤ totalWritten then
      let tailLen := r.capacity - writePos
      return slice r.data writePos tailLen ++ slice r.data 0 writePos
    else
      return slice r.data 0 writePos

/-- `ESC [ ! p`, the soft terminal reset put before a replay. -/
def resetSequence : List UInt8 := [0x1b, 0x5b, 0x21, 0x70]

def dumpWithReset (r : SharedRingBuffer) : Option (List UInt8) := do
  let data ← r.dump
  if data.isEmpty then return data
  return resetSequence ++ data

def len (r : SharedRingBuffer) : Nat :=
  if r.capacity ≤ r.totalWritten then r.capacity else r.totalWritten

def isEmpty (r : SharedRingBuffer) : Bool := r.totalWritten == 0

def clear (r : SharedRingBuffer) : SharedRingBuffer :=
  (r.storeWritePos 0).storeTotalWritten 0

/-- The new bytes since `lastTotal`, and the total they lead up to. -/
def readSince (r : SharedRingBuffer) (lastTotal : Nat) : Option (List UInt8 × Nat) := do
  let (writePos, total) ← r.readSnapshot
  if total ≤ lastTotal then return ([], total)
  let newBytes := total - lastTotal
  if r.capacity ≤ newBytes then return (← r.dump, total)
  let start :=
    if newBytes ≤ writePos then writePos - newBytes
    else wrapSub r.capacity (newBytes - writePos)
  if wrapAdd start newBytes ≤ r.capacity then
    return (slice r.data start newBytes, total)
  else
    let first := wrapSub r.capacity start
    return (slice r.data start first ++ slice r.data 0 (newBytes - first), total)

/-- The chunks `write` copies, each with the index it goes to. -/
def writeChunks (capacity writePos : Nat) (data : List UInt8) : List (Nat × List UInt8) :=
  let len := data.length
  if capacity ≤ len then [(0, data.drop (len - capacity))]
  else
    let firstChunk := wrapSub capacity writePos
    if len ≤ firstChunk then [(writePos, data)]
    else [(writePos, data.take firstChunk), (0, data.drop firstChunk)]

/-- The chunk goes into the mapping. -/
def Mapped (r : SharedRingBuffer) (i : Nat) (block : List UInt8) : Prop :=
  i + block.length ≤ r.data.length

instance (r : SharedRingBuffer) (i : Nat) (block : List UInt8) : Decidable (r.Mapped i block) :=
  inferInstanceAs (Decidable (_ ≤ _))

/-- `write` as a whole. `none`: a chunk leaves the mapping, where no memory of the ring is. -/
def writeMapped (r : SharedRingBuffer) (data : List UInt8) : Option SharedRingBuffer :=
  if data = [] ∨ ∀ c ∈ writeChunks r.capacity r.writePos data, r.Mapped c.1 c.2 then
    some (r.write data)
  else none

/-- A call that changes the ring. -/
inductive Call
  | write (data : List UInt8)
  | clear

def Call.run (r : SharedRingBuffer) : Call → Option SharedRingBuffer
  | .write data => r.writeMapped data
  | .clear => some r.clear

end SharedRingBuffer

end PtyDaemon
