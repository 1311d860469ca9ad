import PtyDaemon.SharedRing.Contents

/-!
# The in-process ring buffer

`RingBuffer` is the buffer sessions had before their output moved to shared memory. A slice whose
range or length does not fit panics; `none` stands for that. The shared ring is the same machine:
its raw copies, its own bounds check in `dump` and its separate counters give the same results.
-/

namespace PtyDaemon

open Circular

structure RingBuffer where
  buf : List UInt8
  writePos : Nat
  totalWritten : Nat
  capacity : Nat
  deriving DecidableEq

namespace RingBuffer

/-- A vector of more than `isize::MAX` bytes panics. -/
def new (capacity : Nat) : Option RingBuffer :=
  if capacity < 2 ^ 63 then
    some
      { buf := List.replicate capacity 0
        writePos := 0
        totalWritten := 0
        capacity := capacity }
  else none

/-- `copy_from_slice` into the cells from `i` to `j`. -/
def copyFromSlice (rb : RingBuffer) (i j : Nat) (src : List UInt8) : Option RingBuffer :=
  if i ≤ j ∧ j ≤ rb.buf.length ∧ src.length = j - i then
    some { rb with buf := overwrite rb.buf i src }
  else none

/-- The cells from `i` to `j`. -/
def cells (rb : RingBuffer) (i j : Nat) : Option (List UInt8) :=
  if i ≤ j ∧ j ≤ rb.buf.length then some (slice rb.buf i (j - i)) else none

def write (rb : RingBuffer) (data : List UInt8) : Option RingBuffer :=
  if data.isEmpty then some rb
  else do
    let len := data.length
    if rb.capacity ≤ len then
      -- only the end of the block is kept
      let rb ← rb.copyFromSlice 0 rb.buf.length (data.drop (len - rb.capacity))
      return { rb with writePos := 0, totalWritten := wrapAdd rb.totalWritten len }
    else
      let firstChunk := wrapSub rb.capacity rb.writePos
      let rb ←
        if len ≤ firstChunk then rb.copyFromSlice rb.writePos (wrapAdd rb.writePos len) data
        else do
          let rb ← rb.copyFromSlice rb.writePos (wrapAdd rb.writePos firstChunk)
            (data.take firstChunk)
          rb.copyFromSlice 0 (len - firstChunk) (data.drop firstChunk)
      return { rb with
        writePos := wrapAdd rb.writePos len % rb.capacity
        totalWritten := wrapAdd rb.totalWritten len }

def len (rb : RingBuffer) : Nat :=
  if rb.capacity ≤ rb.totalWritten then rb.capacity else rb.totalWritten

def isEmpty (rb : RingBuffer) : Bool := rb.totalWritten == 0

def dump (rb : RingBuffer) : Option (List UInt8) :=
  if rb.len = 0 then some []
  else if rb.capacity ≤ rb.totalWritten then do
    let tail ← rb.cells rb.writePos rb.buf.length
    let head ← rb.cells 0 rb.writePos
    return tail ++ head
  else rb.cells 0 rb.writePos

def dumpWithReset (rb : RingBuffer) : Option (List UInt8) := do
  let data ← rb.dump
  if data.isEmpty then return data
  return SharedRingBuffer.resetSequence ++ data

def clear (rb : RingBuffer) : RingBuffer := { rb with writePos := 0, totalWritten := 0 }

/-- A call that changes the buffer. -/
def call (rb : RingBuffer) : SharedRingBuffer.Call → Option RingBuffer
  | .write data => rb.write data
  | .clear => some rb.clear

/-- A shared ring without its header and its sequence. -/
def ofShared (r : SharedRingBuffer) : RingBuffer where
  buf := r.data
  writePos := r.writePos
  totalWritten := r.totalWritten
  capacity := r.capacity

variable {rb : RingBuffer} {r : SharedRingBuffer} {S : List UInt8}

private theorem new_eq_ofShared {page : PageSize} {capacity : Nat}
    (hr : SharedRingBuffer.create page capacity = some r) (hrb : new capacity = some rb) :
    rb = ofShared r ∧ r.Holds [] := by
  unfold new at hrb
  split at hrb
  · rename_i hsmall
    have hfits : headerSize + capacity < 2 ^ 64 := by
      simp only [headerSize]
      omega
    obtain ⟨hne, _, hring⟩ := SharedRingBuffer.create_eq_some hr
    have hge := SharedRingBuffer.mmapSizeFor_ge hne hfits
    rw [Nat.min_eq_left (by omega)] at hring
    cases hrb
    exact ⟨by rw [hring]; rfl, SharedRingBuffer.create_holds hr hfits⟩
  · cases hrb

private theorem copyFromSlice_eq {i j : Nat} {src : List UInt8} (hij : i + src.length = j)
    (hj : j ≤ rb.buf.length) :
    rb.copyFromSlice i j src = some { rb with buf := overwrite rb.buf i src } :=
  if_pos ⟨by omega, hj, by omega⟩

private theorem cells_eq {i j : Nat} (hij : i ≤ j) (hj : j ≤ rb.buf.length) :
    rb.cells i j = some (slice rb.buf i (j - i)) := if_pos ⟨hij, hj⟩

/-- All three ways of writing do the same to both buffers, and none of the slices panics. -/
theorem write_ofShared (h : r.Holds S) (data : List UInt8) :
    (ofShared r).write data = some (ofShared (r.write data)) := by
  have hpos := h.writePos_le
  have hsmall := h.small
  have hsize : (ofShared r).buf.length = r.capacity := h.layout.size
  have hcapacity : (ofShared r).capacity = r.capacity := rfl
  have hposition : (ofShared r).writePos = r.writePos := rfl
  unfold RingBuffer.write
  by_cases hempty : data = []
  · rw [hempty, SharedRingBuffer.write_nil]
    rfl
  · rw [if_neg (by simpa using hempty), hcapacity]
    dsimp only
    rcases Nat.lt_or_ge data.length r.capacity with hlt | hge
    · rw [if_neg (by omega), hposition, SharedRingBuffer.wrapSub_of_le hpos]
      rcases Nat.lt_or_ge (r.capacity - r.writePos) data.length with hwrap | hfit
      · have htake : (data.take (r.capacity - r.writePos)).length = r.capacity - r.writePos := by
          rw [List.length_take]
          omega
        have hmid : wrapAdd r.writePos (r.capacity - r.writePos) = r.capacity := by
          rw [SharedRingBuffer.wrapAdd_of_lt (by omega)]
          omega
        have hfirst : (overwrite (ofShared r).buf r.writePos
            (data.take (r.capacity - r.writePos))).length = r.capacity := by
          rw [overwrite_length (by omega), hsize]
        rw [if_neg (by omega), hmid, copyFromSlice_eq (by omega) (by omega)]
        simp only [Option.bind_eq_bind, Option.bind_some]
        rw [copyFromSlice_eq (by rw [List.length_drop]; omega) (by rw [hfirst]; omega),
          SharedRingBuffer.write_wrap hlt hpos hwrap]
        rfl
      · have hend : wrapAdd r.writePos data.length = r.writePos + data.length :=
          SharedRingBuffer.wrapAdd_of_lt (by omega)
        rw [if_pos hfit, copyFromSlice_eq hend.symm (by omega),
          SharedRingBuffer.write_within hempty hlt hpos hfit]
        rfl
    · rw [if_pos hge, copyFromSlice_eq (by rw [List.length_drop]; omega) (le_refl _),
        SharedRingBuffer.write_over hempty hge]
      rfl

/-- The bounds check in the shared `dump` only fires on a ring of capacity zero. -/
theorem dump_ofShared (h : r.Holds S) : (ofShared r).dump = r.dump := by
  have hpos := h.writePos_le
  have hsize : (ofShared r).buf.length = r.capacity := h.layout.size
  have hcapacity : (ofShared r).capacity = r.capacity := rfl
  have hposition : (ofShared r).writePos = r.writePos := rfl
  have htotal : (ofShared r).totalWritten = r.totalWritten := rfl
  rw [SharedRingBuffer.dump, if_neg (by simp [h.magic]), h.readSnapshot, RingBuffer.dump,
    RingBuffer.len, hcapacity, hposition, htotal]
  simp only [Option.bind_eq_bind, Option.bind_some]
  by_cases hover : r.capacity ≤ r.writePos
  · have hzero : r.capacity = 0 := by rcases h.layout.bound with hb | hb <;> omega
    rw [if_pos hover, hzero, if_pos (Nat.zero_le _), if_pos rfl]
    rfl
  · rw [if_neg hover, cells_eq (by omega) (le_refl _), cells_eq (Nat.zero_le _) (by omega), hsize]
    split
    · rfl
    · split <;> rfl

private theorem dumpWithReset_ofShared (h : r.Holds S) :
    (ofShared r).dumpWithReset = r.dumpWithReset := by
  rw [SharedRingBuffer.dumpWithReset, RingBuffer.dumpWithReset, dump_ofShared h]

/-- The two buffers stay in step through any sequence of calls. -/
theorem calls_ofShared (h : r.Holds S) (cs : List SharedRingBuffer.Call) :
    ∃ ring, cs.foldlM SharedRingBuffer.Call.run r = some ring ∧
      ring.Holds (cs.foldl SharedRingBuffer.Call.stream S) ∧
      cs.foldlM call (ofShared r) = some (ofShared ring) := by
  induction cs generalizing r S with
  | nil => exact ⟨r, rfl, h, rfl⟩
  | cons c cs ih =>
    cases c with
    | write data =>
      obtain ⟨ring, hring, hholds, hcalls⟩ := ih (h.write data)
      refine ⟨ring, ?_, hholds, ?_⟩
      · rw [List.foldlM_cons, SharedRingBuffer.Call.run, h.writeMapped]
        exact hring
      · rw [List.foldlM_cons, call, write_ofShared h]
        exact hcalls
    | clear => exact ih h.clear

/-- Driven by the same calls, both buffers answer alike after every one of them. -/
theorem calls_agree {page : PageSize} {capacity : Nat}
    (hr : SharedRingBuffer.create page capacity = some r) (hrb : new capacity = some rb)
    (cs : List SharedRingBuffer.Call) (n : Nat) :
    ∃ rb' ring, (cs.take n).foldlM call rb = some rb' ∧
      (cs.take n).foldlM SharedRingBuffer.Call.run r = some ring ∧
      rb'.dump = ring.dump ∧ rb'.dump.isSome ∧ rb'.dumpWithReset = ring.dumpWithReset ∧
        rb'.len = ring.len ∧ rb'.isEmpty = ring.isEmpty ∧
        rb'.totalWritten = ring.totalWritten := by
  obtain ⟨rfl, hnew⟩ := new_eq_ofShared hr hrb
  obtain ⟨ring, hring, hholds, hcalls⟩ := calls_ofShared hnew (cs.take n)
  refine ⟨_, ring, hcalls, hring, dump_ofShared hholds, ?_, dumpWithReset_ofShared hholds, rfl, rfl,
    rfl⟩
  rw [dump_ofShared hholds]
  exact hholds.dump_isSome

/-- Four cells, a block that wraps, a clear and a block longer than the buffer. -/
theorem calls_agree_four :
    ∃ rb, [SharedRingBuffer.Call.write [1, 2, 3], .write [4, 5], .clear,
        .write [6, 7, 8, 9, 10]].foldlM call ⟨[0, 0, 0, 0], 0, 0, 4⟩ = some rb ∧
      rb.dump = some [7, 8, 9, 10] ∧ rb.totalWritten = 5 := by
  have hr : SharedRingBuffer.create page4096 4 =
      some ⟨shmMagic, 4, 0, 0, 0, [0, 0, 0, 0]⟩ := by decide
  obtain ⟨rb, ring, hcalls, hring, hdump, _, _, _, _, htotal⟩ := calls_agree hr
    (show new 4 = some ⟨[0, 0, 0, 0], 0, 0, 4⟩ from rfl)
    [.write [1, 2, 3], .write [4, 5], .clear, .write [6, 7, 8, 9, 10]] 4
  refine ⟨rb, hcalls, hdump.trans ?_, htotal.trans ?_⟩
  all_goals
    cases hring
    decide

end RingBuffer

end PtyDaemon
