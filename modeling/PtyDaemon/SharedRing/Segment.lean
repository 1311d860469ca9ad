import PtyDaemon.Framework.Words
import PtyDaemon.Protocol
import PtyDaemon.SharedRing.Bounds
import PtyDaemon.SharedRing.ReadSince

/-!
# The bytes of a shared object

The object as the kernel keeps it is an array of bytes: four cache lines of 128 bytes for the header
and the three counters, then the data area, then the rest of the last page. Every process computes
with its own mapping of these bytes. Here are the accessors on the bytes, and their agreement with
the accessors of `SharedRing/Basic` on the ring that the bytes stand for.
-/

namespace PtyDaemon

open Circular Words

/-- What one process keeps of a ring beside the mapped bytes. -/
structure Mapping where
  shmName : String
  shmFd : RawFd
  mmapPtr : Nat
  mmapSize : Nat
  capacity : Nat
  isOwner : Bool
  deriving DecidableEq

/-- The ring a mapping with this capacity sees in the bytes. -/
def ringIn (m : List UInt8) (capacity : Nat) : SharedRingBuffer where
  magic := load m 0 4
  capacity := capacity
  sequence := load m 128 8
  writePos := load m 256 8
  totalWritten := load m 384 8
  data := slice m headerSize capacity

@[simp] theorem ringIn_capacity_eq (m : List UInt8) (capacity : Nat) :
    (ringIn m capacity).capacity = capacity := rfl

@[simp] theorem ringIn_writePos_eq (m : List UInt8) (capacity : Nat) :
    (ringIn m capacity).writePos = load m 256 8 := rfl

@[simp] theorem ringIn_totalWritten_eq (m : List UInt8) (capacity : Nat) :
    (ringIn m capacity).totalWritten = load m 384 8 := rfl

/-- The stores with which `create` fills in the header and the counters, in their order. -/
def headerStores (capacity : Nat) : List (List UInt8 → List UInt8) :=
  [fun m => store m 0 4 shmMagic, fun m => store m 4 4 shmVersion, fun m => store m 8 8 capacity,
    fun m => overwrite m 16 (List.replicate (128 - 16) 0), fun m => store m 128 8 0,
    fun m => store m 256 8 0, fun m => store m 384 8 0]

/-- The header as far as the first stores go. -/
def partHeader (stores : Nat) (m : List UInt8) (capacity : Nat) : List UInt8 :=
  ((headerStores capacity).take stores).foldl (fun m put => put m) m

/-- The header and the counters `create` puts into a mapping. -/
def initHeader (m : List UInt8) (capacity : Nat) : List UInt8 :=
  (headerStores capacity).foldl (fun m put => put m) m

/-- What `open` finds wrong with the bytes it has mapped; the sum wraps. -/
def headerError (m : List UInt8) : Option String :=
  if load m 0 4 ≠ shmMagic then some "Invalid magic number"
  else if load m 4 4 ≠ shmVersion then some "Unsupported version"
  else if m.length < wrapAdd headerSize (load m 8 8) then some "Capacity mismatch"
  else none

namespace Mapping

def copyIn (m : List UInt8) (i : Nat) (block : List UInt8) : List UInt8 :=
  overwrite m (headerSize + i) block

def seqBeginWrite (m : List UInt8) : List UInt8 := store m 128 8 (wrapAdd (load m 128 8) 1)

def seqEndWrite (m : List UInt8) : List UInt8 := store m 128 8 (wrapAdd (load m 128 8) 1)

def storeWritePos (m : List UInt8) (v : Nat) : List UInt8 := store m 256 8 v

def storeTotalWritten (m : List UInt8) (v : Nat) : List UInt8 := store m 384 8 v

/-- `write` on the mapped bytes. -/
def write (h : Mapping) (m data : List UInt8) : List UInt8 :=
  if data.isEmpty then m
  else
    let len := data.length
    let writePos := load m 256 8
    let totalWritten := load m 384 8
    if h.capacity ≤ len then
      let start := len - h.capacity
      seqEndWrite (storeTotalWritten (storeWritePos (seqBeginWrite
        (copyIn m 0 (data.drop start))) 0) (wrapAdd totalWritten len))
    else
      let firstChunk := wrapSub h.capacity writePos
      let copied :=
        if len ≤ firstChunk then copyIn m writePos data
        else copyIn (copyIn m writePos (data.take firstChunk)) 0 (data.drop firstChunk)
      seqEndWrite (storeTotalWritten (storeWritePos (seqBeginWrite copied)
        (wrapAdd writePos len % h.capacity)) (wrapAdd totalWritten len))

def clear (m : List UInt8) : List UInt8 := storeTotalWritten (storeWritePos m 0) 0

/-- `none`: the sequence is odd and nobody changes it, so the loop never ends. -/
def readSnapshot (m : List UInt8) : Option (Nat × Nat) :=
  if load m 128 8 % 2 ≠ 0 then none else some (load m 256 8, load m 384 8)

def dump (h : Mapping) (m : List UInt8) : Option (List UInt8) :=
  if load m 0 4 ≠ shmMagic then some []
  else do
    let (writePos, totalWritten) ← readSnapshot m
    if h.capacity ≤ writePos then return []
    let validLen := if h.capacity ≤ totalWritten then h.capacity else totalWritten
    if validLen = 0 then return []
    if h.capacity ≤ totalWritten then
      let tailLen := h.capacity - writePos
      return slice m (headerSize + writePos) tailLen ++ slice m headerSize writePos
    else
      return slice m headerSize writePos

def len (h : Mapping) (m : List UInt8) : Nat :=
  if h.capacity ≤ load m 384 8 then h.capacity else load m 384 8

def readSince (h : Mapping) (m : List UInt8) (lastTotal : Nat) : Option (List UInt8 × Nat) := do
  let (writePos, total) ← readSnapshot m
  if total ≤ lastTotal then return ([], total)
  let newBytes := total - lastTotal
  if h.capacity ≤ newBytes then return (← h.dump m, total)
  let start :=
    if newBytes ≤ writePos then writePos - newBytes
    else wrapSub h.capacity (newBytes - writePos)
  if wrapAdd start newBytes ≤ h.capacity then
    return (slice m (headerSize + start) newBytes, total)
  else
    let first := wrapSub h.capacity start
    return (slice m (headerSize + start) first ++ slice m headerSize (newBytes - first), total)

end Mapping

variable {m : List UInt8} {capacity : Nat} {S data : List UInt8} {h : Mapping}

/-! ## Where the words are -/

section Words

private theorem ringIn_overwrite {i : Nat} {block : List UInt8}
    (hfits : headerSize + capacity ≤ m.length)
    (hblock : i + block.length ≤ capacity) :
    ringIn (Mapping.copyIn m i block) capacity = (ringIn m capacity).copyIn i block := by
  have hroom : headerSize + i + block.length ≤ m.length := by omega
  simp only [ringIn, Mapping.copyIn, SharedRingBuffer.copyIn]
  rw [load_overwrite_apart hroom (.inl (by simp only [headerSize]; omega)),
    load_overwrite_apart hroom (.inl (by simp only [headerSize]; omega)),
    load_overwrite_apart hroom (.inl (by simp only [headerSize]; omega)),
    load_overwrite_apart hroom (.inl (by simp only [headerSize]; omega)),
    slice_overwrite_within hfits hblock]

private theorem load_store64 {i v : Nat} (hi : i + 8 ≤ m.length) (hv : v < 2 ^ 64) :
    load (store m i 8 v) i 8 = v := by
  rw [load_store hi]
  exact Nat.mod_eq_of_lt hv

/-- The data area lies behind every word. -/
theorem slice_store_word {i width : Nat} (hfits : headerSize + capacity ≤ m.length)
    (hi : i + width ≤ headerSize) (v : Nat) :
    slice (store m i width v) headerSize capacity = slice m headerSize capacity :=
  slice_store_apart (by omega) (.inr hi) v

private theorem ringIn_sequence {v : Nat} (hfits : headerSize + capacity ≤ m.length)
    (hv : v < 2 ^ 64) :
    ringIn (store m 128 8 v) capacity = { ringIn m capacity with sequence := v } := by
  have hlen : 512 + capacity ≤ m.length := hfits
  simp only [ringIn]
  rw [slice_store_word hfits (by decide), load_store64 (by omega) hv,
    load_store_apart (by omega) (.inl (by omega)), load_store_apart (by omega) (.inr (by omega)),
    load_store_apart (by omega) (.inr (by omega))]

private theorem ringIn_writePos {v : Nat} (hfits : headerSize + capacity ≤ m.length)
    (hv : v < 2 ^ 64) :
    ringIn (Mapping.storeWritePos m v) capacity = (ringIn m capacity).storeWritePos v := by
  have hlen : 512 + capacity ≤ m.length := hfits
  simp only [ringIn, Mapping.storeWritePos, SharedRingBuffer.storeWritePos]
  rw [slice_store_word hfits (by decide), load_store64 (by omega) hv,
    load_store_apart (by omega) (.inl (by omega)), load_store_apart (by omega) (.inl (by omega)),
    load_store_apart (by omega) (.inr (by omega))]

private theorem ringIn_totalWritten {v : Nat} (hfits : headerSize + capacity ≤ m.length)
    (hv : v < 2 ^ 64) :
    ringIn (Mapping.storeTotalWritten m v) capacity =
      (ringIn m capacity).storeTotalWritten v := by
  have hlen : 512 + capacity ≤ m.length := hfits
  simp only [ringIn, Mapping.storeTotalWritten, SharedRingBuffer.storeTotalWritten]
  rw [slice_store_word hfits (by decide), load_store64 (by omega) hv,
    load_store_apart (by omega) (.inl (by omega)), load_store_apart (by omega) (.inl (by omega)),
    load_store_apart (by omega) (.inl (by omega))]

private theorem wrapAdd_lt (a b : Nat) : wrapAdd a b < 2 ^ 64 := Nat.mod_lt _ (by decide)

private theorem ringIn_seqBeginWrite (hfits : headerSize + capacity ≤ m.length) :
    ringIn (Mapping.seqBeginWrite m) capacity = (ringIn m capacity).seqBeginWrite :=
  ringIn_sequence hfits (wrapAdd_lt _ _)

private theorem ringIn_seqEndWrite (hfits : headerSize + capacity ≤ m.length) :
    ringIn (Mapping.seqEndWrite m) capacity = (ringIn m capacity).seqEndWrite :=
  ringIn_sequence hfits (wrapAdd_lt _ _)

end Words

/-! ## The accessors agree -/

section Accessors

private theorem ringIn_locked {copied : List UInt8} {w t : Nat}
    (hfits : headerSize + capacity ≤ copied.length) (hw : w < 2 ^ 64) (ht : t < 2 ^ 64) :
    ringIn (Mapping.seqEndWrite (Mapping.storeTotalWritten (Mapping.storeWritePos
        (Mapping.seqBeginWrite copied) w) t)) capacity =
      ((((ringIn copied capacity).seqBeginWrite).storeWritePos w).storeTotalWritten
        t).seqEndWrite := by
  have h₁ : headerSize + capacity ≤ (Mapping.seqBeginWrite copied).length := by
    rw [Mapping.seqBeginWrite, store_length (by simp only [headerSize] at hfits; omega)]
    exact hfits
  have h₂ : headerSize + capacity ≤
      (Mapping.storeWritePos (Mapping.seqBeginWrite copied) w).length := by
    rw [Mapping.storeWritePos, store_length (by simp only [headerSize] at h₁; omega)]
    exact h₁
  have h₃ : headerSize + capacity ≤ (Mapping.storeTotalWritten
      (Mapping.storeWritePos (Mapping.seqBeginWrite copied) w) t).length := by
    rw [Mapping.storeTotalWritten, store_length (by simp only [headerSize] at h₂; omega)]
    exact h₂
  rw [ringIn_seqEndWrite h₃, ringIn_totalWritten h₂ ht, ringIn_writePos h₁ hw,
    ringIn_seqBeginWrite hfits]

private theorem copyIn_length {i : Nat} {block : List UInt8}
    (h : headerSize + i + block.length ≤ m.length) :
    (Mapping.copyIn m i block).length = m.length := overwrite_length h

/-- `write` on the bytes is `write` on the ring they stand for. -/
theorem ringIn_write (hfits : headerSize + h.capacity ≤ m.length) (hsmall : h.capacity < 2 ^ 63)
    (hpos : load m 256 8 ≤ h.capacity) (data : List UInt8) :
    ringIn (h.write m data) h.capacity = (ringIn m h.capacity).write data := by
  simp only [Mapping.write, SharedRingBuffer.write]
  split
  · rfl
  · split
    · rename_i hover
      have hover' : h.capacity ≤ data.length := hover
      have hroom : 0 + (data.drop (data.length - h.capacity)).length ≤ h.capacity := by
        rw [List.length_drop]
        omega
      rw [ringIn_locked (by rw [copyIn_length (by omega)]; exact hfits) (by decide)
        (wrapAdd_lt _ _), ringIn_overwrite hfits hroom]
      exact (if_pos hover').symm
    · rename_i hunder
      have hunder' : data.length < h.capacity := Nat.lt_of_not_le hunder
      have hsub : wrapSub h.capacity (load m 256 8) = h.capacity - load m 256 8 := if_pos hpos
      have hmod : wrapAdd (load m 256 8) data.length % h.capacity < 2 ^ 64 :=
        (Nat.mod_lt _ (by omega)).trans (by omega)
      by_cases hfit : data.length ≤ wrapSub h.capacity (load m 256 8)
      · have hroom : load m 256 8 + data.length ≤ h.capacity := by omega
        rw [if_pos hfit, ringIn_locked (by rw [copyIn_length (by omega)]; exact hfits) hmod
          (wrapAdd_lt _ _), ringIn_overwrite hfits hroom]
        simp only [ringIn_capacity_eq, ringIn_writePos_eq, ringIn_totalWritten_eq, hunder, hfit,
          if_true, if_false]
      · have hfirst : load m 256 8 +
            (data.take (wrapSub h.capacity (load m 256 8))).length ≤ h.capacity := by
          rw [List.length_take]
          omega
        have hrest : 0 + (data.drop (wrapSub h.capacity (load m 256 8))).length ≤ h.capacity := by
          rw [List.length_drop]
          omega
        have hlen : headerSize + h.capacity ≤ (Mapping.copyIn m (load m 256 8)
            (data.take (wrapSub h.capacity (load m 256 8)))).length := by
          rw [copyIn_length (by omega)]
          exact hfits
        rw [if_neg hfit, ringIn_locked (by rw [copyIn_length (by omega)]; exact hlen) hmod
          (wrapAdd_lt _ _), ringIn_overwrite hlen hrest, ringIn_overwrite hfits hfirst]
        simp only [ringIn_capacity_eq, ringIn_writePos_eq, ringIn_totalWritten_eq, hunder, hfit,
          if_false]

private theorem ringIn_clear (hfits : headerSize + capacity ≤ m.length) :
    ringIn (Mapping.clear m) capacity = (ringIn m capacity).clear := by
  have hlen : headerSize + capacity ≤ (Mapping.storeWritePos m 0).length := by
    rw [Mapping.storeWritePos, store_length (by simp only [headerSize] at hfits; omega)]
    exact hfits
  rw [Mapping.clear, ringIn_totalWritten hlen (by decide), ringIn_writePos hfits (by decide)]
  rfl

private theorem readSnapshot_ringIn (m : List UInt8) (capacity : Nat) :
    Mapping.readSnapshot m = (ringIn m capacity).readSnapshot := rfl

private theorem slice_ringIn {j k : Nat} (hjk : j + k ≤ capacity) :
    slice (ringIn m capacity).data j k = slice m (headerSize + j) k := slice_slice hjk

theorem dump_ringIn (h : Mapping) (m : List UInt8) :
    h.dump m = (ringIn m h.capacity).dump := by
  simp only [Mapping.dump, SharedRingBuffer.dump, ← readSnapshot_ringIn m h.capacity]
  by_cases hmagic : load m 0 4 ≠ shmMagic
  · rw [if_pos hmagic]
    exact (if_pos hmagic).symm
  · rw [if_neg hmagic]
    refine Eq.trans ?_ (if_neg hmagic).symm
    unfold Mapping.readSnapshot
    split
    · rfl
    · simp only [Option.bind_eq_bind, Option.bind_some]
      by_cases hpos : h.capacity ≤ load m 256 8
      · rw [if_pos hpos]
        exact (if_pos hpos).symm
      · have hhead : slice (ringIn m h.capacity).data 0 (load m 256 8) =
            slice m headerSize (load m 256 8) := slice_ringIn (by omega)
        have htail : slice (ringIn m h.capacity).data (load m 256 8)
            (h.capacity - load m 256 8) =
              slice m (headerSize + load m 256 8) (h.capacity - load m 256 8) :=
          slice_ringIn (by omega)
        rw [← hhead, ← htail]
        rfl

theorem readSince_ringIn (hsmall : h.capacity < 2 ^ 63) (hpos : load m 256 8 ≤ h.capacity)
    (lastTotal : Nat) : h.readSince m lastTotal = (ringIn m h.capacity).readSince lastTotal := by
  simp only [Mapping.readSince, SharedRingBuffer.readSince, ← readSnapshot_ringIn m h.capacity,
    ← dump_ringIn, ringIn_capacity_eq]
  unfold Mapping.readSnapshot
  split
  · rfl
  · simp only [Option.bind_eq_bind, Option.bind_some]
    split
    · rfl
    · split
      · rfl
      · rename_i hnew
        have hstart : (if load m 384 8 - lastTotal ≤ load m 256 8 then
            load m 256 8 - (load m 384 8 - lastTotal)
            else wrapSub h.capacity (load m 384 8 - lastTotal - load m 256 8)) ≤ h.capacity := by
          split
          · omega
          · rw [wrapSub, if_pos (by omega)]
            omega
        generalize (if load m 384 8 - lastTotal ≤ load m 256 8 then
            load m 256 8 - (load m 384 8 - lastTotal)
            else wrapSub h.capacity (load m 384 8 - lastTotal - load m 256 8)) = start at hstart ⊢
        have hsum : wrapAdd start (load m 384 8 - lastTotal) =
            start + (load m 384 8 - lastTotal) := Nat.mod_eq_of_lt (by omega)
        have hsub : wrapSub h.capacity start = h.capacity - start := if_pos hstart
        rw [hsum, hsub]
        split
        · rename_i hfit
          rw [slice_ringIn hfit]
        · rename_i hwrap
          have hhead : slice (ringIn m h.capacity).data 0
              (load m 384 8 - lastTotal - (h.capacity - start)) =
                slice m headerSize (load m 384 8 - lastTotal - (h.capacity - start)) :=
            slice_ringIn (by omega)
          rw [slice_ringIn (by omega), hhead]

theorem len_ringIn (h : Mapping) (m : List UInt8) : h.len m = (ringIn m h.capacity).len := rfl

end Accessors

/-! ## What the accessors leave alone -/

/-- The bytes that a mapping of this capacity writes to. -/
def Touched (capacity j : Nat) : Prop :=
  (128 ≤ j ∧ j < 136) ∨ (256 ≤ j ∧ j < 264) ∨ (384 ≤ j ∧ j < 392) ∨
    (headerSize ≤ j ∧ j < headerSize + capacity)

/-- The bytes that are touched may change, the others and their number do not. -/
structure SameOutside (capacity : Nat) (m m' : List UInt8) : Prop where
  length : m'.length = m.length
  get : ∀ j, ¬ Touched capacity j → m'[j]? = m[j]?

namespace SameOutside

variable {m' m'' : List UInt8}

private theorem refl (capacity : Nat) (m : List UInt8) :
    SameOutside capacity m m := ⟨rfl, fun _ _ => rfl⟩

private theorem trans (h : SameOutside capacity m m') (h' : SameOutside capacity m' m'') :
    SameOutside capacity m m'' :=
  ⟨h'.length.trans h.length, fun j hj => (h'.get j hj).trans (h.get j hj)⟩

private theorem overwrite {i : Nat} {block : List UInt8} (hroom : i + block.length ≤ m.length)
    (htouched : ∀ j, i ≤ j → j < i + block.length → Touched capacity j) :
    SameOutside capacity m (Circular.overwrite m i block) where
  length := overwrite_length hroom
  get j hj := by
    apply getElem?_overwrite hroom
    by_contra hin
    exact hj (htouched j (by omega) (by omega))

private theorem store {i width v : Nat} (hroom : i + width ≤ m.length)
    (htouched : ∀ j, i ≤ j → j < i + width → Touched capacity j) :
    SameOutside capacity m (Words.store m i width v) :=
  overwrite (by rwa [encode_length]) (by rwa [encode_length])

/-- A word outside what is touched. -/
theorem load (h : SameOutside capacity m m') {i width : Nat}
    (hout : ∀ j, i ≤ j → j < i + width → ¬ Touched capacity j) :
    Words.load m' i width = Words.load m i width := by
  rw [Words.load, slice_congr fun j hj hlt => h.get j (hout j hj hlt), Words.load]

end SameOutside

private theorem copyIn_outside {i : Nat} {block : List UInt8}
    (hfits : headerSize + capacity ≤ m.length)
    (hblock : i + block.length ≤ capacity) :
    SameOutside capacity m (Mapping.copyIn m i block) := by
  apply SameOutside.overwrite (by omega)
  intro j hj hlt
  exact .inr (.inr (.inr ⟨by omega, by omega⟩))

private theorem locked_outside {copied : List UInt8} (hfits : headerSize + capacity ≤ copied.length)
    (w t : Nat) : SameOutside capacity copied
      (Mapping.seqEndWrite (Mapping.storeTotalWritten (Mapping.storeWritePos
        (Mapping.seqBeginWrite copied) w) t)) := by
  simp only [headerSize] at hfits
  have h₁ : SameOutside capacity copied (Mapping.seqBeginWrite copied) :=
    .store (by omega) fun j hj hlt => .inl ⟨hj, hlt⟩
  have h₂ : SameOutside capacity (Mapping.seqBeginWrite copied)
      (Mapping.storeWritePos (Mapping.seqBeginWrite copied) w) :=
    .store (by rw [h₁.length]; omega) fun j hj hlt => .inr (.inl ⟨hj, hlt⟩)
  have h₁₂ := h₁.trans h₂
  have h₃ : SameOutside capacity (Mapping.storeWritePos (Mapping.seqBeginWrite copied) w)
      (Mapping.storeTotalWritten (Mapping.storeWritePos (Mapping.seqBeginWrite copied) w) t) :=
    .store (by rw [h₁₂.length]; omega) fun j hj hlt => .inr (.inr (.inl ⟨hj, hlt⟩))
  have h₁₃ := h₁₂.trans h₃
  exact h₁₃.trans (.store (by rw [h₁₃.length]; omega) fun j hj hlt => .inl ⟨hj, hlt⟩)

/-- `write` touches the counters and the data area only. -/
theorem write_outside (hfits : headerSize + h.capacity ≤ m.length)
    (hpos : load m 256 8 ≤ h.capacity) (data : List UInt8) :
    SameOutside h.capacity m (h.write m data) := by
  simp only [Mapping.write]
  split
  · exact .refl _ m
  · split
    · rename_i hover
      have hcopy : SameOutside h.capacity m
          (Mapping.copyIn m 0 (data.drop (data.length - h.capacity))) :=
        copyIn_outside hfits (by rw [List.length_drop]; omega)
      exact hcopy.trans (locked_outside (by rw [hcopy.length]; exact hfits) _ _)
    · rename_i hunder
      have hsub : wrapSub h.capacity (load m 256 8) = h.capacity - load m 256 8 := if_pos hpos
      split
      · have hcopy : SameOutside h.capacity m (Mapping.copyIn m (load m 256 8) data) :=
          copyIn_outside hfits (by omega)
        exact hcopy.trans (locked_outside (by rw [hcopy.length]; exact hfits) _ _)
      · have hfirst : SameOutside h.capacity m (Mapping.copyIn m (load m 256 8)
            (data.take (wrapSub h.capacity (load m 256 8)))) :=
          copyIn_outside hfits (by rw [List.length_take]; omega)
        have hfits' : headerSize + h.capacity ≤ (Mapping.copyIn m (load m 256 8)
            (data.take (wrapSub h.capacity (load m 256 8)))).length := by
          rw [hfirst.length]
          exact hfits
        have hroom : 0 + (data.drop (wrapSub h.capacity (load m 256 8))).length ≤ h.capacity := by
          rw [List.length_drop]
          omega
        have hboth := hfirst.trans (copyIn_outside hfits' hroom)
        exact hboth.trans (locked_outside (by rw [hboth.length]; exact hfits) _ _)

theorem clear_outside (hfits : headerSize + capacity ≤ m.length) :
    SameOutside capacity m (Mapping.clear m) := by
  simp only [headerSize] at hfits
  have h₁ : SameOutside capacity m (Mapping.storeWritePos m 0) :=
    .store (by omega) fun j hj hlt => .inr (.inl ⟨hj, hlt⟩)
  exact h₁.trans (.store (by rw [h₁.length]; omega) fun j hj hlt => .inr (.inr (.inl ⟨hj, hlt⟩)))

/-! ## An object that `create` has made -/

/-- The object has been made with this capacity and holds the end of the stream `S`. -/
structure Sound (capacity : Nat) (m S : List UInt8) : Prop where
  version : load m 4 4 = shmVersion
  stored : load m 8 8 = capacity
  fits : headerSize + capacity ≤ m.length
  size : m.length < 2 ^ 63
  holds : (ringIn m capacity).Holds S

namespace Sound

theorem small (hs : Sound capacity m S) : capacity < 2 ^ 63 := by
  have hfits := hs.fits
  have hsize := hs.size
  omega

theorem writePos_le (hs : Sound capacity m S) : load m 256 8 ≤ capacity := hs.holds.writePos_le

private theorem magic (hs : Sound capacity m S) : load m 0 4 = shmMagic := hs.holds.magic

/-- The header passes the checks of `open`. -/
theorem headerError (hs : Sound capacity m S) : headerError m = none := by
  have hfits := hs.fits
  have hsize := hs.size
  have hsum : wrapAdd headerSize capacity = headerSize + capacity := Nat.mod_eq_of_lt (by omega)
  rw [PtyDaemon.headerError, if_neg (by simp [hs.magic]), if_neg (by simp [hs.version]),
    hs.stored, hsum, if_neg (by omega)]

private theorem outside {m' S' : List UInt8} (hs : Sound capacity m S)
    (hsame : SameOutside capacity m m')
    (hholds : (ringIn m' capacity).Holds S') : Sound capacity m' S' where
  version := by
    rw [hsame.load, hs.version]
    intro j _ hj
    simp only [Touched, headerSize]
    omega
  stored := by
    rw [hsame.load, hs.stored]
    intro j _ hj
    simp only [Touched, headerSize]
    omega
  fits := by
    rw [hsame.length]
    exact hs.fits
  size := by
    rw [hsame.length]
    exact hs.size
  holds := hholds

theorem write {S : List UInt8} (hs : Sound h.capacity m S) (data : List UInt8) :
    Sound h.capacity (h.write m data) (S ++ data) := by
  apply hs.outside (write_outside hs.fits hs.writePos_le data)
  rw [ringIn_write hs.fits hs.small hs.writePos_le]
  exact hs.holds.write data

theorem clear (hs : Sound capacity m S) : Sound capacity (Mapping.clear m) [] := by
  apply hs.outside (clear_outside hs.fits)
  rw [ringIn_clear hs.fits]
  exact hs.holds.clear

end Sound

/-! ## What `create` leaves -/

/-- Zeros with the magic number. -/
def marked (size : Nat) : List UInt8 := store (List.replicate size 0) 0 4 shmMagic

/-- Zeros with the three words of the header. -/
def headed (size capacity : Nat) : List UInt8 :=
  store (store (marked size) 4 4 shmVersion) 8 8 capacity

variable {size : Nat}

private theorem slice_replicate {i n : Nat} (h : i + n ≤ size) :
    slice (List.replicate size (0 : UInt8)) i n = List.replicate n 0 := by
  rw [slice, List.drop_replicate, List.take_replicate, Nat.min_eq_left (by omega)]

theorem marked_length (hsize : headerSize ≤ size) : (marked size).length = size := by
  simp only [headerSize] at hsize
  rw [marked, store_length (by rw [List.length_replicate]; omega), List.length_replicate]

theorem headed_length (hsize : headerSize ≤ size) (capacity : Nat) :
    (headed size capacity).length = size := by
  have hlength := marked_length hsize
  simp only [headerSize] at hsize
  have hversion : (store (marked size) 4 4 shmVersion).length = size :=
    (store_length (by omega)).trans hlength
  rw [headed, store_length (by omega), hversion]

/-- Behind the header all is zero. -/
theorem slice_headed (hsize : headerSize ≤ size) (capacity : Nat) {i n : Nat} (hi : 16 ≤ i)
    (hn : i + n ≤ size) : slice (headed size capacity) i n = List.replicate n 0 := by
  have hlength := marked_length hsize
  simp only [headerSize] at hsize
  have hzeros : (List.replicate size (0 : UInt8)).length = size := List.length_replicate
  have hversion : (store (marked size) 4 4 shmVersion).length = size :=
    (store_length (by omega)).trans hlength
  calc slice (headed size capacity) i n = slice (store (marked size) 4 4 shmVersion) i n :=
        slice_store_apart (by omega) (.inr (by omega)) capacity
    _ = slice (marked size) i n := slice_store_apart (by omega) (.inr (by omega)) shmVersion
    _ = slice (List.replicate size 0) i n :=
        slice_store_apart (by omega) (.inr (by omega)) shmMagic
    _ = List.replicate n 0 := slice_replicate hn

private theorem load_headed (hsize : headerSize ≤ size) (capacity : Nat) {i : Nat} (hi : 16 ≤ i)
    (hn : i + 8 ≤ size) : load (headed size capacity) i 8 = 0 := by
  rw [load, slice_headed hsize capacity hi hn, decode_replicate]

/-- The stores behind the header put zeros on zeros. -/
theorem headerStores_behind (hsize : headerSize ≤ size) (capacity : Nat) :
    ∀ put ∈ (headerStores capacity).drop 3, put (headed size capacity) = headed size capacity := by
  have hlength := headed_length hsize capacity
  have hzeros := fun i n hi hn => @slice_headed size hsize capacity i n hi hn
  simp only [headerSize] at hsize
  simp only [headerStores, List.drop_succ_cons, List.drop_zero, List.forall_mem_cons]
  refine ⟨?_, store_zero (by omega) (hzeros 128 8 (by decide) (by omega)),
    store_zero (by omega) (hzeros 256 8 (by decide) (by omega)),
    store_zero (by omega) (hzeros 384 8 (by decide) (by omega)), List.forall_mem_nil _⟩
  have hreserved := hzeros 16 (128 - 16) (by decide) (by omega)
  rw [← hreserved, overwrite_slice (by omega)]

private theorem foldl_fixed {α : Type} {a : α} {puts : List (α → α)} (h : ∀ put ∈ puts, put a = a) :
    puts.foldl (fun a put => put a) a = a := by
  induction puts with
  | nil => rfl
  | cons put puts ih =>
    rw [List.forall_mem_cons] at h
    rw [List.foldl_cons, h.1, ih h.2]

/-- With the third store the header stands. -/
theorem partHeader_headed (hsize : headerSize ≤ size) {stores : Nat} (h : 3 ≤ stores)
    (capacity : Nat) :
    partHeader stores (List.replicate size 0) capacity = headed size capacity := by
  obtain ⟨more, rfl⟩ := Nat.exists_eq_add_of_le h
  have hbehind : ∀ put ∈ ((headerStores capacity).drop 3).take more,
      put (headed size capacity) = headed size capacity := fun put hput =>
    headerStores_behind hsize capacity put (List.mem_of_mem_take hput)
  rw [partHeader, List.take_add, List.foldl_append]
  exact foldl_fixed hbehind

theorem three_le_headerStores (capacity : Nat) : 3 ≤ (headerStores capacity).length :=
  Nat.le_add_left 3 4

/-- Up to the version the header is that of a ring without a data area. -/
theorem partHeader_version (hsize : headerSize ≤ size) (capacity : Nat) :
    partHeader 2 (List.replicate size 0) capacity = headed size 0 := by
  have hlength := marked_length hsize
  simp only [headerSize] at hsize
  have hzeros : (List.replicate size (0 : UInt8)).length = size := List.length_replicate
  have hversion : (store (marked size) 4 4 shmVersion).length = size :=
    (store_length (by omega)).trans hlength
  have hcapacity : slice (store (marked size) 4 4 shmVersion) 8 8 = List.replicate 8 0 := by
    calc slice (store (marked size) 4 4 shmVersion) 8 8 = slice (marked size) 8 8 :=
          slice_store_apart (by omega) (.inr (by decide)) shmVersion
      _ = slice (List.replicate size 0) 8 8 :=
          slice_store_apart (by omega) (.inr (by decide)) shmMagic
      _ = List.replicate 8 0 := slice_replicate (by omega)
  exact (store_zero (by omega) hcapacity).symm

private theorem load_magic (hsize : headerSize ≤ size) : load (marked size) 0 4 = shmMagic := by
  simp only [headerSize] at hsize
  exact load_store (by rw [List.length_replicate]; omega)

/-- The magic number alone is of no version. -/
theorem headerError_marked (hsize : headerSize ≤ size) :
    headerError (marked size) = some "Unsupported version" := by
  have hmagic := load_magic hsize
  simp only [headerSize] at hsize
  have hversion : load (marked size) 4 4 = 0 := by
    rw [marked, load_store_apart (by rw [List.length_replicate]; omega) (.inr (by decide)), load,
      slice_replicate (by omega), decode_replicate]
  rw [headerError, hmagic, hversion, if_neg (by simp), if_pos (by decide)]

/-- Zeros have no magic number. -/
theorem headerError_replicate (size : Nat) :
    headerError (List.replicate size 0) = some "Invalid magic number" := by
  have hzero : load (List.replicate size 0) 0 4 = 0 := by
    simp only [load, slice, List.drop_replicate, List.take_replicate, decode_replicate]
  rw [headerError, hzero, if_pos (by decide)]

/-- The ring where the header stands, with as much of the data area as is mapped. -/
theorem ringIn_headed (hsize : headerSize ≤ size) (capacity : Nat) :
    ringIn (headed size capacity) capacity =
      ⟨shmMagic, capacity, 0, 0, 0, List.replicate (min capacity (size - headerSize)) 0⟩ := by
  have hmarked := marked_length hsize
  have hlength := headed_length hsize capacity
  have hwords := fun i hi hn => @load_headed size hsize capacity i hi hn
  have hdata : slice (headed size capacity) headerSize capacity =
      List.replicate (min capacity (size - headerSize)) 0 := by
    have harea : (List.drop headerSize (headed size capacity)).length = size - headerSize := by
      rw [List.length_drop, hlength]
    calc slice (headed size capacity) headerSize capacity =
          slice (headed size capacity) headerSize (min capacity (size - headerSize)) := by
          rw [slice, slice, List.take_eq_take_min, harea]
      _ = _ := slice_headed hsize capacity (by decide) (by omega)
  have hmagic := load_magic hsize
  simp only [headerSize] at hsize
  have hversion : (store (marked size) 4 4 shmVersion).length = size :=
    (store_length (by omega)).trans hmarked
  have hmagic : load (headed size capacity) 0 4 = shmMagic := by
    rw [headed, load_store_apart (by omega) (.inl (by decide)),
      load_store_apart (by omega) (.inl (by decide)), hmagic]
  rw [ringIn, hmagic, hwords 128 (by decide) (by omega), hwords 256 (by decide) (by omega),
    hwords 384 (by decide) (by omega), hdata]

/-- Where the header stands and the data area is mapped there is a sound, empty ring. -/
theorem headed_sound (hfits : headerSize + capacity ≤ size) (hsize : size < 2 ^ 63) :
    Sound capacity (headed size capacity) [] := by
  have hheader : headerSize ≤ size := by omega
  have hmarked := marked_length hheader
  have hlength := headed_length hheader capacity
  have hring := ringIn_headed hheader capacity
  rw [Nat.min_eq_left (by omega)] at hring
  simp only [headerSize] at hheader
  have hversion : (store (marked size) 4 4 shmVersion).length = size :=
    (store_length (by omega)).trans hmarked
  refine ⟨?_, ?_, ?_, ?_, ?_⟩
  · rw [headed, load_store_apart (by omega) (.inl (by decide)), load_store (by omega)]
    decide
  · exact load_store64 (by omega) (by simp only [headerSize] at hfits; omega)
  · rw [hlength]
    exact hfits
  · rw [hlength]
    exact hsize
  · rw [hring]
    exact ⟨rfl, show capacity < 2 ^ 63 by omega, rfl, rfl, Circular.Layout.empty _ _⟩

end PtyDaemon
