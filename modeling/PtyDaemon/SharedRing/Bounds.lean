import PtyDaemon.SharedRing.Basic

/-!
# Opening a shared object, and the indices its accessors use

Whoever knows the name of a shared object can write its header. `open` validates some of it and the
accessors check the rest again, or do not. Listed are the parts of the data area each accessor
passes to `copy_nonoverlapping` or `from_raw_parts`, and the differences it takes on the way.
-/

namespace PtyDaemon

open Circular

def shmVersion : Nat := 2

/-- A shared object, as any process may have left it. -/
structure SharedObject where
  /-- an `off_t` -/
  size : Nat
  size_lt : size < 2 ^ 63
  magic : UInt32
  version : UInt32
  capacity : UInt64
  sequence : UInt64
  writePos : UInt64
  totalWritten : UInt64
  /-- the bytes behind the header -/
  data : List UInt8

/-- Part of the data area: its first index and its length. -/
structure Access where
  start : Nat
  length : Nat

/-- Every index of the part is below `capacity`. -/
def Access.Within (capacity : Nat) (a : Access) : Prop :=
  ∀ i, a.start ≤ i → i < a.start + a.length → i < capacity

private theorem Access.within_iff {capacity : Nat} {a : Access} :
    a.Within capacity ↔ a.length = 0 ∨ a.start + a.length ≤ capacity := by
  constructor
  · intro h
    rcases Nat.eq_zero_or_pos a.length with hzero | hpos
    · exact .inl hzero
    · have hlast := h (a.start + a.length - 1) (by omega) (by omega)
      omega
  · rintro h i hi hlt
    omega

/-- The parts an accessor touches and the differences it takes, each as minuend and subtrahend. -/
structure Footprint where
  accesses : List Access
  differences : List (Nat × Nat)

structure Footprint.Safe (capacity : Nat) (f : Footprint) : Prop where
  within : ∀ a ∈ f.accesses, a.Within capacity
  exact : ∀ p ∈ f.differences, p.2 ≤ p.1

private theorem Footprint.Safe.empty {capacity : Nat} : Footprint.Safe capacity ⟨[], []⟩ :=
  ⟨by simp, by simp⟩

namespace SharedRingBuffer

/-- `SharedRingBuffer::open`, once the object is mapped; the sum wraps. -/
def openShm (o : SharedObject) : Except String SharedRingBuffer :=
  if o.size < headerSize then .error "Shared memory too small"
  else if o.magic.toNat ≠ shmMagic then .error "Invalid magic number"
  else if o.version.toNat ≠ shmVersion then .error "Unsupported version"
  else if o.size < wrapAdd headerSize o.capacity.toNat then .error "Capacity mismatch"
  else
    .ok
      { magic := o.magic.toNat
        capacity := o.capacity.toNat
        sequence := o.sequence.toNat
        writePos := o.writePos.toNat
        totalWritten := o.totalWritten.toNat
        data := o.data }

private theorem open_spec {o : SharedObject} {r : SharedRingBuffer} (h : openShm o = .ok r) :
    r.capacity < 2 ^ 64 ∧ wrapAdd headerSize r.capacity ≤ o.size := by
  unfold openShm at h
  split at h
  · cases h
  · split at h
    · cases h
    · split at h
      · cases h
      · split at h
        · cases h
        · rename_i hsize
          cases h
          exact ⟨o.capacity.toNat_lt, Nat.le_of_not_lt hsize⟩

/-- What `open` tests is the size of the area only where the sum does not wrap. -/
theorem open_holds_iff {o : SharedObject} {r : SharedRingBuffer}
    (h : openShm o = .ok r) :
    headerSize + r.capacity ≤ o.size ↔ headerSize + r.capacity < 2 ^ 64 := by
  obtain ⟨hcap, hsize⟩ := open_spec h
  constructor
  · intro hle
    have hlt := o.size_lt
    omega
  · intro hlt
    rwa [wrapAdd, Nat.mod_eq_of_lt hlt] at hsize

def writeFootprint (r : SharedRingBuffer) (data : List UInt8) : Footprint :=
  if data.isEmpty then ⟨[], []⟩
  else
    let len := data.length
    if r.capacity ≤ len then ⟨[⟨0, r.capacity⟩], [(len, r.capacity)]⟩
    else
      let firstChunk := wrapSub r.capacity r.writePos
      if len ≤ firstChunk then ⟨[⟨r.writePos, len⟩], [(r.capacity, r.writePos)]⟩
      else
        ⟨[⟨r.writePos, firstChunk⟩, ⟨0, wrapSub len firstChunk⟩],
          [(r.capacity, r.writePos), (len, firstChunk)]⟩

def dumpFootprint (r : SharedRingBuffer) : Footprint :=
  if r.magic ≠ shmMagic then ⟨[], []⟩
  else
    match r.readSnapshot with
    | none => ⟨[], []⟩
    | some (writePos, totalWritten) =>
      if r.capacity ≤ writePos then ⟨[], []⟩
      else
        let validLen := if r.capacity ≤ totalWritten then r.capacity else totalWritten
        if validLen = 0 then ⟨[], []⟩
        else if r.capacity ≤ totalWritten then
          let tailLen := wrapSub r.capacity writePos
          ⟨[⟨writePos, tailLen⟩, ⟨0, writePos⟩], [(r.capacity, writePos)]⟩
        else ⟨[⟨0, writePos⟩], []⟩

/-- The end of `read_since`, from the index of the first new byte. -/
def tailFootprint (r : SharedRingBuffer) (start newBytes : Nat) (differences : List (Nat × Nat)) :
    Footprint :=
  if wrapAdd start newBytes ≤ r.capacity then ⟨[⟨start, newBytes⟩], differences⟩
  else
    let first := wrapSub r.capacity start
    ⟨[⟨start, first⟩, ⟨0, wrapSub newBytes first⟩],
      differences ++ [(r.capacity, start), (newBytes, first)]⟩

def readSinceFootprint (r : SharedRingBuffer) (lastTotal : Nat) : Footprint :=
  match r.readSnapshot with
  | none => ⟨[], []⟩
  | some (writePos, total) =>
    if total ≤ lastTotal then ⟨[], []⟩
    else
      let newBytes := total - lastTotal
      if r.capacity ≤ newBytes then
        ⟨r.dumpFootprint.accesses, (total, lastTotal) :: r.dumpFootprint.differences⟩
      else if newBytes ≤ writePos then
        r.tailFootprint (writePos - newBytes) newBytes [(total, lastTotal), (writePos, newBytes)]
      else
        r.tailFootprint (wrapSub r.capacity (newBytes - writePos)) newBytes
          [(total, lastTotal), (newBytes, writePos), (r.capacity, newBytes - writePos)]

/-- A call of one of the three accessors. -/
inductive Accessor
  | write (data : List UInt8)
  | dump
  | readSince (lastTotal : Nat)

def Accessor.footprint (r : SharedRingBuffer) : Accessor → Footprint
  | .write data => r.writeFootprint data
  | .dump => r.dumpFootprint
  | .readSince lastTotal => r.readSinceFootprint lastTotal

/-- The write position is where the accessor takes it to be. -/
def Accessor.Fits (r : SharedRingBuffer) : Accessor → Prop
  | .write data => data = [] ∨ r.capacity ≤ data.length ∨ r.writePos ≤ r.capacity
  | .dump => True
  | .readSince lastTotal =>
    r.totalWritten ≤ lastTotal ∨ r.capacity ≤ r.totalWritten - lastTotal ∨
      r.writePos ≤ r.capacity + (r.totalWritten - lastTotal)

variable {r : SharedRingBuffer}

/-! ## The parts are those the accessors touch -/

def readPart (r : SharedRingBuffer) (a : Access) : List UInt8 := slice r.data a.start a.length

/-- The call returns the parts it reads, or changes no byte outside the parts it writes. -/
def Accessor.KeepsToParts (r : SharedRingBuffer) : Accessor → Prop
  | .write data => r.capacity ≤ r.data.length → ∀ i,
    (∀ a ∈ (r.writeFootprint data).accesses, i < a.start ∨ a.start + a.length ≤ i) →
    (r.write data).data[i]? = r.data[i]?
  | .dump => r.dump = some (r.dumpFootprint.accesses.flatMap r.readPart)
  | .readSince lastTotal => r.readSince lastTotal =
    some ((r.readSinceFootprint lastTotal).accesses.flatMap r.readPart, r.totalWritten)

/-- `dump` returns the parts it reads. -/
theorem dump_eq (heven : r.sequence % 2 = 0) :
    r.dump = some (r.dumpFootprint.accesses.flatMap r.readPart) := by
  have hsnapshot : r.readSnapshot = some (r.writePos, r.totalWritten) :=
    if_neg (fun h => h heven)
  simp only [dump, dumpFootprint, hsnapshot, Option.bind_eq_bind, Option.bind_some]
  split
  · rfl
  · split
    · rfl
    · rename_i hpos
      have htail : wrapSub r.capacity r.writePos = r.capacity - r.writePos := if_pos (by omega)
      rw [htail]
      generalize (if r.capacity ≤ r.totalWritten then r.capacity else r.totalWritten) = validLen
      split
      · rfl
      · split <;> simp [readPart]

private theorem tail_eq {start newBytes : Nat} {differences : List (Nat × Nat)}
    (hsafe : (r.tailFootprint start newBytes differences).Safe r.capacity) :
    (r.tailFootprint start newBytes differences).accesses.flatMap r.readPart =
      if wrapAdd start newBytes ≤ r.capacity then slice r.data start newBytes
      else
        slice r.data start (wrapSub r.capacity start) ++
          slice r.data 0 (newBytes - wrapSub r.capacity start) := by
  unfold tailFootprint at hsafe ⊢
  split
  · simp [readPart]
  · rename_i hwrap
    rw [if_neg hwrap] at hsafe
    have hfirst := hsafe.exact (newBytes, wrapSub r.capacity start) (by simp)
    have hsecond : wrapSub newBytes (wrapSub r.capacity start) =
        newBytes - wrapSub r.capacity start := if_pos hfirst
    simp [readPart, hsecond]

/-- `read_since` returns the parts it reads and the total. -/
theorem readSince_eq (heven : r.sequence % 2 = 0) {lastTotal : Nat}
    (hsafe : (r.readSinceFootprint lastTotal).Safe r.capacity) :
    r.readSince lastTotal =
      some ((r.readSinceFootprint lastTotal).accesses.flatMap r.readPart, r.totalWritten) := by
  have hsnapshot : r.readSnapshot = some (r.writePos, r.totalWritten) :=
    if_neg (fun h => h heven)
  simp only [readSinceFootprint, hsnapshot] at hsafe
  simp only [readSince, readSinceFootprint, hsnapshot, Option.bind_eq_bind, Option.bind_some]
  split
  · rfl
  · rename_i hnew
    rw [if_neg hnew] at hsafe
    split
    · rw [dump_eq heven]
      rfl
    · rename_i hover
      rw [if_neg hover] at hsafe
      split
      all_goals
        rename_i hback
        simp only [hback, if_true, if_false] at hsafe
        rw [tail_eq hsafe]
        split <;> rfl

/-- `write` changes no byte outside the parts it writes. -/
theorem write_frame {data : List UInt8} (hsafe : (r.writeFootprint data).Safe r.capacity)
    (harea : r.capacity ≤ r.data.length) {i : Nat}
    (hi : ∀ a ∈ (r.writeFootprint data).accesses, i < a.start ∨ a.start + a.length ≤ i) :
    (r.write data).data[i]? = r.data[i]? := by
  unfold writeFootprint at hsafe hi
  unfold write
  split
  · rfl
  · rename_i hdata
    rw [if_neg hdata] at hsafe hi
    dsimp only at hsafe hi ⊢
    split
    · rename_i hlong
      rw [if_pos hlong] at hi
      have hlen : (data.drop (data.length - r.capacity)).length = r.capacity := by
        rw [List.length_drop]
        omega
      have hapart := hi ⟨0, r.capacity⟩ (by simp)
      refine getElem?_overwrite (by omega) ?_
      rw [hlen]
      exact hapart
    · rename_i hshort
      rw [if_neg hshort] at hsafe hi
      have hpos : r.writePos ≤ r.capacity := by
        split at hsafe
        · exact hsafe.exact (r.capacity, r.writePos) (by simp)
        · exact hsafe.exact (r.capacity, r.writePos) (by simp)
      have hfirst : wrapSub r.capacity r.writePos = r.capacity - r.writePos := if_pos hpos
      rw [hfirst] at hi ⊢
      split
      · rename_i hfit
        rw [if_pos hfit] at hi
        exact getElem?_overwrite (by omega) (hi ⟨r.writePos, data.length⟩ (by simp))
      · rename_i hwrap
        have hsecond : wrapSub data.length (r.capacity - r.writePos) =
            data.length - (r.capacity - r.writePos) := if_pos (by omega)
        rw [if_neg hwrap, hsecond] at hi
        have htail := hi ⟨r.writePos, r.capacity - r.writePos⟩ (by simp)
        have hhead := hi ⟨0, data.length - (r.capacity - r.writePos)⟩ (by simp)
        dsimp only at htail hhead
        have hblock : (data.take (r.capacity - r.writePos)).length = r.capacity - r.writePos := by
          rw [List.length_take]
          omega
        have hlength : (overwrite r.data r.writePos (data.take (r.capacity - r.writePos))).length =
            r.data.length := overwrite_length (by omega)
        have hrest : (data.drop (r.capacity - r.writePos)).length =
            data.length - (r.capacity - r.writePos) := List.length_drop
        change (overwrite (overwrite r.data r.writePos (data.take (r.capacity - r.writePos))) 0
          (data.drop (r.capacity - r.writePos)))[i]? = _
        rw [getElem?_overwrite (by omega) (by omega), getElem?_overwrite (by omega) (by omega)]

private theorem keepsToParts (heven : r.sequence % 2 = 0) {call : Accessor}
    (hsafe : (call.footprint r).Safe r.capacity) : call.KeepsToParts r := by
  cases call with
  | write data =>
    intro harea i hi
    exact write_frame hsafe harea hi
  | dump => exact dump_eq heven
  | readSince lastTotal => exact readSince_eq heven hsafe

/-! ## Where they lie -/

private theorem write_safe_iff (data : List UInt8) :
    (r.writeFootprint data).Safe r.capacity ↔
      data = [] ∨ r.capacity ≤ data.length ∨ r.writePos ≤ r.capacity := by
  unfold writeFootprint
  split
  · rename_i hempty
    simp [List.isEmpty_iff.mp hempty, Footprint.Safe.empty]
  · rename_i hdata
    rw [List.isEmpty_iff] at hdata
    dsimp only
    split
    · rename_i hlong
      have hsafe : Footprint.Safe r.capacity ⟨[⟨0, r.capacity⟩], [(data.length, r.capacity)]⟩ :=
        ⟨by simp [Access.within_iff], by simpa using hlong⟩
      simp [hsafe, hlong]
    · rename_i hshort
      constructor
      · intro h
        right; right
        split at h
        · exact h.exact (r.capacity, r.writePos) (by simp)
        · exact h.exact (r.capacity, r.writePos) (by simp)
      · intro h
        have hpos : r.writePos ≤ r.capacity := by simpa [hdata, hshort] using h
        have hfirst : wrapSub r.capacity r.writePos = r.capacity - r.writePos := if_pos hpos
        rw [hfirst]
        split
        · rename_i hfit
          refine ⟨?_, by simpa using hpos⟩
          simp only [List.mem_singleton, forall_eq, Access.within_iff]
          omega
        · rename_i hwrap
          have hsecond : wrapSub data.length (r.capacity - r.writePos) =
              data.length - (r.capacity - r.writePos) := if_pos (by omega)
          rw [hsecond]
          constructor
          · simp only [List.mem_cons, List.not_mem_nil, or_false, forall_eq_or_imp, forall_eq,
              Access.within_iff]
            omega
          · simp only [List.mem_cons, List.not_mem_nil, or_false, forall_eq_or_imp, forall_eq]
            omega

private theorem dump_safe (r : SharedRingBuffer) : r.dumpFootprint.Safe r.capacity := by
  unfold dumpFootprint
  split
  · exact .empty
  · split
    · exact .empty
    · rename_i writePos totalWritten _
      split
      · exact .empty
      · rename_i hpos
        have htail : wrapSub r.capacity writePos = r.capacity - writePos := if_pos (by omega)
        dsimp only
        rw [htail]
        generalize (if r.capacity ≤ totalWritten then r.capacity else totalWritten) = validLen
        split
        · exact .empty
        · split
          · constructor
            · simp only [List.mem_cons, List.not_mem_nil, or_false, forall_eq_or_imp, forall_eq,
                Access.within_iff]
              omega
            · simp only [List.mem_singleton, forall_eq]
              omega
          · constructor
            · simp only [List.mem_singleton, forall_eq, Access.within_iff]
              omega
            · simp

private theorem tail_safe_iff {start newBytes : Nat} {differences : List (Nat × Nat)}
    (hcap : r.capacity < 2 ^ 63) (hpos : 0 < newBytes) (hnew : newBytes < r.capacity)
    (hdifferences : ∀ p ∈ differences, p.2 ≤ p.1) :
    (r.tailFootprint start newBytes differences).Safe r.capacity ↔ start ≤ r.capacity := by
  unfold tailFootprint
  constructor
  · intro h
    split at h
    · have hwithin := Access.within_iff.mp (h.within ⟨start, newBytes⟩ (by simp))
      dsimp only at hwithin
      omega
    · exact h.exact (r.capacity, start) (by simp)
  · intro hstart
    have hsum : wrapAdd start newBytes = start + newBytes := Nat.mod_eq_of_lt (by omega)
    have hfirst : wrapSub r.capacity start = r.capacity - start := if_pos hstart
    simp only [hsum, hfirst]
    split
    · rename_i hfit
      refine ⟨?_, hdifferences⟩
      simp only [List.mem_singleton, forall_eq, Access.within_iff]
      exact .inr hfit
    · have hsecond : wrapSub newBytes (r.capacity - start) = newBytes - (r.capacity - start) :=
        if_pos (by omega)
      rw [hsecond]
      constructor
      · simp only [List.mem_cons, List.not_mem_nil, or_false, forall_eq_or_imp, forall_eq,
          Access.within_iff]
        omega
      · intro p hp
        rcases List.mem_append.mp hp with hp | hp
        · exact hdifferences p hp
        · simp only [List.mem_cons, List.not_mem_nil, or_false] at hp
          rcases hp with rfl | rfl
          · exact hstart
          · change r.capacity - start ≤ newBytes
            omega

/-- The new bytes lie in the area if the index of the first of them does. -/
theorem readSince_safe_iff (heven : r.sequence % 2 = 0) (hcap : r.capacity < 2 ^ 63)
    (lastTotal : Nat) :
    (r.readSinceFootprint lastTotal).Safe r.capacity ↔
      r.totalWritten ≤ lastTotal ∨ r.capacity ≤ r.totalWritten - lastTotal ∨
        r.writePos ≤ r.capacity + (r.totalWritten - lastTotal) := by
  have hsnapshot : r.readSnapshot = some (r.writePos, r.totalWritten) :=
    if_neg (fun h => h heven)
  simp only [readSinceFootprint, hsnapshot]
  by_cases hnew : r.totalWritten ≤ lastTotal
  · simp [hnew, Footprint.Safe.empty]
  · rw [if_neg hnew]
    have htotal : lastTotal ≤ r.totalWritten := by omega
    have hpos : 0 < r.totalWritten - lastTotal := by omega
    generalize r.totalWritten - lastTotal = newBytes at hpos ⊢
    by_cases hover : r.capacity ≤ newBytes
    · have hdump := r.dump_safe
      rw [if_pos hover]
      refine iff_of_true ⟨hdump.within, ?_⟩ (.inr (.inl hover))
      intro p hp
      rcases List.mem_cons.mp hp with rfl | hp
      · exact htotal
      · exact hdump.exact p hp
    · rw [if_neg hover]
      by_cases hback : newBytes ≤ r.writePos
      · simp only [if_pos hback]
        rw [tail_safe_iff hcap hpos (by omega) (by simp [htotal, hback])]
        omega
      · have hstart : wrapSub r.capacity (newBytes - r.writePos) =
            r.capacity - (newBytes - r.writePos) := if_pos (by omega)
        simp only [if_neg hback, hstart]
        have hdifferences : ∀ p ∈ [(r.totalWritten, lastTotal), (newBytes, r.writePos),
            (r.capacity, newBytes - r.writePos)], p.2 ≤ p.1 := by
          simp only [List.mem_cons, List.not_mem_nil, or_false, forall_eq_or_imp, forall_eq]
          omega
        rw [tail_safe_iff hcap hpos (by omega) hdifferences]
        omega

private theorem safe_iff (heven : r.sequence % 2 = 0) (hcap : r.capacity < 2 ^ 63)
    (call : Accessor) :
    (call.footprint r).Safe r.capacity ↔ call.Fits r := by
  cases call with
  | write data => exact write_safe_iff data
  | dump => exact iff_of_true r.dump_safe trivial
  | readSince lastTotal => exact readSince_safe_iff heven hcap lastTotal

/-- After an object has been opened the accessors stay in it and take no difference below zero if
and only if the sum in `open` did not wrap and the write position, as the call finds it, fits. The
counters may be anything by then. -/
theorem accessor_safe_iff (o : SharedObject) (opened r : SharedRingBuffer) (call : Accessor)
    (hopen : openShm o = .ok opened) (hcap : r.capacity = opened.capacity)
    (heven : r.sequence % 2 = 0) :
    (headerSize + r.capacity ≤ o.size ∧ (call.footprint r).Safe r.capacity ↔
      headerSize + r.capacity < 2 ^ 64 ∧ call.Fits r) ∧
    ((call.footprint r).Safe r.capacity → call.KeepsToParts r) := by
  refine ⟨?_, keepsToParts heven⟩
  rw [hcap, open_holds_iff hopen, ← hcap]
  apply and_congr_right
  intro hlt
  have hholds := (open_holds_iff hopen).mpr (hcap ▸ hlt)
  have hsize := o.size_lt
  exact safe_iff heven (by omega) call

/-- An object of 528 bytes whose header says so, with the given write position. -/
private def small (writePos : UInt64) : SharedObject where
  size := 528
  size_lt := by decide
  magic := 0x50545944
  version := 2
  capacity := 16
  sequence := 0
  writePos := writePos
  totalWritten := 0
  data := List.replicate 16 0

/-- The ring `openShm` makes of it. -/
private def smallRing (writePos : Nat) : SharedRingBuffer :=
  ⟨0x50545944, 16, 0, writePos, 0, List.replicate 16 0⟩

theorem accessor_safe_iff_small :
    headerSize + 16 ≤ 528 ∧ ((Accessor.write [1, 2, 3]).footprint (smallRing 14)).Safe 16 :=
  (accessor_safe_iff (small 14) (smallRing 14) (smallRing 14) (.write [1, 2, 3]) (by decide) rfl
    rfl).1.mpr ⟨by decide, .inr (.inr (by decide))⟩

/-- With a write position of 1000 in the header, one byte is written behind the area; and an object
of 512 bytes that claims a capacity of 2 ^ 64 - 1 is opened. -/
theorem open_accepts_unsafe :
    (∃ opened, openShm (small 1000) = .ok opened ∧
      ¬ ((Accessor.write [1]).footprint opened).Safe opened.capacity) ∧
    ∃ opened, openShm { small 0 with size := 512, size_lt := by decide, capacity := 0 - 1 } =
      .ok opened ∧ ¬ headerSize + opened.capacity ≤ 512 := by
  refine ⟨⟨smallRing 1000, by decide, fun h => ?_⟩, ⟨{ smallRing 0 with capacity := 2 ^ 64 - 1 },
    by decide, by decide⟩⟩
  have hunderflow := h.exact (16, 1000) (by decide)
  revert hunderflow
  decide

end SharedRingBuffer

end PtyDaemon
