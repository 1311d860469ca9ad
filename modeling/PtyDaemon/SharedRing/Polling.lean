import PtyDaemon.SharedRing.Blank
import PtyDaemon.SharedRing.Snapshot

/-!
# Incremental reads while the writer runs

`read_since` takes the total first and the bytes afterwards, and it never looks at the sequence
again. A write that was not complete at its snapshot may copy to the cells it hands out, before the
snapshot or after it, and in the overrun branch `dump` hands out the bytes of a later boundary than
that of the total.
-/

namespace PtyDaemon

open Circular

namespace SharedRingBuffer

/-- `read_since` of a ring that changes meanwhile: it is `snapshot` when the counters are loaded,
`first` at the nested `dump` or the first copy, and `second` at the second copy. -/
def readSinceAmid (snapshot first second : SharedRingBuffer) (lastTotal : Nat) :
    Option (List UInt8 × Nat) := do
  let (writePos, total) ← snapshot.readSnapshot
  if total ≤ lastTotal then return ([], total)
  let newBytes := total - lastTotal
  if snapshot.capacity ≤ newBytes then return (← first.dump, total)
  let start :=
    if newBytes ≤ writePos then writePos - newBytes
    else wrapSub snapshot.capacity (newBytes - writePos)
  if wrapAdd start newBytes ≤ snapshot.capacity then
    return (slice first.data start newBytes, total)
  else
    let tailLen := wrapSub snapshot.capacity start
    return (slice first.data start tailLen ++ slice second.data 0 (newBytes - tailLen), total)

/-- The index of the first of the last `n` bytes. -/
def startOf (r : SharedRingBuffer) (n : Nat) : Nat :=
  if n ≤ r.writePos then r.writePos - n else r.capacity - (n - r.writePos)

/-- No write that was incomplete at boundary `k` has copied to the cells. -/
def State.Untouched (s : State Empty) (k : Nat) (slices : List (Nat × Nat)) : Prop :=
  ∀ x ∈ slices, ∀ c ∈ s.copies, k ≤ c.write → ∀ j, x.1 ≤ j → j < x.1 + x.2 → ¬c.Covers j

instance (s : State Empty) (k : Nat) (slices : List (Nat × Nat)) :
    Decidable (s.Untouched k slices) :=
  inferInstanceAs (Decidable (∀ x ∈ slices, ∀ c ∈ s.copies, k ≤ c.write → ∀ j, x.1 ≤ j →
    j < x.1 + x.2 → ¬c.Covers j))

/-- What `read_since` hands out is not touched by a write that was incomplete at its snapshot, the ring
`r` after `k` writes: in the normal branch none has copied to the cells when they are copied; in
the overrun branch no write has been completed until the nested `dump`, and none has copied to
its slices, unless these are empty. -/
def Undisturbed (r : SharedRingBuffer) (k lastTotal : Nat) (first second : State Empty) : Prop :=
  let n := r.totalWritten - lastTotal
  if r.totalWritten ≤ lastTotal then True
  else if r.capacity ≤ n then
    let slices := dumpSlices first.ring.capacity first.ring.writePos first.ring.totalWritten
    (∀ x ∈ slices, x.2 = 0) ∨ first.blocks.length = k ∧ first.Untouched k slices
  else
    first.Untouched k [(r.startOf n, min n (r.capacity - r.startOf n))] ∧
      second.Untouched k [(0, r.startOf n + n - r.capacity)]

instance decidableReadUndisturbed (r : SharedRingBuffer) (k lastTotal : Nat)
    (first second : State Empty) :
    Decidable (r.Undisturbed k lastTotal first second) := by
  unfold Undisturbed
  infer_instance

/-- What has been done to the ring before, and what the writer does until the snapshot of
`read_since`, until the nested `dump` or the first copy, and until the second copy. -/
structure Schedule where
  calls : List Call
  toSnapshot : List (Label Empty)
  toFirst : List (Label Empty)
  toSecond : List (Label Empty)

/-- The states at the three moments. -/
def Schedule.run (schedule : Schedule) (r : SharedRingBuffer) :
    Option (State Empty × State Empty × State Empty) := do
  let ring ← schedule.calls.foldlM Call.run r
  let snapshot ← (ringSystem Empty ring).exec (.initial Empty ring) schedule.toSnapshot
  let first ← (ringSystem Empty ring).exec snapshot schedule.toFirst
  let second ← (ringSystem Empty ring).exec first schedule.toSecond
  return (snapshot, first, second)

/-- The schedule without its bytes. -/
def Schedule.blank (schedule : Schedule) : Schedule where
  calls := schedule.calls.map Call.blank
  toSnapshot := schedule.toSnapshot.map Label.blank
  toFirst := schedule.toFirst.map Label.blank
  toSecond := schedule.toSecond.map Label.blank

/-- The stream as it stands at the boundary of the snapshot. -/
def Schedule.stream (schedule : Schedule) (snapshot : State Empty) : List UInt8 :=
  schedule.calls.foldl Call.stream [] ++ snapshot.blocks.flatten

/-- No index below zero is computed. -/
theorem startOf_eq {r : SharedRingBuffer} {n : Nat} (hn : n ≤ r.capacity) :
    (if n ≤ r.writePos then r.writePos - n else wrapSub r.capacity (n - r.writePos)) =
      r.startOf n := by
  unfold startOf
  split
  · rfl
  · exact wrapSub_of_le (by omega)

/-! ## Slices -/

private theorem dump_of_even {r : SharedRingBuffer} (hmagic : r.magic = shmMagic)
    (heven : r.sequence % 2 = 0) :
    r.dump = some ((dumpSlices r.capacity r.writePos r.totalWritten).flatMap fun x =>
      slice r.data x.1 x.2) := by
  rw [dump_eq_slices, if_neg (by simp [hmagic]), readSnapshot, if_neg (by simp [heven])]
  rfl

/-- `dump` copies nothing, two slices that make up the data area, or its front. -/
theorem dumpSlices_cases (capacity writePos total : Nat) :
    dumpSlices capacity writePos total = [] ∨
      (writePos < capacity ∧ capacity ≤ total ∧
        dumpSlices capacity writePos total = [(writePos, capacity - writePos), (0, writePos)]) ∨
      (writePos < capacity ∧ total < capacity ∧
        dumpSlices capacity writePos total = [(0, writePos)]) := by
  unfold dumpSlices
  by_cases hpos : capacity ≤ writePos
  · exact .inl (if_pos hpos)
  · have hlt : writePos < capacity := Nat.lt_of_not_le hpos
    by_cases hfull : capacity ≤ total
    · have hzero : ¬capacity = 0 := by omega
      exact .inr (.inl ⟨hlt, hfull, by simp [hpos, hfull, hzero]⟩)
    · by_cases hzero : total = 0
      · exact .inl (by simp [hpos, hzero])
      · exact .inr (.inr ⟨hlt, Nat.lt_of_not_le hfull, by simp [hpos, hfull, hzero]⟩)

private theorem dump_length_le {r : SharedRingBuffer} {bytes : List UInt8}
    (hmagic : r.magic = shmMagic)
    (h : r.dump = some bytes) : bytes.length ≤ r.capacity := by
  rw [dump_eq_slices, if_neg (by simp [hmagic])] at h
  obtain ⟨⟨writePos, total⟩, _, rfl⟩ := Option.map_eq_some_iff.mp h
  rcases dumpSlices_cases r.capacity writePos total with hs | ⟨hlt, _, hs⟩ | ⟨hlt, _, hs⟩
  · rw [hs]
    exact Nat.zero_le _
  · rw [hs]
    simp only [List.flatMap_cons, List.flatMap_nil, List.append_nil, List.length_append, slice,
      List.length_take]
    omega
  · rw [hs]
    simp only [List.flatMap_cons, List.flatMap_nil, List.append_nil, slice, List.length_take]
    omega

private theorem dump_even {r : SharedRingBuffer} {bytes : List UInt8} (hmagic : r.magic = shmMagic)
    (h : r.dump = some bytes) : r.sequence % 2 = 0 := by
  rw [SharedRingBuffer.dump, if_neg (by simp [hmagic])] at h
  obtain ⟨_, hsnapshot, _⟩ := Option.bind_eq_some_iff.mp h
  unfold SharedRingBuffer.readSnapshot at hsnapshot
  split at hsnapshot
  · cases hsnapshot
  · rename_i heven
    omega

namespace AtRest

variable {r : SharedRingBuffer} {S : List UInt8}

private theorem writePos_le (h : r.AtRest S) : r.writePos ≤ r.capacity := by
  rcases h with h | h
  · exact h.writePos_le
  · rw [h.writePos]
    exact Nat.le_of_lt (h.room.trans_lt h.longer)

private theorem total (h : r.AtRest S) : r.totalWritten = S.length % 2 ^ 64 := by
  rcases h with h | h
  · exact h.total
  · have hroom := h.room
    have hsmall := h.small
    rw [h.total, Nat.mod_eq_of_lt (by omega)]

private theorem dump_suffix (h : r.AtRest S) {bytes : List UInt8} (hdump : r.dump = some bytes) :
    bytes <:+ S := by
  rcases h with h | h
  · exact h.dump_suffix hdump
  · rw [h.dump] at hdump
    cases hdump
    exact List.suffix_rfl

/-- The slices of `dump` lie in the mapping. -/
theorem slices_mapped (h : r.AtRest S) :
    ∀ x ∈ dumpSlices r.capacity r.writePos r.totalWritten, x.1 + x.2 ≤ r.data.length := by
  intro x hx
  rcases h with h | h
  · have hsize := h.layout.size
    rcases dumpSlices_cases r.capacity r.writePos r.totalWritten with
      hs | ⟨hlt, _, hs⟩ | ⟨hlt, _, hs⟩
    · rw [hs] at hx
      cases hx
    · rw [hs] at hx
      rcases List.mem_pair.mp hx with rfl | rfl <;> dsimp only <;> omega
    · rw [hs, List.mem_singleton] at hx
      rw [hx]
      dsimp only
      omega
  · have hunder := h.room.trans_lt h.longer
    have hroom := h.room
    rw [h.writePos, h.total] at hx
    rcases dumpSlices_cases r.capacity S.length S.length with hs | ⟨_, hfull, _⟩ | ⟨_, _, hs⟩
    · rw [hs] at hx
      cases hx
    · omega
    · rw [hs, List.mem_singleton] at hx
      rw [hx]
      dsimp only
      omega

/-- Neither sum of the normal branch wraps. -/
theorem startOf_bounds (h : r.AtRest S) {n : Nat} (hn : n < r.capacity)
    (htotal : n ≤ r.totalWritten) :
    r.startOf n ≤ r.capacity ∧ r.startOf n + n < 2 ^ 64 := by
  have hp := h.writePos_le
  rcases h with h | h
  · have hsmall := h.small
    unfold startOf
    split <;> omega
  · have hroom := h.room
    have hsmall := h.small
    rw [h.total] at htotal
    rw [startOf, h.writePos, if_pos htotal]
    rw [h.writePos] at hp
    omega

/-- The last `n` bytes stand in one slice, or in two around the end of the data area. -/
theorem window (h : r.AtRest S) {n : Nat} (hn : n < r.capacity) (htotal : n ≤ r.totalWritten) :
    slice r.data (r.startOf n) (min n (r.capacity - r.startOf n)) ++
      slice r.data 0 (r.startOf n + n - r.capacity) = S.rtake n := by
  obtain ⟨hstart, hsum⟩ := h.startOf_bounds hn htotal
  rcases h with h | h
  · have hS : n ≤ S.length := htotal.trans (h.total ▸ Nat.mod_le _ _)
    have hwant := h.newSlices hn hS
    simp only [startOf_eq (Nat.le_of_lt hn), wrapAdd_of_lt hsum, wrapSub_of_le hstart] at hwant
    rw [← hwant]
    split
    · rename_i hfit
      rw [min_eq_left (by omega), show r.startOf n + n - r.capacity = 0 by omega]
      simp [slice]
    · rename_i hwrap
      rw [min_eq_right (by omega)]
      congr 2
      omega
  · have hroom := h.room
    have hlonger := h.longer
    rw [h.total] at htotal
    have hfront : r.startOf n = S.length - n := by rw [startOf, h.writePos, if_pos htotal]
    have hend : S.drop (S.length - n) = (r.data.drop (S.length - n)).take n := by
      calc S.drop (S.length - n) = (r.data.take S.length).drop (S.length - n) := by rw [h.stored]
        _ = (r.data.drop (S.length - n)).take n := by
          rw [List.drop_take, Nat.sub_sub_self htotal]
    rw [hfront, min_eq_left (by omega), show S.length - n + n - r.capacity = 0 by omega, List.rtake,
      hend]
    simp [slice]

end AtRest

/-! ## The three moments -/

variable {r : SharedRingBuffer} {S : List UInt8} {s₀ s₁ s₂ : State Empty} {lastTotal : Nat}

/-- When the sequence is even, the counters are those of the last boundary. -/
theorem WriterInv.at_boundary {s : State Empty} (hr : r.AtRest S) (h : WriterInv r s)
    (heven : s.ring.sequence % 2 = 0) :
    s.ring = { r.after s.blocks s.blocks.length with data := s.ring.data } := by
  obtain ⟨hbegun, hsequence⟩ := h.even hr heven
  obtain ⟨hpos, htotal⟩ := h.settled (Nat.le_refl _) hbegun
  obtain ⟨locked, hat, _⟩ := h.position
  have hmagic := hat.magic
  have hcap := hat.capacity
  rw [← after_length] at hmagic hcap
  cases hring : s.ring
  rw [hring] at hmagic hcap hsequence hpos htotal
  dsimp only at hmagic hcap hsequence hpos htotal
  rw [hmagic, hcap, hsequence, hpos, htotal]

/-- Untouched cells hold what they held at the boundary. -/
theorem State.Untouched.slice_eq {s : State Empty} {k : Nat} {slices : List (Nat × Nat)}
    (h : s.Untouched k slices) (hw : WriterInv r s) (hk : k ≤ s.blocks.length) :
    ∀ x ∈ slices, slice s.ring.data x.1 x.2 = slice (r.after s.blocks k).data x.1 x.2 := by
  intro x hx
  apply slice_congr
  intro j hj hlt
  exact hw.untouched k hk j fun c hc hle => h x hx c hc hle j hj hlt

/-- The three states of a call: each follows from the one before. -/
structure Moments (r : SharedRingBuffer) (s₀ s₁ s₂ : State Empty) : Prop where
  snapshot : WriterInv r s₀
  first : WriterInv r s₁
  second : WriterInv r s₂
  later : ∃ more, s₁.blocks = s₀.blocks ++ more
  latest : ∃ more, s₂.blocks = s₁.blocks ++ more

private theorem readSinceAmid_even {a b c : SharedRingBuffer} {result : List UInt8 × Nat}
    (h : readSinceAmid a b c lastTotal = some result) : a.sequence % 2 = 0 := by
  obtain ⟨_, hsnapshot, _⟩ := Option.bind_eq_some_iff.mp h
  unfold readSnapshot at hsnapshot
  split at hsnapshot
  · cases hsnapshot
  · omega

private theorem readSnapshot_of_even {a : SharedRingBuffer} (h : a.sequence % 2 = 0) :
    a.readSnapshot = some (a.writePos, a.totalWritten) := by
  rw [readSnapshot, if_neg (by simp [h])]

/-- The overrun branch. -/
theorem readSinceAmid_over {a : SharedRingBuffer} (b c : SharedRingBuffer)
    (heven : a.sequence % 2 = 0) (hnew : lastTotal < a.totalWritten)
    (hover : a.capacity ≤ a.totalWritten - lastTotal) :
    readSinceAmid a b c lastTotal = b.dump.map fun data => (data, a.totalWritten) := by
  rw [readSinceAmid, readSnapshot_of_even heven]
  simp only [Option.bind_eq_bind, Option.bind_some, if_neg (Nat.not_le.mpr hnew), if_pos hover]
  cases b.dump <;> rfl

/-- The normal branch. -/
theorem AtRest.readSinceAmid_normal (h : r.AtRest S) (b c : SharedRingBuffer)
    (hnew : lastTotal < r.totalWritten) (hlt : r.totalWritten - lastTotal < r.capacity) :
    readSinceAmid r b c lastTotal =
      some (slice b.data (r.startOf (r.totalWritten - lastTotal))
          (min (r.totalWritten - lastTotal)
            (r.capacity - r.startOf (r.totalWritten - lastTotal))) ++
        slice c.data 0
          (r.startOf (r.totalWritten - lastTotal) + (r.totalWritten - lastTotal) - r.capacity),
        r.totalWritten) := by
  obtain ⟨hstart, hsum⟩ := h.startOf_bounds hlt (Nat.sub_le _ _)
  rw [readSinceAmid, readSnapshot_of_even h.even]
  simp only [Option.bind_eq_bind, Option.bind_some, if_neg (Nat.not_le.mpr hnew),
    if_neg (Nat.not_le.mpr hlt), startOf_eq (Nat.le_of_lt hlt), wrapAdd_of_lt hsum,
    wrapSub_of_le hstart]
  split
  · rename_i hfit
    rw [min_eq_left (by omega), Nat.sub_eq_zero_of_le hfit]
    simp [slice]
  · rename_i hwrap
    rw [min_eq_right (by omega)]
    have hrest : r.totalWritten - lastTotal -
        (r.capacity - r.startOf (r.totalWritten - lastTotal)) =
        r.startOf (r.totalWritten - lastTotal) + (r.totalWritten - lastTotal) - r.capacity := by
      omega
    rw [hrest]
    rfl

/-- The ring of the boundary the snapshot has found. -/
theorem Moments.boundary (hm : Moments r s₀ s₁ s₂) (hr : r.AtRest S)
    (heven : s₀.ring.sequence % 2 = 0) :
    ∃ c, c.AtRest (S ++ s₀.blocks.flatten) ∧ r.after s₁.blocks s₀.blocks.length = c ∧
      r.after s₂.blocks s₀.blocks.length = c ∧ s₀.ring = { c with data := s₀.ring.data } ∧
      s₁.ring.magic = c.magic ∧ s₁.ring.capacity = c.capacity := by
  obtain ⟨hrest, hcap⟩ := hm.snapshot.after hr s₀.blocks.length
  rw [List.take_length] at hrest
  obtain ⟨more₁, hb₁⟩ := hm.later
  obtain ⟨more₂, hb₂⟩ := hm.latest
  obtain ⟨locked, hat, _⟩ := hm.first.position
  obtain ⟨hrest₁, hcap₁⟩ := hm.first.after hr s₁.blocks.length
  rw [after_length] at hrest₁ hcap₁
  refine ⟨_, hrest, ?_, ?_, hm.snapshot.at_boundary hr heven, ?_, ?_⟩
  · rw [hb₁, after_append r (Nat.le_refl _)]
  · rw [hb₂, hb₁, List.append_assoc, after_append r (Nat.le_refl _)]
  · rw [hat.magic, hrest₁.magic, hrest.magic]
  · rw [hat.capacity, hcap₁, hcap]

private theorem Moments.totalWritten (hm : Moments r s₀ s₁ s₂) (hr : r.AtRest S)
    (heven : s₀.ring.sequence % 2 = 0) :
    s₀.ring.totalWritten = (S ++ s₀.blocks.flatten).length % 2 ^ 64 := by
  obtain ⟨c, hrest, _, _, hring, _⟩ := hm.boundary hr heven
  rw [hring]
  exact hrest.total

/-- Whatever is written meanwhile, `read_since` returns the total of its snapshot and no more bytes
than are new; what is not touched ends the stream of the snapshot. -/
theorem Moments.readSince (hm : Moments r s₀ s₁ s₂) (hr : r.AtRest S) {data : List UInt8}
    {total : Nat} (hread : readSinceAmid s₀.ring s₁.ring s₂.ring lastTotal = some (data, total)) :
    total = (S ++ s₀.blocks.flatten).length % 2 ^ 64 ∧ data.length ≤ total - lastTotal ∧
      (s₀.ring.Undisturbed s₀.blocks.length lastTotal s₁ s₂ → data <:+ S ++ s₀.blocks.flatten) := by
  obtain ⟨c, hrest, hafter₁, hafter₂, hring, hmagic₁, hcap₁⟩ :=
    hm.boundary hr (readSinceAmid_even hread)
  have hk₁ : s₀.blocks.length ≤ s₁.blocks.length := by
    obtain ⟨more, hb⟩ := hm.later
    rw [hb, List.length_append]
    exact Nat.le_add_right _ _
  have hk₂ : s₀.blocks.length ≤ s₂.blocks.length := by
    obtain ⟨more, hb⟩ := hm.latest
    rw [hb, List.length_append]
    exact Nat.le_add_right_of_le hk₁
  rw [hring] at hread ⊢
  change readSinceAmid c _ _ _ = _ at hread
  change total = _ ∧ _ ∧ (c.Undisturbed _ _ _ _ → _)
  unfold Undisturbed
  dsimp only
  rcases Nat.lt_or_ge lastTotal c.totalWritten with hnew | hold
  · rw [if_neg (Nat.not_le.mpr hnew)]
    rcases Nat.lt_or_ge (c.totalWritten - lastTotal) c.capacity with hlt | hover
    · -- the normal branch
      rw [hrest.readSinceAmid_normal _ _ hnew hlt, Option.some.injEq, Prod.mk.injEq] at hread
      obtain ⟨rfl, rfl⟩ := hread
      rw [if_neg (Nat.not_le.mpr hlt)]
      refine ⟨hrest.total, ?_, fun ⟨hfirst, hsecond⟩ => ?_⟩
      · obtain ⟨hstart, _⟩ := hrest.startOf_bounds hlt (Nat.sub_le _ _)
        simp only [List.length_append, slice, List.length_take]
        omega
      · have heq₁ := hfirst.slice_eq hm.first hk₁ _ (List.mem_singleton.mpr rfl)
        have heq₂ := hsecond.slice_eq hm.second hk₂ _ (List.mem_singleton.mpr rfl)
        rw [hafter₁] at heq₁
        rw [hafter₂] at heq₂
        have hwindow := hrest.window hlt (Nat.sub_le _ _)
        dsimp only at heq₁ heq₂
        rw [← heq₁, ← heq₂] at hwindow
        rw [hwindow]
        exact List.drop_suffix _ _
    · -- the overrun branch
      rw [readSinceAmid_over _ _ hrest.even hnew hover] at hread
      obtain ⟨bytes, hdump, hpair⟩ := Option.map_eq_some_iff.mp hread
      obtain ⟨rfl, rfl⟩ := Prod.mk.inj hpair
      have hmagic := hmagic₁.trans hrest.magic
      have hlen := dump_length_le hmagic hdump
      have heven₁ := dump_even hmagic hdump
      rw [if_pos hover]
      refine ⟨hrest.total, by omega, ?_⟩
      rw [dump_of_even hmagic heven₁] at hdump
      rintro (hnone | ⟨hsame, huntouched⟩)
      · have hnil : bytes = [] := by
          rw [← Option.some.inj hdump, List.flatMap_eq_nil_iff]
          intro x hx
          rw [hnone x hx]
          exact List.take_zero
        rw [hnil]
        exact List.nil_suffix
      · have hslices := huntouched.slice_eq hm.first hk₁
        have hbound₁ := hm.first.at_boundary hr heven₁
        rw [hafter₁] at hslices
        rw [hsame, hafter₁] at hbound₁
        apply hrest.dump_suffix
        rw [dump_of_even hrest.magic hrest.even, ← hdump]
        rw [hbound₁] at hslices ⊢
        exact congrArg some (List.flatMap_congr fun x hx => (hslices x hx).symm)
  · rw [if_pos hold]
    unfold readSinceAmid at hread
    rw [readSnapshot_of_even hrest.even] at hread
    simp only [Option.bind_eq_bind, Option.bind_some, if_pos hold] at hread
    cases hread
    exact ⟨hrest.total, Nat.zero_le _, fun _ => List.nil_suffix⟩

/-! ## Other bytes -/

private theorem slice_blank (cells : List UInt8) (i n : Nat) :
    slice (blankBytes cells) i n = blankBytes (slice cells i n) := by
  rw [slice, slice, blankBytes_take, blankBytes_drop]

private theorem dump_blank (r : SharedRingBuffer) : r.blank.dump = r.dump.map blankBytes := by
  rw [dump_eq_slices, dump_eq_slices]
  change (if r.magic ≠ shmMagic then some [] else r.readSnapshot.map _) = _
  split
  · rfl
  · rw [Option.map_map]
    congr 1
    funext p
    change (dumpSlices r.capacity p.1 p.2).flatMap (fun x => slice (blankBytes r.data) x.1 x.2) =
      blankBytes ((dumpSlices r.capacity p.1 p.2).flatMap fun x => slice r.data x.1 x.2)
    rw [blankBytes.eq_1 (List.flatMap _ _), List.map_flatMap]
    exact List.flatMap_congr fun x _ => slice_blank r.data x.1 x.2

private theorem readSinceAmid_blank (a b c : SharedRingBuffer) (lastTotal : Nat) :
    readSinceAmid a.blank b.blank c.blank lastTotal =
      (readSinceAmid a b c lastTotal).map fun p => (blankBytes p.1, p.2) := by
  unfold readSinceAmid
  rw [dump_blank]
  change (a.readSnapshot.bind _) = _
  cases a.readSnapshot with
  | none => rfl
  | some p =>
    obtain ⟨writePos, total⟩ := p
    simp only [Option.bind_eq_bind, Option.bind_some, SharedRingBuffer.blank, slice_blank]
    split
    · rfl
    · split
      · cases b.dump <;> rfl
      · split <;> split
        · rfl
        · rw [← blankBytes_append]
          rfl
        · rfl
        · rw [← blankBytes_append]
          rfl

private theorem undisturbed_blank (r : SharedRingBuffer) (k lastTotal : Nat)
    (first second : State Empty) :
    r.blank.Undisturbed k lastTotal first.blank second.blank ↔
      r.Undisturbed k lastTotal first second := by
  simp only [Undisturbed, State.blank, List.length_map]
  rfl

/-- Zero for the bytes of the first `k` writes, one for those of all later writes. -/
def dyeFrom (k n : Nat) : UInt8 := if n < k then 0 else 1

private theorem mem_slice {cells : List UInt8} {i n j : Nat} {a : UInt8} (hj : i ≤ j)
    (hlt : j < i + n)
    (h : cells[j]? = some a) : a ∈ slice cells i n := by
  have hcell : (slice cells i n)[j - i]? = some a := by
    rw [slice, List.getElem?_take_of_lt (by omega), List.getElem?_drop, Nat.add_sub_cancel' hj, h]
  exact List.mem_of_getElem? hcell

/-- A cell touched since boundary `k` shows it. -/
theorem State.Dyed.touched {s : State Empty} {k : Nat} (h : s.Dyed (dyeFrom k))
    {slices : List (Nat × Nat)} (htouched : ¬s.Untouched k slices) :
    ∃ x ∈ slices, 1 ∈ slice s.ring.data x.1 x.2 := by
  simp only [State.Untouched, not_forall, not_not] at htouched
  obtain ⟨x, hx, c, hc, hk, j, hj, hlt, hcovers⟩ := htouched
  obtain ⟨n, hn, hcell⟩ := h.cells c hc j hcovers
  rw [dyeFrom, if_neg (by omega)] at hcell
  exact ⟨x, hx, mem_slice hj hlt hcell⟩

/-- What has been written since boundary `k` is the end of the stream. -/
theorem State.Dyed.newest {s : State Empty} {k : Nat} (h : s.Dyed (dyeFrom k)) (hw : WriterInv r s)
    (hk : k < s.blocks.length) {bytes : List UInt8} (hbytes : bytes <:+ S ++ s.blocks.flatten)
    (hne : bytes ≠ []) : 1 ∈ bytes := by
  have hblocks : s.blocks ≠ [] := by
    intro hnil
    rw [hnil] at hk
    exact Nat.not_lt_zero k hk
  have hlast := hw.nonempty _ (List.getLast_mem hblocks)
  have hnew : (s.blocks.getLast hblocks).getLast hlast = 1 := by
    have hdyed := h.blocks (s.blocks.length - 1) (s.blocks.getLast hblocks)
      (by rw [List.getLast_eq_getElem, List.getElem?_eq_getElem]) _ (List.getLast_mem hlast)
    rwa [dyeFrom, if_neg (by omega)] at hdyed
  have hsplit : S ++ s.blocks.flatten =
      (S ++ s.blocks.dropLast.flatten) ++ s.blocks.getLast hblocks := by
    conv_lhs => rw [← List.dropLast_concat_getLast hblocks]
    rw [List.flatten_append, List.flatten_singleton, List.append_assoc]
  rw [hsplit] at hbytes
  have hend := hbytes.getLast hne
  rw [List.getLast_append_of_ne_nil _ hlast, hnew] at hend
  rw [← hend]
  exact List.getLast_mem hne

/-- Where something that is handed out has been touched, later bytes are handed out. -/
theorem Moments.disturbed (hm : Moments r s₀ s₁ s₂) (hr : r.AtRest S) {data : List UInt8}
    {total : Nat} (hread : readSinceAmid s₀.ring s₁.ring s₂.ring lastTotal = some (data, total))
    (hd₁ : s₁.Dyed (dyeFrom s₀.blocks.length)) (hd₂ : s₂.Dyed (dyeFrom s₀.blocks.length))
    (hnot : ¬s₀.ring.Undisturbed s₀.blocks.length lastTotal s₁ s₂) : 1 ∈ data := by
  obtain ⟨c, hrest, _, _, hring, hmagic₁, _⟩ := hm.boundary hr (readSinceAmid_even hread)
  rw [hring] at hread hnot
  change readSinceAmid c _ _ _ = _ at hread
  change ¬c.Undisturbed _ _ _ _ at hnot
  unfold Undisturbed at hnot
  dsimp only at hnot
  rcases Nat.lt_or_ge lastTotal c.totalWritten with hnew | hold
  · rw [if_neg (Nat.not_le.mpr hnew)] at hnot
    rcases Nat.lt_or_ge (c.totalWritten - lastTotal) c.capacity with hlt | hover
    · -- the normal branch
      rw [if_neg (Nat.not_le.mpr hlt)] at hnot
      rw [hrest.readSinceAmid_normal _ _ hnew hlt, Option.some.injEq, Prod.mk.injEq] at hread
      obtain ⟨rfl, rfl⟩ := hread
      rw [List.mem_append]
      rcases not_and_or.mp hnot with hfirst | hsecond
      · obtain ⟨x, hx, hone⟩ := hd₁.touched hfirst
        rw [List.mem_singleton.mp hx] at hone
        exact .inl hone
      · obtain ⟨x, hx, hone⟩ := hd₂.touched hsecond
        rw [List.mem_singleton.mp hx] at hone
        exact .inr hone
    · -- the overrun branch
      rw [if_pos hover] at hnot
      obtain ⟨hsome, hlater⟩ := not_or.mp hnot
      rw [readSinceAmid_over _ _ hrest.even hnew hover] at hread
      obtain ⟨bytes, hdump, hpair⟩ := Option.map_eq_some_iff.mp hread
      obtain ⟨rfl, rfl⟩ := Prod.mk.inj hpair
      have hmagic := hmagic₁.trans hrest.magic
      have heven₁ := dump_even hmagic hdump
      rw [dump_of_even hmagic heven₁, Option.some.injEq] at hdump
      by_cases huntouched : s₁.Untouched s₀.blocks.length (dumpSlices s₁.ring.capacity
          s₁.ring.writePos s₁.ring.totalWritten)
      · -- the slices stand as they stood at a later boundary
        have hk : s₀.blocks.length < s₁.blocks.length := by
          obtain ⟨more, hb⟩ := hm.later
          have hne : s₁.blocks.length ≠ s₀.blocks.length := fun heq => hlater ⟨heq, huntouched⟩
          rw [hb, List.length_append] at hne ⊢
          omega
        obtain ⟨hrest₁, _⟩ := hm.first.after hr s₁.blocks.length
        rw [List.take_length] at hrest₁
        have hbound₁ := hm.first.at_boundary hr heven₁
        have hsince : s₁.Untouched s₁.blocks.length (dumpSlices s₁.ring.capacity s₁.ring.writePos
            s₁.ring.totalWritten) := fun x hx y hy hle =>
          huntouched x hx y hy ((Nat.le_of_lt hk).trans hle)
        have hslices := hsince.slice_eq hm.first (Nat.le_refl _)
        rw [List.flatMap_congr hslices] at hdump
        have hmapped := hrest₁.slices_mapped
        have hends := hrest₁.dump_suffix (dump_of_even hrest₁.magic hrest₁.even)
        rw [hbound₁] at hdump hsome
        rw [hdump] at hends
        refine hd₁.newest hm.first hk hends fun hnil => ?_
        rw [hnil, List.flatMap_eq_nil_iff] at hdump
        refine hsome fun x hx => ?_
        have hlength := slice_length (hmapped x hx)
        rw [hdump x hx] at hlength
        exact hlength.symm
      · obtain ⟨x, hx, hone⟩ := hd₁.touched huntouched
        rw [← hdump]
        exact List.mem_flatMap.mpr ⟨x, hx, hone⟩
  · rw [if_pos hold] at hnot
    exact absurd trivial hnot

/-! ## Runs -/

/-- The writer's steps keep its invariant and add blocks. -/
theorem WriterInv.exec {s t : State Empty} {ring : SharedRingBuffer} (h : WriterInv r s)
    {es : List (Label Empty)} (he : (ringSystem Empty ring).exec s es = some t) :
    WriterInv r t ∧ ∃ more, t.blocks = s.blocks ++ more := by
  induction es generalizing s with
  | nil =>
    cases he
    exact ⟨h, [], (List.append_nil _).symm⟩
  | cons e es ih =>
    obtain ⟨s', hs', ht⟩ := Option.bind_eq_some_iff.mp he
    obtain ⟨hinv, more, hmore⟩ := ih (h.step hs') ht
    have hfirst : ∃ first, s'.blocks = s.blocks ++ first := by
      cases e with
      | write data =>
        simp only [ringSystem, State.step] at hs'
        split at hs'
        · cases hs'
        · split at hs' <;> cases hs' <;> exact ⟨[], (List.append_nil _).symm⟩
      | writer =>
        simp only [ringSystem, State.step] at hs'
        split at hs'
        · cases hs'
        · cases hs'
          exact ⟨_, rfl⟩
      | call i _ => exact i.elim
      | reader i => exact i.elim
    obtain ⟨first, hfirst⟩ := hfirst
    exact ⟨hinv, first ++ more, by rw [hmore, hfirst, List.append_assoc]⟩

private theorem WriterInv.moments {s t₀ t₁ t₂ : State Empty} {ring : SharedRingBuffer}
    (h : WriterInv r s) {es₀ es₁ es₂ : List (Label Empty)}
    (h₀ : (ringSystem Empty ring).exec s es₀ = some t₀)
    (h₁ : (ringSystem Empty ring).exec t₀ es₁ = some t₁)
    (h₂ : (ringSystem Empty ring).exec t₁ es₂ = some t₂) : Moments r t₀ t₁ t₂ := by
  obtain ⟨hinv₀, _⟩ := h.exec h₀
  obtain ⟨hinv₁, hlater⟩ := hinv₀.exec h₁
  obtain ⟨hinv₂, hlatest⟩ := hinv₁.exec h₂
  exact ⟨hinv₀, hinv₁, hinv₂, hlater, hlatest⟩

private theorem Schedule.run_eq_some {schedule : Schedule} {ring₀ : SharedRingBuffer}
    {t₀ t₁ t₂ : State Empty} :
    schedule.run ring₀ = some (t₀, t₁, t₂) ↔
      ∃ ring, schedule.calls.foldlM Call.run ring₀ = some ring ∧
        (ringSystem Empty ring).exec (.initial Empty ring) schedule.toSnapshot = some t₀ ∧
        (ringSystem Empty ring).exec t₀ schedule.toFirst = some t₁ ∧
        (ringSystem Empty ring).exec t₁ schedule.toSecond = some t₂ := by
  simp only [Schedule.run, Option.bind_eq_bind, Option.bind_eq_some_iff, Option.pure_def,
    Option.some.injEq, Prod.mk.injEq]
  constructor
  · rintro ⟨ring, hring, u₀, h₀, u₁, h₁, u₂, h₂, rfl, rfl, rfl⟩
    exact ⟨ring, hring, h₀, h₁, h₂⟩
  · rintro ⟨ring, hring, h₀, h₁, h₂⟩
    exact ⟨ring, hring, t₀, h₀, t₁, h₁, t₂, h₂, rfl, rfl, rfl⟩

/-- A reader that polls with the totals it is given, while the writer runs. -/
structure Round where
  toSnapshot : List (Label Empty)
  toFirst : List (Label Empty)
  toSecond : List (Label Empty)

def pollAmid (ring : SharedRingBuffer) (s : State Empty) (lastTotal : Nat) :
    List Round → Option (List UInt8 × State Empty)
  | [] => some ([], s)
  | round :: rest => do
    let snapshot ← (ringSystem Empty ring).exec s round.toSnapshot
    let first ← (ringSystem Empty ring).exec snapshot round.toFirst
    let second ← (ringSystem Empty ring).exec first round.toSecond
    let (block, total) ← readSinceAmid snapshot.ring first.ring second.ring lastTotal
    let (more, last) ← pollAmid ring second total rest
    return (block ++ more, last)

/-- No call of the polling reader is disturbed. -/
def PollUndisturbed (ring : SharedRingBuffer) (s : State Empty) (lastTotal : Nat) :
    List Round → Prop
  | [] => True
  | round :: rest =>
    ∀ snapshot first second, (ringSystem Empty ring).exec s round.toSnapshot = some snapshot →
      (ringSystem Empty ring).exec snapshot round.toFirst = some first →
      (ringSystem Empty ring).exec first round.toSecond = some second →
      snapshot.ring.Undisturbed snapshot.blocks.length lastTotal first second ∧
        PollUndisturbed ring second snapshot.ring.totalWritten rest

private theorem suffix_drop {data : List UInt8} {n : Nat} (h : data <:+ S)
    (hlen : data.length ≤ S.length - n) : data <:+ S.drop n := by
  rcases Nat.lt_or_ge S.length n with hlt | hge
  · have hnil : data = [] := List.eq_nil_of_length_eq_zero (by omega)
    rw [hnil]
    exact List.nil_suffix
  · have hle := h.length_le
    have hsplit : data = (S.drop n).drop (S.length - data.length - n) := by
      rw [List.drop_drop, show n + (S.length - data.length - n) = S.length - data.length by omega]
      exact List.suffix_iff_eq_drop.mp h
    rw [hsplit]
    exact List.drop_suffix _ _

/-- Such a reader gets bytes of the stream from byte `n` on, in their order and none twice, where its
cursor stands for `n` bytes. -/
theorem WriterInv.pollAmid {ring : SharedRingBuffer} {s t : State Empty} (hr : r.AtRest S)
    (h : WriterInv r s) {n : Nat} (hn : n ≤ (S ++ s.blocks.flatten).length)
    (hcursor : ∀ m, (S ++ s.blocks.flatten).length ≤ m → m % 2 ^ 64 - lastTotal ≤ m - n)
    {rounds : List Round} {received : List UInt8}
    (hpoll : ring.pollAmid s lastTotal rounds = some (received, t))
    (hall : ring.PollUndisturbed s lastTotal rounds) :
    (∃ more, t.blocks = s.blocks ++ more) ∧
      received.Sublist ((S ++ t.blocks.flatten).drop n) := by
  induction rounds generalizing s lastTotal n received with
  | nil =>
    cases hpoll
    exact ⟨⟨[], (List.append_nil _).symm⟩, List.nil_sublist _⟩
  | cons round rest ih =>
    simp only [SharedRingBuffer.pollAmid, Option.bind_eq_bind, Option.bind_eq_some_iff] at hpoll
    obtain ⟨t₀, h₀, t₁, h₁, t₂, h₂, ⟨block, total⟩, hread, ⟨more, u⟩, hmore, hreceived⟩ := hpoll
    cases hreceived
    have hm := h.moments h₀ h₁ h₂
    obtain ⟨hund, hrest⟩ := hall _ _ _ h₀ h₁ h₂
    obtain ⟨htotal, hlen, hends⟩ := hm.readSince hr hread
    obtain ⟨_, before, hbefore⟩ := h.exec h₀
    obtain ⟨later, hlater⟩ := hm.later
    obtain ⟨latest, hlatest⟩ := hm.latest
    rw [hm.totalWritten hr (readSinceAmid_even hread), ← htotal] at hrest
    have hgrown : (S ++ s.blocks.flatten).length ≤ (S ++ t₀.blocks.flatten).length := by
      rw [hbefore, List.flatten_append]
      simp only [List.length_append]
      omega
    have hsecond : S ++ t₂.blocks.flatten =
        (S ++ t₀.blocks.flatten) ++ (later ++ latest).flatten := by
      rw [hlatest, hlater, List.append_assoc, List.flatten_append, List.append_assoc]
    have hprefix : (S ++ t₀.blocks.flatten).length ≤ (S ++ t₂.blocks.flatten).length := by
      rw [hsecond]
      exact (List.prefix_append _ _).length_le
    obtain ⟨⟨final, hfinal⟩, hsub⟩ := ih hm.second (n := (S ++ t₀.blocks.flatten).length)
      hprefix (fun m hlarge => by omega) hmore hrest
    refine ⟨⟨before ++ (later ++ (latest ++ final)), ?_⟩, ?_⟩
    · rw [hfinal, hlatest, hlater, hbefore]
      simp only [List.append_assoc]
    · have hend : S ++ u.blocks.flatten =
          (S ++ t₀.blocks.flatten) ++ ((later ++ latest).flatten ++ final.flatten) := by
        rw [hfinal, List.flatten_append, ← List.append_assoc, hsecond, List.append_assoc]
      rw [hend, List.drop_left] at hsub
      rw [hend, List.drop_append_of_le_length (by omega)]
      refine (suffix_drop (hends hund) (hlen.trans ?_)).sublist.append hsub
      rw [htotal]
      exact hcursor _ hgrown

/-- Every schedule of the same shape runs to the same three moments, other bytes apart. -/
theorem Schedule.run_of_blank {schedule other : Schedule} {ring₀ : SharedRingBuffer}
    (hsame : other.blank = schedule.blank)
    (hrun : schedule.run ring₀ = some (s₀, s₁, s₂)) :
    ∃ t₀ t₁ t₂, other.run ring₀ = some (t₀, t₁, t₂) ∧ t₀.blank = s₀.blank ∧
      t₁.blank = s₁.blank ∧ t₂.blank = s₂.blank := by
  obtain ⟨ring, hring, h₀, h₁, h₂⟩ := Schedule.run_eq_some.mp hrun
  have hcalls := ring₀.calls_blank other.calls
  have hcalls' := ring₀.calls_blank schedule.calls
  have hmap : other.calls.map Call.blank = schedule.calls.map Call.blank :=
    congrArg Schedule.calls hsame
  rw [hmap, ← hcalls', hring] at hcalls
  obtain ⟨ring', hring', hringBlank⟩ := Option.map_eq_some_iff.mp hcalls
  have hinitial : (State.initial Empty ring').blank = (State.initial Empty ring).blank := by
    simp only [State.blank, State.initial, hringBlank]
  obtain ⟨t₀, ht₀, hb₀⟩ := exec_of_blank hinitial (congrArg Schedule.toSnapshot hsame) h₀
  obtain ⟨t₁, ht₁, hb₁⟩ := exec_of_blank hb₀ (congrArg Schedule.toFirst hsame) h₁
  obtain ⟨t₂, ht₂, hb₂⟩ := exec_of_blank hb₁ (congrArg Schedule.toSecond hsame) h₂
  exact ⟨t₀, t₁, t₂, Schedule.run_eq_some.mpr ⟨ring', hring', ht₀, ht₁, ht₂⟩, hb₀, hb₁, hb₂⟩

private theorem mem_blank_stream {cs : List Call} (hS : ∀ x ∈ S, x = 0) {x : UInt8}
    (hx : x ∈ (cs.map Call.blank).foldl Call.stream S) : x = 0 := by
  induction cs generalizing S with
  | nil => exact hS x hx
  | cons c cs ih =>
    refine ih ?_ hx
    cases c with
    | write data =>
      intro y hy
      rcases List.mem_append.mp hy with hy | hy
      · exact hS y hy
      · exact mem_blankBytes hy
    | clear => exact fun _ h => nomatch h

/-- One of these schedules has zeros for all that is complete at the snapshot and ones for all that is
written later. -/
theorem Schedule.run_dyed {schedule : Schedule} {ring₀ : SharedRingBuffer}
    (hblank : ring₀.blank = ring₀)
    (hrun : schedule.run ring₀ = some (s₀, s₁, s₂)) :
    ∃ (other : Schedule) (t₀ t₁ t₂ : State Empty), other.blank = schedule.blank ∧
      other.run ring₀ = some (t₀, t₁, t₂) ∧ t₀.blank = s₀.blank ∧ t₁.blank = s₁.blank ∧
      t₂.blank = s₂.blank ∧ (∀ x ∈ other.stream t₀, x = 0) ∧
      t₁.Dyed (dyeFrom t₀.blocks.length) ∧ t₂.Dyed (dyeFrom t₀.blocks.length) := by
  obtain ⟨ring, hring, h₀, h₁, h₂⟩ := Schedule.run_eq_some.mp hrun
  have hcalls := ring₀.calls_blank schedule.calls
  rw [hring, hblank] at hcalls
  have hinitial : (State.initial Empty ring.blank).blank = (State.initial Empty ring).blank := by
    simp only [State.blank, State.initial, SharedRingBuffer.blank, blankBytes_blankBytes]
  obtain ⟨es₀, t₀, hes₀, ht₀, hb₀, hd₀⟩ :=
    exec_dyed (dyeFrom s₀.blocks.length) ring.blank hinitial (.initial _ _) h₀
  obtain ⟨es₁, t₁, hes₁, ht₁, hb₁, hd₁⟩ :=
    exec_dyed (dyeFrom s₀.blocks.length) ring.blank hb₀ hd₀ h₁
  obtain ⟨es₂, t₂, hes₂, ht₂, hb₂, hd₂⟩ :=
    exec_dyed (dyeFrom s₀.blocks.length) ring.blank hb₁ hd₁ h₂
  have hlength : t₀.blocks.length = s₀.blocks.length := by
    have hmap := congrArg (fun s => (State.blocks s).length) hb₀
    simpa only [State.blank, List.length_map] using hmap
  rw [← hlength] at hd₀ hd₁ hd₂
  refine ⟨⟨schedule.calls.map Call.blank, es₀, es₁, es₂⟩, t₀, t₁, t₂, ?_,
    Schedule.run_eq_some.mpr ⟨ring.blank, hcalls.symm, ht₀, ht₁, ht₂⟩, hb₀, hb₁, hb₂, ?_, hd₁, hd₂⟩
  · have htwice : Call.blank ∘ Call.blank = Call.blank := by
      funext c
      cases c <;> simp [Call.blank]
    simp only [Schedule.blank, List.map_map, htwice, hes₀, hes₁, hes₂]
  · intro x hx
    rcases List.mem_append.mp hx with hx | hx
    · exact mem_blank_stream (S := []) (fun _ h => absurd h List.not_mem_nil) hx
    · obtain ⟨b, hb, hx⟩ := List.mem_flatten.mp hx
      obtain ⟨n, hn, hget⟩ := List.getElem_of_mem hb
      have hdyed := hd₀.blocks n b (by rw [List.getElem?_eq_getElem hn, hget]) x hx
      rwa [dyeFrom, if_pos hn] at hdyed

private theorem create_blank {page : PageSize} {capacity : Nat} {ring₀ : SharedRingBuffer}
    (hr : create page capacity = some ring₀) : ring₀.blank = ring₀ := by
  rw [(create_eq_some hr).2.2, SharedRingBuffer.blank, blankBytes_replicate]

/-- Whether a call is disturbed does not depend on the bytes. -/
theorem undisturbed_of_blank {t₀ t₁ t₂ : State Empty} (h₀ : t₀.blank = s₀.blank)
    (h₁ : t₁.blank = s₁.blank) (h₂ : t₂.blank = s₂.blank) :
    t₀.ring.Undisturbed t₀.blocks.length lastTotal t₁ t₂ ↔
      s₀.ring.Undisturbed s₀.blocks.length lastTotal s₁ s₂ := by
  have hring : t₀.ring.blank = s₀.ring.blank := congrArg State.ring h₀
  have hlength : t₀.blocks.length = s₀.blocks.length := by
    have hmap := congrArg (fun s => (State.blocks s).length) h₀
    simpa only [State.blank, List.length_map] using hmap
  rw [← undisturbed_blank, hring, hlength, h₁, h₂, undisturbed_blank]

/-- Neither does whether it returns. -/
theorem readSinceAmid_of_blank {t₀ t₁ t₂ : State Empty} (h₀ : t₀.blank = s₀.blank)
    (h₁ : t₁.blank = s₁.blank) (h₂ : t₂.blank = s₂.blank) {result : List UInt8 × Nat}
    (hread : readSinceAmid s₀.ring s₁.ring s₂.ring lastTotal = some result) :
    ∃ data total, readSinceAmid t₀.ring t₁.ring t₂.ring lastTotal = some (data, total) := by
  have hblank := readSinceAmid_blank s₀.ring s₁.ring s₂.ring lastTotal
  have hring₀ : t₀.ring.blank = s₀.ring.blank := congrArg State.ring h₀
  have hring₁ : t₁.ring.blank = s₁.ring.blank := congrArg State.ring h₁
  have hring₂ : t₂.ring.blank = s₂.ring.blank := congrArg State.ring h₂
  rw [← hring₀, ← hring₁, ← hring₂, readSinceAmid_blank, hread] at hblank
  obtain ⟨⟨data, total⟩, hdata, _⟩ := Option.map_eq_some_iff.mp hblank
  exact ⟨data, total, hdata⟩

/-- For every ring, every interleaving of writes and every cursor: whatever the bytes are, the data
returned ends at the total returned, just when none of it is touched by a write that was incomplete
at the snapshot. A polling reader none of whose calls is disturbed gets no byte twice. -/
theorem readSince_boundary_iff {page : PageSize} {capacity : Nat} {ring₀ : SharedRingBuffer}
    (hr : create page capacity = some ring₀) {schedule : Schedule}
    (hrun : schedule.run ring₀ = some (s₀, s₁, s₂)) {result : List UInt8 × Nat}
    (hread : readSinceAmid s₀.ring s₁.ring s₂.ring lastTotal = some result) :
    ((∀ other : Schedule, other.blank = schedule.blank → ∃ t₀ t₁ t₂ data total,
        other.run ring₀ = some (t₀, t₁, t₂) ∧
        readSinceAmid t₀.ring t₁.ring t₂.ring lastTotal = some (data, total) ∧
        total = (other.stream t₀).length % 2 ^ 64 ∧ data.length ≤ total - lastTotal ∧
        data <:+ other.stream t₀) ↔
      s₀.ring.Undisturbed s₀.blocks.length lastTotal s₁ s₂) ∧
    ∀ ring, schedule.calls.foldlM Call.run ring₀ = some ring →
      ∀ (cursor : Nat) (rounds : List Round) (received : List UInt8) (t : State Empty),
        ring.pollAmid (.initial Empty ring) cursor rounds = some (received, t) →
        ring.PollUndisturbed (.initial Empty ring) cursor rounds →
        received.Sublist (schedule.calls.foldl Call.stream [] ++ t.blocks.flatten) := by
  have hnew := create_atRest hr
  have hzero := create_blank hr
  refine ⟨⟨fun hall => ?_, fun hund other hsame => ?_⟩, ?_⟩
  · by_contra hnot
    obtain ⟨other, t₀, t₁, t₂, hsame, hother, hb₀, hb₁, hb₂, hold, hd₁, hd₂⟩ :=
      Schedule.run_dyed hzero hrun
    obtain ⟨u₀, u₁, u₂, data, total, hother', hread', _, _, hends⟩ := hall other hsame
    rw [hother] at hother'
    cases hother'
    obtain ⟨ring, hring, h₀, h₁, h₂⟩ := Schedule.run_eq_some.mp hother
    have hm := (WriterInv.initial (ι := Empty) ring).moments h₀ h₁ h₂
    have hdisturbed := mt (undisturbed_of_blank hb₀ hb₁ hb₂).mp hnot
    have hone := hm.disturbed (hnew.calls hring).1 hread' hd₁ hd₂ hdisturbed
    exact absurd (hold 1 (hends.subset hone)) (by decide)
  · obtain ⟨t₀, t₁, t₂, hother, hb₀, hb₁, hb₂⟩ := Schedule.run_of_blank hsame hrun
    obtain ⟨data, total, hdata⟩ := readSinceAmid_of_blank hb₀ hb₁ hb₂ hread
    obtain ⟨ring, hring, h₀, h₁, h₂⟩ := Schedule.run_eq_some.mp hother
    have hm := (WriterInv.initial (ι := Empty) ring).moments h₀ h₁ h₂
    obtain ⟨htotal, hlen, hends⟩ := hm.readSince (hnew.calls hring).1 hdata
    exact ⟨t₀, t₁, t₂, data, total, hother, hdata, htotal, hlen,
      hends ((undisturbed_of_blank hb₀ hb₁ hb₂).mpr hund)⟩
  · intro ring hring cursor rounds received t hpoll hall
    have hpolled := (WriterInv.initial (ι := Empty) ring).pollAmid (hnew.calls hring).1
      (n := 0) (Nat.zero_le _) (fun m _ => by omega) hpoll hall
    exact hpolled.2

/-- The byte that is new is not touched by a write that has copied its own before the snapshot. -/
theorem readSince_boundary_behind :
    ∃ s₀ s₁ s₂ data total,
      Schedule.run ⟨[.write [1, 2]], [.write [3], .writer, .writer, .writer],
        List.replicate 4 .writer, []⟩ ⟨shmMagic, 4, 0, 0, 0, [0, 0, 0, 0]⟩ = some (s₀, s₁, s₂) ∧
      readSinceAmid s₀.ring s₁.ring s₂.ring 1 = some (data, total) ∧ total = 2 ∧
      data <:+ [1, 2] := by
  let schedule : Schedule := ⟨[.write [1, 2]], [.write [3], .writer, .writer, .writer],
    List.replicate 4 .writer, []⟩
  have hr : create page4096 4 = some ⟨shmMagic, 4, 0, 0, 0, [0, 0, 0, 0]⟩ := by decide
  have hrun : ∃ s₀ s₁ s₂, schedule.run ⟨shmMagic, 4, 0, 0, 0, [0, 0, 0, 0]⟩ = some (s₀, s₁, s₂) ∧
      readSinceAmid s₀.ring s₁.ring s₂.ring 1 = some ([2], 2) ∧
      s₀.ring.Undisturbed s₀.blocks.length 1 s₁ s₂ ∧ schedule.stream s₀ = [1, 2] :=
    ⟨_, _, _, rfl, rfl, by decide, rfl⟩
  obtain ⟨s₀, s₁, s₂, hrun, hread, hund, hstream⟩ := hrun
  obtain ⟨t₀, t₁, t₂, data, total, hother, hdata, htotal, _, hends⟩ :=
    (readSince_boundary_iff hr hrun hread).1.mpr hund schedule rfl
  rw [hrun] at hother
  cases hother
  rw [hstream] at htotal hends
  exact ⟨s₀, s₁, s₂, data, total, hrun, hdata, htotal, hends⟩

/-- Four bytes are new in a ring of four cells, and one more is written before the nested dump. -/
theorem readSince_overrun :
    ∃ r s₀ s₁ s₂, create page4096 4 = some r ∧
      Schedule.run ⟨[.write [1, 2, 3, 4]], [], .write [5] :: List.replicate 7 .writer, []⟩ r =
        some (s₀, s₁, s₂) ∧
      readSinceAmid s₀.ring s₁.ring s₂.ring 0 = some ([2, 3, 4, 5], 4) ∧
      ¬ [2, 3, 4, 5] <:+ [1, 2, 3, 4] ∧ s₁.ring.readSince 4 = some ([5], 5) :=
  ⟨⟨shmMagic, 4, 0, 0, 0, [0, 0, 0, 0]⟩, _, _, _, by decide, rfl, rfl, by decide, rfl⟩

end SharedRingBuffer

end PtyDaemon
