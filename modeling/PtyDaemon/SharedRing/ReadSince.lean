import PtyDaemon.SharedRing.Contents

/-!
# Incremental reads

`read_since` rebuilds the start index from the write position and the number of new bytes.
Between writes it returns the new bytes that are still stored; a reader that hands each
returned total to its next call therefore sees the stream without the bytes that were
overwritten before it came back.
-/

namespace PtyDaemon

open Circular

namespace SharedRingBuffer

private theorem drop_eq_rtake {S : List UInt8} {last n : Nat} (h : last + n = S.length) :
    S.drop last = S.rtake n := by
  rw [List.rtake]
  congr 1
  omega

/-- The normal branch: fewer new bytes than the ring holds. -/
theorem Holds.newSlices {r : SharedRingBuffer} {S : List UInt8} (h : r.Holds S) {n : Nat}
    (hn : n < r.capacity) (hS : n ≤ S.length) :
    let start := if n ≤ r.writePos then r.writePos - n else wrapSub r.capacity (n - r.writePos)
    (if wrapAdd start n ≤ r.capacity then slice r.data start n
      else slice r.data start (wrapSub r.capacity start) ++
        slice r.data 0 (n - wrapSub r.capacity start)) = S.rtake n := by
  have hp := h.writePos_le
  have hsmall := h.small
  intro start
  rcases Nat.lt_or_ge r.writePos n with hlt | hge
  · have hstart : start = r.capacity - (n - r.writePos) := by
      simp only [start, if_neg (Nat.not_le.mpr hlt)]
      exact wrapSub_of_le (by omega)
    have hfirst : wrapSub r.capacity start = n - r.writePos := by
      rw [wrapSub_of_le (by omega)]
      omega
    have hwrap := h.layout.slice_wrap hlt (Nat.le_of_lt hn) hS
    rw [wrapAdd_of_lt (by omega), hfirst, hstart]
    split
    · -- the position is zero, so the bytes end at the end of the data area
      have hzero : r.writePos = 0 := by omega
      rw [hzero] at hwrap ⊢
      simpa [slice] using hwrap
    · rw [← hwrap]
      congr 2
      omega
  · have hstart : start = r.writePos - n := by simp only [start, if_pos hge]
    rw [hstart, wrapAdd_of_lt (by omega), if_pos (by omega)]
    exact h.layout.slice_within hge

/-- What `read_since` returns between writes. -/
theorem Holds.readSince {r : SharedRingBuffer} {S : List UInt8} (h : r.Holds S)
    (hS : S.length < 2 ^ 64) (last : Nat) :
    r.readSince last =
      some (if last < S.length then (S.drop (max last (S.length - r.capacity)), S.length)
        else ([], S.length)) := by
  rw [SharedRingBuffer.readSince, h.readSnapshot]
  simp only [Option.bind_eq_bind, Option.bind_some, h.total_eq hS]
  rcases Nat.lt_or_ge last S.length with hlast | hlast
  · rw [if_neg (by omega), if_pos hlast]
    rcases Nat.lt_or_ge (S.length - last) r.capacity with hnew | hover
    · have hslices := h.newSlices hnew (Nat.sub_le _ _)
      have hdrop : S.drop (max last (S.length - r.capacity)) = S.rtake (S.length - last) := by
        rw [max_eq_left (by omega)]
        exact drop_eq_rtake (by omega)
      rw [if_neg (Nat.not_le.mpr hnew), hdrop, ← hslices]
      split <;> split <;> rfl
    · rw [if_pos hover, h.dump hS, max_eq_right (by omega)]
      rfl
  · rw [if_pos hlast, if_neg (by omega)]
    rfl

/-- The same where the ring is longer than its mapping. -/
theorem Front.readSince {r : SharedRingBuffer} {S : List UInt8} (h : r.Front S) (last : Nat) :
    r.readSince last =
      some (if last < S.length then (S.drop (max last (S.length - r.capacity)), S.length)
        else ([], S.length)) := by
  have hlonger := h.longer
  have hsmall := h.small
  have hroom := h.room
  have hsnapshot : r.readSnapshot = some (S.length, S.length) := by
    rw [SharedRingBuffer.readSnapshot, if_neg (by simp [h.even]), h.writePos, h.total]
  rw [SharedRingBuffer.readSince, hsnapshot]
  simp only [Option.bind_eq_bind, Option.bind_some]
  rcases Nat.lt_or_ge last S.length with hlast | hlast
  · have hstart : S.length - (S.length - last) = last := by omega
    have hsum : wrapAdd last (S.length - last) = S.length := by
      rw [wrapAdd_of_lt (by omega)]
      omega
    rw [if_neg (by omega), if_neg (by omega), if_pos (Nat.sub_le _ _), hstart, hsum,
      if_pos (by omega), if_pos hlast, max_eq_left (by omega), slice, ← List.drop_take,
      h.stored]
    rfl
  · rw [if_pos hlast, if_neg (by omega)]
    rfl

private theorem AtRest.readSince {r : SharedRingBuffer} {S : List UInt8} (h : r.AtRest S)
    (hS : S.length < 2 ^ 64) (last : Nat) :
    r.readSince last =
      some (if last < S.length then (S.drop (max last (S.length - r.capacity)), S.length)
        else ([], S.length)) := by
  rcases h with h | h
  · exact h.readSince hS last
  · exact h.readSince last

/-- A reader that comes back after each batch of writes with the total it was given last. -/
def poll (r : SharedRingBuffer) (last : Nat) : List (List (List UInt8)) → Option (List UInt8)
  | [] => some []
  | batch :: rest => do
    let ring ← batch.foldlM writeMapped r
    let (block, total) ← ring.readSince last
    let more ← ring.poll total rest
    return block ++ more

/-- The totals the reader finds, starting from `n` bytes. -/
def readTotals (n : Nat) : List (List (List UInt8)) → List Nat
  | [] => []
  | batch :: rest => (n + batch.flatten.length) :: readTotals (n + batch.flatten.length) rest

/-- Byte `i` is still stored when the reader first comes back after it. -/
def stillStored (capacity : Nat) (totals : List Nat) (i : Nat) : Bool :=
  match totals.find? (fun t => i < t) with
  | some t => t ≤ i + capacity
  | none => false

private theorem filter_from (l : List UInt8) (n m : Nat) :
    ((l.zipIdx n).filter (fun p => decide (m ≤ p.2))).map Prod.fst = l.drop (m - n) := by
  induction l generalizing n with
  | nil => simp
  | cons a l ih =>
    rw [List.zipIdx_cons, List.filter_cons]
    by_cases h : m ≤ n
    · rw [if_pos (by simpa using h), List.map_cons, ih, Nat.sub_eq_zero_of_le h,
        Nat.sub_eq_zero_of_le (by omega), List.drop_zero, List.drop_zero]
    · rw [if_neg (by simpa using h), ih, show m - n = (m - (n + 1)) + 1 by omega,
        List.drop_succ_cons]

theorem AtRest.writes {r ring : SharedRingBuffer} {S : List UInt8} (h : r.AtRest S)
    {blocks : List (List UInt8)} (hring : blocks.foldlM SharedRingBuffer.writeMapped r = some ring) :
    ring.AtRest (S ++ blocks.flatten) ∧ ring.capacity = r.capacity := by
  induction blocks generalizing r S with
  | nil =>
    cases hring
    rw [List.flatten_nil, List.append_nil]
    exact ⟨h, rfl⟩
  | cons b bs ih =>
    rw [List.foldlM_cons] at hring
    obtain ⟨r₁, hr₁, hrest⟩ := Option.bind_eq_some_iff.mp hring
    obtain ⟨hb, hcap⟩ := h.writeMapped hr₁
    obtain ⟨hbs, hcap'⟩ := ih hb hrest
    rw [List.append_assoc] at hbs
    exact ⟨hbs, hcap'.trans hcap⟩

/-- The writes go through as long as there is room. -/
theorem Front.writes_iff {r : SharedRingBuffer} {S : List UInt8} (h : r.Front S)
    (blocks : List (List UInt8)) :
    (∃ ring, blocks.foldlM SharedRingBuffer.writeMapped r = some ring) ↔
      S.length + blocks.flatten.length ≤ r.data.length := by
  induction blocks generalizing r S with
  | nil => simpa using h.room
  | cons b bs ih =>
    rw [List.foldlM_cons, h.writeMapped, List.flatten_cons, List.length_append]
    split
    · rename_i hroom
      obtain ⟨hb, hsame⟩ := h.write hroom
      have hbs := ih hb
      rwa [hsame, List.length_append, Nat.add_assoc] at hbs
    · rename_i hover
      constructor
      · rintro ⟨ring, hring⟩
        cases hring
      · intro hroom
        omega

private theorem Holds.writesMapped {r : SharedRingBuffer} {S : List UInt8} (h : r.Holds S)
    (blocks : List (List UInt8)) :
    blocks.foldlM SharedRingBuffer.writeMapped r =
      some (blocks.foldl SharedRingBuffer.write r) := by
  induction blocks generalizing r S with
  | nil => rfl
  | cons b bs ih =>
    rw [List.foldlM_cons, h.writeMapped]
    exact ih (h.write b)

/-- The writes go through just when the sum in `create` has not wrapped or what they write fits into
what is mapped. -/
theorem writes_iff {page : PageSize} {capacity : Nat} {r : SharedRingBuffer}
    (hr : create page capacity = some r) (blocks : List (List UInt8)) :
    (∃ ring, blocks.foldlM writeMapped r = some ring) ↔
      headerSize + capacity < 2 ^ 64 ∨
        blocks.flatten.length ≤ mmapSizeFor page capacity - headerSize := by
  rcases Nat.lt_or_ge (headerSize + capacity) (2 ^ 64) with hfits | hwraps
  · exact iff_of_true ⟨_, (create_holds hr hfits).writesMapped blocks⟩ (.inl hfits)
  · obtain ⟨hfront, hlength⟩ := create_front hr hwraps
    rw [hfront.writes_iff, hlength, List.length_nil, Nat.zero_add]
    exact (or_iff_right (Nat.not_lt_of_le hwraps)).symm

private theorem kept_batch (pre fresh : List UInt8) (capacity : Nat) (totals : List Nat) :
    ((fresh.zipIdx pre.length).filter
        (fun p => stillStored capacity ((pre.length + fresh.length) :: totals) p.2)).map Prod.fst =
      (pre ++ fresh).drop (max pre.length (pre.length + fresh.length - capacity)) := by
  have hfilter : (fresh.zipIdx pre.length).filter
        (fun p => stillStored capacity ((pre.length + fresh.length) :: totals) p.2) =
      (fresh.zipIdx pre.length).filter
        (fun p => decide (pre.length + fresh.length - capacity ≤ p.2)) := by
    apply List.filter_congr
    intro p hp
    have hlt : p.2 < pre.length + fresh.length := List.snd_lt_add_of_mem_zipIdx hp
    simp only [stillStored, List.find?_cons, decide_eq_true hlt]
    apply decide_eq_decide.mpr
    omega
  rw [hfilter, filter_from, List.drop_append, List.drop_eq_nil_of_le (le_max_left _ _),
    List.nil_append]
  congr 1
  omega

private theorem kept_later (later : List UInt8) (n capacity : Nat) (totals : List Nat) :
    (later.zipIdx n).filter (fun p => stillStored capacity (n :: totals) p.2) =
      (later.zipIdx n).filter (fun p => stillStored capacity totals p.2) := by
  apply List.filter_congr
  intro p hp
  have hle : n ≤ p.2 := List.le_snd_of_mem_zipIdx hp
  simp only [stillStored, List.find?_cons, decide_eq_false (Nat.not_lt.mpr hle)]

private theorem AtRest.poll {r ring : SharedRingBuffer} {pre : List UInt8} (h : r.AtRest pre)
    (batches : List (List (List UInt8)))
    (hlen : pre.length + batches.flatten.flatten.length < 2 ^ 64)
    (hring : batches.flatten.foldlM SharedRingBuffer.writeMapped r = some ring) :
    r.poll pre.length batches =
      some (((batches.flatten.flatten.zipIdx pre.length).filter
        (fun p => stillStored r.capacity (readTotals pre.length batches) p.2)).map Prod.fst) := by
  induction batches generalizing r pre with
  | nil => rfl
  | cons batch rest ih =>
    rw [List.flatten_cons, List.foldlM_append] at hring
    obtain ⟨r₁, hr₁, hrest⟩ := Option.bind_eq_some_iff.mp hring
    obtain ⟨hbatch, hcap⟩ := h.writes hr₁
    have hsplit : (batch :: rest).flatten.flatten = batch.flatten ++ rest.flatten.flatten := by
      rw [List.flatten_cons, List.flatten_append]
    rw [hsplit, List.length_append] at hlen
    have htot : (pre ++ batch.flatten).length = pre.length + batch.flatten.length :=
      List.length_append
    have hread : r₁.readSince pre.length =
        some ((pre ++ batch.flatten).drop
          (max pre.length (pre.length + batch.flatten.length - r.capacity)),
          pre.length + batch.flatten.length) := by
      rw [hbatch.readSince (by omega), htot, hcap]
      split
      · rfl
      · rw [List.drop_eq_nil_of_le (by omega)]
    have hmore := ih hbatch (by omega) hrest
    rw [htot, hcap] at hmore
    rw [SharedRingBuffer.poll, hr₁]
    simp only [Option.bind_eq_bind, Option.bind_some, hread, hmore, Option.pure_def,
      Option.some.injEq]
    rw [hsplit, readTotals, List.zipIdx_append, List.filter_append, List.map_append, kept_batch,
      kept_later]

private theorem poll_writes {r : SharedRingBuffer} {last : Nat}
    {batches : List (List (List UInt8))} {bytes : List UInt8}
    (h : r.poll last batches = some bytes) :
    ∃ ring, batches.flatten.foldlM writeMapped r = some ring := by
  induction batches generalizing r last bytes with
  | nil => exact ⟨r, rfl⟩
  | cons batch rest ih =>
    rw [poll] at h
    obtain ⟨r₁, hr₁, h⟩ := Option.bind_eq_some_iff.mp h
    obtain ⟨⟨block, total⟩, _, h⟩ := Option.bind_eq_some_iff.mp h
    obtain ⟨more, hmore, _⟩ := Option.bind_eq_some_iff.mp h
    obtain ⟨ring, hring⟩ := ih hmore
    refine ⟨ring, ?_⟩
    rw [List.flatten_cons, List.foldlM_append, hr₁]
    exact hring

/-- Between writes `read_since` returns the stored bytes after its argument, and polling it returns
the stream without the bytes overwritten before the reader came back, just when the sum in `create`
has not wrapped or the stream fits into what is mapped. -/
theorem readSince_stream_iff {page : PageSize} {capacity : Nat} {r : SharedRingBuffer}
    (hr : create page capacity = some r) :
    (∀ blocks : List (List UInt8), blocks.flatten.length < 2 ^ 64 →
      ((∃ ring, blocks.foldlM writeMapped r = some ring ∧ ∀ last,
        ring.readSince last =
          some (if last < blocks.flatten.length then
              (blocks.flatten.drop (max last (blocks.flatten.length - capacity)),
                blocks.flatten.length)
            else ([], blocks.flatten.length))) ↔
        headerSize + capacity < 2 ^ 64 ∨
          blocks.flatten.length ≤ mmapSizeFor page capacity - headerSize)) ∧
    ∀ batches : List (List (List UInt8)), batches.flatten.flatten.length < 2 ^ 64 →
      (r.poll 0 batches =
        some ((batches.flatten.flatten.zipIdx.filter
          (fun p => stillStored capacity (readTotals 0 batches) p.2)).map Prod.fst) ↔
        headerSize + capacity < 2 ^ 64 ∨
          batches.flatten.flatten.length ≤ mmapSizeFor page capacity - headerSize) := by
  have hnew := create_atRest hr
  have hcap := create_capacity hr
  constructor
  · intro blocks hlen
    rw [← writes_iff hr]
    constructor
    · rintro ⟨ring, hring, _⟩
      exact ⟨ring, hring⟩
    · rintro ⟨ring, hring⟩
      obtain ⟨hrest, hcap'⟩ := hnew.writes hring
      rw [List.nil_append] at hrest
      refine ⟨ring, hring, fun last => ?_⟩
      rw [hrest.readSince hlen, hcap', hcap]
  · intro batches hlen
    rw [← writes_iff hr]
    constructor
    · exact poll_writes
    · rintro ⟨ring, hring⟩
      have hpoll := hnew.poll batches (by simpa using hlen) hring
      rwa [hcap] at hpoll

theorem readSince_stream_iff_overrun :
    poll ⟨shmMagic, 4, 0, 0, 0, [0, 0, 0, 0]⟩ 0 [[[1, 2], [3]], [[4, 5, 6, 7, 8, 9]], [[10]]] =
      some [1, 2, 3, 6, 7, 8, 9, 10] := by
  have hr : create page4096 4 = some ⟨shmMagic, 4, 0, 0, 0, [0, 0, 0, 0]⟩ := by decide
  have h := ((readSince_stream_iff hr).2 [[[1, 2], [3]], [[4, 5, 6, 7, 8, 9]], [[10]]]
    (by decide)).mpr (.inl (by decide))
  rw [h]
  decide

/-- The stream outgrows the page that a ring of `usize::MAX` bytes gets: no read follows. -/
theorem poll_leaves_mapping :
    ∃ r, create page4096 (2 ^ 64 - 1) = some r ∧
      r.poll 0 [[List.replicate 3585 0]] ≠ some (List.replicate 3585 0) := by
  obtain ⟨hsize, r, hr⟩ := create_max
  refine ⟨r, hr, fun hpoll => ?_⟩
  have hfits := (writes_iff hr _).mp (poll_writes hpoll)
  rw [hsize, List.flatten_singleton, List.flatten_singleton, List.length_replicate] at hfits
  revert hfits
  decide

end SharedRingBuffer

end PtyDaemon
