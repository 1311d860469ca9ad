import PtyDaemon.SharedRing.Snapshot

/-!
# Dumps under a running writer

The sequence lock covers the counters only: a chunk is copied before the lock is taken, and
`dump` does not look at the sequence again after copying its slices. A dump is a past state of the
stream as long as none of its slices meets a chunk of a write that was not complete at its
snapshot.
-/

namespace PtyDaemon

open Circular

namespace SharedRingBuffer

variable {ι : Type} {r : SharedRingBuffer} {S : List UInt8}

/-- The total in the header tells as much as the length of the stream does. -/
def TotalTold (capacity n : Nat) : Prop := n < 2 ^ 64 ∨ capacity ≤ n % 2 ^ 64

instance (capacity n : Nat) : Decidable (TotalTold capacity n) :=
  inferInstanceAs (Decidable (_ ∨ _))

/-- The slices of a dump at a boundary make up the end of the stream. -/
theorem Holds.dumpSlices (h : r.Holds S) (htold : TotalTold r.capacity S.length) :
    ((dumpSlices r.capacity r.writePos r.totalWritten).flatMap fun s => slice r.data s.1 s.2) =
      S.rtake r.capacity := by
  have hslices := slices_eq_contents h.layout
  have hfull : r.capacity ≤ r.totalWritten ↔ r.capacity ≤ S.length := by
    rw [h.total]
    rcases htold with ht | ht <;> omega
  rw [SharedRingBuffer.dumpSlices]
  rcases h.layout.bound with hb | ⟨hc, hp⟩
  · rw [if_neg (by omega)]
    by_cases hge : r.capacity ≤ S.length
    · rw [if_pos hge] at hslices
      simp only [if_pos (hfull.mpr hge), if_neg (show ¬r.capacity = 0 by omega)]
      simpa using hslices
    · have htotal : r.totalWritten = S.length := by
        rw [h.total]
        rcases htold with ht | ht <;> omega
      rw [if_neg hge] at hslices
      simp only [htotal, if_neg hge]
      by_cases hzero : S.length = 0
      · rw [if_pos hzero, List.eq_nil_of_length_eq_zero hzero, List.rtake_nil]
        rfl
      · rw [if_neg hzero]
        simpa using hslices
  · rw [if_pos (by omega), hc, List.rtake_zero]
    rfl

private theorem Front.dumpSlices (h : r.Front S) :
    ((dumpSlices r.capacity r.writePos r.totalWritten).flatMap fun s => slice r.data s.1 s.2) =
      S := by
  have hunder : ¬ r.capacity ≤ S.length := Nat.not_le.mpr (h.room.trans_lt h.longer)
  rw [SharedRingBuffer.dumpSlices, h.writePos, h.total, if_neg hunder]
  simp only [if_neg hunder]
  split
  · rename_i hzero
    rw [List.eq_nil_of_length_eq_zero hzero]
    rfl
  · rw [List.flatMap_singleton, slice, List.drop_zero, h.stored]

private theorem AtRest.dumpSlices (h : r.AtRest S) (htold : TotalTold r.capacity S.length) :
    ((dumpSlices r.capacity r.writePos r.totalWritten).flatMap fun s => slice r.data s.1 s.2) =
      S.rtake r.capacity := by
  rcases h with h | h
  · exact h.dumpSlices htold
  · rw [h.dumpSlices, rtake_of_length_le (h.room.trans (Nat.le_of_lt h.longer))]

/-- The step of a reader does not come upon the unprotected copies: the slice it is about to copy
has not been touched by a write that was incomplete at its snapshot, and the counters it is about
to return are neither a whole turn of the sequence old nor wrapped below the capacity. -/
def Reader.Undisturbed (capacity : Nat) (blocks : List (List UInt8)) (copies : List Copied)
    (seenAt : Nat) : Reader → Prop
  | .seq2 _ _ _ _ =>
    blocks.length - seenAt < 2 ^ 63 ∧ TotalTold capacity (blocks.take seenAt).flatten.length
  | .slices ((start, n) :: _) _ =>
    ∀ c ∈ copies, seenAt ≤ c.write → ∀ j, start ≤ j → j < start + n → ¬c.Covers j
  | _ => True

instance (capacity : Nat) (blocks : List (List UInt8)) (copies : List Copied) (seenAt : Nat) :
    ∀ pc : Reader, Decidable (pc.Undisturbed capacity blocks copies seenAt)
  | .idle => .isTrue trivial
  | .magic => .isTrue trivial
  | .seq1 _ => .isTrue trivial
  | .writePos _ _ => .isTrue trivial
  | .totalWritten _ _ _ => .isTrue trivial
  | .seq2 _ _ _ _ => inferInstanceAs (Decidable (_ ∧ _))
  | .slices [] _ => .isTrue trivial
  | .slices ((start, n) :: _) _ =>
    inferInstanceAs (Decidable (∀ c ∈ copies, seenAt ≤ c.write → ∀ j, start ≤ j → j < start + n →
      ¬c.Covers j))

def State.Undisturbed (s : State ι) : Label ι → Prop
  | .reader i => (s.reader i).Undisturbed s.ring.capacity s.blocks s.copies (s.seenAt i)
  | _ => True

instance (s : State ι) : ∀ e : Label ι, Decidable (s.Undisturbed e)
  | .write _ => .isTrue trivial
  | .writer => .isTrue trivial
  | .call _ _ => .isTrue trivial
  | .reader i =>
    inferInstanceAs (Decidable ((s.reader i).Undisturbed s.ring.capacity s.blocks s.copies _))

/-- What a dump has copied, together with what it is still to copy at its boundary. -/
def DumpAt (r : SharedRingBuffer) (s : State ι) (i : ι) : Reader → Prop
  | .slices todo result =>
    s.seenAt i ≤ s.blocks.length ∧
      (result ++ todo.flatMap fun x => slice (r.after s.blocks (s.seenAt i)).data x.1 x.2) =
        (s.blocks.take (s.seenAt i)).flatten.rtake r.capacity
  | _ => True

private theorem DumpAt.grow {s t : State ι} {i : ι} {pc : Reader} (h : DumpAt r s i pc)
    {more : List (List UInt8)} (hblocks : t.blocks = s.blocks ++ more)
    (hseen : t.seenAt i = s.seenAt i) : DumpAt r t i pc := by
  cases pc with
  | slices todo result =>
    obtain ⟨hk, hbytes⟩ := h
    refine ⟨?_, ?_⟩
    · rw [hseen, hblocks, List.length_append]
      exact hk.trans (Nat.le_add_right _ _)
    · rw [hseen, hblocks, after_append r hk, List.take_append_of_le_length hk]
      exact hbytes
  | _ => trivial

variable [DecidableEq ι]

private theorem DumpAt.step {s : State ι} {i : ι} (hr : r.AtRest []) (hw : WriterInv r s)
    (hs : SnapshotInv r s) (hbusy : (s.reader i).atRest = false) (h : DumpAt r s i (s.reader i))
    (hg : s.Undisturbed (.reader i)) :
    DumpAt r (s.readerStep i) i ((s.reader i).step s.ring) := by
  obtain ⟨locked, hat, -⟩ := hw.position
  obtain ⟨hend, hcapEnd⟩ := hw.after hr s.blocks.length
  rw [after_length] at hend hcapEnd
  have hcap : s.ring.capacity = r.capacity := hat.capacity.trans hcapEnd
  have hpair := hs.reader i
  rw [State.Undisturbed] at hg
  cases hpc : s.reader i with
  | idle => trivial
  | magic =>
    have hmagic : s.ring.magic = shmMagic := hat.magic.trans hend.magic
    rw [Reader.step, if_neg (not_not.mpr hmagic)]
    trivial
  | seq1 call =>
    simp only [Reader.step]
    split <;> trivial
  | writePos call s1 => trivial
  | totalWritten call s1 wp => trivial
  | seq2 call s1 wp total =>
    rw [hpc] at hpair hg
    simp only [Reader.step]
    split
    · rename_i heq
      cases call with
      | snapshot => trivial
      | dump =>
        obtain ⟨hwp, htotal⟩ := hpair.confirmed hr hw heq hg.1
        have hseen : (s.readerStep i).seenAt i = s.seenAt i := by
          simp only [State.readerStep, hpc]
        obtain ⟨hrest, hcapk⟩ := hw.after hr (s.seenAt i)
        have htold := hg.2
        rw [hcap, ← hcapk] at htold
        have hbytes := hrest.dumpSlices (by simpa using htold)
        have hnext : DumpAt r s i
            (.slices (SharedRingBuffer.dumpSlices s.ring.capacity wp total) []) := by
          refine ⟨hpair.1.completed, ?_⟩
          rw [List.nil_append, hwp, htotal, hcap, ← hcapk]
          simpa using hbytes
        exact hnext.grow (List.append_nil _).symm hseen
    · trivial
  | slices todo result =>
    rw [hpc] at h hg hbusy
    cases todo with
    | nil => cases hbusy
    | cons x todo =>
      obtain ⟨start, n⟩ := x
      obtain ⟨hk, hbytes⟩ := h
      have hseen : (s.readerStep i).seenAt i = s.seenAt i := by
        simp only [State.readerStep, hpc]
      have hslice : slice s.ring.data start n =
          slice (r.after s.blocks (s.seenAt i)).data start n := by
        apply slice_congr
        intro j hj hj'
        exact hw.untouched _ hk j fun c hc hle => hg c hc hle j hj hj'
      refine ⟨?_, ?_⟩
      · rw [hseen]
        exact hk
      · rw [hseen, hslice, List.append_assoc]
        exact hbytes

private def DumpInv (r : SharedRingBuffer) (s : State ι) : Prop := ∀ i, DumpAt r s i (s.reader i)

private theorem DumpInv.reach {s : State ι} (hr : r.AtRest [])
    (h : (ringSystem ι r).Reach State.Undisturbed s) : DumpInv r s := by
  have hQ : ∀ s, (ringSystem ι r).Reach State.Undisturbed s → WriterInv r s ∧ SnapshotInv r s :=
    fun _ hs => ⟨.reach hs, .reach hr hs⟩
  refine h.invariant_with hQ ?_ ?_
  · rintro s rfl i
    trivial
  · intro s e s' ⟨hw, hsnap⟩ hinv hg hs i
    cases e with
    | write data =>
      simp only [ringSystem, State.step] at hs
      split at hs
      · cases hs
      · split at hs
        · cases hs
          exact hinv i
        · cases hs
          exact (hinv i).grow (List.append_nil _).symm rfl
    | writer =>
      simp only [ringSystem, State.step] at hs
      split at hs
      · cases hs
      · cases hs
        exact (hinv i).grow rfl rfl
    | call j c =>
      simp only [ringSystem, State.step] at hs
      split at hs
      · cases hs
        by_cases hij : i = j
        · rw [hij]
          simp only [Function.update_self]
          cases c <;> trivial
        · simp only [Function.update_of_ne hij]
          exact (hinv i).grow (List.append_nil _).symm rfl
      · cases hs
    | reader j =>
      simp only [ringSystem, State.step] at hs
      split at hs
      · cases hs
      · rename_i hbusy
        cases hs
        by_cases hij : i = j
        · rw [hij]
          have hstep := (hinv j).step hr hw hsnap (by simpa using hbusy) hg
          simpa only [State.readerStep, Function.update_self] using hstep
        · have hrest : (s.readerStep j).reader i = s.reader i := by
            simp only [State.readerStep, Function.update_of_ne hij]
          rw [hrest]
          refine (hinv i).grow (List.append_nil _).symm ?_
          cases hpc : s.reader j <;> simp [State.readerStep, hpc, hij]

/-- In a run whose dumps meet no unprotected copy, every dump that returns is the end of the
stream at a write boundary. -/
theorem dump_pastState {page : PageSize} {capacity : Nat} (hr : create page capacity = some r)
    {s : State ι} (h : (ringSystem ι r).Reach State.Undisturbed s) (i : ι) (bytes : List UInt8)
    (hret : (s.reader i).returned = some bytes) :
    ∃ k, k ≤ s.blocks.length ∧
      let T := (s.blocks.take k).flatten
      bytes = T.rtake (min T.length capacity) := by
  have hcap := create_capacity hr
  have hat := DumpInv.reach (create_atRest hr) h i
  cases hpc : s.reader i with
  | slices todo result =>
    rw [hpc] at hat hret
    cases todo with
    | nil =>
      cases hret
      refine ⟨s.seenAt i, hat.1, ?_⟩
      simp only [rtake_min]
      rw [← hcap, ← hat.2, List.flatMap_nil, List.append_nil]
    | cons x todo => cases hret
  | _ =>
    rw [hpc] at hret
    cases hret

/-- A dump that starts after a write and whose slices come before the next write's copy. -/
theorem dump_pastState_wrapped :
    ∃ s : State Unit, (s.reader ()).returned = some [2, 3] ∧ s.blocks.length = 2 ∧
      ∃ k, k ≤ s.blocks.length ∧
        let T := (s.blocks.take k).flatten
        ([2, 3] : List UInt8) = T.rtake (min T.length 2) := by
  let r : SharedRingBuffer := ⟨shmMagic, 2, 0, 0, 0, [0, 0]⟩
  let labels : List (Label Unit) :=
    [.write [1, 2]] ++ List.replicate 7 .writer ++ [.write [3]] ++ List.replicate 7 .writer ++
      [.call () .dump, .write [4]] ++ List.replicate 6 (.reader ()) ++
      [.writer, .writer, .reader ()]
  have hrun : ((ringSystem Unit r).execWhere State.Undisturbed (State.initial Unit r) labels).map
      (fun s => ((s.reader ()).returned, s.blocks.length)) = some (some [2, 3], 2) := by
    decide +kernel
  obtain ⟨s, hs, hfinal⟩ := Option.map_eq_some_iff.mp hrun
  obtain ⟨hret, hlen⟩ := Prod.mk.inj hfinal
  have hstart : (ringSystem Unit r).Reach State.Undisturbed (State.initial Unit r) := .start rfl
  have hr : create page4096 2 = some r := by decide
  exact ⟨s, hret, hlen, dump_pastState hr (hstart.execWhere hs) () _ hret⟩

/-- A writer that stops between its copy and the lock: the dump puts the new byte first. -/
theorem dump_torn :
    ¬∀ s : State Unit, (ringSystem Unit ⟨shmMagic, 2, 0, 0, 0, [0, 0]⟩).Reachable s →
      ∀ bytes, (s.reader ()).returned = some bytes →
        ∃ k, k ≤ s.blocks.length ∧
          let T := (s.blocks.take k).flatten
          bytes = T.rtake (min T.length 2) := by
  intro hpast
  let r : SharedRingBuffer := ⟨shmMagic, 2, 0, 0, 0, [0, 0]⟩
  let labels : List (Label Unit) :=
    [.write [1, 2]] ++ List.replicate 7 .writer ++ [.write [3], .writer, .writer, .writer] ++
      [.call () .dump] ++ List.replicate 7 (.reader ())
  have hrun : ((ringSystem Unit r).exec (State.initial Unit r) labels).map
      (fun s => ((s.reader ()).returned, s.blocks)) = some (some [3, 2], [[1, 2]]) := by
    decide +kernel
  obtain ⟨s, hs, hfinal⟩ := Option.map_eq_some_iff.mp hrun
  obtain ⟨hret, hblocks⟩ := Prod.mk.inj hfinal
  have hstart : (ringSystem Unit r).Reachable (State.initial Unit r) := .start rfl
  obtain ⟨k, hk, hbytes⟩ := hpast s (hstart.exec hs) _ hret
  rw [hblocks] at hk hbytes
  have hcases : k = 0 ∨ k = 1 := by
    rw [List.length_singleton] at hk
    omega
  rcases hcases with rfl | rfl
  · exact absurd hbytes (by decide)
  · exact absurd hbytes (by decide)

end SharedRingBuffer

end PtyDaemon
