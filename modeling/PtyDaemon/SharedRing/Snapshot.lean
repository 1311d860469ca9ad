import PtyDaemon.SharedRing.Writer

/-!
# Snapshots under a running writer

A reader that found the sequence even and finds the same value after its two counter loads has
loaded the counters of one write boundary: two equal sequence values less than `2 ^ 63` writes
apart belong to the same boundary, and no store lies between them.
-/

namespace PtyDaemon

open Circular

namespace SharedRingBuffer

variable {ι : Type} {r : SharedRingBuffer} {S : List UInt8}

theorem WriterInv.even {s : State ι} (hr : r.AtRest S) (h : WriterInv r s)
    (heven : s.ring.sequence % 2 = 0) :
    s.begun = s.blocks.length ∧
      s.ring.sequence = (r.after s.blocks s.blocks.length).sequence := by
  obtain ⟨locked, hat, hbegun⟩ := h.position
  have hc := (h.after hr s.blocks.length).1.even
  rw [after_length] at hc
  cases locked with
  | false =>
    rw [after_length]
    exact ⟨hbegun, hat.unlocked.1⟩
  | true =>
    exfalso
    rw [hat.locked, wrapAdd] at heven
    omega

/-- As long as no write has taken the lock since boundary `k`, the counters are those of `k`. -/
theorem WriterInv.settled {s : State ι} (h : WriterInv r s) {k : Nat} (hk : k ≤ s.blocks.length)
    (hbegun : s.begun = k) :
    s.ring.writePos = (r.after s.blocks k).writePos ∧
      s.ring.totalWritten = (r.after s.blocks k).totalWritten := by
  obtain ⟨locked, hat, hb⟩ := h.position
  cases locked with
  | false =>
    have hkn : k = s.blocks.length := by
      rw [← hbegun, hb]
      rfl
    rw [hkn, after_length]
    exact hat.unlocked.2
  | true =>
    change s.begun = s.blocks.length + 1 at hb
    omega

/-- The sequence tells boundaries less than `2 ^ 63` writes apart from each other. -/
theorem WriterInv.same_boundary {s : State ι} (h : WriterInv r s) {k : Nat}
    (hk : k ≤ s.blocks.length) (hnear : s.blocks.length - k < 2 ^ 63)
    (hseq : (r.after s.blocks k).sequence = (r.after s.blocks s.blocks.length).sequence) :
    k = s.blocks.length := by
  have hpre := writes_sequence r fun b hb => h.nonempty b (List.mem_of_mem_take (i := k) hb)
  have hall := writes_sequence r h.nonempty
  rw [SharedRingBuffer.after, after_length] at hseq
  rw [hseq, hall, List.length_take_of_le hk] at hpre
  omega

/-- The reader has found the even sequence value `s1` at the boundary `seenAt`. -/
structure Seen (r : SharedRingBuffer) (s : State ι) (i : ι) (s1 : Nat) : Prop where
  started : s.started i ≤ s.seenAt i
  completed : s.seenAt i ≤ s.blocks.length
  sequence : s1 = (r.after s.blocks (s.seenAt i)).sequence

/-- What reader `i` has loaded when it stands at a given position. -/
def ReaderAt (r : SharedRingBuffer) (s : State ι) (i : ι) : Reader → Prop
  | .writePos _ s1 => Seen r s i s1
  | .totalWritten _ s1 wp =>
    Seen r s i s1 ∧ (s.begun = s.seenAt i → wp = (r.after s.blocks (s.seenAt i)).writePos)
  | .seq2 _ s1 wp total =>
    Seen r s i s1 ∧ (s.begun = s.seenAt i →
      wp = (r.after s.blocks (s.seenAt i)).writePos ∧
        total = (r.after s.blocks (s.seenAt i)).totalWritten)
  | _ => True

/-- A second load of the same value: the pair is that of the boundary `seenAt`. -/
theorem ReaderAt.confirmed {s : State ι} {i : ι} {call : Reading} {s1 wp total : Nat}
    (hr : r.AtRest S) (hw : WriterInv r s) (h : ReaderAt r s i (.seq2 call s1 wp total))
    (heq : s1 = s.ring.sequence) (hnear : s.blocks.length - s.seenAt i < 2 ^ 63) :
    wp = (r.after s.blocks (s.seenAt i)).writePos ∧
      total = (r.after s.blocks (s.seenAt i)).totalWritten := by
  obtain ⟨hseen, hpair⟩ := h
  have heven : s.ring.sequence % 2 = 0 := by
    rw [← heq, hseen.sequence]
    exact (hw.after hr _).1.even
  obtain ⟨hbegun, hseq⟩ := hw.even hr heven
  have hsame := hw.same_boundary hseen.completed hnear (by rw [← hseen.sequence, heq, hseq])
  exact hpair (hbegun.trans hsame.symm)

/-- A reader keeps what it has loaded while the writer goes on. -/
theorem ReaderAt.grow {s t : State ι} {i : ι} {pc : Reader} (h : ReaderAt r s i pc)
    (hw : WriterInv r s) {more : List (List UInt8)} (hblocks : t.blocks = s.blocks ++ more)
    (hbegun : s.begun ≤ t.begun) (hstarted : t.started i = s.started i)
    (hseen : t.seenAt i = s.seenAt i) : ReaderAt r t i pc := by
  have hn : s.blocks.length ≤ s.begun := by
    obtain ⟨locked, -, hb⟩ := hw.position
    omega
  have hafter : s.seenAt i ≤ s.blocks.length →
      r.after t.blocks (t.seenAt i) = r.after s.blocks (s.seenAt i) := by
    intro hk
    rw [hblocks, hseen, after_append r hk]
  have hseen' : ∀ s1, Seen r s i s1 → Seen r t i s1 := by
    intro s1 hs1
    refine ⟨?_, ?_, ?_⟩
    · rw [hstarted, hseen]
      exact hs1.started
    · rw [hseen, hblocks, List.length_append]
      exact hs1.completed.trans (Nat.le_add_right _ _)
    · rw [hafter hs1.completed]
      exact hs1.sequence
  cases pc with
  | writePos call s1 => exact hseen' s1 h
  | totalWritten call s1 wp =>
    refine ⟨hseen' s1 h.1, fun hb => ?_⟩
    have hk := h.1.completed
    rw [hafter hk]
    exact h.2 (by omega)
  | seq2 call s1 wp total =>
    refine ⟨hseen' s1 h.1, fun hb => ?_⟩
    have hk := h.1.completed
    rw [hafter hk]
    exact h.2 (by omega)
  | _ => trivial

def Reader.inSnapshot : Reader → Bool
  | .seq1 _ => true
  | .writePos _ _ => true
  | .totalWritten _ _ _ => true
  | .seq2 _ _ _ _ => true
  | _ => false

/-- The returned pair is that of the write boundary `k`, which lies inside the call. -/
def Taken.At (r : SharedRingBuffer) (blocks : List (List UInt8)) (t : Taken ι) (k : Nat) : Prop :=
  t.started ≤ k ∧ k ≤ t.finished ∧ t.writePos = (r.after blocks k).writePos ∧
    t.totalWritten = (r.after blocks k).totalWritten

def Taken.AtBoundary (r : SharedRingBuffer) (blocks : List (List UInt8)) (t : Taken ι) : Prop :=
  ∃ k, t.At r blocks k

/-- Fewer than `2 ^ 63` writes completed during the call. -/
def Taken.Near (t : Taken ι) : Prop := t.finished - t.started < 2 ^ 63

/-- The readers' part of a reachable state. -/
structure SnapshotInv (r : SharedRingBuffer) (s : State ι) : Prop where
  started_le : ∀ i, s.started i ≤ s.blocks.length
  reader : ∀ i, ReaderAt r s i (s.reader i)
  finished_le : ∀ t ∈ s.taken, t.finished ≤ s.blocks.length
  boundary : ∀ t ∈ s.taken, t.Near → t.AtBoundary r s.blocks
  earlier : ∀ t ∈ s.taken, (s.reader t.reader).inSnapshot → t.finished ≤ s.started t.reader
  ordered : s.taken.Pairwise fun t u => t.reader = u.reader → t.finished ≤ u.started

private theorem SnapshotInv.initial (r : SharedRingBuffer) : SnapshotInv r (State.initial ι r) where
  started_le := fun _ => Nat.le_refl 0
  reader := fun _ => trivial
  finished_le := fun _ h => nomatch h
  boundary := fun _ h => nomatch h
  earlier := fun _ h => nomatch h
  ordered := List.Pairwise.nil

private theorem SnapshotInv.grow {s t : State ι} (h : SnapshotInv r s) (hw : WriterInv r s)
    {more : List (List UInt8)} (hblocks : t.blocks = s.blocks ++ more)
    (hbegun : s.begun ≤ t.begun) (hstarted : t.started = s.started) (hseen : t.seenAt = s.seenAt)
    (hreader : t.reader = s.reader) (htaken : t.taken = s.taken) : SnapshotInv r t := by
  have hlen : s.blocks.length ≤ t.blocks.length := by
    rw [hblocks, List.length_append]
    exact Nat.le_add_right _ _
  constructor
  · intro i
    rw [hstarted]
    exact (h.started_le i).trans hlen
  · intro i
    rw [hreader]
    exact (h.reader i).grow hw hblocks hbegun (by rw [hstarted]) (by rw [hseen])
  · intro u hu
    rw [htaken] at hu
    exact (h.finished_le u hu).trans hlen
  · intro u hu hnear
    rw [htaken] at hu
    obtain ⟨k, h1, h2, h3, h4⟩ := h.boundary u hu hnear
    refine ⟨k, h1, h2, ?_, ?_⟩ <;>
      rw [hblocks, after_append r (h2.trans (h.finished_le u hu))]
    · exact h3
    · exact h4
  · rw [htaken, hreader, hstarted]
    exact h.earlier
  · rw [htaken]
    exact h.ordered

private theorem ReaderAt.congr {s t : State ι} {i : ι} {pc : Reader} (h : ReaderAt r s i pc)
    (hblocks : t.blocks = s.blocks) (hbegun : t.begun = s.begun)
    (hstarted : t.started i = s.started i) (hseen : t.seenAt i = s.seenAt i) :
    ReaderAt r t i pc := by
  have hs : ∀ s1, Seen r s i s1 → Seen r t i s1 := fun s1 h1 =>
    ⟨by rw [hstarted, hseen]; exact h1.started, by rw [hseen, hblocks]; exact h1.completed,
      by rw [hblocks, hseen]; exact h1.sequence⟩
  cases pc with
  | writePos call s1 => exact hs s1 h
  | totalWritten call s1 wp =>
    refine ⟨hs s1 h.1, ?_⟩
    rw [hbegun, hblocks, hseen]
    exact h.2
  | seq2 call s1 wp total =>
    refine ⟨hs s1 h.1, ?_⟩
    rw [hbegun, hblocks, hseen]
    exact h.2
  | _ => trivial

private theorem SnapshotInv.take {s : State ι} (h : SnapshotInv r s) (t : Taken ι)
    (hout : (s.reader t.reader).inSnapshot = false) (hfinished : t.finished = s.blocks.length)
    (hboundary : t.Near → t.AtBoundary r s.blocks)
    (hearlier : ∀ u ∈ s.taken, u.reader = t.reader → u.finished ≤ t.started) :
    SnapshotInv r { s with taken := s.taken ++ [t] } := by
  have hmem : ∀ u, u ∈ s.taken ++ [t] → u ∈ s.taken ∨ u = t := fun u hu =>
    (List.mem_append.mp hu).imp id List.mem_singleton.mp
  refine ⟨h.started_le, fun i => (h.reader i).congr rfl rfl rfl rfl, ?_, ?_, ?_, ?_⟩
  · intro u hu
    rcases hmem u hu with hu | rfl
    · exact h.finished_le u hu
    · exact Nat.le_of_eq hfinished
  · intro u hu
    rcases hmem u hu with hu | rfl
    · exact h.boundary u hu
    · exact hboundary
  · intro u hu hin
    rcases hmem u hu with hu | rfl
    · exact h.earlier u hu hin
    · rw [hout] at hin
      cases hin
  · rw [List.pairwise_append]
    refine ⟨h.ordered, List.pairwise_singleton _ _, ?_⟩
    intro u hu v hv
    rw [List.mem_singleton.mp hv]
    exact hearlier u hu

variable [DecidableEq ι]

private theorem SnapshotInv.move {s t : State ι} (h : SnapshotInv r s) {i : ι} {pc : Reader}
    (hblocks : t.blocks = s.blocks) (hbegun : t.begun = s.begun) (htaken : t.taken = s.taken)
    (hreader : t.reader = Function.update s.reader i pc)
    (hstarted : ∀ j, j ≠ i → t.started j = s.started j)
    (hseen : ∀ j, j ≠ i → t.seenAt j = s.seenAt j)
    (hcall : t.started i = s.blocks.length ∨
      t.started i = s.started i ∧ (pc.inSnapshot → (s.reader i).inSnapshot))
    (hat : ReaderAt r t i pc) : SnapshotInv r t := by
  refine ⟨?_, ?_, ?_, ?_, ?_, ?_⟩
  · intro j
    rw [hblocks]
    by_cases hj : j = i
    · rw [hj]
      rcases hcall with hc | hc
      · exact Nat.le_of_eq hc
      · rw [hc.1]
        exact h.started_le i
    · rw [hstarted j hj]
      exact h.started_le j
  · intro j
    by_cases hj : j = i
    · rw [hj, hreader, Function.update_self]
      exact hat
    · rw [hreader, Function.update_of_ne hj]
      exact (h.reader j).congr hblocks hbegun (hstarted j hj) (hseen j hj)
  · rw [htaken, hblocks]
    exact h.finished_le
  · rw [htaken, hblocks]
    exact h.boundary
  · intro u hu hin
    rw [htaken] at hu
    by_cases hj : u.reader = i
    · rw [hj] at hin ⊢
      rw [hreader, Function.update_self] at hin
      rcases hcall with hc | hc
      · rw [hc]
        exact h.finished_le u hu
      · have hu' := h.earlier u hu
        rw [hj] at hu'
        rw [hc.1]
        exact hu' (hc.2 hin)
    · rw [hreader, Function.update_of_ne hj] at hin
      rw [hstarted _ hj]
      exact h.earlier u hu hin
  · rw [htaken]
    exact h.ordered

private theorem ReaderAt.step {s : State ι} {i : ι} (hr : r.AtRest S) (hw : WriterInv r s)
    (hstarted : s.started i ≤ s.blocks.length) (h : ReaderAt r s i (s.reader i)) :
    ReaderAt r (s.readerStep i) i ((s.reader i).step s.ring) := by
  cases hpc : s.reader i with
  | idle => trivial
  | magic =>
    simp only [Reader.step]
    split <;> trivial
  | seq1 call =>
    simp only [Reader.step]
    split
    · trivial
    · rename_i heven
      have hseq := (hw.even hr (not_not.mp heven)).2
      have hst : (s.readerStep i).started i = s.started i := by simp only [State.readerStep, hpc]
      have hseen : (s.readerStep i).seenAt i = s.blocks.length := by
        simp only [State.readerStep, hpc, Function.update_self]
      refine ⟨?_, ?_, ?_⟩
      · rw [hst, hseen]
        exact hstarted
      · rw [hseen]
        exact Nat.le_refl _
      · rw [hseen]
        exact hseq
  | writePos call s1 =>
    rw [hpc] at h
    have hnext : ReaderAt r s i (.totalWritten call s1 s.ring.writePos) :=
      ⟨h, fun hb => (hw.settled h.completed hb).1⟩
    exact hnext.congr rfl rfl (by simp only [State.readerStep, hpc])
      (by simp only [State.readerStep, hpc])
  | totalWritten call s1 wp =>
    rw [hpc] at h
    have hnext : ReaderAt r s i (.seq2 call s1 wp s.ring.totalWritten) :=
      ⟨h.1, fun hb => ⟨h.2 hb, (hw.settled h.1.completed hb).2⟩⟩
    exact hnext.congr rfl rfl (by simp only [State.readerStep, hpc])
      (by simp only [State.readerStep, hpc])
  | seq2 call s1 wp total =>
    simp only [Reader.step]
    split
    · cases call <;> trivial
    · trivial
  | slices todo result =>
    cases todo with
    | nil => trivial
    | cons x todo => trivial

private theorem Reader.ends_inSnapshot (ring : SharedRingBuffer) (call : Reading) (wp total : Nat) :
    (Reader.step ring (.seq2 call ring.sequence wp total)).inSnapshot = false := by
  cases call <;> simp [Reader.step, Reader.inSnapshot]

private theorem SnapshotInv.readerStep {s : State ι} (hr : r.AtRest S) (h : SnapshotInv r s)
    (hw : WriterInv r s) (i : ι) : SnapshotInv r (s.readerStep i) := by
  have hat := (h.reader i).step hr hw (h.started_le i)
  by_cases hend : ∃ call s1 wp total, s.reader i = .seq2 call s1 wp total ∧ s1 = s.ring.sequence
  · obtain ⟨call, s1, wp, total, hpc, heq⟩ := hend
    let t : Taken ι := ⟨i, s.started i, s.blocks.length, wp, total⟩
    let moved : State ι :=
      { s with reader := Function.update s.reader i ((s.reader i).step s.ring) }
    have hout : ((s.reader i).step s.ring).inSnapshot = false := by
      rw [hpc, heq]
      exact Reader.ends_inSnapshot _ _ _ _
    have hmoved : SnapshotInv r moved := by
      refine h.move rfl rfl rfl rfl (fun _ _ => rfl) (fun _ _ => rfl) ?_ ?_
      · refine Or.inr ⟨rfl, fun hin => ?_⟩
        rw [hout] at hin
        cases hin
      · exact hat.congr rfl rfl (by simp only [State.readerStep, hpc, moved])
          (by simp only [State.readerStep, hpc, moved])
    have hnear : t.Near → t.AtBoundary r s.blocks := by
      intro hn
      have hpair := h.reader i
      rw [hpc] at hpair
      have hst := hpair.1.started
      have hsb := hpair.1.completed
      have hn' : s.blocks.length - s.started i < 2 ^ 63 := hn
      exact ⟨s.seenAt i, hst, hsb, hpair.confirmed hr hw heq (by omega)⟩
    have hstep : s.readerStep i = { moved with taken := moved.taken ++ [t] } := by
      simp only [State.readerStep, hpc, if_pos heq, moved, t]
    rw [hstep]
    refine hmoved.take t ?_ rfl hnear ?_
    · change (Function.update s.reader i _ i).inSnapshot = false
      rw [Function.update_self]
      exact hout
    · intro u hu hui
      have hui' : u.reader = i := hui
      have hlt := h.earlier u hu
      rw [hui', hpc] at hlt
      exact hlt rfl
  · have htaken : (s.readerStep i).taken = s.taken := by
      simp only [State.readerStep]
      split
      · rename_i call s1 wp total hpc
        rw [if_neg fun heq => hend ⟨call, s1, wp, total, hpc, heq⟩]
      · rfl
    refine h.move rfl rfl htaken rfl ?_ ?_ ?_ hat
    · intro j hj
      cases hpc : s.reader i <;> simp [State.readerStep, hpc, hj]
    · intro j hj
      cases hpc : s.reader i <;> simp [State.readerStep, hpc, hj]
    · cases hpc : s.reader i with
      | magic =>
        left
        simp only [State.readerStep, hpc, Function.update_self]
      | idle =>
        right
        exact ⟨by simp only [State.readerStep, hpc], fun hin => nomatch hin⟩
      | slices todo result =>
        right
        refine ⟨by simp only [State.readerStep, hpc], fun hin => ?_⟩
        cases todo <;> cases hin
      | _ =>
        right
        exact ⟨by simp only [State.readerStep, hpc], fun _ => rfl⟩

private theorem SnapshotInv.step {s s' : State ι} {e : Label ι} (hr : r.AtRest S)
    (hw : WriterInv r s)
    (h : SnapshotInv r s) (hs : s.step e = some s') : SnapshotInv r s' := by
  cases e with
  | write data =>
    simp only [State.step] at hs
    split at hs
    · cases hs
    · split at hs
      · cases hs
        exact h
      · cases hs
        exact h.grow hw (List.append_nil _).symm (Nat.le_refl _) rfl rfl rfl rfl
  | writer =>
    simp only [State.step] at hs
    split at hs
    · cases hs
    · cases hs
      exact h.grow hw rfl (Nat.le_add_right _ _) rfl rfl rfl rfl
  | call i c =>
    simp only [State.step] at hs
    split at hs
    · cases hs
      refine h.move rfl rfl rfl rfl ?_ (fun _ _ => rfl) ?_ ?_
      · intro j hj
        exact Function.update_of_ne hj _ _
      · exact Or.inl (Function.update_self _ _ _)
      · cases c <;> trivial
    · cases hs
  | reader i =>
    simp only [State.step] at hs
    split at hs
    · cases hs
    · cases hs
      exact h.readerStep hr hw i

theorem SnapshotInv.reach {guard : State ι → Label ι → Prop} {s : State ι} (hr : r.AtRest S)
    (h : (ringSystem ι r).Reach guard s) : SnapshotInv r s := by
  refine h.invariant_with (fun _ hs => WriterInv.reach hs) ?_ ?_
  · rintro s rfl
    exact .initial r
  · intro s e s' hw hinv _ hs
    exact hinv.step hr hw hs

omit [DecidableEq ι] in
private theorem after_total {s : State ι} (hr : r.AtRest []) (hw : WriterInv r s)
    (hlen : s.blocks.flatten.length < 2 ^ 64) (k : Nat) :
    (r.after s.blocks k).totalWritten = (s.blocks.take k).flatten.length := by
  have hle : (s.blocks.take k).flatten.length ≤ s.blocks.flatten.length := by
    rw [← congrArg List.flatten (List.take_append_drop k s.blocks), List.flatten_append,
      List.length_append]
    exact Nat.le_add_right _ _
  have hk := (hw.after hr k).1
  rw [List.nil_append] at hk
  exact hk.total_eq (by omega)

private theorem flatten_take_mono (blocks : List (List UInt8)) {j k : Nat} (h : j ≤ k) :
    (blocks.take j).flatten.length ≤ (blocks.take k).flatten.length := by
  obtain ⟨n, rfl⟩ := Nat.le.dest h
  rw [List.take_add, List.flatten_append, List.length_append]
  exact Nat.le_add_right _ _

/-- Every pair `read_snapshot` returns is that of a write boundary inside the call, the boundaries of
a reader's successive pairs do not decrease, and neither do the totals until the 64-bit total
wraps. -/
theorem snapshot_boundary {page : PageSize} {capacity : Nat} {r : SharedRingBuffer}
    (hr : create page capacity = some r) {s : State ι} (h : (ringSystem ι r).Reachable s) :
    (∀ t ∈ s.taken, t.Near → t.AtBoundary r s.blocks) ∧
      (s.taken.Pairwise fun t u => t.reader = u.reader →
        ∀ j k, t.At r s.blocks j → u.At r s.blocks k → j ≤ k) ∧
      (s.blocks.flatten.length < 2 ^ 64 →
        s.taken.Pairwise fun t u =>
          t.reader = u.reader → t.Near → u.Near → t.totalWritten ≤ u.totalWritten) := by
  have hnew := create_atRest hr
  have hw := WriterInv.reach h
  have hinv := SnapshotInv.reach hnew h
  refine ⟨hinv.boundary, hinv.ordered.imp ?_, fun hlen => hinv.ordered.imp_of_mem ?_⟩
  · intro t u hordered hreader j k ht hu
    exact ht.2.1.trans ((hordered hreader).trans hu.1)
  · intro t u ht hu hordered hreader htn hun
    obtain ⟨j, -, hj, -, hjt⟩ := hinv.boundary t ht htn
    obtain ⟨k, hk, -, -, hku⟩ := hinv.boundary u hu hun
    have hle := hordered hreader
    rw [hjt, hku, after_total hnew hw hlen, after_total hnew hw hlen]
    exact flatten_take_mono s.blocks (by omega)

theorem snapshot_boundary_between_writes :
    ∃ s : State Unit, (ringSystem Unit ⟨shmMagic, 2, 0, 0, 0, [0, 0]⟩).Reachable s ∧
      s.taken = [⟨(), 0, 1, 1, 1⟩, ⟨(), 1, 1, 1, 1⟩] ∧
      (∀ t ∈ s.taken, t.Near → t.AtBoundary ⟨shmMagic, 2, 0, 0, 0, [0, 0]⟩ s.blocks) ∧
      (s.taken.Pairwise fun t u => t.reader = u.reader →
        ∀ j k, t.At ⟨shmMagic, 2, 0, 0, 0, [0, 0]⟩ s.blocks j →
          u.At ⟨shmMagic, 2, 0, 0, 0, [0, 0]⟩ s.blocks k → j ≤ k) ∧
      (s.blocks.flatten.length < 2 ^ 64 →
        s.taken.Pairwise fun t u =>
          t.reader = u.reader → t.Near → u.Near → t.totalWritten ≤ u.totalWritten) := by
  -- the first snapshot loads the sequence before a write, is sent back once, and then sees it
  let labels : List (Label Unit) :=
    [.call () .snapshot, .reader (), .write [7]] ++ List.replicate 7 .writer ++
      List.replicate 7 (.reader ()) ++ [.call () .snapshot] ++ List.replicate 4 (.reader ())
  have hstart : (ringSystem Unit ⟨shmMagic, 2, 0, 0, 0, [0, 0]⟩).Reachable
      (State.initial Unit ⟨shmMagic, 2, 0, 0, 0, [0, 0]⟩) := .start rfl
  have hrun : ∃ s, (ringSystem Unit ⟨shmMagic, 2, 0, 0, 0, [0, 0]⟩).exec
      (State.initial Unit ⟨shmMagic, 2, 0, 0, 0, [0, 0]⟩) labels = some s ∧
      s.taken = [⟨(), 0, 1, 1, 1⟩, ⟨(), 1, 1, 1, 1⟩] := ⟨_, rfl, rfl⟩
  obtain ⟨s, hs, htaken⟩ := hrun
  have hreach := hstart.exec hs
  have hr : create page4096 2 = some ⟨shmMagic, 2, 0, 0, 0, [0, 0]⟩ := by decide
  exact ⟨s, hreach, htaken, snapshot_boundary hr hreach⟩

private theorem exec_write_empty {s : State ι} {data : List UInt8} (hidle : s.writer = .idle)
    (hcap : s.ring.capacity = 0) (hd : data ≠ []) :
    (ringSystem ι r).exec s (.write data :: List.replicate 7 .writer) =
      some
        { s with
          ring := s.ring.write data
          blocks := s.blocks ++ [data]
          begun := s.begun + 1
          copies := s.copies ++ [⟨s.blocks.length, 0, 0⟩] } := by
  have hne : ¬data.isEmpty = true := by simpa using hd
  have hover : ∀ wp, writeOps 0 wp s.ring.totalWritten data =
      [.copy 0 (data.drop data.length), .seqBeginWrite, .storeWritePos 0,
        .storeTotalWritten (wrapAdd s.ring.totalWritten data.length), .seqEndWrite] := fun wp => by
    simp only [writeOps, writeChunks, counterOps, nextWritePos, if_pos (Nat.zero_le _),
      Nat.sub_zero, List.map_cons, List.map_nil, List.singleton_append]
  rw [write_over hd (by rw [hcap]; exact Nat.zero_le _)]
  simp [Transition.System.exec, ringSystem, State.step, hidle, hne, State.writerStep,
    List.replicate_succ, Writer.step, hcap, hover, Writer.next, Writer.copied, Writer.begins,
    Writer.completes, Writer.faults, Mapped, Op.apply, copyIn, seqBeginWrite, seqEndWrite, storeWritePos,
    storeTotalWritten]

private theorem exec_snapshot {s : State ι} (i : ι) (hrest : (s.reader i).atRest)
    (heven : s.ring.sequence % 2 = 0) :
    (ringSystem ι r).exec s (.call i .snapshot :: List.replicate 4 (.reader i)) =
      some
        { s with
          reader := Function.update s.reader i .idle
          started := Function.update s.started i s.blocks.length
          seenAt := Function.update s.seenAt i s.blocks.length
          taken := s.taken ++
            [⟨i, s.blocks.length, s.blocks.length, s.ring.writePos, s.ring.totalWritten⟩] } := by
  simp [Transition.System.exec, ringSystem, State.step, hrest, State.readerStep, Reader.start,
    List.replicate_succ, Reader.step, heven]

private theorem write_empty_counters {r : SharedRingBuffer} {data : List UInt8}
    (hcap : r.capacity = 0) (hd : data ≠ []) :
    (r.write data).writePos = 0 ∧
      (r.write data).totalWritten = wrapAdd r.totalWritten data.length ∧
      (r.write data).sequence % 2 = r.sequence % 2 := by
  rw [write_over hd (by rw [hcap]; exact Nat.zero_le _)]
  exact ⟨rfl, rfl, wrapAdd_even _ _⟩

private theorem snapshot_wraps {D : List UInt8} (hD : D.length = 2 ^ 63 - 1) :
    ∃ s : State Unit, (ringSystem Unit ⟨shmMagic, 0, 0, 0, 0, []⟩).Reachable s ∧
      s.taken = [⟨(), 2, 2, 0, 2 ^ 64 - 2⟩, ⟨(), 3, 3, 0, 0⟩] := by
  let r : SharedRingBuffer := ⟨shmMagic, 0, 0, 0, 0, []⟩
  have hne : D ≠ [] := by
    intro h0
    rw [h0] at hD
    exact absurd hD (by decide)
  have h2 : [0, 0] ≠ ([] : List UInt8) := List.cons_ne_nil _ _
  obtain ⟨-, htotal1, heven1⟩ := write_empty_counters (show r.capacity = 0 from rfl) hne
  obtain ⟨hpos2, htotal2, heven2⟩ := write_empty_counters ((write_capacity r D).trans rfl) hne
  have hcap3 : ((r.write D).write D).capacity = 0 := by simp only [write_capacity, r]
  obtain ⟨hpos3, htotal3, heven3⟩ := write_empty_counters hcap3 h2
  have hstart : (ringSystem Unit r).Reachable (State.initial Unit r) := .start rfl
  have hwrite1 := hstart.exec (exec_write_empty rfl rfl hne)
  have hwrite2 := hwrite1.exec (exec_write_empty rfl (write_capacity _ _) hne)
  have hsnap1 := hwrite2.exec (exec_snapshot () rfl (heven2.trans heven1))
  have hwrite3 := hsnap1.exec (exec_write_empty rfl hcap3 h2)
  have hsnap2 := hwrite3.exec
    (exec_snapshot () rfl (heven3.trans (heven2.trans heven1)))
  refine ⟨_, hsnap2, ?_⟩
  have h0 : r.totalWritten = 0 := rfl
  simp only [State.initial, List.nil_append, List.singleton_append, List.length_append,
    List.length_singleton, hpos2, hpos3, htotal3, htotal2, htotal1, hD, h0]
  simp [wrapAdd]

/-- After `2 ^ 64` bytes the total starts again from zero, and so do the snapshots. -/
theorem snapshot_total_wraps :
    ¬∀ s : State Unit, (ringSystem Unit ⟨shmMagic, 0, 0, 0, 0, []⟩).Reachable s →
      (∀ t ∈ s.taken, t.Near → t.AtBoundary ⟨shmMagic, 0, 0, 0, 0, []⟩ s.blocks) ∧
        s.taken.Pairwise fun t u =>
          t.reader = u.reader → t.Near → u.Near → t.totalWritten ≤ u.totalWritten := by
  intro hmonotone
  have hlong : (List.replicate (2 ^ 63 - 1) (0 : UInt8)).length = 2 ^ 63 - 1 :=
    List.length_replicate
  obtain ⟨s, hs, htaken⟩ := snapshot_wraps hlong
  have hordered := (hmonotone s hs).2
  rw [htaken] at hordered
  have hle := (List.pairwise_cons.mp hordered).1 _ List.mem_cons_self rfl
    (by simp [Taken.Near]) (by simp [Taken.Near])
  exact absurd hle (by decide)

end SharedRingBuffer

end PtyDaemon
