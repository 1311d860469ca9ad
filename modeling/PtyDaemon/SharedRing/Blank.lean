import PtyDaemon.SharedRing.Writer

/-!
# Runs of one shape

What a writer does does not depend on the bytes it writes: their number alone moves the counters and
places the chunks. A run can therefore be repeated with other bytes, and where the bytes of later
writes are given a value of their own, a cell they have been copied to shows it.
-/

namespace PtyDaemon

open Circular

/-- As many bytes, all of them zero. -/
def blankBytes (bytes : List UInt8) : List UInt8 := bytes.map fun _ => 0

@[simp] theorem blankBytes_length (bytes : List UInt8) :
    (blankBytes bytes).length = bytes.length := List.length_map _

@[simp] theorem blankBytes_isEmpty (bytes : List UInt8) :
    (blankBytes bytes).isEmpty = bytes.isEmpty := List.isEmpty_map

@[simp] theorem blankBytes_take (bytes : List UInt8) (n : Nat) :
    blankBytes (bytes.take n) = (blankBytes bytes).take n := List.map_take

@[simp] theorem blankBytes_drop (bytes : List UInt8) (n : Nat) :
    blankBytes (bytes.drop n) = (blankBytes bytes).drop n := List.map_drop

@[simp] theorem blankBytes_append (bytes more : List UInt8) :
    blankBytes (bytes ++ more) = blankBytes bytes ++ blankBytes more := List.map_append

@[simp] theorem blankBytes_blankBytes (bytes : List UInt8) :
    blankBytes (blankBytes bytes) = blankBytes bytes := by
  rw [blankBytes, blankBytes, List.map_map]
  rfl

private theorem blankBytes_eq_nil {bytes : List UInt8} : blankBytes bytes = [] ↔ bytes = [] :=
  List.map_eq_nil_iff

private theorem blankBytes_overwrite (cells block : List UInt8) (i : Nat) :
    blankBytes (overwrite cells i block) = overwrite (blankBytes cells) i (blankBytes block) := by
  simp only [blankBytes, overwrite, List.map_append, List.map_take, List.map_drop, List.length_map]

theorem blankBytes_replicate (n : Nat) (a : UInt8) :
    blankBytes (List.replicate n a) = List.replicate n 0 := List.map_replicate

theorem mem_blankBytes {bytes : List UInt8} {x : UInt8} (h : x ∈ blankBytes bytes) : x = 0 := by
  obtain ⟨_, _, rfl⟩ := List.mem_map.mp h
  rfl

namespace SharedRingBuffer

def blank (r : SharedRingBuffer) : SharedRingBuffer := { r with data := blankBytes r.data }

def Call.blank : Call → Call
  | .write data => .write (blankBytes data)
  | .clear => .clear

def Op.blank : Op → Op
  | .copy i block => .copy i (blankBytes block)
  | .seqBeginWrite => .seqBeginWrite
  | .storeWritePos v => .storeWritePos v
  | .storeTotalWritten v => .storeTotalWritten v
  | .seqEndWrite => .seqEndWrite

def Writer.blank : Writer → Writer
  | .idle => .idle
  | .loadWritePos data => .loadWritePos (blankBytes data)
  | .loadTotalWritten data writePos => .loadTotalWritten (blankBytes data) writePos
  | .running data op ops => .running (blankBytes data) op.blank (ops.map Op.blank)

/-- A step of the writer alone. -/
def Label.blank : Label Empty → Label Empty
  | .write data => .write (blankBytes data)
  | .writer => .writer

def State.blank (s : State Empty) : State Empty :=
  { s with
    ring := s.ring.blank
    writer := s.writer.blank
    blocks := s.blocks.map blankBytes }

private theorem writeChunks_blank (capacity writePos : Nat) (data : List UInt8) :
    writeChunks capacity writePos (blankBytes data) =
      (writeChunks capacity writePos data).map fun c => (c.1, blankBytes c.2) := by
  simp only [writeChunks, blankBytes_length]
  split
  · simp
  · split <;> simp

private theorem writeOps_blank (capacity writePos total : Nat) (data : List UInt8) :
    writeOps capacity writePos total (blankBytes data) =
      (writeOps capacity writePos total data).map Op.blank := by
  rw [writeOps, writeOps, writeChunks_blank, blankBytes_length, List.map_append, List.map_map,
    List.map_map]
  rfl

private theorem Op.apply_blank (r : SharedRingBuffer) (op : Op) :
    (op.apply r).blank = op.blank.apply r.blank := by
  cases op with
  | copy i block =>
    simp only [Op.apply, Op.blank, copyIn, SharedRingBuffer.blank, blankBytes_overwrite]
  | _ => rfl

private theorem write_blank (r : SharedRingBuffer) (data : List UInt8) :
    (r.write data).blank = r.blank.write (blankBytes data) := by
  by_cases hd : data = []
  · subst hd
    rfl
  · have hops : ∀ (ops : List Op) (r : SharedRingBuffer),
        (ops.foldl Op.apply r).blank = (ops.map Op.blank).foldl Op.apply r.blank := by
      intro ops
      induction ops with
      | nil => exact fun _ => rfl
      | cons op ops ih =>
        intro r
        rw [List.foldl_cons, ih, Op.apply_blank]
        rfl
    rw [write_eq_ops r hd, write_eq_ops r.blank (mt blankBytes_eq_nil.mp hd), hops]
    change _ = (writeOps r.capacity r.writePos r.totalWritten (blankBytes data)).foldl _ _
    rw [writeOps_blank]

private theorem mapped_blank (r : SharedRingBuffer) (i : Nat) (block : List UInt8) :
    r.blank.Mapped i (blankBytes block) ↔ r.Mapped i block := by
  simp [Mapped, SharedRingBuffer.blank]

private theorem writeMapped_blank (r : SharedRingBuffer) (data : List UInt8) :
    (r.writeMapped data).map blank = r.blank.writeMapped (blankBytes data) := by
  have hmapped : (∀ c ∈ writeChunks r.blank.capacity r.blank.writePos (blankBytes data),
      r.blank.Mapped c.1 c.2) ↔
      ∀ c ∈ writeChunks r.capacity r.writePos data, r.Mapped c.1 c.2 := by
    change (∀ c ∈ writeChunks r.capacity r.writePos (blankBytes data), r.blank.Mapped c.1 c.2) ↔ _
    rw [writeChunks_blank, List.forall_mem_map]
    exact forall₂_congr fun c _ => r.mapped_blank c.1 c.2
  unfold writeMapped
  simp only [hmapped, blankBytes_eq_nil, ← write_blank]
  split <;> rfl

private theorem Call.run_blank (r : SharedRingBuffer) (c : Call) :
    (c.run r).map SharedRingBuffer.blank = c.blank.run r.blank := by
  cases c with
  | write data => exact r.writeMapped_blank data
  | clear => rfl

theorem calls_blank (r : SharedRingBuffer) (cs : List Call) :
    (cs.foldlM Call.run r).map blank = (cs.map Call.blank).foldlM Call.run r.blank := by
  induction cs generalizing r with
  | nil => rfl
  | cons c cs ih =>
    rw [List.map_cons, List.foldlM_cons, List.foldlM_cons, ← Call.run_blank]
    cases c.run r with
    | none => rfl
    | some r₁ => exact ih r₁

private theorem Writer.next_blank (data : List UInt8) (ops : List Op) :
    (Writer.next data ops).blank = .next (blankBytes data) (ops.map Op.blank) := by
  cases ops <;> rfl

private theorem Writer.step_blank (r : SharedRingBuffer) (w : Writer) :
    w.blank.step r.blank = ((w.step r).1.blank, (w.step r).2.blank) := by
  cases w with
  | idle => rfl
  | loadWritePos data => rfl
  | loadTotalWritten data writePos =>
    change (_, _) = (_, Writer.blank (.next data _))
    rw [Writer.next_blank, ← writeOps_blank]
    rfl
  | running data op ops =>
    change (_, _) = (_, Writer.blank (.next data ops))
    rw [Writer.next_blank, Writer.step, Op.apply_blank]

private theorem Writer.faults_blank (r : SharedRingBuffer) (w : Writer) :
    w.blank.faults r.blank = w.faults r := by
  cases w with
  | running data op ops =>
    cases op with
    | copy i block => simp only [Writer.blank, Op.blank, Writer.faults, mapped_blank]
    | _ => rfl
  | _ => rfl

private theorem Writer.idle_blank (w : Writer) : w.blank = .idle ↔ w = .idle := by
  cases w <;> simp [Writer.blank]

private theorem State.writerStep_blank (s : State Empty) :
    s.writerStep.blank = s.blank.writerStep := by
  have hstep := s.writer.step_blank s.ring
  have hcopied : ∀ n, s.writer.blank.copied n = s.writer.copied n := by
    intro n
    cases s.writer with
    | running data op ops => cases op <;> simp [Writer.blank, Op.blank, Writer.copied]
    | _ => rfl
  have hbegins : s.writer.blank.begins = s.writer.begins := by
    cases s.writer with
    | running data op ops => cases op <;> rfl
    | _ => rfl
  have hcompletes : s.writer.blank.completes = s.writer.completes.map blankBytes := by
    cases s.writer with
    | running data op ops => cases ops <;> rfl
    | _ => rfl
  simp only [State.writerStep, State.blank, hstep, hcopied, hbegins, hcompletes, List.map_append,
    List.length_map]

/-- The same step of a run with other bytes. -/
theorem State.step_blank (s : State Empty) (e : Label Empty) :
    (s.step e).map State.blank = s.blank.step e.blank := by
  cases e with
  | write data =>
    simp only [State.step, Label.blank, State.blank, ne_eq, Writer.idle_blank, blankBytes_isEmpty]
    split
    · rfl
    · split <;> rfl
  | writer =>
    have hfaults : s.blank.writer.faults s.blank.ring = s.writer.faults s.ring :=
      s.writer.faults_blank s.ring
    have hidle : s.blank.writer = .idle ↔ s.writer = .idle := s.writer.idle_blank
    simp only [State.step, Label.blank, hidle, hfaults]
    split
    · rfl
    · exact congrArg some s.writerStep_blank
  | call i _ => exact i.elim
  | reader i => exact i.elim

/-- Steps of the same shape can be taken from states of the same shape. -/
theorem step_of_blank {s s' t : State Empty} {e e' : Label Empty} (hs : s'.blank = s.blank)
    (he : e'.blank = e.blank) (h : s.step e = some t) :
    ∃ t', s'.step e' = some t' ∧ t'.blank = t.blank := by
  have hstep := s'.step_blank e'
  rw [hs, he, ← State.step_blank, h] at hstep
  exact Option.map_eq_some_iff.mp hstep

theorem exec_of_blank {r r' : SharedRingBuffer} {s s' t : State Empty} {es es' : List (Label Empty)}
    (hs : s'.blank = s.blank) (hes : es'.map Label.blank = es.map Label.blank)
    (h : (ringSystem Empty r).exec s es = some t) :
    ∃ t', (ringSystem Empty r').exec s' es' = some t' ∧ t'.blank = t.blank := by
  induction es generalizing s s' es' with
  | nil =>
    cases h
    rw [List.map_eq_nil_iff.mp hes]
    exact ⟨s', rfl, hs⟩
  | cons e es ih =>
    obtain ⟨s₁, hs₁, ht⟩ := Option.bind_eq_some_iff.mp h
    obtain ⟨e', es', rfl, he, hrest⟩ := List.map_eq_cons_iff.mp hes
    obtain ⟨s₁', hs₁', hsame⟩ := step_of_blank hs he hs₁
    obtain ⟨t', ht', hend⟩ := ih hsame hrest ht
    exact ⟨t', Option.bind_eq_some_iff.mpr ⟨s₁', hs₁', ht'⟩, hend⟩

/-! ## Telling old bytes from new ones -/

def Op.Dyed (a : UInt8) : Op → Prop
  | .copy _ block => ∀ x ∈ block, x = a
  | _ => True

def Writer.Dyed (a : UInt8) : Writer → Prop
  | .idle => True
  | .loadWritePos data => ∀ x ∈ data, x = a
  | .loadTotalWritten data _ => ∀ x ∈ data, x = a
  | .running data op ops => (∀ x ∈ data, x = a) ∧ ∀ o ∈ op :: ops, o.Dyed a

/-- The bytes of write number `n` all have the value `dye n`, and a cell holds a byte of the last
write that has copied to it. -/
structure State.Dyed (dye : Nat → UInt8) (s : State Empty) : Prop where
  blocks : ∀ (n : Nat) b, s.blocks[n]? = some b → ∀ x ∈ b, x = dye n
  writer : s.writer.Dyed (dye s.blocks.length)
  write_le : ∀ c ∈ s.copies, c.write ≤ s.blocks.length
  cells : ∀ c ∈ s.copies, ∀ j, c.Covers j → ∃ n, c.write ≤ n ∧ s.ring.data[j]? = some (dye n)

theorem State.Dyed.initial (dye : Nat → UInt8) (r : SharedRingBuffer) :
    (State.initial Empty r).Dyed dye where
  blocks := fun _ _ h => nomatch h
  writer := trivial
  write_le := fun _ h => nomatch h
  cells := fun _ h => nomatch h

/-- The chunks of a block are parts of it. -/
theorem mem_of_mem_writeChunks {capacity writePos : Nat} {data : List UInt8}
    {c : Nat × List UInt8} (hc : c ∈ writeChunks capacity writePos data) {x : UInt8}
    (hx : x ∈ c.2) : x ∈ data := by
  simp only [writeChunks] at hc
  split at hc
  · rw [List.mem_singleton.mp hc] at hx
    exact List.mem_of_mem_drop hx
  · split at hc
    · rw [List.mem_singleton.mp hc] at hx
      exact hx
    · rcases List.mem_pair.mp hc with rfl | rfl
      · exact List.mem_of_mem_take hx
      · exact List.mem_of_mem_drop hx

private theorem Writer.Dyed.step {a : UInt8} {w : Writer} (h : w.Dyed a) (r : SharedRingBuffer) :
    (w.step r).2.Dyed a := by
  cases w with
  | idle => trivial
  | loadWritePos data => exact h
  | loadTotalWritten data writePos =>
    have hops : ∀ o ∈ writeOps r.capacity writePos r.totalWritten data, o.Dyed a := by
      intro o ho
      rcases List.mem_append.mp ho with ho | ho
      · obtain ⟨c, hc, rfl⟩ := List.mem_map.mp ho
        exact fun x hx => h x (mem_of_mem_writeChunks hc hx)
      · simp only [counterOps, List.mem_cons, List.not_mem_nil, or_false] at ho
        rcases ho with rfl | rfl | rfl | rfl <;> trivial
    simp only [Writer.step]
    cases hw : writeOps r.capacity writePos r.totalWritten data with
    | nil => trivial
    | cons op ops => exact ⟨h, hw ▸ hops⟩
  | running data op ops =>
    cases ops with
    | nil => trivial
    | cons op' ops => exact ⟨h.1, fun o ho => h.2 o (List.mem_cons_of_mem op ho)⟩

private theorem State.Dyed.writerStep {dye : Nat → UInt8} {s : State Empty} (h : s.Dyed dye)
    (hgranted : ¬s.writer.faults s.ring = true) : s.writerStep.Dyed dye := by
  have hwriter := h.writer.step s.ring
  have hold := h.cells
  cases hw : s.writer with
  | running data op ops =>
    have hdyed := h.writer
    rw [hw] at hwriter hdyed hgranted
    -- the last step of a write completes its block
    have hblocks : (∀ (n : Nat) b, (s.blocks ++ (Writer.running data op ops).completes)[n]? = some b →
        ∀ x ∈ b, x = dye n) ∧ ((Writer.running data op ops).step s.ring).2.Dyed
          (dye (s.blocks ++ (Writer.running data op ops).completes).length) := by
      cases ops with
      | cons op' ops =>
        simp only [Writer.completes, List.append_nil]
        exact ⟨h.blocks, hwriter⟩
      | nil =>
        refine ⟨fun n b hb => ?_, trivial⟩
        rcases Nat.lt_or_ge n s.blocks.length with hn | hn
        · rw [List.getElem?_append_left hn] at hb
          exact h.blocks n b hb
        · rw [List.getElem?_append_right hn] at hb
          obtain ⟨hzero, hb⟩ := List.getElem?_eq_some_iff.mp hb
          have hlast : n = s.blocks.length := by
            simp only [Writer.completes, List.length_singleton] at hzero
            omega
          subst hlast
          simp only [Writer.completes, Nat.sub_self, List.getElem_cons_zero] at hb
          exact hb ▸ hdyed.1
    have hlen : s.blocks.length ≤ (s.blocks ++ (Writer.running data op ops).completes).length := by
      rw [List.length_append]
      exact Nat.le_add_right _ _
    cases op with
    | copy i block =>
      have hroom : s.ring.Mapped i block := by simpa [Writer.faults] using hgranted
      rw [Mapped] at hroom
      have hnew : ∀ j, i ≤ j → j < i + block.length →
          (overwrite s.ring.data i block)[j]? = some (dye s.blocks.length) := by
        intro j hj hlt
        have hpos : (overwrite s.ring.data i block)[j]? = block[j - i]? := by
          rw [overwrite, List.append_assoc, List.getElem?_append_right (by
            rw [List.length_take]
            omega), List.length_take, Nat.min_eq_left (by omega),
            List.getElem?_append_left (by omega)]
        rw [hpos, List.getElem?_eq_getElem (by omega)]
        exact congrArg some (hdyed.2 _ List.mem_cons_self _ (List.getElem_mem _))
      refine ⟨?_, ?_, ?_, ?_⟩ <;> simp only [State.writerStep, hw]
      · exact hblocks.1
      · exact hblocks.2
      · intro c hc
        rcases List.mem_append.mp hc with hc | hc
        · exact (h.write_le c hc).trans hlen
        · rw [List.mem_singleton.mp hc]
          exact hlen
      · intro c hc j hj
        change ∃ n, c.write ≤ n ∧ (overwrite s.ring.data i block)[j]? = some (dye n)
        by_cases hin : i ≤ j ∧ j < i + block.length
        · refine ⟨s.blocks.length, ?_, hnew j hin.1 hin.2⟩
          rcases List.mem_append.mp hc with hc | hc
          · exact h.write_le c hc
          · rw [List.mem_singleton.mp hc]
        · rcases List.mem_append.mp hc with hc | hc
          · obtain ⟨n, hn, hcell⟩ := hold c hc j hj
            refine ⟨n, hn, ?_⟩
            rw [getElem?_overwrite hroom (by omega)]
            exact hcell
          · rw [List.mem_singleton.mp hc] at hj
            exact absurd hj hin
    | _ =>
      refine ⟨?_, ?_, ?_, ?_⟩ <;>
        simp only [State.writerStep, hw, Writer.copied, List.append_nil]
      · exact hblocks.1
      · exact hblocks.2
      · exact fun c hc => (h.write_le c hc).trans hlen
      · exact hold
  | _ =>
    rw [hw] at hwriter
    refine ⟨?_, ?_, ?_, ?_⟩ <;>
      simp only [State.writerStep, hw, Writer.copied, Writer.completes, List.append_nil]
    · exact h.blocks
    · exact hwriter
    · exact h.write_le
    · exact hold

/-- A step that gives a new write the value of its number. -/
theorem State.Dyed.step {dye : Nat → UInt8} {s t : State Empty} {e : Label Empty} (h : s.Dyed dye)
    (he : ∀ data, e = .write data → ∀ x ∈ data, x = dye s.blocks.length)
    (hs : s.step e = some t) : t.Dyed dye := by
  cases e with
  | write data =>
    simp only [State.step] at hs
    split at hs
    · cases hs
    · split at hs
      · cases hs
        exact h
      · cases hs
        exact ⟨h.blocks, he data rfl, h.write_le, h.cells⟩
  | writer =>
    simp only [State.step] at hs
    split at hs
    · cases hs
    · rename_i hw
      cases hs
      exact h.writerStep (not_or.mp hw).2
  | call i _ => exact i.elim
  | reader i => exact i.elim

/-- Every run can be repeated with bytes that tell the writes apart. -/
theorem exec_dyed (dye : Nat → UInt8) (r' : SharedRingBuffer) {r : SharedRingBuffer}
    {s s' t : State Empty} {es : List (Label Empty)} (hs : s'.blank = s.blank) (hd : s'.Dyed dye)
    (h : (ringSystem Empty r).exec s es = some t) :
    ∃ es' t', es'.map Label.blank = es.map Label.blank ∧
      (ringSystem Empty r').exec s' es' = some t' ∧ t'.blank = t.blank ∧ t'.Dyed dye := by
  induction es generalizing s s' with
  | nil =>
    cases h
    exact ⟨[], s', rfl, rfl, hs, hd⟩
  | cons e es ih =>
    obtain ⟨s₁, hs₁, ht⟩ := Option.bind_eq_some_iff.mp h
    obtain ⟨e', he, hvalue⟩ : ∃ e' : Label Empty, e'.blank = e.blank ∧
        ∀ data, e' = .write data → ∀ x ∈ data, x = dye s'.blocks.length := by
      cases e with
      | write data =>
        refine ⟨.write (List.replicate data.length (dye s'.blocks.length)), ?_, ?_⟩
        · rw [Label.blank, Label.blank, blankBytes_replicate, blankBytes, List.map_const']
        · intro data' hdata x hx
          cases hdata
          exact List.eq_of_mem_replicate hx
      | writer => exact ⟨.writer, rfl, fun _ h => nomatch h⟩
      | call i _ => exact i.elim
      | reader i => exact i.elim
    obtain ⟨s₁', hs₁', hsame⟩ := step_of_blank hs he hs₁
    obtain ⟨es', t', hes, ht', hend, hdyed⟩ := ih hsame (hd.step hvalue hs₁') ht
    refine ⟨e' :: es', t', ?_, Option.bind_eq_some_iff.mpr ⟨s₁', hs₁', ht'⟩, hend, hdyed⟩
    rw [List.map_cons, List.map_cons, he, hes]

end SharedRingBuffer

end PtyDaemon
