import PtyDaemon.SharedRing.ReadSince
import PtyDaemon.SharedRing.Steps

/-!
# The writer between two write boundaries

Between two boundaries the ring is the ring of the last boundary with some chunks copied in and
some counters stored. `WriterAt` lists the positions; its Boolean says whether the sequence is
odd. Cells that no chunk has touched since a boundary still hold what they held there.
-/

namespace PtyDaemon

open Circular

namespace SharedRingBuffer

/-- The ring after the first `k` writes. -/
def after (r : SharedRingBuffer) (blocks : List (List UInt8)) (k : Nat) : SharedRingBuffer :=
  (blocks.take k).foldl write r

theorem after_length (r : SharedRingBuffer) (blocks : List (List UInt8)) :
    r.after blocks blocks.length = blocks.foldl write r := by
  rw [after, List.take_length]

theorem after_append (r : SharedRingBuffer) {blocks : List (List UInt8)} {k : Nat}
    (h : k ≤ blocks.length) (more : List (List UInt8)) :
    r.after (blocks ++ more) k = r.after blocks k := by
  rw [after, after, List.take_append_of_le_length h]

theorem write_sequence (r : SharedRingBuffer) {data : List UInt8} (hd : data ≠ []) :
    (r.write data).sequence = wrapAdd (wrapAdd r.sequence 1) 1 := by
  have hne : ¬data.isEmpty = true := by simpa using hd
  simp only [write, if_neg hne]
  split
  · rfl
  · split <;> rfl

/-- Every write that has a byte to write moves the sequence by two. -/
theorem writes_sequence (r : SharedRingBuffer) {blocks : List (List UInt8)}
    (hb : ∀ b ∈ blocks, b ≠ []) :
    (blocks.foldl write r).sequence % 2 ^ 64 = (r.sequence + 2 * blocks.length) % 2 ^ 64 := by
  induction blocks generalizing r with
  | nil => rfl
  | cons b bs ih =>
    have hrest := ih (r.write b) fun x hx => hb x (List.mem_cons_of_mem b hx)
    rw [write_sequence r (hb b List.mem_cons_self)] at hrest
    rw [List.foldl_cons, hrest, List.length_cons]
    simp only [wrapAdd]
    omega

def copyChunks (r : SharedRingBuffer) (cs : List (Nat × List UInt8)) : SharedRingBuffer :=
  { r with data := cs.foldl (fun cells c => overwrite cells c.1 c.2) r.data }

private theorem copyChunks_eq (r : SharedRingBuffer) (cs : List (Nat × List UInt8)) :
    (cs.map fun c => Op.copy c.1 c.2).foldl Op.apply r = r.copyChunks cs := by
  induction cs generalizing r with
  | nil => rfl
  | cons c cs ih => exact ih (r.copyIn c.1 c.2)

private theorem copyChunks_concat (r : SharedRingBuffer) (cs : List (Nat × List UInt8))
    (c : Nat × List UInt8) :
    r.copyChunks (cs ++ [c]) = (r.copyChunks cs).copyIn c.1 c.2 := by
  simp only [copyChunks, copyIn, List.foldl_append, List.foldl_cons, List.foldl_nil]

private theorem copyChunks_length {r : SharedRingBuffer} {cs : List (Nat × List UInt8)}
    (hfit : ∀ c ∈ cs, r.Mapped c.1 c.2) :
    (r.copyChunks cs).data.length = r.data.length := by
  induction cs generalizing r with
  | nil => rfl
  | cons c cs ih =>
    have hc : (r.copyIn c.1 c.2).data.length = r.data.length :=
      overwrite_length (hfit c List.mem_cons_self)
    have hrest := @ih (r.copyIn c.1 c.2) fun x hx => by
      rw [Mapped, hc]
      exact hfit x (List.mem_cons_of_mem c hx)
    exact hrest.trans hc

/-- All chunks of the block go into the mapping. -/
def AllMapped (c : SharedRingBuffer) (data : List UInt8) : Prop :=
  ∀ x ∈ writeChunks c.capacity c.writePos data, c.Mapped x.1 x.2

/-- `r` and the writer `w` as they stand since the boundary `c`. -/
inductive WriterAt (c : SharedRingBuffer) : Bool → SharedRingBuffer → Writer → Prop
  | idle : WriterAt c false c .idle
  | loadWritePos {data : List UInt8} (hd : data ≠ []) : WriterAt c false c (.loadWritePos data)
  | loadTotalWritten {data : List UInt8} (hd : data ≠ []) :
      WriterAt c false c (.loadTotalWritten data c.writePos)
  | copying {data : List UInt8} (hd : data ≠ []) (done rest : List (Nat × List UInt8))
      (h : done ++ rest = writeChunks c.capacity c.writePos data)
      (hmapped : ∀ x ∈ done, c.Mapped x.1 x.2) :
      WriterAt c false (c.copyChunks done)
        (.next data ((rest.map fun x => .copy x.1 x.2) ++
          counterOps c.capacity c.writePos c.totalWritten data.length))
  | writePosLeft {data : List UInt8} (hd : data ≠ []) (hmapped : c.AllMapped data) :
      WriterAt c true ((c.copyChunks (writeChunks c.capacity c.writePos data)).seqBeginWrite)
        (.next data (counterOps c.capacity c.writePos c.totalWritten data.length).tail)
  | totalLeft {data : List UInt8} (hd : data ≠ []) (hmapped : c.AllMapped data) :
      WriterAt c true
        ((c.copyChunks (writeChunks c.capacity c.writePos data)).seqBeginWrite.storeWritePos
          (nextWritePos c.capacity c.writePos data.length))
        (.next data (counterOps c.capacity c.writePos c.totalWritten data.length).tail.tail)
  | endLeft {data : List UInt8} (hd : data ≠ []) (hmapped : c.AllMapped data) :
      WriterAt c true
        (((c.copyChunks (writeChunks c.capacity c.writePos data)).seqBeginWrite.storeWritePos
          (nextWritePos c.capacity c.writePos data.length)).storeTotalWritten
            (wrapAdd c.totalWritten data.length))
        (.next data [.seqEndWrite])

namespace WriterAt

variable {c r : SharedRingBuffer} {b : Bool} {w : Writer}

theorem magic (h : WriterAt c b r w) : r.magic = c.magic := by
  cases h <;> rfl

theorem capacity (h : WriterAt c b r w) : r.capacity = c.capacity := by
  cases h <;> rfl

/-- Outside the lock the counters are those of the boundary. -/
theorem unlocked (h : WriterAt c false r w) :
    r.sequence = c.sequence ∧ r.writePos = c.writePos ∧ r.totalWritten = c.totalWritten := by
  cases h <;> exact ⟨rfl, rfl, rfl⟩

theorem locked (h : WriterAt c true r w) : r.sequence = wrapAdd c.sequence 1 := by
  cases h <;> rfl

private theorem of_idle (h : WriterAt c b r .idle) : b = false ∧ r = c := by
  generalize hw : Writer.idle = w at h
  cases h with
  | idle => exact ⟨rfl, rfl⟩
  | copying hd done rest hsplit => cases rest <;> cases hw
  | _ => cases hw

/-- The last step of a write leads to the next boundary. -/
theorem write_eq {data : List UInt8} (hd : data ≠ []) :
    c.write data =
      ((((c.copyChunks (writeChunks c.capacity c.writePos data)).seqBeginWrite.storeWritePos
        (nextWritePos c.capacity c.writePos data.length)).storeTotalWritten
          (wrapAdd c.totalWritten data.length)).seqEndWrite) := by
  rw [write_eq_ops c hd, writeOps, List.foldl_append, copyChunks_eq]
  rfl

/-- What one step of the writer does: copy a chunk, take the lock, complete the write, or none of
these. -/
theorem step (h : WriterAt c b r w) (hw : ¬ (w = .idle ∨ w.faults r = true)) :
    (∃ i block, i + block.length ≤ r.data.length ∧ b = false ∧
      (∀ n, w.copied n = [⟨n, i, block.length⟩]) ∧ w.begins = 0 ∧ w.completes = [] ∧
      (w.step r).1 = r.copyIn i block ∧ WriterAt c false (w.step r).1 (w.step r).2) ∨
    (b = false ∧ (∀ n, w.copied n = []) ∧ w.begins = 1 ∧ w.completes = [] ∧
      (w.step r).1.data = r.data ∧ WriterAt c true (w.step r).1 (w.step r).2) ∨
    (∃ data, data ≠ [] ∧ b = true ∧ (∀ n, w.copied n = []) ∧ w.begins = 0 ∧
      w.completes = [data] ∧ (w.step r).1.data = r.data ∧ w.step r = (c.write data, .idle) ∧
      c.writeMapped data = some (c.write data)) ∨
    ((∀ n, w.copied n = []) ∧ w.begins = 0 ∧ w.completes = [] ∧
      (w.step r).1.data = r.data ∧ WriterAt c b (w.step r).1 (w.step r).2) := by
  obtain ⟨hbusy, hgranted⟩ := not_or.mp hw
  cases h with
  | idle => exact absurd rfl hbusy
  | loadWritePos hd =>
    exact Or.inr (Or.inr (Or.inr ⟨fun _ => rfl, rfl, rfl, rfl, .loadTotalWritten hd⟩))
  | loadTotalWritten hd =>
    refine Or.inr (Or.inr (Or.inr ⟨fun _ => rfl, rfl, rfl, rfl, ?_⟩))
    exact .copying hd [] _ (List.nil_append _) fun _ hx => nomatch hx
  | copying hd done rest hsplit hmapped =>
    cases rest with
    | nil =>
      rw [List.append_nil] at hsplit
      subst hsplit
      exact Or.inr (Or.inl ⟨rfl, fun _ => rfl, rfl, rfl, rfl, .writePosLeft hd hmapped⟩)
    | cons x rest =>
      have hroom : (c.copyChunks done).Mapped x.1 x.2 := by
        simpa [Writer.next, Writer.faults] using hgranted
      refine Or.inl ⟨x.1, x.2, hroom, rfl, fun _ => rfl, rfl, ?_, rfl, ?_⟩
      · cases rest <;> rfl
      · rw [Mapped, copyChunks_length hmapped] at hroom
        have hall : ∀ y ∈ done ++ [x], c.Mapped y.1 y.2 := by
          intro y hy
          rcases List.mem_append.mp hy with hy | hy
          · exact hmapped y hy
          · rw [List.mem_singleton.mp hy]
            exact hroom
        have hnext : WriterAt c false (c.copyChunks (done ++ [x])) _ :=
          .copying hd (done ++ [x]) rest (by rw [List.append_assoc]; exact hsplit) hall
        rw [copyChunks_concat] at hnext
        exact hnext
  | writePosLeft hd hmapped =>
    exact Or.inr (Or.inr (Or.inr ⟨fun _ => rfl, rfl, rfl, rfl, .totalLeft hd hmapped⟩))
  | totalLeft hd hmapped =>
    exact Or.inr (Or.inr (Or.inr ⟨fun _ => rfl, rfl, rfl, rfl, .endLeft hd hmapped⟩))
  | endLeft hd hmapped =>
    refine Or.inr (Or.inr (Or.inl
      ⟨_, hd, rfl, fun _ => rfl, rfl, rfl, rfl, ?_, if_pos (.inr hmapped)⟩))
    rw [write_eq hd]
    rfl

end WriterAt

/-- The writer's part of a reachable state. -/
structure WriterInv {ι : Type} (r : SharedRingBuffer) (s : State ι) : Prop where
  nonempty : ∀ b ∈ s.blocks, b ≠ []
  mapped : s.blocks.foldlM writeMapped r = some (s.blocks.foldl write r)
  position : ∃ locked, WriterAt (s.blocks.foldl write r) locked s.ring s.writer ∧
    s.begun = s.blocks.length + locked.toNat
  untouched : ∀ k, k ≤ s.blocks.length → ∀ j,
    (∀ c ∈ s.copies, k ≤ c.write → ¬c.Covers j) → s.ring.data[j]? = (r.after s.blocks k).data[j]?

section

variable {ι : Type} {r : SharedRingBuffer} {S : List UInt8}

theorem WriterInv.initial (r : SharedRingBuffer) : WriterInv r (State.initial ι r) where
  nonempty := fun _ h => nomatch h
  mapped := rfl
  position := ⟨false, .idle, rfl⟩
  untouched := by
    intro k hk j _
    have hzero : k = 0 := Nat.le_zero.mp hk
    rw [hzero]
    rfl

/-- The ring at every boundary holds what had been written by then. -/
theorem WriterInv.after {s : State ι} (h : WriterInv r s) (hr : r.AtRest S) (k : Nat) :
    (r.after s.blocks k).AtRest (S ++ (s.blocks.take k).flatten) ∧
      (r.after s.blocks k).capacity = r.capacity := by
  have hall := h.mapped
  rw [← List.take_append_drop k s.blocks, List.foldlM_append] at hall
  obtain ⟨ring, hring, _⟩ := Option.bind_eq_some_iff.mp hall
  have hsame : ring = r.after s.blocks k := by
    have hwrites : ∀ {bs : List (List UInt8)} {t t' : SharedRingBuffer},
        bs.foldlM writeMapped t = some t' → t' = bs.foldl write t := by
      intro bs
      induction bs with
      | nil =>
        intro t t' ht
        cases ht
        rfl
      | cons b bs ih =>
        intro t t' ht
        rw [List.foldlM_cons] at ht
        obtain ⟨t₁, ht₁, ht⟩ := Option.bind_eq_some_iff.mp ht
        unfold writeMapped at ht₁
        split at ht₁
        · cases ht₁
          exact ih ht
        · cases ht₁
    exact hwrites hring
  rw [← hsame]
  exact hr.writes hring

private theorem WriterInv.writerStep {s : State ι} (h : WriterInv r s)
    (hw : ¬ (s.writer = .idle ∨ s.writer.faults s.ring = true)) : WriterInv r s.writerStep := by
  obtain ⟨hne, hmapped, ⟨locked, hat, hbegun⟩, huntouched⟩ := h
  rcases hat.step hw with ⟨i, block, hfit, rfl, hcopied, hbegins, hcompletes, hring, hnext⟩ |
      ⟨rfl, hcopied, hbegins, hcompletes, hdata, hnext⟩ |
      ⟨data, hd, rfl, hcopied, hbegins, hcompletes, hdata, hstep, hwrite⟩ |
      ⟨hcopied, hbegins, hcompletes, hdata, hnext⟩
  · refine ⟨?_, ?_, ⟨false, ?_, ?_⟩, ?_⟩ <;>
      simp only [State.writerStep, hcompletes, List.append_nil, hbegins, Nat.add_zero, hcopied]
    · exact hne
    · exact hmapped
    · exact hnext
    · exact hbegun
    · intro k hk j hj
      rw [← huntouched k hk j fun c hc' => hj c (List.mem_append_left _ hc'), hring]
      have hnew := hj _ (List.mem_append_right _ (List.mem_singleton.mpr rfl)) hk
      simp only [Copied.Covers, not_and, not_lt] at hnew
      apply getElem?_overwrite hfit
      rcases Nat.lt_or_ge j i with hji | hji
      · exact Or.inl hji
      · exact Or.inr (hnew hji)
  · refine ⟨?_, ?_, ⟨true, ?_, ?_⟩, ?_⟩ <;>
      simp only [State.writerStep, hcompletes, List.append_nil, hbegins, hcopied]
    · exact hne
    · exact hmapped
    · exact hnext
    · rw [hbegun]
      rfl
    · intro k hk j hj
      rw [hdata]
      exact huntouched k hk j hj
  · refine ⟨?_, ?_, ⟨false, ?_, ?_⟩, ?_⟩ <;>
      simp only [State.writerStep, hcompletes, hbegins, hcopied, List.append_nil, hstep]
    · intro b hb
      rcases List.mem_append.mp hb with hb | hb
      · exact hne b hb
      · rw [List.mem_singleton.mp hb]
        exact hd
    · rw [List.foldlM_append, hmapped, List.foldl_append]
      change (writeMapped _ data).bind some = _
      rw [hwrite]
      rfl
    · rw [List.foldl_append]
      exact .idle
    · rw [hbegun, List.length_append]
      rfl
    · intro k hk j hj
      rcases Nat.lt_or_ge s.blocks.length k with hlt | hle
      · have hk' : k = (s.blocks ++ [data]).length := by
          rw [List.length_append, List.length_singleton] at hk ⊢
          omega
        rw [hk', after_length, List.foldl_append]
        rfl
      · rw [after_append r hle, ← huntouched k hle j hj, ← hdata, hstep]
  · refine ⟨?_, ?_, ⟨locked, ?_, ?_⟩, ?_⟩ <;>
      simp only [State.writerStep, hcompletes, List.append_nil, hbegins, Nat.add_zero, hcopied]
    · exact hne
    · exact hmapped
    · exact hnext
    · exact hbegun
    · intro k hk j hj
      rw [hdata]
      exact huntouched k hk j hj

variable [DecidableEq ι]

theorem WriterInv.step {s s' : State ι} {e : Label ι} (h : WriterInv r s)
    (hs : s.step e = some s') : WriterInv r s' := by
  cases e with
  | write data =>
    simp only [State.step] at hs
    split at hs
    · cases hs
    · rename_i hidle
      split at hs
      · cases hs
        exact h
      · rename_i hd
        cases hs
        obtain ⟨hne, hmapped, ⟨locked, hat, hbegun⟩, huntouched⟩ := h
        rw [not_not.mp hidle] at hat
        obtain ⟨rfl, hring⟩ := hat.of_idle
        refine ⟨hne, hmapped, ⟨false, ?_, hbegun⟩, huntouched⟩
        change WriterAt _ false s.ring _
        rw [hring]
        exact .loadWritePos (by simpa using hd)
  | writer =>
    simp only [State.step] at hs
    split at hs
    · cases hs
    · rename_i hw
      cases hs
      exact h.writerStep hw
  | call i c =>
    simp only [State.step] at hs
    split at hs
    · cases hs
      exact ⟨h.nonempty, h.mapped, h.position, h.untouched⟩
    · cases hs
  | reader i =>
    simp only [State.step] at hs
    split at hs
    · cases hs
    · cases hs
      exact ⟨h.nonempty, h.mapped, h.position, h.untouched⟩

/-- Every run keeps the writer's invariant. -/
theorem WriterInv.reach {guard : State ι → Label ι → Prop} {s : State ι}
    (h : (ringSystem ι r).Reach guard s) : WriterInv r s := by
  apply h.invariant
  · rintro s rfl
    exact .initial r
  · intro s e s' hinv _ hs
    exact hinv.step hs

end

end SharedRingBuffer

end PtyDaemon
