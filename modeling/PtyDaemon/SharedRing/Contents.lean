import PtyDaemon.SharedRing.Basic

/-!
# What the ring holds

At rest the ring holds the end of the stream of bytes written since it was last cleared.
`write_pos` is not the total modulo the capacity, because a block at least as long as the ring
puts it back to zero; what all three branches of `write` keep is `Circular.Layout`. Where the sum
in `create` has wrapped the mapping is shorter than the ring: the stream stands at its front, and
the first byte behind the mapping ends the process.
-/

namespace PtyDaemon

open Circular

namespace SharedRingBuffer

/-- The ring is at rest and holds the end of the stream `S`. -/
structure Holds (r : SharedRingBuffer) (S : List UInt8) : Prop where
  magic : r.magic = shmMagic
  small : r.capacity < 2 ^ 63
  even : r.sequence % 2 = 0
  total : r.totalWritten = S.length % 2 ^ 64
  layout : Layout r.capacity r.writePos r.data S

theorem wrapSub_of_le {a b : Nat} (h : b ≤ a) : wrapSub a b = a - b := if_pos h

theorem wrapAdd_of_lt {a b : Nat} (h : a + b < 2 ^ 64) : wrapAdd a b = a + b := Nat.mod_eq_of_lt h

@[simp] theorem wrapAdd_even (a b : Nat) : wrapAdd (wrapAdd a b) b % 2 = a % 2 := by
  simp only [wrapAdd]
  omega

private theorem divCeil_mul {a b : Nat} (hb : 0 < b) :
    a ≤ divCeil a b * b ∧ divCeil a b * b < a + b := by
  have hdiv := Nat.div_add_mod a b
  have hmod := Nat.mod_lt a hb
  rw [divCeil]
  split
  · have hmul : (a / b + 1) * b = b * (a / b) + b := by rw [Nat.add_mul, Nat.one_mul, Nat.mul_comm]
    omega
  · have hmul : a / b * b = b * (a / b) := Nat.mul_comm _ _
    omega

private theorem pageSize_pos (page : PageSize) : 0 < page.bytes := Nat.two_pow_pos _

/-- Where the sum does not wrap, what is mapped holds the header and the data area. -/
theorem mmapSizeFor_ge {page : PageSize} {capacity : Nat} (hmapped : mmapSizeFor page capacity ≠ 0)
    (hfits : headerSize + capacity < 2 ^ 64) :
    headerSize + capacity ≤ mmapSizeFor page capacity := by
  have hsum : wrapAdd headerSize capacity = headerSize + capacity := Nat.mod_eq_of_lt hfits
  obtain ⟨hge, hlt⟩ := divCeil_mul (a := headerSize + capacity) (pageSize_pos page)
  rw [mmapSizeFor, hsum] at hmapped ⊢
  rcases Nat.lt_or_ge (divCeil (headerSize + capacity) page.bytes * page.bytes) (2 ^ 64) with h | h
  · rwa [Nat.mod_eq_of_lt h]
  · -- whole pages, and less than a page too many: exactly the address space
    obtain ⟨k, hk⟩ : page.bytes ∣ 2 ^ 64 := Nat.pow_dvd_pow 2 (by have := page.lt; omega)
    have hpages : divCeil (headerSize + capacity) page.bytes ≤ k := by
      apply Nat.le_of_lt_succ
      apply Nat.lt_of_mul_lt_mul_right (a := page.bytes)
      rw [Nat.succ_mul, Nat.mul_comm k, ← hk]
      omega
    have hexact : divCeil (headerSize + capacity) page.bytes * page.bytes = 2 ^ 64 := by
      apply Nat.le_antisymm _ h
      rw [hk, Nat.mul_comm page.bytes]
      exact Nat.mul_le_mul_right _ hpages
    rw [hexact, Nat.mod_self] at hmapped
    exact absurd rfl hmapped

/-- Whole pages are mapped, with room for the header whether or not the sum has wrapped. -/
theorem header_le_mmapSizeFor {page : PageSize} {capacity : Nat}
    (hmapped : mmapSizeFor page capacity ≠ 0) : headerSize ≤ mmapSizeFor page capacity := by
  have hspace : page.bytes ∣ 2 ^ 64 := Nat.pow_dvd_pow 2 (by have := page.lt; omega)
  have hpages : page.bytes ∣ mmapSizeFor page capacity :=
    (Nat.dvd_mod_iff hspace).mpr (Nat.dvd_mul_left _ _)
  calc headerSize = 2 ^ 9 := rfl
    _ ≤ page.bytes := Nat.pow_le_pow_right (by decide) page.header_le
    _ ≤ mmapSizeFor page capacity := Nat.le_of_dvd (Nat.pos_of_ne_zero hmapped) hpages

theorem create_eq_some {page : PageSize} {capacity : Nat} {r : SharedRingBuffer}
    (h : create page capacity = some r) :
    mmapSizeFor page capacity ≠ 0 ∧ mmapSizeFor page capacity < 2 ^ 63 ∧
      r = ⟨shmMagic, capacity, 0, 0, 0,
        List.replicate (min capacity (mmapSizeFor page capacity - headerSize)) 0⟩ := by
  unfold create at h
  dsimp only at h
  split at h
  · cases h
  · rename_i hsize
    cases h
    obtain ⟨hne, hlt⟩ := not_or.mp hsize
    exact ⟨hne, Nat.lt_of_not_le hlt, rfl⟩

theorem create_capacity {page : PageSize} {capacity : Nat} {r : SharedRingBuffer}
    (h : create page capacity = some r) : r.capacity = capacity := by
  rw [(create_eq_some h).2.2]

/-- A ring of the default size is made on pages of any size. -/
theorem create_default (page : PageSize) :
    ∃ ring, create page defaultRingSize = some ring := by
  have hpage : page.bytes ≤ 2 ^ 62 :=
    Nat.pow_le_pow_right (by decide) (Nat.le_of_lt_succ page.lt)
  have hsum : wrapAdd headerSize defaultRingSize = 1049088 := by decide
  obtain ⟨hge, hlt⟩ := divCeil_mul (a := 1049088) (pageSize_pos page)
  have hsize : mmapSizeFor page defaultRingSize = divCeil 1049088 page.bytes * page.bytes := by
    rw [mmapSizeFor, hsum, Nat.mod_eq_of_lt (by omega)]
  refine ⟨_, if_neg ?_⟩
  rw [hsize]
  omega

theorem create_holds {page : PageSize} {capacity : Nat} {r : SharedRingBuffer}
    (h : create page capacity = some r) (hfits : headerSize + capacity < 2 ^ 64) : r.Holds [] := by
  obtain ⟨hne, hlt, rfl⟩ := create_eq_some h
  have hge := mmapSizeFor_ge hne hfits
  rw [Nat.min_eq_left (by omega)]
  exact ⟨rfl, show capacity < 2 ^ 63 by omega, rfl, rfl, Layout.empty _ _⟩

@[simp] theorem write_capacity (r : SharedRingBuffer) (data : List UInt8) :
    (r.write data).capacity = r.capacity := by
  simp only [write]
  split
  · rfl
  · split
    · rfl
    · split <;> rfl

theorem write_nil (r : SharedRingBuffer) : r.write [] = r := rfl

/-- A block that replaces the whole data area. -/
theorem write_over {r : SharedRingBuffer} {data : List UInt8} (hd : data ≠ [])
    (h : r.capacity ≤ data.length) :
    r.write data =
      { r with
        data := overwrite r.data 0 (data.drop (data.length - r.capacity))
        writePos := 0
        totalWritten := wrapAdd r.totalWritten data.length
        sequence := wrapAdd (wrapAdd r.sequence 1) 1 } := by
  rw [write, if_neg (by simpa using hd), if_pos h]
  rfl

/-- A block copied in one piece. -/
theorem write_within {r : SharedRingBuffer} {data : List UInt8} (hd : data ≠ [])
    (h : data.length < r.capacity) (hp : r.writePos ≤ r.capacity)
    (hfit : data.length ≤ r.capacity - r.writePos) :
    r.write data =
      { r with
        data := overwrite r.data r.writePos data
        writePos := wrapAdd r.writePos data.length % r.capacity
        totalWritten := wrapAdd r.totalWritten data.length
        sequence := wrapAdd (wrapAdd r.sequence 1) 1 } := by
  rw [write, if_neg (by simpa using hd), if_neg (by omega)]
  simp only [wrapSub_of_le hp, if_pos hfit]
  rfl

/-- A block copied in two pieces around the end of the data area. -/
theorem write_wrap {r : SharedRingBuffer} {data : List UInt8} (h : data.length < r.capacity)
    (hp : r.writePos ≤ r.capacity) (hwrap : r.capacity - r.writePos < data.length) :
    r.write data =
      { r with
        data := overwrite (overwrite r.data r.writePos (data.take (r.capacity - r.writePos))) 0
          (data.drop (r.capacity - r.writePos))
        writePos := wrapAdd r.writePos data.length % r.capacity
        totalWritten := wrapAdd r.totalWritten data.length
        sequence := wrapAdd (wrapAdd r.sequence 1) 1 } := by
  have hd : data ≠ [] := by
    intro h0
    rw [h0] at hwrap
    exact absurd hwrap (Nat.not_lt_zero _)
  rw [write, if_neg (by simpa using hd), if_neg (by omega)]
  simp only [wrapSub_of_le hp, if_neg (Nat.not_le.mpr hwrap)]
  rfl

theorem Holds.writePos_le {r : SharedRingBuffer} {S : List UInt8} (h : r.Holds S) :
    r.writePos ≤ r.capacity := by
  rcases h.layout.bound with hb | hb <;> omega

private theorem total_step {t n : Nat} {S data : List UInt8} (ht : t = S.length % 2 ^ 64)
    (hn : data.length = n) : wrapAdd t n = (S ++ data).length % 2 ^ 64 := by
  rw [ht, ← hn, wrapAdd, List.length_append]
  omega

/-- One `write` appends its block to the stream, whichever branch it takes. -/
theorem Holds.write {r : SharedRingBuffer} {S : List UInt8} (h : r.Holds S) (data : List UInt8) :
    (r.write data).Holds (S ++ data) := by
  have hp := h.writePos_le
  have hsmall := h.small
  by_cases hd : data = []
  · subst hd
    rw [write_nil, List.append_nil]
    exact h
  rcases Nat.lt_or_ge data.length r.capacity with hlen | hlen
  · have hpos : wrapAdd r.writePos data.length = r.writePos + data.length :=
      wrapAdd_of_lt (by omega)
    rcases Nat.lt_or_ge (r.capacity - r.writePos) data.length with hwrap | hfit
    · rw [write_wrap hlen hp hwrap, hpos]
      exact ⟨h.magic, h.small, (wrapAdd_even _ _).trans h.even, total_step h.total rfl,
        h.layout.push_wrap hlen hwrap⟩
    · rw [write_within hd hlen hp hfit, hpos]
      exact ⟨h.magic, h.small, (wrapAdd_even _ _).trans h.even, total_step h.total rfl,
        h.layout.push_within hlen hfit⟩
  · rw [write_over hd hlen]
    exact ⟨h.magic, h.small, (wrapAdd_even _ _).trans h.even, total_step h.total rfl,
      h.layout.push_over hlen⟩

/-- `clear` leaves the data bytes where they are: the empty stream does not look at them. -/
theorem Holds.clear {r : SharedRingBuffer} {S : List UInt8} (h : r.Holds S) : r.clear.Holds [] where
  magic := h.magic
  small := h.small
  even := h.even
  total := rfl
  layout :=
    { size := h.layout.size
      bound := by
        change 0 < r.capacity ∨ r.capacity = 0 ∧ (0 : Nat) = 0
        omega
      filling := fun _ => rfl
      window := by
        change contents r.capacity 0 0 r.data = List.rtake [] r.capacity
        have hsize := h.layout.size
        by_cases hc : r.capacity = 0
        · have hdata : r.data = [] := List.eq_nil_of_length_eq_zero (by omega)
          simp [contents, hc, hdata]
        · simp [contents, hc] }

theorem Holds.readSnapshot {r : SharedRingBuffer} {S : List UInt8} (h : r.Holds S) :
    r.readSnapshot = some (r.writePos, r.totalWritten) := by
  rw [SharedRingBuffer.readSnapshot, if_neg (by simp [h.even])]

theorem Holds.total_eq {r : SharedRingBuffer} {S : List UInt8} (h : r.Holds S)
    (hS : S.length < 2 ^ 64) : r.totalWritten = S.length := by
  rw [h.total, Nat.mod_eq_of_lt hS]

/-- What the two branches of `dump` assemble is the window of the layout. -/
theorem slices_eq_contents {r : SharedRingBuffer} {S : List UInt8}
    (h : Layout r.capacity r.writePos r.data S) :
    (if r.capacity ≤ S.length then
        slice r.data r.writePos (r.capacity - r.writePos) ++ slice r.data 0 r.writePos
      else slice r.data 0 r.writePos) = S.rtake r.capacity := by
  rw [← h.window, contents]
  have htail : slice r.data r.writePos (r.capacity - r.writePos) = r.data.drop r.writePos := by
    rw [slice, List.take_of_length_le]
    rw [List.length_drop, h.size]
  rw [htail]
  rfl

/-- `dump` returns the end of the stream. -/
theorem Holds.dump {r : SharedRingBuffer} {S : List UInt8} (h : r.Holds S)
    (hS : S.length < 2 ^ 64) : r.dump = some (S.rtake r.capacity) := by
  have htotal := h.total_eq hS
  have hslices := slices_eq_contents h.layout
  rw [SharedRingBuffer.dump, if_neg (by simp [h.magic]), h.readSnapshot]
  simp only [Option.bind_eq_bind, Option.bind_some, htotal]
  rcases h.layout.bound with hb | ⟨hc, hp⟩
  · rw [if_neg (by omega)]
    by_cases hfull : r.capacity ≤ S.length
    · rw [if_pos hfull] at hslices
      rw [if_pos hfull, if_neg (by omega), if_pos hfull, hslices]
      rfl
    · rw [if_neg hfull] at hslices
      rw [if_neg hfull, hslices]
      by_cases hzero : S.length = 0
      · rw [if_pos hzero, List.eq_nil_of_length_eq_zero hzero, List.rtake_nil]
        rfl
      · rw [if_neg hzero, if_neg hfull]
        rfl
  · rw [if_pos (by omega), hc, List.rtake_zero]
    rfl

/-- Whatever the total has wrapped to, `dump` returns an end of the stream. -/
theorem Holds.dump_suffix {r : SharedRingBuffer} {S bytes : List UInt8} (h : r.Holds S)
    (hdump : r.dump = some bytes) : bytes <:+ S := by
  have htotal : r.totalWritten ≤ S.length := h.total ▸ Nat.mod_le _ _
  have hslices := slices_eq_contents h.layout
  have hend : S.rtake r.capacity <:+ S := List.drop_suffix _ _
  rw [SharedRingBuffer.dump, if_neg (by simp [h.magic]), h.readSnapshot] at hdump
  simp only [Option.bind_eq_bind, Option.bind_some] at hdump
  by_cases hfull : r.capacity ≤ r.totalWritten
  · simp only [if_pos hfull] at hdump
    rw [if_pos (hfull.trans htotal)] at hslices
    split at hdump
    · cases hdump
      exact List.nil_suffix
    · split at hdump
      · cases hdump
        exact List.nil_suffix
      · cases hdump
        rwa [hslices]
  · simp only [if_neg hfull] at hdump
    split at hdump
    · cases hdump
      exact List.nil_suffix
    · split at hdump
      · cases hdump
        exact List.nil_suffix
      · cases hdump
        rcases Nat.lt_or_ge S.length r.capacity with hlt | hge
        · rw [if_neg (Nat.not_le.mpr hlt)] at hslices
          rwa [hslices]
        · -- the total has wrapped below the capacity: only the front of the ring is copied
          rw [if_pos hge] at hslices
          exact (List.suffix_append _ _).trans (hslices ▸ hend)

theorem Holds.dump_isSome {r : SharedRingBuffer} {S : List UInt8} (h : r.Holds S) :
    r.dump.isSome = true := by
  rw [SharedRingBuffer.dump, if_neg (by simp [h.magic]), h.readSnapshot]
  simp only [Option.bind_eq_bind, Option.bind_some]
  split
  · rfl
  · split
    · split <;> rfl
    · split <;> rfl

theorem Holds.len {r : SharedRingBuffer} {S : List UInt8} (h : r.Holds S)
    (hS : S.length < 2 ^ 64) : r.len = min S.length r.capacity := by
  rw [SharedRingBuffer.len, h.total_eq hS]
  split <;> omega

/-- The bytes written since the last `clear`. -/
def Call.stream (S : List UInt8) : Call → List UInt8
  | .write data => S ++ data
  | .clear => []

def Call.size : Call → Nat
  | .write data => data.length
  | .clear => 0

/-- A ring that lies in its mapping lies there whatever is written. -/
theorem Holds.chunks_mapped {r : SharedRingBuffer} {S : List UInt8} (h : r.Holds S)
    (data : List UInt8) : ∀ c ∈ writeChunks r.capacity r.writePos data, r.Mapped c.1 c.2 := by
  have hp := h.writePos_le
  have hsize := h.layout.size
  have hfirst := wrapSub_of_le hp
  intro c hc
  rw [Mapped, hsize]
  simp only [writeChunks, hfirst] at hc
  split at hc
  · rw [List.mem_singleton] at hc
    rw [hc, List.length_drop]
    omega
  · split at hc
    · rw [List.mem_singleton] at hc
      rw [hc]
      change r.writePos + data.length ≤ r.capacity
      omega
    · rcases List.mem_pair.mp hc with rfl | rfl
      · rw [List.length_take]
        omega
      · rw [List.length_drop]
        omega

theorem Holds.writeMapped {r : SharedRingBuffer} {S : List UInt8} (h : r.Holds S)
    (data : List UInt8) : r.writeMapped data = some (r.write data) :=
  if_pos (.inr (h.chunks_mapped data))

/-! ## A ring longer than its mapping -/

/-- The ring is longer than its mapping, and the stream stands at its front. -/
structure Front (r : SharedRingBuffer) (S : List UInt8) : Prop where
  magic : r.magic = shmMagic
  even : r.sequence % 2 = 0
  longer : r.data.length < r.capacity
  small : r.data.length < 2 ^ 63
  room : S.length ≤ r.data.length
  writePos : r.writePos = S.length
  total : r.totalWritten = S.length
  stored : r.data.take S.length = S

/-- The sum in `create` has wrapped. -/
theorem create_front {page : PageSize} {capacity : Nat} {r : SharedRingBuffer}
    (h : create page capacity = some r) (hwraps : 2 ^ 64 ≤ headerSize + capacity) :
    r.Front [] ∧ r.data.length = mmapSizeFor page capacity - headerSize := by
  obtain ⟨_, hlt, rfl⟩ := create_eq_some h
  have hlength : (List.replicate (min capacity (mmapSizeFor page capacity - headerSize))
      (0 : UInt8)).length = mmapSizeFor page capacity - headerSize := by
    rw [List.length_replicate]
    simp only [headerSize] at hwraps ⊢
    omega
  simp only [headerSize] at hwraps
  refine ⟨⟨rfl, rfl, ?_, ?_, Nat.zero_le _, rfl, rfl, List.take_zero⟩, hlength⟩
  · apply hlength.trans_lt
    change _ < capacity
    omega
  · apply hlength.trans_lt
    omega

namespace Front

variable {r : SharedRingBuffer} {S : List UInt8}

/-- What a write needs is room behind the stream. -/
theorem mapped_iff (h : r.Front S) {data : List UInt8} (hd : data ≠ []) :
    (∀ c ∈ writeChunks r.capacity r.writePos data, r.Mapped c.1 c.2) ↔
      S.length + data.length ≤ r.data.length := by
  have hlonger := h.longer
  have hroom := h.room
  have hpos := List.length_pos_of_ne_nil hd
  have hfirst : wrapSub r.capacity r.writePos = r.capacity - S.length := by
    rw [h.writePos, wrapSub_of_le (by omega)]
  simp only [writeChunks, hfirst]
  split
  · rename_i hover
    simp only [List.mem_singleton, forall_eq, Mapped, List.length_drop]
    omega
  · split
    · simp only [List.mem_singleton, forall_eq, Mapped, h.writePos]
    · simp only [List.mem_cons, List.not_mem_nil, or_false, forall_eq_or_imp, forall_eq, Mapped,
        h.writePos, List.length_take, List.length_drop]
      omega

theorem writeMapped (h : r.Front S) (data : List UInt8) :
    r.writeMapped data =
      if S.length + data.length ≤ r.data.length then some (r.write data) else none := by
  have hroom := h.room
  unfold SharedRingBuffer.writeMapped
  by_cases hd : data = []
  · rw [if_pos (.inl hd), if_pos (by rw [hd, List.length_nil]; omega)]
  · simp only [hd, false_or, h.mapped_iff hd]

theorem write (h : r.Front S) {data : List UInt8}
    (hroom : S.length + data.length ≤ r.data.length) :
    (r.write data).Front (S ++ data) ∧ (r.write data).data.length = r.data.length := by
  have hlonger := h.longer
  have hsmall := h.small
  by_cases hd : data = []
  · subst hd
    rw [write_nil, List.append_nil]
    exact ⟨h, rfl⟩
  have hpos : r.writePos ≤ r.capacity := by
    rw [h.writePos]
    omega
  have hlength : (S ++ data).length = S.length + data.length := List.length_append
  have hsum : wrapAdd S.length data.length = S.length + data.length := wrapAdd_of_lt (by omega)
  have hcells : (overwrite r.data S.length data).length = r.data.length := overwrite_length hroom
  have hwrite := write_within hd (by omega) hpos (by rw [h.writePos]; omega)
  rw [h.writePos, h.total, hsum, Nat.mod_eq_of_lt (by omega)] at hwrite
  rw [hwrite]
  refine ⟨⟨h.magic, (wrapAdd_even _ _).trans h.even, ?_, ?_, ?_, hlength.symm, hlength.symm, ?_⟩,
    hcells⟩
  · exact hcells.symm ▸ hlonger
  · exact hcells.symm ▸ hsmall
  · exact hcells.symm ▸ hlength.symm ▸ hroom
  · rw [hlength]
    change (overwrite r.data S.length data).take _ = _
    rw [overwrite, h.stored, ← hlength]
    exact List.take_left

private theorem clear (h : r.Front S) : r.clear.Front [] :=
  ⟨h.magic, h.even, h.longer, h.small, Nat.zero_le _, rfl, rfl, rfl⟩

theorem dump (h : r.Front S) : r.dump = some S := by
  have hlonger := h.longer
  have hroom := h.room
  have hsnapshot : r.readSnapshot = some (S.length, S.length) := by
    rw [SharedRingBuffer.readSnapshot, if_neg (by simp [h.even]), h.writePos, h.total]
  rw [SharedRingBuffer.dump, if_neg (by simp [h.magic]), hsnapshot]
  simp only [Option.bind_eq_bind, Option.bind_some]
  have hunder : ¬ r.capacity ≤ S.length := by omega
  simp only [if_neg hunder]
  split
  · rename_i hzero
    rw [List.eq_nil_of_length_eq_zero hzero]
    rfl
  · rw [slice, List.drop_zero, h.stored]
    rfl

end Front

/-! ## Any sequence of calls -/

/-- The ring is at rest, whether or not it lies in its mapping. -/
def AtRest (r : SharedRingBuffer) (S : List UInt8) : Prop := r.Holds S ∨ r.Front S

theorem create_atRest {page : PageSize} {capacity : Nat} {r : SharedRingBuffer}
    (h : create page capacity = some r) : r.AtRest [] := by
  rcases Nat.lt_or_ge (headerSize + capacity) (2 ^ 64) with hfits | hwraps
  · exact .inl (create_holds h hfits)
  · exact .inr (create_front h hwraps).1

namespace AtRest

variable {r r' : SharedRingBuffer} {S : List UInt8}

theorem even (h : r.AtRest S) : r.sequence % 2 = 0 := by
  rcases h with h | h
  · exact h.even
  · exact h.even

theorem magic (h : r.AtRest S) : r.magic = shmMagic := by
  rcases h with h | h
  · exact h.magic
  · exact h.magic

theorem writeMapped (h : r.AtRest S) {data : List UInt8} (hw : r.writeMapped data = some r') :
    r'.AtRest (S ++ data) ∧ r'.capacity = r.capacity := by
  rcases h with h | h
  · rw [h.writeMapped] at hw
    cases hw
    exact ⟨.inl (h.write data), write_capacity r data⟩
  · rw [h.writeMapped] at hw
    split at hw
    · rename_i hroom
      cases hw
      exact ⟨.inr (h.write hroom).1, write_capacity r data⟩
    · cases hw

private theorem call (h : r.AtRest S) {c : Call} (hc : c.run r = some r') :
    r'.AtRest (c.stream S) ∧ r'.capacity = r.capacity := by
  cases c with
  | write data => exact h.writeMapped hc
  | clear =>
    cases hc
    exact ⟨h.imp Holds.clear Front.clear, rfl⟩

/-- Any sequence of calls keeps the relation between the ring and the stream. -/
theorem calls (h : r.AtRest S) {cs : List Call} (hcs : cs.foldlM Call.run r = some r') :
    r'.AtRest (cs.foldl Call.stream S) ∧ r'.capacity = r.capacity := by
  induction cs generalizing r S with
  | nil =>
    cases hcs
    exact ⟨h, rfl⟩
  | cons c cs ih =>
    rw [List.foldlM_cons] at hcs
    obtain ⟨r₁, hr₁, hrest⟩ := Option.bind_eq_some_iff.mp hcs
    obtain ⟨hcalled, hcap⟩ := h.call hr₁
    obtain ⟨hcalls, hcap'⟩ := ih hcalled hrest
    exact ⟨hcalls, hcap'.trans hcap⟩

theorem total_eq (h : r.AtRest S) (hS : S.length < 2 ^ 64) : r.totalWritten = S.length := by
  rcases h with h | h
  · exact h.total_eq hS
  · exact h.total

private theorem dump (h : r.AtRest S) (hS : S.length < 2 ^ 64) :
    r.dump = some (S.rtake r.capacity) := by
  rcases h with h | h
  · exact h.dump hS
  · rw [h.dump, rtake_of_length_le (h.room.trans (Nat.le_of_lt h.longer))]

private theorem len (h : r.AtRest S) (hS : S.length < 2 ^ 64) :
    r.len = min S.length r.capacity := by
  rw [SharedRingBuffer.len, h.total_eq hS]
  split <;> omega

private theorem writePos_lt (h : r.AtRest S) (hpos : 0 < r.capacity) : r.writePos < r.capacity := by
  rcases h with h | h
  · rcases h.layout.bound with hb | ⟨hb, _⟩
    · exact hb
    · omega
  · rw [h.writePos]
    exact Nat.lt_of_le_of_lt h.room h.longer

end AtRest

private theorem Holds.calls {r : SharedRingBuffer} {S : List UInt8} (h : r.Holds S)
    (cs : List Call) :
    ∃ ring, cs.foldlM Call.run r = some ring ∧ ring.Holds (cs.foldl Call.stream S) := by
  induction cs generalizing r S with
  | nil => exact ⟨r, rfl, h⟩
  | cons c cs ih =>
    cases c with
    | write data =>
      obtain ⟨ring, hring, hholds⟩ := ih (h.write data)
      refine ⟨ring, ?_, hholds⟩
      rw [List.foldlM_cons, Call.run, h.writeMapped]
      exact hring
    | clear => exact ih h.clear

/-- The calls go through as long as the stream never outgrows the mapping. -/
theorem Front.calls_iff {r : SharedRingBuffer} {S : List UInt8} (h : r.Front S) (cs : List Call) :
    (∃ ring, cs.foldlM Call.run r = some ring) ↔
      ∀ n, ((cs.take n).foldl Call.stream S).length ≤ r.data.length := by
  induction cs generalizing r S with
  | nil => simpa using h.room
  | cons c cs ih =>
    have hnext : ∀ r', r'.Front (c.stream S) → r'.data.length = r.data.length →
        ((∃ ring, cs.foldlM Call.run r' = some ring) ↔
          ∀ n, (((c :: cs).take n).foldl Call.stream S).length ≤ r.data.length) := by
      intro r' hfront hsame
      rw [ih hfront, hsame]
      constructor
      · intro hall n
        cases n with
        | zero => exact h.room
        | succ n => exact hall n
      · intro hall n
        exact hall (n + 1)
    rw [List.foldlM_cons]
    cases c with
    | write data =>
      rw [Call.run, h.writeMapped]
      split
      · rename_i hroom
        obtain ⟨hfront, hsame⟩ := h.write hroom
        exact hnext _ hfront hsame
      · rename_i hover
        constructor
        · rintro ⟨ring, hring⟩
          cases hring
        · intro hall
          have hfirst := hall 1
          rw [List.take_succ_cons, List.take_zero, List.foldl_cons, List.foldl_nil, Call.stream,
            List.length_append] at hfirst
          exact absurd hfirst hover
    | clear => exact hnext _ h.clear rfl

private theorem stream_length_le (S : List UInt8) (cs : List Call) :
    (cs.foldl Call.stream S).length ≤ S.length + (cs.map Call.size).sum := by
  induction cs generalizing S with
  | nil => simp
  | cons c cs ih =>
    refine (ih (c.stream S)).trans ?_
    cases c with
    | write data => simp [Call.stream, Call.size, Nat.add_assoc]
    | clear => simp [Call.stream, Call.size]

theorem rtake_min (S : List UInt8) (n : Nat) : S.rtake (min S.length n) = S.rtake n := by
  rcases Nat.le_total S.length n with h | h
  · rw [min_eq_left h, rtake_of_length_le h, rtake_of_length_le (le_refl _)]
  · rw [min_eq_right h]

/-- The calls go through and leave the end of the stream in the ring, just when the sum in `create`
has not wrapped or the stream never outgrows what is mapped. -/
theorem calls_contents_iff {page : PageSize} {capacity : Nat} {r : SharedRingBuffer}
    (hr : create page capacity = some r) (cs : List Call)
    (hsum : (cs.map Call.size).sum < 2 ^ 64) :
    (∃ ring, cs.foldlM Call.run r = some ring ∧
      let S := cs.foldl Call.stream []
      ring.dump = some (S.rtake (min S.length capacity)) ∧
        ring.len = min S.length capacity ∧
        ring.totalWritten = S.length ∧
        (0 < capacity → ring.writePos < capacity)) ↔
      headerSize + capacity < 2 ^ 64 ∨
        ∀ n, ((cs.take n).foldl Call.stream []).length ≤
          mmapSizeFor page capacity - headerSize := by
  have hS : (cs.foldl Call.stream []).length < 2 ^ 64 :=
    (stream_length_le [] cs).trans_lt (by simpa using hsum)
  have hdone : (∃ ring, cs.foldlM Call.run r = some ring) ↔
      headerSize + capacity < 2 ^ 64 ∨
        ∀ n, ((cs.take n).foldl Call.stream []).length ≤
          mmapSizeFor page capacity - headerSize := by
    rcases Nat.lt_or_ge (headerSize + capacity) (2 ^ 64) with hfits | hwraps
    · obtain ⟨ring, hring, _⟩ := (create_holds hr hfits).calls cs
      exact iff_of_true ⟨ring, hring⟩ (.inl hfits)
    · obtain ⟨hfront, hlength⟩ := create_front hr hwraps
      rw [hfront.calls_iff, hlength]
      exact (or_iff_right (Nat.not_lt_of_le hwraps)).symm
  rw [← hdone]
  constructor
  · rintro ⟨ring, hring, _⟩
    exact ⟨ring, hring⟩
  · rintro ⟨ring, hring⟩
    obtain ⟨hrest, hcap⟩ := (create_atRest hr).calls hring
    rw [create_capacity hr] at hcap
    refine ⟨ring, hring, ?_, ?_, hrest.total_eq hS, ?_⟩
    · rw [hrest.dump hS, hcap, rtake_min]
    · rw [hrest.len hS, hcap]
    · rw [← hcap]
      exact hrest.writePos_lt

/-- Blocks that wrap and overflow a ring of four bytes, and a clear. -/
theorem calls_contents_iff_overflow :
    ∃ ring, [Call.write [1, 2, 3], .write [4, 5, 6, 7, 8, 9], .clear, .write [7, 8, 9]].foldlM
        Call.run ⟨shmMagic, 4, 0, 0, 0, [0, 0, 0, 0]⟩ = some ring ∧
      ring.dump = some ([7, 8, 9] : List UInt8) ∧ ring.writePos < 4 := by
  have hr : create page4096 4 = some ⟨shmMagic, 4, 0, 0, 0, [0, 0, 0, 0]⟩ := by decide
  obtain ⟨ring, hring, hdump, _, _, hpos⟩ := (calls_contents_iff hr
    [.write [1, 2, 3], .write [4, 5, 6, 7, 8, 9], .clear, .write [7, 8, 9]] (by decide)).mpr
      (.inl (by decide))
  exact ⟨ring, hring, hdump, hpos (by decide)⟩

/-- A ring of `usize::MAX` bytes gets one page. -/
theorem create_max :
    mmapSizeFor page4096 (2 ^ 64 - 1) = 4096 ∧ ∃ r, create page4096 (2 ^ 64 - 1) = some r := by
  have hsize : mmapSizeFor page4096 (2 ^ 64 - 1) = 4096 := by decide
  refine ⟨hsize, ?_⟩
  rw [create, hsize, if_neg (by decide)]
  exact ⟨_, rfl⟩

/-- The block that outgrows this page leaves the mapping. -/
theorem write_leaves_mapping :
    ∃ r, create page4096 (2 ^ 64 - 1) = some r ∧
      ¬ ∃ ring, [Call.write (List.replicate 3585 0)].foldlM Call.run r = some ring ∧
        ring.dump = some (List.replicate 3585 0) := by
  obtain ⟨hsize, r, hr⟩ := create_max
  obtain ⟨hfront, hlength⟩ := create_front hr (by decide)
  refine ⟨r, hr, ?_⟩
  rintro ⟨ring, hring, _⟩
  rw [List.foldlM_cons, Call.run, hfront.writeMapped, hlength, hsize, List.length_replicate,
    if_neg (by decide)] at hring
  cases hring

end SharedRingBuffer

end PtyDaemon
