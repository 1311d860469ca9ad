import PtyDaemon.Server.Disconnect
import PtyDaemon.SharedRing.Writer

/-!
# A client killed while it writes

A client may be killed after any number of the steps of `write`. What the daemon finds in the
ring then decides whether its crash detach comes to an end: `fetch_add` moves the parity of the
sequence, so a process killed inside the lock leaves it the other way round for good.
-/

namespace PtyDaemon

namespace SharedRingBuffer

/-- Where `write data` begins. -/
def Writer.start (data : List UInt8) : Writer :=
  if data.isEmpty then .idle else .loadWritePos data

/-- The ring left by a process that is killed after `n` steps of `write data`. -/
def leftBy (r : SharedRingBuffer) (data : List UInt8) (n : Nat) : SharedRingBuffer :=
  ((fun p => p.2.step p.1)^[n] (r, Writer.start data)).1

/-- After `n` steps `write` is between `seq_begin_write` and `seq_end_write`, which come after two
loads, the copies, and two stores in between. -/
def InsideLock (r : SharedRingBuffer) (data : List UInt8) (n : Nat) : Prop :=
  data ≠ [] ∧ 2 + (writeChunks r.capacity r.writePos data).length < n ∧
    n ≤ 2 + (writeChunks r.capacity r.writePos data).length + 3

def Op.isFetchAdd : Op → Bool
  | .seqBeginWrite => true
  | .seqEndWrite => true
  | _ => false

private theorem wrapAdd_one_parity (s : Nat) : wrapAdd s 1 % 2 = (s + 1) % 2 := by
  rw [wrapAdd]
  omega

private theorem ops_parity (ops : List Op) (r : SharedRingBuffer) :
    (ops.foldl Op.apply r).sequence % 2 = (r.sequence + ops.countP Op.isFetchAdd) % 2 := by
  induction ops generalizing r with
  | nil => rfl
  | cons op ops ih =>
    rw [List.foldl_cons, ih, List.countP_cons]
    have hadd := wrapAdd_one_parity r.sequence
    cases op with
    | seqBeginWrite =>
      simp only [Op.apply, seqBeginWrite, Op.isFetchAdd, if_true]
      omega
    | seqEndWrite =>
      simp only [Op.apply, seqEndWrite, Op.isFetchAdd, if_true]
      omega
    | copy i block => rfl
    | storeWritePos v => rfl
    | storeTotalWritten v => rfl

private theorem run_ops (data : List UInt8) (ops : List Op) (r : SharedRingBuffer) (n : Nat) :
    ((fun p => p.2.step p.1)^[n] (r, Writer.next data ops)).1 =
      (ops.take n).foldl Op.apply r := by
  induction n generalizing r ops with
  | zero => rfl
  | succ n ih =>
    rw [Function.iterate_succ_apply]
    cases ops with
    | nil =>
      have hidle := ih [] r
      rw [List.take_nil] at hidle ⊢
      exact hidle
    | cons op ops => exact ih ops (op.apply r)

private theorem countP_take_writeOps (r : SharedRingBuffer) (data : List UInt8) (n : Nat) :
    ((writeOps r.capacity r.writePos r.totalWritten data).take n).countP Op.isFetchAdd =
      if n ≤ (writeChunks r.capacity r.writePos data).length then 0
      else if n ≤ (writeChunks r.capacity r.writePos data).length + 3 then 1 else 2 := by
  let chunks := writeChunks r.capacity r.writePos data
  have hcopies : ∀ l : List (Nat × List UInt8),
      (l.map fun c => Op.copy c.1 c.2).countP Op.isFetchAdd = 0 := by
    intro l
    rw [List.countP_eq_zero]
    intro op hop
    obtain ⟨c, _, rfl⟩ := List.mem_map.mp hop
    exact Bool.false_ne_true
  rw [writeOps, List.take_append, List.countP_append, ← List.map_take, hcopies, Nat.zero_add,
    List.length_map]
  generalize (writeChunks r.capacity r.writePos data).length = k
  by_cases hn : n ≤ k
  · rw [if_pos hn, Nat.sub_eq_zero_of_le hn]
    rfl
  · rw [if_neg hn]
    obtain ⟨m, rfl⟩ : ∃ m, n = k + 1 + m := ⟨n - (k + 1), by omega⟩
    have hsub : k + 1 + m - k = m + 1 := by omega
    rw [hsub]
    rcases m with _ | _ | _ | m
    · rw [if_pos (by omega)]
      rfl
    · rw [if_pos (by omega)]
      rfl
    · rw [if_pos (by omega)]
      rfl
    · rw [if_neg (by omega)]
      simp [counterOps, List.countP_cons, Op.isFetchAdd]

/-- The parity of the sequence a killed writer leaves. -/
theorem leftBy_parity (r : SharedRingBuffer) (data : List UInt8) (n : Nat) :
    (InsideLock r data n ∧ (r.leftBy data n).sequence % 2 = (r.sequence + 1) % 2) ∨
      (¬ InsideLock r data n ∧ (r.leftBy data n).sequence % 2 = r.sequence % 2) := by
  have hidle : ∀ n, ((fun p => p.2.step p.1)^[n] (r, Writer.idle)).1 = r := fun n => by
    have h := run_ops [] [] r n
    rwa [List.take_nil] at h
  by_cases hd : data = []
  · refine .inr ⟨fun h => h.1 hd, ?_⟩
    rw [leftBy, Writer.start, hd, List.isEmpty_nil, if_pos rfl, hidle]
  · have hstart : Writer.start data = .loadWritePos data := by
      rw [Writer.start, List.isEmpty_eq_false_iff.mpr hd, if_neg Bool.false_ne_true]
    rcases n with _ | _ | n
    · exact .inr ⟨fun h => by have := h.2.1; omega, by rw [leftBy, hstart]; rfl⟩
    · exact .inr ⟨fun h => by have := h.2.1; omega, by rw [leftBy, hstart]; rfl⟩
    · have hleft : r.leftBy data (n + 2) =
          ((writeOps r.capacity r.writePos r.totalWritten data).take n).foldl Op.apply r := by
        rw [leftBy, hstart]
        exact run_ops data _ r n
      rw [hleft, ops_parity, countP_take_writeOps]
      simp only [InsideLock]
      by_cases hcopying : n ≤ (writeChunks r.capacity r.writePos data).length
      · rw [if_pos hcopying]
        exact .inr ⟨fun h => by omega, rfl⟩
      · rw [if_neg hcopying]
        by_cases hlocked : n ≤ (writeChunks r.capacity r.writePos data).length + 3
        · rw [if_pos hlocked]
          exact .inl ⟨⟨hd, by omega, by omega⟩, rfl⟩
        · rw [if_neg hlocked]
          exact .inr ⟨fun h => by omega, by omega⟩

private theorem write_parity (r : SharedRingBuffer) (data : List UInt8) :
    (r.write data).sequence % 2 = r.sequence % 2 := by
  by_cases hd : data = []
  · rw [hd]
    rfl
  · have h₁ := wrapAdd_one_parity r.sequence
    have h₂ := wrapAdd_one_parity (wrapAdd r.sequence 1)
    rw [write_sequence r hd]
    omega

private theorem writes_parity (r : SharedRingBuffer) (blocks : List (List UInt8)) :
    (blocks.foldl write r).sequence % 2 = r.sequence % 2 := by
  induction blocks generalizing r with
  | nil => rfl
  | cons b blocks ih => rw [List.foldl_cons, ih, write_parity]

theorem dump_isSome_of_even {r : SharedRingBuffer} (h : r.sequence % 2 = 0) :
    ∃ bytes, r.dump = some bytes := by
  rw [dump_eq_slices]
  split
  · exact ⟨[], rfl⟩
  · rw [readSnapshot, if_neg (by rw [h]; exact fun h => h rfl)]
    exact ⟨_, rfl⟩

end SharedRingBuffer

namespace Server

variable {σ σ' : Server} {fd : RawFd}

private theorem crashDetach_rings {id : Uuid} {masterFd : RawFd}
    (h : σ.crashDetach id masterFd = .ok σ') (i : Uuid) :
    (σ'.sessions.lookup i).map Session.sharedRing =
      (σ.sessions.lookup i).map Session.sharedRing := by
  have hpending : (σ.closePending id).sessions = σ.sessions := by
    unfold closePending
    split <;> rfl
  unfold crashDetach at h
  dsimp only at h
  split at h
  · cases h
    exact congrArg (fun t : Sessions => (t.lookup i).map Session.sharedRing) hpending
  · rename_i s hs
    split at h
    · cases h
    · cases h
      refine (congrArg (Option.map Session.sharedRing) (lookup_putSession _ id i _)).trans ?_
      by_cases hi : i = id
      · rw [if_pos hi, hi, ← hpending, hs]
        rfl
      · rw [if_neg hi, hpending]

private theorem crashAll_ends (l : List (Uuid × RawFd))
    (hdump : ∀ p ∈ l, ∀ s, σ.sessions.lookup p.1 = some s →
      ∃ bytes, s.sharedRing.dump = some bytes) :
    ∃ σ', l.foldlM (fun σ p => σ.crashDetach p.1 p.2) σ = .ok σ' := by
  induction l generalizing σ with
  | nil => exact ⟨σ, rfl⟩
  | cons p l ih =>
    have hpending : (σ.closePending p.1).sessions = σ.sessions := by
      unfold closePending
      split <;> rfl
    obtain ⟨τ, hτ⟩ : ∃ τ, σ.crashDetach p.1 p.2 = .ok τ := by
      unfold crashDetach
      dsimp only
      rw [hpending]
      cases hs : σ.sessions.lookup p.1 with
      | none => exact ⟨_, rfl⟩
      | some s =>
        obtain ⟨bytes, hbytes⟩ := hdump p List.mem_cons_self s hs
        dsimp only
        rw [hbytes]
        exact ⟨_, rfl⟩
    obtain ⟨σ', hσ'⟩ := @ih τ fun q hq s hs => by
      have hring := crashDetach_rings hτ q.1
      rw [hs, Option.map_some] at hring
      obtain ⟨t, ht, hsame⟩ := Option.map_eq_some_iff.mp hring.symm
      rw [← hsame]
      exact hdump q (List.mem_cons_of_mem p hq) t ht
    refine ⟨σ', ?_⟩
    rw [List.foldlM_cons, hτ]
    exact hσ'

/-- The loss of a connection is handled to the end if the dumps of its sessions return. -/
theorem handleClientDisconnect_ends (hinv : Inv σ)
    (hdump : ∀ id s, σ.sessions.lookup id = some s → s.ownerFd = some fd →
      ∃ bytes, s.sharedRing.dump = some bytes) :
    ∃ σ', σ.handleClientDisconnect fd = .ok σ' := by
  rw [handleClientDisconnect_eq]
  refine crashAll_ends _ ?_
  intro p hp s hs
  obtain ⟨i, t, ht, howner, rfl⟩ := mem_toDetach.mp hp
  rw [lookup_dropped] at hs ht
  obtain ⟨u, hu, rfl⟩ := Option.map_eq_some_iff.mp ht
  obtain ⟨v, hv, rfl⟩ := Option.map_eq_some_iff.mp hs
  have hring : (v.forget fd).sharedRing = v.sharedRing :=
    congrArg Core.sharedRing (v.forget_core fd)
  have hid : (u.forget fd).id = i :=
    (congrArg Core.id (u.forget_core fd)).trans (hinv.sessionsOpen.key hu)
  rw [hid] at hv
  have hsame : u = v := Option.some.inj (hu.symm.trans hv)
  rw [Session.forget_ownerFd] at howner
  rw [hring, ← hsame]
  exact hdump i u hu howner

end Server

namespace SharedRingBuffer

open Server

/-- The daemon gets over a writer killed after `n` steps of `write data`: the reader that nobody
disturbs returns, the crash detach of the session ends, and after further writes of the daemon
every `read_snapshot` returns. -/
def Survived (r : SharedRingBuffer) (data : List UInt8) (n : Nat) : Prop :=
  (∃ k bytes, ((Reader.step (r.leftBy data n))^[k] .magic).returned = some bytes) ∧
  (∀ (σ : Server) (fd : RawFd) (id : Uuid) (s : Session), Inv σ →
    σ.sessions.lookup id = some s → s.ownerFd = some fd → s.sharedRing = r.leftBy data n →
    (∀ i t, i ≠ id → σ.sessions.lookup i = some t → t.ownerFd = some fd →
      ∃ bytes, t.sharedRing.dump = some bytes) →
    ∃ σ', σ.handleClientDisconnect fd = .ok σ') ∧
  ∀ blocks : List (List UInt8), blocks ≠ [] → (∀ b ∈ blocks, b ≠ []) →
    (blocks.foldl write (r.leftBy data n)).sequence % 2 = 0 ∧
      ∃ p, (blocks.foldl write (r.leftBy data n)).readSnapshot = some p

/-- A killed writer does no harm exactly when it leaves the sequence even: an even one outside the
lock, or one that was odd already inside it. -/
theorem survived_iff (r : SharedRingBuffer) (data : List UInt8) (n : Nat) :
    Survived r data n ↔
      r.sequence % 2 = 0 ∧ ¬ InsideLock r data n ∨ r.sequence % 2 = 1 ∧ InsideLock r data n := by
  have heven : Survived r data n ↔ (r.leftBy data n).sequence % 2 = 0 := by
    constructor
    · rintro ⟨_, _, hlater⟩
      have hone := (hlater [[0]] (by simp) (by simp)).1
      rwa [writes_parity] at hone
    · intro hleft
      obtain ⟨bytes, hbytes⟩ := dump_isSome_of_even hleft
      refine ⟨?_, ?_, ?_⟩
      · obtain ⟨k, hk⟩ := (dump_alone _ bytes).mpr hbytes
        exact ⟨k, bytes, hk⟩
      · intro σ fd id s hinv hs _ hring hothers
        refine handleClientDisconnect_ends hinv fun i t ht htowner => ?_
        by_cases hi : i = id
        · subst hi
          cases Option.some.inj (hs.symm.trans ht)
          exact ⟨bytes, hring ▸ hbytes⟩
        · exact hothers i t hi ht htowner
      · intro blocks _ _
        have hparity := (writes_parity (r.leftBy data n) blocks).trans hleft
        refine ⟨hparity, _, if_neg ?_⟩
        rw [hparity]
        exact fun h => h rfl
  rw [heven]
  rcases leftBy_parity r data n with ⟨hin, hparity⟩ | ⟨hout, hparity⟩
  · rw [hparity]
    simp only [hin, not_true, and_false, and_true, false_or]
    omega
  · rw [hparity]
    simp only [hout, not_false_iff, and_true, and_false, or_false]

/-- A process killed right after `seq_begin_write`: the sequence stays odd. -/
theorem killed_inside_lock :
    ¬ ∀ (r : SharedRingBuffer) (data : List UInt8) (n : Nat), Survived r data n := by
  intro h
  let ring : SharedRingBuffer := ⟨shmMagic, 2, 0, 0, 0, [0, 0]⟩
  obtain ⟨k, bytes, hk⟩ := (h ring [1] 4).1
  have hhangs : (ring.leftBy [1] 4).dump = none := by decide
  cases hhangs.symm.trans ((dump_alone _ bytes).mp ⟨k, hk⟩)

end SharedRingBuffer

end PtyDaemon
