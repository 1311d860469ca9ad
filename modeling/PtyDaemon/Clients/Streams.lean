import PtyDaemon.Server.Frame
import PtyDaemon.SharedRing.Contents

/-!
# What the PTYs have put out

Output of a PTY is read by the daemon, which feeds it to the parser, or by a client, which only
writes it to the ring. The state records what every PTY has put out and how much of it there was
when the session was last attached.
-/

namespace PtyDaemon

open Server

structure Streams where
  server : Server
  /-- the bytes of each PTY that a reader has consumed, in order -/
  out : Uuid → List UInt8
  /-- how many of them there were when the session was last attached -/
  mark : Uuid → Nat

namespace Server

instance (σ : Server) (id : Uuid) : Decidable (σ.attachedAt id) :=
  decidable_of_iff ((σ.sessions.lookup id).any Session.isAttached = true) <| by
    simp only [Option.any_eq_true, attachedAt, Session.isAttached, decide_eq_true_eq]

/-- A dup of the master has gone to some connection. -/
def passedOn (σ : Server) (id : Uuid) : Bool :=
  σ.trace.any fun
    | .sent _ (.fd i) => i = id
    | _ => false

end Server

/-- What the acts of a step have read from the PTY of `id`. -/
def readFrom (id : Uuid) (acts : List Act) : List UInt8 :=
  acts.flatMap fun
    | .ptyRead i data => if i = id then data else []
    | _ => []

namespace Streams

inductive Label
  | daemon (e : Event)
  /-- a client reads from its dup and writes what it got to the ring -/
  | clientRead (id : Uuid) (data : List UInt8)

variable {J : Codec} {w w' : Streams} {σ' : Server}

/-- The daemon has gone from `w.server` to `σ'`. -/
def advance (w : Streams) (σ' : Server) : Streams :=
  let out := fun id => w.out id ++ readFrom id (newActs w.server σ')
  { server := σ'
    out := out
    mark := fun id =>
      if σ'.attachedAt id ∧ ¬ w.server.attachedAt id then (out id).length else w.mark id }

def clientRead (w : Streams) (id : Uuid) (s : Session) (data : List UInt8) : Streams :=
  { w with
    server := w.server.putSession id { s with sharedRing := s.sharedRing.write data }
    out := fun i => if i = id then w.out i ++ data else w.out i }

def step (J : Codec) (w : Streams) : Label → Option Streams
  | .daemon e => (w.server.event J e).toOption.map w.advance
  | .clientRead id data =>
    if w.server.passedOn id then
      (w.server.sessions.lookup id).map fun s => w.clientRead id s data
    else none

def new (listener : RawFd) (wakeup : Option (RawFd × RawFd)) (now : Nat) : Streams :=
  ⟨Server.new listener wakeup now, fun _ => [], fun _ => 0⟩

def system (J : Codec) : Transition.System Streams Label where
  init w := ∃ listener wakeup now, w = new listener wakeup now
  step := step J

/-- The rings hold the end of what the PTYs have put out. -/
structure RingInv (w : Streams) : Prop where
  server : Inv w.server
  unborn : ∀ {id}, id ∉ w.server.ids → w.out id = []
  ring : ∀ {id c}, w.server.coreOf id = some c →
    c.sharedRing.Holds (w.out id) ∧ c.sharedRing.capacity = defaultRingSize

theorem advance_quiet {acts : List Act} (hacts : σ'.trace = acts ++ w.server.trace)
    (hread : ∀ id bytes, .ptyRead id bytes ∉ acts) (id : Uuid) :
    (w.advance σ').out id = w.out id := by
  have hnone : readFrom id (newActs w.server σ') = [] := by
    rw [newActs_eq hacts, readFrom, List.flatMap_eq_nil_iff]
    intro a ha
    cases a with
    | ptyRead i data => exact absurd (List.mem_reverse.mp ha) (hread i data)
    | _ => rfl
  exact (congrArg (w.out id ++ ·) hnone).trans (List.append_nil _)

/-- A local client that reads changes nothing of a session but the ring. -/
theorem clientRead_map {β : Type} (f : Session → β)
    (hf : ∀ (s : Session) (ring : SharedRingBuffer), f { s with sharedRing := ring } = f s)
    {id : Uuid} {s : Session} (hs : w.server.sessions.lookup id = some s) (data : List UInt8)
    (i : Uuid) :
    ((w.clientRead id s data).server.sessions.lookup i).map f =
      (w.server.sessions.lookup i).map f := by
  rw [clientRead, lookup_putSession]
  split
  · rename_i hi
    rw [hi, hs, Option.map_some, Option.map_some, hf]
  · rfl

theorem attachedAt_iff {σ : Server} {id : Uuid} {c : Core} (hc : σ.coreOf id = some c) :
    σ.attachedAt id ↔ c.state = .attached := by
  obtain ⟨s, hs, rfl⟩ := Option.map_eq_some_iff.mp hc
  constructor
  · rintro ⟨t, ht, hatt⟩
    cases Option.some.inj (hs.symm.trans ht)
    exact hatt
  · exact fun hatt => ⟨s, hs, hatt⟩

/-- After the handlers of requests, commands and the kernel's other events every session was there
before, with the same bytes, or is new. -/
theorem handled_cases {P : Uuid → Prop} {e : Event} (hinv : Inv w.server)
    (hout : Outcome P (w.server.arrive e) σ') {id : Uuid} {c' : Core}
    (hc' : σ'.coreOf id = some c') :
    (∃ c, w.server.coreOf id = some c ∧ c'.sharedRing = c.sharedRing ∧ c'.fed = c.fed ∧
        (c.state = .attached → c'.state ≠ .attached → P id)) ∨
      id ∉ w.server.ids ∧ (∃ page, SharedRingBuffer.create page defaultRingSize =
        some c'.sharedRing) ∧ c'.fed = some [] := by
  obtain ⟨hids, hcore, _, _⟩ := arrive_same w.server e
  have hkept := hout.kept (hinv.arrive e)
  by_cases hid : id ∈ (w.server.arrive e).ids
  · obtain ⟨c, hc, hring, hfed⟩ := hkept.bytes hid hc'
    rw [hcore] at hc
    refine .inl ⟨c, hc, hring, hfed, fun hatt hatt' => ?_⟩
    by_contra hP
    have hstill := hkept.still hid hP hc'
    rw [hcore] at hstill
    cases Option.some.inj (hc.symm.trans hstill)
    exact hatt' hatt
  · exact .inr ⟨hids ▸ hid, hkept.born hid hc'⟩

/-- Handlers read nothing. -/
theorem handled_out {P : Uuid → Prop} {e : Event} (hout : Outcome P (w.server.arrive e) σ')
    (id : Uuid) : (w.advance σ').out id = w.out id := by
  obtain ⟨acts, hacts, hread, _⟩ := hout.acts
  rw [(arrive_same w.server e).2.2.2] at hacts
  exact advance_quiet hacts hread id

private theorem handled_ids {P : Uuid → Prop} {e : Event} (hinv : Inv w.server)
    (hout : Outcome P (w.server.arrive e) σ') {id : Uuid} (hid : id ∉ σ'.ids) :
    id ∉ w.server.ids := by
  intro hid'
  refine hid ((hout.kept (hinv.arrive e)).ids ?_)
  rwa [(arrive_same w.server e).1]

/-- A connection is lost: its sessions have seen the ring, the others have not changed. -/
theorem lost_cases {fd : RawFd} (hdisc : Disconnected fd w.server σ') {id : Uuid} {c' : Core}
    (hc' : σ'.coreOf id = some c') : ∃ s, w.server.sessions.lookup id = some s ∧
      ((s.ownerFd ≠ some fd ∧ c' = (s.forget fd).core) ∨
        s.ownerFd = some fd ∧ ∃ ringData, s.sharedRing.dump = some ringData ∧
          c' = ((s.forget fd).crashed ringData).core) := by
  obtain ⟨s', hs', rfl⟩ := Option.map_eq_some_iff.mp hc'
  cases hs : w.server.sessions.lookup id with
  | none => cases (hdisc.absent hs).symm.trans hs'
  | some s =>
    refine ⟨s, rfl, ?_⟩
    by_cases howner : s.ownerFd = some fd
    · obtain ⟨ringData, hdump, hlookup⟩ := hdisc.owned hs howner
      have hring : (s.forget fd).sharedRing = s.sharedRing :=
        congrArg Core.sharedRing (s.forget_core fd)
      cases Option.some.inj (hlookup.symm.trans hs')
      exact .inr ⟨howner, ringData, hring ▸ hdump, rfl⟩
    · cases Option.some.inj ((hdisc.others hs howner).symm.trans hs')
      exact .inl ⟨howner, rfl⟩

theorem lost_out {fd : RawFd} (hdisc : Disconnected fd w.server σ') (id : Uuid) :
    (w.advance σ').out id = w.out id := by
  have hacts : σ'.trace = [] ++ w.server.trace := hdisc.trace
  exact advance_quiet hacts (fun _ _ h => nomatch h) id

theorem read_out {id : Uuid} {bytes : List UInt8} (hread : Server.Read id bytes w.server σ')
    (i : Uuid) : (w.advance σ').out i = if i = id then w.out id ++ bytes else w.out i := by
  obtain ⟨_, _, _, _, _, _, _, _, _, htrace⟩ := hread.spec
  refine (congrArg (fun acts => w.out i ++ readFrom i acts) (newActs_eq htrace)).trans ?_
  by_cases hi : i = id
  · simp [readFrom, hi]
  · simp [readFrom, hi, Ne.symm hi]

theorem RingInv.event (h : RingInv w) {e : Event} (hevent : w.server.event J e = .ok σ') :
    RingInv (w.advance σ') := by
  have hinv := event_inv h.server hevent
  cases event_effect h.server hevent with
  | handled hout =>
    constructor
    case server => exact hinv
    case unborn =>
      intro id hid
      rw [handled_out hout]
      exact h.unborn (handled_ids h.server hout hid)
    case ring =>
      intro id c' hc'
      rw [handled_out hout]
      rcases handled_cases h.server hout hc' with ⟨c, hc, hring, _, _⟩ | ⟨hid, hring, _⟩
      · rw [hring]
        exact h.ring hc
      · rw [h.unborn hid]
        obtain ⟨page, hring⟩ := hring
        exact ⟨SharedRingBuffer.create_holds hring (by decide),
          SharedRingBuffer.create_capacity hring⟩
  | lost _ _ hdisc =>
    constructor
    case server => exact hinv
    case unborn =>
      intro id hid
      rw [lost_out hdisc]
      exact h.unborn (hdisc.ids ▸ hid)
    case ring =>
      intro id c' hc'
      obtain ⟨s, hs, hc⟩ := lost_cases hdisc hc'
      have hforget : ∀ fd, (s.forget fd).core.sharedRing = s.core.sharedRing := by
        intro fd
        rw [Session.forget_core]
      have hring : c'.sharedRing = s.core.sharedRing := by
        rcases hc with ⟨_, rfl⟩ | ⟨_, ringData, _, rfl⟩
        · exact hforget _
        · exact hforget _
      rw [lost_out hdisc, hring]
      exact h.ring (coreOf_eq_some hs)
  | @read fd id bytes env _ hread =>
    have hout := read_out hread
    obtain ⟨s, s', hs, _, _, hs', hcore, _, hids, _⟩ := hread.spec
    constructor
    case server => exact hinv
    case unborn =>
      intro i hi
      have hi : i ∉ w.server.ids := hids ▸ hi
      have hne : i ≠ id := by
        rintro rfl
        exact hi (h.server.session (coreOf_eq_some hs)).known
      rw [hout, if_neg hne]
      exact h.unborn hi
    case ring =>
      intro i c (hc : σ'.coreOf i = some c)
      rw [hcore] at hc
      rw [hout]
      by_cases hi : i = id
      · rw [if_pos hi] at hc ⊢
        cases hc
        obtain ⟨hholds, hcap⟩ := h.ring (coreOf_eq_some hs)
        rw [hs']
        exact ⟨hholds.write bytes, (SharedRingBuffer.write_capacity _ bytes).trans hcap⟩
      · rw [if_neg hi] at hc ⊢
        exact h.ring hc

/-- A client reads: only the ring changes. -/
theorem RingInv.clientRead (h : RingInv w) {id : Uuid} {s : Session}
    (hs : w.server.sessions.lookup id = some s) (data : List UInt8) :
    RingInv (w.clientRead id s data) := by
  let s' : Session := { s with sharedRing := s.sharedRing.write data }
  have hok := h.server.session (coreOf_eq_some hs)
  have hcore : ∀ i, (w.clientRead id s data).server.coreOf i =
      if i = id then some s'.core else w.server.coreOf i := coreOf_putSession w.server id s'
  have hout : ∀ i, (w.clientRead id s data).out i =
      if i = id then w.out i ++ data else w.out i := fun i => rfl
  constructor
  case server =>
    refine h.server.replace hs rfl ?_ rfl (fun _ _ => Iff.rfl) rfl rfl rfl
      (List.nil_append _).symm (fun _ _ _ h => nomatch h) fun conn => h.server.history
    exact ⟨hok.key, hok.known, hok.nonneg, hok.master, hok.owned, hok.owner, hok.previous,
      hok.registered⟩
  case unborn =>
    intro i hi
    have hne : i ≠ id := by
      rintro rfl
      exact hi hok.known
    rw [hout, if_neg hne]
    exact h.unborn hi
  case ring =>
    intro i c hc
    rw [hcore] at hc
    rw [hout]
    by_cases hi : i = id
    · subst hi
      rw [if_pos rfl] at hc ⊢
      cases hc
      obtain ⟨hholds, hcap⟩ := h.ring (coreOf_eq_some hs)
      exact ⟨hholds.write data, (SharedRingBuffer.write_capacity _ data).trans hcap⟩
    · rw [if_neg hi] at hc ⊢
      exact h.ring hc

theorem RingInv.start (listener : RawFd) (wakeup : Option (RawFd × RawFd)) (now : Nat) :
    RingInv (new listener wakeup now) :=
  ⟨new_inv listener wakeup now, fun _ => rfl, fun h => (nomatch h)⟩

end Streams

end PtyDaemon
