import PtyDaemon.Clients.Streams

/-!
# What the parser has seen

Of the ways an attachment can end only the crash detach replays the ring, and it replays all of it.
-/

namespace PtyDaemon

open Server Circular

namespace Streams

variable {J : Codec} {w w' : Streams} {σ' : Server}

/-- Clients read only while the session is attached; an attachment during which a client has read
something ends by a crash, and then it began before there was any output. -/
def Replayable (w : Streams) : Label → Prop
  | .daemon e => ∀ id s, w.server.sessions.lookup id = some s → s.state = .attached →
    (w.server.eventMoves e id → w.mark id = (w.out id).length) ∧
    ∀ fd, e = .disconnect fd → s.ownerFd = some fd → w.mark id = 0
  | .clientRead id data => w.server.attachedAt id ∨ data = []

/-- The bytes the parser should have seen by now. -/
def seen (w : Streams) (id : Uuid) (c : Core) : List UInt8 :=
  if c.state = .attached then (w.out id).take (w.mark id) else w.out id

private theorem seen_attached {id : Uuid} {c : Core} (h : c.state = .attached) :
    w.seen id c = (w.out id).take (w.mark id) := if_pos h

private theorem seen_free {id : Uuid} {c : Core} (h : c.state ≠ .attached) :
    w.seen id c = w.out id :=
  if_neg h

structure StreamInv (w : Streams) : Prop extends RingInv w where
  mark : ∀ id, w.mark id ≤ (w.out id).length
  fed : ∀ {id c}, w.server.coreOf id = some c → (w.out id).length ≤ defaultRingSize →
    c.fed = some (w.seen id c)

/-- The mark never passes the end of the output. -/
theorem advance_mark (hmark : ∀ id, w.mark id ≤ (w.out id).length) (id : Uuid) :
    (w.advance σ').mark id ≤ ((w.advance σ').out id).length := by
  simp only [advance]
  split
  · exact le_refl _
  · have h := hmark id
    rw [List.length_append]
    omega

/-- A session that was already there keeps its bytes; what the parser should have seen changes
only when an attachment ends. -/
theorem seen_advance {id : Uuid} {c c' : Core} (hout : (w.advance σ').out id = w.out id)
    (hc : w.server.coreOf id = some c) (hc' : σ'.coreOf id = some c')
    (hend : c.state = .attached → c'.state ≠ .attached → w.mark id = (w.out id).length) :
    (w.advance σ').seen id c' = w.seen id c := by
  have hmark : (w.advance σ').mark id =
      if σ'.attachedAt id ∧ ¬ w.server.attachedAt id then ((w.advance σ').out id).length
      else w.mark id := rfl
  simp only [attachedAt_iff hc', attachedAt_iff hc] at hmark
  by_cases hatt' : c'.state = .attached
  · by_cases hatt : c.state = .attached
    · rw [seen_attached hatt', seen_attached hatt, hout, hmark, if_neg fun h => h.2 hatt]
    · rw [seen_attached hatt', seen_free hatt, hout, hmark, if_pos ⟨hatt', hatt⟩, hout,
        List.take_length]
  · by_cases hatt : c.state = .attached
    · rw [seen_free hatt', seen_attached hatt, hout, hend hatt hatt', List.take_length]
    · rw [seen_free hatt', seen_free hatt, hout]

private theorem StreamInv.handled (h : StreamInv w) {P : Uuid → Prop} {e : Event}
    (hring : RingInv (w.advance σ')) (hout : Outcome P (w.server.arrive e) σ')
    (hend : ∀ id c, w.server.coreOf id = some c → c.state = .attached → P id →
      w.mark id = (w.out id).length) : StreamInv (w.advance σ') := by
  have hsame := handled_out hout
  refine ⟨hring, advance_mark h.mark, ?_⟩
  intro id c' hc' hlen
  rw [hsame] at hlen
  rcases handled_cases h.server hout hc' with ⟨c, hc, _, hfed, hP⟩ | ⟨hid, _, hfed⟩
  · rw [hfed, seen_advance (hsame id) hc hc' fun hatt hatt' => hend id c hc hatt (hP hatt hatt')]
    exact h.fed hc hlen
  · have hnone : (w.advance σ').seen id c' = [] := by
      rw [seen, hsame, h.unborn hid]
      split
      · exact List.take_nil
      · rfl
    rw [hfed, hnone]

private theorem StreamInv.lost (h : StreamInv w) {fd : RawFd} (hring : RingInv (w.advance σ'))
    (hdisc : Disconnected fd w.server σ')
    (hend : ∀ id s, w.server.sessions.lookup id = some s → s.state = .attached →
      s.ownerFd = some fd → w.mark id = 0) : StreamInv (w.advance σ') := by
  have hsame := lost_out hdisc
  refine ⟨hring, advance_mark h.mark, ?_⟩
  intro id c' hc' hlen
  rw [hsame] at hlen
  obtain ⟨s, hs, hc⟩ := lost_cases hdisc hc'
  have hfed := h.fed (coreOf_eq_some hs) hlen
  rcases hc with ⟨_, rfl⟩ | ⟨howner, ringData, hdump, rfl⟩
  · have hstate : (s.forget fd).core.state = s.core.state := by rw [Session.forget_core]
    rw [seen_advance (hsame id) (coreOf_eq_some hs) hc' fun hatt hatt' =>
      absurd (hstate.trans hatt) hatt', Session.forget_core]
    exact hfed
  · have hok := h.server.session (coreOf_eq_some hs)
    have hatt : s.state = .attached := hok.owned.mpr (by
      rw [show s.core.ownerFd = some fd from howner, Option.isSome_some])
    have hmark := hend id s hs hatt howner
    obtain ⟨hholds, hcap⟩ := h.ring (coreOf_eq_some hs)
    have hbytes := hholds.dump (by
      have : defaultRingSize < 2 ^ 64 := by decide
      omega)
    have hringData : ringData = w.out id := by
      have hall : ringData = (w.out id).rtake s.core.sharedRing.capacity :=
        Option.some.inj (hdump.symm.trans hbytes)
      rw [hall, hcap, rtake_of_length_le hlen]
    rw [seen_attached (show s.core.state = .attached from hatt), hmark, List.take_zero] at hfed
    have hforget : (s.forget fd).terminalState.map TerminalState.fed = some [] :=
      (congrArg Core.fed (s.forget_core fd)).trans hfed
    obtain ⟨ts, hts, hnil⟩ := Option.map_eq_some_iff.mp hforget
    have hcrashed : ((s.forget fd).crashed ringData).core.fed = some ringData := by
      simp only [Session.core, Session.crashed, Session.detach, Session.replay, hts,
        Option.map_some, TerminalState.fed_replayHistory, hnil, List.nil_append]
    have hfree : ((s.forget fd).crashed ringData).core.state ≠ .attached := fun h => by cases h
    have hseen : (w.advance σ').seen id ((s.forget fd).crashed ringData).core = w.out id := by
      rw [seen_free hfree, hsame]
    rw [hcrashed, hseen, hringData]

private theorem StreamInv.read (h : StreamInv w) {id : Uuid} {bytes : List UInt8}
    (hring : RingInv (w.advance σ')) (hread : Server.Read id bytes w.server σ') :
    StreamInv (w.advance σ') := by
  have hout := read_out hread
  obtain ⟨s, s', hs, hfree, hfree', hs', hcore, _⟩ := hread.spec
  refine ⟨hring, advance_mark h.mark, ?_⟩
  intro i c (hc : σ'.coreOf i = some c) hlen
  have hc₀ := hc
  rw [hcore] at hc
  by_cases hi : i = id
  · subst hi
    rw [if_pos rfl] at hc
    cases hc
    rw [hout, if_pos rfl, List.length_append] at hlen
    have hfed := h.fed (coreOf_eq_some hs) (by omega)
    have hfree₀ : s.core.state ≠ .attached := hfree
    have hfree₁ : s'.core.state ≠ .attached := hfree'
    rw [seen_free hfree₀] at hfed
    rw [seen_free hfree₁, hout, if_pos rfl, hs', hfed]
    rfl
  · rw [if_neg hi] at hc
    have hsame : (w.advance σ').out i = w.out i := by rw [hout, if_neg hi]
    rw [hsame] at hlen
    rw [seen_advance hsame hc hc₀ fun hatt hatt' => absurd hatt hatt']
    exact h.fed hc hlen

private theorem StreamInv.clientRead (h : StreamInv w) {id : Uuid} {s : Session}
    {data : List UInt8} (hs : w.server.sessions.lookup id = some s)
    (hatt : w.server.attachedAt id ∨ data = []) : StreamInv (w.clientRead id s data) := by
  let s' : Session := { s with sharedRing := s.sharedRing.write data }
  have hcore : ∀ i, (w.clientRead id s data).server.coreOf i =
      if i = id then some s'.core else w.server.coreOf i := coreOf_putSession w.server id s'
  have hout : ∀ i, (w.clientRead id s data).out i =
      if i = id then w.out i ++ data else w.out i := fun i => rfl
  refine ⟨h.toRingInv.clientRead hs data, ?_, ?_⟩
  · intro i
    have hmark := h.mark i
    change w.mark i ≤ _
    rw [hout]
    split
    · rw [List.length_append]
      omega
    · exact hmark
  · intro i c hc hlen
    rw [hcore] at hc
    rw [hout] at hlen
    by_cases hi : i = id
    · subst hi
      rw [if_pos rfl] at hc hlen
      cases hc
      rw [List.length_append] at hlen
      have hfed := h.fed (coreOf_eq_some hs) (by omega)
      refine hfed.trans (congrArg some ?_)
      rcases hatt with hatt | rfl
      · have hstate : s.core.state = .attached := (attachedAt_iff (coreOf_eq_some hs)).mp hatt
        have hstate' : s'.core.state = .attached := hstate
        rw [seen_attached hstate, seen_attached hstate', hout, if_pos rfl]
        exact (List.take_append_of_le_length (h.mark i)).symm
      · simp only [seen, hout, List.append_nil]
        rfl
    · rw [if_neg hi] at hc hlen
      have hfed := h.fed hc hlen
      rw [hfed, seen, seen, hout, if_neg hi]
      rfl

private theorem StreamInv.step (h : StreamInv w) {l : Label} (hguard : Replayable w l)
    (hstep : Streams.step J w l = some w') : StreamInv w' := by
  cases l with
  | clientRead id data =>
    simp only [Streams.step] at hstep
    split at hstep
    · obtain ⟨s, hs, rfl⟩ := Option.map_eq_some_iff.mp hstep
      exact h.clientRead hs hguard
    · cases hstep
  | daemon e =>
    obtain ⟨σ', hevent, rfl⟩ := Option.map_eq_some_iff.mp hstep
    have hevent := ok_of_toOption hevent
    have hring := h.toRingInv.event hevent
    cases event_effect h.server hevent with
    | handled hout =>
      refine h.handled hring hout ?_
      intro id c hc hatt hmoves
      obtain ⟨s, hs, rfl⟩ := Option.map_eq_some_iff.mp hc
      exact (hguard id s hs hatt).1 hmoves
    | @lost fd conn he hconn hdisc =>
      refine h.lost hring hdisc ?_
      exact fun id s hs hatt howner => (hguard id s hs hatt).2 fd he howner
    | read _ hread => exact h.read hring hread

/-- In runs that lose nothing and replay nothing twice, the parser of a session nobody has attached
has seen its output exactly once, as long as the ring holds all of it. -/
theorem fed_eq_out (h : (system J).Reach Replayable w) {id : Uuid} {s : Session}
    (hs : w.server.sessions.lookup id = some s) (hfree : s.state ≠ .attached)
    (hlen : (w.out id).length ≤ defaultRingSize) :
    s.terminalState.map TerminalState.fed = some (w.out id) := by
  have hinv : StreamInv w := by
    apply h.invariant
    · rintro _ ⟨listener, wakeup, now, rfl⟩
      exact ⟨.start listener wakeup now, fun _ => le_refl _, fun h => (nomatch h)⟩
    · intro w l w' hinv hguard hstep
      exact hinv.step hguard hstep
  have hfed := hinv.fed (coreOf_eq_some hs) hlen
  rwa [seen_free (show s.core.state ≠ .attached from hfree)] at hfed

/-- Connection 0 creates session 7. -/
private def createRun : List Label :=
  [.daemon (.accept 5), .daemon (.request 5 (.ok (.create none 80 24 none none none)) 0 calm)]

/-- A condition on the sessions there are that is enough. -/
private def careful (w : Streams) : Label → Bool
  | .daemon (.disconnect _) =>
    w.server.sessions.keys.all fun id => !decide (w.server.attachedAt id) || w.mark id == 0
  | .daemon _ =>
    w.server.sessions.keys.all fun id =>
      !decide (w.server.attachedAt id) || w.mark id == (w.out id).length
  | .clientRead id _ => decide (w.server.attachedAt id)

private theorem replayable_of_careful {l : Label} (h : careful w l = true) : Replayable w l := by
  have hall : ∀ {p : Uuid → Bool}, w.server.sessions.keys.all
      (fun id => !decide (w.server.attachedAt id) || p id) = true →
        ∀ {id s}, w.server.sessions.lookup id = some s → s.state = .attached → p id = true := by
    intro p hall id s hs hatt
    have hkey : id ∈ w.server.sessions.keys := AList.lookup_isSome.mp (by rw [hs]; rfl)
    have hattached : w.server.attachedAt id := ⟨s, hs, hatt⟩
    simpa [hattached] using List.all_eq_true.mp hall id hkey
  cases l with
  | clientRead id data => exact .inl (of_decide_eq_true h)
  | daemon e =>
    intro id s hs hatt
    cases e with
    | disconnect fd =>
      exact ⟨fun hmoves => hmoves.elim, fun _ _ _ => beq_iff_eq.mp (hall h hs hatt)⟩
    | _ => exact ⟨fun _ => beq_iff_eq.mp (hall h hs hatt), fun _ he => by cases he⟩

/-- A client attaches the new session, reads a byte and is lost; the daemon reads another one; a
second client attaches and detaches. -/
private def lostAndFound : List Label :=
  createRun ++
    [.daemon (.request 5 (.ok (.attach 7)) 0 calmLater), .clientRead 7 [65],
      .daemon (.disconnect 5), .daemon (.output 10 (.data [66]) calmLater), .daemon (.accept 6),
      .daemon (.request 6 (.ok (.attach 7)) 0 calmLater),
      .daemon (.request 6 (.ok (.detach 7 0 0 none)) 0 calmLater)]

theorem fed_eq_out_read :
    ∃ w s, (system silent).Reach Replayable w ∧ w.server.sessions.lookup 7 = some s ∧
      s.terminalState.map TerminalState.fed = some [65, 66] := by
  have hrun : ((system silent).execWhere (fun w l => careful w l = true) (new 3 none 0) lostAndFound).map
      (fun w => ((w.server.sessions.lookup 7).map Session.state, w.out 7)) =
      some (some .active, [65, 66]) := by decide +kernel
  obtain ⟨w, hexec, hpair⟩ := Option.map_eq_some_iff.mp hrun
  obtain ⟨hstate, hout⟩ := Prod.mk.inj hpair
  obtain ⟨s, hs, hstate⟩ := Option.map_eq_some_iff.mp hstate
  have hstart : (system silent).Reach (fun w l => careful w l = true)
      (new 3 none 0) := .start ⟨3, none, 0, rfl⟩
  have hreach : (system silent).Reach Replayable w :=
    (hstart.execWhere hexec).mono fun _ _ h => replayable_of_careful h
  have hfed := fed_eq_out hreach hs (by rw [hstate]; exact fun h => by cases h)
    (by rw [hout]; decide)
  exact ⟨w, s, hreach, hs, hfed.trans (congrArg some hout)⟩

/-- A byte read by an attached client that then detaches never reaches the parser. -/
theorem detach_loses_output :
    ¬ ∀ (J : Codec) (w : Streams) (id : Uuid) (s : Session), (system J).Reachable w →
      w.server.sessions.lookup id = some s → s.state ≠ .attached →
      (w.out id).length ≤ defaultRingSize →
      s.terminalState.map TerminalState.fed = some (w.out id) := by
  intro h
  have hrun : ((system silent).exec (new 3 none 0)
      (createRun ++
        [.daemon (.request 5 (.ok (.attach 7)) 0 calmLater),
          .clientRead 7 [65],
          .daemon (.request 5 (.ok (.detach 7 0 0 none)) 0 calmLater)])).map
      (fun w => ((w.server.sessions.lookup 7).map fun s =>
        (s.state, s.terminalState.map TerminalState.fed), w.out 7)) =
      some (some (.active, some []), [65]) := by decide +kernel
  obtain ⟨w, hexec, hpair⟩ := Option.map_eq_some_iff.mp hrun
  obtain ⟨hsession, hout⟩ := Prod.mk.inj hpair
  obtain ⟨s, hs, hsession⟩ := Option.map_eq_some_iff.mp hsession
  obtain ⟨hstate, hfed⟩ := Prod.mk.inj hsession
  have hstart : (system silent).Reachable (new 3 none 0) := .start ⟨3, none, 0, rfl⟩
  have hall := h silent w 7 s (hstart.exec hexec) hs (by rw [hstate]; exact fun h => (nomatch h))
    (by rw [hout]; decide)
  rw [hfed, hout] at hall
  cases hall

end Streams

end PtyDaemon
