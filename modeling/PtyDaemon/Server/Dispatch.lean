import PtyDaemon.Server.Run

/-!
# Where an event goes

Descriptors, process ids and signal numbers share the `ident` of a `kevent`. The loop tells signals
by their filter, but looks for a descriptor of that number before it asks whether a child exited.
-/

namespace PtyDaemon

/-- The branch of the loop an event takes. -/
inductive Route
  | shutdown
  | wakeup
  | accept
  | disconnect (fd : RawFd)
  | clientData (fd : RawFd)
  | childExit (pid : Pid)
  | output (fd : RawFd)
  deriving DecidableEq

namespace Server

variable {J : Codec} {σ σ' : Server} {pid : Pid} {s : Session}

def route (σ : Server) (ev : KEvent) : Route :=
  if ev.filter = .signal then .shutdown
  else if σ.wsWakeupPipe.any fun p => ev.ident = p.1 then .wakeup
  else if ev.ident = σ.listener then .accept
  else if (σ.clients.lookup ev.ident).isSome then
    if ev.eof then .disconnect ev.ident else .clientData ev.ident
  else if ev.filter = .proc then .childExit ev.ident
  else .output ev.ident

def follow (J : Codec) (ans : Answers) (σ : Server) : Route → Except Stop Server
  | .shutdown => .ok { σ with running := false }
  | .wakeup => .ok σ
  | .accept => σ.acceptClients ans.accepts
  | .disconnect fd => σ.handleClientDisconnect fd
  | .clientData fd => σ.handleClientData J ans.envs fd ans.clientRead
  | .childExit pid => .ok (σ.handleChildExit ans.env pid)
  | .output fd => .ok (σ.handleSessionOutput ans.env fd ans.ptyRead)

theorem dispatch_eq (J : Codec) (ans : Answers) (σ : Server) (ev : KEvent) :
    σ.dispatch J ans ev = σ.follow J ans (σ.route ev) := by
  unfold dispatch route
  repeat' split
  all_goals rfl

private theorem route_read (σ : Server) (ident : Int) (eof : Bool) (pid : Pid) :
    σ.route ⟨ident, .read, eof⟩ ≠ .childExit pid := by
  intro h
  simp only [route, reduceCtorEq, if_false] at h
  repeat' split at h
  all_goals cases h

/-- The number is none of a descriptor that the loop looks for before the filter. -/
def noDescriptor (σ : Server) (pid : Pid) : Prop :=
  (∀ p, σ.wsWakeupPipe = some p → pid ≠ p.1) ∧ pid ≠ σ.listener ∧ σ.clients.lookup pid = none

private theorem route_exit (h : σ.noDescriptor pid) (eof : Bool) :
    σ.route ⟨pid, .proc, eof⟩ = .childExit pid := by
  obtain ⟨hpipe, hlistener, hclient⟩ := h
  have hany : (σ.wsWakeupPipe.any fun p => decide (pid = p.1)) = false := by
    cases hp : σ.wsWakeupPipe with
    | none => rfl
    | some p => exact decide_eq_false (hpipe p hp)
  simp [route, hany, hlistener, hclient]

/-- No connection is touched, nor the listener or the pipe; the only descriptor that may go is the
master of the session. -/
structure LeavesOthers (σ : Server) (s : Session) (σ' : Server) : Prop where
  clients : σ'.clients = σ.clients
  accepted : σ'.accepted = σ.accepted
  listener : σ'.listener = σ.listener
  wsWakeupPipe : σ'.wsWakeupPipe = σ.wsWakeupPipe
  fds : ∀ fd, fd ≠ s.masterFd → σ'.fds.lookup fd = σ.fds.lookup fd
  kq : ∀ fd, fd ≠ s.masterFd → (fd ∈ σ'.kq ↔ fd ∈ σ.kq)
  trace : ∃ acts, σ'.trace = acts ++ σ.trace ∧ ∀ conn frame, Act.sent conn frame ∉ acts

namespace LeavesOthers

private theorem trans {σ'' : Server} (h : LeavesOthers σ s σ') (h' : LeavesOthers σ' s σ'') :
    LeavesOthers σ s σ'' where
  clients := h'.clients.trans h.clients
  accepted := h'.accepted.trans h.accepted
  listener := h'.listener.trans h.listener
  wsWakeupPipe := h'.wsWakeupPipe.trans h.wsWakeupPipe
  fds fd hfd := (h'.fds fd hfd).trans (h.fds fd hfd)
  kq fd hfd := (h'.kq fd hfd).trans (h.kq fd hfd)
  trace := by
    obtain ⟨acts, hacts, hnone⟩ := h.trace
    obtain ⟨acts', hacts', hnone'⟩ := h'.trace
    refine ⟨acts' ++ acts, ?_, fun conn frame hmem => ?_⟩
    · rw [hacts', hacts, List.append_assoc]
    · rcases List.mem_append.mp hmem with hmem | hmem
      · exact hnone' conn frame hmem
      · exact hnone conn frame hmem

/-- Nothing but the sessions and the shared table changes. -/
theorem of_same (hclients : σ'.clients = σ.clients) (haccepted : σ'.accepted = σ.accepted)
    (hlistener : σ'.listener = σ.listener) (hpipe : σ'.wsWakeupPipe = σ.wsWakeupPipe)
    (hfds : σ'.fds = σ.fds) (hkq : σ'.kq = σ.kq) (htrace : σ'.trace = σ.trace) :
    LeavesOthers σ s σ' where
  clients := hclients
  accepted := haccepted
  listener := hlistener
  wsWakeupPipe := hpipe
  fds fd _ := by rw [hfds]
  kq fd _ := by rw [hkq]
  trace := ⟨[], htrace, fun _ _ h => by cases h⟩

private theorem cleanup (env : Env) (σ : Server) (s : Session) :
    LeavesOthers σ s (σ.cleanupSession env s) := by
  have hfds : ∀ fd, fd ≠ s.masterFd →
      AList.lookup fd (σ.fds.erase s.masterFd) = σ.fds.lookup fd := by
    intro fd hfd
    rw [Table.lookup_erase, if_neg hfd]
  have hkq : ∀ fd, fd ≠ s.masterFd → (fd ∈ σ.kq.erase s.masterFd ↔ fd ∈ σ.kq) := by
    intro fd hfd
    simp [hfd]
  unfold cleanupSession
  cases env.childAlive s.childPid with
  | true =>
    exact ⟨rfl, rfl, rfl, rfl, hfds, hkq, [.unlinked s.shmName, .signalled s.childPid .hup], rfl,
      by simp⟩
  | false => exact ⟨rfl, rfl, rfl, rfl, hfds, hkq, [.unlinked s.shmName], rfl, by simp⟩

end LeavesOthers

/-- The exit of a child goes to its session. -/
theorem handleChildExit_leavesOthers (env : Env) (hfound : σ.sessions.findByChildPid pid = some s)
    (hs : σ.sessions.lookup s.id = some s) :
    LeavesOthers σ s (σ.handleChildExit env pid) ∧
      (σ.handleChildExit env pid).sessions.lookup s.id = none := by
  have hunregister : LeavesOthers σ s (σ.unregister s.masterFd) :=
    ⟨rfl, rfl, rfl, rfl, fun _ _ => rfl, fun fd hfd => by simp [unregister, hfd], [], rfl,
      fun _ _ h => by cases h⟩
  have hremove : LeavesOthers σ s
      (((σ.unregister s.masterFd).notifySessionEnded s.id).removeSession s.id) :=
    hunregister.trans (.of_same rfl rfl rfl rfl rfl rfl rfl)
  have hs' : ((σ.unregister s.masterFd).notifySessionEnded s.id).sessions.lookup s.id = some s := hs
  simp only [handleChildExit, hfound, hs']
  constructor
  · unfold dropSession
    split
    · exact hremove.trans (.cleanup env _ s)
    · exact hremove
  · rw [drop_sessions]
    exact AList.lookup_erase s.id _

/-- The exit of child `pid` is handled as such, whatever the flags and the answers are, and touches
nothing but the session; a read event is never handled so. -/
structure ExitsApart (J : Codec) (σ : Server) (pid : Pid) (s : Session) : Prop where
  runs : ∀ ans eof, σ.dispatch J ans ⟨pid, .proc, eof⟩ = .ok (σ.handleChildExit ans.env pid)
  leaves : ∀ ans eof σ', σ.dispatch J ans ⟨pid, .proc, eof⟩ = .ok σ' → LeavesOthers σ s σ'
  reads : ∀ ident eof p, σ.route ⟨ident, .read, eof⟩ ≠ .childExit p

private theorem exitsApart_of_noDescriptor (hfound : σ.sessions.findByChildPid pid = some s)
    (hs : σ.sessions.lookup s.id = some s) (h : σ.noDescriptor pid) : ExitsApart J σ pid s := by
  have hruns : ∀ ans eof,
      σ.dispatch J ans ⟨pid, .proc, eof⟩ = .ok (σ.handleChildExit ans.env pid) := by
    intro ans eof
    rw [dispatch_eq, route_exit h]
    rfl
  refine ⟨hruns, ?_, σ.route_read⟩
  intro ans eof σ' hσ'
  cases (hruns ans eof).symm.trans hσ'
  exact (handleChildExit_leavesOthers ans.env hfound hs).1

/-- Answers under which a descriptor that is looked for first cannot pass for a child. -/
private def failing : Answers := ⟨[.failed ""], .failed "", .failed, calm, []⟩

private theorem noDescriptor_of_runs (hfound : σ.sessions.findByChildPid pid = some s)
    (hs : σ.sessions.lookup s.id = some s)
    (hruns : ∀ ans eof,
      σ.dispatch J ans ⟨pid, .proc, eof⟩ = .ok (σ.handleChildExit ans.env pid)) :
    σ.noDescriptor pid := by
  have hrun := hruns failing false
  rw [dispatch_eq] at hrun
  have hpipe : ∀ p, σ.wsWakeupPipe = some p → pid ≠ p.1 := by
    intro p hp heq
    -- the event would only wake the loop, and the session would stay
    have hroute : σ.route ⟨pid, .proc, false⟩ = .wakeup := by simp [route, hp, heq]
    rw [hroute] at hrun
    have hgone := (handleChildExit_leavesOthers failing.env hfound hs).2
    rw [← Except.ok.inj hrun, hs] at hgone
    cases hgone
  have hany : (σ.wsWakeupPipe.any fun p => decide (pid = p.1)) = false := by
    cases hp : σ.wsWakeupPipe with
    | none => rfl
    | some p => exact decide_eq_false (hpipe p hp)
  have hlistener : pid ≠ σ.listener := by
    intro heq
    have hroute : σ.route ⟨pid, .proc, false⟩ = .accept := by
      rw [heq] at hany
      simp [route, heq, hany]
    rw [hroute] at hrun
    cases hrun
  refine ⟨hpipe, hlistener, ?_⟩
  cases hclient : σ.clients.lookup pid with
  | none => rfl
  | some client =>
    have hroute : σ.route ⟨pid, .proc, false⟩ = .clientData pid := by
      simp [route, hany, hlistener, hclient]
    rw [hroute] at hrun
    simp only [follow, handleClientData, hclient, failing] at hrun
    cases hrun

/-- The exit of a session's child reaches the session if and only if its process id is not the
number of a connection, of the listener or of the pipe. -/
theorem exitsApart_iff (J : Codec) (σ : Server) (pid : Pid) (s : Session)
    (hfound : σ.sessions.findByChildPid pid = some s) (hs : σ.sessions.lookup s.id = some s) :
    ExitsApart J σ pid s ↔ σ.noDescriptor pid :=
  ⟨fun h => noDescriptor_of_runs hfound hs h.runs, exitsApart_of_noDescriptor hfound hs⟩

/-- Every message creates a session. -/
private def spawning : Codec where
  request := fun _ => .ok (.create none 80 24 none none none)
  pushAck := fun _ => .error "unknown"
  base64 := fun _ => .error "unknown"

theorem lookup_found (h : SessionsOpen σ) (hfound : σ.sessions.findByChildPid pid = some s) :
    σ.sessions.lookup s.id = some s := by
  obtain ⟨id, hid⟩ := Table.mem_values.mp (List.mem_of_find?_eq_some hfound)
  rw [h.key hid]
  exact hid

/-- A client on descriptor `fd` creates a session, whose child is process 100. -/
private def spawned (fd : RawFd) : Option Server :=
  (loop spawning).exec (Server.new 3 none 0)
    [readable 3 [.stream fd] [] [], readable fd [] (encodeMessage []) [calm]]

private theorem spawned_reachable {fd : RawFd}
    {facts : Bool × Option (RawFd × RawFd) × RawFd × Bool}
    (hrun : (spawned fd).map (fun σ => ((σ.sessions.findByChildPid 100).isSome, σ.wsWakeupPipe,
      σ.listener, (σ.clients.lookup 100).isSome)) = some facts) (hchild : facts.1 = true) :
    ∃ σ s, (loop spawning).Reachable σ ∧ σ.sessions.findByChildPid 100 = some s ∧
      σ.sessions.lookup s.id = some s ∧
      (σ.wsWakeupPipe, σ.listener, (σ.clients.lookup 100).isSome) = facts.2 := by
  obtain ⟨σ, hexec, rfl⟩ := Option.map_eq_some_iff.mp hrun
  obtain ⟨s, hfound⟩ := Option.isSome_iff_exists.mp hchild
  have hstart : (loop spawning).Reachable (Server.new 3 none 0) := .start ⟨3, none, 0, rfl⟩
  have hreach := hstart.exec hexec
  exact ⟨σ, s, hreach, hfound, lookup_found (reachable_inv hreach).sessionsOpen hfound, rfl⟩

theorem exitsApart_iff_descriptor_five :
    ∃ σ s, (loop spawning).Reachable σ ∧ ExitsApart spawning σ 100 s := by
  have hrun : (spawned 5).map (fun σ => ((σ.sessions.findByChildPid 100).isSome, σ.wsWakeupPipe,
      σ.listener, (σ.clients.lookup 100).isSome)) = some (true, none, 3, false) := by
    decide +kernel
  obtain ⟨σ, s, hreach, hfound, hs, hfacts⟩ := spawned_reachable hrun rfl
  simp only [Prod.mk.injEq] at hfacts
  obtain ⟨hpipe, hlistener, hclient⟩ := hfacts
  refine ⟨σ, s, hreach, (exitsApart_iff spawning σ 100 s hfound hs).mpr ⟨?_, ?_, ?_⟩⟩
  · simp [hpipe]
  · rw [hlistener]
    decide
  · simpa using hclient

/-- The client has descriptor 100, and process 100 exits: the client is disconnected, and the
session stays. -/
theorem exit_disconnects_client :
    ∃ σ s, (loop spawning).Reachable σ ∧ σ.sessions.findByChildPid 100 = some s ∧
      σ.sessions.lookup s.id = some s ∧ ¬ ExitsApart spawning σ 100 s ∧
      ∀ ans, σ.dispatch spawning ans ⟨100, .proc, true⟩ = σ.handleClientDisconnect 100 := by
  have hrun : (spawned 100).map (fun σ => ((σ.sessions.findByChildPid 100).isSome, σ.wsWakeupPipe,
      σ.listener, (σ.clients.lookup 100).isSome)) = some (true, none, 3, true) := by
    decide +kernel
  obtain ⟨σ, s, hreach, hfound, hs, hfacts⟩ := spawned_reachable hrun rfl
  simp only [Prod.mk.injEq] at hfacts
  obtain ⟨hpipe, hlistener, hclient⟩ := hfacts
  refine ⟨σ, s, hreach, hfound, hs, fun h => ?_, fun ans => ?_⟩
  · have hnone := (noDescriptor_of_runs hfound hs h.runs).2.2
    rw [hnone] at hclient
    cases hclient
  · simp [dispatch, hpipe, hlistener, hclient]

end Server

end PtyDaemon
