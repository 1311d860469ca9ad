import PtyDaemon.Framework.Transition
import PtyDaemon.Server.Events

/-!
# Runs of the daemon

A turn of the loop is taken apart into events, so what every event keeps holds at the head of the
loop, however often the daemon comes back there.
-/

namespace PtyDaemon

namespace Server

variable {σ σ' σ'' : Server} {J : Codec}

/-- One event, or a change nothing about ownership depends on. -/
inductive Step (J : Codec) (σ σ' : Server) : Prop
  | event {e : Event} (h : σ.event J e = .ok σ')
  | aside (h : Aside σ σ')

def Steps (J : Codec) : Server → Server → Prop := Relation.ReflTransGen (Step J)

theorem Steps.refl (σ : Server) : Steps J σ σ := Relation.ReflTransGen.refl

private theorem Steps.event (e : Event) (h : σ.event J e = .ok σ') (h' : Steps J σ' σ'') :
    Steps J σ σ'' := Relation.ReflTransGen.head (.event h) h'

private theorem Steps.aside (h : Aside σ σ') (h' : Steps J σ' σ'') : Steps J σ σ'' :=
  Relation.ReflTransGen.head (.aside h) h'

theorem Steps.trans (h : Steps J σ σ') (h' : Steps J σ' σ'') : Steps J σ σ'' :=
  Relation.ReflTransGen.trans h h'

theorem Steps.inv (h : Steps J σ σ') (hinv : Inv σ) : Inv σ' := by
  induction h with
  | refl => exact hinv
  | tail _ hstep ih =>
    cases hstep with
    | event h => exact event_inv ih h
    | aside h => exact ih.aside h

private theorem aside_running (σ : Server) (running : Bool) :
    Aside σ { σ with running := running } :=
  ⟨fun _ => rfl, fun _ => rfl, rfl, rfl, rfl, rfl, rfl, rfl, rfl, [], rfl, fun _ h => nomatch h⟩

private theorem aside_idleSince (σ : Server) (idleSince : Option Nat) :
    Aside σ { σ with idleSince := idleSince } :=
  ⟨fun _ => rfl, fun _ => rfl, rfl, rfl, rfl, rfl, rfl, rfl, rfl, [], rfl, fun _ h => nomatch h⟩

private theorem decodeLoop_steps {fd : RawFd} {envs : List Env}
    (h : decodeLoop J fd envs σ = .ok σ') : Steps J σ σ' := by
  induction envs generalizing σ with
  | nil =>
    unfold decodeLoop at h
    split at h
    · cases h
    · split at h
      · cases h
        exact .refl _
      · cases h
      · rename_i heq
        cases heq
  | cons env envs ih =>
    unfold decodeLoop at h
    split at h
    · cases h
    · rename_i client hclient
      have hconn : (σ.connOf fd).isSome = true := by
        rw [connOf, hclient, Option.map_some, Option.isSome_some]
      split at h
      · cases h
        exact .refl _
      · cases h
      · rename_i result consumed env' envs' _ heq
        cases heq
        split at h
        · rename_i hadmits
          obtain ⟨τ, hτ, h⟩ := ok_of_bind h
          have hevent : σ.event J (.request fd result consumed env) = .ok τ := by
            rw [event, hconn, hadmits, Bool.and_self, if_pos rfl]
            exact hτ
          exact .event _ hevent (ih h)
        · cases h

private theorem handleClientData_steps {envs : List Env} {fd : RawFd} {read : ClientRead}
    (h : σ.handleClientData J envs fd read = .ok σ') : Steps J σ σ' := by
  unfold handleClientData at h
  split at h
  · cases h
    exact .refl _
  · rename_i client hclient
    split at h
    · refine .event (.disconnect fd) ?_ (.refl σ')
      rw [event, connOf, hclient, Option.map_some, Option.isSome_some, if_pos rfl]
      exact h
    · cases h
      exact .refl _
    · cases h
    · rename_i bytes
      have hread : Aside σ (σ.putClient fd { client with readBuf := client.readBuf ++ bytes }) :=
        .putClient hclient rfl
      exact .aside hread (decodeLoop_steps h)

theorem acceptClients_steps {accepts : List AcceptResult}
    (h : σ.acceptClients accepts = .ok σ') : Steps J σ σ' := by
  induction accepts generalizing σ with
  | nil =>
    cases h
    exact .refl _
  | cons a rest ih =>
    cases a with
    | stream fd =>
      rw [acceptClients] at h
      split at h
      · rename_i hfree
        exact .event (.accept fd) (if_pos hfree) (ih h)
      · cases h
    | refused fd e => cases h
    | failed e => cases h

theorem dispatch_steps {ans : Answers} {ev : KEvent} (h : σ.dispatch J ans ev = .ok σ') :
    Steps J σ σ' := by
  unfold dispatch at h
  split at h
  · cases h
    exact .aside (aside_running σ false) (.refl _)
  · split at h
    · cases h
      exact .refl _
    · split at h
      · exact acceptClients_steps h
      · split at h
        · rename_i hclient
          split at h
          · refine .event (.disconnect ev.ident) ?_ (.refl σ')
            rw [event, connOf, Option.isSome_map, hclient, if_pos rfl]
            exact h
          · exact handleClientData_steps h
        · split at h
          · cases h
            exact .event (.childExit ev.ident ans.env) rfl (.refl _)
          · cases h
            exact .event (.output ev.ident ans.ptyRead ans.env) rfl (.refl _)

private theorem dispatchAll_steps {batch : List (KEvent × Answers)}
    (h : σ.dispatchAll J batch = .ok σ') : Steps J σ σ' := by
  induction batch generalizing σ with
  | nil =>
    cases h
    exact .refl _
  | cons p batch ih =>
    rw [dispatchAll] at h
    split at h
    · cases h
    · rename_i τ hτ
      have hfirst := dispatch_steps hτ
      split at h
      · cases h
        exact hfirst
      · exact hfirst.trans (ih h)

private theorem drainWsCommands_steps {commands : List (WsSharedState × WsCommand × Env)}
    (h : σ.drainWsCommands J commands = .ok σ') : Steps J σ σ' := by
  induction commands generalizing σ with
  | nil =>
    cases h
    exact .refl _
  | cons p commands ih =>
    obtain ⟨shared, cmd, env⟩ := p
    rw [drainWsCommands] at h
    split at h
    · rename_i hadmits
      split at h
      · cases h
      · rename_i τ hτ
        have hevent : σ.event J (.command shared cmd env) = .ok τ := by
          rw [event, if_pos (show σ.admits env = true from hadmits)]
          exact hτ
        exact .event _ hevent (ih h)
    · cases h

private theorem poll_steps {polled : Polled} (h : σ.poll J polled = .ok σ') : Steps J σ σ' := by
  cases polled with
  | events batch => exact dispatchAll_steps h
  | interrupted =>
    cases h
    exact .refl _
  | failed e => cases h

/-- A turn of the loop is a sequence of events. -/
theorem turn_steps {t : Turn} (h : σ.turn J t = .ok σ') : Steps J σ σ' := by
  unfold turn at h
  obtain ⟨τ, hτ, h⟩ := ok_of_bind h
  refine .event (.reap t.reap) rfl ((drainWsCommands_steps hτ).trans ?_)
  split at h
  · split at h
    · split at h
      · cases h
        exact .aside (aside_running τ false) (.refl _)
      · exact poll_steps h
    · exact .aside (aside_idleSince τ _) (poll_steps h)
  · exact .aside (aside_idleSince τ _) (poll_steps h)

/-- The head of the loop of `run`, from turn to turn. -/
def loop (J : Codec) : Transition.System Server Turn where
  init σ := ∃ listener wakeup now, σ = Server.new listener wakeup now
  step σ t := if σ.running then (σ.turn J t).toOption else none

theorem new_inv (listener : RawFd) (wakeup : Option (RawFd × RawFd)) (now : Nat) :
    Inv (Server.new listener wakeup now) :=
  ⟨fun h => (nomatch h), fun h => (nomatch h), fun h => (nomatch h), fun h => (nomatch h)⟩

theorem reachable_inv (h : (loop J).Reachable σ) : Inv σ := by
  apply h.invariant
  · rintro _ ⟨listener, wakeup, now, rfl⟩
    exact new_inv listener wakeup now
  · intro σ t σ' hinv _ hstep
    simp only [loop] at hstep
    split at hstep
    · exact (turn_steps (ok_of_toOption hstep)).inv hinv
    · cases hstep

/-- At the head of the loop every session has the owner its state says, and that owner is the
connection that attached it; the daemon listens to exactly the masters nobody has attached. -/
theorem reachable_ownership (h : (loop J).Reachable σ) {id : Uuid} {s : Session}
    (hs : σ.sessions.lookup id = some s) :
    (s.state = .attached ↔ s.ownerFd.isSome = true) ∧
      (∀ fd, s.ownerFd = some fd → ∃ client, σ.clients.lookup fd = some client ∧
        lastOwner id σ.trace = some client.stream ∧
        .attached id (some client.stream) ∈ σ.trace) ∧
      (∀ fd, s.previousOwnerFd = some fd → ∃ client, σ.clients.lookup fd = some client ∧
        lastTaken id σ.trace = some client.stream ∧
        .attached id (some client.stream) ∈ σ.trace) ∧
      (s.masterFd ∈ σ.kq ↔ s.state ≠ .attached) ∧
      (s.state = .attached → ∀ env fd, σ.handleRequest J env fd (.attach id) =
        .ok (σ, .attachDeny id alreadyAttached)) := by
  have hinv := reachable_inv h
  have hok := hinv.session (coreOf_eq_some hs)
  refine ⟨hok.owned, ?_, ?_, hok.registered, ?_⟩
  · intro fd hfd
    obtain ⟨conn, hconn, hlast⟩ := hok.owner fd hfd
    obtain ⟨client, hclient, rfl⟩ := Option.map_eq_some_iff.mp hconn
    exact ⟨client, hclient, hlast, hinv.history hlast⟩
  · intro fd hfd
    obtain ⟨conn, hconn, hlast, hmem⟩ := hok.previous fd hfd
    obtain ⟨client, hclient, rfl⟩ := Option.map_eq_some_iff.mp hconn
    exact ⟨client, hclient, hlast, hmem⟩
  · intro hatt env fd
    simp only [handleRequest, handleAttach, hs, if_pos hatt]

/-- A codec that knows a request to create a session and one to attach session 7. -/
private def twoRequests : Codec where
  request := fun json =>
    if json = [0] then .ok (.create none 80 24 none none none)
    else if json = [1] then .ok (.attach 7)
    else .error "unknown"
  pushAck := fun _ => .error "unknown"
  base64 := fun _ => .error "unknown"

/-- Answers of a kernel and of peers with nothing out of the ordinary. -/
def calm : Env where
  now := 0
  childAlive := fun _ => true
  dup := some 11
  createPty := .ok (10, 100, "pts")
  uuid := 7
  page := page4096
  shmError := none
  snapshotWritten := true
  responseWritten := true
  pushWritten := true
  cut := 0
  fdSent := true
  ackReads := []
  ptyWrites := []
  osError := ""

/-- The same, after the descriptor and the id of the PTY have been given out. -/
def calmLater : Env := { calm with createPty := .error "" }

/-- A codec for runs in which no message is parsed. -/
def silent : Codec where
  request := fun _ => .error ""
  pushAck := fun _ => .error ""
  base64 := fun _ => .error ""

/-- A turn in which one descriptor becomes readable. -/
def readable (fd : RawFd) (accepts : List AcceptResult) (bytes : List UInt8)
    (envs : List Env) : Turn where
  reap := calm
  commands := []
  now := 0
  polled := .events [(⟨fd, .read, false⟩, ⟨accepts, .data bytes, .failed, calm, envs⟩)]

/-- A client connects, creates session 7 and attaches it. -/
theorem reachable_ownership_attached :
    ∃ σ s, (loop twoRequests).Reachable σ ∧ σ.sessions.lookup 7 = some s ∧ s.state = .attached ∧
      s.masterFd ∉ σ.kq ∧ ∃ client, σ.clients.lookup 5 = some client ∧
        lastOwner 7 σ.trace = some client.stream := by
  have hrun : ((loop twoRequests).exec (Server.new 3 none 0)
      [readable 3 [.stream 5] [] [],
        readable 5 [] (encodeMessage [0] ++ encodeMessage [1])
          [calm, calmLater]]).map
      (fun σ => (σ.sessions.lookup 7).map fun s => (s.state, s.ownerFd)) =
      some (some (.attached, some 5)) := by decide +kernel
  obtain ⟨σ, hexec, hlookup⟩ := Option.map_eq_some_iff.mp hrun
  obtain ⟨s, hs, hpair⟩ := Option.map_eq_some_iff.mp hlookup
  obtain ⟨hstate, howner⟩ := Prod.mk.inj hpair
  have hstart : (loop twoRequests).Reachable (Server.new 3 none 0) := .start ⟨3, none, 0, rfl⟩
  have hreach := hstart.exec hexec
  obtain ⟨_, hown, _, hkq, _⟩ := reachable_ownership hreach hs
  obtain ⟨client, hclient, hlast, _⟩ := hown 5 howner
  exact ⟨σ, s, hreach, hs, hstate, fun hmem => hkq.mp hmem hstate, client, hclient, hlast⟩

end Server

end PtyDaemon
