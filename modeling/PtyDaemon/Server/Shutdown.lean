import PtyDaemon.Server.Run

/-!
# The end of the loop

An error that a handler passes up leaves the loop, and the server is dropped: `Drop` runs `cleanup`,
which kills every session.
-/

namespace PtyDaemon

namespace Server

/-- All WebSocket subscribers are told that their sessions are ending. -/
def tellAll (σ : Server) : Server :=
  { σ with
    wsShared := σ.wsShared.subscribers.keys.foldl WsSharedState.notifySessionEnded σ.wsShared }

def killSession (env : Env) (σ : Server) (id : Uuid) : Server :=
  match σ.sessions.lookup id with
  | none => σ
  | some session => (σ.removeSession id).cleanupSession env session

/-- Close the descriptors that are still to be passed on. -/
def closeAllPending (σ : Server) : Server :=
  { σ.pendingDupFds.values.foldl closeFd σ with pendingDupFds := ∅ }

def closePipe (σ : Server) : Server :=
  match σ.wsWakeupPipe with
  | none => σ
  | some (readFd, writeFd) => { (σ.closeFd readFd).closeFd writeFd with wsWakeupPipe := none }

/-- `Server::cleanup`. -/
def cleanup (env : Env) (σ : Server) : Server :=
  let σ := σ.tellAll
  let σ := (σ.sessions.list.map Session.id).foldl (killSession env) σ
  σ.closeAllPending.closePipe

/-- After `cleanup` the fields of the server are dropped, the listener and the streams of the clients
among them. -/
def dropFields (σ : Server) : Server := σ.clients.keys.foldl closeFd (σ.closeFd σ.listener)

/-- Sessions and descriptors only go away, and what has been done stays done. -/
structure Wanes (σ σ' : Server) : Prop where
  sessions : ∀ id, σ.sessions.lookup id = none → σ'.sessions.lookup id = none
  fds : ∀ fd, σ.fds.lookup fd = none → σ'.fds.lookup fd = none
  trace : σ.trace <:+ σ'.trace
  wsShared : σ'.wsShared = σ.wsShared
  clients : σ'.clients = σ.clients
  listener : σ'.listener = σ.listener

namespace Wanes

variable {σ σ' σ'' : Server}

private theorem refl (σ : Server) : Wanes σ σ :=
  ⟨fun _ h => h, fun _ h => h, List.suffix_refl _, rfl, rfl, rfl⟩

private theorem trans (h : Wanes σ σ') (h' : Wanes σ' σ'') : Wanes σ σ'' where
  sessions id hid := h'.sessions id (h.sessions id hid)
  fds fd hfd := h'.fds fd (h.fds fd hfd)
  trace := h.trace.trans h'.trace
  wsShared := h'.wsShared.trans h.wsShared
  clients := h'.clients.trans h.clients
  listener := h'.listener.trans h.listener

private theorem closeFd (σ : Server) (fd : RawFd) : Wanes σ (σ.closeFd fd) where
  sessions _ h := h
  fds x hx := by
    have hlookup := Table.lookup_erase σ.fds fd x
    apply hlookup.trans
    split
    · rfl
    · exact hx
  trace := List.suffix_refl _
  wsShared := rfl
  clients := rfl
  listener := rfl

theorem foldl {α : Type} {f : Server → α → Server} (hf : ∀ τ a, Wanes τ (f τ a)) (as : List α)
    (σ : Server) : Wanes σ (as.foldl f σ) := by
  induction as generalizing σ with
  | nil => exact .refl σ
  | cons a as ih => exact (hf σ a).trans (ih (f σ a))

end Wanes

variable {J : Codec} {env : Env} {σ σ' : Server} {id : Uuid} {s : Session}

/-- The session is gone, its master is closed, and its child has been told to hang up. -/
structure Killed (env : Env) (s : Session) (σ' : Server) : Prop where
  closed : σ'.fds.lookup s.masterFd = none
  signalled : env.childAlive s.childPid = true → .signalled s.childPid .hup ∈ σ'.trace

private theorem Killed.wanes (h : Killed env s σ) (hw : Wanes σ σ') : Killed env s σ' :=
  ⟨hw.fds _ h.closed, fun halive => hw.trace.subset (h.signalled halive)⟩

private theorem cleanupSession_spec (env : Env) (σ : Server) (s : Session) :
    (σ.cleanupSession env s).sessions = σ.sessions ∧ Wanes σ (σ.cleanupSession env s) ∧
      Killed env s (σ.cleanupSession env s) := by
  have hlookup := Table.lookup_erase σ.fds s.masterFd
  unfold cleanupSession
  cases halive : env.childAlive s.childPid with
  | true =>
    refine ⟨rfl, ⟨fun _ h => h, fun x hx => (hlookup x).trans ?_, ?_, rfl, rfl, rfl⟩,
      ⟨(hlookup _).trans (if_pos rfl), fun _ => ?_⟩⟩
    · split
      · rfl
      · exact hx
    · exact ⟨[.unlinked s.shmName, .signalled s.childPid .hup], rfl⟩
    · exact List.mem_cons_of_mem _ List.mem_cons_self
  | false =>
    refine ⟨rfl, ⟨fun _ h => h, fun x hx => (hlookup x).trans ?_, ?_, rfl, rfl, rfl⟩,
      ⟨(hlookup _).trans (if_pos rfl), fun hdead => (nomatch halive.symm.trans hdead)⟩⟩
    · split
      · rfl
      · exact hx
    · exact ⟨[.unlinked s.shmName], rfl⟩

theorem killSession_lookup (env : Env) (σ : Server) (id i : Uuid) :
    (σ.killSession env id).sessions.lookup i = if i = id then none else σ.sessions.lookup i := by
  unfold killSession
  split
  · rename_i hnone
    split
    · rename_i hi
      rw [hi, hnone]
    · rfl
  · rename_i session hs
    rw [(cleanupSession_spec env (σ.removeSession id) session).1]
    exact Table.lookup_erase σ.sessions id i

theorem killSession_wanes (env : Env) (σ : Server) (id : Uuid) :
    Wanes σ (σ.killSession env id) := by
  have hlookup := killSession_lookup env σ id
  have hrest : (∀ fd, σ.fds.lookup fd = none → (σ.killSession env id).fds.lookup fd = none) ∧
      σ.trace <:+ (σ.killSession env id).trace ∧
      (σ.killSession env id).wsShared = σ.wsShared ∧
      (σ.killSession env id).clients = σ.clients ∧
      (σ.killSession env id).listener = σ.listener := by
    unfold killSession
    split
    · exact ⟨fun _ h => h, List.suffix_refl _, rfl, rfl, rfl⟩
    · have hcleaned := (cleanupSession_spec env (σ.removeSession id) ‹Session›).2.1
      exact ⟨hcleaned.fds, hcleaned.trace, hcleaned.wsShared, hcleaned.clients, hcleaned.listener⟩
  obtain ⟨hfds, htrace, hwsShared, hclients, hlistener⟩ := hrest
  refine ⟨fun i hi => ?_, hfds, htrace, hwsShared, hclients, hlistener⟩
  rw [hlookup]
  split
  · rfl
  · exact hi

private theorem killSession_killed (env : Env) (hs : σ.sessions.lookup id = some s) :
    Killed env s (σ.killSession env id) := by
  rw [killSession, hs]
  exact (cleanupSession_spec env (σ.removeSession id) s).2.2

/-- A session whose turn comes is killed, and stays so. -/
theorem killAll_killed (env : Env) {ids : List Uuid} (hid : id ∈ ids)
    (hs : σ.sessions.lookup id = some s) :
    (ids.foldl (killSession env) σ).sessions.lookup id = none ∧
      Killed env s (ids.foldl (killSession env) σ) := by
  induction ids generalizing σ with
  | nil => cases hid
  | cons i ids ih =>
    have hlater := Wanes.foldl (killSession_wanes env) ids (σ.killSession env i)
    have hlookup := killSession_lookup env σ i id
    by_cases hi : id = i
    · subst hi
      rw [if_pos rfl] at hlookup
      exact ⟨hlater.sessions id hlookup, (killSession_killed env hs).wanes hlater⟩
    · rw [if_neg hi] at hlookup
      exact ih ((List.mem_cons.mp hid).resolve_left hi) (hlookup.trans hs)

theorem cleanup_wanes (env : Env) (σ : Server) :
    Wanes ((σ.sessions.list.map Session.id).foldl (killSession env) σ.tellAll) (σ.cleanup env) := by
  have hpending : ∀ τ : Server, Wanes τ τ.closeAllPending := by
    intro τ
    have hclosed := Wanes.foldl Wanes.closeFd τ.pendingDupFds.values τ
    exact ⟨hclosed.sessions, hclosed.fds, hclosed.trace, hclosed.wsShared, hclosed.clients,
      hclosed.listener⟩
  have hpipe : ∀ τ : Server, Wanes τ τ.closePipe := by
    intro τ
    unfold closePipe
    split
    · exact .refl τ
    · rename_i readFd writeFd _
      have hclosed := (Wanes.closeFd τ readFd).trans (Wanes.closeFd _ writeFd)
      exact ⟨hclosed.sessions, hclosed.fds, hclosed.trace, hclosed.wsShared, hclosed.clients,
        hclosed.listener⟩
  exact (hpending _).trans (hpipe _)

theorem cleanup_wsShared (env : Env) (σ : Server) :
    (σ.cleanup env).wsShared =
      σ.wsShared.subscribers.keys.foldl WsSharedState.notifySessionEnded σ.wsShared := by
  have hkilled := Wanes.foldl (killSession_wanes env) (σ.sessions.list.map Session.id) σ.tellAll
  exact (cleanup_wanes env σ).wsShared.trans hkilled.wsShared

/-- The connections outlive `cleanup`. -/
theorem cleanup_clients (env : Env) (σ : Server) :
    (σ.cleanup env).clients = σ.clients ∧ (σ.cleanup env).listener = σ.listener := by
  have hkilled := Wanes.foldl (killSession_wanes env) (σ.sessions.list.map Session.id) σ.tellAll
  have hlater := cleanup_wanes env σ
  exact ⟨hlater.clients.trans hkilled.clients, hlater.listener.trans hkilled.listener⟩

/-- `cleanup` leaves no session. -/
theorem cleanup_kills (env : Env) (hinv : Inv σ) :
    (∀ id, (σ.cleanup env).sessions.lookup id = none) ∧
      ∀ {id s}, σ.sessions.lookup id = some s → Killed env s (σ.cleanup env) := by
  have hlater := cleanup_wanes env σ
  have hall : ∀ {id s}, σ.sessions.lookup id = some s → id ∈ σ.sessions.list.map Session.id := by
    intro id s hs
    refine List.mem_map.mpr ⟨s, ?_, hinv.sessionsOpen.key hs⟩
    exact List.mem_mergeSort.mpr (Table.mem_values.mpr ⟨id, hs⟩)
  constructor
  · intro id
    apply hlater.sessions
    cases hs : σ.sessions.lookup id with
    | none =>
      have hnone : σ.tellAll.sessions.lookup id = none := hs
      exact (Wanes.foldl (killSession_wanes env) _ _).sessions id hnone
    | some s =>
      have htold : σ.tellAll.sessions.lookup id = some s := hs
      exact (killAll_killed env (hall hs) htold).1
  · intro id s hs
    have htold : σ.tellAll.sessions.lookup id = some s := hs
    exact (killAll_killed env (hall hs) htold).2.wanes hlater

end Server

end PtyDaemon
