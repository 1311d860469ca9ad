import PtyDaemon.Server.Cases

/-!
# The handlers as moves

One lemma for each handler that changes the state; where a handler can only be called with its
client present, or on a session whose descriptor is open, that is a hypothesis.
-/

namespace PtyDaemon

namespace Server

variable {P : Uuid → Prop} {σ σ' : Server} {J : Codec} {env : Env}

def attachedAt (σ : Server) (id : Uuid) : Prop :=
  ∃ s, σ.sessions.lookup id = some s ∧ s.state = .attached

theorem lookup_putSession (σ : Server) (id i : Uuid) (s : Session) :
    (σ.putSession id s).sessions.lookup i = if i = id then some s else σ.sessions.lookup i :=
  Table.lookup_insert σ.sessions id i s

theorem lookup_removeSession (σ : Server) (id i : Uuid) :
    (σ.removeSession id).sessions.lookup i = none ∨
      (σ.removeSession id).sessions.lookup i = σ.sessions.lookup i := by
  have herase := Table.lookup_erase σ.sessions id i
  by_cases hi : i = id
  · exact .inl (herase.trans (if_pos hi))
  · exact .inr (herase.trans (if_neg hi))

theorem lookup_putSession_self (σ : Server) (id : Uuid) (s : Session) :
    (σ.putSession id s).sessions.lookup id = some s := AList.lookup_insert σ.sessions

theorem freeFd_dup (h : σ.admits env = true) {d : RawFd} (hd : env.dup = some d) :
    σ.freeFd d = true := by
  rw [admits, hd, Bool.and_eq_true] at h
  exact h.1

theorem handleDetach_moves (σ : Server) {id : Uuid} (hP : P id) (cols rows : UInt16)
    (snapshot : Option GridSnapshot) : Moves P σ (σ.handleDetach id cols rows snapshot).1 := by
  unfold handleDetach
  split
  · exact .refl σ
  · rename_i s hs
    have hdetach : Moves P σ ((σ.putSession id (s.detach snapshot)).register s.masterFd) :=
      (Move.detach hP hs rfl).moves
    dsimp only
    split
    · have hself : ((σ.putSession id (s.detach snapshot)).register s.masterFd).sessions.lookup id =
          some (s.detach snapshot) := lookup_putSession_self σ id _
      have hresized := Aside.putSession hself
        (show ((s.detach snapshot).resized cols rows).core = _ from rfl)
      exact hdetach.trans (hresized.trans (.emit _ rfl)).moves
    · exact hdetach

private theorem handleAttach_moves {fd : RawFd} {conn : Nat} (hadmits : σ.admits env = true)
    (hconn : σ.connOf fd = some conn) {id : Uuid} (hP : ¬ σ.attachedAt id → P id) :
    Moves P σ (σ.handleAttach env fd id).1 ∧ (σ.handleAttach env fd id).1.clients = σ.clients ∧
      ∀ i cols rows pid shm snap,
        (σ.handleAttach env fd id).2 = .attachReady i cols rows pid shm snap →
          i = id ∧ P id ∧ (∃ s, (σ.handleAttach env fd id).1.sessions.lookup id = some s ∧
            s.state = .attached ∧ s.ownerFd = some fd) ∧
          ∃ d, (σ.handleAttach env fd id).1.pendingDupFds.lookup id = some d := by
  cases handleAttach_ends env σ fd id with
  | refused _ hresponse h =>
    rw [h]
    exact ⟨.refl σ, rfl, fun i cols rows pid shm snap h =>
      absurd h (hresponse i cols rows pid shm snap)⟩
  | @granted s d hs hfree _ hdup h =>
    have hPid : P id :=
      hP fun ⟨t, ht, hatt⟩ => hfree (by rwa [Option.some.inj (hs.symm.trans ht)])
    let stashed := (σ.openFd d (.dup id)).stashDup id d
    have hstash : Moves P σ stashed := (Move.stash (freeFd_dup hadmits hdup)).moves
    have hattach : ∀ noted, Aside stashed noted → noted.sessions = σ.sessions →
        noted.clients = σ.clients → Moves P σ
          (((noted.unregister s.masterFd).putSession id
            (s.clearSnapshot.attach env.now fd)).emit (.attached id (some conn))) := by
      intro noted haside hsessions hclients
      refine (hstash.trans haside.moves).trans (Move.attach hPid ?_ hfree ?_ rfl).moves
      · rw [hsessions]
        exact hs
      · rw [connOf, hclients]
        exact hconn
    rw [h, hconn]
    refine ⟨?_, ?_, ?_⟩
    · unfold writeSnapshot
      split
      · exact hattach (stashed.emit _) (.emit _ rfl) rfl rfl
      · exact hattach stashed (.refl _) rfl rfl
    · unfold writeSnapshot
      split <;> rfl
    · intro i cols rows pid shm snap h
      cases h
      refine ⟨rfl, hPid, ⟨_, lookup_putSession_self _ id _, rfl, rfl⟩, d, ?_⟩
      exact AList.lookup_insert _

theorem waitForDetachAck_aside (J : Codec) (fd : RawFd) (id : Uuid) (reads : List AckRead)
    (σ : Server) : Aside σ (waitForDetachAck J fd id reads σ).1 := by
  induction reads generalizing σ with
  | nil => exact .refl σ
  | cons read reads ih =>
    unfold waitForDetachAck
    split
    · rename_i client bytes hclient
      dsimp only
      split
      · have hput : Aside σ (σ.putClient fd { client with readBuf := client.readBuf ++ bytes }) :=
          .putClient hclient rfl
        exact hput.trans (ih _)
      · split
        · split <;> exact Aside.putClient hclient rfl
        · exact Aside.putClient hclient rfl
        · exact Aside.putClient hclient rfl
    · exact .refl σ

/-- Taking over ends the attachment of the owner it found; the session is still there. -/
theorem forceCompleteTakeover_moves {id : Uuid} {s : Session} {fd : RawFd}
    (hP : P id) (hs : σ.sessions.lookup id = some s) (hfd : s.ownerFd = some fd)
    (snapshot : Option GridSnapshot) : Moves P σ (σ.forceCompleteTakeover id snapshot).1 := by
  unfold forceCompleteTakeover
  rw [hs]
  simp only [hfd, Option.bind_some]
  refine (Move.takeOver hP hs hfd ?_).moves
  simp [Session.batonDetach, Session.core, Session.detach, hfd]

/-- The owner descriptor stands in the session while the daemon waits for its acknowledgement. -/
theorem Aside.lookup {σ σ' : Server} (h : Aside σ σ') {id : Uuid} {s : Session}
    (hs : σ.sessions.lookup id = some s) :
    ∃ s', σ'.sessions.lookup id = some s' ∧ s'.core = s.core := by
  have hcore := h.sessions id
  rw [hs, Option.map_some] at hcore
  exact Option.map_eq_some_iff.mp hcore

private theorem handleBatonTakeover_moves (J : Codec) (env : Env) (σ : Server) {id : Uuid}
    (hP : P id) :
    Moves P σ (σ.handleBatonTakeover J env id).1 := by
  cases handleBatonTakeover_cases J env σ id with
  | unowned hnone h =>
    rw [h]
    exact handleDetach_moves _ hP ..
  | unreached hs hatt hfd hnot h =>
    rw [h]
    exact forceCompleteTakeover_moves hP hs hfd _
  | @unwritten s fd client hs hatt hfd hclient hpush h =>
    rw [h]
    have hcut := Aside.emit σ
      (show (Act.cut client.stream (.push (.forceDetach id)) env.cut).plain = true from rfl)
    obtain ⟨s', hs', hcore⟩ := hcut.lookup hs
    have hfd' : s'.ownerFd = some fd := (congrArg Core.ownerFd hcore).trans hfd
    exact hcut.moves.trans (forceCompleteTakeover_moves hP hs' hfd' _)
  | @pushed s fd client hs hatt hfd hclient hpush h =>
    rw [h]
    have hpushed := Aside.emit σ
      (show (Act.sent client.stream (.push (.forceDetach id))).plain = true from rfl)
    have hwaited := hpushed.trans (waitForDetachAck_aside J fd id env.ackReads _)
    obtain ⟨s', hs', hcore⟩ := hwaited.lookup hs
    have hfd' : s'.ownerFd = some fd := (congrArg Core.ownerFd hcore).trans hfd
    exact hwaited.moves.trans (forceCompleteTakeover_moves hP hs' hfd' _)

private theorem handleBatonRelease_outcome (hadmits : σ.admits env = true) {id : Uuid} (hP : P id) :
    Outcome P σ (σ.handleBatonRelease env id).1 := by
  have hforget : ∀ {τ : Server} {s : Session}, τ.sessions = σ.sessions →
      σ.sessions.lookup id = some s → Moves P τ (τ.putSession id s.clearPrevious) := by
    intro τ s hτ hs
    exact (Move.forget hP (by rw [hτ]; exact hs) rfl).moves
  have hflash : ∀ {d : RawFd}, env.dup = some d →
      Moves P σ ((σ.openFd d (.dup id)).closeFd d) := fun hdup =>
    (Move.flash (freeFd_dup hadmits hdup)).moves
  cases handleBatonRelease_cases env σ id with
  | kept hnone h =>
    rw [h]
    exact .plain (handleDetach_moves _ hP ..)
  | gone hs hprev hclient h =>
    rw [h]
    exact .plain ((hforget rfl hs).trans (handleDetach_moves _ hP ..))
  | @unsent s prev d client hs hprev hclient hdup hpush h =>
    rw [h]
    have hcut : Moves P σ (((σ.openFd d (.dup id)).closeFd d).emit
        (.cut client.stream (.push (resumePush id s)) env.cut)) :=
      (hflash hdup).trans (Aside.emit _ rfl).moves
    exact .plain ((hcut.trans (hforget rfl hs)).trans (handleDetach_moves _ hP ..))
  | @refused s prev d client hs hprev hclient hdup hpush hsent h =>
    rw [h]
    have htold : Moves P σ (((σ.openFd d (.dup id)).closeFd d).emit
        (.sent client.stream (.push (resumePush id s)))) :=
      (hflash hdup).trans (Aside.emit _ rfl).moves
    exact .plain ((htold.trans (hforget rfl hs)).trans (handleDetach_moves _ hP ..))
  | @returned s prev d client hs hprev hclient hdup hpush hsent h =>
    rw [h]
    have hconn : σ.connOf prev = some client.stream := by rw [connOf, hclient, Option.map_some]
    let told := ((σ.openFd d (.dup id)).closeFd d).emit
      (.sent client.stream (.push (resumePush id s)))
    have htold : Moves P σ told := (hflash hdup).trans (Aside.emit _ rfl).moves
    have hpass : Handover id client.stream told
        ((((told.emit (.sent client.stream (.fd id))).unregister s.masterFd).putSession id
          ((s.attach env.now prev).clearPrevious.markReleased env.now)).emit
            (.returned id client.stream)) := .returned hs hprev hconn rfl
    exact .passes hP htold hpass (.refl _)

private theorem closeFd_unregister (σ : Server) (fd : RawFd) :
    (σ.unregister fd).closeFd fd = σ.closeFd fd := by
  simp only [closeFd, unregister, Finset.erase_idem]

/-- Cleaning up a session that has been removed closes its master. -/
theorem cleanup_moves {id : Uuid} {s : Session} (hs : σ.sessions.lookup id = some s) (env : Env) :
    Moves P σ ((σ.removeSession id).cleanupSession env s) := by
  have hremove : Moves P σ ((σ.removeSession id).closeFd s.masterFd) := (Move.remove hs).moves
  unfold cleanupSession
  dsimp only
  split
  · have hsignalled := Aside.emit ((σ.removeSession id).closeFd s.masterFd)
      (show (Act.signalled s.childPid .hup).plain = true from rfl)
    exact hremove.trans (hsignalled.trans (.emit _ rfl)).moves
  · exact hremove.trans (Aside.emit _ rfl).moves

theorem drop_moves {id : Uuid} {s : Session} (hs : σ.sessions.lookup id = some s)
    (hpos : 0 ≤ s.masterFd) (env : Env) :
    Moves P σ ((σ.removeSession id).dropSession env s) := by
  rw [dropSession, if_pos hpos]
  exact cleanup_moves hs env

/-- Closing the master takes its filter out as well. -/
theorem cleanup_unregister (σ : Server) (env : Env) (s : Session) :
    (σ.unregister s.masterFd).cleanupSession env s = σ.cleanupSession env s := by
  unfold cleanupSession
  dsimp only
  split
  · exact congrArg (fun τ => emit τ _)
      (closeFd_unregister (σ.emit (.signalled s.childPid .hup)) s.masterFd)
  · rw [closeFd_unregister]

private theorem cleanup_notify (σ : Server) (env : Env) (s : Session) (id : Uuid) :
    (σ.notifySessionEnded id).cleanupSession env s =
      (σ.cleanupSession env s).notifySessionEnded id := by
  unfold cleanupSession
  dsimp only
  split <;> rfl

/-- Cleaning up a session leaves the others where they are. -/
theorem cleanup_sessions (env : Env) (σ : Server) (s : Session) :
    (σ.cleanupSession env s).sessions = σ.sessions := by
  unfold cleanupSession
  dsimp only
  split <;> rfl

/-- A removed session is cleaned up, and then its subscribers are told. -/
theorem remove_notify_moves {id : Uuid} {s : Session} (hs : σ.sessions.lookup id = some s)
    (env : Env) :
    Moves P σ (((σ.removeSession id).cleanupSession env s).notifySessionEnded id) := by
  refine (cleanup_moves hs env).trans (Move.notify ?_).moves
  rw [cleanup_sessions]
  exact AList.lookup_erase id _

private theorem handleKill_moves (env : Env) (σ : Server) (id : Uuid) :
    Moves P σ (σ.handleKill env id).1 := by
  unfold handleKill
  split
  · exact .refl σ
  · rename_i s hs
    dsimp only
    rw [cleanup_notify, cleanup_unregister]
    exact remove_notify_moves hs env

private theorem handleWinsizeUpdate_moves (σ : Server) (id : Uuid) (cols rows : UInt16) :
    Moves P σ (σ.handleWinsizeUpdate id cols rows).1 := by
  unfold handleWinsizeUpdate
  split
  · exact .refl σ
  · rename_i s hs
    have hcore : ((s.resized cols rows).resizeParser cols rows).core = s.core := by
      simp only [Session.core, Session.resized, Session.resizeParser, Option.map_map]
      congr 1
      simp [Function.comp_def]
    have hput := Aside.putSession hs hcore
    apply Aside.moves
    dsimp only
    split
    · exact hput
    · split
      · exact hput.trans (.emit _ rfl)
      · exact (hput.trans (.emit _ rfl)).trans (.emit _ rfl)

theorem handleWsInput_aside (env : Env) (σ : Server) (id : Uuid) (data : List UInt8) :
    Aside σ (σ.handleWsInput env id data) := by
  unfold handleWsInput
  split
  · exact .refl σ
  · exact .emit σ rfl

private theorem handleRemoteInput_aside (J : Codec) (env : Env) (σ : Server) (id : Uuid)
    (data : String) :
    Aside σ (σ.handleRemoteInput J env id data).1 := by
  unfold handleRemoteInput
  split
  · exact .refl σ
  · exact handleWsInput_aside env σ id _

private theorem handleCreate_moves (hadmits : σ.admits env = true) {shell : Option String}
    {cols rows : UInt16} {workingDir : Option String} {terminalId : Option UInt32}
    {envs : Option (List (String × String))} {p : Server × Response}
    (h : σ.handleCreate env shell cols rows workingDir terminalId envs = .ok p) :
    Moves P σ p.1 := by
  unfold handleCreate at h
  split at h
  · cases h
    exact .refl σ
  · rename_i fd pid ptsname hpty
    have hfree : σ.freeFd fd = true ∧ env.uuid ∉ σ.ids := by
      rw [admits, hpty, Bool.and_eq_true] at hadmits
      simpa using hadmits.2
    dsimp only at h
    split at h
    · cases h
    · cases h
    · rename_i ring _ hring
      cases h
      have hcore : (Session.new env.now env.uuid ring fd pid ptsname ⟨cols, rows⟩ terminalId).core =
          ⟨env.uuid, fd, .active, none, none, ring, some []⟩ := rfl
      have hcreate : Move P σ _ := .create hfree.1 hfree.2 hring hcore
      exact hcreate.moves.trans (Aside.emit _ rfl).moves

/-- The sessions that handlers remove have an open descriptor, and their key is their id. -/
structure SessionsOpen (σ : Server) : Prop where
  key : ∀ {id s}, σ.sessions.lookup id = some s → s.id = id
  nonneg : ∀ {id s}, σ.sessions.lookup id = some s → 0 ≤ s.masterFd

/-- The session a request of a connection may move. -/
def requestMoves (σ : Server) : Request → Uuid → Prop
  | .attach sessionId, id => id = sessionId ∧ ¬ σ.attachedAt id
  | .detach sessionId _ _ _, id => id = sessionId
  | _, _ => False

theorem handleRequest_moves {fd : RawFd} (hadmits : σ.admits env = true) {request : Request}
    (hclient : (∃ id, request = .attach id) → (σ.connOf fd).isSome = true)
    {p : Server × Response} (h : σ.handleRequest J env fd request = .ok p) :
    Moves (σ.requestMoves request) σ p.1 := by
  cases request with
  | create shell cols rows workingDir terminalId envs => exact handleCreate_moves hadmits h
  | attach id =>
    cases h
    obtain ⟨conn, hconn⟩ := Option.isSome_iff_exists.mp (hclient ⟨id, rfl⟩)
    exact (handleAttach_moves hadmits hconn fun hfree => ⟨rfl, hfree⟩).1
  | detach id cols rows snapshot =>
    cases h
    have hP : σ.requestMoves (.detach id cols rows snapshot) id := rfl
    exact handleDetach_moves _ hP ..
  | list =>
    cases h
    exact .refl σ
  | kill id =>
    cases h
    exact handleKill_moves env σ id
  | winsizeUpdate id cols rows =>
    cases h
    exact handleWinsizeUpdate_moves σ id cols rows
  | ping =>
    cases h
    exact .refl σ
  | shutdown =>
    cases h
    exact Aside.moves ⟨fun _ => rfl, fun _ => rfl, rfl, rfl, rfl, rfl, rfl, rfl, rfl, [], rfl,
      fun _ h => nomatch h⟩
  | input id data =>
    cases h
    exact (handleRemoteInput_aside J env σ id data).moves

/-- `Detach` of a WebSocket client, unless the session has just been given back. -/
def wsDetachMoves (env : Env) (σ : Server) (sessionId id : Uuid) : Prop :=
  id = sessionId ∧
    ∀ s, σ.sessions.lookup id = some s → ¬ (s.isAttached = true ∧ s.inCooldown env.now = true)

private theorem handleWsDetach_outcome (hadmits : σ.admits env = true) (id : Uuid) :
    Outcome (σ.wsDetachMoves env id) σ (σ.handleWsDetach J env id).1 := by
  have hP : ∀ {s : Session}, σ.sessions.lookup id = some s →
      ¬ (s.isAttached = true ∧ s.inCooldown env.now = true) → σ.wsDetachMoves env id id :=
    fun hs h => ⟨rfl, fun t ht => Option.some.inj (hs.symm.trans ht) ▸ h⟩
  have hcount : ∀ {s : Session}, σ.sessions.lookup id = some s →
      Aside σ (σ.putSession id s.wsClientGone) := fun hs => .putSession hs rfl
  cases handleWsDetach_cases J env σ id with
  | missing hs h =>
    rw [h]
    have hP : σ.wsDetachMoves env id id := ⟨rfl, fun s h => by cases hs.symm.trans h⟩
    exact .plain (handleDetach_moves _ hP ..)
  | taken hs hatt hcool h =>
    rw [h]
    have hP := hP hs (by simp [hcool])
    exact .plain ((hcount hs).moves.trans (handleBatonTakeover_moves _ _ _ hP))
  | cooling hs hatt hcool h =>
    rw [h]
    exact .plain (hcount hs).moves
  | @released s hs hfree hprevious h =>
    rw [h]
    have hP := hP hs (by simp [hfree])
    have hadmits' : (σ.putSession id s.wsClientGone).admits env = true := hadmits
    exact .of_moves (hcount hs).moves (handleBatonRelease_outcome hadmits' hP)
  | detached hs hfree hprevious h =>
    rw [h]
    have hP := hP hs (by simp [hfree])
    exact .plain ((hcount hs).moves.trans (handleDetach_moves _ hP ..))

/-- The loss of the last WebSocket client of a session that was taken over. -/
def wsGoneMoves (σ : Server) (client : Nat) (id : Uuid) : Prop :=
  σ.wsShared.clientSessions.lookup client = some id ∧
    ∃ s, σ.sessions.lookup id = some s ∧ s.wsClientGone.wsClientCount = 0 ∧
      s.previousOwnerFd.isSome = true

private theorem handleWsClientDisconnect_outcome (hadmits : σ.admits env = true) (client : Nat) :
    Outcome (σ.wsGoneMoves client) σ (σ.handleWsClientDisconnect env client) := by
  cases handleWsClientDisconnect_cases env σ client with
  | absent hnone h =>
    rw [h]
    exact .plain (.refl σ)
  | @released id s hid hs hcount hprevious h =>
    rw [h]
    have hput : Aside σ (σ.putSession id s.wsClientGone) := .putSession hs rfl
    have hP : σ.wsGoneMoves client id := ⟨hid, s, hs, hcount, hprevious⟩
    have hadmits' : (σ.putSession id s.wsClientGone).admits env = true := hadmits
    exact .of_moves hput.moves (handleBatonRelease_outcome hadmits' hP)
  | @left id s hid hs hstays h =>
    rw [h]
    have hput : Aside σ (σ.putSession id s.wsClientGone) := .putSession hs rfl
    exact .plain hput.moves

theorem takeOverAttached_moves (J : Codec) (env : Env) (σ : Server) (id : Uuid) :
    Moves (fun i => i = id ∧ σ.attachedAt i) σ (σ.takeOverAttached J env id) := by
  rcases takeOverAttached_cases J env σ id with ⟨s, hs, hatt, htaken⟩ | ⟨_, hsame⟩
  · rw [htaken]
    exact handleBatonTakeover_moves _ _ _ ⟨rfl, s, hs, hatt⟩
  · rw [hsame]
    exact .refl σ

theorem handleWsAttach_moves {id : Uuid} {p : Server × Response}
    (h : σ.handleWsAttach J env id = .ok p) :
    Moves (fun i => i = id ∧ σ.attachedAt i) σ p.1 := by
  have htaken := takeOverAttached_moves J env σ id
  cases handleWsAttach_cases h with
  | missing hs h =>
    rw [h]
    exact htaken
  | dead hs hdead h =>
    rw [h]
    exact htaken
  | @joined s ringData hs halive hdump h =>
    rw [h]
    have hput : ∀ τ : Server, τ.sessions.lookup id = some s →
        Moves (fun i => i = id ∧ σ.attachedAt i) τ (τ.putSession id (s.wsJoined ringData)) :=
      fun τ hs => (Aside.putSession hs (s.wsJoined_core ringData)).moves
    dsimp only
    split
    · exact htaken.trans (hput _ hs)
    · rename_i hfree
      have hlisten : Move (fun i => i = id ∧ σ.attachedAt i) (σ.takeOverAttached J env id)
          ((σ.takeOverAttached J env id).register s.masterFd) :=
        .listen hs fun hatt => hfree (decide_eq_true hatt)
      exact (htaken.trans hlisten.moves).trans (hput _ hs)

/-- The session a WebSocket command may move. -/
def commandMoves (env : Env) (σ : Server) : WsCommand → Uuid → Prop
  | .request _ (.attach sessionId) _, id => id = sessionId ∧ σ.attachedAt id
  | .request _ (.detach sessionId _ _ _) _, id => σ.wsDetachMoves env sessionId id
  | .request _ _ _, _ => False
  | .disconnected client, id => σ.wsGoneMoves client id
  | .input _ _, _ => False

/-- Every WebSocket command is handled by moves and at most one handover. -/
theorem handleWsCommand_outcome (hadmits : σ.admits env = true) {cmd : WsCommand}
    (h : σ.handleWsCommand J env cmd = .ok σ') : Outcome (σ.commandMoves env cmd) σ σ' := by
  cases cmd with
  | disconnected client =>
    cases h
    exact handleWsClientDisconnect_outcome hadmits client
  | input id data =>
    cases h
    exact .plain (handleWsInput_aside env σ id data).moves
  | request client request reply =>
    obtain ⟨p, hp, rfl⟩ := ok_of_map h
    refine Outcome.then_aside ?_ (.emit p.1 rfl)
    cases request with
    | attach id => exact .plain (handleWsAttach_moves hp)
    | detach id cols rows snapshot =>
      cases hp
      exact handleWsDetach_outcome hadmits id
    | _ => exact .plain (handleRequest_moves hadmits (fun ⟨_, h⟩ => nomatch h) hp)

theorem answer_aside (env : Env) (σ : Server) (fd : RawFd) (response : Response) (consumed : Nat) :
    Aside σ (σ.answer env fd response consumed) := by
  unfold answer
  split
  · exact .refl σ
  · rename_i client hclient
    dsimp only
    split
    · have hsent := Aside.emit σ
        (show (Act.sent client.stream (.response response)).plain = true from rfl)
      exact hsent.trans (.putClient hclient rfl)
    · have hcut := Aside.emit σ
        (show (Act.cut client.stream (.response response) env.cut).plain = true from rfl)
      exact hcut.trans (.putClient hclient rfl)

/-- Only `Attach` is answered with `AttachReady` on a control connection. -/
theorem handleRequest_attachReady {fd : RawFd} {request : Request} {p : Server × Response}
    (h : σ.handleRequest J env fd request = .ok p) {i : Uuid} {cols rows : UInt16} {pid : Pid}
    {shm : String} {snap : Option AttachSnapshot}
    (hp : p.2 = .attachReady i cols rows pid shm snap) : ∃ id, request = .attach id := by
  cases request with
  | attach id => exact ⟨id, rfl⟩
  | create shell cols rows workingDir terminalId envs =>
    simp only [handleRequest, handleCreate] at h
    split at h
    · cases h
      cases hp
    · split at h
      · cases h
      · cases h
      · cases h
        cases hp
  | detach id cols rows snapshot =>
    cases h
    unfold handleDetach at hp
    split at hp
    · cases hp
    · dsimp only at hp
      split at hp <;> cases hp
  | list =>
    cases h
    cases hp
  | kill id =>
    cases h
    unfold handleKill at hp
    split at hp <;> cases hp
  | winsizeUpdate id cols rows =>
    cases h
    unfold handleWinsizeUpdate at hp
    split at hp <;> cases hp
  | ping =>
    cases h
    cases hp
  | shutdown =>
    cases h
    cases hp
  | input id data =>
    cases h
    unfold handleRemoteInput at hp
    split at hp <;> cases hp

/-- Undoing an attachment whose descriptor was closed already. -/
theorem revertAttach_moves {id : Uuid} (hP : P id) (hnone : σ.pendingDupFds.lookup id = none) :
    Moves P σ (σ.revertAttach id) := by
  unfold revertAttach closePending
  rw [hnone]
  dsimp only
  split
  · exact .refl σ
  · rename_i s hs
    exact (Move.detach hP hs rfl).moves

/-- After `AttachReady` the PTY goes to the client, or the attachment is undone. -/
theorem passOn_outcome {id : Uuid} {fd d : RawFd} {s : Session} {conn : Nat} (hP : P id)
    (hs : σ.sessions.lookup id = some s) (hstate : s.state = .attached)
    (howner : s.ownerFd = some fd) (hconn : σ.connOf fd = some conn)
    (hd : σ.pendingDupFds.lookup id = some d) {cols rows : UInt16} {pid : Pid} {shm : String}
    {snap : Option AttachSnapshot} :
    Outcome P σ (σ.passOn env fd (.attachReady id cols rows pid shm snap)) := by
  obtain ⟨client, hclient, rfl⟩ := Option.map_eq_some_iff.mp hconn
  have hclient' : (σ.dropPending id).clients.lookup fd = some client := hclient
  simp only [passOn, sendAttachData, hd, hclient']
  cases env.fdSent with
  | true =>
    simp only [if_true]
    exact .passes hP (.refl σ) (.attached hs hstate howner hconn hd) (.refl _)
  | false =>
    simp only [if_neg Bool.false_ne_true]
    have hunstash : Moves P σ ((σ.dropPending id).closeFd d) := (Move.unstash hd).moves
    exact .plain (hunstash.trans (revertAttach_moves hP (AList.lookup_erase id _)))

def resultMoves (σ : Server) : Except String Request → Uuid → Prop
  | .ok request, id => σ.requestMoves request id
  | .error _, _ => False

/-- One pass of the decode loop. -/
theorem serve_outcome {fd : RawFd} {result : Except String Request} {consumed : Nat}
    (hadmits : σ.admits env = true) (hclient : (σ.connOf fd).isSome = true)
    (h : σ.serve J env fd result consumed = .ok σ') : Outcome (σ.resultMoves result) σ σ' := by
  unfold serve at h
  obtain ⟨p, hp, rfl⟩ := ok_of_map h
  have haside := answer_aside env p.1 fd p.2 consumed
  by_cases hready : ∃ i cols rows pid shm snap, p.2 = .attachReady i cols rows pid shm snap
  · obtain ⟨i, cols, rows, pid, shm, snap, hready⟩ := hready
    cases result with
    | error e =>
      cases hp
      cases hready
    | ok request =>
      obtain ⟨id, rfl⟩ := handleRequest_attachReady hp hready
      cases hp
      obtain ⟨conn, hconn⟩ := Option.isSome_iff_exists.mp hclient
      have hP : ¬ σ.attachedAt id → σ.requestMoves (.attach id) id := fun hfree => ⟨rfl, hfree⟩
      obtain ⟨hmoves, hclients, hinfo⟩ := handleAttach_moves hadmits hconn hP
      obtain ⟨rfl, hPi, ⟨s, hs, hstate, howner⟩, d, hd⟩ := hinfo i cols rows pid shm snap hready
      obtain ⟨s', hs', hcore⟩ := haside.lookup hs
      rw [hready] at haside hs' ⊢
      have hstate' : s'.state = .attached := (congrArg Core.state hcore).trans hstate
      have howner' : s'.ownerFd = some fd := (congrArg Core.ownerFd hcore).trans howner
      have hconn' := (haside.clients fd).trans ((by rw [connOf, hclients]; rfl : _ = σ.connOf fd))
      have hd' := (congrArg (AList.lookup i) haside.pending).trans hd
      exact .of_moves (hmoves.trans haside.moves)
        (passOn_outcome hPi hs' hstate' howner' (hconn'.trans hconn) hd')
  · have hpass : (p.1.answer env fd p.2 consumed).passOn env fd p.2 =
        p.1.answer env fd p.2 consumed := by
      unfold passOn
      split
      · rename_i i cols rows pid shm snap hp2
        exact absurd ⟨i, cols, rows, pid, shm, snap, hp2⟩ hready
      · rfl
    rw [hpass]
    cases result with
    | error e =>
      cases hp
      exact .plain haside.moves
    | ok request =>
      exact .plain ((handleRequest_moves hadmits (fun _ => hclient) hp).trans haside.moves)

theorem handleChildExit_moves (hopen : SessionsOpen σ) (env : Env) (pid : Pid) :
    Moves P σ (σ.handleChildExit env pid) := by
  cases handleChildExit_ends hopen.key env pid with
  | unknown _ h =>
    rw [h]
    exact .refl σ
  | @ended id s _ _ hs h =>
    rw [h, dropSession, if_pos (hopen.nonneg hs)]
    change Moves P σ ((((σ.removeSession id).unregister s.masterFd).notifySessionEnded
      id).cleanupSession env s)
    rw [cleanup_notify, cleanup_unregister]
    exact remove_notify_moves hs env

theorem drop_sessions (env : Env) (σ : Server) (s : Session) :
    (σ.dropSession env s).sessions = σ.sessions := by
  unfold dropSession
  split
  · exact cleanup_sessions env σ s
  · rfl

private theorem drop_all_moves (env : Env) (dead : List Session)
    (hnodup : (dead.map Session.id).Nodup)
    (hlive : ∀ s ∈ dead, σ.sessions.lookup s.id = some s ∧ 0 ≤ s.masterFd) :
    Moves P σ (dead.foldl (fun σ s => (σ.removeSession s.id).dropSession env s) σ) := by
  induction dead generalizing σ with
  | nil => exact .refl σ
  | cons s dead ih =>
    obtain ⟨hs, hpos⟩ := hlive s List.mem_cons_self
    rw [List.map_cons, List.nodup_cons] at hnodup
    refine (drop_moves hs hpos env).trans (ih hnodup.2 fun t ht => ?_)
    obtain ⟨htl, htpos⟩ := hlive t (List.mem_cons_of_mem s ht)
    refine ⟨?_, htpos⟩
    have hne : t.id ≠ s.id := fun he => hnodup.1 (List.mem_map.mpr ⟨t, ht, he⟩)
    rw [drop_sessions]
    exact (AList.lookup_erase_ne hne).trans htl

private theorem fds_drop (env : Env) (σ : Server) {s : Session} (hpos : 0 ≤ s.masterFd) :
    ((σ.removeSession s.id).dropSession env s).fds = σ.fds.erase s.masterFd := by
  unfold dropSession cleanupSession
  rw [if_pos hpos]
  dsimp only
  split <;> rfl

private theorem drop_all_closed (env : Env) (dead : List Session) (fd : RawFd)
    (hpos : ∀ s ∈ dead, 0 ≤ s.masterFd)
    (hfd : σ.fds.lookup fd = none ∨ ∃ s ∈ dead, s.masterFd = fd) :
    (dead.foldl (fun σ s => (σ.removeSession s.id).dropSession env s) σ).fds.lookup fd = none := by
  induction dead generalizing σ with
  | nil => exact hfd.resolve_right fun ⟨_, h, _⟩ => nomatch h
  | cons s dead ih =>
    refine ih (fun t ht => hpos t (List.mem_cons_of_mem s ht)) ?_
    rw [fds_drop env σ (hpos s List.mem_cons_self), Table.lookup_erase]
    by_cases h : fd = s.masterFd
    · exact .inl (if_pos h)
    · rw [if_neg h]
      refine hfd.imp_right fun ⟨t, ht, hfd⟩ => ⟨t, ?_, hfd⟩
      exact (List.mem_cons.mp ht).resolve_left fun he => h (he ▸ hfd.symm)

private theorem drop_all_gone (env : Env) (dead : List Session) (id : Uuid)
    (hid : σ.sessions.lookup id = none ∨ ∃ s ∈ dead, s.id = id) :
    (dead.foldl (fun σ s => (σ.removeSession s.id).dropSession env s) σ).sessions.lookup id =
      none := by
  induction dead generalizing σ with
  | nil => exact hid.resolve_right fun ⟨_, h, _⟩ => nomatch h
  | cons s dead ih =>
    apply ih
    rw [drop_sessions, removeSession, Table.lookup_erase]
    by_cases h : id = s.id
    · exact .inl (if_pos h)
    · rw [if_neg h]
      refine hid.imp_right fun ⟨t, ht, hid⟩ => ⟨t, ?_, hid⟩
      exact (List.mem_cons.mp ht).resolve_left fun he => h (he ▸ hid.symm)

private theorem forget_all_moves (dead : List Session)
    (hclosed : ∀ s ∈ dead, σ.fds.lookup s.masterFd = none ∧ σ.sessions.lookup s.id = none) :
    Moves P σ (dead.foldl (fun σ s => (σ.unregister s.masterFd).notifySessionEnded s.id) σ) := by
  induction dead generalizing σ with
  | nil => exact .refl σ
  | cons s dead ih =>
    obtain ⟨hfd, hid⟩ := hclosed s List.mem_cons_self
    have hunregister : Move P σ (σ.unregister s.masterFd) := .unregister hfd
    have hnotify : Move P (σ.unregister s.masterFd)
        ((σ.unregister s.masterFd).notifySessionEnded s.id) := .notify hid
    exact (hunregister.moves.trans hnotify.moves).trans
      (ih fun t ht => hclosed t (List.mem_cons_of_mem s ht))

theorem reapDead_moves (hopen : SessionsOpen σ) (env : Env) : Moves P σ (σ.reapDead env) := by
  unfold reapDead
  dsimp only
  have hlive : ∀ s ∈ σ.sessions.values.filter (fun s => !env.childAlive s.childPid),
      σ.sessions.lookup s.id = some s ∧ 0 ≤ s.masterFd := by
    intro s hs
    obtain ⟨id, hid⟩ := Table.mem_values.mp (List.mem_filter.mp hs).1
    exact ⟨(hopen.key hid).symm ▸ hid, hopen.nonneg hid⟩
  have hnodup : ((σ.sessions.values.filter fun s => !env.childAlive s.childPid).map
      Session.id).Nodup :=
    (Table.nodup_map_values fun id s hs => hopen.key hs).sublist (List.filter_sublist.map _)
  refine (drop_all_moves env _ hnodup hlive).trans (forget_all_moves _ fun s hs => ?_)
  exact ⟨drop_all_closed env _ _ (fun t ht => (hlive t ht).2) (.inr ⟨s, hs, rfl⟩),
    drop_all_gone env _ _ (.inr ⟨s, hs, rfl⟩)⟩

end Server

end PtyDaemon
