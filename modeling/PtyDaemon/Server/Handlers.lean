import PtyDaemon.Server.State

/-!
# The request handlers

`handle_request` and the handlers it calls, attaching and detaching, the baton-pass takeover and
release, and the WebSocket commands.
-/

namespace PtyDaemon

def notFound (id : Uuid) : Response := .error ("session " ++ id.toText ++ " not found")

def childDead (id : Uuid) : Response := .error ("session " ++ id.toText ++ " child process is dead")

def alreadyAttached : String := "already attached by another local client"

namespace Server

/-- `Session::cleanup`. -/
def cleanupSession (env : Env) (σ : Server) (s : Session) : Server :=
  let σ := if env.childAlive s.childPid then σ.emit (.signalled s.childPid .hup) else σ
  (σ.closeFd s.masterFd).emit (.unlinked s.shmName)

/-- `Drop for Session`. -/
def dropSession (env : Env) (σ : Server) (s : Session) : Server :=
  if 0 ≤ s.masterFd then σ.cleanupSession env s else σ

def removeSession (σ : Server) (id : Uuid) : Server :=
  { σ with sessions := σ.sessions.erase id }

def notifySessionEnded (σ : Server) (id : Uuid) : Server :=
  { σ with wsShared := σ.wsShared.notifySessionEnded id }

/-- A session that lost its name in the random generator would be replaced; ring creation fails by
panicking. -/
def handleCreate (env : Env) (σ : Server) (shell : Option String) (cols rows : UInt16)
    (workingDir : Option String) (terminalId : Option UInt32)
    (envs : Option (List (String × String))) : Except Stop (Server × Response) :=
  match env.createPty with
  | .error e => .ok (σ, .error ("create pty failed: " ++ e))
  | .ok (masterFd, childPid, ptsname) =>
    let id := env.uuid
    let failed := "failed to create shared ring buffer " ++ shmNameForSession id ++ ": "
    match env.shmError, SharedRingBuffer.create env.page defaultRingSize with
    | some e, _ => .error (.panics (failed ++ e))
    | none, none => .error (.panics (failed ++ env.osError))
    | none, some ring =>
      let session := Session.new env.now id ring masterFd childPid ptsname ⟨cols, rows⟩ terminalId
      let σ := { σ with ids := id :: σ.ids }
      let σ := (σ.openFd masterFd (.master id)).emit
        (.spawned id (shell.getD "") workingDir terminalId envs)
      let σ := σ.register masterFd
      .ok (σ.putSession id session, .created id)

/-- The snapshot file the client reads. -/
def writeSnapshot (env : Env) (σ : Server) (sessionId : Uuid) (snapshot : Option GridSnapshot) :
    Server :=
  match snapshot, env.snapshotWritten with
  | some data, true => σ.emit (.snapshotWritten sessionId data)
  | _, _ => σ

def handleAttach (env : Env) (σ : Server) (clientFd : RawFd) (sessionId : Uuid) :
    Server × Response :=
  match σ.sessions.lookup sessionId with
  | none => (σ, notFound sessionId)
  | some session =>
    if session.state = .attached then (σ, .attachDeny sessionId alreadyAttached)
    else if !env.childAlive session.childPid then (σ, childDead sessionId)
    else
      match env.dup with
      | none => (σ, .error ("dup(master_fd) failed: " ++ env.osError))
      | some dupFd =>
        let conn := σ.connOf clientFd
        let σ := (σ.openFd dupFd (.dup sessionId)).writeSnapshot env sessionId
          session.currentSnapshot
        let σ := σ.unregister session.masterFd
        let σ := σ.putSession sessionId (session.clearSnapshot.attach env.now clientFd)
        let σ := σ.stashDup sessionId dupFd
        (σ.emit (.attached sessionId conn),
          .attachReady sessionId session.winsize.cols session.winsize.rows session.childPid
            session.shmName none)

/-- Returns whether the descriptor went out. -/
def sendAttachData (env : Env) (σ : Server) (clientFd : RawFd) (sessionId : Uuid) :
    Server × Bool :=
  match σ.pendingDupFds.lookup sessionId with
  | none => (σ, false)
  | some dupFd =>
    let σ := σ.dropPending sessionId
    match σ.clients.lookup clientFd with
    | none => (σ.closeFd dupFd, false)
    | some client =>
      let σ := if env.fdSent then σ.emit (.sent client.stream (.fd sessionId)) else σ
      (σ.closeFd dupFd, env.fdSent)

/-- Close the descriptor a failed or crashed attachment left behind. -/
def closePending (σ : Server) (sessionId : Uuid) : Server :=
  match σ.pendingDupFds.lookup sessionId with
  | none => σ
  | some dupFd => (σ.dropPending sessionId).closeFd dupFd

def revertAttach (σ : Server) (sessionId : Uuid) : Server :=
  let σ := σ.closePending sessionId
  match σ.sessions.lookup sessionId with
  | none => σ
  | some session => (σ.putSession sessionId (session.detach none)).register session.masterFd

/-- A size with a zero in it leaves the PTY as it is. -/
def handleDetach (σ : Server) (sessionId : Uuid) (cols rows : UInt16)
    (gridSnapshot : Option GridSnapshot) : Server × Response :=
  match σ.sessions.lookup sessionId with
  | none => (σ, notFound sessionId)
  | some session =>
    let session := session.detach gridSnapshot
    let σ := (σ.putSession sessionId session).register session.masterFd
    if 0 < cols ∧ 0 < rows then
      ((σ.putSession sessionId (session.resized cols rows)).emit
        (.winsizeSet sessionId cols rows), .detached sessionId)
    else (σ, .detached sessionId)

/-- Whether or not an acknowledgement came. -/
def forceCompleteTakeover (σ : Server) (sessionId : Uuid) (gridSnapshot : Option GridSnapshot) :
    Server × Response :=
  match σ.sessions.lookup sessionId with
  | none => (σ, notFound sessionId)
  | some session =>
    let conn := session.ownerFd.bind σ.connOf
    let σ := σ.putSession sessionId (session.batonDetach gridSnapshot)
    ((σ.register session.masterFd).emit (.takenOver sessionId conn), .detached sessionId)

/-- Reads until a message is complete; any other message than the right acknowledgement is taken
from the buffer and ends the wait. -/
def waitForDetachAck (J : Codec) (ownerFd : RawFd) (sessionId : Uuid) :
    List AckRead → Server → Server × Option GridSnapshot
  | [], σ => (σ, none)
  | read :: reads, σ =>
    match σ.clients.lookup ownerFd, read with
    | some client, .data bytes =>
      let buf := client.readBuf ++ bytes
      match tryDecodeMessage J.pushAck buf with
      | none => waitForDetachAck J ownerFd sessionId reads
          (σ.putClient ownerFd { client with readBuf := buf })
      | some (result, consumed) =>
        let σ := σ.putClient ownerFd { client with readBuf := buf.drop consumed }
        match result with
        | .ok (.detachAck ackSid gridSnapshot) =>
          if ackSid = sessionId then (σ, gridSnapshot.map .given) else (σ, none)
        | .ok (.resumeAck _) => (σ, none)
        | .error _ => (σ, none)
    | _, _ => (σ, none)

def handleBatonTakeover (J : Codec) (env : Env) (σ : Server) (sessionId : Uuid) :
    Server × Response :=
  match σ.sessions.lookup sessionId with
  | none => (σ, notFound sessionId)
  | some session =>
    if session.state ≠ .attached then σ.handleDetach sessionId 0 0 none
    else
      match session.ownerFd with
      | none => σ.handleDetach sessionId 0 0 none
      | some ownerFd =>
        match σ.clients.lookup ownerFd, env.pushWritten with
        | some client, true =>
          let σ := σ.emit (.sent client.stream (.push (.forceDetach sessionId)))
          let (σ, gridSnapshot) := waitForDetachAck J ownerFd sessionId env.ackReads σ
          σ.forceCompleteTakeover sessionId gridSnapshot
        | some client, false =>
          let σ := σ.emit (.cut client.stream (.push (.forceDetach sessionId)) env.cut)
          σ.forceCompleteTakeover sessionId none
        | none, _ => σ.forceCompleteTakeover sessionId none

def handleBatonRelease (env : Env) (σ : Server) (sessionId : Uuid) : Server × Response :=
  match σ.sessions.lookup sessionId with
  | none => (σ, notFound sessionId)
  | some session =>
    match session.previousOwnerFd with
    | none => σ.handleDetach sessionId 0 0 none
    | some prevOwnerFd =>
      match σ.clients.lookup prevOwnerFd with
      | none =>
        (σ.putSession sessionId session.clearPrevious).handleDetach sessionId 0 0 none
      | some client =>
        let gridSnapshot := session.terminalState.bind TerminalState.captureSnapshot
        match env.dup with
        | none => σ.handleDetach sessionId 0 0 none
        | some dupFd =>
          let push := Push.resumeAttach sessionId session.winsize.cols session.winsize.rows
            session.childPid session.shmName gridSnapshot
          let σ := σ.openFd dupFd (.dup sessionId)
          let σ :=
            if env.pushWritten then σ.emit (.sent client.stream (.push push))
            else σ.emit (.cut client.stream (.push push) env.cut)
          let σ :=
            if env.pushWritten && env.fdSent then σ.emit (.sent client.stream (.fd sessionId))
            else σ
          let σ := σ.closeFd dupFd
          if env.pushWritten && env.fdSent then
            let σ := σ.unregister session.masterFd
            let session := (session.attach env.now prevOwnerFd).clearPrevious.markReleased env.now
            ((σ.putSession sessionId session).emit (.returned sessionId client.stream),
              .detached sessionId)
          else
            (σ.putSession sessionId session.clearPrevious).handleDetach sessionId 0 0 gridSnapshot

def sessionInfo (env : Env) (s : Session) : SessionInfo where
  id := s.id
  state := s.state.name
  childPid := s.childPid
  cols := s.winsize.cols
  rows := s.winsize.rows
  ptsname := s.ptsname
  childAlive := env.childAlive s.childPid
  ringBufferBytes := s.sharedRing.totalWritten
  createdSecsAgo := (env.now - s.createdAt) / second
  lastActiveSecsAgo := (env.now - s.lastActive) / second
  terminalId := s.terminalId

def handleList (env : Env) (σ : Server) : Response :=
  .sessionList (σ.sessions.list.map (sessionInfo env))

def handleKill (env : Env) (σ : Server) (sessionId : Uuid) : Server × Response :=
  match σ.sessions.lookup sessionId with
  | none => (σ, notFound sessionId)
  | some session =>
    let σ := (σ.removeSession sessionId).unregister session.masterFd
    ((σ.notifySessionEnded sessionId).cleanupSession env session, .killed sessionId)

/-- While the session is attached its owner sets the size of the PTY. -/
def handleWinsizeUpdate (σ : Server) (sessionId : Uuid) (cols rows : UInt16) : Server × Response :=
  match σ.sessions.lookup sessionId with
  | none => (σ, notFound sessionId)
  | some session =>
    let sizeChanged := session.winsize.cols != cols || session.winsize.rows != rows
    let session := (session.resized cols rows).resizeParser cols rows
    let σ := σ.putSession sessionId session
    let σ :=
      if session.state = .attached then σ
      else
        let σ := σ.emit (.winsizeSet sessionId cols rows)
        if sizeChanged then σ else σ.emit (.signalled session.childPid .winch)
    (σ, .winsizeUpdated sessionId)

/-- The bytes the non-blocking PTY takes, by the results of the successive `write` calls. -/
def writeLoop : List Int → List UInt8 → List UInt8
  | [], _ => []
  | n :: results, data =>
    if data.isEmpty || decide (n ≤ 0) then []
    else data.take n.toNat ++ writeLoop results (data.drop n.toNat)

def handleWsInput (env : Env) (σ : Server) (sessionId : Uuid) (data : List UInt8) : Server :=
  match σ.sessions.lookup sessionId with
  | none => σ
  | some _ => σ.emit (.ptyWrote sessionId (writeLoop env.ptyWrites data))

def handleRemoteInput (J : Codec) (env : Env) (σ : Server) (sessionId : Uuid) (data : String) :
    Server × Response :=
  match J.base64 data with
  | .error e => (σ, .error ("base64 decode: " ++ e))
  | .ok bytes => (σ.handleWsInput env sessionId bytes, .inputAck sessionId)

def handleRequest (J : Codec) (env : Env) (σ : Server) (clientFd : RawFd) :
    Request → Except Stop (Server × Response)
  | .create shell cols rows workingDir terminalId envs =>
    σ.handleCreate env shell cols rows workingDir terminalId envs
  | .attach sessionId => .ok (σ.handleAttach env clientFd sessionId)
  | .detach sessionId cols rows gridSnapshot =>
    .ok (σ.handleDetach sessionId cols rows (gridSnapshot.map .given))
  | .list => .ok (σ, σ.handleList env)
  | .kill sessionId => .ok (σ.handleKill env sessionId)
  | .winsizeUpdate sessionId cols rows => .ok (σ.handleWinsizeUpdate sessionId cols rows)
  | .ping => .ok (σ, .pong protocolVersion σ.sessions.values.length)
  | .shutdown => .ok ({ σ with running := false }, .shuttingDown)
  | .input sessionId data => .ok (σ.handleRemoteInput J env sessionId data)

/-- Crash detach of one session: the ring is replayed into the parser. -/
def crashDetach (σ : Server) (id : Uuid) (masterFd : RawFd) : Except Stop Server :=
  let σ := σ.closePending id
  match σ.sessions.lookup id with
  | none => .ok (σ.register masterFd)
  | some s =>
    match s.sharedRing.dump with
    | none => .error .hangs
    | some ringData =>
      .ok ((σ.putSession id ((s.replay ringData).detach none)).register masterFd)

/-- No session keeps `fd` as its previous owner. -/
def forgetPrevious (σ : Server) (fd : RawFd) : Server :=
  { σ with
    sessions := Table.mapVals
      (fun s => if s.previousOwnerFd = some fd then s.clearPrevious else s)
      σ.sessions }

/-- Removing the client closes its stream. -/
def removeClient (σ : Server) (fd : RawFd) : Server :=
  match σ.clients.lookup fd with
  | none => σ
  | some _ => { σ with clients := σ.clients.erase fd }.closeFd fd

def handleClientDisconnect (σ : Server) (fd : RawFd) : Except Stop Server :=
  let σ := (((σ.unregister fd).removeClient fd).forgetPrevious fd)
  let toDetach := (σ.sessions.list.filter fun s => s.ownerFd = some fd).map
    fun s => (s.id, s.masterFd)
  toDetach.foldlM (fun σ p => σ.crashDetach p.1 p.2) σ

def handleWsDetach (J : Codec) (env : Env) (σ : Server) (sessionId : Uuid) : Server × Response :=
  let σ :=
    match σ.sessions.lookup sessionId with
    | none => σ
    | some session => σ.putSession sessionId session.wsClientGone
  let (isEtermAttached, hasPreviousOwner, inCooldown) : Bool × Bool × Bool :=
    match σ.sessions.lookup sessionId with
    | none => (false, false, false)
    | some s => (s.isAttached, s.previousOwnerFd.isSome, s.inCooldown env.now)
  if isEtermAttached && !inCooldown then σ.handleBatonTakeover J env sessionId
  else if isEtermAttached && inCooldown then (σ, .detached sessionId)
  else if hasPreviousOwner then σ.handleBatonRelease env sessionId
  else σ.handleDetach sessionId 0 0 none

/-- A session attached by a local client is taken over before a WebSocket client gets it. -/
def takeOverAttached (J : Codec) (env : Env) (σ : Server) (sessionId : Uuid) : Server :=
  match σ.sessions.lookup sessionId with
  | none => σ
  | some s => if s.isAttached then (σ.handleBatonTakeover J env sessionId).1 else σ

def handleWsAttach (J : Codec) (env : Env) (σ : Server) (sessionId : Uuid) :
    Except Stop (Server × Response) :=
  let σ := σ.takeOverAttached J env sessionId
  match σ.sessions.lookup sessionId with
  | none => .ok (σ, notFound sessionId)
  | some session =>
    if !env.childAlive session.childPid then .ok (σ, childDead sessionId)
    else
      let session := session.withSnapshot session.currentSnapshot
      match session.sharedRing.dump with
      | none => .error .hangs
      | some ringData =>
        let gridSnapshot :=
          if ringData.isEmpty then session.gridSnapshot.map .grid else some (.ring ringData)
        let session := if ringData.isEmpty then session.clearSnapshot else session
        let σ := if session.isAttached then σ else σ.register session.masterFd
        let session := session.wsClientCame
        .ok (σ.putSession sessionId session,
          .attachReady sessionId session.winsize.cols session.winsize.rows session.childPid
            session.shmName gridSnapshot)

def handleWsClientDisconnect (env : Env) (σ : Server) (clientId : Nat) : Server :=
  match σ.wsShared.clientSessions.lookup clientId with
  | none => σ
  | some sessionId =>
    match σ.sessions.lookup sessionId with
    | none => σ
    | some session =>
      let session := session.wsClientGone
      let σ := σ.putSession sessionId session
      if session.wsClientCount = 0 ∧ session.previousOwnerFd.isSome then
        (σ.handleBatonRelease env sessionId).1
      else σ

def handleWsCommand (J : Codec) (env : Env) (σ : Server) : WsCommand → Except Stop Server
  | .request _ request reply =>
    let handled :=
      match request with
      | .attach sessionId => σ.handleWsAttach J env sessionId
      | .detach sessionId _ _ _ => .ok (σ.handleWsDetach J env sessionId)
      -- WebSocket clients have no descriptor of their own
      | other => σ.handleRequest J env (-1) other
    handled.map fun p => p.1.emit (.replied reply p.2)
  | .disconnected clientId => .ok (σ.handleWsClientDisconnect env clientId)
  | .input sessionId data => .ok (σ.handleWsInput env sessionId data)

end Server

end PtyDaemon
