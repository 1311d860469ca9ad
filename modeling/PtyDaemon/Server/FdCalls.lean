import PtyDaemon.Framework.Ledger
import PtyDaemon.Server.Run
import PtyDaemon.Server.Shutdown

/-!
# The descriptors the handlers open and close

For every handler the calls that open or close a descriptor, in the order of the source, each with
what the handler takes the number to refer to. The lists follow the handlers; that these are the
calls the handlers make, and that the table of open descriptors changes by them, is proved handler
by handler. The kqueue is a local of `run`, and the descriptors of the rings are followed where the
rings are mapped.
-/

namespace PtyDaemon

abbrev FdCall := Ledger.Call RawFd FdObject

/-- The call itself does not say what is closed. -/
def FdCall.op : FdCall → FdOp
  | .opened fd object => .opened fd object
  | .closed fd _ => .closed fd

open Ledger (replay)

/-- `Session::cleanup` closes the master and forgets its number. -/
def Session.cleanupCalls (s : Session) : List FdCall × Session :=
  ([.closed s.masterFd (.master s.id)], { s with masterFd := -1 })

/-- `Drop for Session`. -/
def Session.dropCalls (s : Session) : List FdCall :=
  if 0 ≤ s.masterFd then s.cleanupCalls.1 else []

/-- An explicit `cleanup`, after which the session is dropped. -/
def Session.endCalls (s : Session) : List FdCall :=
  s.cleanupCalls.1 ++ s.cleanupCalls.2.dropCalls

theorem Session.endCalls_eq (s : Session) : s.endCalls = [.closed s.masterFd (.master s.id)] := by
  simp [endCalls, cleanupCalls, dropCalls]

theorem Session.dropCalls_eq {s : Session} (h : 0 ≤ s.masterFd) :
    s.dropCalls = [.closed s.masterFd (.master s.id)] := if_pos h

namespace Server

/-- The pair of descriptors is forgotten, so the master stays open for the session. -/
def handleCreateCalls (env : Env) : List FdCall :=
  match env.createPty with
  | .error _ => []
  | .ok (masterFd, _, _) =>
    match env.shmError, SharedRingBuffer.create env.page defaultRingSize with
    | none, some _ => [.opened masterFd (.master env.uuid)]
    | _, _ => []

def handleAttachCalls (env : Env) (σ : Server) (sessionId : Uuid) : List FdCall :=
  match σ.sessions.lookup sessionId with
  | none => []
  | some session =>
    if session.state = .attached then []
    else if !env.childAlive session.childPid then []
    else
      match env.dup with
      | none => []
      | some dupFd => [.opened dupFd (.dup sessionId)]

def sendAttachDataCalls (σ : Server) (clientFd : RawFd) (sessionId : Uuid) : List FdCall :=
  match σ.pendingDupFds.lookup sessionId with
  | none => []
  | some dupFd =>
    match σ.clients.lookup clientFd with
    | none => [.closed dupFd (.dup sessionId)]
    | some _ => [.closed dupFd (.dup sessionId)]

def closePendingCalls (σ : Server) (sessionId : Uuid) : List FdCall :=
  match σ.pendingDupFds.lookup sessionId with
  | none => []
  | some dupFd => [.closed dupFd (.dup sessionId)]

def revertAttachCalls (σ : Server) (sessionId : Uuid) : List FdCall := σ.closePendingCalls sessionId

def handleBatonReleaseCalls (env : Env) (σ : Server) (sessionId : Uuid) : List FdCall :=
  match σ.sessions.lookup sessionId with
  | none => []
  | some session =>
    match session.previousOwnerFd with
    | none => []
    | some prevOwnerFd =>
      match σ.clients.lookup prevOwnerFd with
      | none => []
      | some _ =>
        match env.dup with
        | none => []
        | some dupFd =>
          -- the descriptor is closed whether the push went out or not
          .opened dupFd (.dup sessionId) ::
            (if env.pushWritten then [.closed dupFd (.dup sessionId)]
            else [.closed dupFd (.dup sessionId)])

def handleKillCalls (σ : Server) (sessionId : Uuid) : List FdCall :=
  match σ.sessions.lookup sessionId with
  | none => []
  | some session => session.endCalls

def handleRequestCalls (env : Env) (σ : Server) : Request → List FdCall
  | .create .. => handleCreateCalls env
  | .attach sessionId => σ.handleAttachCalls env sessionId
  | .kill sessionId => σ.handleKillCalls sessionId
  | _ => []

def passOnCalls (env : Env) (σ : Server) (fd : RawFd) : Response → List FdCall
  | .attachReady sessionId _ _ _ _ _ =>
    let (τ, sent) := σ.sendAttachData env fd sessionId
    σ.sendAttachDataCalls fd sessionId ++ (if sent then [] else τ.revertAttachCalls sessionId)
  | _ => []

def serveCalls (J : Codec) (env : Env) (σ : Server) (fd : RawFd)
    (result : Except String Request) (consumed : Nat) : List FdCall :=
  match result with
  | .error _ => []
  | .ok request =>
    σ.handleRequestCalls env request ++
      match σ.handleRequest J env fd request with
      | .error _ => []
      | .ok (τ, response) => (τ.answer env fd response consumed).passOnCalls env fd response

def decodeLoopCalls (J : Codec) (fd : RawFd) : List Env → Server → List FdCall
  | [], _ => []
  | env :: envs, σ =>
    match σ.clients.lookup fd with
    | none => []
    | some client =>
      match tryDecodeMessage J.request client.readBuf with
      | none => []
      | some (result, consumed) =>
        σ.serveCalls J env fd result consumed ++
          match σ.serve J env fd result consumed with
          | .error _ => []
          | .ok τ => decodeLoopCalls J fd envs τ

/-- The connection's stream is dropped with its entry. -/
def removeClientCalls (σ : Server) (fd : RawFd) : List FdCall :=
  match σ.clients.lookup fd with
  | none => []
  | some client => [.closed fd (.client client.stream)]

def crashDetachCalls (σ : Server) : List (Uuid × RawFd) → List FdCall
  | [] => []
  | (id, masterFd) :: rest =>
    σ.closePendingCalls id ++
      match σ.crashDetach id masterFd with
      | .error _ => []
      | .ok τ => τ.crashDetachCalls rest

def handleClientDisconnectCalls (σ : Server) (fd : RawFd) : List FdCall :=
  let τ := ((σ.unregister fd).removeClient fd).forgetPrevious fd
  (σ.unregister fd).removeClientCalls fd ++
    τ.crashDetachCalls ((τ.sessions.list.filter fun s => s.ownerFd = some fd).map
      fun s => (s.id, s.masterFd))

def handleWsDetachCalls (env : Env) (σ : Server) (sessionId : Uuid) : List FdCall :=
  let σ :=
    match σ.sessions.lookup sessionId with
    | none => σ
    | some session => σ.putSession sessionId session.wsClientGone
  let (isEtermAttached, hasPreviousOwner) : Bool × Bool :=
    match σ.sessions.lookup sessionId with
    | none => (false, false)
    | some s => (s.isAttached, s.previousOwnerFd.isSome)
  if isEtermAttached then []
  else if hasPreviousOwner then σ.handleBatonReleaseCalls env sessionId
  else []

def handleWsClientDisconnectCalls (env : Env) (σ : Server) (clientId : Nat) : List FdCall :=
  match σ.wsShared.clientSessions.lookup clientId with
  | none => []
  | some sessionId =>
    match σ.sessions.lookup sessionId with
    | none => []
    | some session =>
      let session := session.wsClientGone
      if session.wsClientCount = 0 ∧ session.previousOwnerFd.isSome then
        (σ.putSession sessionId session).handleBatonReleaseCalls env sessionId
      else []

def handleWsCommandCalls (env : Env) (σ : Server) : WsCommand → List FdCall
  | .request _ (.attach _) _ => []
  | .request _ (.detach sessionId _ _ _) _ => σ.handleWsDetachCalls env sessionId
  | .request _ request _ => σ.handleRequestCalls env request
  | .disconnected clientId => σ.handleWsClientDisconnectCalls env clientId
  | .input _ _ => []

-- a stream that is refused is dropped with the error that ends the loop
def acceptClientCalls (σ : Server) (fd : RawFd) : List FdCall := [.opened fd (.client σ.accepted)]

def handleChildExitCalls (σ : Server) (pid : Pid) : List FdCall :=
  match σ.sessions.findByChildPid pid with
  | none => []
  | some s =>
    match σ.sessions.lookup s.id with
    | none => []
    | some session => session.dropCalls

def handleSessionOutputCalls (σ : Server) (fd : RawFd) (read : PtyRead) : List FdCall :=
  match σ.sessions.findByMasterFd fd with
  | none => []
  | some found =>
    match σ.sessions.lookup found.id with
    | none => []
    | some session =>
      if session.state = .attached then []
      else
        match read with
        | .eof => session.dropCalls
        | _ => []

def reapDeadCalls (env : Env) (σ : Server) : List FdCall :=
  (σ.sessions.values.filter fun s => !env.childAlive s.childPid).flatMap Session.dropCalls

def eventCalls (J : Codec) (σ : Server) : Event → List FdCall
  | .reap env => σ.reapDeadCalls env
  | .command shared cmd env => { σ with wsShared := shared }.handleWsCommandCalls env cmd
  | .accept fd => σ.acceptClientCalls fd
  | .request fd result consumed env => σ.serveCalls J env fd result consumed
  | .disconnect fd => σ.handleClientDisconnectCalls fd
  | .childExit pid _ => σ.handleChildExitCalls pid
  | .output fd read _ => σ.handleSessionOutputCalls fd read

def killSessionCalls (σ : Server) (id : Uuid) : List FdCall :=
  match σ.sessions.lookup id with
  | none => []
  | some session => session.endCalls

def killAllCalls (env : Env) (σ : Server) : List Uuid → List FdCall
  | [] => []
  | id :: ids => σ.killSessionCalls id ++ (σ.killSession env id).killAllCalls env ids

def closeAllPendingCalls (σ : Server) : List FdCall :=
  σ.pendingDupFds.entries.map fun e => .closed e.2 (.dup e.1)

def closePipeCalls (σ : Server) : List FdCall :=
  match σ.wsWakeupPipe with
  | none => []
  | some (readFd, writeFd) => [.closed readFd .wakeup, .closed writeFd .wakeup]

def cleanupCalls (env : Env) (σ : Server) : List FdCall :=
  let σ := σ.tellAll
  let ids := σ.sessions.list.map Session.id
  let τ := ids.foldl (killSession env) σ
  σ.killAllCalls env ids ++ τ.closeAllPendingCalls ++ τ.closeAllPending.closePipeCalls

def dropFieldsCalls (σ : Server) : List FdCall :=
  .closed σ.listener .listener :: σ.clients.entries.map fun e => .closed e.1 (.client e.2.stream)

end Server

end PtyDaemon
