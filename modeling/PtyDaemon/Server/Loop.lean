import PtyDaemon.Server.Handlers

/-!
# The event loop

The handlers of kernel events, the decode loop, and one turn of `Server::run`. What the kernel
reports and answers in a turn is given with the turn.
-/

namespace PtyDaemon

def idleTimeout : Nat := 60 * second

/-- One result of `accept`; `refused` is a failure to set the stream up or register it. -/
inductive AcceptResult
  | stream (fd : RawFd)
  | refused (fd : RawFd) (message : String)
  | failed (message : String)
  deriving DecidableEq

inductive ClientRead
  | data (bytes : List UInt8)
  | closed
  | wouldBlock
  | failed (message : String)
  deriving DecidableEq

inductive PtyRead
  | data (bytes : List UInt8)
  | eof
  | failed
  deriving DecidableEq

inductive Filter
  | read
  | proc
  | signal
  deriving DecidableEq

/-- A `kevent`, as far as the loop looks at it. -/
structure KEvent where
  ident : Int
  filter : Filter
  eof : Bool
  deriving DecidableEq

/-- The answers to the calls made while one event is handled. -/
structure Answers where
  accepts : List AcceptResult
  clientRead : ClientRead
  ptyRead : PtyRead
  /-- for the child, the session and the reads outside requests -/
  env : Env
  /-- for the requests decoded, in order -/
  envs : List Env

namespace Server

/-- Write the response and drop the request's bytes from the buffer. -/
def answer (env : Env) (σ : Server) (fd : RawFd) (response : Response) (consumed : Nat) : Server :=
  match σ.clients.lookup fd with
  | none => σ
  | some client =>
    let σ :=
      if env.responseWritten then σ.emit (.sent client.stream (.response response))
      else σ.emit (.cut client.stream (.response response) env.cut)
    σ.putClient fd { client with readBuf := client.readBuf.drop consumed }

/-- After `AttachReady` the PTY is passed on; where that fails the attachment is undone. -/
def passOn (env : Env) (σ : Server) (fd : RawFd) : Response → Server
  | .attachReady sessionId _ _ _ _ _ =>
    let (σ, sent) := σ.sendAttachData env fd sessionId
    if sent then σ else σ.revertAttach sessionId
  | _ => σ

/-- One pass of the decode loop. -/
def serve (J : Codec) (env : Env) (σ : Server) (fd : RawFd) (result : Except String Request)
    (consumed : Nat) : Except Stop Server :=
  let handled :=
    match result with
    | .ok request => σ.handleRequest J env fd request
    | .error e => .ok (σ, .error ("parse error: " ++ e))
  handled.map fun p => (p.1.answer env fd p.2 consumed).passOn env fd p.2

/-- Requests are served until no complete message is left in the buffer. -/
def decodeLoop (J : Codec) (fd : RawFd) : List Env → Server → Except Stop Server
  | envs, σ =>
    match σ.clients.lookup fd with
    | none => .error (.panics "no entry found for key")
    | some client =>
      match tryDecodeMessage J.request client.readBuf, envs with
      | none, _ => .ok σ
      | some _, [] => .error .excluded
      | some (result, consumed), env :: envs =>
        if σ.admits env then (σ.serve J env fd result consumed).bind (decodeLoop J fd envs)
        else .error .excluded

def handleClientData (J : Codec) (envs : List Env) (σ : Server) (fd : RawFd) (read : ClientRead) :
    Except Stop Server :=
  match σ.clients.lookup fd with
  | none => .ok σ
  | some client =>
    match read with
    | .closed => σ.handleClientDisconnect fd
    | .wouldBlock => .ok σ
    | .failed e => .error (.io e)
    | .data bytes =>
      decodeLoop J fd envs (σ.putClient fd { client with readBuf := client.readBuf ++ bytes })

/-- A new connection gets the next number. -/
def acceptClient (σ : Server) (fd : RawFd) : Server :=
  let σ := (σ.openFd fd (.client σ.accepted)).register fd
  { σ.putClient fd ⟨σ.accepted, []⟩ with accepted := σ.accepted + 1 }

/-- The list ends where `accept` would block. -/
def acceptClients (σ : Server) : List AcceptResult → Except Stop Server
  | [] => .ok σ
  | .stream fd :: rest =>
    if σ.freeFd fd then (σ.acceptClient fd).acceptClients rest else .error .excluded
  | .refused _ e :: _ => .error (.io e)
  | .failed e :: _ => .error (.io e)

def handleChildExit (env : Env) (σ : Server) (pid : Pid) : Server :=
  match σ.sessions.findByChildPid pid with
  | none => σ
  | some s =>
    let σ := (σ.unregister s.masterFd).notifySessionEnded s.id
    match σ.sessions.lookup s.id with
    | none => σ
    | some session => (σ.removeSession s.id).dropSession env session

/-- Output of a PTY the daemon reads. -/
def handleSessionOutput (env : Env) (σ : Server) (fd : RawFd) (read : PtyRead) : Server :=
  match σ.sessions.findByMasterFd fd with
  | none => σ
  | some found =>
    match σ.sessions.lookup found.id with
    | none => σ
    | some session =>
      -- an event of the same batch may be left over from before an attach
      if session.state = .attached then σ
      else
        match read with
        | .data bytes =>
          let session := session.absorb env.now bytes
          let session :=
            if session.state = .idle then session.promoteToActive env.now else session
          let σ := (σ.putSession found.id session).emit (.ptyRead found.id bytes)
          { σ with wsShared := σ.wsShared.broadcast found.id bytes }
        | .eof => ((σ.unregister fd).removeSession found.id).dropSession env session
        | .failed => σ

/-- Remove the sessions whose child is gone. -/
def reapDead (env : Env) (σ : Server) : Server :=
  let dead := (σ.sessions.values.filter fun s => !env.childAlive s.childPid)
  let σ := dead.foldl (fun σ s => (σ.removeSession s.id).dropSession env s) σ
  dead.foldl (fun σ s => (σ.unregister s.masterFd).notifySessionEnded s.id) σ

/-- Where one event of a batch goes, by the order of the tests in the loop. -/
def dispatch (J : Codec) (ans : Answers) (σ : Server) (ev : KEvent) : Except Stop Server :=
  if ev.filter = .signal then .ok { σ with running := false }
  else if σ.wsWakeupPipe.any fun p => ev.ident = p.1 then .ok σ
  else if ev.ident = σ.listener then σ.acceptClients ans.accepts
  else if (σ.clients.lookup ev.ident).isSome then
    if ev.eof then σ.handleClientDisconnect ev.ident
    else σ.handleClientData J ans.envs ev.ident ans.clientRead
  else if ev.filter = .proc then .ok (σ.handleChildExit ans.env ev.ident)
  else .ok (σ.handleSessionOutput ans.env ev.ident ans.ptyRead)

/-- A signal ends the batch. -/
def dispatchAll (J : Codec) (σ : Server) : List (KEvent × Answers) → Except Stop Server
  | [] => .ok σ
  | (ev, ans) :: rest =>
    match σ.dispatch J ans ev with
    | .error stop => .error stop
    | .ok σ => if ev.filter = .signal then .ok σ else σ.dispatchAll J rest

/-- The commands of the queue, each with what the connection threads have made of the shared table
by then. -/
def drainWsCommands (J : Codec) (σ : Server) :
    List (WsSharedState × WsCommand × Env) → Except Stop Server
  | [] => .ok σ
  | (shared, cmd, env) :: rest =>
    let σ := { σ with wsShared := shared }
    if σ.admits env then
      match σ.handleWsCommand J env cmd with
      | .error stop => .error stop
      | .ok σ => σ.drainWsCommands J rest
    else .error .excluded

/-- Nobody is left: no session, no client, no WebSocket client attached. -/
def deserted (σ : Server) : Bool :=
  σ.sessions.entries.isEmpty && σ.clients.entries.isEmpty &&
    σ.wsShared.clientSessions.entries.isEmpty

end Server

/-- What `kevent` comes back with. -/
inductive Polled
  | events (batch : List (KEvent × Answers))
  /-- a signal handler has run -/
  | interrupted
  | failed (message : String)

def Polled.batch : Polled → List (KEvent × Answers)
  | .events batch => batch
  | .interrupted | .failed _ => []

/-- What happens in one turn of the loop. -/
structure Turn where
  /-- the answers to the checks of `reap_dead` -/
  reap : Env
  commands : List (WsSharedState × WsCommand × Env)
  /-- the time at the idle check -/
  now : Nat
  polled : Polled

def Turn.batch (t : Turn) : List (KEvent × Answers) := t.polled.batch

namespace Server

/-- An interrupted `kevent` is called again in the next turn. -/
def poll (J : Codec) (σ : Server) : Polled → Except Stop Server
  | .events batch => σ.dispatchAll J batch
  | .interrupted => .ok σ
  | .failed e => .error (.io e)

/-- One turn of `run`, from the head of the loop to its next head. -/
def turn (J : Codec) (σ : Server) (t : Turn) : Except Stop Server :=
  ((σ.reapDead t.reap).drainWsCommands J t.commands).bind fun σ =>
    if σ.deserted then
      match σ.idleSince with
      | some since =>
        if idleTimeout ≤ t.now - since then .ok { σ with running := false }
        else σ.poll J t.polled
      | none => { σ with idleSince := some t.now }.poll J t.polled
    else { σ with idleSince := none }.poll J t.polled

/-- `Server::new` and the part of `run` before its loop. -/
def new (listener : RawFd) (wakeup : Option (RawFd × RawFd)) (now : Nat) : Server where
  listener := listener
  sessions := ∅
  clients := ∅
  pendingDupFds := ∅
  running := true
  idleSince := some now
  wsShared := .new
  wsWakeupPipe := wakeup
  kq := insert listener (wakeup.elim ∅ fun p => {p.1})
  fds :=
    let fds : Table RawFd FdObject := AList.singleton listener .listener
    match wakeup with
    | none => fds
    | some p => (fds.insert p.1 .wakeup).insert p.2 .wakeup
  fdOps := []
  accepted := 0
  ids := []
  trace := []

end Server

end PtyDaemon
