import PtyDaemon.Clients.Streams
import PtyDaemon.Framework.Transition
import PtyDaemon.Ws.Channels

/-!
# The daemon and its WebSocket clients

Every WebSocket connection is served by a task of its own, which sends commands to the daemon and
changes the shared table. A task has one request at a time with the daemon, so the connection's
number stands for the oneshot channel of the reply. Commands are queued; the tasks, the daemon and
the local clients take steps in any order.
-/

namespace PtyDaemon

/-- What goes to a WebSocket client. -/
inductive WsMessage
  | text (response : Response)
  | binary (data : List UInt8)
  | sessionEnded (sessionId : Uuid)
  deriving DecidableEq

/-- Where the task of a connection stands. -/
inductive WsTask
  | reading
  /-- about to send a request to the daemon -/
  | forwarding (request : Request)
  | waiting (request : Request)
  /-- the reply has come; the session it gives access to had put out `dumpedAt` bytes then -/
  | answered (request : Request) (response : Response) (dumpedAt : Nat)
  /-- out of its loop and unsubscribed -/
  | leaving
  | gone
  deriving DecidableEq

/-- The receiving end of a channel: its name and how many of its events have been taken. -/
structure WsReceiver where
  tx : Nat
  read : Nat
  deriving DecidableEq

/-- A record of what a client has got since its last `AttachReady`, for the results only: the bytes
of the ring, the output delivered after them, and how much the session had put out when the ring
was dumped and when the client was subscribed. -/
structure WsStream where
  sessionId : Uuid
  tx : Nat
  history : List UInt8
  delivered : List UInt8
  dumpedAt : Nat
  subscribedAt : Nat
  deriving DecidableEq

structure WsConnection where
  task : WsTask
  attachedSession : Option Uuid
  eventRx : Option WsReceiver
  sent : List WsMessage
  stream : Option WsStream
  deriving DecidableEq

/-- The session a reply gives access to, and the bytes of its ring. -/
def Response.ready : Response → Option (Uuid × List UInt8)
  | .attachReady sessionId _ _ _ _ (some (.ring bytes)) => some (sessionId, bytes)
  | .attachReady sessionId _ _ _ _ _ => some (sessionId, [])
  | _ => none

def Request.isAttach : Request → Bool
  | .attach _ => true
  | _ => false

/-- What the task of a connection does next. -/
inductive WsStep
  /-- a text frame, as it parses -/
  | text (result : Except String Request)
  | binary (data : List UInt8)
  | forward
  | finish
  /-- take an event from the channel; `written`: its output could be written to the socket -/
  | recv (written : Bool)
  /-- a close frame, the end of the stream, or an error -/
  | close
  /-- tell the daemon -/
  | report

namespace WsConnection

def new : WsConnection := ⟨.reading, none, none, [], none⟩

def say (conn : WsConnection) (message : WsMessage) : WsConnection :=
  { conn with sent := conn.sent ++ [message] }

/-- Cleanup at the end of the loop. -/
def leave (conn : WsConnection) (t : WsSharedState) (c : Nat) : WsSharedState × WsConnection :=
  (match conn.attachedSession with
    | some sid => t.unsubscribe sid c
    | none => t,
    { conn with task := .leaving, attachedSession := none, eventRx := none, stream := none })

/-- Detach cleans up the subscription before it is forwarded. -/
def detachFirst (conn : WsConnection) (t : WsSharedState) (c : Nat) :
    Request → WsSharedState × WsConnection
  | .detach sessionId _ _ _ =>
    if conn.attachedSession = some sessionId then
      (t.unsubscribe sessionId c,
        { conn with attachedSession := none, eventRx := none, stream := none })
    else (t, conn)
  | _ => (t, conn)

/-- If attach succeeded, set up streaming. -/
def setUp (conn : WsConnection) (t : WsSharedState) (c : Nat) (out : Uuid → Nat)
    (request : Request) (response : Response) (dumpedAt : Nat) : WsSharedState × WsConnection :=
  match request.isAttach, response.ready with
  | true, some (sid, history) =>
    let (tx, t) := t.subscribe sid c
    (t,
      { conn with
        attachedSession := some sid
        eventRx := some ⟨tx, 0⟩
        stream := some ⟨sid, tx, history, [], dumpedAt, out sid⟩ })
  | _, _ => (t, conn)

/-- Output goes to the client as a binary frame. -/
def deliver (conn : WsConnection) (rx : WsReceiver) (data : List UInt8) : WsConnection :=
  { conn.say (.binary data) with
    eventRx := some { rx with read := rx.read + 1 }
    stream := conn.stream.map fun st => { st with delivered := st.delivered ++ data } }

/-- An event taken from the channel; `none` for the end of it. -/
def handleEvent (conn : WsConnection) (t : WsSharedState) (c : Nat) (rx : WsReceiver)
    (written : Bool) : Option WsEvent → WsSharedState × WsConnection
  | some (.ptyOutput data) => if written then (t, conn.deliver rx data) else conn.leave t c
  | some .sessionEnded =>
    match conn.attachedSession with
    | some sid =>
      (t.unsubscribe sid c,
        { conn.say (.sessionEnded sid) with attachedSession := none, eventRx := none })
    | none => (t, conn)
  | none => conn.leave t c

/-- A step of the task of connection `c`, with what it sends to the daemon. `out` is how much the
sessions have put out. -/
def step (conn : WsConnection) (t : WsSharedState) (c : Nat) (out : Uuid → Nat) :
    WsStep → Option ((WsSharedState × WsConnection) × Option WsCommand)
  | .text (.error e) =>
    if conn.task = .reading then some ((t, conn.say (.text (.error ("parse error: " ++ e)))), none)
    else none
  | .text (.ok request) =>
    if conn.task = .reading then
      let (t, conn) := conn.detachFirst t c request
      some ((t, { conn with task := .forwarding request }), none)
    else none
  | .binary data =>
    if conn.task = .reading then
      let sid := if conn.eventRx.isSome then conn.attachedSession else none
      some ((t, conn), sid.map (.input · data))
    else none
  | .forward =>
    match conn.task with
    | .forwarding request =>
      some ((t, { conn with task := .waiting request }), some (.request c request c))
    | _ => none
  | .finish =>
    match conn.task with
    | .answered request response dumpedAt =>
      if request = .shutdown then some ((conn.say (.text response)).leave t c, none)
      else
        let (t, conn) := conn.setUp t c out request response dumpedAt
        some ((t, { conn.say (.text response) with task := .reading }), none)
    | _ => none
  | .recv written =>
    match conn.task, conn.eventRx with
    | .reading, some rx =>
      let event := (t.eventsOf rx.tx)[rx.read]?
      -- an empty channel makes the task wait, unless it is closed
      if event.isNone && t.hasSender rx.tx then none
      else some (conn.handleEvent t c rx written event, none)
    | _, _ => none
  | .close => if conn.task = .reading then some (conn.leave t c, none) else none
  | .report =>
    if conn.task = .leaving then some ((t, { conn with task := .gone }), some (.disconnected c))
    else none

end WsConnection

structure WsWorld where
  streams : Streams
  connections : Table Nat WsConnection
  queue : List WsCommand
  /-- how much every PTY had put out when a local client last read from it -/
  clientEnd : Uuid → Nat

namespace WsWorld

inductive Label
  | accept
  | task (c : Nat) (step : WsStep)
  /-- the daemon handles the first command of the queue -/
  | drain (env : Env)
  | daemon (e : Event)
  | clientRead (id : Uuid) (data : List UInt8)

/-- Steps of the daemon's thread. -/
def Label.ofDaemon : Label → Bool
  | .drain _ => true
  | .daemon _ => true
  | _ => false

variable {J : Codec}

abbrev server (w : WsWorld) : Server := w.streams.server

abbrev shared (w : WsWorld) : WsSharedState := w.streams.server.wsShared

/-- The connection tasks have made `t` of the shared table. -/
def withShared (w : WsWorld) (t : WsSharedState) : WsWorld :=
  { w with streams := { w.streams with server := { w.server with wsShared := t } } }

def accept (w : WsWorld) : WsWorld :=
  let (c, t) := w.shared.takeClientId
  { w.withShared t with connections := w.connections.insert c .new }

def stepTask (w : WsWorld) (c : Nat) (s : WsStep) : Option WsWorld :=
  (w.connections.lookup c).bind fun conn =>
    (conn.step w.shared c (fun id => (w.streams.out id).length) s).map fun p =>
      { w.withShared p.1.1 with
        connections := w.connections.insert c p.1.2
        queue := w.queue ++ p.2.toList }

/-- The reply goes to the task that waits for it. -/
def reply (out : Uuid → Nat) (response : Response) (conn : WsConnection) : WsConnection :=
  match conn.task with
  | .waiting request =>
    { conn with
      task := .answered request response (response.ready.elim 0 fun p => out p.1) }
  | _ => conn

/-- What the daemon did last, where it was to reply. -/
def lastReply (σ : Server) : Option Response :=
  match σ.trace with
  | .replied _ response :: _ => some response
  | _ => none

/-- The connections after the daemon has handled `cmd` and come to `s`. -/
def replyTo (connections : Table Nat WsConnection) (s : Streams) : WsCommand →
    Table Nat WsConnection
  | .request _ _ c =>
    match lastReply s.server, connections.lookup c with
    | some response, some conn =>
      connections.insert c (reply (fun id => (s.out id).length) response conn)
    | _, _ => connections
  | _ => connections

def drain (J : Codec) (w : WsWorld) (env : Env) : Option WsWorld :=
  match w.queue with
  | [] => none
  | cmd :: queue =>
    (w.server.event J (.command w.shared cmd env)).toOption.map fun σ' =>
      let s := w.streams.advance σ'
      { w with streams := s, connections := replyTo w.connections s cmd, queue := queue }

def step (J : Codec) (w : WsWorld) : Label → Option WsWorld
  | .accept => some w.accept
  | .task c s => w.stepTask c s
  | .drain env => w.drain J env
  -- commands come from the queue
  | .daemon (.command _ _ _) => none
  | .daemon e =>
    (w.server.event J e).toOption.map fun σ' => { w with streams := w.streams.advance σ' }
  | .clientRead id data =>
    (w.streams.step J (.clientRead id data)).map fun s =>
      { w with
        streams := s
        clientEnd := fun i =>
          if i = id ∧ data ≠ [] then (s.out i).length else w.clientEnd i }

def new (listener : RawFd) (wakeup : Option (RawFd × RawFd)) (now : Nat) : WsWorld :=
  ⟨.new listener wakeup now, ∅, [], fun _ => 0⟩

def system (J : Codec) : Transition.System WsWorld Label where
  init w := ∃ listener wakeup now, w = new listener wakeup now
  step := step J

end WsWorld

end PtyDaemon
