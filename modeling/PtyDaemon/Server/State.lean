import Mathlib.Data.Finset.Basic
import PtyDaemon.Session
import PtyDaemon.WsShared

/-!
# The state of the daemon

The fields of `Server`, what the kernel holds for the process (open descriptors, read filters
registered with the kqueue), and a trace of what the daemon has done to the outside, newest first.
A connection is named by the number of the `accept` call that returned it, because descriptor
numbers are used again.
-/

namespace PtyDaemon

/-- What an open descriptor refers to. -/
inductive FdObject
  | listener
  | wakeup
  | client (conn : Nat)
  | master (id : Uuid)
  | dup (id : Uuid)
  deriving DecidableEq

/-- What the daemon puts on a control connection. -/
inductive Frame
  | response (r : Response)
  | push (p : Push)
  | fd (id : Uuid)
  deriving DecidableEq

inductive Signal
  | hup
  | winch
  deriving DecidableEq

inductive Act
  | sent (conn : Nat) (frame : Frame)
  /-- `write_all` has failed, with so many bytes of the frame on the connection -/
  | cut (conn : Nat) (frame : Frame) (put : Nat)
  | replied (reply : Nat) (response : Response)
  /-- `handle_attach` has given the session to a connection -/
  | attached (id : Uuid) (conn : Option Nat)
  /-- a takeover has ended the attachment of a connection -/
  | takenOver (id : Uuid) (conn : Option Nat)
  /-- a release has given the session back -/
  | returned (id : Uuid) (conn : Nat)
  | spawned (id : Uuid) (shell : String) (workingDir : Option String) (terminalId : Option UInt32)
      (envs : Option (List (String × String)))
  | snapshotWritten (id : Uuid) (snapshot : GridSnapshot)
  | ptyRead (id : Uuid) (data : List UInt8)
  | ptyWrote (id : Uuid) (data : List UInt8)
  | winsizeSet (id : Uuid) (cols rows : UInt16)
  | signalled (pid : Pid) (signal : Signal)
  | unlinked (shmName : String)
  deriving DecidableEq

/-- A call that takes a descriptor number or gives one back. -/
inductive FdOp
  | opened (fd : RawFd) (object : FdObject)
  | closed (fd : RawFd)
  deriving DecidableEq

structure ClientState where
  stream : Nat
  readBuf : List UInt8
  deriving DecidableEq

structure Server where
  listener : RawFd
  sessions : Sessions
  clients : Table RawFd ClientState
  pendingDupFds : Table Uuid RawFd
  running : Bool
  idleSince : Option Nat
  wsShared : WsSharedState
  wsWakeupPipe : Option (RawFd × RawFd)
  /-- descriptors with a read filter in the kqueue -/
  kq : Finset RawFd
  fds : Table RawFd FdObject
  /-- how the table came about, newest first -/
  fdOps : List FdOp
  /-- connections accepted so far -/
  accepted : Nat
  /-- ids the generator has given out -/
  ids : List Uuid
  trace : List Act

/-- One result of `read` in `wait_for_detach_ack`; an error may be the timeout. -/
inductive AckRead
  | data (bytes : List UInt8)
  | closed
  | failed
  deriving DecidableEq

/-- What the clock, the kernel and the peers answer while one request is handled. No request makes
the same call twice, except for the reads of an acknowledgement and the writes to a PTY. -/
structure Env where
  now : Nat
  childAlive : Pid → Bool
  dup : Option RawFd
  createPty : Except String (RawFd × Pid × String)
  uuid : Uuid
  page : PageSize
  shmError : Option String
  snapshotWritten : Bool
  responseWritten : Bool
  pushWritten : Bool
  /-- what a `write_all` that fails has put -/
  cut : Nat
  fdSent : Bool
  /-- what arrives before the deadline of a takeover -/
  ackReads : List AckRead
  ptyWrites : List Int
  osError : String

/-- Why the loop does not come back to its head. -/
inductive Stop
  | io (message : String)
  | panics (message : String)
  | hangs
  /-- the kernel cannot have answered this way -/
  | excluded
  deriving DecidableEq

theorem ok_of_map {α β : Type} {x : Except Stop α} {f : α → β} {b : β} (h : x.map f = .ok b) :
    ∃ a, x = .ok a ∧ f a = b := by
  cases x with
  | error e => cases h
  | ok a => exact ⟨a, rfl, Except.ok.inj h⟩

theorem ok_of_bind {α β : Type} {x : Except Stop α} {f : α → Except Stop β} {b : β}
    (h : x.bind f = .ok b) : ∃ a, x = .ok a ∧ f a = .ok b := by
  cases x with
  | error e => cases h
  | ok a => exact ⟨a, rfl, h⟩

theorem ok_of_toOption {α : Type} {x : Except Stop α} {a : α} (h : x.toOption = some a) :
    x = .ok a := by
  cases x with
  | error e => cases h
  | ok b =>
    cases h
    rfl

namespace Server

def emit (σ : Server) (act : Act) : Server := { σ with trace := act :: σ.trace }

def putSession (σ : Server) (id : Uuid) (s : Session) : Server :=
  { σ with sessions := σ.sessions.insert id s }

def putClient (σ : Server) (fd : RawFd) (c : ClientState) : Server :=
  { σ with clients := σ.clients.insert fd c }

/-- `kq_register` with `EVFILT_READ` and `EV_ADD`. -/
def register (σ : Server) (fd : RawFd) : Server := { σ with kq := insert fd σ.kq }

/-- `kq_register` with `EVFILT_READ` and `EV_DELETE`. -/
def unregister (σ : Server) (fd : RawFd) : Server := { σ with kq := σ.kq.erase fd }

def openFd (σ : Server) (fd : RawFd) (object : FdObject) : Server :=
  { σ with fds := σ.fds.insert fd object, fdOps := .opened fd object :: σ.fdOps }

/-- Closing a descriptor takes its filters out of the kqueue. -/
def closeFd (σ : Server) (fd : RawFd) : Server :=
  { σ with fds := σ.fds.erase fd, kq := σ.kq.erase fd, fdOps := .closed fd :: σ.fdOps }

def stashDup (σ : Server) (id : Uuid) (fd : RawFd) : Server :=
  { σ with pendingDupFds := σ.pendingDupFds.insert id fd }

def dropPending (σ : Server) (id : Uuid) : Server :=
  { σ with pendingDupFds := σ.pendingDupFds.erase id }

def connOf (σ : Server) (fd : RawFd) : Option Nat := (σ.clients.lookup fd).map (·.stream)

/-- The number is one the kernel can return from `dup`, `openpty` or `accept`. -/
def freeFd (σ : Server) (fd : RawFd) : Bool := decide (0 ≤ fd) && (σ.fds.lookup fd).isNone

/-- The answers are ones the kernel and the generator can give in this state. -/
def admits (σ : Server) (env : Env) : Bool :=
  (match env.dup with
    | some fd => σ.freeFd fd
    | none => true) &&
  (match env.createPty with
    | .ok (fd, _, _) => σ.freeFd fd && !σ.ids.contains env.uuid
    | .error _ => true)

end Server

end PtyDaemon
