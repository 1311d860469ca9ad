import PtyDaemon.Server.Frame

/-!
# The daemon and its command line clients

Every connection has a process at its other end: `attach` with its interactive loop, or a
subcommand that sends one request. Messages between a process and the daemon stay in order; the
steps of all parties interleave in any way.
-/

namespace PtyDaemon

/-- Where a client process stands. `pty` is the session whose descriptor it has received. -/
inductive Stage
  /-- `cmd_attach` waits for the reply to its `Attach` -/
  | asking
  /-- in `recv_fd` -/
  | receiving
  /-- replays the ring -/
  | replaying (pty : Uuid)
  /-- in the loop of `run_interactive` -/
  | looping (pty : Uuid)
  /-- in the loop, waiting for the reply to its `Detach` -/
  | detaching (pty : Uuid)
  /-- in the last pass of the loop, which reads the PTY once more -/
  | stopping (pty : Uuid)
  /-- a subcommand that waits for the reply to its only request -/
  | oneShot
  | exited
  deriving DecidableEq

structure Process where
  /-- the argument of `attach` -/
  session : Uuid
  stage : Stage
  /-- requests written that the daemon has not served -/
  outbox : List Request
  /-- frames written by the daemon that the process has not read -/
  inbox : List Frame
  deriving DecidableEq

inductive Command
  | attach (session : Uuid)
  | send (request : Request)
  deriving DecidableEq

/-- What a process does next. Everything but `quit` is possible at one stage only. -/
inductive ProcessStep
  | readReply
  | receiveFd
  | enterLoop
  | pressDetach
  | readDetached
  /-- end of input, end of the PTY, an error, or a signal -/
  | quit
  deriving DecidableEq

namespace Process

def start : Command → Process
  | .attach session => ⟨session, .asking, [.attach session], []⟩
  | .send request => ⟨0, .oneShot, [request], []⟩

def isReady : Frame → Bool
  | .response (.attachReady ..) => true
  | _ => false

def step (p : Process) : ProcessStep → Option Process
  | .readReply =>
    match p.stage, p.inbox with
    | .asking, frame :: inbox =>
      some { p with inbox := inbox, stage := if isReady frame then .receiving else .exited }
    | _, _ => none
  | .receiveFd =>
    match p.stage, p.inbox with
    | .receiving, .fd pty :: inbox => some { p with inbox := inbox, stage := .replaying pty }
    | .receiving, _ :: inbox => some { p with inbox := inbox, stage := .exited }
    | _, _ => none
  | .enterLoop =>
    match p.stage with
    | .replaying pty => some { p with stage := .looping pty }
    | _ => none
  | .pressDetach =>
    match p.stage with
    | .looping pty =>
      some { p with
        stage := .detaching pty
        outbox := p.outbox ++ [.detach p.session 80 24 none] }
    | _ => none
  | .readDetached =>
    match p.stage, p.inbox with
    | .detaching pty, _ :: inbox => some { p with inbox := inbox, stage := .stopping pty }
    | _, _ => none
  | .quit => some { p with stage := .exited }

/-- The process is inside its read/write loop on a dup of the master of `id`. -/
def inLoop (p : Process) (id : Uuid) : Prop :=
  p.stage = .looping id ∨ p.stage = .detaching id ∨ p.stage = .stopping id

/-- The process is inside the loop, or about to get there with a descriptor it has or will find in
its inbox. -/
def holds (p : Process) (id : Uuid) : Prop :=
  p.inLoop id ∨ p.stage = .replaying id ∨
    (p.stage = .asking ∨ p.stage = .receiving) ∧ .fd id ∈ p.inbox

end Process

structure World where
  server : Server
  /-- the process at the other end of each connection -/
  processes : Table Nat Process

def Act.frameFor (conn : Nat) : Act → Option Frame
  | .sent c frame => if c = conn then some frame else none
  | _ => none

namespace World

/-- The frames of a step arrive at their connections. -/
def deliver (acts : List Act) (processes : Table Nat Process) : Table Nat Process :=
  processes.mapWithKey fun conn p =>
    { p with inbox := p.inbox ++ acts.filterMap (Act.frameFor conn) }

/-- The daemon can only serve a request that has been written, and a connection is lost only when
its process is gone. -/
def prepare (w : World) : Event → Option World
  | .accept _ => none
  | .request fd result _ _ =>
    (w.server.connOf fd).bind fun conn =>
      (w.processes.lookup conn).bind fun p =>
        match p.outbox, result with
        | request :: outbox, .ok served =>
          if request = served then
            some { w with processes := w.processes.insert conn { p with outbox := outbox } }
          else none
        | _, _ => none
  | .disconnect fd =>
    (w.server.connOf fd).bind fun conn =>
      (w.processes.lookup conn).bind fun p => if p.stage = .exited then some w else none
  | _ => some w

inductive Label
  | connect (fd : RawFd) (command : Command)
  | daemon (e : Event)
  | client (conn : Nat) (s : ProcessStep)

def step (J : Codec) (w : World) : Label → Option World
  | .connect fd command =>
    if w.server.freeFd fd then
      some ⟨w.server.acceptClient fd,
        w.processes.insert w.server.accepted (.start command)⟩
    else none
  | .daemon e =>
    (w.prepare e).bind fun w =>
      (w.server.event J e).toOption.map fun σ =>
        ⟨σ, deliver (Server.newActs w.server σ) w.processes⟩
  | .client conn s =>
    (w.processes.lookup conn).bind fun p =>
      (p.step s).map fun p => { w with processes := w.processes.insert conn p }

def new (listener : RawFd) (wakeup : Option (RawFd × RawFd)) (now : Nat) : World :=
  ⟨Server.new listener wakeup now, ∅⟩

def system (J : Codec) : Transition.System World Label where
  init w := ∃ listener wakeup now, w = new listener wakeup now
  step := step J

end World

end PtyDaemon
