import PtyDaemon.Framework.Table
import PtyDaemon.Protocol
import PtyDaemon.SharedRing.Basic

/-!
# Sessions

The session record and its transitions, and the session manager. Instants are nanoseconds on a
monotonic clock.
-/

namespace PtyDaemon

def second : Nat := 1000000000

namespace TerminalState

def new (cols rows : UInt16) : TerminalState where
  cols := cols
  rows := rows
  calls := []

def replayHistory (ts : TerminalState) (data : List UInt8) : TerminalState :=
  if data.isEmpty then ts else { ts with calls := ts.calls ++ [.advance data] }

def feed (ts : TerminalState) (data : List UInt8) : TerminalState :=
  { ts with calls := ts.calls ++ [.advance data] }

def resize (ts : TerminalState) (cols rows : UInt16) : TerminalState :=
  { ts with calls := ts.calls ++ [.resize cols rows] }

/-- The snapshot is that of the parser at this moment; capturing cannot fail. -/
def captureSnapshot (ts : TerminalState) : Option GridSnapshot := some (.captured ts)

/-- All bytes passed to `replay_history` and `feed`, in order. -/
def fed (ts : TerminalState) : List UInt8 :=
  ts.calls.flatMap fun
    | .advance bytes => bytes
    | .resize _ _ => []

@[simp] theorem fed_new (cols rows : UInt16) : (new cols rows).fed = [] := rfl

@[simp] theorem fed_feed (ts : TerminalState) (data : List UInt8) :
    (ts.feed data).fed = ts.fed ++ data := by
  simp [fed, feed]

@[simp] theorem fed_replayHistory (ts : TerminalState) (data : List UInt8) :
    (ts.replayHistory data).fed = ts.fed ++ data := by
  unfold replayHistory
  split
  · rename_i h
    rw [List.isEmpty_iff.mp h, List.append_nil]
  · exact fed_feed ts data

@[simp] theorem fed_resize (ts : TerminalState) (cols rows : UInt16) :
    (ts.resize cols rows).fed = ts.fed := by
  simp [fed, resize]

end TerminalState

inductive SessionState
  | attached
  | active
  | idle
  deriving DecidableEq

def SessionState.name : SessionState → String
  | .attached => "Attached"
  | .active => "Active"
  | .idle => "Idle"

structure WinSize where
  cols : UInt16
  rows : UInt16
  deriving DecidableEq

structure Session where
  id : Uuid
  masterFd : RawFd
  childPid : Pid
  ptsname : String
  state : SessionState
  winsize : WinSize
  sharedRing : SharedRingBuffer
  shmName : String
  createdAt : Nat
  lastActive : Nat
  lastAttached : Option Nat
  ownerFd : Option RawFd
  terminalId : Option UInt32
  gridSnapshot : Option GridSnapshot
  terminalState : Option TerminalState
  wsClientCount : Nat
  previousOwnerFd : Option RawFd
  batonReleaseAt : Option Nat

def shmNameForSession (id : Uuid) : String := "/ptyd-" ++ (id.toText.take 8).toString

namespace Session

/-- `ring` is the object `SharedRingBuffer::create` has made for the session's name. -/
def new (now : Nat) (id : Uuid) (ring : SharedRingBuffer) (masterFd : RawFd) (childPid : Pid)
    (ptsname : String) (winsize : WinSize) (terminalId : Option UInt32) : Session where
  id := id
  masterFd := masterFd
  childPid := childPid
  ptsname := ptsname
  state := .active
  winsize := winsize
  sharedRing := ring
  shmName := shmNameForSession id
  createdAt := now
  lastActive := now
  lastAttached := none
  ownerFd := none
  terminalId := terminalId
  gridSnapshot := none
  terminalState := some (.new winsize.cols winsize.rows)
  wsClientCount := 0
  previousOwnerFd := none
  batonReleaseAt := none

def attach (s : Session) (now : Nat) (ownerFd : RawFd) : Session :=
  { s with state := .attached, ownerFd := some ownerFd, lastAttached := some now }

def detach (s : Session) (snapshot : Option GridSnapshot) : Session :=
  { s with
    state := .active
    ownerFd := none
    gridSnapshot := if snapshot.isSome then snapshot else s.gridSnapshot }

/-- Keeps the owner for the later release. -/
def batonDetach (s : Session) (snapshot : Option GridSnapshot) : Session :=
  { s with
    previousOwnerFd := if s.ownerFd.isSome then s.ownerFd else s.previousOwnerFd }.detach snapshot

def promoteToActive (s : Session) (now : Nat) : Session :=
  { s with state := .active, lastActive := now }

def withSnapshot (s : Session) (snapshot : Option GridSnapshot) : Session :=
  { s with gridSnapshot := snapshot }

def clearSnapshot (s : Session) : Session := { s with gridSnapshot := none }

def resized (s : Session) (cols rows : UInt16) : Session := { s with winsize := ⟨cols, rows⟩ }

def clearPrevious (s : Session) : Session := { s with previousOwnerFd := none }

def markReleased (s : Session) (now : Nat) : Session := { s with batonReleaseAt := some now }

def resizeParser (s : Session) (cols rows : UInt16) : Session :=
  { s with terminalState := s.terminalState.map fun ts => ts.resize cols rows }

/-- One WebSocket client less, never below zero. -/
def wsClientGone (s : Session) : Session :=
  { s with wsClientCount := if 0 < s.wsClientCount then s.wsClientCount - 1 else s.wsClientCount }

/-- The count is a `u32`. -/
def wsClientCame (s : Session) : Session :=
  { s with wsClientCount := (s.wsClientCount + 1) % 2 ^ 32 }

/-- Replay history into the parser. -/
def replay (s : Session) (data : List UInt8) : Session :=
  { s with terminalState := s.terminalState.map fun ts => ts.replayHistory data }

/-- New output read by the daemon: into the ring, then into the parser. -/
def absorb (s : Session) (now : Nat) (data : List UInt8) : Session :=
  { s with
    sharedRing := s.sharedRing.write data
    terminalState := s.terminalState.map fun ts => ts.feed data
    lastActive := now }

def isAttached (s : Session) : Bool := decide (s.state = .attached)

/-- Less than two seconds since the session was last released to its owner. -/
def inCooldown (s : Session) (now : Nat) : Bool :=
  match s.batonReleaseAt with
  | none => false
  | some t => decide (now - t < 2 * second)

/-- The daemon-side snapshot, or the stored one where there is no parser. -/
def currentSnapshot (s : Session) : Option GridSnapshot :=
  match s.terminalState.bind TerminalState.captureSnapshot with
  | some snapshot => some snapshot
  | none => s.gridSnapshot

end Session

/-- `SessionManager`: the live sessions by id. -/
abbrev Sessions := Table Uuid Session

namespace Sessions

/-- All sessions, oldest first. -/
def list (m : Sessions) : List Session :=
  m.values.mergeSort fun s t => s.createdAt ≤ t.createdAt

def findByMasterFd (m : Sessions) (fd : RawFd) : Option Session :=
  m.values.find? fun s => s.masterFd = fd

def findByChildPid (m : Sessions) (pid : Pid) : Option Session :=
  m.values.find? fun s => s.childPid = pid

end Sessions

end PtyDaemon
