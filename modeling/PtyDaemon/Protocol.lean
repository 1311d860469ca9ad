import Mathlib.Data.BitVec

/-!
# The control protocol

Requests, responses, pushes and acknowledgements, and the framing they share: four bytes of
big-endian length and a JSON payload. The JSON and base64 codecs belong to other crates; they are
the parameter `Codec`.
-/

namespace PtyDaemon

abbrev Uuid := BitVec 128

abbrev RawFd := Int

abbrev Pid := Int

private def hexDigit (n : Nat) : Char :=
  if n < 10 then Char.ofNat (48 + n) else Char.ofNat (87 + n)

/-- The 32 lower-case digits with hyphens after the eighth, twelfth, sixteenth and twentieth. -/
def Uuid.toText (u : Uuid) : String :=
  let digits := (List.range 32).map fun i => hexDigit (u.toNat / 16 ^ (31 - i) % 16)
  String.ofList (digits.take 8 ++ '-' :: (digits.drop 8).take 4 ++ '-' :: (digits.drop 12).take 4 ++
    '-' :: (digits.drop 16).take 4 ++ '-' :: digits.drop 20)

def protocolVersion : UInt16 := 1

inductive Request
  | create (shell : Option String) (cols rows : UInt16) (workingDir : Option String)
      (terminalId : Option UInt32) (envs : Option (List (String × String)))
  | attach (sessionId : Uuid)
  | detach (sessionId : Uuid) (cols rows : UInt16) (gridSnapshot : Option String)
  | list
  | kill (sessionId : Uuid)
  | winsizeUpdate (sessionId : Uuid) (cols rows : UInt16)
  | ping
  | shutdown
  | input (sessionId : Uuid) (data : String)
  deriving DecidableEq

/-- A call on the parser of `terminal_core`. -/
inductive ParserCall
  | advance (bytes : List UInt8)
  | resize (cols rows : UInt16)
  deriving DecidableEq

/-- The daemon-side parser: its initial size and the calls made on it since, oldest first. All it
knows is a function of these. -/
structure TerminalState where
  cols : UInt16
  rows : UInt16
  calls : List ParserCall
  deriving DecidableEq

/-- A base64 text: sent by a client or captured from a parser. -/
inductive GridSnapshot
  | given (text : String)
  | captured (state : TerminalState)
  deriving DecidableEq

/-- What `AttachReady` carries in its snapshot field; a WebSocket client gets the bytes of the
ring there. -/
inductive AttachSnapshot
  | grid (snapshot : GridSnapshot)
  | ring (bytes : List UInt8)
  deriving DecidableEq

inductive Push
  | forceDetach (sessionId : Uuid)
  | resumeAttach (sessionId : Uuid) (cols rows : UInt16) (childPid : Pid) (shmName : String)
      (gridSnapshot : Option GridSnapshot)
  deriving DecidableEq

inductive PushAck
  | detachAck (sessionId : Uuid) (gridSnapshot : Option String)
  | resumeAck (sessionId : Uuid)
  deriving DecidableEq

structure SessionInfo where
  id : Uuid
  state : String
  childPid : Pid
  cols : UInt16
  rows : UInt16
  ptsname : String
  childAlive : Bool
  ringBufferBytes : Nat
  createdSecsAgo : Nat
  lastActiveSecsAgo : Nat
  terminalId : Option UInt32
  deriving DecidableEq

inductive Response
  | created (sessionId : Uuid)
  | attachReady (sessionId : Uuid) (cols rows : UInt16) (childPid : Pid) (shmName : String)
      (gridSnapshot : Option AttachSnapshot)
  | attachDeny (sessionId : Uuid) (reason : String)
  | detached (sessionId : Uuid)
  | sessionList (sessions : List SessionInfo)
  | killed (sessionId : Uuid)
  | winsizeUpdated (sessionId : Uuid)
  | pong (version : UInt16) (sessionCount : Nat)
  | shuttingDown
  | inputAck (sessionId : Uuid)
  | error (message : String)
  deriving DecidableEq

/-- `serde_json` and `base64` as the daemon uses them on what it receives. -/
structure Codec where
  request : List UInt8 → Except String Request
  pushAck : List UInt8 → Except String PushAck
  base64 : String → Except String (List UInt8)

/-- The length is cut to 32 bits, as `as u32` does. -/
def encodeMessage (json : List UInt8) : List UInt8 :=
  let len := UInt32.ofNat json.length
  [(len >>> 24).toUInt8, (len >>> 16).toUInt8, (len >>> 8).toUInt8, len.toUInt8] ++ json

/-- The length the first four bytes announce. -/
def frameLength : List UInt8 → Option Nat
  | b0 :: b1 :: b2 :: b3 :: _ =>
    some (((b0.toNat * 256 + b1.toNat) * 256 + b2.toNat) * 256 + b3.toNat)
  | _ => none

/-- The first message of the buffer and the bytes it takes; `none`: not all of it is there. -/
def tryDecodeMessage {α : Type} (fromSlice : List UInt8 → Except String α) (buf : List UInt8) :
    Option (Except String α × Nat) :=
  match frameLength buf with
  | none => none
  | some len =>
    if buf.length < 4 + len then none
    else some (fromSlice ((buf.drop 4).take len), 4 + len)

end PtyDaemon
