import PtyDaemon.Clients.Replies
import PtyDaemon.Framework.Ancillary
import PtyDaemon.Server.HandedOver

/-!
# How a descriptor arrives

A descriptor comes along with a byte of its own, behind the frame that announces the session.
`send_request` reads the frame and whatever else a read returns, `recv_fd` takes the next byte. So
the client gets the descriptor just when no read has run on into its byte.
-/

namespace PtyDaemon

open Ancillary

/-- What comes along with a byte on a socket. -/
inductive Control (γ : Type)
  /-- `SCM_RIGHTS` -/
  | rights (object : γ)
  | other
  deriving DecidableEq

section Socket

variable {γ : Type}

/-- What `send_fd` puts on the socket: one byte is the least there may be. -/
def sendFd (object : γ) : List (UInt8 × Option (Control γ)) := [(0, some (.rights object))]

/-- `recv_fd`, with an error of the call and whether the other end is closed; `none`: it waits. -/
def recvFd (failed : Option String) (closed : Bool) (stream : List (UInt8 × Option (Control γ))) :
    Option (Except String γ × List (UInt8 × Option (Control γ))) :=
  match failed, stream with
  | some e, _ => some (.error e, stream)
  | none, [] => if closed then some (.error "peer closed", []) else none
  | none, (_, none) :: rest => some (.error "no ancillary data", rest)
  | none, (_, some .other) :: rest => some (.error "unexpected cmsg type", rest)
  | none, (_, some (.rights object)) :: rest => some (.ok object, rest)

/-- What is received stood at the front. -/
theorem stream_of_recvFd {failed : Option String} {closed : Bool} {object : γ}
    {stream rest : List (UInt8 × Option (Control γ))}
    (h : recvFd failed closed stream = some (.ok object, rest)) :
    ∃ b, stream = (b, some (.rights object)) :: rest := by
  unfold recvFd at h
  split at h
  · cases h
  · split at h <;> cases h
  · cases h
  · cases h
  · cases h
    exact ⟨_, rfl⟩

end Socket

/-- What a frame is on the socket. A descriptor is named by its session. -/
def Frame.onWire (T : Serde) : Frame → List (UInt8 × Option (Control Uuid))
  | .response r => plain (encodeMessage (T.response r))
  | .push p => plain (encodeMessage (T.push p))
  | .fd id => sendFd id

/-- The socket from some frame on. -/
def onWire (T : Serde) (frames : List Frame) : List (UInt8 × Option (Control Uuid)) :=
  frames.flatMap (Frame.onWire T)

section Reading

variable {T : Serde} {γ : Type} {pieces : List (List (UInt8 × Option γ))}

/-- The response at the front is read, with a read that begins before its end. -/
theorem readResponse_front {r : Response} (hreturns : T.ReturnsBack r)
    (hshort : (T.response r).length < 2 ^ 32)
    (hpieces : ∀ piece ∈ pieces, piece ≠ []) {rest stream : List (UInt8 × Option γ)}
    (hstream : pieces.flatten ++ rest =
      plain (encodeMessage (T.response r)) ++ stream)
    (hcomplete : (encodeMessage (T.response r)).length ≤
      pieces.flatten.length) :
    ∃ used last unread, pieces = used ++ last :: unread ∧
      used.flatten.length < (encodeMessage (T.response r)).length ∧
      (encodeMessage (T.response r)).length ≤
        (used.flatten ++ last).length ∧
      readResponse T [] (pieces.map fun piece => .ok (bytesOf piece)) =
        some (.ok (r.sent T.snapshots), unread.map fun piece => .ok (bytesOf piece)) := by
  obtain ⟨more, hmore⟩ := front_prefix hstream hcomplete
  have hflat : (pieces.map bytesOf).flatten =
      encodeMessage (T.response r) ++ more := by
    rw [← bytesOf_flatten, ← hmore]
  have hnonempty : ∀ bytes ∈ pieces.map bytesOf, bytes ≠ [] := by
    intro bytes hmem hnil
    obtain ⟨piece, hpiece, rfl⟩ := List.mem_map.mp hmem
    exact hpieces piece hpiece (List.map_eq_nil_iff.mp hnil)
  have hnil : nextFrame [] = none := rfl
  obtain ⟨used', last', unread', hsplit, hnone, hwhole, hread⟩ := readResponse_pieces T
    hnonempty hnil (hflat ▸ nextFrame_encode hshort more) []
  obtain ⟨used, later, rfl, rfl, hlater⟩ := List.map_eq_append_iff.mp hsplit
  obtain ⟨last, unread, rfl, rfl, rfl⟩ := List.map_eq_cons_iff.mp hlater
  rw [List.nil_append, ← bytesOf_flatten] at hnone hwhole
  refine ⟨used, last, unread, rfl, ?_, ?_, ?_⟩
  · have hparts : bytesOf used.flatten ++ bytesOf (last :: unread).flatten =
        encodeMessage (T.response r) ++ more := by
      rw [← bytesOf_append, ← List.flatten_append, hmore]
    have hpart := length_of_nextFrame_none hshort hparts hnone
    rwa [length_bytesOf] at hpart
  · have hbound := frames.bound hwhole
    rwa [← bytesOf_append, length_bytesOf, ← encodeMessage_length] at hbound
  · rw [hreturns, List.append_nil, List.append_nil, List.map_map, List.map_map] at hread
    exact hread

end Reading

namespace Server

variable {J : Codec} {σ : Server}

private def granting : Response := .attachReady 7 80 24 100 (shmNameForSession 7) none

/-- The text of that response. -/
private def grantingText : List UInt8 :=
  ("\x7b\"type\":\"AttachReady\",\"session_id\":\"" ++ Uuid.toText 7 ++
    "\",\"cols\":80,\"rows\":24,\"child_pid\":100,\"shm_name\":\"" ++ shmNameForSession 7 ++
    "\"\x7d").toByteArray.data.toList

private def grantingTexts : Serde where
  snapshots := sampleTexts.snapshots
  request := sampleTexts.request
  pushAck := sampleTexts.pushAck
  push := sampleTexts.push
  response _ := grantingText
  readRequest := sampleTexts.readRequest
  readPushAck := sampleTexts.readPushAck
  readResponse bytes := if bytes = grantingText then .ok granting else .error "unknown variant"

private def grantingFrame : List UInt8 := encodeMessage grantingText

end Server

end PtyDaemon
