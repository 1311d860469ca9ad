import PtyDaemon.Framework.Table
import PtyDaemon.Protocol

/-!
# State shared with the WebSocket server

The locked table of subscribers. A subscriber's unbounded channel is named by a number; the
events sent to all channels are kept in the order of sending.
-/

namespace PtyDaemon

inductive WsEvent
  | ptyOutput (data : List UInt8)
  | sessionEnded
  deriving DecidableEq

structure WsSubscriber where
  tx : Nat
  clientId : Nat
  deriving DecidableEq

structure WsSharedState where
  subscribers : Table Uuid (List WsSubscriber)
  nextClientId : Nat
  clientSessions : Table Nat Uuid
  /-- channels made so far -/
  channels : Nat
  /-- events sent, oldest first, each with its channel -/
  events : List (Nat × WsEvent)

namespace WsSharedState

def new : WsSharedState where
  subscribers := ∅
  nextClientId := 1
  clientSessions := ∅
  channels := 0
  events := []

def takeClientId (w : WsSharedState) : Nat × WsSharedState :=
  (w.nextClientId, { w with nextClientId := w.nextClientId + 1 })

def subscribersOf (w : WsSharedState) (sessionId : Uuid) : List WsSubscriber :=
  (w.subscribers.lookup sessionId).getD []

/-- Returns the receiving end of the new channel. -/
def subscribe (w : WsSharedState) (sessionId : Uuid) (clientId : Nat) : Nat × WsSharedState :=
  (w.channels,
    { w with
      subscribers := w.subscribers.insert sessionId
        (w.subscribersOf sessionId ++ [⟨w.channels, clientId⟩])
      clientSessions := w.clientSessions.insert clientId sessionId
      channels := w.channels + 1 })

def unsubscribe (w : WsSharedState) (sessionId : Uuid) (clientId : Nat) : WsSharedState :=
  let subscribers :=
    match w.subscribers.lookup sessionId with
    | none => w.subscribers
    | some subs =>
      let subs := subs.filter fun s => s.clientId ≠ clientId
      if subs.isEmpty then w.subscribers.erase sessionId else w.subscribers.insert sessionId subs
  { w with
    subscribers := subscribers
    clientSessions := w.clientSessions.erase clientId }

def broadcast (w : WsSharedState) (sessionId : Uuid) (data : List UInt8) : WsSharedState :=
  { w with
    events := w.events ++ (w.subscribersOf sessionId).map fun s => (s.tx, .ptyOutput data) }

def notifySessionEnded (w : WsSharedState) (sessionId : Uuid) : WsSharedState :=
  let subs := w.subscribersOf sessionId
  { w with
    subscribers := w.subscribers.erase sessionId
    clientSessions := subs.foldl (fun m s => m.erase s.clientId) w.clientSessions
    events := w.events ++ subs.map fun s => (s.tx, .sessionEnded) }

end WsSharedState

/-- A message from a connection task to the daemon; `reply` names the oneshot channel. -/
inductive WsCommand
  | request (clientId : Nat) (request : Request) (reply : Nat)
  | disconnected (clientId : Nat)
  | input (sessionId : Uuid) (data : List UInt8)
  deriving DecidableEq

end PtyDaemon
