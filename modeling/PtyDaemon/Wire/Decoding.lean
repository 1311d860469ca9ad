import PtyDaemon.Wire.Framing

/-!
# Messages over the wire

The payload of a frame is the text of a message. The texts and their readers come from `serde_json`
and the derives: they are a parameter, and what a result needs of them it says. On one connection a
client sends requests and acknowledgements; the decode loop serves the requests and refuses the
acknowledgements, however the stream is cut.
-/

namespace PtyDaemon

/-- What the daemon makes a snapshot text of: `capture_snapshot` and `base64`. -/
structure Snapshots where
  capture : TerminalState → String
  base64 : List UInt8 → String

def Snapshots.gridText (S : Snapshots) : GridSnapshot → String
  | .given text => text
  | .captured state => S.capture state

def Snapshots.attachText (S : Snapshots) : AttachSnapshot → String
  | .grid snapshot => S.gridText snapshot
  | .ring bytes => S.base64 bytes

/-- The response as the client gets it: a snapshot is a text. -/
def Response.sent (S : Snapshots) : Response → Response
  | .attachReady sessionId cols rows childPid shmName gridSnapshot =>
    .attachReady sessionId cols rows childPid shmName
      (gridSnapshot.map fun snapshot => .grid (.given (S.attachText snapshot)))
  | r => r

/-- `to_vec` and `from_slice` at the messages. -/
structure Serde where
  snapshots : Snapshots
  request : Request → List UInt8
  pushAck : PushAck → List UInt8
  push : Push → List UInt8
  response : Response → List UInt8
  readRequest : List UInt8 → Except String Request
  readPushAck : List UInt8 → Except String PushAck
  readResponse : List UInt8 → Except String Response

namespace Serde

variable (T : Serde)

def codec (base64 : String → Except String (List UInt8)) : Codec where
  request := T.readRequest
  pushAck := T.readPushAck
  base64 := base64

/-- The request is read back from its text. -/
def ReadsBack (r : Request) : Prop := T.readRequest (T.request r) = .ok r

/-- The response is read back from its text. -/
def ReturnsBack (r : Response) : Prop :=
  T.readResponse (T.response r) = .ok (r.sent T.snapshots)

/-- The text of an acknowledgement has the type of no request. -/
def RefusesAck (a : PushAck) : Prop := ∃ e, T.readRequest (T.pushAck a) = .error e

/-- The text of a push has the type of no response. -/
def RefusesPush (p : Push) : Prop := ∃ e, T.readResponse (T.push p) = .error e

end Serde

variable {T : Serde}

/-! ## The stream of a client -/

/-- What a client sends to the daemon. -/
inductive ClientMessage
  | request (r : Request)
  | ack (a : PushAck)

namespace ClientMessage

def payload (T : Serde) : ClientMessage → List UInt8
  | .request r => T.request r
  | .ack a => T.pushAck a

/-- Its text is read for what it is. -/
def Understood (T : Serde) : ClientMessage → Prop
  | .request r => T.ReadsBack r
  | .ack a => T.RefusesAck a

/-- What the decode loop makes of it. -/
def Becomes : ClientMessage → Except String Request → Prop
  | .request r, result => result = .ok r
  | .ack _, result => ∃ e, result = .error e

private theorem Understood.becomes {m : ClientMessage} (h : m.Understood T) :
    m.Becomes (T.readRequest (m.payload T)) := by
  cases m with
  | request r => exact h
  | ack a => exact h

end ClientMessage

/-- The texts of a ping, of an acknowledgement and of the end, and what `serde_json` reads from
them. -/
def sampleTexts : Serde where
  snapshots := ⟨fun _ => "", fun _ => ""⟩
  request _ := "\x7b\"type\":\"Ping\"\x7d".toByteArray.data.toList
  pushAck _ :=
    ("\x7b\"type\":\"ResumeAck\",\"session_id\":\"" ++ Uuid.toText 0 ++ "\"\x7d").toByteArray.data.toList
  push _ := []
  response _ := "\x7b\"type\":\"ShuttingDown\"\x7d".toByteArray.data.toList
  readRequest bytes :=
    if bytes = "\x7b\"type\":\"Ping\"\x7d".toByteArray.data.toList then .ok .ping
    else .error "unknown variant"
  readPushAck _ := .ok (.resumeAck 0)
  readResponse bytes :=
    if bytes = "\x7b\"type\":\"ShuttingDown\"\x7d".toByteArray.data.toList then .ok .shuttingDown
    else .error "unknown variant"

namespace Server

/-- What is recorded as a response was the response to its frame. -/
theorem receive_answers {J : Codec} {fd : RawFd} {pieces : List (List UInt8 × List Env)}
    {σ σ' : Server} {log : List Exchange} (h : receive J fd pieces σ = .ok (σ', log)) :
    ∀ e ∈ log, ∃ env τ τ', respond J env τ fd e.result = .ok (τ', e.response) := by
  induction pieces generalizing σ log with
  | nil =>
    cases h
    intro e he
    cases he
  | cons piece pieces ih =>
    obtain ⟨⟨τ, log₁⟩, hpiece, h⟩ := ok_of_bind h
    obtain ⟨⟨ρ, log₂⟩, hpieces, hpair⟩ := ok_of_map h
    cases hpair
    intro e he
    rcases List.mem_append.mp he with he | he
    · unfold handleClientDataLog at hpiece
      split at hpiece
      · cases hpiece
        cases he
      · exact decodeLoopLog_answers hpiece e he
    · exact ih hpieces e he

/-- Requests and acknowledgements on one connection, cut into pieces in any way: each request is
decoded to itself, in order; each acknowledgement is answered with an error and leaves the server as
it is. -/
theorem mixed_stream (base64 : String → Except String (List UInt8)) {fd : RawFd}
    {messages : List ClientMessage} (hread : ∀ m ∈ messages, m.Understood T)
    (hshort : ∀ m ∈ messages, (m.payload T).length < 2 ^ 32)
    {pieces : List (List UInt8 × List Env)}
    (hbytes : (pieces.map Prod.fst).flatten =
      messages.flatMap fun m => encodeMessage (m.payload T))
    {σ σ' : Server} {client : ClientState} (hclient : σ.clients.lookup fd = some client)
    (hempty : client.readBuf = []) {log : List Exchange}
    (h : receive (T.codec base64) fd pieces σ = .ok (σ', log)) :
    List.Forall₂ ClientMessage.Becomes messages (log.map Exchange.result) ∧
      (∀ e ∈ log, ∀ text, e.result = .error text → e.response = .error ("parse error: " ++ text)) ∧
      (∀ a, .ack a ∈ messages → ∀ env τ, ∃ text,
        respond (T.codec base64) env τ fd
          ((T.codec base64).request ((ClientMessage.ack a).payload T)) =
        .ok (τ, .error ("parse error: " ++ text))) ∧
      (σ'.clients.lookup fd).map ClientState.readBuf = some [] := by
  obtain ⟨hframes, hleft⟩ := receive_spec hclient hempty h
  have hmap : messages.flatMap (fun m => encodeMessage (m.payload T)) =
      (messages.map (ClientMessage.payload T)).flatMap encodeMessage ++ [] := by
    simp [List.flatMap_map]
  have hpayloads : ∀ p ∈ messages.map (ClientMessage.payload T), p.length < 2 ^ 32 := by
    intro p hp
    obtain ⟨m, hm, rfl⟩ := List.mem_map.mp hp
    exact hshort m hm
  obtain ⟨hmessages, hrest⟩ := frames_encode hpayloads []
  have hnil : frames.messages [] = [] := rfl
  rw [hbytes, hmap, hmessages, hnil, List.append_nil] at hframes
  rw [hbytes, hmap, hrest] at hleft
  refine ⟨?_, ?_, ?_, hleft⟩
  · have hresults := congrArg (List.map Prod.fst) hframes
    simp only [List.map_map, Function.comp_def] at hresults
    rw [hresults, List.forall₂_map_right_iff]
    exact List.forall₂_same.mpr fun m hm => (hread m hm).becomes
  · intro e he text htext
    obtain ⟨env, τ, τ', hanswer⟩ := receive_answers h e he
    rw [htext] at hanswer
    exact (Prod.mk.inj (Except.ok.inj hanswer)).2.symm
  · intro a ha env τ
    obtain ⟨text, htext⟩ : T.RefusesAck a := hread (.ack a) ha
    have hrefused : (T.codec base64).request ((ClientMessage.ack a).payload T) = .error text :=
      htext
    exact ⟨text, by rw [hrefused]; rfl⟩

/-- A ping and a late acknowledgement. -/
private def pingAndAck : List ClientMessage := [.request .ping, .ack (.resumeAck 0)]

private def pingAndAckBytes : List UInt8 :=
  pingAndAck.flatMap fun m => encodeMessage (m.payload sampleTexts)

theorem mixed_stream_late_ack :
    ∃ σ' log, receive (sampleTexts.codec fun _ => .error "") 5
        [(pingAndAckBytes.take 3, []), (pingAndAckBytes.drop 3, [calm, calm])]
        ((new 3 none 0).acceptClient 5) = .ok (σ', log) ∧
      List.Forall₂ ClientMessage.Becomes pingAndAck (log.map Exchange.result) := by
  have hrun : (receive (sampleTexts.codec fun _ => .error "") 5
      [(pingAndAckBytes.take 3, []), (pingAndAckBytes.drop 3, [calm, calm])]
      ((new 3 none 0).acceptClient 5)).toOption.isSome = true := by decide +kernel
  obtain ⟨⟨σ', log⟩, hrun⟩ := Option.isSome_iff_exists.mp hrun
  have hrun := ok_of_toOption hrun
  have hread : ∀ m ∈ pingAndAck, m.Understood sampleTexts := by
    have hping : sampleTexts.ReadsBack .ping := by
      unfold Serde.ReadsBack
      decide +kernel
    have hack : sampleTexts.RefusesAck (.resumeAck 0) := by
      refine ⟨"unknown variant", ?_⟩
      decide +kernel
    simp only [pingAndAck, List.forall_mem_cons]
    exact ⟨hping, hack, List.forall_mem_nil _⟩
  have hshort : ∀ m ∈ pingAndAck, (m.payload sampleTexts).length < 2 ^ 32 := by
    decide +kernel
  have hclient : ((new 3 none 0).acceptClient 5).clients.lookup 5 = some ⟨0, []⟩ := by decide
  have hbytes : ([(pingAndAckBytes.take 3, ([] : List Env)), (pingAndAckBytes.drop 3,
      [calm, calm])].map Prod.fst).flatten = pingAndAckBytes := by simp
  exact ⟨σ', log, hrun, (mixed_stream (fun _ => .error "") hread hshort hbytes hclient rfl hrun).1⟩

end Server

end PtyDaemon
