import PtyDaemon.Wire.Requests

/-!
# The responses on a connection

A client that reads one response for each request it sends stays in step as long as the daemon
finds nothing but requests when it is not waiting. An acknowledgement that comes after its deadline,
or one that nobody waits for, is answered like a request that does not parse.
-/

namespace PtyDaemon

/-- The acknowledgements among the frames of a stream. -/
def acksOf (J : Codec) (bytes : List UInt8) : List PushAck :=
  (frames.messages bytes).filterMap fun p =>
    if (J.request p.1).toOption.isSome then none else (J.pushAck p.1).toOption

def PushAck.answers : PushAck → Push → Bool
  | .detachAck id _, .forceDetach id' => id = id'
  | .resumeAck id, .resumeAttach id' _ _ _ _ _ => id = id'
  | _, _ => false

/-- One after another, the acknowledgements answer pushes; the last pushes may be unanswered. -/
def acknowledge : List PushAck → List Push → Bool
  | [], _ => true
  | _ :: _, [] => false
  | ack :: acks, push :: pushes => ack.answers push && acknowledge acks pushes

namespace Wire

variable {J : Codec} {w w' : Wire} {l : Label} {c : Nat}

/-- Pushes sent to a connection, oldest first. -/
def pushesTo (w : Wire) (conn : Nat) : List Push :=
  (w.server.trace.filterMap fun
    | .sent conn' (.push push) => if conn' = conn then some push else none
    | _ => none).reverse

/-- The client of connection `c` has sent requests, and acknowledgements of pushes it had got. -/
def Conforms (J : Codec) (c : Nat) (w : Wire) : Prop :=
  (∀ p ∈ frames.messages (w.received c),
    (J.request p.1).toOption.isSome ∨ (J.pushAck p.1).toOption.isSome) ∧
  acknowledge (acksOf J (w.received c)) (w.pushesTo c) = true

instance (J : Codec) (c : Nat) (w : Wire) : Decidable (Conforms J c w) :=
  inferInstanceAs (Decidable (_ ∧ _))

/-- What is said of connection `c`: its responses are the answers to its requests, one for each and
in order. -/
structure Paired (J : Codec) (c : Nat) (w : Wire) : Prop where
  requests : (w.served c).map Exchange.result = (requestsOf J (w.received c)).map .ok
  answers : w.answersOn c = (w.served c).map Exchange.response
  responses : ∀ e ∈ w.served c, ∃ fd env τ τ',
    Server.respond J env τ fd e.result = .ok (τ', e.response)

/-- No wait on connection `c` reads a whole request, the decode loop finds only requests there, and
the responses can be written. -/
def InStep (J : Codec) (c : Nat) (w : Wire) : Label → Prop
  | .data fd bytes envs => ∀ client ∈ w.server.clients.lookup fd, client.stream = c →
      (∀ p ∈ frames.messages (client.readBuf ++ bytes), (J.request p.1).toOption.isSome = true) ∧
        ∀ env ∈ envs, env.responseWritten = true
  | l => SparesRequests J c w l

instance (J : Codec) (c : Nat) (w : Wire) : ∀ l, Decidable (InStep J c w l)
  | .daemon e => inferInstanceAs (Decidable (SparesRequests J c w (.daemon e)))
  | .data fd _ _ =>
    inferInstanceAs (Decidable (∀ client ∈ w.server.clients.lookup fd, _ → (_ ∧ _)))
  | .tick running idleSince =>
    inferInstanceAs (Decidable (SparesRequests J c w (.tick running idleSince)))

private theorem InStep.spares (h : InStep J c w l) : SparesRequests J c w l := by
  cases l with
  | data fd bytes envs => trivial
  | daemon e => exact h
  | tick running idleSince => exact h

/-- As `InStep`, but a wait may read requests behind the acknowledgement it takes. -/
def InTurn (J : Codec) (c : Nat) (w : Wire) : Label → Prop
  | .data fd bytes envs => InStep J c w (.data fd bytes envs)
  | l => TakesNoRequest J c w l

private theorem InTurn.takesNone (h : InTurn J c w l) : TakesNoRequest J c w l := by
  cases l with
  | data fd bytes envs => trivial
  | daemon e => exact h
  | tick running idleSince => exact h

private theorem InStep.inTurn (h : InStep J c w l) : InTurn J c w l := by
  cases l with
  | data fd bytes envs => exact h
  | daemon e => exact h.spares.takesNone
  | tick running idleSince => trivial

/-- The responses of connection `c` are the answers to its requests in order, up to those that are
still in the buffer. -/
structure PairedUpTo (J : Codec) (c : Nat) (buf : List UInt8) (w : Wire) : Prop where
  requests : (w.served c).map Exchange.result ++ (requestsOf J buf).map .ok =
    (requestsOf J (w.received c)).map .ok
  answers : w.answersOn c = (w.served c).map Exchange.response
  responses : ∀ e ∈ w.served c, ∃ fd env τ τ',
    Server.respond J env τ fd e.result = .ok (τ', e.response)

private theorem PairedUpTo.paired {buf : List UInt8} (h : PairedUpTo J c buf w)
    (hnone : requestsOf J buf = []) : Paired J c w := by
  have hrequests := h.requests
  rw [hnone, List.map_nil, List.append_nil] at hrequests
  exact ⟨hrequests, h.answers, h.responses⟩

/-- The part of `Paired` that a step keeps. -/
structure Answered (J : Codec) (c : Nat) (w : Wire) : Prop where
  results : (w.served c).map Exchange.result = (handled (w.served c)).map .ok
  answers : w.answersOn c = (w.served c).map Exchange.response
  responses : ∀ e ∈ w.served c, ∃ fd env τ τ',
    Server.respond J env τ fd e.result = .ok (τ', e.response)

private theorem results_ok {log : List Exchange} {ms : List (List UInt8 × Nat)}
    (hlog : log.map (fun e => (e.result, e.consumed)) = ms.map fun p => (J.request p.1, p.2))
    (h : ∀ p ∈ ms, (J.request p.1).toOption.isSome = true) :
    log.map Exchange.result = (handled log).map .ok := by
  induction ms generalizing log with
  | nil =>
    cases log with
    | nil => rfl
    | cons e log => simp at hlog
  | cons p ms ih =>
    cases log with
    | nil => simp at hlog
    | cons e log =>
      simp only [List.map_cons, List.cons.injEq, Prod.mk.injEq] at hlog
      have hp := h p List.mem_cons_self
      have htail := ih hlog.2 fun q hq => h q (List.mem_cons_of_mem p hq)
      rw [← hlog.1.1] at hp
      cases hresult : e.result with
      | error message => simp [hresult, Except.toOption] at hp
      | ok request =>
        have hcons : handled (e :: log) = request :: handled log := by
          simp [handled, hresult, Except.toOption]
        rw [List.map_cons, hcons, hresult, htail, List.map_cons]

private theorem Answered.step (hnumbered : Numbered w) (hinturn : InTurn J c w l)
    (h : ∀ {fd client}, w.server.clients.lookup fd = some client → client.stream = c →
      Answered J c w)
    (hstep : Wire.step J w l = some w') {fd : RawFd} {client : ClientState}
    (hclient : w'.server.clients.lookup fd = some client) (hc : client.stream = c) :
    Answered J c w' := by
  cases step_conn hnumbered hstep hclient with
  | accepted _ _ hserved hanswers =>
    subst hc
    constructor
    · rw [hserved]
      rfl
    · rw [hserved, hanswers]
      rfl
    · rw [hserved]
      simp
  | data hl hread hclient =>
    subst hl hclient
    obtain ⟨hrequests, hwrites⟩ := hinturn _ hread.opened hc
    obtain ⟨hresults, hanswers, hresponses⟩ := h hread.opened hc
    have hserved' := hread.served c
    have hanswers' := hread.answers c
    rw [if_pos hc] at hserved' hanswers'
    constructor
    · rw [hserved', handled_append, List.map_append, List.map_append, hresults,
        results_ok hread.decoded hrequests]
    · rw [hserved', hanswers', List.map_append, hanswers, hread.written hwrites]
    · rw [hserved']
      intro e he
      rcases List.mem_append.mp he with he | he
      · exact hresponses e he
      · exact ⟨_, hread.responses e he⟩
  | wait hl hwait hbefore hclient _ hserved hanswers =>
    subst hclient hc
    obtain ⟨hresults, hanswers', hresponses⟩ := h hbefore rfl
    constructor
    · rw [hserved, hresults]
    · rw [hserved]
      exact hanswers.trans hanswers'
    · rwa [hserved]
  | same hbefore _ hserved hanswers =>
    subst hc
    obtain ⟨hresults, hanswers', hresponses⟩ := h hbefore rfl
    constructor
    · rw [hserved, hresults]
    · rw [hserved, hanswers, hanswers']
    · rwa [hserved]

private theorem reach_pairedUpTo (h : (system J).Reach (InTurn J c) w) {fd : RawFd}
    {client : ClientState}
    (hclient : w.server.clients.lookup fd = some client) (hc : client.stream = c) :
    PairedUpTo J c client.readBuf w := by
  have hinv : ∀ {fd client}, w.server.clients.lookup fd = some client → client.stream = c →
      Answered J c w := by
    apply h.invariant_with (fun _ h => reachable_numbered h.reachable)
    · rintro _ ⟨listener, wakeup, now, rfl⟩ fd client hclient
      cases hclient
    · intro w l w' hnumbered hanswered hinturn hstep fd client hclient hc
      exact Answered.step hnumbered hinturn hanswered hstep hclient hc
  have hframed := reach_framed (h.mono fun _ _ => InTurn.takesNone) hclient hc
  obtain ⟨hresults, hanswers, hresponses⟩ := hinv hclient hc
  refine ⟨?_, hanswers, hresponses⟩
  rw [hresults, ← List.map_append, hframed.requests]

/-- In a run in which the daemon finds only requests on a connection when it is not waiting, and
takes none for an acknowledgement, the k-th response on it is the answer to the k-th request; if no
wait reads a whole request, every request read has its response. -/
theorem responses_paired {fd : RawFd} {client : ClientState}
    (hclient : w.server.clients.lookup fd = some client) (hc : client.stream = c) :
    ((system J).Reach (InTurn J c) w → PairedUpTo J c client.readBuf w) ∧
    ((system J).Reach (InStep J c) w → Paired J c w) := by
  refine ⟨fun h => reach_pairedUpTo h hclient hc, fun h => ?_⟩
  have hpaired := reach_pairedUpTo (h.mono fun _ _ => InStep.inTurn) hclient hc
  exact hpaired.paired (reach_noneLeft (h.mono fun _ _ => InStep.spares) hclient hc)

/-- A client creates session 7 and attaches it; a WebSocket client attaches the session, and the
wait for the acknowledgement reads `reads`. -/
private def ackedTakeover (reads : List AckRead) : List Label :=
  [.daemon (.accept 5),
    .data 5 (encodeMessage [0] ++ encodeMessage [1]) [Server.calm, Server.calmLater],
    .daemon (.command .new (.request 1 (.attach 7) 1) { Server.calmLater with ackReads := reads })]

/-- The acknowledgement comes in time, and a request after it. -/
theorem responses_paired_acknowledged :
    ∃ w, (system Server.acking).Reach (InStep Server.acking 0) w ∧
      (w.answersOn 0).length = 3 ∧ Paired Server.acking 0 w := by
  have hrun : ((system Server.acking).execWhere (InStep Server.acking 0) (new 3 none 0)
      (ackedTakeover [.data (encodeMessage [3])] ++
        [.data 5 (encodeMessage [2]) [Server.calmLater]])).map
      (fun w => (w.server.clients.lookup 5, (w.answersOn 0).length)) =
      some (some ⟨0, []⟩, 3) := by decide +kernel
  obtain ⟨w, hexec, hpair⟩ := Option.map_eq_some_iff.mp hrun
  obtain ⟨hclient, hlength⟩ := Prod.mk.inj hpair
  have hreach : (system Server.acking).Reach (InStep Server.acking 0) w :=
    (Transition.System.Reach.start (init_new _ 3 none 0)).execWhere hexec
  exact ⟨w, hreach, hlength, (responses_paired hclient rfl).2 hreach⟩

/-- An acknowledgement after the deadline is answered. -/
theorem late_ack_answered :
    ¬ ∀ (J : Codec) (c : Nat) (w : Wire),
      (system J).Reach (fun w l => ∀ w' ∈ step J w l, Conforms J c w') w →
      ∀ fd client, w.server.clients.lookup fd = some client → client.stream = c →
        Paired J c w := by
  intro h
  have hrun : ((system Server.acking).execWhere
      (fun w l => ∀ w' ∈ step Server.acking w l, Conforms Server.acking 0 w') (new 3 none 0)
      (ackedTakeover [] ++ [.data 5 (encodeMessage [3]) [Server.calmLater]])).map
      (fun w => (w.server.clients.lookup 5, (w.served 0).length,
        (requestsOf Server.acking (w.received 0)).length)) =
      some (some ⟨0, []⟩, 3, 2) := by decide +kernel
  obtain ⟨w, hexec, hall⟩ := Option.map_eq_some_iff.mp hrun
  simp only [Prod.mk.injEq] at hall
  obtain ⟨hclient, hserved, hrequests⟩ := hall
  have hreach := (Transition.System.Reach.start (init_new _ 3 none 0)).execWhere hexec
  have hpaired := congrArg List.length (h Server.acking 0 w hreach 5 ⟨0, []⟩ hclient rfl).requests
  rw [List.length_map, List.length_map, hserved, hrequests] at hpaired
  cases hpaired

end Wire

end PtyDaemon
