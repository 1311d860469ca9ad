import PtyDaemon.Wire.World

/-!
# The requests of a connection

Every request the daemon reads from a connection is handled once and in order, as long as no wait
for an acknowledgement reads a whole request. A request that ends such a wait is lost, and one
behind the acknowledgement stays in the buffer.
-/

namespace PtyDaemon

/-- The requests among the frames. -/
def requestsIn (J : Codec) (ms : List (List UInt8 × Nat)) : List Request :=
  ms.filterMap fun p => (J.request p.1).toOption

/-- The complete requests of a stream. -/
def requestsOf (J : Codec) (bytes : List UInt8) : List Request :=
  requestsIn J (frames.messages bytes)

/-- The requests that went to `handle_request`. -/
def handled (log : List Exchange) : List Request := log.filterMap fun e => e.result.toOption

variable {J : Codec}

@[simp] theorem requestsIn_append (ms ms' : List (List UInt8 × Nat)) :
    requestsIn J (ms ++ ms') = requestsIn J ms ++ requestsIn J ms' := List.filterMap_append

@[simp] theorem handled_append (log log' : List Exchange) :
    handled (log ++ log') = handled log ++ handled log' := List.filterMap_append

/-- What is left when no frame is complete holds no request. -/
theorem requestsOf_rest (bytes : List UInt8) : requestsOf J (frames.rest bytes) = [] := by
  rw [requestsOf, (frames_stuck (nextFrame_rest bytes)).1]
  rfl

theorem handled_eq {log : List Exchange} {ms : List (List UInt8 × Nat)}
    (h : log.map (fun e => (e.result, e.consumed)) = ms.map fun p => (J.request p.1, p.2)) :
    handled log = requestsIn J ms := by
  have hfst := congrArg (List.filterMap fun p => p.1.toOption) h
  simp only [List.filterMap_map] at hfst
  exact hfst

namespace Wire

variable {w w' : Wire} {l : Label} {c : Nat}

/-- No wait on connection `c` reads a whole request. -/
def SparesRequests (J : Codec) (c : Nat) (w : Wire) : Label → Prop
  | .daemon e => ∀ fd ∈ w.server.waits e, ∀ client ∈ w.server.clients.lookup fd,
      client.stream = c →
        requestsOf J (client.readBuf ++ (waited e.ackReads client.readBuf).bytes) = []
  | _ => True

instance (J : Codec) (c : Nat) (w : Wire) : ∀ l, Decidable (SparesRequests J c w l)
  | .daemon e => inferInstanceAs (Decidable (∀ fd ∈ w.server.waits e, ∀ client ∈ _, _))
  | .data _ _ _ => inferInstanceAs (Decidable True)
  | .tick _ _ => inferInstanceAs (Decidable True)

/-- No wait on connection `c` takes a request for the acknowledgement it waits for. -/
def TakesNoRequest (J : Codec) (c : Nat) (w : Wire) : Label → Prop
  | .daemon e => ∀ fd ∈ w.server.waits e, ∀ client ∈ w.server.clients.lookup fd,
      client.stream = c → requestsIn J (waited e.ackReads client.readBuf).frame.toList = []
  | _ => True

instance (J : Codec) (c : Nat) (w : Wire) : ∀ l, Decidable (TakesNoRequest J c w l)
  | .daemon e => inferInstanceAs (Decidable (∀ fd ∈ w.server.waits e, ∀ client ∈ _, _))
  | .data _ _ _ => inferInstanceAs (Decidable True)
  | .tick _ _ => inferInstanceAs (Decidable True)

/-- The requests of the frame a wait takes and of what it leaves are those of what it had. -/
theorem requestsOf_waited (reads : List AckRead) (buf : List UInt8) :
    requestsOf J (buf ++ (waited reads buf).bytes) =
      requestsIn J (waited reads buf).frame.toList ++
        requestsOf J ((waited reads buf).left buf) := by
  cases hframe : (waited reads buf).frame with
  | none =>
    rw [Waited.left, hframe]
    rfl
  | some p =>
    rw [Waited.left, hframe, requestsOf, (frames_more (waited_frame hframe)).1,
      ← List.singleton_append, requestsIn_append]
    rfl

theorem SparesRequests.takesNone (h : SparesRequests J c w l) : TakesNoRequest J c w l := by
  cases l with
  | daemon e =>
    intro fd hfd client hclient hc
    have hnone := h fd hfd client hclient hc
    rw [requestsOf_waited, List.append_eq_nil_iff] at hnone
    exact hnone.1
  | _ => trivial

/-- What has been read from connection `c` are the frames served and taken by waits, and what is in
the buffer; the requests are among those served. -/
def Framed (J : Codec) (w : Wire) (c : Nat) (buf : List UInt8) : Prop :=
  ∃ ms, frames.Splits (w.received c) ms buf ∧ requestsIn J ms = handled (w.served c)

theorem Framed.requests {buf : List UInt8} (h : Framed J w c buf) :
    handled (w.served c) ++ requestsOf J buf = requestsOf J (w.received c) := by
  obtain ⟨ms, hsplits, hms⟩ := h
  rw [← hms, requestsOf, requestsOf, hsplits.messages_eq, requestsIn_append]

private theorem Framed.data {buf bytes : List UInt8} {log : List Exchange} (h : Framed J w c buf)
    (hframes : log.map (fun e => (e.result, e.consumed)) =
      (frames.messages (buf ++ bytes)).map fun p => (J.request p.1, p.2))
    (hreceived : w'.received c = w.received c ++ bytes)
    (hserved : w'.served c = w.served c ++ log) : Framed J w' c (frames.rest (buf ++ bytes)) := by
  obtain ⟨ms, hsplits, hms⟩ := h
  refine ⟨ms ++ frames.messages (buf ++ bytes), ?_, ?_⟩
  · rw [hreceived]
    exact (hsplits.append bytes).rest
  · rw [hserved, requestsIn_append, handled_append, hms, handled_eq hframes]

private theorem Framed.wait {buf : List UInt8} {reads : List AckRead} (h : Framed J w c buf)
    (hnone : requestsIn J (waited reads buf).frame.toList = [])
    (hreceived : w'.received c = w.received c ++ (waited reads buf).bytes)
    (hserved : w'.served c = w.served c) : Framed J w' c ((waited reads buf).left buf) := by
  obtain ⟨ms, hsplits, hms⟩ := h
  have hsplits := hsplits.append (waited reads buf).bytes
  cases hframe : (waited reads buf).frame with
  | none =>
    refine ⟨ms, ?_, by rw [hms, hserved]⟩
    rw [hreceived, Waited.left, hframe]
    exact hsplits
  | some p =>
    -- the frame taken is none of the requests
    rw [hframe, Option.toList_some] at hnone
    refine ⟨ms ++ [p], ?_, ?_⟩
    · rw [hreceived, Waited.left, hframe]
      exact hsplits.drop (waited_frame hframe)
    · rw [requestsIn_append, hnone, List.append_nil, hms, hserved]

private theorem Framed.same {buf : List UInt8} (h : Framed J w c buf)
    (hreceived : w'.received c = w.received c) (hserved : w'.served c = w.served c) :
    Framed J w' c buf := by
  rw [Framed, hreceived, hserved]
  exact h

private theorem Framed.step (hnumbered : Numbered w) (htakes : TakesNoRequest J c w l)
    (h : ∀ {fd client}, w.server.clients.lookup fd = some client → client.stream = c →
      Framed J w c client.readBuf)
    (hstep : step J w l = some w') {fd : RawFd} {client : ClientState}
    (hclient : w'.server.clients.lookup fd = some client) (hc : client.stream = c) :
    Framed J w' c client.readBuf := by
  cases step_conn hnumbered hstep hclient with
  | accepted hbuf hreceived hserved _ =>
    rw [hbuf]
    refine ⟨[], ?_, ?_⟩
    · rw [← hc, hreceived]
      exact .refl []
    · rw [← hc, hserved]
      rfl
  | data hl hread hclient =>
    subst hclient
    have hreceived := hread.received c
    have hserved := hread.served c
    rw [if_pos hc] at hreceived hserved
    exact (h hread.opened hc).data hread.decoded hreceived hserved
  | wait hl hwait hbefore hclient hreceived hserved _ =>
    subst hl hclient hc
    exact (h hbefore rfl).wait (htakes fd hwait _ hbefore rfl) hreceived hserved
  | same hbefore hreceived hserved _ =>
    subst hc
    exact (h hbefore rfl).same hreceived hserved

theorem reach_framed (h : (system J).Reach (TakesNoRequest J c) w) {fd : RawFd}
    {client : ClientState} (hclient : w.server.clients.lookup fd = some client)
    (hc : client.stream = c) : Framed J w c client.readBuf := by
  have hinv : ∀ {fd client}, w.server.clients.lookup fd = some client → client.stream = c →
      Framed J w c client.readBuf := by
    apply h.invariant_with (fun _ h => reachable_numbered h.reachable)
    · rintro _ ⟨listener, wakeup, now, rfl⟩ fd client hclient
      cases hclient
    · intro w l w' hnumbered hframed htakes hstep fd client hclient hc
      exact Framed.step hnumbered htakes hframed hstep hclient hc
  exact hinv hclient hc

/-- No request is left in the buffer of a client from whom no wait has read one. -/
theorem reach_noneLeft (h : (system J).Reach (SparesRequests J c) w) {fd : RawFd}
    {client : ClientState} (hclient : w.server.clients.lookup fd = some client)
    (hc : client.stream = c) : requestsOf J client.readBuf = [] := by
  have hinv : ∀ {fd client}, w.server.clients.lookup fd = some client → client.stream = c →
      requestsOf J client.readBuf = [] := by
    apply h.invariant_with (fun _ h => reachable_numbered h.reachable)
    · rintro _ ⟨listener, wakeup, now, rfl⟩ fd client hclient
      cases hclient
    · intro w l w' hnumbered hnone hspares hstep fd client hclient hc
      cases step_conn hnumbered hstep hclient with
      | accepted hbuf _ _ _ =>
        rw [hbuf]
        rfl
      | data hl hread hclient =>
        subst hclient
        exact requestsOf_rest _
      | wait hl hwait hbefore hclient _ _ _ =>
        subst hl hclient hc
        have hspared := hspares fd hwait _ hbefore rfl
        rw [requestsOf_waited, List.append_eq_nil_iff] at hspared
        exact hspared.2
      | same hbefore _ _ _ => exact hnone hbefore hc
  exact hinv hclient hc

/-- In a run in which no wait takes a request of a connection for its acknowledgement, the requests
read from the connection have been handled, once and in order, up to those still in the buffer; and
none is there if no wait reads a whole request. -/
theorem requests_handled {fd : RawFd} {client : ClientState}
    (hclient : w.server.clients.lookup fd = some client) (hc : client.stream = c) :
    ((system J).Reach (TakesNoRequest J c) w →
      handled (w.served c) ++ requestsOf J client.readBuf = requestsOf J (w.received c)) ∧
    ((system J).Reach (SparesRequests J c) w →
      handled (w.served c) = requestsOf J (w.received c)) := by
  refine ⟨fun h => (reach_framed h hclient hc).requests, fun h => ?_⟩
  have htakes := h.mono fun _ _ => SparesRequests.takesNone
  rw [← (reach_framed htakes hclient hc).requests, reach_noneLeft h hclient hc, List.append_nil]

/-- A client creates session 7 and attaches it; a WebSocket client attaches the session, and the
wait for the acknowledgement reads `bytes`. -/
private def takeoverRun (bytes : List UInt8) : List Label :=
  [.daemon (.accept 5),
    .data 5 (encodeMessage [0] ++ encodeMessage [1]) [Server.calm, Server.calmLater],
    .daemon (.command .new (.request 1 (.attach 7) 1)
      { Server.calmLater with ackReads := [.data bytes] })]

/-- The wait reads the acknowledgement and the beginning of a request; or a whole request, which stays
in the buffer. -/
theorem requests_handled_acknowledged :
    (∃ w, (system Server.acking).Reach (SparesRequests Server.acking 0) w ∧
      w.server.clients.lookup 5 = some ⟨0, [0, 0, 0]⟩ ∧
      handled (w.served 0) = requestsOf Server.acking (w.received 0) ∧
      handled (w.served 0) ≠ []) ∧
    ∃ w, (system Server.acking).Reach (TakesNoRequest Server.acking 0) w ∧
      handled (w.served 0) ++ [.list] = requestsOf Server.acking (w.received 0) := by
  have hstart : ∀ guard, (system Server.acking).Reach guard (new 3 none 0) := fun _ =>
    .start (init_new _ 3 none 0)
  constructor
  · have hrun : ((system Server.acking).execWhere (SparesRequests Server.acking 0) (new 3 none 0)
        (takeoverRun (encodeMessage [3] ++ [0, 0, 0]))).map
        (fun w => (w.server.clients.lookup 5, decide (handled (w.served 0) ≠ []))) =
        some (some ⟨0, [0, 0, 0]⟩, true) := by decide +kernel
    obtain ⟨w, hexec, hpair⟩ := Option.map_eq_some_iff.mp hrun
    obtain ⟨hclient, hsome⟩ := Prod.mk.inj hpair
    have hreach := (hstart _).execWhere hexec
    exact ⟨w, hreach, hclient, (requests_handled hclient rfl).2 hreach, of_decide_eq_true hsome⟩
  · have hrun : ((system Server.acking).execWhere (TakesNoRequest Server.acking 0) (new 3 none 0)
        (takeoverRun (encodeMessage [3] ++ encodeMessage [2]))).map
        (fun w => w.server.clients.lookup 5) = some (some ⟨0, encodeMessage [2]⟩) := by
      decide +kernel
    obtain ⟨w, hexec, hclient⟩ := Option.map_eq_some_iff.mp hrun
    have hreach := (hstart _).execWhere hexec
    exact ⟨w, hreach, (requests_handled hclient rfl).1 hreach⟩

/-- The wait takes a request for the acknowledgement it waits for. -/
theorem request_swallowed :
    ¬ ∀ (J : Codec) (w : Wire), (system J).Reachable w →
      ∀ fd client, w.server.clients.lookup fd = some client →
        handled (w.served client.stream) = requestsOf J (w.received client.stream) := by
  intro h
  have hrun : ((system Server.acking).exec (new 3 none 0) (takeoverRun (encodeMessage [2]))).map
      (fun w => (w.server.clients.lookup 5, handled (w.served 0),
        requestsOf Server.acking (w.received 0))) =
      some (some ⟨0, []⟩, [.create none 80 24 none none none, .attach 7],
        [.create none 80 24 none none none, .attach 7, .list]) := by decide +kernel
  obtain ⟨w, hexec, hall⟩ := Option.map_eq_some_iff.mp hrun
  simp only [Prod.mk.injEq] at hall
  obtain ⟨hclient, hhandled, hrequests⟩ := hall
  have hstart : (system Server.acking).Reachable (new 3 none 0) := .start (init_new _ 3 none 0)
  have hsame := h Server.acking w (hstart.exec hexec) 5 ⟨0, []⟩ hclient
  have hsame : handled (w.served 0) = requestsOf Server.acking (w.received 0) := hsame
  rw [hhandled, hrequests] at hsame
  cases hsame

end Wire

end PtyDaemon
