import PtyDaemon.Server.Ownership
import PtyDaemon.Wire.DecodeLoop

/-!
# Waiting for the acknowledgement

While it waits for the acknowledgement of a `ForceDetach`, the daemon reads from the connection of
the owner until one frame is complete, and that frame ends the wait whatever it is. The snapshot
arrives if the frame is the acknowledgement.
-/

namespace PtyDaemon

/-- What a wait has read, and the frame that ended it. -/
structure Waited where
  bytes : List UInt8
  frame : Option (List UInt8 × Nat)

/-- The wait on a buffer. -/
def waited : List AckRead → List UInt8 → Waited
  | .data bytes :: reads, buf =>
    match nextFrame (buf ++ bytes) with
    | none =>
      let later := waited reads (buf ++ bytes)
      ⟨bytes ++ later.bytes, later.frame⟩
    | some p => ⟨bytes, some p⟩
  | _, _ => ⟨[], none⟩

/-- The buffer after the wait. -/
def Waited.left (w : Waited) (buf : List UInt8) : List UInt8 :=
  match w.frame with
  | none => buf ++ w.bytes
  | some p => (buf ++ w.bytes).drop p.2

/-- The snapshot a frame carries as the acknowledgement of a detach. -/
def carried (J : Codec) (id : Uuid) (payload : List UInt8) : Option String :=
  match J.pushAck payload with
  | .ok (.detachAck ackSid gridSnapshot) => if ackSid = id then gridSnapshot else none
  | _ => none

private theorem waited_none {bytes buf : List UInt8} (h : nextFrame (buf ++ bytes) = none)
    (reads : List AckRead) :
    waited (.data bytes :: reads) buf =
      ⟨bytes ++ (waited reads (buf ++ bytes)).bytes, (waited reads (buf ++ bytes)).frame⟩ := by
  simp only [waited, h]

private theorem waited_some {bytes buf : List UInt8} {p : List UInt8 × Nat}
    (h : nextFrame (buf ++ bytes) = some p) (reads : List AckRead) :
    waited (.data bytes :: reads) buf = ⟨bytes, some p⟩ := by
  simp only [waited, h]

/-- The frame that ends a wait is the first of the buffer and what was read. -/
theorem waited_frame {reads : List AckRead} {buf : List UInt8} {p : List UInt8 × Nat}
    (h : (waited reads buf).frame = some p) :
    nextFrame (buf ++ (waited reads buf).bytes) = some p := by
  induction reads generalizing buf with
  | nil => cases h
  | cons read reads ih =>
    cases read with
    | data bytes =>
      cases hframe : nextFrame (buf ++ bytes) with
      | none =>
        rw [waited_none hframe] at h ⊢
        simpa only [List.append_assoc] using ih h
      | some q =>
        rw [waited_some hframe] at h ⊢
        cases h
        exact hframe
    | closed => cases h
    | failed => cases h

/-- A wait that no frame ended has read nothing or left no frame. -/
theorem waited_unended {reads : List AckRead} {buf : List UInt8}
    (h : (waited reads buf).frame = none) :
    (waited reads buf).bytes = [] ∨ nextFrame (buf ++ (waited reads buf).bytes) = none := by
  induction reads generalizing buf with
  | nil => exact .inl rfl
  | cons read reads ih =>
    cases read with
    | data bytes =>
      cases hframe : nextFrame (buf ++ bytes) with
      | none =>
        rw [waited_none hframe] at h ⊢
        right
        rcases ih h with hnothing | hnone
        · simpa only [hnothing, List.append_nil] using hframe
        · simpa only [List.append_assoc] using hnone
      | some q =>
        rw [waited_some hframe] at h
        cases h
    | closed => exact .inl rfl
    | failed => exact .inl rfl

/-- When all that is sent arrives, the first frame ends the wait. -/
theorem waited_first {chunks : List (List UInt8)} {buf : List UInt8} {p : List UInt8 × Nat}
    (hsome : chunks ≠ []) (h : nextFrame (buf ++ chunks.flatten) = some p) :
    (waited (chunks.map .data) buf).frame = some p := by
  induction chunks generalizing buf with
  | nil => exact absurd rfl hsome
  | cons bytes chunks ih =>
    rw [List.map_cons]
    rw [List.flatten_cons, ← List.append_assoc] at h
    cases hframe : nextFrame (buf ++ bytes) with
    | none =>
      rw [waited_none hframe]
      apply ih _ h
      rintro rfl
      rw [List.flatten_nil, List.append_nil, hframe] at h
      cases h
    | some q =>
      rw [waited_some hframe]
      exact (frames.stable chunks.flatten hframe).symm.trans h

namespace Server

variable {J : Codec} {env : Env} {σ : Server} {fd : RawFd} {client : ClientState} {id : Uuid}

private theorem lookup_same (hclient : σ.clients.lookup fd = some client) (x : RawFd) :
    σ.clients.lookup x =
      if x = fd then some { client with readBuf := client.readBuf ++ [] }
      else σ.clients.lookup x := by
  split
  · rename_i hx
    rw [hx, hclient, List.append_nil]
  · rfl

private theorem waitForDetachAck_none (hclient : σ.clients.lookup fd = some client)
    {bytes : List UInt8}
    (hframe : nextFrame (client.readBuf ++ bytes) = none) (reads : List AckRead) :
    waitForDetachAck J fd id (.data bytes :: reads) σ =
      waitForDetachAck J fd id reads
        (σ.putClient fd { client with readBuf := client.readBuf ++ bytes }) := by
  conv_lhs => unfold waitForDetachAck
  simp only [hclient, tryDecodeMessage_eq, hframe, Option.map_none]

private theorem waitForDetachAck_some (hclient : σ.clients.lookup fd = some client)
    {bytes : List UInt8}
    {p : List UInt8 × Nat} (hframe : nextFrame (client.readBuf ++ bytes) = some p)
    (reads : List AckRead) :
    waitForDetachAck J fd id (.data bytes :: reads) σ =
      (σ.putClient fd { client with readBuf := (client.readBuf ++ bytes).drop p.2 },
        (carried J id p.1).map .given) := by
  unfold waitForDetachAck
  simp only [hclient, tryDecodeMessage_eq, hframe, Option.map_some, carried]
  cases J.pushAck p.1 with
  | error e => rfl
  | ok ack =>
    cases ack with
    | resumeAck sid => rfl
    | detachAck sid snapshot =>
      dsimp only
      split <;> rfl

/-- The wait touches the buffer of the connection and nothing else. -/
theorem waitForDetachAck_spec (J : Codec) (id : Uuid) (reads : List AckRead)
    (hclient : σ.clients.lookup fd = some client) :
    (∀ x, (waitForDetachAck J fd id reads σ).1.clients.lookup x =
        if x = fd then
          some { client with readBuf := (waited reads client.readBuf).left client.readBuf }
        else σ.clients.lookup x) ∧
      (waitForDetachAck J fd id reads σ).1.sessions = σ.sessions ∧
      (waitForDetachAck J fd id reads σ).1.trace = σ.trace ∧
      (waitForDetachAck J fd id reads σ).2 =
        ((waited reads client.readBuf).frame.bind fun p => carried J id p.1).map .given := by
  induction reads generalizing σ client with
  | nil => exact ⟨lookup_same hclient, rfl, rfl, rfl⟩
  | cons read reads ih =>
    cases read with
    | closed =>
      simp only [waitForDetachAck, hclient, waited]
      exact ⟨lookup_same hclient, trivial, trivial, rfl⟩
    | failed =>
      simp only [waitForDetachAck, hclient, waited]
      exact ⟨lookup_same hclient, trivial, trivial, rfl⟩
    | data bytes =>
      have hput := lookup_putClient σ fd
      cases hframe : nextFrame (client.readBuf ++ bytes) with
      | none =>
        obtain ⟨hclients, hsessions, htrace, hresult⟩ := ih ((hput fd _).trans (if_pos rfl))
        rw [waitForDetachAck_none hclient hframe, waited_none hframe]
        refine ⟨fun x => ?_, hsessions, htrace, hresult⟩
        rw [hclients, hput]
        split
        · simp only [Waited.left, List.append_assoc]
        · rfl
      | some p =>
        rw [waitForDetachAck_some hclient hframe, waited_some hframe]
        exact ⟨fun x => hput x _, rfl, rfl, rfl⟩

/-- A takeover of an attached session, after its push has gone out. -/
theorem handleBatonTakeover_pushed (J : Codec) {s : Session} (hs : σ.sessions.lookup id = some s)
    (hatt : s.state = .attached) (howner : s.ownerFd = some fd)
    (hclient : σ.clients.lookup fd = some client) (hpush : env.pushWritten = true) :
    (σ.handleBatonTakeover J env id).1.sessions.lookup id =
      some (s.batonDetach
        (((waited env.ackReads client.readBuf).frame.bind fun p => carried J id p.1).map
          .given)) := by
  have hpushed : (σ.emit (.sent client.stream (.push (.forceDetach id)))).clients.lookup fd =
      some client := hclient
  obtain ⟨_, hsessions, _, hresult⟩ := waitForDetachAck_spec J id env.ackReads hpushed
  have hfound : (waitForDetachAck J fd id env.ackReads
      (σ.emit (.sent client.stream (.push (.forceDetach id))))).1.sessions.lookup id = some s := by
    rw [hsessions]
    exact hs
  unfold handleBatonTakeover
  simp only [hs, hatt, howner, hclient, hpush, ne_eq, not_true_eq_false, if_false,
    forceCompleteTakeover, hfound]
  rw [← hresult]
  exact lookup_putSession_self _ id _

/-- All that the owner has sent up to its acknowledgement is read in time: the snapshot arrives just
when the acknowledgement comes first, or a frame before it carries the same. -/
theorem baton_arrives_iff (J : Codec) (env : Env) {s : Session} {before : List (List UInt8)}
    {ack more : List UInt8} {chunks : List (List UInt8)} {snap : String}
    (hs : σ.sessions.lookup id = some s) (hatt : s.state = .attached) (howner : s.ownerFd = some fd)
    (hclient : σ.clients.lookup fd = some client) (hpush : env.pushWritten = true)
    (hreads : env.ackReads = chunks.map .data)
    (hbytes : client.readBuf ++ chunks.flatten = (before ++ [ack]).flatMap encodeMessage ++ more)
    (hshort : ∀ p ∈ before ++ [ack], p.length < 2 ^ 32)
    (hack : J.pushAck ack = .ok (.detachAck id (some snap))) :
    (∃ s', (σ.handleBatonTakeover J env id).1.sessions.lookup id = some s' ∧
        s'.state = .active ∧ s'.previousOwnerFd = some fd ∧
        s'.gridSnapshot = some (.given snap)) ↔
      chunks ≠ [] ∧ (∀ p ∈ before.head?, carried J id p = some snap) ∨
        (chunks = [] ∨ ∃ p ∈ before.head?, carried J id p = none) ∧
          s.gridSnapshot = some (.given snap) := by
  have hcarried : carried J id ack = some snap := by simp [carried, hack]
  have hresult := handleBatonTakeover_pushed J hs hatt howner hclient hpush
  have hstates : ∀ snapshot, (s.batonDetach snapshot).state = .active ∧
      (s.batonDetach snapshot).previousOwnerFd = some fd := by
    intro snapshot
    simp [Session.batonDetach, Session.detach, howner]
  have hgrid : ∀ snapshot, (s.batonDetach snapshot).gridSnapshot =
      if snapshot.isSome then snapshot else s.gridSnapshot := fun _ => rfl
  rw [hresult, hreads]
  simp only [Option.some.injEq, exists_eq_left', hstates, true_and, hgrid]
  by_cases hchunks : chunks = []
  · simp [hchunks, waited]
  · -- the first frame of the stream ends the wait
    cases before with
    | nil =>
      have hfirst : nextFrame (client.readBuf ++ chunks.flatten) = some (ack, 4 + ack.length) := by
        rw [hbytes]
        simpa using nextFrame_encode (hshort ack (by simp)) more
      simp [waited_first hchunks hfirst, hchunks, hcarried]
    | cons p before =>
      have hfirst : nextFrame (client.readBuf ++ chunks.flatten) = some (p, 4 + p.length) := by
        rw [hbytes]
        simpa using nextFrame_encode (hshort p (by simp))
          ((before ++ [ack]).flatMap encodeMessage ++ more)
      rw [waited_first hchunks hfirst]
      cases hp : carried J id p with
      | none => simp [hchunks, hp]
      | some other => simp [hchunks, hp]

/-- A codec that knows three requests and one acknowledgement. -/
def acking : Codec where
  request := fun json =>
    if json = [0] then .ok (.create none 80 24 none none none)
    else if json = [1] then .ok (.attach 7)
    else if json = [2] then .ok .list
    else .error "unknown"
  pushAck := fun json => if json = [3] then .ok (.detachAck 7 (some "screen")) else .error "unknown"
  base64 := fun _ => .error "unknown"

private theorem owned_reachable :
    ∃ σ s, (loop acking).Reachable σ ∧ σ.sessions.lookup 7 = some s ∧ s.state = .attached ∧
      s.ownerFd = some 5 ∧ s.gridSnapshot = none ∧ σ.clients.lookup 5 = some ⟨0, []⟩ := by
  have hrun : ((loop acking).exec (Server.new 3 none 0)
      [readable 3 [.stream 5] [] [],
        readable 5 [] (encodeMessage [0] ++ encodeMessage [1]) [calm, calmLater]]).map
      (fun σ => ((σ.sessions.lookup 7).map fun s => (s.state, s.ownerFd, s.gridSnapshot),
        σ.clients.lookup 5)) =
      some (some (.attached, some 5, none), some ⟨0, []⟩) := by decide +kernel
  obtain ⟨σ, hexec, hpair⟩ := Option.map_eq_some_iff.mp hrun
  obtain ⟨hlookup, hclient⟩ := Prod.mk.inj hpair
  obtain ⟨s, hs, hfields⟩ := Option.map_eq_some_iff.mp hlookup
  simp only [Prod.mk.injEq] at hfields
  have hstart : (loop acking).Reachable (Server.new 3 none 0) := .start ⟨3, none, 0, rfl⟩
  exact ⟨σ, s, hstart.exec hexec, hs, hfields.1, hfields.2.1, hfields.2.2, hclient⟩

/-- The acknowledgement alone, in two pieces. -/
theorem baton_arrives_alone :
    ∃ σ, (loop acking).Reachable σ ∧
      ∃ s', (σ.handleBatonTakeover acking
          { calm with ackReads := [.data [0, 0], .data [0, 1, 3]] } 7).1.sessions.lookup 7 =
          some s' ∧
        s'.state = .active ∧ s'.previousOwnerFd = some 5 ∧
        s'.gridSnapshot = some (.given "screen") := by
  obtain ⟨σ, s, hreach, hs, hatt, howner, _, hclient⟩ := owned_reachable
  refine ⟨σ, hreach, ?_⟩
  let env : Env := { calm with ackReads := [.data [0, 0], .data [0, 1, 3]] }
  have hreads : env.ackReads = [[0, 0], [0, 1, 3]].map .data := rfl
  have hbytes : ([] : List UInt8) ++ [[0, 0], [0, 1, 3]].flatten =
      (([] : List (List UInt8)) ++ [[3]]).flatMap encodeMessage ++ [] := by decide
  exact (baton_arrives_iff acking env hs hatt howner hclient rfl hreads hbytes (by decide)
    (by decide)).mpr (.inl ⟨by decide, by simp⟩)

/-- A request in flight before the acknowledgement is enough to lose the snapshot. -/
theorem baton_lost_behind_request :
    ¬ ∀ (J : Codec) (env : Env) (σ : Server) (id : Uuid) (s : Session) (fd : RawFd)
      (client : ClientState) (before : List (List UInt8)) (ack more : List UInt8)
      (chunks : List (List UInt8)) (snap : String),
      (loop J).Reachable σ → σ.sessions.lookup id = some s → s.state = .attached →
      s.ownerFd = some fd → σ.clients.lookup fd = some client → env.pushWritten = true →
      env.ackReads = chunks.map .data →
      client.readBuf ++ chunks.flatten = (before ++ [ack]).flatMap encodeMessage ++ more →
      (∀ p ∈ before ++ [ack], p.length < 2 ^ 32) →
      J.pushAck ack = .ok (.detachAck id (some snap)) →
      ∃ s', (σ.handleBatonTakeover J env id).1.sessions.lookup id = some s' ∧
        s'.state = .active ∧ s'.previousOwnerFd = some fd ∧
        s'.gridSnapshot = some (.given snap) := by
  intro h
  obtain ⟨σ, s, hreach, hs, hatt, howner, hgrid, hclient⟩ := owned_reachable
  let env : Env := { calm with ackReads := [.data (encodeMessage [2] ++ encodeMessage [3])] }
  obtain ⟨s', hs', _, _, hsnap⟩ := h acking env σ 7 s 5 ⟨0, []⟩ [[2]] [3] []
    [encodeMessage [2] ++ encodeMessage [3]] "screen" hreach hs hatt howner hclient rfl rfl
    (by decide) (by decide) (by decide)
  have hpush : env.pushWritten = true := rfl
  have hresult := handleBatonTakeover_pushed acking hs hatt howner hclient hpush
  have hnothing : ((waited env.ackReads []).frame.bind fun p => carried acking 7 p.1) = none := by
    decide
  rw [hnothing] at hresult
  cases Option.some.inj (hresult.symm.trans hs')
  have hnone : (s.batonDetach none).gridSnapshot = none := hgrid
  cases hnone.symm.trans hsnap

end Server

end PtyDaemon
