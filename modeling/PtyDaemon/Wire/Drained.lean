import PtyDaemon.Wire.Overheard

/-!
# Complete frames in the buffers

At the head of the loop no buffer holds a complete frame, which the daemon would look at only when
more arrives: the decode loop leaves none, and a wait leaves none when it has read no more than the
frame that ends it.
-/

namespace PtyDaemon

private theorem messages_eq_nil {buf : List UInt8} :
    frames.messages buf = [] ↔ nextFrame buf = none := by
  cases hframe : nextFrame buf with
  | none => simp [(frames_stuck hframe).1]
  | some p => simp [(frames_more hframe).1]

/-- A wait leaves a complete frame exactly where it has read more than one. -/
theorem waited_left_drained {buf : List UInt8} (h : nextFrame buf = none) (reads : List AckRead) :
    nextFrame ((waited reads buf).left buf) = none ↔
      (frames.messages (buf ++ (waited reads buf).bytes)).length ≤ 1 := by
  cases hframe : (waited reads buf).frame with
  | none =>
    have hnone : nextFrame (buf ++ (waited reads buf).bytes) = none := by
      rcases waited_unended hframe with hnothing | hnone
      · rwa [hnothing, List.append_nil]
      · exact hnone
    simp [Waited.left, hframe, hnone, (frames_stuck hnone).1]
  | some p =>
    have hfirst := (frames_more (waited_frame hframe)).1
    simp [Waited.left, hframe, hfirst, messages_eq_nil]

namespace Server

variable {J : Codec} {env : Env} {σ σ' : Server} {e : Event}

/-- No client has a complete frame in its buffer. -/
def Drained (σ : Server) : Prop :=
  ∀ fd client, σ.clients.lookup fd = some client → nextFrame client.readBuf = none

/-- If the event waits for an acknowledgement, the wait reads one frame at most. -/
def ReadsOneFrame (σ : Server) (e : Event) : Prop :=
  ∀ fd ∈ σ.waits e, ∀ client ∈ σ.clients.lookup fd,
    (frames.messages (client.readBuf ++ (waited e.ackReads client.readBuf).bytes)).length ≤ 1

instance (σ : Server) (e : Event) : Decidable (σ.ReadsOneFrame e) :=
  inferInstanceAs (Decidable (∀ fd ∈ σ.waits e, ∀ client ∈ σ.clients.lookup fd, _))

private theorem readsOneFrame_quiet (h : σ.waits e = none) : σ.ReadsOneFrame e := by
  intro fd hfd
  cases h.symm.trans hfd

/-- After an event the buffers are drained exactly where its wait has read one frame at most. -/
theorem event_drained_iff (h : σ.Drained) (hother : e.isRequest = false)
    (hevent : σ.event J e = .ok σ') : σ'.Drained ↔ σ.ReadsOneFrame e := by
  cases event_reads hevent hother with
  | @accept fd he hserver =>
    have hquiet : σ.waits e = none := by
      rw [he]
      rfl
    refine iff_of_true (fun x client hx => ?_) (readsOneFrame_quiet hquiet)
    rw [hserver] at hx
    have hx := (Table.lookup_insert σ.clients fd x ⟨σ.accepted, []⟩).symm.trans hx
    split at hx
    · cases hx
      rfl
    · exact h x client hx
  | @disconnect fd he hclients _ _ =>
    have hquiet : σ.waits e = none := by
      rw [he]
      rfl
    refine iff_of_true (fun x client hx => ?_) (readsOneFrame_quiet hquiet)
    rw [hclients] at hx
    split at hx
    · cases hx
    · exact h x client hx
  | heard hheard =>
    constructor
    · intro hdrained fd hwait client hclient
      have hwait : σ.waits e = some fd := hwait
      have hclient : σ.clients.lookup fd = some client := hclient
      apply (waited_left_drained (h fd client hclient) e.ackReads).mp
      have hafter := hheard.clients fd
      rw [hclient, Option.map_some, if_pos hwait] at hafter
      exact hdrained fd _ hafter
    · intro hone x client hx
      rw [hheard.clients] at hx
      obtain ⟨before, hbefore, rfl⟩ := Option.map_eq_some_iff.mp hx
      split
      · rename_i hwait
        have hleft := waited_left_drained (h x before hbefore) e.ackReads
        exact hleft.mpr (hone x hwait before hbefore)
      · exact h x before hbefore

/-- An event that waits for nothing. -/
theorem event_drained (h : σ.Drained) (hother : e.isRequest = false)
    (hquiet : ∀ shared cmd env, e ≠ .command shared cmd env) (hevent : σ.event J e = .ok σ') :
    σ'.Drained := by
  apply (event_drained_iff h hother hevent).mpr
  apply readsOneFrame_quiet
  cases e with
  | command shared cmd env => exact absurd rfl (hquiet shared cmd env)
  | _ => rfl

/-! ## One batch -/

private theorem handleClientData_drained {fd : RawFd} {read : ClientRead} {envs : List Env}
    (h : σ.Drained) (hdata : σ.handleClientData J envs fd read = .ok σ') : σ'.Drained := by
  cases hclient : σ.clients.lookup fd with
  | none =>
    simp only [handleClientData, hclient] at hdata
    cases hdata
    exact h
  | some client =>
    cases read with
    | closed =>
      simp only [handleClientData, hclient] at hdata
      have hevent : σ.event J (.disconnect fd) = .ok σ' := by
        simpa [event, connOf, hclient] using hdata
      exact event_drained h rfl (fun _ _ _ h => by cases h) hevent
    | wouldBlock =>
      simp only [handleClientData, hclient] at hdata
      cases hdata
      exact h
    | failed e =>
      simp only [handleClientData, hclient] at hdata
      cases hdata
    | data bytes =>
      rw [handleClientData_eq_log, handleClientDataLog, hclient] at hdata
      obtain ⟨⟨τ, log⟩, hlog, rfl⟩ := ok_of_map hdata
      have hput := lookup_putClient σ fd
      obtain ⟨_, hclients, _⟩ := decodeLoopLog_spec ((hput fd _).trans (if_pos rfl)) hlog
      intro x other hx
      rw [hclients, hput] at hx
      split at hx
      · cases hx
        exact nextFrame_rest _
      · exact h x other hx

private theorem acceptClients_drained (J : Codec) {accepts : List AcceptResult} (h : σ.Drained)
    (haccept : σ.acceptClients accepts = .ok σ') : σ'.Drained := by
  induction accepts generalizing σ with
  | nil =>
    cases haccept
    exact h
  | cons a rest ih =>
    cases a with
    | stream fd =>
      rw [acceptClients] at haccept
      split at haccept
      · rename_i hfree
        have hevent : σ.event J (.accept fd) = .ok (σ.acceptClient fd) := if_pos hfree
        exact ih (event_drained h rfl (fun _ _ _ h => by cases h) hevent) haccept
      · cases haccept
    | refused fd e => cases haccept
    | failed e => cases haccept

private theorem dispatch_drained {ans : Answers} {ev : KEvent} (h : σ.Drained)
    (hdispatch : σ.dispatch J ans ev = .ok σ') : σ'.Drained := by
  unfold dispatch at hdispatch
  split at hdispatch
  · cases hdispatch
    exact h
  · split at hdispatch
    · cases hdispatch
      exact h
    · split at hdispatch
      · exact acceptClients_drained J h hdispatch
      · split at hdispatch
        · rename_i hopen
          split at hdispatch
          · have hevent : σ.event J (.disconnect ev.ident) = .ok σ' := by
              rwa [event, connOf, Option.isSome_map, if_pos hopen]
            exact event_drained h rfl (fun _ _ _ h => by cases h) hevent
          · exact handleClientData_drained h hdispatch
        · split at hdispatch
          · have hevent : σ.event J (.childExit ev.ident ans.env) = .ok σ' := hdispatch
            exact event_drained h rfl (fun _ _ _ h => by cases h) hevent
          · have hevent : σ.event J (.output ev.ident ans.ptyRead ans.env) = .ok σ' := hdispatch
            exact event_drained h rfl (fun _ _ _ h => by cases h) hevent

private theorem dispatchAll_drained {batch : List (KEvent × Answers)} (h : σ.Drained)
    (hdispatch : σ.dispatchAll J batch = .ok σ') : σ'.Drained := by
  induction batch generalizing σ with
  | nil =>
    cases hdispatch
    exact h
  | cons p batch ih =>
    rw [dispatchAll] at hdispatch
    split at hdispatch
    · cases hdispatch
    · rename_i τ hτ
      have hfirst := dispatch_drained h hτ
      split at hdispatch
      · cases hdispatch
        exact hfirst
      · exact ih hfirst hdispatch

/-! ## Turns and runs -/

/-- No wait of the commands reads more than one frame. -/
def AcksComeAlone (J : Codec) (σ : Server) : List (WsSharedState × WsCommand × Env) → Prop
  | [] => True
  | (shared, cmd, env) :: rest =>
    σ.ReadsOneFrame (.command shared cmd env) ∧
      ∀ σ', σ.event J (.command shared cmd env) = .ok σ' → σ'.AcksComeAlone J rest

private theorem drainWsCommands_drained {commands : List (WsSharedState × WsCommand × Env)}
    (h : σ.Drained) (hone : σ.AcksComeAlone J commands)
    (hdrain : σ.drainWsCommands J commands = .ok σ') : σ'.Drained := by
  induction commands generalizing σ with
  | nil =>
    cases hdrain
    exact h
  | cons p commands ih =>
    obtain ⟨shared, cmd, env⟩ := p
    rw [drainWsCommands] at hdrain
    split at hdrain
    · rename_i hadmits
      split at hdrain
      · cases hdrain
      · rename_i τ hτ
        have hevent : σ.event J (.command shared cmd env) = .ok τ := by
          rw [event, if_pos (show σ.admits env = true from hadmits)]
          exact hτ
        have hdrained := (event_drained_iff h rfl hevent).mpr hone.1
        exact ih hdrained (hone.2 τ hevent) hdrain
    · cases hdrain

private theorem poll_drained {polled : Polled} (h : σ.Drained) (hpoll : σ.poll J polled = .ok σ') :
    σ'.Drained := by
  cases polled with
  | events batch => exact dispatchAll_drained h hpoll
  | interrupted =>
    cases hpoll
    exact h
  | failed e => cases hpoll

private theorem turn_drained {t : Turn} (h : σ.Drained)
    (hone : (σ.reapDead t.reap).AcksComeAlone J t.commands) (hturn : σ.turn J t = .ok σ') :
    σ'.Drained := by
  unfold turn at hturn
  obtain ⟨τ, hτ, hturn⟩ := ok_of_bind hturn
  have hevent : σ.event J (.reap t.reap) = .ok (σ.reapDead t.reap) := rfl
  have hreaped := event_drained h rfl (fun _ _ _ h => by cases h) hevent
  have hdrained := drainWsCommands_drained hreaped hone hτ
  have hticked : ∀ idleSince, Drained { τ with idleSince := idleSince } := fun _ => hdrained
  split at hturn
  · split at hturn
    · split at hturn
      · cases hturn
        exact hdrained
      · exact poll_drained hdrained hturn
    · exact poll_drained (hticked _) hturn
  · exact poll_drained (hticked _) hturn

/-- At the head of the loop, in a run in which no wait reads more than one frame, no client has a
complete frame waiting. -/
theorem no_frame_waiting
    (h : (loop J).Reach (fun σ t => (σ.reapDead t.reap).AcksComeAlone J t.commands) σ)
    {fd : RawFd} {client : ClientState} (hclient : σ.clients.lookup fd = some client) :
    tryDecodeMessage J.request client.readBuf = none := by
  have hdrained : σ.Drained := by
    apply h.invariant
    · rintro _ ⟨listener, wakeup, now, rfl⟩ fd client hclient
      cases hclient
    · intro σ t σ' h hone hstep
      simp only [loop] at hstep
      split at hstep
      · exact turn_drained h hone (ok_of_toOption hstep)
      · cases hstep
  exact tryDecodeMessage_none.mpr (hdrained fd client hclient)

/-- A client creates session 7 and attaches it. -/
private def attaching7 : List Turn :=
  [readable 3 [.stream 5] [] [],
    readable 5 [] (encodeMessage [0] ++ encodeMessage [1]) [calm, calmLater]]

/-- A WebSocket client takes session 7 over, and the wait for the acknowledgement reads `bytes`. -/
private def takingOver (bytes : List UInt8) : Turn :=
  { readable 3 [] [] [] with
    commands := [(.new, .request 1 (.attach 7) 1, { calmLater with ackReads := [.data bytes] })] }

/-- The wait reads the acknowledgement and the beginning of a request. -/
theorem no_frame_waiting_acknowledged :
    ∃ σ, (loop acking).Reach
        (fun σ t => (σ.reapDead t.reap).AcksComeAlone acking t.commands) σ ∧
      σ.clients.lookup 5 = some ⟨0, [0, 0, 0]⟩ ∧
      tryDecodeMessage acking.request [0, 0, 0] = none := by
  let t := takingOver (encodeMessage [3] ++ [0, 0, 0])
  have hrun : (((loop acking).exec (Server.new 3 none 0) attaching7).bind fun σ =>
      ((loop acking).step σ t).map fun σ' =>
        (t.commands.map fun p =>
          decide ((σ.reapDead t.reap).ReadsOneFrame (.command p.1 p.2.1 p.2.2)),
          σ'.clients.lookup 5)) = some ([true], some ⟨0, [0, 0, 0]⟩) := by decide +kernel
  obtain ⟨σ, hexec, hfacts⟩ := Option.bind_eq_some_iff.mp hrun
  obtain ⟨σ', hstep, hfacts⟩ := Option.map_eq_some_iff.mp hfacts
  obtain ⟨hone, hclient⟩ := Prod.mk.inj hfacts
  have hstart : (loop acking).Reach
      (fun σ t => (σ.reapDead t.reap).AcksComeAlone acking t.commands) (Server.new 3 none 0) :=
    .start ⟨3, none, 0, rfl⟩
  have hnone : ∀ t ∈ attaching7, ∀ σ : Server,
      (σ.reapDead t.reap).AcksComeAlone acking t.commands := by
    intro t ht σ
    simp only [attaching7, List.mem_cons, List.not_mem_nil, or_false] at ht
    rcases ht with rfl | rfl <;> trivial
  have hguard : (σ.reapDead t.reap).AcksComeAlone acking t.commands :=
    ⟨of_decide_eq_true (List.cons.inj hone).1, fun _ _ => trivial⟩
  have hreach := (hstart.exec hnone hexec).next hguard hstep
  exact ⟨σ', hreach, hclient, no_frame_waiting hreach hclient⟩

/-- A request comes together with the acknowledgement and stays in the buffer. -/
theorem request_left_waiting :
    ∃ σ client, (loop acking).Reachable σ ∧ σ.clients.lookup 5 = some client ∧
      tryDecodeMessage acking.request client.readBuf ≠ none := by
  have hrun : ((loop acking).exec (Server.new 3 none 0)
      (attaching7 ++ [takingOver (encodeMessage [3] ++ encodeMessage [2])])).map
        (fun σ => σ.clients.lookup 5) = some (some ⟨0, encodeMessage [2]⟩) := by decide +kernel
  obtain ⟨σ, hexec, hclient⟩ := Option.map_eq_some_iff.mp hrun
  have hstart : (loop acking).Reachable (Server.new 3 none 0) := .start ⟨3, none, 0, rfl⟩
  refine ⟨σ, _, hstart.exec hexec, hclient, fun hnone => ?_⟩
  have hframe : nextFrame (encodeMessage [2]) ≠ none := by decide
  exact hframe (tryDecodeMessage_none.mp hnone)

end Server

end PtyDaemon
