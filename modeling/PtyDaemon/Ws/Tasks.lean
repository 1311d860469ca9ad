import PtyDaemon.Server.Shared
import PtyDaemon.Ws.World

/-!
# The steps of the world

What a step of a connection task can do to the shared table, the connection and the queue, and
what a step of the world can do. The invariants are proved from these.
-/

namespace PtyDaemon

def WsTask.inLoop : WsTask → Bool
  | .leaving => false
  | .gone => false
  | _ => true

def WsCommand.isDisconnected : WsCommand → Bool
  | .disconnected _ => true
  | _ => false

namespace WsConnection

/-- The branches of a step of the task of `c`. -/
inductive Branch (t : WsSharedState) (c : Nat) (out : Uuid → Nat) (conn : WsConnection) :
    WsStep → WsSharedState × WsConnection → Option WsCommand → Prop
  | unparsed {e : String} (htask : conn.task = .reading) :
      Branch t c out conn (.text (.error e))
        (t, conn.say (.text (.error ("parse error: " ++ e)))) none
  | said {request : Request} (htask : conn.task = .reading) :
      Branch t c out conn (.text (.ok request))
        ((conn.detachFirst t c request).1,
          { (conn.detachFirst t c request).2 with task := .forwarding request }) none
  | typed {data : List UInt8} (htask : conn.task = .reading) :
      Branch t c out conn (.binary data) (t, conn)
        ((if conn.eventRx.isSome then conn.attachedSession else none).map (.input · data))
  | forwarded {request : Request} (htask : conn.task = .forwarding request) :
      Branch t c out conn .forward (t, { conn with task := .waiting request })
        (some (.request c request c))
  | shutdown {response : Response} {dumpedAt : Nat}
      (htask : conn.task = .answered .shutdown response dumpedAt) :
      Branch t c out conn .finish ((conn.say (.text response)).leave t c) none
  | finished {request : Request} {response : Response} {dumpedAt : Nat}
      (htask : conn.task = .answered request response dumpedAt) (hrequest : request ≠ .shutdown) :
      Branch t c out conn .finish
        ((conn.setUp t c out request response dumpedAt).1,
          { (conn.setUp t c out request response dumpedAt).2.say (.text response) with
            task := .reading }) none
  | received {rx : WsReceiver} {written : Bool} (htask : conn.task = .reading)
      (hrx : conn.eventRx = some rx)
      (hready : ((t.eventsOf rx.tx)[rx.read]?.isNone && t.hasSender rx.tx) = false) :
      Branch t c out conn (.recv written)
        (conn.handleEvent t c rx written (t.eventsOf rx.tx)[rx.read]?) none
  | closed (htask : conn.task = .reading) : Branch t c out conn .close (conn.leave t c) none
  | reported (htask : conn.task = .leaving) :
      Branch t c out conn .report (t, { conn with task := .gone }) (some (.disconnected c))

/-- What a step of the task of `c` can do. -/
inductive Did (t : WsSharedState) (c : Nat) (out : Uuid → Nat) (conn : WsConnection) :
    WsSharedState → WsConnection → Option WsCommand → Prop
  | aside {conn' : WsConnection} {cmd : Option WsCommand} (hloop : conn.task.inLoop = true)
      (htask : conn'.task.inLoop = true)
      (hunanswered : ∀ request response n, conn'.task ≠ .answered request response n)
      (hattached : conn'.attachedSession = conn.attachedSession)
      (hrx : conn'.eventRx = conn.eventRx) (hstream : conn'.stream = conn.stream)
      (hcmd : ∀ command ∈ cmd, command.isDisconnected = false) : Did t c out conn t conn' cmd
  /-- the subscription is given up -/
  | leave {conn' : WsConnection} (hloop : conn.task.inLoop = true)
      (hunanswered : ∀ request response n, conn'.task ≠ .answered request response n)
      (hattached : conn'.attachedSession = none) (hrx : conn'.eventRx = none)
      (hstream : conn'.stream = none) :
      Did t c out conn (conn.attachedSession.elim t fun sid => t.unsubscribe sid c) conn' none
  | subscribe {conn' : WsConnection} {request : Request} {response : Response} {dumpedAt : Nat}
      {sid : Uuid} {history : List UInt8} (htask : conn.task = .answered request response dumpedAt)
      (hready : response.ready = some (sid, history)) (htask' : conn'.task = .reading)
      (hattached : conn'.attachedSession = some sid)
      (hrx : conn'.eventRx = some ⟨t.channels, 0⟩)
      (hstream : conn'.stream = some ⟨sid, t.channels, history, [], dumpedAt, out sid⟩) :
      Did t c out conn (t.subscribe sid c).2 conn' none
  | deliver {rx : WsReceiver} {data : List UInt8} (htask : conn.task = .reading)
      (hrx : conn.eventRx = some rx)
      (hevent : (t.eventsOf rx.tx)[rx.read]? = some (.ptyOutput data)) :
      Did t c out conn t (conn.deliver rx data) none
  | ended {conn' : WsConnection} {rx : WsReceiver} {sid : Uuid} (htask : conn.task = .reading)
      (hrx : conn.eventRx = some rx)
      (hevent : (t.eventsOf rx.tx)[rx.read]? = some .sessionEnded)
      (hsession : conn.attachedSession = some sid) (htask' : conn'.task = .reading)
      (hattached : conn'.attachedSession = none) (hrx' : conn'.eventRx = none)
      (hstream : conn'.stream = conn.stream) :
      Did t c out conn (t.unsubscribe sid c) conn' none
  | report (htask : conn.task = .leaving) :
      Did t c out conn t { conn with task := .gone } (some (.disconnected c))

variable {t : WsSharedState} {c : Nat} {out : Uuid → Nat} {conn : WsConnection}

theorem step_branch {s : WsStep} {p : WsSharedState × WsConnection} {cmd : Option WsCommand}
    (h : conn.step t c out s = some (p, cmd)) : Branch t c out conn s p cmd := by
  cases s with
  | text result =>
    cases result with
    | error e =>
      obtain ⟨htask, heq⟩ := Option.ite_none_right_eq_some.mp h
      cases heq
      exact .unparsed htask
    | ok request =>
      obtain ⟨htask, heq⟩ := Option.ite_none_right_eq_some.mp h
      cases heq
      exact .said htask
  | binary data =>
    obtain ⟨htask, heq⟩ := Option.ite_none_right_eq_some.mp h
    cases heq
    exact .typed htask
  | forward =>
    simp only [step] at h
    split at h
    · rename_i request htask
      cases h
      exact .forwarded htask
    · cases h
  | finish =>
    simp only [step] at h
    split at h
    · rename_i request response dumpedAt htask
      split at h
      · rename_i hshutdown
        subst hshutdown
        obtain ⟨rfl, rfl⟩ := Prod.mk.inj (Option.some.inj h)
        exact .shutdown htask
      · rename_i hrequest
        cases h
        exact .finished htask hrequest
    · cases h
  | recv written =>
    simp only [step] at h
    split at h
    · rename_i rx htask hrx
      split at h
      · cases h
      · rename_i hready
        obtain ⟨rfl, rfl⟩ := Prod.mk.inj (Option.some.inj h)
        exact .received htask hrx (Bool.eq_false_iff.mpr hready)
    · cases h
  | close =>
    obtain ⟨htask, heq⟩ := Option.ite_none_right_eq_some.mp h
    obtain ⟨rfl, rfl⟩ := Prod.mk.inj (Option.some.inj heq)
    exact .closed htask
  | report =>
    obtain ⟨htask, heq⟩ := Option.ite_none_right_eq_some.mp h
    cases heq
    exact .reported htask

/-- Who leaves gives up the subscription. -/
theorem leave_table (conn : WsConnection) (t : WsSharedState) (c : Nat) :
    (conn.leave t c).1 = conn.attachedSession.elim t fun sid => t.unsubscribe sid c := by
  rw [leave]
  cases conn.attachedSession <;> rfl

private theorem inLoop_of_eq {task task' : WsTask} (h : task = task')
    (h' : task'.inLoop = true) : task.inLoop = true := h ▸ h'

private theorem leave_did {conn' : WsConnection} (hloop : conn.task.inLoop = true)
    (hattached : conn'.attachedSession = conn.attachedSession) :
    Did t c out conn (conn'.leave t c).1 (conn'.leave t c).2 none := by
  rw [leave_table, hattached]
  exact .leave hloop (fun _ _ _ h => nomatch h) rfl rfl rfl

private theorem text_did (htask : conn.task = .reading) (request : Request) :
    Did t c out conn (conn.detachFirst t c request).1
      { (conn.detachFirst t c request).2 with task := .forwarding request } none := by
  have hloop : conn.task.inLoop = true := inLoop_of_eq htask rfl
  have haside : Did t c out conn t { conn with task := .forwarding request } none :=
    .aside hloop rfl (fun _ _ _ h => nomatch h) rfl rfl rfl fun _ h => nomatch h
  cases request with
  | detach sessionId cols rows snapshot =>
    rw [detachFirst]
    split
    · rename_i hsession
      have htable : t.unsubscribe sessionId c =
          conn.attachedSession.elim t fun sid => t.unsubscribe sid c := by rw [hsession]; rfl
      rw [htable]
      exact .leave hloop (fun _ _ _ h => nomatch h) rfl rfl rfl
    · exact haside
  | _ => exact haside

private theorem finish_did {request : Request} {response : Response} {dumpedAt : Nat}
    (htask : conn.task = .answered request response dumpedAt) :
    Did t c out conn (conn.setUp t c out request response dumpedAt).1
      { (conn.setUp t c out request response dumpedAt).2.say (.text response) with
        task := .reading } none := by
  have hloop : conn.task.inLoop = true := inLoop_of_eq htask rfl
  unfold setUp
  split
  · rename_i sid history _ hready
    exact .subscribe htask hready rfl rfl rfl rfl
  · exact .aside hloop rfl (fun _ _ _ h => nomatch h) rfl rfl rfl fun _ h => nomatch h

private theorem recv_did {rx : WsReceiver} (htask : conn.task = .reading)
    (hrx : conn.eventRx = some rx) (written : Bool) :
    Did t c out conn (conn.handleEvent t c rx written (t.eventsOf rx.tx)[rx.read]?).1
      (conn.handleEvent t c rx written (t.eventsOf rx.tx)[rx.read]?).2 none := by
  have hloop : conn.task.inLoop = true := inLoop_of_eq htask rfl
  cases hevent : (t.eventsOf rx.tx)[rx.read]? with
  | none => exact leave_did hloop rfl
  | some event =>
    cases event with
    | ptyOutput data =>
      rw [handleEvent]
      split
      · exact .deliver htask hrx hevent
      · exact leave_did hloop rfl
    | sessionEnded =>
      rw [handleEvent]
      cases hsession : conn.attachedSession with
      | none =>
        exact .aside hloop hloop (fun _ _ _ h => nomatch htask.symm.trans h) rfl rfl rfl
          fun _ h => nomatch h
      | some sid => exact .ended htask hrx hevent hsession htask rfl rfl rfl

private theorem Branch.did {s : WsStep} {p : WsSharedState × WsConnection}
    {cmd : Option WsCommand} (h : Branch t c out conn s p cmd) : Did t c out conn p.1 p.2 cmd := by
  cases h with
  | unparsed htask =>
    exact .aside (inLoop_of_eq htask rfl) (inLoop_of_eq htask rfl)
      (fun _ _ _ h => nomatch htask.symm.trans h) rfl rfl rfl fun _ h => nomatch h
  | said htask => exact text_did htask _
  | typed htask =>
    refine .aside (inLoop_of_eq htask rfl) (inLoop_of_eq htask rfl)
      (fun _ _ _ h => nomatch htask.symm.trans h) rfl rfl rfl fun command hcommand => ?_
    obtain ⟨sid, _, rfl⟩ := Option.map_eq_some_iff.mp hcommand
    rfl
  | forwarded htask =>
    refine .aside (inLoop_of_eq htask rfl) rfl (fun _ _ _ h => nomatch h) rfl rfl rfl ?_
    intro command hcommand
    cases hcommand
    rfl
  | shutdown htask => exact leave_did (inLoop_of_eq htask rfl) rfl
  | finished htask => exact finish_did htask
  | received htask hrx => exact recv_did htask hrx _
  | closed htask => exact leave_did (inLoop_of_eq htask rfl) rfl
  | reported htask => exact .report htask

theorem step_did {s : WsStep} {t' : WsSharedState} {conn' : WsConnection} {cmd : Option WsCommand}
    (h : conn.step t c out s = some ((t', conn'), cmd)) : Did t c out conn t' conn' cmd :=
  (step_branch h).did

end WsConnection

namespace WsWorld

variable {J : Codec} {w w' : WsWorld} {l : Label}

/-- What a step of the world can do. -/
inductive Stepped (J : Codec) (w : WsWorld) : WsWorld → Prop
  | accept : Stepped J w w.accept
  | task {c : Nat} {conn conn' : WsConnection} {t : WsSharedState} {cmd : Option WsCommand}
      (hconn : w.connections.lookup c = some conn)
      (hdid : conn.Did w.shared c (fun id => (w.streams.out id).length) t conn' cmd) :
      Stepped J w
        { w.withShared t with
          connections := w.connections.insert c conn'
          queue := w.queue ++ cmd.toList }
  | drain {cmd : WsCommand} {queue : List WsCommand} {env : Env} {σ' : Server}
      (hqueue : w.queue = cmd :: queue)
      (hevent : w.server.event J (.command w.shared cmd env) = .ok σ') :
      Stepped J w
        { w with
          streams := w.streams.advance σ'
          connections := replyTo w.connections (w.streams.advance σ') cmd
          queue := queue }
  | daemon {e : Event} {σ' : Server} (harrive : w.server.arrive e = w.server)
      (hevent : w.server.event J e = .ok σ') :
      Stepped J w { w with streams := w.streams.advance σ' }
  | clientRead {id : Uuid} {s : Session} {data : List UInt8}
      (hs : w.server.sessions.lookup id = some s) :
      Stepped J w
        { w with
          streams := w.streams.clientRead id s data
          clientEnd := fun i =>
            if i = id ∧ data ≠ [] then ((w.streams.clientRead id s data).out i).length
            else w.clientEnd i }

theorem step_task {c : Nat} {s : WsStep} (h : step J w (.task c s) = some w') :
    ∃ conn t conn' cmd, w.connections.lookup c = some conn ∧
      conn.step w.shared c (fun id => (w.streams.out id).length) s = some ((t, conn'), cmd) ∧
      w' = { w.withShared t with
        connections := w.connections.insert c conn'
        queue := w.queue ++ cmd.toList } := by
  obtain ⟨conn, hconn, hstep⟩ := Option.bind_eq_some_iff.mp h
  obtain ⟨⟨⟨t, conn'⟩, cmd⟩, hp, rfl⟩ := Option.map_eq_some_iff.mp hstep
  exact ⟨conn, t, conn', cmd, hconn, hp, rfl⟩

theorem step_drain {env : Env} (h : step J w (.drain env) = some w') :
    ∃ cmd queue σ', w.queue = cmd :: queue ∧
      w.server.event J (.command w.shared cmd env) = .ok σ' ∧
      w' = { w with
        streams := w.streams.advance σ'
        connections := replyTo w.connections (w.streams.advance σ') cmd
        queue := queue } := by
  simp only [step, drain] at h
  split at h
  · cases h
  · rename_i cmd queue hqueue
    obtain ⟨σ', hevent, rfl⟩ := Option.map_eq_some_iff.mp h
    exact ⟨cmd, queue, σ', hqueue, ok_of_toOption hevent, rfl⟩

theorem step_daemon {e : Event} (h : step J w (.daemon e) = some w') :
    ∃ σ', w.server.arrive e = w.server ∧ w.server.event J e = .ok σ' ∧
      w' = { w with streams := w.streams.advance σ' } := by
  have hadvance : w.server.arrive e = w.server →
      (w.server.event J e).toOption.map (fun σ' => { w with streams := w.streams.advance σ' }) =
        some w' → ∃ σ', w.server.arrive e = w.server ∧ w.server.event J e = .ok σ' ∧
          w' = { w with streams := w.streams.advance σ' } := by
    intro harrive h
    obtain ⟨σ', hevent, rfl⟩ := Option.map_eq_some_iff.mp h
    exact ⟨σ', harrive, ok_of_toOption hevent, rfl⟩
  cases e with
  | command shared cmd env => cases h
  | _ => exact hadvance rfl h

/-- Commands come from the queue. -/
theorem step_daemon_plain {e : Event} (h : step J w (.daemon e) = some w')
    (shared : WsSharedState) (cmd : WsCommand) (env : Env) : e ≠ .command shared cmd env := by
  rintro rfl
  cases h

theorem step_clientRead {id : Uuid} {data : List UInt8}
    (h : step J w (.clientRead id data) = some w') :
    ∃ s, w.server.sessions.lookup id = some s ∧
      w' = { w with
        streams := w.streams.clientRead id s data
        clientEnd := fun i =>
          if i = id ∧ data ≠ [] then ((w.streams.clientRead id s data).out i).length
          else w.clientEnd i } := by
  obtain ⟨s, hs, rfl⟩ := Option.map_eq_some_iff.mp h
  simp only [Streams.step] at hs
  split at hs
  · obtain ⟨session, hsession, rfl⟩ := Option.map_eq_some_iff.mp hs
    exact ⟨session, hsession, rfl⟩
  · cases hs

theorem step_stepped (h : step J w l = some w') : Stepped J w w' := by
  cases l with
  | accept =>
    cases h
    exact .accept
  | task c s =>
    obtain ⟨conn, t, conn', cmd, hconn, hp, rfl⟩ := step_task h
    exact .task hconn (WsConnection.step_did hp)
  | drain env =>
    obtain ⟨cmd, queue, σ', hqueue, hevent, rfl⟩ := step_drain h
    exact .drain hqueue hevent
  | daemon e =>
    obtain ⟨σ', harrive, hevent, rfl⟩ := step_daemon h
    exact .daemon harrive hevent
  | clientRead id data =>
    obtain ⟨s, hs, rfl⟩ := step_clientRead h
    exact .clientRead hs

theorem Stepped.ring (hring : Streams.RingInv w.streams) (h : Stepped J w w') :
    Streams.RingInv w'.streams := by
  have hshared : ∀ t, Streams.RingInv (w.withShared t).streams := fun t =>
    ⟨hring.server.withShared t, hring.unborn, hring.ring⟩
  cases h with
  | accept => exact hshared _
  | task _ _ => exact hshared _
  | drain _ hevent => exact hring.event hevent
  | daemon _ hevent => exact hring.event hevent
  | clientRead hs => exact hring.clientRead hs _

/-- The rings hold the end of what the PTYs have put out, in every run. -/
theorem reachable_ring (h : (system J).Reachable w) : Streams.RingInv w.streams := by
  induction h with
  | start hinit =>
    obtain ⟨listener, wakeup, now, rfl⟩ := hinit
    exact .start listener wakeup now
  | next _ _ hstep hring => exact (step_stepped hstep).ring hring

/-- A reply changes where the task of its connection stands, and nothing else. -/
theorem lookup_replyTo {connections : Table Nat WsConnection} {s : Streams} {cmd : WsCommand}
    {c : Nat} {conn' : WsConnection} (h : (replyTo connections s cmd).lookup c = some conn') :
    ∃ conn, connections.lookup c = some conn ∧
      conn'.attachedSession = conn.attachedSession ∧ conn'.eventRx = conn.eventRx ∧
      conn'.stream = conn.stream ∧
      (conn'.task = conn.task ∨ ∃ client request waiting response,
        cmd = .request client request c ∧ lastReply s.server = some response ∧
          conn.task = .waiting waiting ∧
          conn'.task = .answered waiting response
            (response.ready.elim 0 fun p => (s.out p.1).length)) := by
  unfold replyTo at h
  split at h
  · rename_i client request reply
    split at h
    · rename_i response conn hresponse hconn
      rw [Table.lookup_insert] at h
      split at h
      · rename_i hc
        subst hc
        cases h
        refine ⟨conn, hconn, ?_⟩
        unfold WsWorld.reply
        split
        · rename_i waiting htask
          exact ⟨rfl, rfl, rfl, .inr ⟨_, _, _, _, rfl, hresponse, htask, rfl⟩⟩
        · exact ⟨rfl, rfl, rfl, .inl rfl⟩
      · exact ⟨conn', h, rfl, rfl, rfl, .inl rfl⟩
    · exact ⟨conn', h, rfl, rfl, rfl, .inl rfl⟩
  · exact ⟨conn', h, rfl, rfl, rfl, .inl rfl⟩

/-- Nobody is added or removed. -/
theorem replyTo_lookup {connections : Table Nat WsConnection} (s : Streams) (cmd : WsCommand)
    {c : Nat} {conn : WsConnection} (h : connections.lookup c = some conn) :
    ∃ conn', (replyTo connections s cmd).lookup c = some conn' := by
  unfold replyTo
  split
  · split
    · rw [Table.lookup_insert]
      split
      · exact ⟨_, rfl⟩
      · exact ⟨conn, h⟩
    · exact ⟨conn, h⟩
  · exact ⟨conn, h⟩

end WsWorld

end PtyDaemon
