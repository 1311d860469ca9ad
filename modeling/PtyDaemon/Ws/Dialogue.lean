import PtyDaemon.Ws.Closing
import PtyDaemon.Ws.Stream

/-!
# What passes between a client and its task

The frames the task of a connection takes from its client and the messages it sends, step by step.
The task waits for one reply at a time, so a reply that comes is the one to the request it waits
with, and only an Attach gives access to a session.
-/

namespace PtyDaemon

/-- What passes between a client and the task of its connection. -/
inductive WsExchange
  | said (request : Request)
  | typed (data : List UInt8)
  | sent (message : WsMessage)
  /-- the task is out of its loop -/
  | left
  deriving DecidableEq

/-- The connection a request comes from. -/
def WsCommand.asker : WsCommand → Option Nat
  | .request _ _ c => some c
  | _ => none

/-- The session an `AttachReady` names. -/
def Response.granted (response : Response) : Option Uuid := response.ready.map Prod.fst

theorem Response.granted_attachReady (sid : Uuid) (cols rows : UInt16) (pid : Pid) (shm : String)
    (snapshot : Option AttachSnapshot) :
    (Response.attachReady sid cols rows pid shm snapshot).granted = some sid := by
  cases snapshot with
  | none => rfl
  | some snapshot => cases snapshot <;> rfl

theorem Response.attachReady_of_granted {response : Response} {sid : Uuid}
    (h : response.granted = some sid) :
    ∃ cols rows pid shm snapshot, response = .attachReady sid cols rows pid shm snapshot := by
  cases response with
  | attachReady i cols rows pid shm snapshot =>
    rw [granted_attachReady] at h
    cases h
    exact ⟨_, _, _, _, _, rfl⟩
  | _ => cases h

/-- The session to which an `AttachReady` that has come gives access. -/
def WsConnection.granted (conn : WsConnection) : Option Uuid :=
  match conn.task with
  | .answered _ response _ => response.ready.map Prod.fst
  | _ => none

theorem WsConnection.granted_eq_some {conn : WsConnection} {sid : Uuid} :
    conn.granted = some sid ↔
      ∃ request response n, conn.task = .answered request response n ∧
        response.granted = some sid := by
  rw [WsConnection.granted]
  split
  · rename_i request response n htask
    exact ⟨fun h => ⟨request, response, n, htask, h⟩, by
      rintro ⟨_, _, _, htask', h⟩
      cases htask.symm.trans htask'
      exact h⟩
  · rename_i hnot
    constructor
    · intro h
      cases h
    · rintro ⟨request, response, n, htask, _⟩
      exact absurd htask (hnot request response n)

theorem WsConnection.granted_none {conn : WsConnection}
    (h : ∀ request response n, conn.task ≠ .answered request response n) : conn.granted = none := by
  cases hgranted : conn.granted with
  | none => rfl
  | some sid =>
    obtain ⟨request, response, n, hanswered, _⟩ := granted_eq_some.mp hgranted
    exact absurd hanswered (h request response n)

/-- The task reads, or has an answer that gives no access. -/
def WsConnection.Idle (conn : WsConnection) : Prop :=
  conn.task = .reading ∨ ∃ request response n, conn.task = .answered request response n ∧
    response.granted = none

theorem WsConnection.Idle.inLoop {conn : WsConnection} (h : conn.Idle) :
    conn.task.inLoop = true := by
  rcases h with htask | ⟨_, _, _, htask, _⟩ <;> rw [htask] <;> rfl

/-- What the client sends in a step. -/
def WsStep.received : WsStep → List WsExchange
  | .text (.ok request) => [.said request]
  | .binary data => [.typed data]
  | _ => []

namespace WsConnection

/-- What passes in a step of the task, newest first. -/
def exchanges (conn conn' : WsConnection) (s : WsStep) : List WsExchange :=
  (if conn.task.inLoop && !conn'.task.inLoop then [.left] else []) ++
    (((conn'.sent.drop conn.sent.length).map WsExchange.sent).reverse ++ s.received)

/-- What a step of the task of `c` can do, with what passes in it. -/
inductive Exchanged (t : WsSharedState) (c : Nat) (conn : WsConnection) :
    WsSharedState → WsConnection → Option WsCommand → List WsExchange → Prop
  | plain {conn' : WsConnection} {responses : List Response} (hidle : conn.Idle)
      (htask : conn'.task = .reading) (hattached : conn'.attachedSession = conn.attachedSession)
      (hrx : conn'.eventRx = conn.eventRx)
      (hgranted : ∀ response ∈ responses, response.granted = none) :
      Exchanged t c conn t conn' none (responses.map fun response => .sent (.text response))
  | said {request : Request} (htask : conn.task = .reading)
      (hforeign : ∀ {sid cols rows snapshot}, request = .detach sid cols rows snapshot →
        conn.attachedSession ≠ some sid) :
      Exchanged t c conn t { conn with task := .forwarding request } none [.said request]
  | detached {conn' : WsConnection} {sid : Uuid} {cols rows : UInt16} {snapshot : Option String}
      (htask : conn.task = .reading) (hsession : conn.attachedSession = some sid)
      (htask' : conn'.task = .forwarding (.detach sid cols rows snapshot))
      (hattached : conn'.attachedSession = none) (hrx : conn'.eventRx = none) :
      Exchanged t c conn (t.unsubscribe sid c) conn' none [.said (.detach sid cols rows snapshot)]
  | typed {data : List UInt8} (htask : conn.task = .reading) :
      Exchanged t c conn t conn
        ((if conn.eventRx.isSome then conn.attachedSession else none).map (.input · data))
        [.typed data]
  | forwarded {request : Request} (htask : conn.task = .forwarding request) :
      Exchanged t c conn t { conn with task := .waiting request } (some (.request c request c)) []
  | subscribed {conn' : WsConnection} {request : Request} {response : Response} {dumpedAt : Nat}
      {sid : Uuid} (htask : conn.task = .answered request response dumpedAt)
      (hgranted : response.granted = some sid) (htask' : conn'.task = .reading)
      (hattached : conn'.attachedSession = some sid) (hrx : conn'.eventRx = some ⟨t.channels, 0⟩) :
      Exchanged t c conn (t.subscribe sid c).2 conn' none [.sent (.text response)]
  | delivered {conn' : WsConnection} {rx : WsReceiver} {data : List UInt8}
      (htask : conn.task = .reading) (hrx : conn.eventRx = some rx)
      (hevent : (t.eventsOf rx.tx)[rx.read]? = some (.ptyOutput data))
      (htask' : conn'.task = .reading) (hattached : conn'.attachedSession = conn.attachedSession)
      (hrx' : conn'.eventRx = some { rx with read := rx.read + 1 }) :
      Exchanged t c conn t conn' none [.sent (.binary data)]
  | ended {conn' : WsConnection} {rx : WsReceiver} {sid : Uuid} (htask : conn.task = .reading)
      (hrx : conn.eventRx = some rx)
      (hevent : (t.eventsOf rx.tx)[rx.read]? = some .sessionEnded)
      (hsession : conn.attachedSession = some sid) (htask' : conn'.task = .reading)
      (hattached : conn'.attachedSession = none) (hrx' : conn'.eventRx = none) :
      Exchanged t c conn (t.unsubscribe sid c) conn' none [.sent (.sessionEnded sid)]
  | left {conn' : WsConnection} {responses : List Response} (hidle : conn.Idle)
      (htask : conn'.task = .leaving) (hattached : conn'.attachedSession = none)
      (hrx : conn'.eventRx = none) :
      Exchanged t c conn (conn.attachedSession.elim t fun sid => t.unsubscribe sid c) conn' none
        (.left :: responses.map fun response => .sent (.text response))
  | reported (htask : conn.task = .leaving) :
      Exchanged t c conn t { conn with task := .gone } (some (.disconnected c)) []

variable {t : WsSharedState} {c : Nat} {out : Uuid → Nat} {conn : WsConnection}

/-- A task changes the table by at most one subscription, which it has been granted. -/
theorem Exchanged.shared {t' : WsSharedState} {conn' : WsConnection} {cmd : Option WsCommand}
    {es : List WsExchange} (h : conn.Exchanged t c t' conn' cmd es) :
    t' = t ∨ (∃ sid, t' = t.unsubscribe sid c) ∨
      ∃ sid, conn.granted = some sid ∧ t' = (t.subscribe sid c).2 := by
  cases h with
  | detached _ _ _ _ _ => exact .inr (.inl ⟨_, rfl⟩)
  | subscribed htask hgranted _ _ _ =>
    exact .inr (.inr ⟨_, granted_eq_some.mpr ⟨_, _, _, htask, hgranted⟩, rfl⟩)
  | ended _ _ _ _ _ _ _ => exact .inr (.inl ⟨_, rfl⟩)
  | left _ _ _ _ =>
    cases conn.attachedSession with
    | none => exact .inl rfl
    | some sid => exact .inr (.inl ⟨sid, rfl⟩)
  | _ => exact .inl rfl

/-- A step of a task leaves no answer with it. -/
theorem Exchanged.granted {t' : WsSharedState} {conn' : WsConnection} {cmd : Option WsCommand}
    {es : List WsExchange} (h : conn.Exchanged t c t' conn' cmd es) : conn'.granted = none := by
  apply granted_none
  intro request response n hanswered
  cases h with
  | plain _ htask _ _ _ => cases htask.symm.trans hanswered
  | said _ _ => cases hanswered
  | detached _ _ htask _ _ => cases htask.symm.trans hanswered
  | typed htask => cases htask.symm.trans hanswered
  | forwarded _ => cases hanswered
  | subscribed _ _ htask _ _ => cases htask.symm.trans hanswered
  | delivered _ _ _ htask _ _ => cases htask.symm.trans hanswered
  | ended _ _ _ _ htask _ _ => cases htask.symm.trans hanswered
  | left _ htask _ _ => cases htask.symm.trans hanswered
  | reported _ => cases hanswered

/-- The table stays well formed. -/
theorem Exchanged.wf {t' : WsSharedState} {conn' : WsConnection} {cmd : Option WsCommand}
    {es : List WsExchange} (h : conn.Exchanged t c t' conn' cmd es) (ht : t.Wf) : t'.Wf := by
  rcases h.shared with rfl | ⟨sid, rfl⟩ | ⟨sid, _, rfl⟩
  · exact ht
  · exact ht.unsubscribe sid c
  · exact ht.subscribe sid c

/-- A task that waits for a reply takes no step. -/
theorem step_waiting {request : Request} (h : conn.task = .waiting request) (s : WsStep) :
    conn.step t c out s = none := by
  cases s with
  | text result => cases result <;> simp [step, h]
  | _ => simp [step, h]

private theorem exchanges_same {conn' : WsConnection} (s : WsStep) (messages : List WsMessage)
    (hloop : conn'.task.inLoop = true) (hsent : conn'.sent = conn.sent ++ messages) :
    conn.exchanges conn' s = (messages.map WsExchange.sent).reverse ++ s.received := by
  rw [exchanges, hloop, Bool.not_true, Bool.and_false, if_neg Bool.false_ne_true, hsent,
    List.drop_left, List.nil_append]

private theorem leave_exchanged {conn' : WsConnection} {s : WsStep} (responses : List Response)
    (hidle : conn.Idle) (hattached : conn'.attachedSession = conn.attachedSession)
    (hsent : conn'.sent = conn.sent ++ responses.map WsMessage.text) (hs : s.received = []) :
    Exchanged t c conn (conn'.leave t c).1 (conn'.leave t c).2 none
      (conn.exchanges (conn'.leave t c).2 s) := by
  have hsame : (conn'.leave t c).2.sent = conn'.sent := rfl
  have hlog : conn.exchanges (conn'.leave t c).2 s =
      .left :: responses.reverse.map fun response => .sent (.text response) := by
    rw [exchanges, hidle.inLoop, hsame, hsent, List.drop_left, hs, List.append_nil, List.map_map,
      List.map_reverse]
    rfl
  rw [leave_table, hattached, hlog]
  exact .left hidle rfl rfl rfl

private theorem say_exchanged (s : WsStep) (conn' : WsConnection) {response : Response}
    (hidle : conn.Idle) (htask : conn'.task = .reading)
    (hattached : conn'.attachedSession = conn.attachedSession) (hrx : conn'.eventRx = conn.eventRx)
    (hsent : conn'.sent = conn.sent ++ [.text response]) (hs : s.received = [])
    (hgranted : response.granted = none) :
    Exchanged t c conn t conn' none (conn.exchanges conn' s) := by
  have hlog : conn.exchanges conn' s = [response].map fun response => .sent (.text response) := by
    rw [exchanges_same s _ (by rw [htask]; rfl) hsent, hs]
    rfl
  rw [hlog]
  apply Exchanged.plain hidle htask hattached hrx
  intro response' hmem
  rw [List.mem_singleton.mp hmem]
  exact hgranted

private theorem text_exchanged (htask : conn.task = .reading) (request : Request) :
    Exchanged t c conn (conn.detachFirst t c request).1
      { (conn.detachFirst t c request).2 with task := .forwarding request } none
      (conn.exchanges { (conn.detachFirst t c request).2 with task := .forwarding request }
        (.text (.ok request))) := by
  have hlog : ∀ conn' : WsConnection, conn'.task = .forwarding request →
      conn'.sent = conn.sent → conn.exchanges conn' (.text (.ok request)) = [.said request] := by
    intro conn' htask' hsent
    have hnone : conn'.sent = conn.sent ++ [] := hsent.trans (List.append_nil _).symm
    exact exchanges_same _ [] (by rw [htask']; rfl) hnone
  have hsaid : (∀ {sid cols rows snapshot}, request = .detach sid cols rows snapshot →
      conn.attachedSession ≠ some sid) →
      Exchanged t c conn t { conn with task := .forwarding request } none
        (conn.exchanges { conn with task := .forwarding request } (.text (.ok request))) := by
    intro hforeign
    rw [hlog { conn with task := .forwarding request } rfl rfl]
    exact .said htask hforeign
  cases request with
  | detach sid cols rows snapshot =>
    rw [detachFirst]
    split
    · rename_i hsession
      rw [hlog { conn with
        task := .forwarding (.detach sid cols rows snapshot), attachedSession := none
        eventRx := none, stream := none } rfl rfl]
      exact .detached htask hsession rfl rfl rfl
    · rename_i hforeign
      apply hsaid
      rintro _ _ _ _ ⟨⟩
      exact hforeign
  | _ =>
    apply hsaid
    rintro _ _ _ _ ⟨⟩

private theorem finish_exchanged {request : Request} {response : Response} {dumpedAt : Nat}
    (htask : conn.task = .answered request response dumpedAt)
    (hattach : ∀ {sid}, response.granted = some sid → request.isAttach = true) :
    Exchanged t c conn (conn.setUp t c out request response dumpedAt).1
      { (conn.setUp t c out request response dumpedAt).2.say (.text response) with
        task := .reading } none
      (conn.exchanges { (conn.setUp t c out request response dumpedAt).2.say (.text response) with
        task := .reading } .finish) := by
  have hgranted : ∀ {sid history}, response.ready = some (sid, history) →
      response.granted = some sid := by
    intro sid history hready
    rw [Response.granted, hready, Option.map_some]
  rw [setUp]
  split
  · rename_i sid history _ hready
    have hlog : ∀ conn' : WsConnection, conn'.task = .reading →
        conn'.sent = conn.sent ++ [.text response] →
        conn.exchanges conn' .finish = [.sent (.text response)] := fun conn' htask' hsent =>
      exchanges_same .finish _ (by rw [htask']; rfl) hsent
    rw [hlog _ rfl rfl]
    exact .subscribed htask (hgranted hready) rfl rfl rfl
  · rename_i hnot
    have hnone : response.granted = none := by
      cases hready : response.ready with
      | none => rw [Response.granted, hready, Option.map_none]
      | some p => exact absurd hready (hnot p.1 p.2 (hattach (hgranted hready)))
    exact say_exchanged .finish { conn.say (.text response) with task := .reading }
      (.inr ⟨_, _, _, htask, hnone⟩) rfl rfl rfl rfl rfl hnone

private theorem recv_exchanged {rx : WsReceiver} (htask : conn.task = .reading)
    (hrx : conn.eventRx = some rx) (written : Bool) :
    Exchanged t c conn (conn.handleEvent t c rx written (t.eventsOf rx.tx)[rx.read]?).1
      (conn.handleEvent t c rx written (t.eventsOf rx.tx)[rx.read]?).2 none
      (conn.exchanges (conn.handleEvent t c rx written (t.eventsOf rx.tx)[rx.read]?).2
        (.recv written)) := by
  have hidle : conn.Idle := .inl htask
  have hleave : Exchanged t c conn (conn.leave t c).1 (conn.leave t c).2 none
      (conn.exchanges (conn.leave t c).2 (.recv written)) :=
    leave_exchanged [] hidle rfl (List.append_nil _).symm rfl
  have hlog : ∀ (conn' : WsConnection) (messages : List WsMessage), conn'.task = .reading →
      conn'.sent = conn.sent ++ messages →
      conn.exchanges conn' (.recv written) = (messages.map WsExchange.sent).reverse := by
    intro conn' messages htask' hsent
    rw [exchanges_same (.recv written) _ (by rw [htask']; rfl) hsent]
    exact List.append_nil _
  cases hevent : (t.eventsOf rx.tx)[rx.read]? with
  | none => exact hleave
  | some event =>
    cases event with
    | ptyOutput data =>
      rw [handleEvent]
      split
      · rw [hlog (conn.deliver rx data) [.binary data] htask rfl]
        exact .delivered htask hrx hevent htask rfl rfl
      · exact hleave
    | sessionEnded =>
      rw [handleEvent]
      cases hsession : conn.attachedSession with
      | none =>
        rw [hlog conn [] htask (List.append_nil _).symm]
        have hquiet : ∀ response ∈ ([] : List Response), response.granted = none := by
          intro _ hmem
          cases hmem
        exact .plain hidle htask rfl rfl hquiet
      | some sid =>
        rw [hlog { conn.say (.sessionEnded sid) with attachedSession := none, eventRx := none }
          [.sessionEnded sid] htask rfl]
        exact .ended htask hrx hevent hsession htask rfl rfl

private theorem Branch.exchanged {s : WsStep} {p : WsSharedState × WsConnection}
    {cmd : Option WsCommand} (h : Branch t c out conn s p cmd)
    (hattach : ∀ {request response n sid}, conn.task = .answered request response n →
      response.granted = some sid → request.isAttach = true) :
    Exchanged t c conn p.1 p.2 cmd (conn.exchanges p.2 s) := by
  cases h with
  | unparsed htask => exact say_exchanged _ _ (.inl htask) htask rfl rfl rfl rfl rfl
  | said htask => exact text_exchanged htask _
  | @typed data htask =>
    have hlog : conn.exchanges conn (.binary data) = [.typed data] :=
      exchanges_same _ [] (by rw [htask]; rfl) (List.append_nil conn.sent).symm
    rw [hlog]
    exact .typed htask
  | @forwarded request htask =>
    have hlog : conn.exchanges { conn with task := .waiting request } .forward = [] :=
      exchanges_same .forward [] rfl (List.append_nil conn.sent).symm
    rw [hlog]
    exact .forwarded htask
  | @shutdown response _ htask =>
    have hnone : response.granted = none := by
      cases hgranted : response.granted with
      | none => rfl
      | some sid => cases hattach htask hgranted
    exact leave_exchanged [response] (.inr ⟨_, _, _, htask, hnone⟩) rfl rfl rfl
  | finished htask => exact finish_exchanged htask fun hgranted => hattach htask hgranted
  | received htask hrx => exact recv_exchanged htask hrx _
  | closed htask => exact leave_exchanged [] (.inl htask) rfl (List.append_nil _).symm rfl
  | reported htask =>
    have hlog : conn.exchanges { conn with task := .gone } .report = [] := by
      rw [exchanges, htask, List.drop_length]
      rfl
    rw [hlog]
    exact .reported htask

private theorem step_exchanged {s : WsStep} {t' : WsSharedState} {conn' : WsConnection}
    {cmd : Option WsCommand} (h : conn.step t c out s = some ((t', conn'), cmd))
    (hattach : ∀ {request response n sid}, conn.task = .answered request response n →
      response.granted = some sid → request.isAttach = true) :
    Exchanged t c conn t' conn' cmd (conn.exchanges conn' s) :=
  (step_branch h).exchanged hattach

end WsConnection

namespace Server

variable {J : Codec} {env : Env} {σ σ' : Server}

private theorem handleWsAttach_granted {id sid : Uuid} {p : Server × Response}
    (h : σ.handleWsAttach J env id = .ok p) (hgranted : p.2.granted = some sid) : sid = id := by
  cases handleWsAttach_cases h with
  | missing hs h =>
    rw [h] at hgranted
    cases hgranted
  | dead hs hdead h =>
    rw [h] at hgranted
    cases hgranted
  | joined hs halive hdump h =>
    rw [h, Response.granted_attachReady] at hgranted
    exact (Option.some.inj hgranted).symm

/-- The daemon keeps the table well formed. -/
theorem event_wf {e : Event} (hinv : Inv σ) (harrive : σ.arrive e = σ) (h : σ.event J e = .ok σ')
    (hwf : σ.wsShared.Wf) : σ'.wsShared.Wf := by
  rcases event_shared hinv h with ⟨⟨ended, htold⟩, _⟩ | ⟨id, bytes, _, hread⟩
  · rw [htold.shared, harrive]
    exact hwf.told ended
  · cases hread
    exact hwf.broadcast id bytes

/-- Only an Attach gives access, and to the session it names. -/
theorem handleWsCommand_granted {client reply : Nat} {request : Request} {response : Response}
    {sid : Uuid} (h : σ.handleWsCommand J env (.request client request reply) = .ok σ')
    (hreply : WsWorld.lastReply σ' = some response) (hgranted : response.granted = some sid) :
    request = .attach sid := by
  obtain ⟨p, hp, rfl⟩ := ok_of_map h
  cases hreply
  cases request with
  | attach id => rw [handleWsAttach_granted hp hgranted]
  | detach id cols rows snapshot =>
    cases hp
    rw [Response.granted, handleWsDetach_ready J env σ id] at hgranted
    cases hgranted
  | _ =>
    obtain ⟨_, _, _, _, _, hp2⟩ := Response.attachReady_of_granted hgranted
    obtain ⟨_, hrequest⟩ := handleRequest_attachReady hp hp2
    cases hrequest

/-- Every request is replied to. -/
theorem event_replied {shared : WsSharedState} {client reply : Nat} {request : Request}
    (h : σ.event J (.command shared (.request client request reply) env) = .ok σ') :
    ∃ response, WsWorld.lastReply σ' = some response := by
  have h := event_command h
  obtain ⟨p, _, rfl⟩ := ok_of_map h
  exact ⟨p.2, rfl⟩

/-- A reply that gives access comes from the handler of Attach. -/
theorem event_granted {shared : WsSharedState} {client reply : Nat} {request : Request}
    {response : Response} {sid : Uuid}
    (h : σ.event J (.command shared (.request client request reply) env) = .ok σ')
    (hreply : WsWorld.lastReply σ' = some response) (hgranted : response.granted = some sid) :
    request = .attach sid ∧ ∃ p,
      { σ with wsShared := shared }.handleWsAttach J env sid = .ok p ∧ p.2.granted = some sid ∧
        σ' = p.1.emit (.replied reply p.2) := by
  have h := event_command h
  cases handleWsCommand_granted h hreply hgranted
  obtain ⟨p, hp, rfl⟩ := ok_of_map h
  cases hreply
  exact ⟨rfl, p, hp, hgranted, rfl⟩

end Server

namespace WsWorld

variable {J : Codec} {w w' : WsWorld} {l : Label}

/-- A request in the queue is the one its task waits with, and the only one of it. -/
structure Dialogue (w : WsWorld) : Prop where
  asked : ∀ {i request c}, .request i request c ∈ w.queue →
    i = c ∧ ∃ conn, w.connections.lookup c = some conn ∧ conn.task = .waiting request
  once : (w.queue.filterMap WsCommand.asker).Nodup
  granted : ∀ {c conn request response n sid}, w.connections.lookup c = some conn →
    conn.task = .answered request response n → response.granted = some sid →
      request = .attach sid

private theorem mem_askers {queue : List WsCommand} {c : Nat} :
    c ∈ queue.filterMap WsCommand.asker ↔ ∃ i request, .request i request c ∈ queue := by
  rw [List.mem_filterMap]
  constructor
  · rintro ⟨cmd, hmem, hasker⟩
    cases cmd with
    | request i request c' =>
      cases hasker
      exact ⟨i, request, hmem⟩
    | _ => cases hasker
  · rintro ⟨i, request, hmem⟩
    exact ⟨_, hmem, rfl⟩

/-- A task with a request in the queue waits. -/
theorem Dialogue.waits (h : Dialogue w) {c : Nat} (hc : c ∈ w.queue.filterMap WsCommand.asker)
    {conn : WsConnection} (hconn : w.connections.lookup c = some conn) :
    ∃ request, conn.task = .waiting request := by
  obtain ⟨i, request, hmem⟩ := mem_askers.mp hc
  obtain ⟨_, conn', hconn', hwaiting⟩ := h.asked hmem
  cases hconn.symm.trans hconn'
  exact ⟨request, hwaiting⟩

/-- A reply that gives access is the one to an Attach. -/
theorem Dialogue.attaching (h : Dialogue w) {c : Nat} {conn : WsConnection}
    (hconn : w.connections.lookup c = some conn) {request : Request} {response : Response}
    {n : Nat} {sid : Uuid} (htask : conn.task = .answered request response n)
    (hgranted : response.granted = some sid) : request.isAttach = true := by
  rw [h.granted hconn htask hgranted]
  rfl

/-- A step of a task with what passes in it. -/
theorem Dialogue.exchanged (h : Dialogue w) {c : Nat} {s : WsStep}
    (hstep : step J w (.task c s) = some w') :
    ∃ conn t conn' cmd, w.connections.lookup c = some conn ∧
      conn.step w.shared c (fun id => (w.streams.out id).length) s = some ((t, conn'), cmd) ∧
      (∀ request, conn.task ≠ .waiting request) ∧
      conn.Exchanged w.shared c t conn' cmd (conn.exchanges conn' s) ∧
      w' = { w.withShared t with
        connections := w.connections.insert c conn'
        queue := w.queue ++ cmd.toList } := by
  obtain ⟨conn, t, conn', cmd, hconn, hp, rfl⟩ := step_task hstep
  refine ⟨conn, t, conn', cmd, hconn, hp, ?_, ?_, rfl⟩
  · intro request hwaiting
    cases hp.symm.trans (WsConnection.step_waiting hwaiting s)
  · exact WsConnection.step_exchanged hp fun htask hgranted => h.attaching hconn htask hgranted

private theorem Dialogue.task (h : Dialogue w) {c : Nat} {conn conn' : WsConnection}
    {t : WsSharedState} {cmd : Option WsCommand} {es : List WsExchange}
    (hconn : w.connections.lookup c = some conn) (hwait : ∀ request, conn.task ≠ .waiting request)
    (hex : conn.Exchanged w.shared c t conn' cmd es) :
    Dialogue { w.withShared t with
      connections := w.connections.insert c conn'
      queue := w.queue ++ cmd.toList } := by
  have hlookup := Table.lookup_insert w.connections c
  have hnew : ∀ {i request c'}, cmd = some (.request i request c') →
      i = c ∧ c' = c ∧ conn'.task = .waiting request := by
    intro i request c' hcmd
    cases hex with
    | forwarded htask =>
      cases hcmd
      exact ⟨rfl, rfl, rfl⟩
    | typed htask =>
      obtain ⟨sid, _, hinput⟩ := Option.map_eq_some_iff.mp hcmd
      cases hinput
    | _ => cases hcmd
  have hother : ∀ {c'}, c' ∈ w.queue.filterMap WsCommand.asker → c' ≠ c := by
    rintro c' hmem rfl
    obtain ⟨request, hwaiting⟩ := h.waits hmem hconn
    exact hwait request hwaiting
  constructor
  case asked =>
    intro i request c' hmem
    rcases List.mem_append.mp hmem with hold | hsent
    · obtain ⟨hi, conn₁, hconn₁, hwaiting⟩ := h.asked hold
      have hne := hother (mem_askers.mpr ⟨i, request, hold⟩)
      exact ⟨hi, conn₁, (hlookup c' conn').trans ((if_neg hne).trans hconn₁), hwaiting⟩
    · obtain ⟨rfl, rfl, hwaiting⟩ := hnew (Option.mem_toList.mp hsent)
      exact ⟨rfl, conn', (hlookup _ conn').trans (if_pos rfl), hwaiting⟩
  case once =>
    rw [List.filterMap_append, List.nodup_append]
    refine ⟨h.once, ?_, ?_⟩
    · cases cmd with
      | none => exact List.nodup_nil
      | some cmd =>
        cases cmd with
        | request _ _ c' => exact List.nodup_singleton c'
        | _ => exact List.nodup_nil
    · rintro i hi j hj rfl
      obtain ⟨_, request, hmem⟩ := mem_askers.mp hj
      exact hother hi (hnew (Option.mem_toList.mp hmem)).2.1
  case granted =>
    intro c' conn₁ request response n sid hconn₁ htask₁ hgranted
    rw [hlookup] at hconn₁
    split at hconn₁
    · cases hconn₁
      cases hex with
      | plain _ htask _ _ _ => cases htask.symm.trans htask₁
      | said _ _ => cases htask₁
      | detached _ _ htask _ _ => cases htask.symm.trans htask₁
      | typed htask => cases htask.symm.trans htask₁
      | forwarded _ => cases htask₁
      | subscribed _ _ htask _ _ => cases htask.symm.trans htask₁
      | delivered _ _ _ htask _ _ => cases htask.symm.trans htask₁
      | ended _ _ _ _ htask _ _ => cases htask.symm.trans htask₁
      | left _ htask _ _ => cases htask.symm.trans htask₁
      | reported _ => cases htask₁
    · exact h.granted hconn₁ htask₁ hgranted

/-- A reply goes to the task that has asked. -/
theorem replyTo_other {connections : Table Nat WsConnection} {s : Streams} {cmd : WsCommand}
    {c : Nat} (h : cmd.asker ≠ some c) :
    (replyTo connections s cmd).lookup c = connections.lookup c := by
  unfold replyTo
  split
  · rename_i c'
    split
    · rw [Table.lookup_insert, if_neg fun hc => h (congrArg some hc.symm)]
    · rfl
  · rfl

private theorem Dialogue.drain (h : Dialogue w) {cmd : WsCommand} {queue : List WsCommand}
    {env : Env} {σ' : Server} (hqueue : w.queue = cmd :: queue)
    (hevent : w.server.event J (.command w.shared cmd env) = .ok σ') :
    Dialogue { w with
      streams := w.streams.advance σ'
      connections := replyTo w.connections (w.streams.advance σ') cmd
      queue := queue } := by
  have honce := h.once
  rw [hqueue, List.filterMap_cons] at honce
  constructor
  case asked =>
    intro i request c hmem
    obtain ⟨hi, conn, hconn, hwaiting⟩ := h.asked (hqueue ▸ List.mem_cons_of_mem cmd hmem)
    have hne : cmd.asker ≠ some c := by
      intro hasker
      rw [hasker] at honce
      exact (List.nodup_cons.mp honce).1 (mem_askers.mpr ⟨i, request, hmem⟩)
    exact ⟨hi, conn, (replyTo_other hne).trans hconn, hwaiting⟩
  case once =>
    cases hasker : cmd.asker with
    | none =>
      rw [hasker] at honce
      exact honce
    | some c =>
      rw [hasker] at honce
      exact (List.nodup_cons.mp honce).2
  case granted =>
    intro c conn' request response n sid hconn' htask' hgranted
    obtain ⟨conn, hconn, _, _, _, htask⟩ := lookup_replyTo hconn'
    rcases htask with hsame | ⟨client, asked, waiting, answer, rfl, hreply, hwaiting, hanswered⟩
    · exact h.granted hconn (hsame.symm.trans htask') hgranted
    · obtain ⟨_, conn₀, hconn₀, hasked⟩ := h.asked (hqueue ▸ List.mem_cons_self)
      cases hconn.symm.trans hconn₀
      cases hwaiting.symm.trans hasked
      cases hanswered.symm.trans htask'
      exact (Server.event_granted hevent hreply hgranted).1

theorem Dialogue.step (h : Dialogue w) (htable : TableInv w)
    (hstep : WsWorld.step J w l = some w') : Dialogue w' := by
  cases l with
  | accept =>
    cases hstep
    constructor
    case asked =>
      intro i request c hmem
      obtain ⟨hi, conn, hconn, hwaiting⟩ := h.asked hmem
      exact ⟨hi, conn, htable.accepted hconn, hwaiting⟩
    case once => exact h.once
    case granted =>
      intro c conn request response n sid hconn htask hgranted
      rcases lookup_accept hconn with ⟨_, rfl⟩ | hconn
      · cases htask
      · exact h.granted hconn htask hgranted
  | task c s =>
    obtain ⟨conn, t, conn', cmd, hconn, _, hwait, hex, rfl⟩ := h.exchanged hstep
    exact h.task hconn hwait hex
  | drain env =>
    obtain ⟨cmd, queue, σ', hqueue, hevent, rfl⟩ := step_drain hstep
    exact h.drain hqueue hevent
  | daemon e =>
    obtain ⟨σ', _, _, rfl⟩ := step_daemon hstep
    exact ⟨h.asked, h.once, h.granted⟩
  | clientRead id data =>
    obtain ⟨s, _, rfl⟩ := step_clientRead hstep
    exact ⟨h.asked, h.once, h.granted⟩

end WsWorld

namespace Closing

variable {J : Codec} {x : Closing}

theorem reachable_dialogue (h : (system J).Reachable x) : x.world.Dialogue := by
  apply h.invariant_with (fun _ => reachable_table)
  · rintro x ⟨⟨listener, wakeup, now, hnew⟩, _⟩
    rw [hnew]
    exact ⟨fun h => (nomatch h), List.nodup_nil, fun h => (nomatch h)⟩
  · rintro x l x' htable hdialogue _ hstep
    cases l with
    | close env =>
      obtain ⟨_, _, hworld⟩ := step_close (J := J) hstep
      rw [hworld]
      exact ⟨hdialogue.asked, hdialogue.once, hdialogue.granted⟩
    | world l => exact hdialogue.step htable (step_world hstep).1

/-- The table stays well formed. -/
theorem reachable_wf (h : (system J).Reachable x) : x.world.shared.Wf := by
  apply h.invariant_with (Q := fun x => x.world.Dialogue ∧
    (x.closed = false → Server.Inv x.world.server))
  · exact fun x hreach => ⟨reachable_dialogue hreach, reachable_inv hreach⟩
  · rintro x ⟨⟨listener, wakeup, now, hnew⟩, _⟩
    rw [hnew]
    exact WsSharedState.new_wf
  · rintro x l x' ⟨hdialogue, hinv⟩ hwf _ hstep
    cases l with
    | close env =>
      obtain ⟨_, _, hworld⟩ := step_close (J := J) hstep
      have hshared : (x.world.cleanup env).shared = _ := Server.cleanup_wsShared env _
      rw [hworld, hshared]
      exact hwf.told x.world.shared.subscribers.keys
    | world l =>
      obtain ⟨hw, _, hopen⟩ := step_world hstep
      cases l with
      | accept =>
        rw [← Option.some.inj hw]
        exact ⟨hwf.made, hwf.session, hwf.nodup, hwf.sent⟩
      | task c s =>
        obtain ⟨conn, t, conn', cmd, hconn, _, _, hex, hworld⟩ := hdialogue.exchanged hw
        rw [hworld]
        exact hex.wf hwf
      | drain env =>
        obtain ⟨cmd, queue, σ', _, hevent, hworld⟩ := WsWorld.step_drain hw
        rw [hworld]
        exact Server.event_wf (hinv (hopen rfl)) rfl hevent hwf
      | daemon e =>
        obtain ⟨σ', harrive, hevent, hworld⟩ := WsWorld.step_daemon hw
        rw [hworld]
        exact Server.event_wf (hinv (hopen rfl)) harrive hevent hwf
      | clientRead id data =>
        obtain ⟨s, _, hworld⟩ := WsWorld.step_clientRead hw
        rw [hworld]
        exact hwf

end Closing

end PtyDaemon
