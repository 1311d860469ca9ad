import PtyDaemon.Server.Delivery
import PtyDaemon.Ws.History

/-!
# Every client sees its own session only

What a client gets through its channel has been read from the session it was last given access to,
and what it types goes to that session. Subscriptions left behind by an Attach without a Detach feed
channels nobody takes from.
-/

namespace PtyDaemon

open WsSharedState

/-- The session of the last `AttachReady`, unless a Detach of it or a `SessionEnded` has come
since. -/
def currentSession : List WsExchange → Option Uuid
  | [] => none
  | .said (.detach sid _ _ _) :: es =>
    if currentSession es = some sid then none else currentSession es
  | .sent (.text response) :: es => response.granted.or (currentSession es)
  | .sent (.sessionEnded _) :: _ => none
  | _ :: es => currentSession es

/-- Other texts change nothing. -/
theorem currentSession_texts {responses : List Response}
    (h : ∀ response ∈ responses, response.granted = none) (es : List WsExchange) :
    currentSession ((responses.map fun response => .sent (.text response)) ++ es) =
      currentSession es := by
  induction responses with
  | nil => rfl
  | cons response responses ih =>
    rw [List.map_cons, List.cons_append, currentSession, h response List.mem_cons_self,
      Option.none_or]
    exact ih fun response hmem => h response (List.mem_cons_of_mem _ hmem)

/-- Nor does what is said without being a Detach of the session. -/
theorem currentSession_said {request : Request} {es : List WsExchange}
    (h : ∀ {sid cols rows snapshot}, request = .detach sid cols rows snapshot →
      currentSession es ≠ some sid) : currentSession (.said request :: es) = currentSession es := by
  cases request with
  | detach sid cols rows snapshot => exact if_neg (h rfl)
  | _ => rfl

/-- The binary frames of all clients, each with the session it is for, newest first. -/
def typedInputs : List Moment → List (Uuid × List UInt8)
  | [] => []
  | .client c (.typed data) :: log =>
    ((currentSession (transcript c log)).map (·, data)).toList ++ typedInputs log
  | _ :: log => typedInputs log

def WsCommand.toInput : WsCommand → Option (Uuid × List UInt8)
  | .input sid data => some (sid, data)
  | _ => none

def Moment.toInput : Moment → Option (Uuid × List UInt8)
  | .handled cmd _ => cmd.toInput
  | .client _ _ => none

/-- A channel whose output is that of one session. -/
structure Carries (t : WsSharedState) (trace : List Act) (sid : Uuid) (tx : Nat) : Prop where
  made : tx < t.channels
  only : ∀ {id sub}, sub ∈ t.subscribersOf id → sub.tx = tx → id = sid
  read : ∀ {data}, .ptyOutput data ∈ t.eventsOf tx → .ptyRead sid data ∈ trace

namespace Carries

variable {t : WsSharedState} {trace trace' : List Act} {sid : Uuid} {tx : Nat}

private theorem start (ht : t.Wf) (trace : List Act) (sid : Uuid) (c : Nat) :
    Carries (t.subscribe sid c).2 trace sid t.channels := by
  constructor
  case made => exact Nat.lt_succ_self _
  case only =>
    intro id sub hsub htx
    rcases mem_subscribe hsub with hold | ⟨hid, _⟩
    · exact absurd (ht.made hold) (htx ▸ Nat.lt_irrefl _)
    · exact hid
  case read =>
    intro data hmem
    have hnone : (t.subscribe sid c).2.eventsOf t.channels = [] := eventsOf_fresh ht (le_refl _)
    rw [hnone] at hmem
    cases hmem

private theorem subscribe (h : Carries t trace sid tx) (id : Uuid) (c : Nat) :
    Carries (t.subscribe id c).2 trace sid tx := by
  refine ⟨Nat.lt_succ_of_lt h.made, fun hsub htx => ?_, h.read⟩
  rcases mem_subscribe hsub with hold | ⟨_, rfl⟩
  · exact h.only hold htx
  · exact absurd h.made (htx ▸ Nat.lt_irrefl _)

private theorem unsubscribe (h : Carries t trace sid tx) (id : Uuid) (c : Nat) :
    Carries (t.unsubscribe id c) trace sid tx :=
  ⟨h.made, fun hsub htx => h.only (mem_unsubscribe hsub) htx, h.read⟩

private theorem grow (h : Carries t trace sid tx) (htrace : trace <:+ trace') :
    Carries t trace' sid tx :=
  ⟨h.made, h.only, fun hmem => htrace.subset (h.read hmem)⟩

private theorem notify (h : Carries t trace sid tx) (ht : t.Wf) (id : Uuid) :
    Carries (t.notifySessionEnded id) trace sid tx := by
  refine ⟨h.made, fun hsub htx => h.only (mem_notify hsub).2 htx, fun {data} hmem => ?_⟩
  rw [eventsOf_notify ht] at hmem
  rcases List.mem_append.mp hmem with hold | hended
  · exact h.read hold
  · split at hended
    · cases List.mem_singleton.mp hended
    · cases hended

private theorem told (ended : List Uuid) (h : Carries t trace sid tx) (ht : t.Wf) :
    Carries (ended.foldl notifySessionEnded t) trace sid tx := by
  induction ended generalizing t with
  | nil => exact h
  | cons id ended ih => exact ih (h.notify ht id) (ht.notify id)

/-- The daemon sends what it has read to the subscribers of the session only. -/
theorem broadcast (h : Carries t trace sid tx) (ht : t.Wf) (id : Uuid) (bytes : List UInt8) :
    Carries (t.broadcast id bytes) (.ptyRead id bytes :: trace) sid tx := by
  refine ⟨h.made, h.only, fun {data} hmem => ?_⟩
  rw [eventsOf_broadcast ht] at hmem
  rcases List.mem_append.mp hmem with hold | hsent
  · exact List.mem_cons_of_mem _ (h.read hold)
  · split at hsent
    · rename_i htx
      obtain ⟨sub, hsub, hsame⟩ := List.mem_map.mp htx
      cases List.mem_singleton.mp hsent
      rw [h.only hsub hsame]
      exact List.mem_cons_self
    · cases hsent

end Carries

/-- The task of a connection and its channel follow what has passed between client and task. -/
structure Private (t : WsSharedState) (trace : List Act) (es : List WsExchange)
    (conn : WsConnection) : Prop where
  current : conn.task.inLoop = true → conn.attachedSession = currentSession es
  receiving : conn.eventRx.isSome = conn.attachedSession.isSome
  carries : ∀ {rx sid}, conn.eventRx = some rx → conn.attachedSession = some sid →
    Carries t trace sid rx.tx

namespace Private

variable {t t' : WsSharedState} {trace trace' : List Act} {es es' : List WsExchange} {c : Nat}
  {conn conn' : WsConnection}

private theorem new (t : WsSharedState) (trace : List Act) : Private t trace [] .new :=
  ⟨fun _ => rfl, rfl, fun h => nomatch h⟩

/-- What the channel carries does not depend on the rest. -/
theorem retable (h : Private t trace es conn)
    (hcarries : ∀ {sid tx}, Carries t trace sid tx → Carries t' trace' sid tx) :
    Private t' trace' es conn :=
  ⟨h.current, h.receiving, fun hrx hsession => hcarries (h.carries hrx hsession)⟩

private theorem closed (hcurrent : conn.task.inLoop = true → currentSession es = none)
    (hattached : conn.attachedSession = none) (hrx : conn.eventRx = none) :
    Private t trace es conn := by
  refine ⟨fun hloop => hattached.trans (hcurrent hloop).symm, ?_, fun hsome => ?_⟩
  · rw [hrx, hattached]
    rfl
  · cases hrx.symm.trans hsome

private theorem keep (h : Private t trace es conn) (hloop : conn.task.inLoop = true)
    (hcurrent : currentSession es' = currentSession es)
    (hattached : conn'.attachedSession = conn.attachedSession)
    (hrx : conn'.eventRx = conn.eventRx) : Private t trace es' conn' := by
  refine ⟨fun _ => ?_, ?_, ?_⟩
  · rw [hattached, hcurrent]
    exact h.current hloop
  · rw [hrx, hattached]
    exact h.receiving
  · rw [hrx, hattached]
    exact h.carries

private theorem exchanged (h : Private t trace es conn) (ht : t.Wf) {cmd : Option WsCommand}
    (hex : conn.Exchanged t c t' conn' cmd es') : Private t' trace (es' ++ es) conn' := by
  have hin : ∀ {task : WsTask}, conn.task = task → task.inLoop = true →
      conn.task.inLoop = true := fun h h' => h ▸ h'
  cases hex with
  | plain hidle _ hattached hrx hgranted =>
    exact h.keep hidle.inLoop (currentSession_texts hgranted es) hattached hrx
  | @said request htask hforeign =>
    have hloop := hin htask rfl
    have hsame := h.current hloop
    have hother : currentSession (.said request :: es) = currentSession es := by
      apply currentSession_said
      intro sid cols rows snapshot hrequest
      rw [← hsame]
      exact hforeign hrequest
    exact h.keep hloop hother rfl rfl
  | detached htask hsession _ hattached hrx =>
    apply closed (fun _ => ?_) hattached hrx
    exact if_pos ((h.current (hin htask rfl)).symm.trans hsession)
  | typed htask => exact h.keep (hin htask rfl) rfl rfl rfl
  | forwarded htask => exact h.keep (hin htask rfl) rfl rfl rfl
  | @subscribed _ _ response _ sid _ hgranted _ hattached hrx =>
    refine ⟨fun _ => ?_, ?_, ?_⟩
    · rw [hattached]
      change some sid = response.granted.or _
      rw [hgranted, Option.some_or]
    · rw [hrx, hattached]
      rfl
    · intro rx i hsome hsession
      cases hrx.symm.trans hsome
      cases hattached.symm.trans hsession
      exact .start ht trace sid c
  | @delivered _ rx _ htask hrx _ _ hattached hrx' =>
    refine ⟨fun _ => ?_, ?_, ?_⟩
    · rw [hattached]
      exact h.current (hin htask rfl)
    · rw [hrx', hattached, ← h.receiving, hrx]
      rfl
    · intro rx' i hsome hsession
      cases hrx'.symm.trans hsome
      exact (h.carries hrx (hattached.symm.trans hsession) :)
  | ended _ _ _ _ _ hattached hrx => exact closed (fun _ => rfl) hattached hrx
  | left _ htask hattached hrx =>
    refine closed (fun hloop => ?_) hattached hrx
    rw [htask] at hloop
    cases hloop
  | reported _ => exact ⟨fun hloop => (nomatch hloop), h.receiving, h.carries⟩

/-- Other clients. -/
theorem aside (h : Private t trace es conn) {conn₁ conn₂ : WsConnection} {cmd : Option WsCommand}
    (hex : conn₁.Exchanged t c t' conn₂ cmd es') : Private t' trace es conn := by
  rcases hex.shared with rfl | ⟨sid, rfl⟩ | ⟨sid, _, rfl⟩
  · exact h
  · exact h.retable fun hc => hc.unsubscribe sid c
  · exact h.retable fun hc => hc.subscribe sid c

end Private

namespace Server

variable {J : Codec} {σ σ' : Server} {e : Event}

/-- What an event does to the trace and to what the channels carry. -/
theorem event_carries (hinv : Inv σ) (harrive : σ.arrive e = σ) (h : σ.event J e = .ok σ')
    (ht : σ.wsShared.Wf) : σ.trace <:+ σ'.trace ∧
      ∀ {sid tx}, Carries σ.wsShared σ.trace sid tx → Carries σ'.wsShared σ'.trace sid tx := by
  rcases event_shared hinv h with ⟨⟨ended, htold⟩, acts, hacts, _⟩ | ⟨id, bytes, _, hread⟩
  · have hshared := htold.shared
    rw [harrive] at hshared
    have htrace : σ.trace <:+ σ'.trace := ⟨acts, hacts.symm⟩
    rw [hshared]
    exact ⟨htrace, fun hc => (hc.told ended ht).grow htrace⟩
  · cases hread
    exact ⟨List.suffix_cons _ _, fun hc => hc.broadcast ht id bytes⟩

/-- All the daemon does with an input command. -/
theorem input_acts {shared : WsSharedState} {sid : Uuid} {data : List UInt8} {env : Env}
    (h : σ.event J (.command shared (.input sid data) env) = .ok σ') :
    ∀ act ∈ newActs σ σ', ∃ bytes, act = .ptyWrote sid bytes ∧ bytes <+: data := by
  have h := event_command h
  simp only [handleWsCommand, handleWsInput] at h
  split at h
  · cases h
    have hnone : newActs σ { σ with wsShared := shared } = [] := @newActs_eq σ _ [] rfl
    rw [hnone]
    intro _ hact
    cases hact
  · cases h
    have hone : newActs σ ({ σ with wsShared := shared }.emit
        (.ptyWrote sid (writeLoop env.ptyWrites data))) =
        [.ptyWrote sid (writeLoop env.ptyWrites data)] := @newActs_eq σ _ [_] rfl
    rw [hone]
    intro act hact
    rw [List.mem_singleton.mp hact]
    exact ⟨_, rfl, writeLoop_prefix _ data⟩

private theorem cleanup_trace (env : Env) (σ : Server) : σ.trace <:+ (σ.cleanup env).trace := by
  have hkilled := Wanes.foldl (killSession_wanes env) (σ.sessions.list.map Session.id) σ.tellAll
  exact hkilled.trace.trans (cleanup_wanes env σ).trace

end Server

namespace History

variable {J : Codec} {x x' : History} {l : Closing.Label}

/-- Every task and its channel follow what has passed between client and task. -/
def Isolated (x : History) : Prop :=
  ∀ c conn, x.world.connections.lookup c = some conn →
    Private x.world.shared x.world.server.trace (transcript c x.log) conn

theorem Isolated.step (hsound : Sound x) (h : Isolated x) (hnoted : Noted J x l x') :
    Isolated x' := by
  cases hnoted with
  | accept =>
    intro c conn hconn
    rcases WsWorld.lookup_accept hconn with ⟨rfl, rfl⟩ | hconn
    · rw [hsound.newcomer]
      exact .new _ _
    · exact (h c conn hconn).retable fun hc => ⟨hc.made, hc.only, hc.read⟩
  | @task c _ conn conn' t cmd es hconn _ _ hex =>
    intro i conn₁ hconn₁
    rcases lookup_exchanged es x.log hconn₁ with ⟨rfl, rfl, hlog⟩ | ⟨_, hconn₁, hlog⟩
    · rw [hlog]
      exact (h i conn hconn).exchanged hsound.wf hex
    · rw [hlog]
      exact (h i conn₁ hconn₁).aside hex
  | @drain cmd queue env σ' hopen hqueue hevent =>
    obtain ⟨_, hcarries⟩ := Server.event_carries (hsound.server hopen) rfl hevent hsound.wf
    intro c conn' hconn'
    obtain ⟨conn, hconn, hattached, hrx, _, htask⟩ := WsWorld.lookup_replyTo hconn'
    have hloop : conn'.task.inLoop = conn.task.inLoop := by
      rcases htask with hsame | ⟨_, _, _, _, _, _, hwaiting, hanswered⟩
      · rw [hsame]
      · rw [hwaiting, hanswered]
        rfl
    have hold := (h c conn hconn).retable hcarries
    refine ⟨fun hin => ?_, ?_, ?_⟩
    · exact hattached.trans (hold.current (hloop.symm.trans hin))
    · rw [hrx, hattached]
      exact hold.receiving
    · rw [hrx, hattached]
      exact hold.carries
  | daemon hopen _ harrive hevent =>
    obtain ⟨_, hcarries⟩ := Server.event_carries (hsound.server hopen) harrive hevent hsound.wf
    exact fun c conn hconn => (h c conn hconn).retable hcarries
  | clientRead hs => exact h
  | @close env hopen =>
    have hshared : (x.world.cleanup env).shared = _ := Server.cleanup_wsShared env _
    have htrace := Server.cleanup_trace env x.world.server
    intro c conn hconn
    refine (h c conn hconn).retable fun hc => ?_
    rw [hshared]
    exact (hc.told _ hsound.wf).grow htrace

/-- Every frame with output carries what has been read from the current session. -/
def Delivered (x : History) : Prop :=
  ∀ c earlier data, .sent (.binary data) :: earlier <:+ transcript c x.log →
    ∃ sid, currentSession earlier = some sid ∧ .ptyRead sid data ∈ x.world.server.trace

private theorem suffix_of_not_mem {α : Type} {a : α} {l es tr : List α} (h : a :: l <:+ es ++ tr)
    (hnot : a ∉ es) : a :: l <:+ tr := by
  induction es with
  | nil => exact h
  | cons e es ih =>
    rcases List.suffix_cons_iff.mp h with heq | h
    · cases heq
      exact absurd List.mem_cons_self hnot
    · exact ih h fun hmem => hnot (List.mem_cons_of_mem e hmem)

private theorem delivered_exchanged {t t' : WsSharedState} {trace : List Act} {c : Nat}
    {es es' earlier : List WsExchange} {conn conn' : WsConnection} {cmd : Option WsCommand}
    {data : List UInt8} (h : Private t trace es conn) (hex : conn.Exchanged t c t' conn' cmd es')
    (hsuffix : .sent (.binary data) :: earlier <:+ es' ++ es) :
    (∃ sid, currentSession earlier = some sid ∧ .ptyRead sid data ∈ trace) ∨
      .sent (.binary data) :: earlier <:+ es := by
  cases hex with
  | @delivered _ rx bytes htask hrx hevent _ _ _ =>
    rcases List.suffix_cons_iff.mp hsuffix with heq | hsuffix
    · left
      cases heq
      have hsome : conn.attachedSession.isSome = true := by
        rw [← h.receiving, hrx]
        rfl
      obtain ⟨sid, hsession⟩ := Option.isSome_iff_exists.mp hsome
      have hcurrent := h.current (by rw [htask]; rfl)
      exact ⟨sid, hcurrent.symm.trans hsession,
        (h.carries hrx hsession).read (List.mem_of_getElem? hevent)⟩
    · exact .inr hsuffix
  | _ => exact .inr (suffix_of_not_mem hsuffix (by simp))

/-- The input commands handled and those in the queue are the frames typed, each with the session
it was typed for. -/
def Typed (x : History) : Prop :=
  typedInputs x.log =
    (x.world.queue.filterMap WsCommand.toInput).reverse ++ x.log.filterMap Moment.toInput

/-- Handling an input command writes a beginning of it to its session, if anything. -/
def Written (x : History) : Prop :=
  ∀ sid data acts, .handled (.input sid data) acts ∈ x.log →
    ∀ act ∈ acts, ∃ bytes, act = .ptyWrote sid bytes ∧ bytes <+: data

/-- The trace only grows. -/
theorem Noted.trace (hsound : Sound x) (hnoted : Noted J x l x') :
    x.world.server.trace <:+ x'.world.server.trace := by
  cases hnoted with
  | drain hopen _ hevent =>
    exact (Server.event_carries (hsound.server hopen) rfl hevent hsound.wf).1
  | daemon hopen _ harrive hevent =>
    exact (Server.event_carries (hsound.server hopen) harrive hevent hsound.wf).1
  | close _ => exact Server.cleanup_trace _ _
  | _ => exact List.suffix_refl _

private theorem Delivered.step (hsound : Sound x) (hisolated : Isolated x) (h : Delivered x)
    (hnoted : Noted J x l x') : Delivered x' := by
  have htrace := hnoted.trace hsound
  have hold : ∀ c earlier data, .sent (.binary data) :: earlier <:+ transcript c x.log →
      ∃ sid, currentSession earlier = some sid ∧ .ptyRead sid data ∈ x'.world.server.trace := by
    intro c earlier data hsuffix
    obtain ⟨sid, hcurrent, hread⟩ := h c earlier data hsuffix
    exact ⟨sid, hcurrent, htrace.subset hread⟩
  cases hnoted with
  | @task c s conn conn' t cmd es hconn _ _ hex =>
    intro i earlier data hsuffix
    rw [transcript_clients] at hsuffix
    split at hsuffix
    · rename_i hi
      subst hi
      rcases delivered_exchanged (hisolated _ _ hconn) hex hsuffix with hnew | hsuffix
      · exact hnew
      · exact hold _ _ _ hsuffix
    · exact hold _ _ _ hsuffix
  | _ => exact hold

private theorem typedInputs_clients {c : Nat} {es : List WsExchange}
    (h : ∀ data, .typed data ∉ es) (log : List Moment) :
    typedInputs (es.map (.client c) ++ log) = typedInputs log := by
  induction es with
  | nil => rfl
  | cons e es ih =>
    have hrest := ih fun data hmem => h data (List.mem_cons_of_mem e hmem)
    cases e with
    | typed data => exact absurd List.mem_cons_self (h data)
    | _ => exact hrest

private theorem toInput_clients (c : Nat) (es : List WsExchange) :
    (es.map (Moment.client c)).filterMap Moment.toInput = [] := by
  rw [List.filterMap_eq_nil_iff]
  intro m hm
  obtain ⟨e, _, rfl⟩ := List.mem_map.mp hm
  rfl

private theorem Typed.task (h : Typed x) {c : Nat} {conn conn' : WsConnection}
    {t t' : WsSharedState} {cmd : Option WsCommand} {es : List WsExchange} {trace : List Act}
    (hprivate : Private t trace (transcript c x.log) conn)
    (hex : conn.Exchanged t c t' conn' cmd es) :
    typedInputs (es.map (.client c) ++ x.log) =
      ((x.world.queue ++ cmd.toList).filterMap WsCommand.toInput).reverse ++
        (es.map (Moment.client c) ++ x.log).filterMap Moment.toInput := by
  have hquiet : (∀ data, .typed data ∉ es) → cmd.toList.filterMap WsCommand.toInput = [] →
      typedInputs (es.map (.client c) ++ x.log) =
        ((x.world.queue ++ cmd.toList).filterMap WsCommand.toInput).reverse ++
          (es.map (Moment.client c) ++ x.log).filterMap Moment.toInput := by
    intro huntyped hcmd
    rw [typedInputs_clients huntyped, h, List.filterMap_append, List.filterMap_append, hcmd,
      toInput_clients, List.append_nil, List.nil_append]
  cases hex with
  | @typed data htask =>
    have hcurrent := hprivate.current (by rw [htask]; rfl)
    have hsession : (if conn.eventRx.isSome then conn.attachedSession else none) =
        currentSession (transcript c x.log) := by
      rw [hprivate.receiving, hcurrent]
      cases currentSession (transcript c x.log) <;> rfl
    rw [hsession, List.filterMap_append, List.filterMap_append, toInput_clients, List.nil_append]
    have htyped : typedInputs (.client c (.typed data) :: x.log) =
      ((currentSession (transcript c x.log)).map (·, data)).toList ++ typedInputs x.log := rfl
    have hstep : typedInputs ([WsExchange.typed data].map (Moment.client c) ++ x.log) =
      typedInputs (.client c (.typed data) :: x.log) := rfl
    rw [hstep, htyped, h]
    cases currentSession (transcript c x.log) with
    | none => simp
    | some sid => simp [WsCommand.toInput]
  | _ => exact hquiet (by simp) (by simp [WsCommand.toInput])

private theorem Typed.step (hisolated : Isolated x) (h : Typed x) (hnoted : Noted J x l x') :
    Typed x' := by
  cases hnoted with
  | task hconn _ _ hex => exact h.task (hisolated _ _ hconn) hex
  | @drain cmd queue env σ' _ hqueue _ =>
    change typedInputs x.log = _
    rw [h, hqueue, List.filterMap_cons, List.filterMap_cons]
    cases hinput : cmd.toInput with
    | none => simp [Moment.toInput, hinput]
    | some p => simp [Moment.toInput, hinput]
  | _ => exact h

private theorem Written.step (h : Written x) (hnoted : Noted J x l x') : Written x' := by
  cases hnoted with
  | @task c s conn conn' t cmd es _ _ _ _ =>
    intro sid data acts hmem
    rcases List.mem_append.mp hmem with hmem | hmem
    · obtain ⟨e, _, he⟩ := List.mem_map.mp hmem
      cases he
    · exact h _ _ _ hmem
  | drain _ _ hevent =>
    intro sid data acts hmem
    rcases List.mem_cons.mp hmem with heq | hmem
    · cases heq
      exact Server.input_acts hevent
    · exact h _ _ _ hmem
  | _ => exact h

/-- What a client gets has been read from its current session, and what it types is written to that
session or to none. -/
theorem isolated (h : (Closing.history J).Reachable x) : Delivered x ∧ Typed x ∧ Written x := by
  have hall : Isolated x ∧ Delivered x ∧ Typed x ∧ Written x := by
    apply invariant h
    · intro listener wakeup now
      have hempty : ∀ {c e es}, ¬ e :: es <:+ transcript c [] :=
        fun h => nomatch List.suffix_nil.mp h
      exact ⟨fun _ _ h => (nomatch h), fun _ _ _ h => absurd h hempty, rfl,
        fun _ _ _ h => nomatch h⟩
    · intro x l x' hsound hall _ hnoted
      obtain ⟨hisolated, hdelivered, htyped, hwritten⟩ := hall
      exact ⟨hisolated.step hsound hnoted,
        hdelivered.step hsound hisolated hnoted, htyped.step hisolated hnoted,
        hwritten.step hnoted⟩
  exact hall.2

/-- A local client creates session 7; WebSocket client 1 attaches it, gets a byte and types one. -/
theorem isolated_attached :
    ∃ (x : History) (earlier : List WsExchange) (sid : Uuid),
      (Closing.history Server.silent).Reachable x ∧
      .sent (.binary [65]) :: earlier <:+ transcript 1 x.log ∧
      currentSession earlier = some sid ∧ .ptyRead sid [65] ∈ x.world.server.trace ∧
      x.log.filterMap Moment.toInput = [(7, [66])] := by
  have hrun : ((Closing.history Server.silent).exec (new 3 none 0)
      [.world (.daemon (.accept 5)),
        .world (.daemon (.request 5 (.ok (.create none 80 24 none none none)) 0 Server.calm)),
        .world .accept,
        .world (.task 1 (.text (.ok (.attach 7)))),
        .world (.task 1 .forward),
        .world (.drain Server.calmLater),
        .world (.task 1 .finish),
        .world (.daemon (.output 10 (.data [65]) Server.calm)),
        .world (.task 1 (.recv true)),
        .world (.task 1 (.binary [66])),
        .world (.drain Server.calmLater)]).map
      (fun x : History => ((transcript 1 x.log).tail.head?, typedInputs x.log, x.world.queue)) =
      some (some (.sent (.binary [65])), [(7, [66])], []) := by decide +kernel
  obtain ⟨x, hexec, hall⟩ := Option.map_eq_some_iff.mp hrun
  simp only [Prod.mk.injEq] at hall
  obtain ⟨hhead, htypedInputs, hqueue⟩ := hall
  have hreach : (Closing.history Server.silent).Reachable x :=
    Transition.System.Reachable.exec (.start (init_new _ 3 none 0)) hexec
  obtain ⟨hdelivered, htyped, _⟩ := isolated hreach
  obtain ⟨earlier, hearlier⟩ := List.head?_eq_some_iff.mp hhead
  have hsuffix : .sent (.binary [65]) :: earlier <:+ transcript 1 x.log :=
    hearlier ▸ List.tail_suffix _
  obtain ⟨sid, hcurrent, hread⟩ := hdelivered 1 earlier [65] hsuffix
  refine ⟨x, earlier, sid, hreach, hsuffix, hcurrent, hread, ?_⟩
  rw [Typed, hqueue, htypedInputs] at htyped
  exact htyped.symm

end History

end PtyDaemon
