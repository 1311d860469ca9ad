import PtyDaemon.Ws.History

/-!
# Requests and answers

The task of a connection has one request at a time with the daemon, and the daemon handles the
requests of all tasks in the order of the queue, until it drops the queue with what is left in it.
Whatever the tasks, the daemon and the local clients do in between, a client gets one answer to each
text frame, in the order of the frames.
-/

namespace PtyDaemon

/-- What is noted of the requests. -/
inductive WsTurn
  /-- a text frame of client `c`, as it parses -/
  | asked (c : Nat) (frame : Except String Request)
  /-- the daemon has handled a request of client `c` -/
  | served (c : Nat) (request : Request) (response : Response)
  /-- the daemon is gone, with the reply channel of client `c` -/
  | dropped (c : Nat) (request : Request)

namespace WsTurn

def frame (c : Nat) : WsTurn → Option (Except String Request)
  | .asked c' frame => if c = c' then some frame else none
  | _ => none

def service (c : Nat) : WsTurn → Option (Request × Option Response)
  | .asked .. => none
  | .served c' request response => if c = c' then some (request, some response) else none
  | .dropped c' request => if c = c' then some (request, none) else none

end WsTurn

/-- The text frames of client `c`, oldest first. -/
def framesOf (c : Nat) (log : List WsTurn) : List (Except String Request) :=
  (log.filterMap (WsTurn.frame c)).reverse

/-- The requests of client `c` that are through, with what the daemon has replied, oldest first. -/
def servicesOf (c : Nat) (log : List WsTurn) : List (Request × Option Response) :=
  (log.filterMap (WsTurn.service c)).reverse

private theorem framesOf_append (c : Nat) (new log : List WsTurn) :
    framesOf c (new ++ log) = framesOf c log ++ framesOf c new := by
  simp only [framesOf, List.filterMap_append, List.reverse_append]

private theorem servicesOf_append (c : Nat) (new log : List WsTurn) :
    servicesOf c (new ++ log) = servicesOf c log ++ servicesOf c new := by
  simp only [servicesOf, List.filterMap_append, List.reverse_append]

def WsMessage.answer : WsMessage → Option Response
  | .text response => some response
  | _ => none

/-- The responses that have gone to the client. -/
def WsConnection.answers (conn : WsConnection) : List Response :=
  conn.sent.filterMap WsMessage.answer

/-- The text frame of a step. -/
def WsStep.frame : WsStep → Option (Except String Request)
  | .text result => some result
  | _ => none

namespace WsTask

/-- The request that has not been answered to the client. -/
def unanswered : WsTask → List Request
  | .forwarding request => [request]
  | .waiting request => [request]
  | .answered request _ _ => [request]
  | _ => []

/-- The reply that has not gone to the client. -/
def untold : WsTask → List (Request × Option Response)
  | .answered request response _ => [(request, some response)]
  | _ => []

end WsTask

/-- A text frame that parses, with the reply. -/
def understood : Except String Request × Option Response → Option (Request × Option Response)
  | (.ok request, reply) => some (request, reply)
  | (.error _, _) => none

/-- What the client is told. -/
def tellsOf : Except String Request × Option Response → Option Response
  | (_, some response) => some response
  | (.ok .shutdown, none) => none
  | (_, none) => some (.error "daemon did not respond")

namespace WsConnection

/-- The reply channel is dropped: after a Shutdown the connection ends. -/
def unheard (conn : WsConnection) (t : WsSharedState) (c : Nat) :
    Option (WsSharedState × WsConnection) :=
  match conn.task with
  | .waiting request =>
    some (if request = .shutdown then conn.leave t c
      else (t, { conn.say (.text (.error "daemon did not respond")) with task := .reading }))
  | _ => none

end WsConnection

/-- A client's text frames, what has become of its requests and what it has been told: `done` are
the frames that have been answered, with the replies. -/
structure Conversed (frames : List (Except String Request))
    (services : List (Request × Option Response)) (answers : List Response) (task : WsTask)
    (done : List (Except String Request × Option Response)) : Prop where
  frames : frames = done.map Prod.fst ++ task.unanswered.map .ok
  answers : answers = done.filterMap tellsOf
  services : services = done.filterMap understood ++ task.untold
  unparsed : ∀ {e reply}, (.error e, reply) ∈ done →
    reply = some (.error ("parse error: " ++ e))
  /-- after Shutdown the task leaves its loop, and answers no more -/
  shutdown : ∀ {earlier reply later}, done = earlier ++ (.ok .shutdown, reply) :: later →
    later = [] ∧ task.inLoop = false

namespace Conversed

variable {frames : List (Except String Request)} {services : List (Request × Option Response)}
  {answers : List Response} {task task' : WsTask}
  {done : List (Except String Request × Option Response)}

private theorem start : Conversed [] [] [] .reading [] where
  frames := rfl
  answers := rfl
  services := rfl
  unparsed := fun hmem => nomatch hmem
  shutdown := by simp

/-- Nothing is asked or answered. -/
theorem pause (h : Conversed frames services answers task done) (task' : WsTask)
    (hunanswered : task'.unanswered = task.unanswered) (huntold : task'.untold = task.untold)
    (hloop : task.inLoop = false → task'.inLoop = false) :
    Conversed frames services answers task' done where
  frames := by rw [h.frames, hunanswered]
  answers := h.answers
  services := by rw [h.services, huntold]
  unparsed := h.unparsed
  shutdown := fun hdone => ⟨(h.shutdown hdone).1, hloop (h.shutdown hdone).2⟩

/-- A frame that parses. -/
theorem ask (h : Conversed frames services answers .reading done) (request : Request) :
    Conversed (frames ++ [.ok request]) services answers (.forwarding request) done where
  frames := by
    rw [h.frames]
    simp [WsTask.unanswered]
  answers := h.answers
  services := h.services
  unparsed := h.unparsed
  shutdown := fun hdone => by cases (h.shutdown hdone).2

/-- The daemon handles the request. -/
theorem serve {request : Request} (h : Conversed frames services answers (.waiting request) done)
    (response : Response) (n : Nat) :
    Conversed frames (services ++ [(request, some response)]) answers
      (.answered request response n) done where
  frames := h.frames
  answers := h.answers
  services := by
    rw [h.services]
    simp [WsTask.untold]
  unparsed := h.unparsed
  shutdown := fun hdone => by cases (h.shutdown hdone).2

private theorem shutdown_last (h : Conversed frames services answers task done)
    (hloop : task.inLoop = true) {frame : Except String Request} {reply : Option Response}
    (hlast : frame = .ok .shutdown → task'.inLoop = false)
    {earlier later : List (Except String Request × Option Response)} {reply' : Option Response}
    (hdone : done ++ [(frame, reply)] = earlier ++ (.ok .shutdown, reply') :: later) :
    later = [] ∧ task'.inLoop = false := by
  rcases List.eq_nil_or_concat later with rfl | ⟨init, last, rfl⟩
  · obtain ⟨_, hsame⟩ := List.append_inj' hdone rfl
    cases hsame
    exact ⟨rfl, hlast rfl⟩
  · have hinit : done = earlier ++ (.ok .shutdown, reply') :: init := by
      rw [List.concat_eq_append, ← List.cons_append, ← List.append_assoc] at hdone
      exact (List.append_inj' hdone rfl).1
    cases hloop.symm.trans (h.shutdown hinit).2

/-- The client is told the reply. -/
theorem tell {request : Request} {response : Response} {n : Nat}
    (h : Conversed frames services answers (.answered request response n) done) (task' : WsTask)
    (hunanswered : task'.unanswered = []) (huntold : task'.untold = [])
    (hlast : request = .shutdown → task'.inLoop = false) :
    Conversed frames services (answers ++ [response]) task'
      (done ++ [(.ok request, some response)]) where
  frames := by
    rw [h.frames, hunanswered]
    simp [WsTask.unanswered]
  answers := by
    rw [h.answers]
    simp [tellsOf]
  services := by
    rw [h.services, huntold]
    simp [WsTask.untold, understood]
  unparsed := by
    intro e reply hmem
    apply h.unparsed
    simpa using hmem
  shutdown := h.shutdown_last rfl fun hsame => hlast (Except.ok.inj hsame)

/-- The reply does not come. -/
theorem drop {request : Request} (h : Conversed frames services answers (.waiting request) done)
    (task' : WsTask) (hunanswered : task'.unanswered = []) (huntold : task'.untold = [])
    (hlast : request = .shutdown → task'.inLoop = false) :
    Conversed frames (services ++ [(request, none)])
      (answers ++ (tellsOf (.ok request, none)).toList) task' (done ++ [(.ok request, none)]) where
  frames := by
    rw [h.frames, hunanswered]
    simp [WsTask.unanswered]
  answers := by
    rw [h.answers, List.filterMap_append]
    cases htells : tellsOf (.ok request, none) <;> simp [htells]
  services := by
    rw [h.services, huntold]
    simp [WsTask.untold, understood]
  unparsed := by
    intro e reply hmem
    apply h.unparsed
    simpa using hmem
  shutdown := h.shutdown_last rfl fun hsame => hlast (Except.ok.inj hsame)

/-- A frame that does not parse is answered at once. -/
theorem refuse (h : Conversed frames services answers .reading done) (e : String) :
    Conversed (frames ++ [.error e]) services (answers ++ [.error ("parse error: " ++ e)]) .reading
      (done ++ [(.error e, some (.error ("parse error: " ++ e)))]) where
  frames := by
    rw [h.frames]
    simp [WsTask.unanswered]
  answers := by
    rw [h.answers]
    simp [tellsOf]
  services := by
    rw [h.services]
    simp [WsTask.untold, understood]
  unparsed := by
    intro e' reply hmem
    rcases List.mem_append.mp hmem with hold | hnew
    · exact h.unparsed hold
    · cases List.mem_singleton.mp hnew
      rfl
  shutdown := by
    intro earlier reply later hdone
    have hlast : (.error e : Except String Request) = .ok .shutdown →
        WsTask.reading.inLoop = false := fun hsame => nomatch hsame
    exact h.shutdown_last rfl hlast hdone

private theorem quiet (h : Conversed frames services answers task done) :
    Conversed (frames ++ []) services answers task done := by
  rwa [List.append_nil]

end Conversed

namespace WsConnection

variable {t : WsSharedState} {c : Nat} {out : Uuid → Nat} {conn : WsConnection}

private theorem handleEvent_conversed {frames : List (Except String Request)}
    {services : List (Request × Option Response)}
    {done : List (Except String Request × Option Response)}
    (h : Conversed frames services conn.answers conn.task done) (htask : conn.task = .reading)
    (rx : WsReceiver) (written : Bool) (event : Option WsEvent) :
    Conversed frames services (conn.handleEvent t c rx written event).2.answers
      (conn.handleEvent t c rx written event).2.task done := by
  have hleave : Conversed frames services (conn.leave t c).2.answers (conn.leave t c).2.task done :=
    h.pause .leaving (by rw [htask]; rfl) (by rw [htask]; rfl) fun _ => rfl
  cases event with
  | none => exact hleave
  | some event =>
    cases event with
    | ptyOutput data =>
      rw [handleEvent]
      split
      · have hanswers : (conn.deliver rx data).answers = conn.answers := by
          simp [answers, deliver, say, WsMessage.answer]
        rw [hanswers]
        exact h
      · exact hleave
    | sessionEnded =>
      rw [handleEvent]
      split
      · rename_i sid _
        have hanswers : (conn.say (.sessionEnded sid)).answers = conn.answers := by
          simp [answers, say, WsMessage.answer]
        change Conversed frames services (conn.say (.sessionEnded sid)).answers conn.task done
        rw [hanswers]
        exact h
      · exact h

/-- The task goes on, or out of its loop. -/
theorem handleEvent_task (t : WsSharedState) (c : Nat) (rx : WsReceiver) (written : Bool)
    (event : Option WsEvent) :
    (conn.handleEvent t c rx written event).2.task = conn.task ∨
      (conn.handleEvent t c rx written event).2.task = .leaving := by
  unfold handleEvent
  split
  · split
    · exact .inl rfl
    · exact .inr rfl
  · split <;> exact .inl rfl
  · exact .inr rfl

private theorem answers_say (conn : WsConnection) (response : Response) :
    (conn.say (.text response)).answers = conn.answers ++ [response] := by
  simp [answers, say, WsMessage.answer]

/-- What is noted of a step of the task. -/
def noted (c : Nat) (s : WsStep) : List WsTurn := (s.frame.map (WsTurn.asked c)).toList

private theorem framesOf_noted (c i : Nat) (s : WsStep) (log : List WsTurn) :
    framesOf i (noted c s ++ log) = framesOf i log ++ if i = c then s.frame.toList else [] := by
  rw [framesOf_append]
  by_cases hi : i = c <;> cases hframe : s.frame <;>
    simp [framesOf, noted, hframe, WsTurn.frame, hi]

private theorem servicesOf_noted (c i : Nat) (s : WsStep) (log : List WsTurn) :
    servicesOf i (noted c s ++ log) = servicesOf i log := by
  rw [servicesOf_append]
  cases hframe : s.frame <;> simp [servicesOf, noted, hframe, WsTurn.service]

/-- A step of the task asks and answers at most once. -/
theorem Branch.conversed {s : WsStep} {p : WsSharedState × WsConnection} {cmd : Option WsCommand}
    (h : Branch t c out conn s p cmd) {frames : List (Except String Request)}
    {services : List (Request × Option Response)}
    {done : List (Except String Request × Option Response)}
    (hconv : Conversed frames services conn.answers conn.task done) :
    ∃ done', Conversed (frames ++ s.frame.toList) services p.2.answers p.2.task done' := by
  cases h with
  | @unparsed e htask =>
    rw [answers_say]
    change ∃ done', Conversed _ _ _ conn.task done'
    rw [htask] at hconv ⊢
    exact ⟨_, hconv.refuse e⟩
  | @said request htask =>
    have hanswers : (conn.detachFirst t c request).2.answers = conn.answers := by
      unfold detachFirst
      split
      · split <;> rfl
      · rfl
    rw [htask, ← hanswers] at hconv
    exact ⟨_, hconv.ask request⟩
  | typed htask => exact ⟨done, hconv.quiet⟩
  | @forwarded request htask =>
    rw [htask] at hconv
    exact ⟨done, (hconv.pause (.waiting request) rfl rfl fun h => nomatch h).quiet⟩
  | @shutdown response _ htask =>
    rw [htask] at hconv
    have htold := hconv.tell .leaving rfl rfl fun _ => rfl
    rw [← answers_say] at htold
    exact ⟨_, htold.quiet⟩
  | @finished request response dumpedAt htask hrequest =>
    have hanswers : (conn.setUp t c out request response dumpedAt).2.answers = conn.answers := by
      unfold setUp
      split <;> rfl
    rw [htask, ← hanswers] at hconv
    have htold := hconv.tell .reading rfl rfl fun h => absurd h hrequest
    rw [← answers_say] at htold
    exact ⟨_, htold.quiet⟩
  | received htask hrx hready => exact ⟨done, (handleEvent_conversed hconv htask _ _ _).quiet⟩
  | closed htask =>
    rw [htask] at hconv
    exact ⟨done, (hconv.pause .leaving rfl rfl fun _ => rfl).quiet⟩
  | reported htask =>
    rw [htask] at hconv
    exact ⟨done, (hconv.pause .gone rfl rfl fun _ => rfl).quiet⟩

/-- A task waits when it has sent its request. -/
theorem Branch.waiting {s : WsStep} {p : WsSharedState × WsConnection} {cmd : Option WsCommand}
    (h : Branch t c out conn s p cmd) {request : Request} (hwaiting : p.2.task = .waiting request) :
    cmd = some (.request c request c) := by
  cases h with
  | unparsed htask => cases htask.symm.trans hwaiting
  | said htask => cases hwaiting
  | typed htask => cases htask.symm.trans hwaiting
  | forwarded htask =>
    cases hwaiting
    rfl
  | shutdown htask => cases hwaiting
  | finished htask hrequest => cases hwaiting
  | @received rx written htask hrx hready =>
    rcases handleEvent_task t c rx written (t.eventsOf rx.tx)[rx.read]? with hsame | hleft
    · cases htask.symm.trans (hsame.symm.trans hwaiting)
    · cases hleft.symm.trans hwaiting
  | closed htask => cases hwaiting
  | reported htask => cases hwaiting

private theorem unheard_cases {p : WsSharedState × WsConnection} (h : conn.unheard t c = some p) :
    ∃ request, conn.task = .waiting request ∧
      (request = .shutdown ∧ p = conn.leave t c ∨
        request ≠ .shutdown ∧ p = (t, { conn.say (.text (.error "daemon did not respond")) with
          task := .reading })) := by
  rw [unheard] at h
  split at h
  · rename_i request htask
    refine ⟨request, htask, ?_⟩
    split at h
    · rename_i hshutdown
      exact .inl ⟨hshutdown, (Option.some.inj h).symm⟩
    · rename_i hshutdown
      exact .inr ⟨hshutdown, (Option.some.inj h).symm⟩
  · cases h

private theorem unheard_did {p : WsSharedState × WsConnection} (h : conn.unheard t c = some p) :
    conn.Did t c out p.1 p.2 none := by
  obtain ⟨request, htask, ⟨_, rfl⟩ | ⟨_, rfl⟩⟩ := unheard_cases h
  · rw [leave_table]
    exact .leave (by rw [htask]; rfl) (fun _ _ _ h => nomatch h) rfl rfl rfl
  · exact .aside (by rw [htask]; rfl) rfl (fun _ _ _ h => nomatch h) rfl rfl rfl
      fun _ h => nomatch h

/-- The task does not wait any longer. -/
theorem unheard_conversed {p : WsSharedState × WsConnection} (h : conn.unheard t c = some p)
    {frames : List (Except String Request)} {services : List (Request × Option Response)}
    {done : List (Except String Request × Option Response)}
    (hconv : Conversed frames services conn.answers conn.task done) :
    ∃ done', Conversed frames (services ++ conn.task.unanswered.map fun request => (request, none))
      p.2.answers p.2.task done' := by
  obtain ⟨request, htask, ⟨hshutdown, rfl⟩ | ⟨hshutdown, rfl⟩⟩ := unheard_cases h
  · cases hshutdown
    rw [htask] at hconv ⊢
    have hdropped := hconv.drop .leaving rfl rfl fun _ => rfl
    have hnone : conn.answers ++ (tellsOf (.ok .shutdown, none)).toList = conn.answers :=
      List.append_nil _
    rw [hnone] at hdropped
    exact ⟨_, hdropped⟩
  · rw [htask] at hconv ⊢
    have htold : (tellsOf (.ok request, none)).toList = [.error "daemon did not respond"] := by
      cases request with
      | shutdown => exact absurd rfl hshutdown
      | _ => rfl
    have hdropped := hconv.drop .reading rfl rfl fun h => absurd h hshutdown
    rw [htold, ← answers_say] at hdropped
    exact ⟨_, hdropped⟩

end WsConnection

namespace WsWorld

/-- The task that waits gets the reply. -/
theorem replyTo_waiting {connections : Table Nat WsConnection} {s : Streams} {c : Nat}
    {request : Request} {response : Response} {conn : WsConnection}
    (hreply : lastReply s.server = some response) (hconn : connections.lookup c = some conn)
    (htask : conn.task = .waiting request) :
    ∃ n, replyTo connections s (.request c request c) =
      connections.insert c { conn with task := .answered request response n } := by
  simp only [replyTo, hreply, hconn, reply, htask]
  exact ⟨_, rfl⟩

end WsWorld

namespace Closing

variable {J : Codec}

/-- The request of client `c` is dropped with the queue. -/
def drop (x : Closing) (c : Nat) : Option Closing :=
  if x.closed then
    (x.world.connections.lookup c).bind fun conn =>
      (conn.unheard x.world.shared c).map fun p =>
        { x with
          world := { x.world.withShared p.1 with
            connections := x.world.connections.insert c p.2
            queue := x.world.queue.filter fun cmd => cmd.asker ≠ some c } }
  else none

inductive TurnLabel
  | step (l : Label)
  /-- the daemon has dropped the queue -/
  | dropped (c : Nat)

/-- The world until the daemon cleans up, and after. -/
def asking (J : Codec) : Transition.System Closing TurnLabel where
  init := (system J).init
  step x
    | .step l => step J x l
    | .dropped c => x.drop c

/-- What is noted of a step. -/
def turn (x : Closing) (l : TurnLabel) (x' : Closing) : List WsTurn :=
  match l with
  | .step (.world (.task c s)) => WsConnection.noted c s
  | .step (.world (.drain _)) =>
    match x.world.queue.head?, WsWorld.lastReply x'.world.server with
    | some (.request _ request c), some response => [.served c request response]
    | _, _ => []
  | .dropped c =>
    match x.world.connections.lookup c with
    | some conn => conn.task.unanswered.map (.dropped c)
    | none => []
  | _ => []

/-- The world with what is noted of the requests. -/
def turns (J : Codec) : Transition.System (Transition.Recorded Closing WsTurn) TurnLabel :=
  (asking J).record turn

private theorem drop_cases {x x' : Closing} {c : Nat} (h : x.drop c = some x') :
    ∃ conn t conn', x.closed = true ∧ x.world.connections.lookup c = some conn ∧
      conn.unheard x.world.shared c = some (t, conn') ∧
      x' = { x with
        world := { x.world.withShared t with
          connections := x.world.connections.insert c conn'
          queue := x.world.queue.filter fun cmd => cmd.asker ≠ some c } } := by
  rw [drop] at h
  split at h
  · rename_i hclosed
    obtain ⟨conn, hconn, hdrop⟩ := Option.bind_eq_some_iff.mp h
    obtain ⟨⟨t, conn'⟩, hunheard, rfl⟩ := Option.map_eq_some_iff.mp hdrop
    exact ⟨conn, t, conn', hclosed, hconn, hunheard, rfl⟩
  · cases h

private theorem dialogue_drop {x x' : Closing} {c : Nat} (h : x.drop c = some x')
    (hdialogue : x.world.Dialogue) : x'.world.Dialogue := by
  obtain ⟨conn, t, conn', _, hconn, hunheard, rfl⟩ := drop_cases h
  have hlookup := Table.lookup_insert x.world.connections c
  constructor
  case asked =>
    intro i request c' hmem
    obtain ⟨hold, hasker⟩ := List.mem_filter.mp hmem
    obtain ⟨hi, conn₁, hconn₁, hwaiting⟩ := hdialogue.asked hold
    have hne : c' ≠ c := by
      rintro rfl
      simp [WsCommand.asker] at hasker
    exact ⟨hi, conn₁, (hlookup c' conn').trans ((if_neg hne).trans hconn₁), hwaiting⟩
  case once => exact hdialogue.once.sublist (List.Sublist.filterMap _ List.filter_sublist)
  case granted =>
    intro c' conn₁ request response n sid hconn₁ htask hgranted
    rw [hlookup] at hconn₁
    split at hconn₁
    · cases hconn₁
      obtain ⟨_, _, ⟨_, hp⟩ | ⟨_, hp⟩⟩ := WsConnection.unheard_cases hunheard
      · cases hp
        cases htask
      · cases hp
        cases htask
    · exact hdialogue.granted hconn₁ htask hgranted

private theorem table_drop {x x' : Closing} {c : Nat} (h : x.drop c = some x')
    (htable : x.world.TableInv) : x'.world.TableInv := by
  obtain ⟨conn, t, conn', _, hconn, hunheard, rfl⟩ := drop_cases h
  have hdid : conn.Did x.world.shared c (fun _ => 0) t conn' none :=
    WsConnection.unheard_did hunheard
  have htask := htable.task hconn hdid
  exact ⟨htask.fresh, htask.attached, htask.left, fun hmem =>
    htask.queued (List.mem_append_left _ (List.mem_filter.mp hmem).1)⟩

/-- What is known of every run. -/
theorem asking_sound {x : Closing} (h : (asking J).Reachable x) :
    x.world.Dialogue ∧ x.world.TableInv ∧ (x.closed = false → (system J).Reachable x) := by
  induction h with
  | @start x hinit =>
    have hreach : (system J).Reachable x := .start hinit
    exact ⟨reachable_dialogue hreach, reachable_table hreach, fun _ => hreach⟩
  | @next x x' l _ _ hstep ih =>
    obtain ⟨hdialogue, htable, hreach⟩ := ih
    cases l with
    | dropped c =>
      refine ⟨dialogue_drop hstep hdialogue, table_drop hstep htable, fun hopen => ?_⟩
      obtain ⟨_, _, _, hclosed, _, _, rfl⟩ := drop_cases hstep
      cases hopen.symm.trans hclosed
    | step l =>
      cases l with
      | close env =>
        obtain ⟨hopen, hclosed, hworld⟩ := step_close (J := J) hstep
        refine ⟨?_, ?_, fun hopen' => by cases hopen'.symm.trans hclosed⟩
        · rw [hworld]
          exact ⟨hdialogue.asked, hdialogue.once, hdialogue.granted⟩
        · rw [hworld]
          exact cleanup_table htable env
      | world l =>
        obtain ⟨hw, hsame, hopen⟩ := step_world hstep
        refine ⟨hdialogue.step htable hw, ?_, fun hopen' => ?_⟩
        · exact htable.step (fun hdaemon => reachable_inv (hreach (hopen hdaemon)) (hopen hdaemon))
            hw
        · exact (hreach (hsame ▸ hopen')).next trivial hstep

/-- No request is lost, answered twice or out of turn. -/
structure Answering (x : Transition.Recorded Closing WsTurn) : Prop where
  unborn : ∀ {c}, x.state.world.connections.lookup c = none →
    framesOf c x.log = [] ∧ servicesOf c x.log = []
  conversed : ∀ {c conn}, x.state.world.connections.lookup c = some conn →
    ∃ done, Conversed (framesOf c x.log) (servicesOf c x.log) conn.answers conn.task done
  queued : ∀ {c conn request}, x.state.world.connections.lookup c = some conn →
    conn.task = .waiting request → .request c request c ∈ x.state.world.queue
  heard : x.state.closed = false → ∀ {c request}, (request, none) ∉ servicesOf c x.log

variable {x x' : Transition.Recorded Closing WsTurn}

private theorem Answering.same (h : Answering x)
    (hconnections : x'.state.world.connections = x.state.world.connections)
    (hqueue : x'.state.world.queue = x.state.world.queue) (hlog : x'.log = x.log)
    (hclosed : x'.state.closed = false → x.state.closed = false) : Answering x' where
  heard := by
    rw [hlog]
    exact fun hopen => h.heard (hclosed hopen)
  unborn := by
    rw [hconnections, hlog]
    exact h.unborn
  conversed := by
    rw [hconnections, hlog]
    exact h.conversed
  queued := by
    rw [hconnections, hqueue]
    exact h.queued

private theorem Answering.one (h : Answering x) (c : Nat) (conn' : WsConnection)
    (frames : List (Except String Request)) (services : List (Request × Option Response))
    (hlookup : ∀ i, x'.state.world.connections.lookup i =
      if i = c then some conn' else x.state.world.connections.lookup i)
    (hframes : ∀ i, framesOf i x'.log = framesOf i x.log ++ if i = c then frames else [])
    (hservices : ∀ i, servicesOf i x'.log = servicesOf i x.log ++ if i = c then services else [])
    (hconv : ∃ done, Conversed (framesOf c x.log ++ frames) (servicesOf c x.log ++ services)
      conn'.answers conn'.task done)
    (hother : ∀ {i request}, i ≠ c → .request i request i ∈ x.state.world.queue →
      .request i request i ∈ x'.state.world.queue)
    (hself : ∀ {request}, conn'.task = .waiting request →
      .request c request c ∈ x'.state.world.queue)
    (hheard : x'.state.closed = false →
      x.state.closed = false ∧ ∀ {request}, (request, none) ∉ services) : Answering x' := by
  constructor
  case unborn =>
    intro i hnone
    rw [hlookup] at hnone
    rw [hframes, hservices]
    split at hnone
    · cases hnone
    · rename_i hi
      rw [if_neg hi, if_neg hi, List.append_nil, List.append_nil]
      exact h.unborn hnone
  case conversed =>
    intro i conn hconn
    rw [hlookup] at hconn
    rw [hframes, hservices]
    split at hconn
    · rename_i hi
      cases hconn
      rw [if_pos hi, if_pos hi, hi]
      exact hconv
    · rename_i hi
      rw [if_neg hi, if_neg hi, List.append_nil, List.append_nil]
      exact h.conversed hconn
  case queued =>
    intro i conn request hconn hwaiting
    rw [hlookup] at hconn
    split at hconn
    · rename_i hi
      cases hconn
      rw [hi]
      exact hself hwaiting
    · rename_i hi
      exact hother hi (h.queued hconn hwaiting)
  case heard =>
    intro hopen i request hmem
    obtain ⟨hopen, hnew⟩ := hheard hopen
    rw [hservices] at hmem
    rcases List.mem_append.mp hmem with hold | hmem
    · exact h.heard hopen hold
    · split at hmem
      · exact hnew hmem
      · cases hmem

private theorem Answering.task (h : Answering x) {c : Nat} {s : WsStep} {conn conn' : WsConnection}
    {t : WsSharedState} {cmd : Option WsCommand} {out : Uuid → Nat}
    (hconn : x.state.world.connections.lookup c = some conn)
    (hbranch : WsConnection.Branch x.state.world.shared c out conn s (t, conn') cmd)
    (hconnections : x'.state.world.connections = x.state.world.connections.insert c conn')
    (hqueue : x'.state.world.queue = x.state.world.queue ++ cmd.toList)
    (hlog : x'.log = WsConnection.noted c s ++ x.log)
    (hclosed : x'.state.closed = x.state.closed) : Answering x' := by
  obtain ⟨done, hdone⟩ := h.conversed hconn
  apply h.one c conn' s.frame.toList []
  case hlookup =>
    intro i
    rw [hconnections]
    exact Table.lookup_insert x.state.world.connections c i conn'
  case hframes =>
    intro i
    rw [hlog]
    exact WsConnection.framesOf_noted c i s x.log
  case hservices =>
    intro i
    rw [hlog, ite_self, List.append_nil]
    exact WsConnection.servicesOf_noted c i s x.log
  case hconv =>
    rw [List.append_nil]
    exact hbranch.conversed hdone
  case hother =>
    intro i request _ hmem
    rw [hqueue]
    exact List.mem_append_left _ hmem
  case hself =>
    intro request hwaiting
    rw [hqueue, hbranch.waiting hwaiting]
    exact List.mem_append_right _ List.mem_cons_self
  case hheard => exact fun hopen => ⟨hclosed ▸ hopen, fun hmem => nomatch hmem⟩

private theorem Answering.drain (h : Answering x) (hdialogue : x.state.world.Dialogue)
    {cmd : WsCommand} {queue : List WsCommand} {env : Env} {σ' : Server}
    (hqueue : x.state.world.queue = cmd :: queue)
    (hevent : x.state.world.server.event J (.command x.state.world.shared cmd env) = .ok σ')
    (hconnections : x'.state.world.connections = WsWorld.replyTo x.state.world.connections
      (x.state.world.streams.advance σ') cmd)
    (hqueue' : x'.state.world.queue = queue) (hserver : x'.state.world.server = σ')
    (hlog : x'.log = turn x.state (.step (.world (.drain env))) x'.state ++ x.log)
    (hclosed : x'.state.closed = x.state.closed) : Answering x' := by
  rw [turn, hqueue, List.head?_cons, hserver] at hlog
  have hstays : ∀ {i request}, .request i request i ∈ x.state.world.queue →
      cmd ≠ .request i request i → .request i request i ∈ x'.state.world.queue := by
    intro i request hmem hne
    rw [hqueue] at hmem
    rw [hqueue']
    exact (List.mem_cons.mp hmem).resolve_left hne.symm
  cases cmd with
  | request i request c =>
    have hhead : .request i request c ∈ x.state.world.queue := hqueue ▸ List.mem_cons_self
    obtain ⟨rfl, conn, hconn, hwaiting⟩ := hdialogue.asked hhead
    obtain ⟨response, hreply⟩ := Server.event_replied hevent
    obtain ⟨n, hinsert⟩ := WsWorld.replyTo_waiting (s := x.state.world.streams.advance σ')
      hreply hconn hwaiting
    obtain ⟨done, hdone⟩ := h.conversed hconn
    rw [hreply] at hlog
    rw [hwaiting] at hdone
    apply h.one i { conn with task := .answered request response n } [] [(request, some response)]
    case hlookup =>
      intro c
      rw [hconnections, hinsert]
      exact Table.lookup_insert x.state.world.connections i c _
    case hframes =>
      intro c
      rw [hlog, ite_self, List.append_nil]
      rfl
    case hservices =>
      intro c
      rw [hlog, servicesOf_append]
      by_cases hc : c = i <;> simp [servicesOf, WsTurn.service, hc]
    case hconv =>
      rw [List.append_nil]
      exact ⟨done, hdone.serve response n⟩
    case hother =>
      intro c request' hc hmem
      apply hstays hmem
      rintro ⟨⟩
      exact hc rfl
    case hself => exact fun h => nomatch h
    case hheard =>
      refine fun hopen => ⟨hclosed ▸ hopen, fun hmem => ?_⟩
      cases List.mem_singleton.mp hmem
  | _ =>
    have hsame : x'.log = x.log := hlog
    have hconnections : x'.state.world.connections = x.state.world.connections := hconnections
    constructor
    case unborn =>
      rw [hconnections, hsame]
      exact h.unborn
    case conversed =>
      rw [hconnections, hsame]
      exact h.conversed
    case queued =>
      intro c conn request hconn hwaiting
      rw [hconnections] at hconn
      exact hstays (h.queued hconn hwaiting) fun h => nomatch h
    case heard =>
      rw [hsame]
      exact fun hopen => h.heard (hclosed ▸ hopen)

private theorem Answering.drop (h : Answering x) {c : Nat} (hdrop : x.state.drop c = some x'.state)
    (hlog : x'.log = turn x.state (.dropped c) x'.state ++ x.log) : Answering x' := by
  obtain ⟨conn, t, conn', hclosed, hconn, hunheard, hx'⟩ := drop_cases hdrop
  obtain ⟨request, htask, hcases⟩ := WsConnection.unheard_cases hunheard
  obtain ⟨done, hdone⟩ := h.conversed hconn
  have hnoted : turn x.state (.dropped c) x'.state = [.dropped c request] := by
    simp only [turn, hconn, htask]
    rfl
  rw [hnoted] at hlog
  apply h.one c conn' [] [(request, none)]
  case hlookup =>
    intro i
    rw [hx']
    exact Table.lookup_insert x.state.world.connections c i conn'
  case hframes =>
    intro i
    rw [hlog, ite_self, List.append_nil]
    rfl
  case hservices =>
    intro i
    rw [hlog, servicesOf_append]
    by_cases hi : i = c <;> simp [servicesOf, WsTurn.service, hi]
  case hconv =>
    have hconv := WsConnection.unheard_conversed hunheard hdone
    rw [htask] at hconv
    rw [List.append_nil]
    exact hconv
  case hother =>
    intro i request' hi hmem
    rw [hx']
    apply List.mem_filter.mpr ⟨hmem, ?_⟩
    simp [WsCommand.asker, hi]
  case hself =>
    intro request' hwaiting
    rcases hcases with ⟨_, hp⟩ | ⟨_, hp⟩
    · cases hp
      cases hwaiting
    · cases hp
      cases hwaiting
  case hheard =>
    intro hopen
    rw [hx'] at hopen
    cases hopen.symm.trans hclosed

private theorem Answering.accept (h : Answering x) (htable : x.state.world.TableInv)
    (hconnections : x'.state.world.connections = x.state.world.accept.connections)
    (hqueue : x'.state.world.queue = x.state.world.queue) (hlog : x'.log = x.log)
    (hclosed : x'.state.closed = x.state.closed) : Answering x' := by
  obtain ⟨hframes, hservices⟩ := h.unborn (History.lookup_fresh htable)
  apply h.one x.state.world.shared.nextClientId .new [] []
  case hlookup =>
    intro i
    rw [hconnections]
    exact Table.lookup_insert x.state.world.connections _ i .new
  case hframes =>
    intro i
    rw [hlog, ite_self, List.append_nil]
  case hservices =>
    intro i
    rw [hlog, ite_self, List.append_nil]
  case hconv =>
    rw [hframes, hservices]
    exact ⟨[], .start⟩
  case hother =>
    intro i request _ hmem
    rw [hqueue]
    exact hmem
  case hself => exact fun h => nomatch h
  case hheard => exact fun hopen => ⟨hclosed ▸ hopen, fun hmem => nomatch hmem⟩

private theorem reachable_answering (h : (turns J).Reachable x) : Answering x := by
  apply h.invariant_with (fun x hreach => asking_sound hreach.unrecorded)
  · rintro x ⟨⟨⟨listener, wakeup, now, hnew⟩, _⟩, hlog⟩
    constructor
    case unborn =>
      rw [hlog]
      exact fun _ => ⟨rfl, rfl⟩
    case conversed =>
      rw [hnew]
      exact fun h => nomatch h
    case queued =>
      rw [hnew]
      exact fun h => nomatch h
    case heard =>
      rw [hlog]
      exact fun _ _ _ h => nomatch h
  · rintro x l x' ⟨hdialogue, htable, _⟩ hans _ hrecorded
    obtain ⟨hstep, hlog⟩ := Transition.System.step_record hrecorded
    cases l with
    | dropped c => exact hans.drop hstep hlog
    | step l =>
      cases l with
      | close env =>
        obtain ⟨hopen, _, hworld⟩ := step_close (J := J) hstep
        exact hans.same (by rw [hworld]; rfl) (by rw [hworld]; rfl) hlog fun _ => hopen
      | world l =>
        obtain ⟨hw, hclosed, _⟩ := step_world hstep
        cases l with
        | accept =>
          have hworld := Option.some.inj hw
          exact hans.accept htable (by rw [← hworld]) (by rw [← hworld]; rfl) hlog hclosed
        | task c s =>
          obtain ⟨conn, t, conn', cmd, hconn, hp, hworld⟩ := WsWorld.step_task hw
          exact hans.task hconn (WsConnection.step_branch hp) (by rw [hworld]) (by rw [hworld])
            hlog hclosed
        | drain env =>
          obtain ⟨cmd, queue, σ', hqueue, hevent, hworld⟩ := WsWorld.step_drain hw
          exact hans.drain hdialogue hqueue hevent (by rw [hworld]) (by rw [hworld])
            (by rw [hworld]; rfl) hlog hclosed
        | daemon e =>
          obtain ⟨σ', _, _, hworld⟩ := WsWorld.step_daemon hw
          exact hans.same (by rw [hworld]) (by rw [hworld]) hlog fun h => hclosed ▸ h
        | clientRead id data =>
          obtain ⟨s, _, hworld⟩ := WsWorld.step_clientRead hw
          exact hans.same (by rw [hworld]) (by rw [hworld]) hlog fun h => hclosed ▸ h

end Closing

end PtyDaemon
