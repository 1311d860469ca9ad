import PtyDaemon.Wire.Wait

/-!
# What the daemon reads outside the decode loop

A WebSocket client that takes a session over from a local client makes the daemon wait on the
connection of that client. For every event, this says which connection is read and what becomes of
its buffer; the decode loop is left out, which reads its connection by itself.
-/

namespace PtyDaemon

namespace Server

/-- The connection on which a takeover of the session waits. -/
def takeoverWaits (env : Env) (σ : Server) (id : Uuid) : Option RawFd :=
  (σ.sessions.lookup id).bind fun s =>
    if s.state ≠ .attached then none
    else s.ownerFd.bind fun fd =>
      if (σ.clients.lookup fd).isSome && env.pushWritten then some fd else none

/-- The connection on which a command waits. -/
def commandWaits (env : Env) (σ : Server) : WsCommand → Option RawFd
  | .request _ (.attach id) _ => σ.takeoverWaits env id
  | .request _ (.detach id _ _ _) _ =>
    (σ.sessions.lookup id).bind fun s =>
      if s.inCooldown env.now then none else σ.takeoverWaits env id
  | _ => none

/-- The connection on which an event waits. -/
def waits (σ : Server) : Event → Option RawFd
  | .command _ cmd env => σ.commandWaits env cmd
  | _ => none

end Server

def Event.ackReads : Event → List AckRead
  | .command _ _ env => env.ackReads
  | _ => []

/-- One message of a connection, which the decode loop takes from the buffer. -/
def Event.isRequest : Event → Bool
  | .request _ _ _ _ => true
  | _ => false

namespace Server

variable {J : Codec} {env : Env} {σ σ' σ'' : Server} {fd : RawFd} {id : Uuid} {e : Event}

/-- The reads of the wait come from the connection on `wait`, and nothing is read from another
one. -/
structure Heard (wait : Option RawFd) (reads : List AckRead) (σ σ' : Server) : Prop where
  clients : ∀ x, σ'.clients.lookup x = (σ.clients.lookup x).map fun client =>
    if wait = some x then
      { client with readBuf := (waited reads client.readBuf).left client.readBuf }
    else client
  answers : σ'.answers = σ.answers
  accepted : σ'.accepted = σ.accepted

private theorem Unheard.heard (h : Unheard σ σ') (reads : List AckRead) :
    Heard none reads σ σ' where
  clients x := by simp [h.clients]
  answers := h.answers
  accepted := h.accepted

private theorem Heard.trans {wait : Option RawFd} {reads : List AckRead} (h : Heard wait reads σ σ')
    (h' : Unheard σ' σ'') : Heard wait reads σ σ'' where
  clients x := by rw [h'.clients, h.clients]
  answers := h'.answers.trans h.answers
  accepted := h'.accepted.trans h.accepted

/-- The same from a state that differs in nothing of interest. -/
theorem Heard.after {wait : Option RawFd} {reads : List AckRead} (h : Heard wait reads σ' σ'')
    (h' : Unheard σ σ') : Heard wait reads σ σ'' where
  clients x := by rw [h.clients, h'.clients]
  answers := h.answers.trans h'.answers
  accepted := h.accepted.trans h'.accepted

private theorem waitForDetachAck_accepted (J : Codec) (fd : RawFd) (id : Uuid)
    (reads : List AckRead)
    (σ : Server) : (waitForDetachAck J fd id reads σ).1.accepted = σ.accepted :=
  (waitForDetachAck_aside J fd id reads σ).accepted

private theorem waitForDetachAck_heard (J : Codec) (id : Uuid) (reads : List AckRead)
    {client : ClientState} (hclient : σ.clients.lookup fd = some client) :
    Heard (some fd) reads σ (waitForDetachAck J fd id reads σ).1 := by
  obtain ⟨hclients, _, htrace, _⟩ := waitForDetachAck_spec J id reads hclient
  refine ⟨fun x => ?_, ?_, waitForDetachAck_accepted J fd id reads σ⟩
  · rw [hclients]
    by_cases hx : x = fd
    · rw [if_pos hx, hx, hclient, Option.map_some, if_pos rfl]
    · have hne : ¬ some fd = some x := fun h => hx (Option.some.inj h).symm
      simp only [if_neg hx, if_neg hne, Option.map_id']
  · rw [answers, htrace, answers]

private theorem handleBatonTakeover_heard (J : Codec) (env : Env) (σ : Server) (id : Uuid) :
    Heard (σ.takeoverWaits env id) env.ackReads σ (σ.handleBatonTakeover J env id).1 := by
  unfold handleBatonTakeover takeoverWaits
  cases hs : σ.sessions.lookup id with
  | none => exact (Unheard.refl σ).heard _
  | some s =>
    simp only [Option.bind_some]
    split
    · exact (handleDetach_unheard ..).heard _
    · cases hfd : s.ownerFd with
      | none => exact (handleDetach_unheard ..).heard _
      | some fd =>
        dsimp only
        split
        · rename_i client hclient hpush
          simp only [Option.bind_some, hclient, hpush, Option.isSome_some, Bool.and_self, if_true]
          have hpushed := (Unheard.refl σ).emit (.sent client.stream (.push (.forceDetach id))) rfl
          have hwaited := waitForDetachAck_heard J id env.ackReads
            (show (σ.emit (.sent client.stream (.push (.forceDetach id)))).clients.lookup fd =
              some client from hclient)
          exact (hwaited.after hpushed).trans (forceCompleteTakeover_unheard ..)
        · rename_i client hclient hpush
          rw [Option.bind_some, hpush, Bool.and_false, if_neg Bool.false_ne_true]
          have hcut := (Unheard.refl σ).emit
            (.cut client.stream (.push (.forceDetach id)) env.cut) rfl
          exact (hcut.trans (forceCompleteTakeover_unheard ..)).heard _
        · rename_i hclient
          rw [Option.bind_some, hclient, Option.isSome_none, Bool.false_and,
            if_neg Bool.false_ne_true]
          exact (forceCompleteTakeover_unheard ..).heard _

private theorem takeoverWaits_free
    (hfree : ∀ s, σ.sessions.lookup id = some s → s.state ≠ .attached) :
    σ.takeoverWaits env id = none := by
  unfold takeoverWaits
  cases hs : σ.sessions.lookup id with
  | none => rfl
  | some s => rw [Option.bind_some, if_pos (hfree s hs)]

private theorem takeoverWaits_wsClientGone {s : Session} (hs : σ.sessions.lookup id = some s) :
    (σ.putSession id s.wsClientGone).takeoverWaits env id = σ.takeoverWaits env id := by
  have hself : (σ.putSession id s.wsClientGone).sessions.lookup id = some s.wsClientGone :=
    lookup_putSession_self σ id _
  rw [takeoverWaits, takeoverWaits, hself, hs]
  rfl

private theorem handleWsDetach_heard (J : Codec) (env : Env) (σ : Server) (id : Uuid) :
    Heard ((σ.sessions.lookup id).bind fun s =>
      if s.inCooldown env.now then none else σ.takeoverWaits env id) env.ackReads σ
      (σ.handleWsDetach J env id).1 := by
  have hput : ∀ s, Unheard σ (σ.putSession id s) := (Unheard.refl σ).putSession id
  have hfree : ∀ {s : Session}, σ.sessions.lookup id = some s → s.isAttached = false →
      σ.takeoverWaits env id = none := by
    intro s hs hatt
    apply takeoverWaits_free
    intro t ht
    cases hs.symm.trans ht
    exact of_decide_eq_false hatt
  cases handleWsDetach_cases J env σ id with
  | missing hs h =>
    rw [h, hs]
    exact (handleDetach_unheard ..).heard _
  | @taken s hs hatt hcool h =>
    have htaken := handleBatonTakeover_heard J env (σ.putSession id s.wsClientGone) id
    rw [takeoverWaits_wsClientGone hs] at htaken
    rw [h, hs, Option.bind_some, if_neg (by simp [hcool])]
    exact htaken.after (hput _)
  | cooling hs hatt hcool h =>
    rw [h, hs, Option.bind_some, if_pos hcool]
    exact (hput _).heard _
  | released hs hatt hprevious h =>
    rw [h, hs, Option.bind_some, hfree hs hatt, ite_self]
    exact ((hput _).trans (handleBatonRelease_unheard ..)).heard _
  | detached hs hatt hprevious h =>
    rw [h, hs, Option.bind_some, hfree hs hatt, ite_self]
    exact ((hput _).trans (handleDetach_unheard ..)).heard _

private theorem takeOverAttached_heard (J : Codec) (env : Env) (σ : Server) (id : Uuid) :
    Heard (σ.takeoverWaits env id) env.ackReads σ (σ.takeOverAttached J env id) := by
  rcases takeOverAttached_cases J env σ id with ⟨_, _, _, htaken⟩ | ⟨hfree, hsame⟩
  · rw [htaken]
    exact handleBatonTakeover_heard J env σ id
  · rw [hsame, takeoverWaits_free hfree]
    exact (Unheard.refl σ).heard _

private theorem handleWsAttach_heard {p : Server × Response}
    (h : σ.handleWsAttach J env id = .ok p) :
    Heard (σ.takeoverWaits env id) env.ackReads σ p.1 := by
  have htaken := takeOverAttached_heard J env σ id
  cases handleWsAttach_cases h with
  | missing hs h =>
    rw [h]
    exact htaken
  | dead hs hdead h =>
    rw [h]
    exact htaken
  | @joined s ringData hs halive hdump h =>
    have hcame : Unheard (σ.takeOverAttached J env id) p.1 := by
      rw [h]
      dsimp only
      split <;> exact ⟨rfl, rfl, rfl⟩
    exact htaken.trans hcame

private theorem handleWsCommand_heard {cmd : WsCommand} (h : σ.handleWsCommand J env cmd = .ok σ') :
    Heard (σ.commandWaits env cmd) env.ackReads σ σ' := by
  have hreplied : ∀ {wait reads} {p : Server × Response} (reply : Nat),
      Heard wait reads σ p.1 → Heard wait reads σ (p.1.emit (.replied reply p.2)) := by
    intro wait reads p reply hp
    exact hp.trans ((Unheard.refl p.1).emit _ rfl)
  cases cmd with
  | request c request reply =>
    obtain ⟨p, hp, rfl⟩ := ok_of_map h
    apply hreplied
    cases request with
    | attach id => exact handleWsAttach_heard hp
    | detach id cols rows snapshot =>
      cases hp
      exact handleWsDetach_heard J env σ id
    | _ => exact (handleRequest_unheard hp).heard _
  | disconnected c =>
    cases h
    exact (handleWsClientDisconnect_unheard env σ c).heard _
  | input id data =>
    cases h
    exact (handleWsInput_unheard env σ id data).heard _

/-- What an event does to the connections. -/
inductive EventReads (σ : Server) (e : Event) (σ' : Server) : Prop
  | accept {fd : RawFd} (he : e = .accept fd) (h : σ' = σ.acceptClient fd)
  | disconnect {fd : RawFd} (he : e = .disconnect fd)
      (hclients : ∀ x, σ'.clients.lookup x = if x = fd then none else σ.clients.lookup x)
      (hanswers : σ'.answers = σ.answers) (haccepted : σ'.accepted = σ.accepted)
  | heard (h : Heard (σ.waits e) e.ackReads σ σ')

theorem event_reads (h : σ.event J e = .ok σ') (hother : e.isRequest = false) :
    EventReads σ e σ' := by
  cases event_runs h with
  | @reap env => exact .heard ((reapDead_unheard env σ).heard _)
  | command _ h =>
    have hheard := handleWsCommand_heard h
    exact .heard ⟨hheard.clients, hheard.answers, hheard.accepted⟩
  | accept hfree => exact .accept rfl rfl
  | request _ _ _ => cases hother
  | disconnect _ h =>
    obtain ⟨hanswers, haccepted, hclients⟩ := handleClientDisconnect_clients h
    exact .disconnect rfl hclients hanswers haccepted
  | @childExit pid env => exact .heard ((handleChildExit_unheard env σ pid).heard _)
  | @output fd read env => exact .heard ((handleSessionOutput_unheard env σ fd read).heard _)

end Server

end PtyDaemon
