import PtyDaemon.Clients.Streams
import PtyDaemon.Server.CrashedWriter
import PtyDaemon.Server.Running
import PtyDaemon.Server.Dispatch
import PtyDaemon.Ws.Idle

/-!
# Why the loop ends

A turn of `run` comes back to the head of the loop with `running` still set unless a signal or a
Shutdown came, the daemon has been idle for a minute, or the kernel refused one of a few calls.
-/

namespace PtyDaemon

/-- The answers to the requests and commands an event handles. -/
def Event.env? : Event → Option Env
  | .command _ _ env => some env
  | .request _ _ _ env => some env
  | _ => none

/-- The panic of a Create whose PTY is there and whose ring is not. -/
def Env.ringPanic (env : Env) : Option String :=
  match env.createPty, env.shmError with
  | .ok _, some e =>
    some ("failed to create shared ring buffer " ++ shmNameForSession env.uuid ++ ": " ++ e)
  | _, _ => none

namespace Server

variable {J : Codec} {env : Env} {σ σ' τ : Server} {e : Event} {stop : Stop}

private theorem error_of_map {α β : Type} {x : Except Stop α} {f : α → β}
    (h : x.map f = .error stop) :
    x = .error stop := by
  cases x with
  | error e =>
    cases h
    rfl
  | ok a => cases h

private theorem handleRequest_error {fd : RawFd} {request : Request}
    (h : σ.handleRequest J env fd request = .error stop) :
    ∃ m, env.ringPanic = some m ∧ stop = .panics m := by
  cases request with
  | create shell cols rows workingDir terminalId envs =>
    simp only [handleRequest, handleCreate] at h
    obtain ⟨ring, hring⟩ := SharedRingBuffer.create_default env.page
    split at h
    · cases h
    · rename_i masterFd childPid ptsname hpty
      rw [hring] at h
      cases herror : env.shmError with
      | some e =>
        rw [herror] at h
        cases h
        exact ⟨_, by rw [Env.ringPanic, hpty, herror], rfl⟩
      | none =>
        rw [herror] at h
        cases h
  | _ => cases h

/-- Every ring can be read by a process that nobody disturbs. -/
def Legible (σ : Server) : Prop :=
  ∀ {id c}, σ.coreOf id = some c → ∃ bytes, c.sharedRing.dump = some bytes

theorem handleWsAttach_total (hinv : Inv σ) (hlegible : Legible σ) (J : Codec) (env : Env)
    (id : Uuid) : ∃ p, σ.handleWsAttach J env id = .ok p := by
  have hkept := (takeOverAttached_moves J env σ id).kept hinv
  unfold handleWsAttach
  dsimp only
  cases hs : (σ.takeOverAttached J env id).sessions.lookup id with
  | none => exact ⟨_, rfl⟩
  | some s =>
    dsimp only
    split
    · exact ⟨_, rfl⟩
    · have hc := coreOf_eq_some hs
      obtain ⟨bytes, hdump⟩ : ∃ bytes, s.sharedRing.dump = some bytes := by
        by_cases hid : id ∈ σ.ids
        · obtain ⟨c, hc, hring, _⟩ := hkept.bytes hid hc
          obtain ⟨bytes, hbytes⟩ := hlegible hc
          exact ⟨bytes, (congrArg SharedRingBuffer.dump hring).trans hbytes⟩
        · obtain ⟨page, hborn⟩ := (hkept.born hid hc).1
          exact SharedRingBuffer.dump_isSome_of_even
            (SharedRingBuffer.create_atRest hborn).even
      have hread : ∀ snapshot, (s.withSnapshot snapshot).sharedRing.dump = some bytes :=
        fun _ => hdump
      rw [hread]
      exact ⟨_, rfl⟩

/-- An event that can come is handled to its end, but for the panic. -/
theorem event_error (hinv : Inv σ) (hlegible : Legible σ) (h : σ.event J e = .error stop) :
    stop = .excluded ∨
      ∃ env m, e.env? = some env ∧ env.ringPanic = some m ∧ stop = .panics m := by
  cases e with
  | reap env => cases h
  | childExit pid env => cases h
  | output fd read env => cases h
  | accept fd =>
    simp only [event] at h
    split at h
    · cases h
    · cases h
      exact .inl rfl
  | disconnect fd =>
    simp only [event] at h
    split at h
    · obtain ⟨σ', hσ'⟩ : ∃ σ', σ.handleClientDisconnect fd = .ok σ' :=
        handleClientDisconnect_ends hinv fun id s hs _ => hlegible (coreOf_eq_some hs)
      cases hσ'.symm.trans h
    · cases h
      exact .inl rfl
  | command shared cmd env =>
    simp only [event] at h
    split at h
    · cases cmd with
      | disconnected c => cases h
      | input id data => cases h
      | request c request reply =>
        have hhandled := error_of_map h
        cases request with
        | attach id =>
          have harrived : Legible { σ with wsShared := shared } := hlegible
          obtain ⟨p, hp⟩ := handleWsAttach_total (hinv.withShared shared) harrived J env id
          cases hp.symm.trans hhandled
        | detach => cases hhandled
        | _ =>
          obtain ⟨m, hm, hstop⟩ := handleRequest_error hhandled
          exact .inr ⟨env, m, rfl, hm, hstop⟩
    · cases h
      exact .inl rfl
  | request fd result consumed env =>
    simp only [event] at h
    split at h
    · have hhandled := error_of_map h
      cases result with
      | ok request =>
        obtain ⟨m, hm, hstop⟩ := handleRequest_error hhandled
        exact .inr ⟨env, m, rfl, hm, hstop⟩
      | error message => cases hhandled
    · cases h
      exact .inl rfl

/-- Serving a request takes no connection away. -/
theorem event_request_conn (hinv : Inv σ) {fd : RawFd} {result : Except String Request}
    {consumed : Nat} (h : σ.event J (.request fd result consumed env) = .ok σ') {x : RawFd}
    {conn : Nat} (hconn : σ.connOf x = some conn) : σ'.connOf x = some conn := by
  cases event_runs h with
  | request hclient hadmits h =>
    exact ((serve_outcome hadmits hclient h).kept hinv).conns hconn

end Server

/-! ## What a turn does not survive -/

namespace Turn

/-- The answers to the requests and commands of a turn. -/
def envs (t : Turn) : List Env :=
  t.commands.map (fun c => c.2.2) ++ t.batch.flatMap fun p => p.2.envs

/-- The answers a turn does not survive: an error of `kevent` that is no interruption, an error of
`accept` or for the stream it returned, an error of `read` on a client's socket, and a ring that
cannot be made for a PTY that is there. -/
inductive Fails (t : Turn) : Stop → Prop
  /-- the kernel cannot have answered this way -/
  | excluded : Fails t .excluded
  | kevent {e : String} (h : t.polled = .failed e) : Fails t (.io e)
  | accept {p : KEvent × Answers} {e : String} (hp : p ∈ t.batch)
      (h : .failed e ∈ p.2.accepts ∨ ∃ fd, .refused fd e ∈ p.2.accepts) : Fails t (.io e)
  | read {p : KEvent × Answers} {e : String} (hp : p ∈ t.batch) (h : p.2.clientRead = .failed e) :
      Fails t (.io e)
  | ring {env : Env} {m : String} (henv : env ∈ t.envs) (h : env.ringPanic = some m) :
      Fails t (.panics m)

end Turn

namespace Server

variable {J : Codec} {env : Env} {σ σ' : Server} {e : Event} {t : Turn}

/-- The state of a daemon whose clients write whole blocks. -/
def Intact (σ : Server) : Prop := ∃ w : Streams, w.RingInv ∧ w.server = σ

namespace Intact

theorem inv (h : Intact σ) : Inv σ := by
  obtain ⟨w, hw, rfl⟩ := h
  exact hw.server

theorem legible (h : Intact σ) : Legible σ := by
  obtain ⟨w, hw, rfl⟩ := h
  intro id c hc
  exact SharedRingBuffer.dump_isSome_of_even (hw.ring hc).1.even

private theorem event (h : Intact σ) (hevent : σ.event J e = .ok σ') : Intact σ' := by
  obtain ⟨w, hw, rfl⟩ := h
  exact ⟨w.advance σ', hw.event hevent, rfl⟩

private theorem aside (h : Intact σ) (haside : Aside σ σ') : Intact σ' := by
  obtain ⟨w, hw, rfl⟩ := h
  refine ⟨{ w with server := σ' }, ⟨hw.server.aside haside, ?_, ?_⟩, rfl⟩
  · intro id hid
    exact hw.unborn (haside.ids ▸ hid)
  · intro id c hc
    exact hw.ring ((haside.sessions id).symm.trans hc)

end Intact

/-- The loop's own fields are nobody else's. -/
theorem tick_aside (σ : Server) (running : Bool) (idleSince : Option Nat) :
    Aside σ { σ with running := running, idleSince := idleSince } := by
  have hoccur : σ.occur silent (.tick running idleSince) =
      some { σ with running := running, idleSince := idleSince } := rfl
  rcases occur_cases hoccur with ⟨e, he, _⟩ | ⟨_, haside, _⟩
  · cases he
  · exact haside

/-- The loop goes on from a state like the one before, or the turn has an answer to blame. -/
def Sound (t : Turn) : Except Stop Server → Prop
  | .ok σ => Intact σ
  | .error stop => t.Fails stop

private theorem Intact.sound_event (h : Intact σ) (henv : ∀ env, e.env? = some env → env ∈ t.envs) :
    Sound t (σ.event J e) := by
  cases hevent : σ.event J e with
  | ok σ' => exact h.event hevent
  | error stop =>
    rcases event_error h.inv h.legible hevent with rfl | ⟨env, m, he, hm, rfl⟩
    · exact .excluded
    · exact .ring (henv env he) hm

private theorem Sound.bind {x : Except Stop Server} {f : Server → Except Stop Server}
    (hx : Sound t x)
    (hf : ∀ σ, x = .ok σ → Intact σ → Sound t (f σ)) : Sound t (x.bind f) := by
  cases x with
  | ok σ => exact hf σ rfl hx
  | error stop => exact hx

private theorem decodeLoop_sound (h : Intact σ) {fd : RawFd} {conn : Nat}
    (hconn : σ.connOf fd = some conn)
    {envs : List Env} (henvs : ∀ env ∈ envs, env ∈ t.envs) :
    Sound t (decodeLoop J fd envs σ) := by
  induction envs generalizing σ with
  | nil =>
    obtain ⟨client, hclient, rfl⟩ := Option.map_eq_some_iff.mp hconn
    unfold decodeLoop
    rw [hclient]
    dsimp only
    split
    · exact h
    · exact .excluded
    · rename_i heq
      cases heq
  | cons env envs ih =>
    obtain ⟨client, hclient, rfl⟩ := Option.map_eq_some_iff.mp hconn
    unfold decodeLoop
    rw [hclient]
    dsimp only
    split
    · exact h
    · rename_i heq
      cases heq
    · rename_i result consumed env' envs' _ heq
      cases heq
      split
      · rename_i hadmits
        have hserve : σ.event J (.request fd result consumed env) =
            σ.serve J env fd result consumed := by
          simp only [event, hconn, hadmits, Option.isSome_some, Bool.and_self, if_true]
        rw [← hserve]
        refine (h.sound_event ?_).bind fun τ hτ hsound => ?_
        · intro _ heq
          cases heq
          exact henvs env List.mem_cons_self
        · exact ih hsound (event_request_conn h.inv hτ hconn) fun env henv =>
            henvs env (List.mem_cons_of_mem _ henv)
      · exact .excluded

private theorem handleClientData_sound (h : Intact σ) {p : KEvent × Answers} (hp : p ∈ t.batch)
    (fd : RawFd) : Sound t (σ.handleClientData J p.2.envs fd p.2.clientRead) := by
  unfold handleClientData
  cases hclient : σ.clients.lookup fd with
  | none => exact h
  | some client =>
    dsimp only
    split
    · have hconn : (σ.connOf fd).isSome = true := by rw [connOf, hclient]; rfl
      have hlost : σ.event J (.disconnect fd) = σ.handleClientDisconnect fd := if_pos hconn
      rw [← hlost]
      exact h.sound_event fun _ he => by cases he
    · exact h
    · rename_i e hread
      exact .read hp hread
    · rename_i bytes _
      have hread : Aside σ (σ.putClient fd { client with readBuf := client.readBuf ++ bytes }) :=
        .putClient hclient rfl
      have hconn : (σ.putClient fd { client with readBuf := client.readBuf ++ bytes }).connOf fd =
          some client.stream := (hread.clients fd).trans (by rw [connOf, hclient]; rfl)
      apply decodeLoop_sound (h.aside hread) hconn
      intro env henv
      exact List.mem_append_right _ (List.mem_flatMap.mpr ⟨p, hp, henv⟩)

private theorem acceptClients_sound (h : Intact σ) {accepts : List AcceptResult}
    (haccepts : ∀ e, .failed e ∈ accepts ∨ (∃ fd, .refused fd e ∈ accepts) → t.Fails (.io e)) :
    Sound t (σ.acceptClients accepts) := by
  induction accepts generalizing σ with
  | nil => exact h
  | cons a rest ih =>
    cases a with
    | stream fd =>
      have haccept : Sound t (σ.event silent (.accept fd)) := h.sound_event fun _ he => by cases he
      simp only [event] at haccept
      rw [acceptClients]
      split
      · rename_i hfree
        rw [if_pos hfree] at haccept
        apply ih haccept
        rintro e (hfailed | ⟨fd', hrefused⟩)
        · exact haccepts e (.inl (List.mem_cons_of_mem _ hfailed))
        · exact haccepts e (.inr ⟨fd', List.mem_cons_of_mem _ hrefused⟩)
      · exact .excluded
    | refused fd e => exact haccepts e (.inr ⟨fd, List.mem_cons_self⟩)
    | failed e => exact haccepts e (.inl List.mem_cons_self)

private theorem route_disconnect {ev : KEvent} {fd : RawFd} (h : σ.route ev = .disconnect fd) :
    (σ.connOf fd).isSome = true := by
  unfold route at h
  split at h
  · cases h
  split at h
  · cases h
  split at h
  · cases h
  split at h
  · rename_i hclient
    split at h
    · cases h
      rw [connOf, Option.isSome_map, hclient]
    · cases h
  · split at h <;> cases h

private theorem dispatch_sound (h : Intact σ) {p : KEvent × Answers} (hp : p ∈ t.batch) :
    Sound t (σ.dispatch J p.2 p.1) := by
  rw [dispatch_eq]
  cases hroute : σ.route p.1 with
  | shutdown => exact h.aside (tick_aside σ false σ.idleSince)
  | wakeup => exact h
  | accept => exact acceptClients_sound h fun e he => .accept hp he
  | disconnect fd =>
    have hlost : σ.event J (.disconnect fd) = σ.handleClientDisconnect fd :=
      if_pos (route_disconnect hroute)
    rw [follow, ← hlost]
    exact h.sound_event fun _ he => by cases he
  | clientData fd => exact handleClientData_sound h hp fd
  | childExit pid =>
    have hexit : Sound t (σ.event J (.childExit pid p.2.env)) :=
      h.sound_event fun _ he => by cases he
    exact hexit
  | output fd =>
    have hread : Sound t (σ.event J (.output fd p.2.ptyRead p.2.env)) :=
      h.sound_event fun _ he => by cases he
    exact hread

private theorem dispatchAll_sound (h : Intact σ) {batch : List (KEvent × Answers)}
    (hbatch : ∀ p ∈ batch, p ∈ t.batch) : Sound t (σ.dispatchAll J batch) := by
  induction batch generalizing σ with
  | nil => exact h
  | cons p batch ih =>
    have hfirst := dispatch_sound (J := J) h (hbatch p List.mem_cons_self)
    obtain ⟨ev, ans⟩ := p
    rw [dispatchAll]
    cases hdispatch : σ.dispatch J ans ev with
    | error stop =>
      rw [hdispatch] at hfirst
      exact hfirst
    | ok τ =>
      rw [hdispatch] at hfirst
      dsimp only
      split
      · exact hfirst
      · exact ih hfirst fun q hq => hbatch q (List.mem_cons_of_mem _ hq)

private theorem drainWsCommands_sound (h : Intact σ)
    {commands : List (WsSharedState × WsCommand × Env)}
    (hcommands : ∀ c ∈ commands, c ∈ t.commands) : Sound t (σ.drainWsCommands J commands) := by
  induction commands generalizing σ with
  | nil => exact h
  | cons c commands ih =>
    have hfirst := hcommands c List.mem_cons_self
    obtain ⟨shared, cmd, env⟩ := c
    rw [drainWsCommands]
    split
    · rename_i hadmits
      have hhandle : σ.event J (.command shared cmd env) =
          { σ with wsShared := shared }.handleWsCommand J env cmd := if_pos hadmits
      have hsound : Sound t (σ.event J (.command shared cmd env)) := by
        apply h.sound_event
        intro _ heq
        cases heq
        exact List.mem_append_left _ (List.mem_map_of_mem hfirst)
      rw [hhandle] at hsound
      cases hcmd : { σ with wsShared := shared }.handleWsCommand J env cmd with
      | error stop =>
        rw [hcmd] at hsound
        exact hsound
      | ok τ =>
        rw [hcmd] at hsound
        exact ih hsound fun d hd => hcommands d (List.mem_cons_of_mem _ hd)
    · exact .excluded

private theorem poll_sound (h : Intact σ) : Sound t (σ.poll J t.polled) := by
  cases hpolled : t.polled with
  | events batch =>
    have hbatch : t.batch = batch := by rw [Turn.batch, hpolled, Polled.batch]
    exact dispatchAll_sound h fun p hp => hbatch ▸ hp
  | interrupted => exact h
  | failed e => exact .kevent hpolled

private theorem poll_running {polled : Polled} (h : σ.poll J polled = .ok σ') :
    σ'.running = (σ.running && !stopsIn J σ polled.batch) := by
  cases polled with
  | events batch => exact dispatchAll_running h
  | interrupted =>
    cases h
    simp [Polled.batch, stopsIn]
  | failed e => cases h

private theorem idleCheck_running (σ : Server) (now : Nat) :
    (σ.idleCheck now).running = (σ.running && !σ.idleStops now) := by
  unfold idleCheck idleStops
  cases hdeserted : σ.deserted with
  | false => simp
  | true =>
    cases hsince : σ.idleSince with
    | none => simp
    | some since =>
      by_cases htime : idleTimeout ≤ now - since <;> simp [htime]

private theorem turn_sound (h : Intact σ) : Sound t (σ.turn J t) := by
  rw [turn_eq]
  have hreaped : Intact (σ.reapDead t.reap) :=
    Intact.event (J := J) (e := .reap t.reap) h rfl
  refine (drainWsCommands_sound hreaped fun c hc => hc).bind fun τ _ hτ => ?_
  have hchecked : Intact (τ.idleCheck t.now) := by
    rcases occur_cases (idleCheck_tick J τ t.now) with ⟨e, he, _⟩ | ⟨_, haside, _⟩
    · cases he
    · exact hτ.aside haside
  split
  · exact hchecked
  · exact poll_sound hchecked

/-! ## Runs -/

inductive Happening
  | daemon (m : Occurrence)
  /-- a client reads from its dup and writes what it got to the ring -/
  | clientRead (id : Uuid) (data : List UInt8)

/-- The daemon event by event, with clients that read its PTYs. -/
def happenings (J : Codec) : Transition.System Server Happening where
  init σ := ∃ listener wakeup now, σ = Server.new listener wakeup now
  step σ
    | .daemon m => σ.occur J m
    | .clientRead id data =>
      if σ.passedOn id then
        (σ.sessions.lookup id).map fun s =>
          σ.putSession id { s with sharedRing := s.sharedRing.write data }
      else none

theorem happenings_intact (h : (happenings J).Reachable σ) : Intact σ := by
  apply h.invariant
  · rintro _ ⟨listener, wakeup, now, rfl⟩
    exact ⟨_, Streams.RingInv.start listener wakeup now, rfl⟩
  · intro σ label σ' hσ _ hstep
    cases label with
    | daemon m =>
      rcases occur_cases hstep with ⟨e, _, hevent⟩ | ⟨_, haside, _⟩
      · exact hσ.event hevent
      · exact hσ.aside haside
    | clientRead id data =>
      obtain ⟨w, hw, rfl⟩ := hσ
      simp only [happenings, Option.ite_none_right_eq_some, Option.map_eq_some_iff] at hstep
      obtain ⟨_, s, hs, rfl⟩ := hstep
      exact ⟨_, hw.clientRead hs data, rfl⟩

/-- A codec that knows the Shutdown. -/
private def shuttingOff : Codec where
  request := fun json => if json = [0] then .ok .shutdown else .error "unknown"
  pushAck := fun _ => .error "unknown"
  base64 := fun _ => .error "unknown"

end Server

end PtyDaemon
