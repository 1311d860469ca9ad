import PtyDaemon.Clients.Stopping
import PtyDaemon.Server.Shutdown
import PtyDaemon.Wire.Wait

/-!
# The failure of one connection

An `accept` or a `read` of the loop that fails is passed up, and every session is killed. A `read`
that fails while a takeover waits for its acknowledgement ends the wait and nothing else.
-/

namespace PtyDaemon

/-- The error of an `accept`, or of setting up the stream it returned. -/
def AcceptResult.failure : AcceptResult → Option String
  | .stream _ => none
  | .refused _ message => some message
  | .failed message => some message

/-- What the loop is doing: it serves an event of a batch or a command of the queue. -/
inductive Work
  | event (ans : Answers) (ev : KEvent)
  | command (shared : WsSharedState) (cmd : WsCommand) (env : Env)

namespace Work

def isCommand : Work → Bool
  | .event _ _ => false
  | .command _ _ _ => true

def run (J : Codec) (σ : Server) : Work → Except Stop Server
  | .event ans ev => σ.dispatch J ans ev
  | .command shared cmd env => { σ with wsShared := shared }.handleWsCommand J env cmd

/-- Whether an error has left `run`, and the daemon then: it is dropped as it was at the failure,
which is `τ`. -/
def after (J : Codec) (env : Env) (σ τ : Server) (work : Work) : Bool × Server :=
  match work.run J σ with
  | .ok σ' => (false, σ')
  | .error (.io _) => (true, τ.cleanup env)
  | .error _ => (true, τ)

end Work

/-- The requests of WebSocket clients that take an attached session over. -/
inductive TakesOver (env : Env) (id : Uuid) (s : Session) : Request → Prop
  | attach : TakesOver env id s (.attach id)
  | detach {cols rows : UInt16} {snapshot : Option String} (hcool : s.inCooldown env.now = false) :
      TakesOver env id s (.detach id cols rows snapshot)

namespace Server

variable {J : Codec} {env : Env} {σ σ' σ'' τ : Server} {id : Uuid} {fd : RawFd}

/-- An operation on the connection on `fd` fails; `τ` is the daemon then. -/
inductive ConnectionFailure (σ : Server) (fd : RawFd) (τ : Server) : Work → Prop
  | accept {ans : Answers} {ev : KEvent} {fds : List RawFd} {result : AcceptResult}
      {rest : List AcceptResult} {message : String}
      (hroute : σ.route ev = .accept) (hident : ev.ident = fd)
      (haccepts : ans.accepts = fds.map .stream ++ result :: rest)
      (hfailed : result.failure = some message)
      (hbefore : σ.acceptClients (fds.map .stream) = .ok τ) : ConnectionFailure σ fd τ (.event ans ev)
  | read {ans : Answers} {ev : KEvent} {message : String}
      (hroute : σ.route ev = .clientData fd) (hread : ans.clientRead = .failed message)
      (hsame : τ = σ) : ConnectionFailure σ fd τ (.event ans ev)
  /-- the owner of the session has been told, and no frame is complete when the read fails -/
  | wait {shared : WsSharedState} {c : Nat} {request : Request} {reply : Nat} {env : Env}
      {id : Uuid} {s : Session} {client : ClientState} {before : List (List UInt8)}
      {rest : List AckRead}
      (hs : σ.sessions.lookup id = some s) (hatt : s.state = .attached)
      (howner : s.ownerFd = some fd) (hclient : σ.clients.lookup fd = some client)
      (hrequest : TakesOver env id s request) (hpush : env.pushWritten = true)
      (hreads : env.ackReads = before.map .data ++ .failed :: rest)
      (hframe : (waited (before.map .data) client.readBuf).frame = none) :
      ConnectionFailure σ fd τ (.command shared (.request c request reply) env)

/-- The failure of the connection on `fd` concerns nobody else. -/
structure Contained (fd : RawFd) (σ : Server) (after : Bool × Server) : Prop where
  staysIn : after.1 = false
  running : after.2.running = σ.running
  sessions : ∀ {id s}, σ.sessions.lookup id = some s →
    ∃ s', after.2.sessions.lookup id = some s' ∧ (s.ownerFd ≠ some fd → s' = s)
  masters : ∀ {id s}, σ.sessions.lookup id = some s →
    after.2.fds.lookup s.masterFd = σ.fds.lookup s.masterFd
  children : ∀ {id s signal}, σ.sessions.lookup id = some s →
    .signalled s.childPid signal ∈ after.2.trace → .signalled s.childPid signal ∈ σ.trace

/-! ## Errors that are passed up -/

private theorem acceptClients_append (accepts rest : List AcceptResult) (σ : Server) :
    σ.acceptClients (accepts ++ rest) =
      (σ.acceptClients accepts).bind fun σ => σ.acceptClients rest := by
  induction accepts generalizing σ with
  | nil => rfl
  | cons a accepts ih =>
    cases a with
    | stream fd =>
      simp only [List.cons_append, acceptClients]
      split
      · exact ih _
      · rfl
    | refused fd e => rfl
    | failed e => rfl

private theorem acceptClients_sessions {accepts : List AcceptResult}
    (h : σ.acceptClients accepts = .ok τ) : τ.sessions = σ.sessions := by
  induction accepts generalizing σ with
  | nil =>
    cases h
    rfl
  | cons a accepts ih =>
    cases a with
    | stream fd =>
      rw [acceptClients] at h
      split at h
      · exact (ih h).trans rfl
      · cases h
    | refused fd e => cases h
    | failed e => cases h

private theorem route_clientData {ev : KEvent} (h : σ.route ev = .clientData fd) :
    (σ.clients.lookup fd).isSome = true := by
  unfold route at h
  split at h
  · cases h
  split at h
  · cases h
  split at h
  · cases h
  split at h
  · rename_i hclient
    split at h
    · cases h
    · cases h
      exact hclient
  · split at h <;> cases h

/-- The error of an event is passed up, and the sessions are those from before it. -/
theorem ConnectionFailure.passedUp {ans : Answers} {ev : KEvent} (J : Codec) (hinv : Inv σ)
    (h : ConnectionFailure σ fd τ (.event ans ev)) :
    (∃ message, σ.dispatch J ans ev = .error (.io message)) ∧ τ.sessions = σ.sessions ∧ Inv τ := by
  cases h with
  | @accept _ _ fds result rest message hroute hident haccepts hfailed hbefore =>
    have hfails : τ.acceptClients (result :: rest) = .error (.io message) := by
      cases result with
      | stream fd => cases hfailed
      | refused fd e =>
        cases hfailed
        rfl
      | failed e =>
        cases hfailed
        rfl
    refine ⟨⟨message, ?_⟩, acceptClients_sessions hbefore,
      (acceptClients_steps (J := J) hbefore).inv hinv⟩
    rw [dispatch_eq, hroute, follow, haccepts, acceptClients_append, hbefore]
    exact hfails
  | @read _ _ message hroute hread hsame =>
    obtain ⟨client, hclient⟩ := Option.isSome_iff_exists.mp (route_clientData hroute)
    refine ⟨⟨message, ?_⟩, by rw [hsame], hsame ▸ hinv⟩
    rw [dispatch_eq, hroute, follow, handleClientData, hclient, hread]

/-! ## The error that ends a wait -/

/-- At most the session `id` changes, and nobody is signalled. -/
structure Confined (id : Uuid) (σ σ' : Server) : Prop where
  others : ∀ i ≠ id, σ'.sessions.lookup i = σ.sessions.lookup i
  stays : (σ.sessions.lookup id).isSome = true → (σ'.sessions.lookup id).isSome = true
  running : σ'.running = σ.running
  fds : σ'.fds = σ.fds
  trace : ∀ {pid signal}, .signalled pid signal ∈ σ'.trace → .signalled pid signal ∈ σ.trace

namespace Confined

private theorem refl (id : Uuid) (σ : Server) : Confined id σ σ :=
  ⟨fun _ _ => rfl, fun h => h, rfl, rfl, fun h => h⟩

private theorem trans (h : Confined id σ σ') (h' : Confined id σ' σ'') : Confined id σ σ'' where
  others i hi := (h'.others i hi).trans (h.others i hi)
  stays hs := h'.stays (h.stays hs)
  running := h'.running.trans h.running
  fds := h'.fds.trans h.fds
  trace hmem := h.trace (h'.trace hmem)

private theorem putSession (id : Uuid) (σ : Server) (s : Session) :
    Confined id σ (σ.putSession id s) where
  others i hi := (lookup_putSession σ id i s).trans (if_neg hi)
  stays _ := by rw [lookup_putSession_self, Option.isSome_some]
  running := rfl
  fds := rfl
  trace h := h

private theorem emit (id : Uuid) (σ : Server) {a : Act}
    (ha : ∀ pid signal, a ≠ .signalled pid signal) :
    Confined id σ (σ.emit a) where
  others _ _ := rfl
  stays h := h
  running := rfl
  fds := rfl
  trace {pid signal} h := (List.mem_cons.mp h).resolve_left fun heq => ha pid signal heq.symm

private theorem register (id : Uuid) (σ : Server) (fd : RawFd) : Confined id σ (σ.register fd) :=
  ⟨fun _ _ => rfl, fun h => h, rfl, rfl, fun h => h⟩

end Confined

private theorem waitForDetachAck_confined (J : Codec) (id : Uuid) (reads : List AckRead)
    {client : ClientState} (hclient : σ.clients.lookup fd = some client) :
    Confined id σ (waitForDetachAck J fd id reads σ).1 := by
  obtain ⟨_, hsessions, htrace, _⟩ := waitForDetachAck_spec J id reads hclient
  have haside := waitForDetachAck_aside J fd id reads σ
  exact ⟨fun _ _ => by rw [hsessions], fun h => by rwa [hsessions], waitForDetachAck_running ..,
    haside.fds, fun h => by rwa [htrace] at h⟩

private theorem handleDetach_confined (σ : Server) (id : Uuid) (snapshot : Option GridSnapshot) :
    Confined id σ (σ.handleDetach id 0 0 snapshot).1 := by
  unfold handleDetach
  split
  · exact .refl id σ
  · rw [if_neg fun h : (0 : UInt16) < 0 ∧ (0 : UInt16) < 0 => absurd h.1 (by decide)]
    exact (Confined.putSession id σ _).trans (.register id _ _)

private theorem forceCompleteTakeover_confined (σ : Server) (id : Uuid)
    (snapshot : Option GridSnapshot) :
    Confined id σ (σ.forceCompleteTakeover id snapshot).1 := by
  unfold forceCompleteTakeover
  split
  · exact .refl id σ
  · exact ((Confined.putSession id σ _).trans (.register id _ _)).trans (.emit id _ (by simp))

private theorem handleBatonTakeover_confined (J : Codec) (env : Env) (σ : Server) (id : Uuid) :
    Confined id σ (σ.handleBatonTakeover J env id).1 := by
  cases handleBatonTakeover_cases J env σ id with
  | unowned hnone h =>
    rw [h]
    exact handleDetach_confined ..
  | unreached hs hatt howner hnot h =>
    rw [h]
    exact forceCompleteTakeover_confined ..
  | @unwritten s fd client hs hatt howner hclient hpush h =>
    rw [h]
    have hcut := Confined.emit id σ (a := .cut client.stream (.push (.forceDetach id)) env.cut)
      (by simp)
    exact hcut.trans (forceCompleteTakeover_confined ..)
  | @pushed s fd client hs hatt howner hclient hpush h =>
    rw [h]
    have hpushed := Confined.emit id σ (a := .sent client.stream (.push (.forceDetach id))) (by simp)
    have hwaited := hpushed.trans (waitForDetachAck_confined J id env.ackReads hclient)
    exact hwaited.trans (forceCompleteTakeover_confined ..)

private theorem takeOverAttached_confined (J : Codec) (env : Env) (σ : Server) (id : Uuid) :
    Confined id σ (σ.takeOverAttached J env id) := by
  rcases takeOverAttached_cases J env σ id with ⟨_, _, _, htaken⟩ | ⟨_, hsame⟩
  · rw [htaken]
    exact handleBatonTakeover_confined ..
  · rw [hsame]
    exact .refl id σ

private theorem handleWsAttach_confined {p : Server × Response}
    (h : σ.handleWsAttach J env id = .ok p) :
    Confined id σ p.1 := by
  have htaken := takeOverAttached_confined J env σ id
  cases handleWsAttach_cases h with
  | missing hs h =>
    rw [h]
    exact htaken
  | dead hs hdead h =>
    rw [h]
    exact htaken
  | joined hs halive hdump h =>
    rw [h]
    dsimp only
    split
    · exact htaken.trans (.putSession id _ _)
    · exact (htaken.trans (.register id _ _)).trans (.putSession id _ _)

/-- The session is attached and not in its cooldown. -/
theorem handleWsDetach_confined {s : Session} (J : Codec) (hs : σ.sessions.lookup id = some s)
    (hatt : s.state = .attached) (hcool : s.inCooldown env.now = false) :
    Confined id σ (σ.handleWsDetach J env id).1 := by
  have hfound : ∀ {t}, σ.sessions.lookup id = some t → t = s := fun ht =>
    Option.some.inj (ht.symm.trans hs)
  have hattached : s.isAttached = true := decide_eq_true hatt
  cases handleWsDetach_cases J env σ id with
  | missing hnone h => cases hs.symm.trans hnone
  | taken hs' hatt' hcool' h =>
    rw [h]
    exact (Confined.putSession id σ _).trans (handleBatonTakeover_confined ..)
  | cooling hs' hatt' hcool' h =>
    rw [hfound hs', hcool] at hcool'
    cases hcool'
  | released hs' hfree hprevious h =>
    rw [hfound hs', hattached] at hfree
    cases hfree
  | detached hs' hfree hprevious h =>
    rw [hfound hs', hattached] at hfree
    cases hfree

/-- A takeover is carried through whatever its wait meets. -/
theorem takesOver_confined (J : Codec) (shared : WsSharedState) (c reply : Nat) {request : Request}
    {s : Session} (hinv : Inv σ) (hlegible : Legible σ) (hs : σ.sessions.lookup id = some s)
    (hatt : s.state = .attached) (hrequest : TakesOver env id s request) :
    ∃ σ', { σ with wsShared := shared }.handleWsCommand J env (.request c request reply) = .ok σ' ∧
      Confined id σ σ' := by
  have harrived : Confined id σ { σ with wsShared := shared } :=
    ⟨fun _ _ => rfl, fun h => h, rfl, rfl, fun h => h⟩
  cases hrequest with
  | attach =>
    obtain ⟨p, hp⟩ := handleWsAttach_total (hinv.withShared shared)
      (show Legible { σ with wsShared := shared } from hlegible) J env id
    refine ⟨p.1.emit (.replied reply p.2), ?_, ?_⟩
    · rw [handleWsCommand, hp]
      rfl
    · exact (harrived.trans (handleWsAttach_confined hp)).trans (.emit id _ (by simp))
  | detach hcool =>
    refine ⟨_, rfl, ?_⟩
    have hfound : { σ with wsShared := shared }.sessions.lookup id = some s := hs
    exact (harrived.trans (handleWsDetach_confined J hfound hatt hcool)).trans (.emit id _ (by simp))

/-- The failure of a connection is contained just if it is the read of a takeover that fails. Any
other ends the loop, and every session is killed. -/
theorem failure_contained_iff {work : Work} (hreach : (happenings J).Reachable σ)
    (hfail : ConnectionFailure σ fd τ work) (env : Env) :
    (Contained fd σ (work.after J env σ τ) ↔ work.isCommand = true) ∧
      (work.isCommand = false → (work.after J env σ τ).1 = true ∧
        (∀ id, (work.after J env σ τ).2.sessions.lookup id = none) ∧
        ∀ {id s}, σ.sessions.lookup id = some s → Killed env s (work.after J env σ τ).2) := by
  have hintact := happenings_intact hreach
  cases work with
  | event ans ev =>
    obtain ⟨⟨message, hdispatch⟩, hsame, hinv⟩ := hfail.passedUp J hintact.inv
    have hafter : (Work.event ans ev).after J env σ τ = (true, τ.cleanup env) := by
      rw [Work.after, Work.run, hdispatch]
    obtain ⟨hgone, hkilled⟩ := cleanup_kills env hinv
    rw [hafter]
    refine ⟨⟨fun h => ?_, fun h => ?_⟩, fun _ => ⟨rfl, hgone, fun hs => hkilled (hsame ▸ hs)⟩⟩
    · cases h.staysIn
    · cases h
  | command shared cmd answers =>
    refine ⟨⟨fun _ => rfl, fun _ => ?_⟩, fun h => by cases h⟩
    cases hfail with
    | @wait shared c request reply _ id s client before rest hs hatt howner hclient hrequest =>
      obtain ⟨σ', hσ', hconfined⟩ := takesOver_confined J shared c reply hintact.inv
        hintact.legible hs hatt hrequest
      have hafter : (Work.command shared (.request c request reply) answers).after J env σ τ =
          (false, σ') := by
        rw [Work.after, Work.run, hσ']
      rw [hafter]
      refine ⟨rfl, hconfined.running, fun {i t} ht => ?_, fun _ => by rw [hconfined.fds],
        fun _ hmem => hconfined.trace hmem⟩
      by_cases hi : i = id
      · subst hi
        obtain ⟨s', hs'⟩ := Option.isSome_iff_exists.mp (hconfined.stays (by rw [ht]; rfl))
        refine ⟨s', hs', fun hother => ?_⟩
        cases hs.symm.trans ht
        exact absurd howner hother
      · exact ⟨t, (hconfined.others i hi).trans ht, fun _ => rfl⟩

private theorem loop_happens (h : (loop J).Reachable σ) : (happenings J).Reachable σ := by
  apply (loop_occurrences h).invariant
  · intro σ hinit
    exact .start hinit
  · intro σ m σ' hreach _ hstep
    have hdaemon : (happenings J).step σ (.daemon m) = some σ' := hstep
    exact hreach.next trivial hdaemon

private def creating : Codec where
  request := fun json =>
    if json = [0] then .ok (.create none 80 24 none none none)
    else if json = [1] then .ok (.attach 7)
    else .error "unknown"
  pushAck := fun _ => .error "unknown"
  base64 := fun _ => .error "unknown"

private theorem attached_reachable :
    ∃ σ s client, (loop creating).Reachable σ ∧ σ.sessions.lookup 7 = some s ∧
      s.childPid = 100 ∧ s.state = .attached ∧ s.ownerFd = some 5 ∧
      σ.clients.lookup 5 = some client ∧ σ.route ⟨3, .read, false⟩ = .accept ∧
      σ.route ⟨5, .read, false⟩ = .clientData 5 := by
  have hrun : ((loop creating).exec (Server.new 3 none 0)
      [readable 3 [.stream 5] [] [],
        readable 5 [] (encodeMessage [0] ++ encodeMessage [1]) [calm, calmLater]]).map
      (fun σ => ((σ.sessions.lookup 7).map fun s => (s.childPid, s.isAttached, s.ownerFd),
        (σ.listener, σ.wsWakeupPipe.isNone, (σ.clients.lookup 5).isSome))) =
      some (some (100, true, some 5), (3, true, true)) := by decide +kernel
  obtain ⟨σ, hexec, hall⟩ := Option.map_eq_some_iff.mp hrun
  simp only [Prod.mk.injEq, Option.isNone_iff_eq_none] at hall
  obtain ⟨hsession, hlistener, hpipe, hsome⟩ := hall
  obtain ⟨s, hs, hfields⟩ := Option.map_eq_some_iff.mp hsession
  simp only [Prod.mk.injEq] at hfields
  obtain ⟨client, hclient⟩ := Option.isSome_iff_exists.mp hsome
  have hstart : (loop creating).Reachable (Server.new 3 none 0) := .start ⟨3, none, 0, rfl⟩
  refine ⟨σ, s, client, hstart.exec hexec, hs, hfields.1, of_decide_eq_true hfields.2.1,
    hfields.2.2, hclient, ?_, ?_⟩
  · simp [route, hpipe, hlistener]
  · simp [route, hpipe, hlistener, hsome]

/-- A WebSocket client attaches session 7, and the connection of its owner is reset: where the
daemon is waiting for the acknowledgement, nothing else happens; where the loop reads, the child is
sent a hangup. -/
theorem failure_contained_iff_reset : ∃ σ, (loop creating).Reachable σ ∧
    Contained 5 σ ((Work.command .new (.request 0 (.attach 7) 0)
      { calmLater with ackReads := [.failed] }).after creating calm σ σ) ∧
    .signalled 100 .hup ∈ ((Work.event ⟨[], .failed "connection reset by peer", .failed, calm, []⟩
      ⟨5, .read, false⟩).after creating calm σ σ).2.trace := by
  obtain ⟨σ, s, client, hreach, hs, hpid, hatt, howner, hclient, _, hread⟩ := attached_reachable
  refine ⟨σ, hreach, ?_, ?_⟩
  · have hfail : ConnectionFailure σ 5 σ (.command .new (.request 0 (.attach 7) 0)
        { calmLater with ackReads := [.failed] }) := by
      have hreads : [AckRead.failed] = ([] : List (List UInt8)).map .data ++ .failed :: [] := rfl
      exact .wait hs hatt howner hclient .attach rfl hreads rfl
    exact (failure_contained_iff (loop_happens hreach) hfail calm).1.mpr rfl
  · have hfail : ConnectionFailure σ 5 σ (.event
        ⟨[], .failed "connection reset by peer", .failed, calm, []⟩ ⟨5, .read, false⟩) :=
      .read hread rfl rfl
    have hends := (failure_contained_iff (loop_happens hreach) hfail calm).2 rfl
    exact hpid ▸ (hends.2.2 hs).signalled rfl

/-- No descriptor is left for the next connection. -/
theorem accept_failure_kills :
    ¬ ∀ (J : Codec) (env : Env) (σ τ : Server) (fd : RawFd) (work : Work),
      (loop J).Reachable σ → ConnectionFailure σ fd τ work →
        Contained fd σ (work.after J env σ τ) := by
  intro h
  obtain ⟨σ, s, client, hreach, _, _, _, _, _, haccept, _⟩ := attached_reachable
  let ans : Answers := ⟨[.failed "too many open files"], .wouldBlock, .failed, calm, []⟩
  have haccepts : ans.accepts = ([] : List RawFd).map .stream ++ .failed _ :: [] := rfl
  have hfail : ConnectionFailure σ 3 σ (.event ans ⟨3, .read, false⟩) :=
    .accept haccept rfl haccepts rfl rfl
  have hstays := (h creating calm σ σ 3 _ hreach hfail).staysIn
  have hends : σ.dispatch creating ans ⟨3, .read, false⟩ =
      .error (.io "too many open files") := by
    rw [dispatch_eq, haccept]
    rfl
  rw [Work.after, Work.run, hends] at hstays
  cases hstays

end Server

end PtyDaemon
