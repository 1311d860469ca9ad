import PtyDaemon.Ws.Tasks

/-!
# Giving a session back

A session taken over from a local client goes back to it by a baton release. A client that detaches
brings the release about; a client that goes away in any other way has taken itself out of the
shared table before it says so, and the daemon does not find the session any more.
-/

namespace PtyDaemon

open Server

/-- Commands by which a client leaves the session `id`. -/
def WsCommand.leaves (id : Uuid) : WsCommand → Prop
  | .request _ (.detach sessionId _ _ _) _ => sessionId = id
  | .request _ _ _ => False
  | .disconnected _ => True
  | .input _ _ => False

namespace Server

variable {J : Codec} {env : Env} {σ σ' : Server} {e : Event}

/-- The daemon only takes clients out of the table. -/
theorem event_clientSessions (hinv : Inv σ) (h : σ.event J e = .ok σ') :
    σ'.wsShared.nextClientId = (σ.arrive e).wsShared.nextClientId ∧
      ∀ {c id}, σ'.wsShared.clientSessions.lookup c = some id →
        (σ.arrive e).wsShared.clientSessions.lookup c = some id := by
  rcases event_shared hinv h with ⟨⟨ended, htold⟩, _⟩ | ⟨id, bytes, harrive, hread⟩
  · rw [htold.shared]
    exact WsSharedState.told_clientSessions ended _
  · rw [harrive]
    cases hread
    exact ⟨rfl, fun h => h⟩

/-- A takeover leaves the session with nobody. -/
theorem handleBatonTakeover_active (J : Codec) (env : Env) {id : Uuid} {s : Session}
    (hs : σ.sessions.lookup id = some s) :
    ∃ s', (σ.handleBatonTakeover J env id).1.sessions.lookup id = some s' ∧ s'.state = .active := by
  have hdetach : ∃ s', (σ.handleDetach id 0 0 none).1.sessions.lookup id = some s' ∧
      s'.state = .active := by
    rw [handleDetach, hs]
    exact ⟨_, lookup_putSession_self σ id _, rfl⟩
  have hforce : ∀ {τ : Server} {t : Session} (snapshot : Option GridSnapshot),
      τ.sessions.lookup id = some t →
        ∃ s', (τ.forceCompleteTakeover id snapshot).1.sessions.lookup id = some s' ∧
          s'.state = .active := by
    intro τ t snapshot ht
    rw [forceCompleteTakeover, ht]
    exact ⟨_, lookup_putSession_self τ id _, rfl⟩
  cases handleBatonTakeover_cases J env σ id with
  | unowned hnone h =>
    rw [h]
    exact hdetach
  | unreached hs' hatt howner hnot h =>
    rw [h]
    exact hforce _ hs
  | @unwritten s' fd client hs' hatt howner hclient hpush h =>
    rw [h]
    exact hforce _ (show (σ.emit _).sessions.lookup id = some s from hs)
  | @pushed s' fd client hs' hatt howner hclient hpush h =>
    rw [h]
    obtain ⟨t, ht, _⟩ := (waitForDetachAck_aside J fd id env.ackReads _).lookup
      (show (σ.emit (.sent client.stream (.push (.forceDetach id)))).sessions.lookup id = some s
        from hs)
    exact hforce _ ht

/-- A release that succeeds gives the session to its previous owner. -/
theorem handleBatonRelease_attached {id : Uuid} {s : Session} {fd d : RawFd}
    (hs : σ.sessions.lookup id = some s) (hprev : s.previousOwnerFd = some fd)
    (hopen : (σ.connOf fd).isSome) (hdup : env.dup = some d) (hpush : env.pushWritten = true)
    (hsent : env.fdSent = true) :
    ∃ s', (σ.handleBatonRelease env id).1.sessions.lookup id = some s' ∧ s'.state = .attached ∧
      s'.ownerFd = some fd := by
  obtain ⟨client, hclient⟩ := Option.isSome_iff_exists.mp (Option.isSome_map.symm.trans hopen)
  unfold handleBatonRelease
  simp only [hs, hprev, hclient, hdup, hpush, hsent, Bool.and_self, if_true]
  exact ⟨_, lookup_putSession_self _ id _, rfl, rfl⟩

/-- What a client's Detach makes of a session with a previous owner that is still there. -/
theorem handleWsDetach_returns {id : Uuid} {s : Session} {fd d : RawFd}
    (hs : σ.sessions.lookup id = some s) (hprev : s.previousOwnerFd = some fd)
    (hopen : (σ.connOf fd).isSome) (hdup : env.dup = some d) (hpush : env.pushWritten = true)
    (hsent : env.fdSent = true) :
    (∃ s', (σ.handleWsDetach J env id).1.sessions.lookup id = some s' ∧ s'.state = .attached ∧
        s'.ownerFd = some fd) ↔
      s.state = .attached ∧ s.ownerFd = some fd ∧ s.inCooldown env.now = true ∨
        s.state ≠ .attached := by
  have hself : ∀ t, (σ.putSession id t).sessions.lookup id = some t := lookup_putSession_self σ id
  have hsame : ∀ {t : Session}, σ.sessions.lookup id = some t → t = s :=
    fun ht => Option.some.inj (ht.symm.trans hs)
  cases handleWsDetach_cases J env σ id with
  | missing hnone h => cases hnone.symm.trans hs
  | taken hs' hatt hcool h =>
    cases hsame hs'
    have hstate : s.state = .attached := of_decide_eq_true hatt
    obtain ⟨s', hs', hactive⟩ := handleBatonTakeover_active J env (hself s.wsClientGone)
    rw [h]
    constructor
    · rintro ⟨s'', hs'', hatt', _⟩
      cases hs'.symm.trans hs''
      cases hactive.symm.trans hatt'
    · rintro (⟨_, _, hwarm⟩ | hfree)
      · cases hwarm.symm.trans hcool
      · exact absurd hstate hfree
  | cooling hs' hatt hcool h =>
    cases hsame hs'
    have hstate : s.state = .attached := of_decide_eq_true hatt
    rw [h]
    constructor
    · rintro ⟨s', hs', _, howner⟩
      cases (hself _).symm.trans hs'
      exact .inl ⟨hstate, howner, hcool⟩
    · rintro (⟨_, howner, _⟩ | hfree)
      · exact ⟨s.wsClientGone, hself _, hstate, howner⟩
      · exact absurd hstate hfree
  | released hs' hfree hprevious h =>
    cases hsame hs'
    have hstate : s.state ≠ .attached := of_decide_eq_false hfree
    have hprev' : s.wsClientGone.previousOwnerFd = some fd := hprev
    have hreturned := handleBatonRelease_attached (hself _) hprev' hopen hdup hpush hsent
    rw [h]
    exact ⟨fun _ => .inr hstate, fun _ => hreturned⟩
  | detached hs' hfree hprevious h =>
    cases hsame hs'
    cases hprev.symm.trans hprevious

end Server

namespace WsWorld

variable {J : Codec} {w w' : WsWorld} {l : Label}

/-- Who stands in the shared table is attached, and who has left says so last. -/
structure TableInv (w : WsWorld) : Prop where
  fresh : ∀ {c conn}, w.connections.lookup c = some conn → c < w.shared.nextClientId
  attached : ∀ {c id}, w.shared.clientSessions.lookup c = some id →
    ∃ conn, w.connections.lookup c = some conn ∧ conn.attachedSession = some id
  left : ∀ {c conn}, w.connections.lookup c = some conn → conn.task.inLoop = false →
    conn.attachedSession = none
  queued : ∀ {c}, .disconnected c ∈ w.queue →
    ∃ conn, w.connections.lookup c = some conn ∧ conn.task = .gone

/-- The connection accepted next has no number yet. -/
theorem TableInv.accepted (h : TableInv w) {c : Nat} {conn : WsConnection}
    (hconn : w.connections.lookup c = some conn) : w.accept.connections.lookup c = some conn :=
  (Table.lookup_insert w.connections w.shared.nextClientId c .new).trans
    ((if_neg (Nat.ne_of_lt (h.fresh hconn))).trans hconn)

/-- The others were there before. -/
theorem lookup_accept {c : Nat} {conn : WsConnection}
    (hconn : w.accept.connections.lookup c = some conn) :
    c = w.shared.nextClientId ∧ conn = .new ∨ w.connections.lookup c = some conn := by
  have hlookup : w.accept.connections.lookup c =
      if c = w.shared.nextClientId then some .new else w.connections.lookup c :=
    Table.lookup_insert w.connections w.shared.nextClientId c .new
  rw [hlookup] at hconn
  split at hconn
  · rename_i hc
    exact .inl ⟨hc, (Option.some.inj hconn).symm⟩
  · exact .inr hconn

/-- The new connection is in nobody's table. -/
theorem TableInv.accept (h : TableInv w) : TableInv w.accept := by
  constructor
  case fresh =>
    intro c conn hconn
    change c < w.shared.nextClientId + 1
    rcases lookup_accept hconn with ⟨rfl, _⟩ | hconn
    · exact Nat.lt_succ_self _
    · exact Nat.lt_succ_of_lt (h.fresh hconn)
  case attached =>
    intro c id hid
    obtain ⟨conn, hconn, hattached⟩ := h.attached hid
    exact ⟨conn, h.accepted hconn, hattached⟩
  case left =>
    intro c conn hconn hleft
    rcases lookup_accept hconn with ⟨_, rfl⟩ | hconn
    · rfl
    · exact h.left hconn hleft
  case queued =>
    intro c hc
    obtain ⟨conn, hconn, hgone⟩ := h.queued hc
    exact ⟨conn, h.accepted hconn, hgone⟩

private theorem did_clientSessions {t t' : WsSharedState} {c : Nat} {out : Uuid → Nat}
    {conn conn' : WsConnection} {cmd : Option WsCommand} (hdid : conn.Did t c out t' conn' cmd)
    (hattached : ∀ {id}, t.clientSessions.lookup c = some id → conn.attachedSession = some id) :
    t'.nextClientId = t.nextClientId ∧
      (∀ {i id}, t'.clientSessions.lookup i = some id → i ≠ c →
        t.clientSessions.lookup i = some id) ∧
      ∀ {id}, t'.clientSessions.lookup c = some id → conn'.attachedSession = some id := by
  have herase : ∀ sid : Uuid, (∀ {i id}, (t.unsubscribe sid c).clientSessions.lookup i = some id →
      i ≠ c → t.clientSessions.lookup i = some id) ∧
      ∀ {id}, (t.unsubscribe sid c).clientSessions.lookup c ≠ some id := by
    intro sid
    have hlookup : ∀ i, (t.unsubscribe sid c).clientSessions.lookup i =
        if i = c then none else t.clientSessions.lookup i := Table.lookup_erase t.clientSessions c
    refine ⟨fun {i id} hi hne => ?_, fun {id} hc => ?_⟩
    · rwa [hlookup, if_neg hne] at hi
    · rw [hlookup, if_pos rfl] at hc
      cases hc
  cases hdid with
  | aside _ _ _ hsame _ _ _ =>
    exact ⟨rfl, fun hi _ => hi, fun hid => hsame.trans (hattached hid)⟩
  | leave _ _ _ _ _ =>
    cases hsession : conn.attachedSession with
    | none =>
      refine ⟨rfl, fun hi _ => hi, fun hid => ?_⟩
      cases hsession.symm.trans (hattached hid)
    | some sid =>
      exact ⟨rfl, (herase sid).1, fun hid => absurd hid (herase sid).2⟩
  | @subscribe _ request response dumpedAt sid history _ _ _ hattached' _ _ =>
    have hlookup : ∀ i, (t.subscribe sid c).2.clientSessions.lookup i =
        if i = c then some sid else t.clientSessions.lookup i := fun i =>
      Table.lookup_insert t.clientSessions c i sid
    refine ⟨rfl, fun hi hne => ?_, fun hid => ?_⟩
    · rwa [hlookup, if_neg hne] at hi
    · rw [hlookup, if_pos rfl] at hid
      exact hattached'.trans hid
  | deliver _ _ _ => exact ⟨rfl, fun hi _ => hi, fun hid => hattached hid⟩
  | @ended _ rx sid _ _ _ _ _ _ _ _ =>
    exact ⟨rfl, (herase sid).1, fun hid => absurd hid (herase sid).2⟩
  | report _ => exact ⟨rfl, fun hi _ => hi, fun hid => hattached hid⟩

theorem TableInv.task (h : TableInv w) {c : Nat} {conn conn' : WsConnection}
    {t : WsSharedState} {cmd : Option WsCommand} {out : Uuid → Nat}
    (hconn : w.connections.lookup c = some conn) (hdid : conn.Did w.shared c out t conn' cmd) :
    TableInv { w.withShared t with
      connections := w.connections.insert c conn'
      queue := w.queue ++ cmd.toList } := by
  obtain ⟨hnext, hother, hself⟩ := did_clientSessions hdid fun {id} hid => by
    obtain ⟨conn₀, hconn₀, hattached⟩ := h.attached hid
    cases hconn.symm.trans hconn₀
    exact hattached
  have hlookup := Table.lookup_insert w.connections c
  constructor
  case fresh =>
    intro i conn₁ hi
    change i < t.nextClientId
    rw [hnext]
    rw [hlookup] at hi
    split at hi
    · rename_i hc
      exact hc ▸ h.fresh hconn
    · exact h.fresh hi
  case attached =>
    intro i id hi
    by_cases hc : i = c
    · subst hc
      exact ⟨conn', (hlookup i conn').trans (if_pos rfl), hself hi⟩
    · obtain ⟨conn₁, hconn₁, hattached⟩ := h.attached (hother hi hc)
      exact ⟨conn₁, (hlookup i conn').trans ((if_neg hc).trans hconn₁), hattached⟩
  case left =>
    intro i conn₁ hi hleft
    rw [hlookup] at hi
    split at hi
    · cases hi
      cases hdid with
      | aside _ hloop _ _ _ _ _ => cases hloop.symm.trans hleft
      | leave _ _ hattached _ _ => exact hattached
      | subscribe _ _ htask' _ _ _ => cases (htask' ▸ hleft : WsTask.reading.inLoop = false)
      | deliver htask _ _ =>
        have hleft' : conn.task.inLoop = false := hleft
        cases (htask ▸ hleft' : WsTask.reading.inLoop = false)
      | ended _ _ _ _ _ hattached _ _ => exact hattached
      | report htask =>
        have hleft' : conn.task.inLoop = false := by rw [htask]; rfl
        exact (h.left hconn hleft' : conn.attachedSession = none)
    · exact h.left hi hleft
  case queued =>
    intro i hi
    rcases List.mem_append.mp hi with hold | hsent
    · obtain ⟨conn₁, hconn₁, hgone⟩ := h.queued hold
      have hc : i ≠ c := by
        rintro rfl
        cases hconn.symm.trans hconn₁
        -- a task that is gone takes no step
        cases hdid with
        | aside hloop _ _ _ _ _ _ => cases (hgone ▸ hloop : WsTask.gone.inLoop = true)
        | leave hloop _ _ _ _ => cases (hgone ▸ hloop : WsTask.gone.inLoop = true)
        | subscribe htask _ _ _ _ _ => cases hgone.symm.trans htask
        | deliver htask _ _ => cases hgone.symm.trans htask
        | ended htask _ _ _ _ _ _ _ => cases hgone.symm.trans htask
        | report htask => cases hgone.symm.trans htask
      exact ⟨conn₁, (hlookup i conn').trans ((if_neg hc).trans hconn₁), hgone⟩
    · cases hdid with
      | aside _ _ _ _ _ _ hcmd => cases hcmd _ (Option.mem_toList.mp hsent)
      | report _ =>
        have hc : i = c := by simpa using hsent
        subst hc
        exact ⟨_, (hlookup i _).trans (if_pos rfl), rfl⟩
      | _ => cases hsent

/-- The daemon takes clients out of the table and commands out of the queue. -/
theorem TableInv.event (h : TableInv w) (hinv : Inv w.server) {e : Event} {σ' : Server}
    {connections : Table Nat WsConnection} {queue : List WsCommand}
    (harrive : w.server.arrive e = w.server) (hevent : w.server.event J e = .ok σ')
    (hqueue : queue ⊆ w.queue)
    (hnew : ∀ {c conn'}, connections.lookup c = some conn' →
      ∃ conn, w.connections.lookup c = some conn ∧
        conn'.attachedSession = conn.attachedSession ∧
        (conn'.task.inLoop = conn.task.inLoop ∧ (conn.task = .gone → conn'.task = .gone)))
    (hkeep : ∀ {c conn}, w.connections.lookup c = some conn →
      ∃ conn', connections.lookup c = some conn') :
    TableInv { w with
      streams := w.streams.advance σ', connections := connections, queue := queue } := by
  obtain ⟨hnext, hsessions⟩ := event_clientSessions hinv hevent
  rw [harrive] at hnext
  constructor
  case fresh =>
    intro c conn' hconn'
    obtain ⟨conn, hconn, _⟩ := hnew hconn'
    change c < σ'.wsShared.nextClientId
    rw [hnext]
    exact h.fresh hconn
  case attached =>
    intro c id hid
    have hid' := hsessions hid
    rw [harrive] at hid'
    obtain ⟨conn, hconn, hattached⟩ := h.attached hid'
    obtain ⟨conn', hconn'⟩ := hkeep hconn
    obtain ⟨conn₀, hconn₀, hsame, _⟩ := hnew hconn'
    cases hconn.symm.trans hconn₀
    exact ⟨conn', hconn', hsame.trans hattached⟩
  case left =>
    intro c conn' hconn' hleft
    obtain ⟨conn, hconn, hsame, hloop, _⟩ := hnew hconn'
    exact hsame.trans (h.left hconn (hloop.symm.trans hleft))
  case queued =>
    intro c hc
    obtain ⟨conn, hconn, hgone⟩ := h.queued (hqueue hc)
    obtain ⟨conn', hconn'⟩ := hkeep hconn
    obtain ⟨conn₀, hconn₀, _, _, hgone'⟩ := hnew hconn'
    cases hconn.symm.trans hconn₀
    exact ⟨conn', hconn', hgone' hgone⟩

theorem TableInv.step (h : TableInv w) (hinv : l.ofDaemon = true → Inv w.server)
    (hstep : step J w l = some w') : TableInv w' := by
  cases l with
  | accept =>
    cases hstep
    exact h.accept
  | task c s =>
    obtain ⟨conn, t, conn', cmd, hconn, hp, rfl⟩ := step_task hstep
    exact h.task hconn (WsConnection.step_did hp)
  | drain env =>
    obtain ⟨cmd, queue, σ', hqueue, hevent, rfl⟩ := step_drain hstep
    refine h.event (hinv rfl) rfl hevent (hqueue ▸ List.subset_cons_self _ _) ?_
      fun hconn => replyTo_lookup _ _ hconn
    intro c conn' hconn'
    obtain ⟨conn, hconn, hattached, _, _, htask⟩ := lookup_replyTo hconn'
    refine ⟨conn, hconn, hattached, ?_⟩
    rcases htask with htask | ⟨_, _, _, _, _, _, hwaiting, hanswered⟩
    · exact ⟨by rw [htask], fun hgone => htask.trans hgone⟩
    · exact ⟨by rw [hwaiting, hanswered]; rfl, fun hgone => nomatch hwaiting.symm.trans hgone⟩
  | daemon e =>
    obtain ⟨σ', harrive, hevent, rfl⟩ := step_daemon hstep
    exact h.event (hinv rfl) harrive hevent (List.Subset.refl _)
      (fun hconn => ⟨_, hconn, rfl, rfl, fun hgone => hgone⟩) fun hconn => ⟨_, hconn⟩
  | clientRead id data =>
    obtain ⟨s, hs, rfl⟩ := step_clientRead hstep
    exact ⟨h.fresh, h.attached, h.left, h.queued⟩

theorem reachable_table (h : (system J).Reachable w) : TableInv w := by
  apply h.invariant_with (fun _ => reachable_ring)
  · rintro _ ⟨listener, wakeup, now, rfl⟩
    exact ⟨fun h => (nomatch h), fun h => (nomatch h), fun h => (nomatch h), fun h => (nomatch h)⟩
  · intro w l w' hring hinv _ hstep
    exact hinv.step (fun _ => hring.server) hstep

/-- A task unsubscribes before it says that it is gone: the daemon does not find the client's
session any more. -/
theorem TableInv.unsubscribed (h : TableInv w) {c : Nat} (hc : .disconnected c ∈ w.queue) :
    w.shared.clientSessions.lookup c = none := by
  obtain ⟨conn, hconn, hgone⟩ := h.queued hc
  cases hid : w.shared.clientSessions.lookup c with
  | none => rfl
  | some id =>
    obtain ⟨conn', hconn', hattached⟩ := h.attached hid
    cases hconn.symm.trans hconn'
    have hleft := h.left hconn (by rw [hgone]; rfl)
    cases hattached.symm.trans hleft

/-- The daemon has handled the command by which a client left a session that has a previous owner.
The session is with that owner if it was free and the client detached, or if it was with that owner
already and not taken over once more. -/
theorem handed_back_iff (h : (system J).Reachable w) {cmd : WsCommand} {queue : List WsCommand}
    {env : Env} {id : Uuid} {s : Session} {fd : RawFd} (hqueue : w.queue = cmd :: queue)
    (hleaves : cmd.leaves id) (hstep : step J w (.drain env) = some w')
    (hs : w.server.sessions.lookup id = some s) (hprev : s.previousOwnerFd = some fd)
    (hopen : (w.server.connOf fd).isSome) (hdup : env.dup.isSome) (hpush : env.pushWritten = true)
    (hsent : env.fdSent = true) :
    (∃ s', w'.server.sessions.lookup id = some s' ∧ s'.state = .attached ∧ s'.ownerFd = some fd) ↔
      s.state ≠ .attached ∧ cmd.isDisconnected = false ∨
        s.state = .attached ∧ s.ownerFd = some fd ∧
          (cmd.isDisconnected = true ∨ s.inCooldown env.now = true) := by
  obtain ⟨d, hd⟩ := Option.isSome_iff_exists.mp hdup
  simp only [step, drain, hqueue] at hstep
  obtain ⟨σ', hevent, rfl⟩ := Option.map_eq_some_iff.mp hstep
  have hevent := ok_of_toOption hevent
  have hhandled : w.server.handleWsCommand J env cmd = .ok σ' := event_command hevent
  change (∃ s', σ'.sessions.lookup id = some s' ∧ _) ↔ _
  cases cmd with
  | input sessionId data => exact hleaves.elim
  | disconnected c =>
    have hnone := (reachable_table h).unsubscribed (hqueue ▸ List.mem_cons_self)
    rw [handleWsCommand, handleWsClientDisconnect, hnone] at hhandled
    cases hhandled
    have hisDisconnected : (WsCommand.disconnected c).isDisconnected = true := rfl
    rw [hisDisconnected]
    constructor
    · rintro ⟨s', hs', hatt, howner⟩
      cases hs.symm.trans hs'
      exact .inr ⟨hatt, howner, .inl rfl⟩
    · rintro (⟨_, hfalse⟩ | ⟨hatt, howner, _⟩)
      · cases hfalse
      · exact ⟨s, hs, hatt, howner⟩
  | request c request reply =>
    cases request with
    | detach sessionId cols rows snapshot =>
      cases hleaves
      rw [handleWsCommand] at hhandled
      obtain ⟨p, hp, rfl⟩ := ok_of_map hhandled
      cases hp
      have hisDetach : (WsCommand.request c (.detach id cols rows snapshot)
          reply).isDisconnected = false := rfl
      rw [hisDetach]
      refine (handleWsDetach_returns hs hprev hopen hd hpush hsent).trans ?_
      constructor
      · rintro (⟨hatt, howner, hcool⟩ | hfree)
        · exact .inr ⟨hatt, howner, .inr hcool⟩
        · exact .inl ⟨hfree, rfl⟩
      · rintro (⟨hfree, _⟩ | ⟨hatt, howner, hcool⟩)
        · exact .inr hfree
        · exact .inl ⟨hatt, howner, hcool.resolve_left fun h => by cases h⟩
    | _ => exact hleaves.elim

/-- A local client creates session 7 and attaches it; WebSocket client 1 takes it over. -/
private def takeOverRun : List Label :=
  [.daemon (.accept 5),
    .daemon (.request 5 (.ok (.create none 80 24 none none none)) 0 calm),
    .daemon (.request 5 (.ok (.attach 7)) 0 calmLater),
    .accept,
    .task 1 (.text (.ok (.attach 7))),
    .task 1 .forward,
    .drain calmLater,
    .task 1 .finish]

private def detachRun : List Label :=
  [.task 1 (.text (.ok (.detach 7 0 0 none))), .task 1 .forward]

/-- The client detaches, and the session goes back. -/
theorem handed_back_detach :
    ∃ w s', (system silent).Reachable w ∧ w.server.sessions.lookup 7 = some s' ∧
      s'.state = .attached ∧ s'.ownerFd = some 5 := by
  have hrun : ((system silent).exec (new 3 none 0) (takeOverRun ++ detachRun)).map
      (fun w => (w.queue, (w.server.sessions.lookup 7).map fun s =>
        (s.previousOwnerFd, s.state), (w.server.connOf 5).isSome,
        (step silent w (.drain calmLater)).isSome)) =
      some ([.request 1 (.detach 7 0 0 none) 1], some (some 5, .active), true, true) := by
    decide +kernel
  obtain ⟨w, hexec, hall⟩ := Option.map_eq_some_iff.mp hrun
  simp only [Prod.mk.injEq] at hall
  obtain ⟨hqueue, hsession, hopen, hdrain⟩ := hall
  obtain ⟨s, hs, hpair⟩ := Option.map_eq_some_iff.mp hsession
  obtain ⟨hprev, hstate⟩ := Prod.mk.inj hpair
  obtain ⟨w', hstep⟩ := Option.isSome_iff_exists.mp hdrain
  have hstart : (system silent).Reachable (new 3 none 0) := .start ⟨3, none, 0, rfl⟩
  have hreach := hstart.exec hexec
  have hback := (handed_back_iff hreach hqueue rfl hstep hs hprev hopen rfl rfl rfl).mpr
    (.inl ⟨by rw [hstate]; exact fun h => (nomatch h), rfl⟩)
  obtain ⟨s', hs', hatt, howner⟩ := hback
  have hnext : (system silent).step w (.drain calmLater) = some w' := hstep
  exact ⟨w', s', hreach.next trivial hnext, hs', hatt, howner⟩

/-- The client closes the connection, and the session stays with the daemon although nothing
fails. -/
theorem closed_not_handed_back :
    ¬ ∀ (J : Codec) (w w' : WsWorld) (c : Nat) (conn : WsConnection) (id : Uuid) (s : Session)
      (fd : RawFd) (env : Env), (system J).Reachable w →
      w.connections.lookup c = some conn → conn.attachedSession = some id →
      (∀ sub ∈ w.shared.subscribersOf id, sub.clientId = c) →
      w.server.sessions.lookup id = some s → s.previousOwnerFd = some fd →
      (w.server.connOf fd).isSome → env.dup.isSome → env.pushWritten = true → env.fdSent = true →
      (system J).exec w [.task c .close, .task c .report, .drain env] = some w' → w'.queue = [] →
      ∃ s', w'.server.sessions.lookup id = some s' ∧ s'.state = .attached ∧
        s'.ownerFd = some fd := by
  intro h
  have hrun : ((system silent).exec (new 3 none 0) takeOverRun).map
      (fun w => ((w.connections.lookup 1).map WsConnection.attachedSession,
        (w.shared.subscribersOf 7).map WsSubscriber.clientId,
        (w.server.sessions.lookup 7).map Session.previousOwnerFd, (w.server.connOf 5).isSome)) =
      some (some (some 7), [1], some (some 5), true) := by
    decide +kernel
  have hclosed : ((system silent).exec (new 3 none 0)
      (takeOverRun ++ [.task 1 .close, .task 1 .report, .drain calmLater])).map
      (fun w' => (w'.queue, (w'.server.sessions.lookup 7).map Session.state)) =
      some ([], some .active) := by
    decide +kernel
  obtain ⟨w, hexec, hall⟩ := Option.map_eq_some_iff.mp hrun
  simp only [Prod.mk.injEq] at hall
  obtain ⟨hconn, hsubs, hsession, hopen⟩ := hall
  obtain ⟨conn, hconn, hattached⟩ := Option.map_eq_some_iff.mp hconn
  obtain ⟨s, hs, hprev⟩ := Option.map_eq_some_iff.mp hsession
  rw [Transition.System.exec_append, hexec] at hclosed
  obtain ⟨w', hexec', hpair⟩ := Option.map_eq_some_iff.mp hclosed
  obtain ⟨hqueue, hstate⟩ := Prod.mk.inj hpair
  have hstart : (system silent).Reachable (new 3 none 0) := .start ⟨3, none, 0, rfl⟩
  have honly : ∀ sub ∈ w.shared.subscribersOf 7, sub.clientId = 1 := by
    intro sub hsub
    have hmem := List.mem_map_of_mem (f := WsSubscriber.clientId) hsub
    rw [hsubs] at hmem
    exact List.mem_singleton.mp hmem
  obtain ⟨s', hs', hatt, _⟩ := h silent w w' 1 conn 7 s 5 calmLater (hstart.exec hexec) hconn
    hattached honly hs hprev hopen rfl rfl rfl hexec' hqueue
  rw [hs', Option.map_some, hatt] at hstate
  cases hstate

end WsWorld

end PtyDaemon
