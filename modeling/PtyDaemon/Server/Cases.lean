import PtyDaemon.Server.Moves

/-!
# How handlers end

An Attach of a local client, a Detach, an Attach or the loss of a WebSocket client, a takeover and a
release, the exit of a child and the output of a session each end in one of a few ways. What a
handler has found and what it returns is said here once, case by case.
-/

namespace PtyDaemon

/-- A session as an Attach of a WebSocket client leaves it. -/
def Session.wsJoined (s : Session) (ringData : List UInt8) : Session :=
  (if ringData.isEmpty then (s.withSnapshot s.currentSnapshot).clearSnapshot
    else s.withSnapshot s.currentSnapshot).wsClientCame

@[simp] theorem Session.wsJoined_core (s : Session) (ringData : List UInt8) :
    (s.wsJoined ringData).core = s.core := by
  unfold Session.wsJoined
  split <;> rfl

@[simp] theorem Session.wsJoined_terminalState (s : Session) (ringData : List UInt8) :
    (s.wsJoined ringData).terminalState = s.terminalState := by
  unfold Session.wsJoined
  split <;> rfl

@[simp] theorem Session.wsJoined_wsClientCount (s : Session) (ringData : List UInt8) :
    (s.wsJoined ringData).wsClientCount = (s.wsClientCount + 1) % 2 ^ 32 := by
  unfold Session.wsJoined
  split <;> rfl

/-- A session as its output leaves it. -/
def Session.afterOutput (s : Session) (now : Nat) (bytes : List UInt8) : Session :=
  if (s.absorb now bytes).state = .idle then (s.absorb now bytes).promoteToActive now
  else s.absorb now bytes

theorem Session.afterOutput_free {s : Session} (h : s.state ≠ .attached) (now : Nat)
    (bytes : List UInt8) : (s.afterOutput now bytes).state ≠ .attached := by
  unfold Session.afterOutput
  split
  · exact fun h => by cases h
  · exact h

theorem Session.afterOutput_core (s : Session) (now : Nat) (bytes : List UInt8) :
    (s.afterOutput now bytes).core =
      { s.core with
        state := (s.afterOutput now bytes).state
        sharedRing := s.sharedRing.write bytes
        fed := s.core.fed.map (· ++ bytes) } := by
  unfold Session.afterOutput
  split <;> simp [Session.core, Session.absorb, Session.promoteToActive, Function.comp_def]

@[simp] theorem Session.afterOutput_terminalState (s : Session) (now : Nat) (bytes : List UInt8) :
    (s.afterOutput now bytes).terminalState = s.terminalState.map fun ts => ts.feed bytes := by
  unfold Session.afterOutput
  split <;> rfl

@[simp] theorem Session.afterOutput_wsClientCount (s : Session) (now : Nat) (bytes : List UInt8) :
    (s.afterOutput now bytes).wsClientCount = s.wsClientCount := by
  unfold Session.afterOutput
  split <;> rfl

namespace Server

variable {J : Codec} {env : Env} {σ : Server} {id : Uuid}

/-- How an Attach of a local client ends: refused with nothing changed, or granted with a duplicate
of the master kept for it. -/
inductive AttachEnds (env : Env) (σ : Server) (fd : RawFd) (id : Uuid) (p : Server × Response) :
    Prop
  | refused {response : Response}
      (hnot : ∀ s, σ.sessions.lookup id = some s → s.state ≠ .attached →
        env.childAlive s.childPid = true → env.dup = none)
      (hresponse : ∀ i cols rows pid shmName snapshot,
        response ≠ .attachReady i cols rows pid shmName snapshot) (h : p = (σ, response))
  | granted {s : Session} {d : RawFd} (hs : σ.sessions.lookup id = some s)
      (hfree : s.state ≠ .attached) (halive : env.childAlive s.childPid = true)
      (hdup : env.dup = some d)
      (h : p = ((((((σ.openFd d (.dup id)).writeSnapshot env id s.currentSnapshot).unregister
        s.masterFd).putSession id (s.clearSnapshot.attach env.now fd)).stashDup id d).emit
          (.attached id (σ.connOf fd)),
        .attachReady id s.winsize.cols s.winsize.rows s.childPid s.shmName none))

theorem handleAttach_ends (env : Env) (σ : Server) (fd : RawFd) (id : Uuid) :
    AttachEnds env σ fd id (σ.handleAttach env fd id) := by
  unfold handleAttach
  cases hs : σ.sessions.lookup id with
  | none =>
    exact .refused (fun s h => by cases hs.symm.trans h) (by simp [notFound]) rfl
  | some s =>
    have hsame : ∀ {t}, σ.sessions.lookup id = some t → t = s := fun ht =>
      Option.some.inj (ht.symm.trans hs)
    dsimp only
    split
    · rename_i hatt
      refine .refused (fun t ht hfree => ?_) (by simp) rfl
      cases hsame ht
      exact absurd hatt hfree
    · rename_i hfree
      split
      · rename_i hdead
        refine .refused (fun t ht _ halive => ?_) (by simp [childDead]) rfl
        cases hsame ht
        simp [halive] at hdead
      · rename_i halive
        cases hdup : env.dup with
        | none => exact .refused (fun _ _ _ _ => hdup) (by simp) rfl
        | some d => exact .granted hs hfree (by simpa using halive) hdup rfl

/-- Only AttachReady is followed by a descriptor. -/
theorem passOn_eq {fd : RawFd} {response : Response}
    (hresponse : ∀ i cols rows pid shmName snapshot,
      response ≠ .attachReady i cols rows pid shmName snapshot) :
    σ.passOn env fd response = σ := by
  cases response with
  | attachReady => exact absurd rfl (hresponse _ _ _ _ _ _)
  | _ => rfl

/-- How a Detach of a WebSocket client ends, in all cases but the first with one client less. -/
inductive WsDetached (J : Codec) (env : Env) (σ : Server) (id : Uuid) (p : Server × Response) :
    Prop
  | missing (hs : σ.sessions.lookup id = none) (h : p = σ.handleDetach id 0 0 none)
  | taken {s : Session} (hs : σ.sessions.lookup id = some s) (hatt : s.isAttached = true)
      (hcool : s.inCooldown env.now = false)
      (h : p = (σ.putSession id s.wsClientGone).handleBatonTakeover J env id)
  | cooling {s : Session} (hs : σ.sessions.lookup id = some s) (hatt : s.isAttached = true)
      (hcool : s.inCooldown env.now = true) (h : p = (σ.putSession id s.wsClientGone, .detached id))
  | released {s : Session} (hs : σ.sessions.lookup id = some s) (hfree : s.isAttached = false)
      (hprevious : s.previousOwnerFd.isSome = true)
      (h : p = (σ.putSession id s.wsClientGone).handleBatonRelease env id)
  | detached {s : Session} (hs : σ.sessions.lookup id = some s) (hfree : s.isAttached = false)
      (hprevious : s.previousOwnerFd = none)
      (h : p = (σ.putSession id s.wsClientGone).handleDetach id 0 0 none)

theorem handleWsDetach_cases (J : Codec) (env : Env) (σ : Server) (id : Uuid) :
    WsDetached J env σ id (σ.handleWsDetach J env id) := by
  cases hs : σ.sessions.lookup id with
  | none => exact .missing hs (by simp [handleWsDetach, hs])
  | some s =>
    have hself : (σ.putSession id s.wsClientGone).sessions.lookup id = some s.wsClientGone :=
      (Table.lookup_insert ..).trans (if_pos rfl)
    have hattached : s.wsClientGone.isAttached = s.isAttached := rfl
    have hcooldown : s.wsClientGone.inCooldown env.now = s.inCooldown env.now := rfl
    have hprev : s.wsClientGone.previousOwnerFd = s.previousOwnerFd := rfl
    cases hatt : s.isAttached with
    | true =>
      cases hcool : s.inCooldown env.now with
      | true =>
        exact .cooling hs hatt hcool
          (by simp [handleWsDetach, hs, hself, hattached, hcooldown, hatt, hcool])
      | false =>
        exact .taken hs hatt hcool
          (by simp [handleWsDetach, hs, hself, hattached, hcooldown, hatt, hcool])
    | false =>
      cases hprevious : s.previousOwnerFd with
      | none =>
        exact .detached hs hatt hprevious
          (by simp [handleWsDetach, hs, hself, hattached, hatt, hprev, hprevious])
      | some fd =>
        exact .released hs hatt (by rw [hprevious]; rfl)
          (by simp [handleWsDetach, hs, hself, hattached, hatt, hprev, hprevious])

/-- How the loss of a WebSocket client ends. -/
inductive WsClientLost (env : Env) (σ : Server) (c : Nat) (σ' : Server) : Prop
  | absent (hnone : ∀ id, σ.wsShared.clientSessions.lookup c = some id →
      σ.sessions.lookup id = none) (h : σ' = σ)
  | released {id : Uuid} {s : Session} (hid : σ.wsShared.clientSessions.lookup c = some id)
      (hs : σ.sessions.lookup id = some s) (hcount : s.wsClientGone.wsClientCount = 0)
      (hprevious : s.previousOwnerFd.isSome = true)
      (h : σ' = ((σ.putSession id s.wsClientGone).handleBatonRelease env id).1)
  | left {id : Uuid} {s : Session} (hid : σ.wsShared.clientSessions.lookup c = some id)
      (hs : σ.sessions.lookup id = some s)
      (hstays : ¬ (s.wsClientGone.wsClientCount = 0 ∧ s.previousOwnerFd.isSome = true))
      (h : σ' = σ.putSession id s.wsClientGone)

theorem handleWsClientDisconnect_cases (env : Env) (σ : Server) (c : Nat) :
    WsClientLost env σ c (σ.handleWsClientDisconnect env c) := by
  cases hid : σ.wsShared.clientSessions.lookup c with
  | none =>
    exact .absent (fun id h => by cases hid.symm.trans h) (by simp [handleWsClientDisconnect, hid])
  | some id =>
    cases hs : σ.sessions.lookup id with
    | none =>
      refine .absent (fun i h => ?_) (by simp [handleWsClientDisconnect, hid, hs])
      cases hid.symm.trans h
      exact hs
    | some s =>
      have hprev : s.wsClientGone.previousOwnerFd = s.previousOwnerFd := rfl
      by_cases hlast : s.wsClientGone.wsClientCount = 0 ∧ s.previousOwnerFd.isSome = true
      · exact .released hid hs hlast.1 hlast.2
          (by simp only [handleWsClientDisconnect, hid, hs, hprev, if_pos hlast])
      · exact .left hid hs hlast
          (by simp only [handleWsClientDisconnect, hid, hs, hprev, if_neg hlast])

/-- Only an attached session is taken over. -/
theorem takeOverAttached_cases (J : Codec) (env : Env) (σ : Server) (id : Uuid) :
    (∃ s, σ.sessions.lookup id = some s ∧ s.state = .attached ∧
        σ.takeOverAttached J env id = (σ.handleBatonTakeover J env id).1) ∨
      (∀ s, σ.sessions.lookup id = some s → s.state ≠ .attached) ∧
        σ.takeOverAttached J env id = σ := by
  unfold takeOverAttached
  cases hs : σ.sessions.lookup id with
  | none => exact .inr ⟨fun _ h => by (cases h), rfl⟩
  | some s =>
    by_cases hatt : s.isAttached = true
    · exact .inl ⟨s, rfl, of_decide_eq_true hatt, if_pos hatt⟩
    · refine .inr ⟨fun t ht hstate => hatt ?_, if_neg hatt⟩
      cases ht
      exact decide_eq_true hstate

/-- How a takeover ends. A session that nobody has is detached. -/
inductive TakenOver (J : Codec) (env : Env) (σ : Server) (id : Uuid) (p : Server × Response) : Prop
  | unowned (hnone : ∀ s, σ.sessions.lookup id = some s → s.state = .attached → s.ownerFd = none)
      (h : p = σ.handleDetach id 0 0 none)
  | unreached {s : Session} {fd : RawFd} (hs : σ.sessions.lookup id = some s)
      (hatt : s.state = .attached) (howner : s.ownerFd = some fd)
      (hnot : σ.clients.lookup fd = none) (h : p = σ.forceCompleteTakeover id none)
  | unwritten {s : Session} {fd : RawFd} {client : ClientState}
      (hs : σ.sessions.lookup id = some s) (hatt : s.state = .attached)
      (howner : s.ownerFd = some fd) (hclient : σ.clients.lookup fd = some client)
      (hpush : env.pushWritten = false)
      (h : p = (σ.emit (.cut client.stream (.push (.forceDetach id)) env.cut)).forceCompleteTakeover
        id none)
  | pushed {s : Session} {fd : RawFd} {client : ClientState}
      (hs : σ.sessions.lookup id = some s) (hatt : s.state = .attached)
      (howner : s.ownerFd = some fd) (hclient : σ.clients.lookup fd = some client)
      (hpush : env.pushWritten = true)
      (h : p =
        let w := waitForDetachAck J fd id env.ackReads
          (σ.emit (.sent client.stream (.push (.forceDetach id))))
        w.1.forceCompleteTakeover id w.2)

theorem handleBatonTakeover_cases (J : Codec) (env : Env) (σ : Server) (id : Uuid) :
    TakenOver J env σ id (σ.handleBatonTakeover J env id) := by
  unfold handleBatonTakeover
  cases hs : σ.sessions.lookup id with
  | none => exact .unowned (fun s h => by cases hs.symm.trans h) (by simp [handleDetach, hs])
  | some s =>
    dsimp only
    by_cases hatt : s.state = .attached
    · rw [if_neg (not_not_intro hatt)]
      cases howner : s.ownerFd with
      | none =>
        refine .unowned (fun t ht _ => ?_) rfl
        cases hs.symm.trans ht
        exact howner
      | some fd =>
        cases hclient : σ.clients.lookup fd with
        | none =>
          exact .unreached hs hatt howner hclient (by simp [hclient])
        | some client =>
          cases hpush : env.pushWritten with
          | false => exact .unwritten hs hatt howner hclient hpush (by simp [hclient])
          | true => exact .pushed hs hatt howner hclient hpush (by simp [hclient])
    · rw [if_pos hatt]
      refine .unowned (fun t ht hstate => ?_) rfl
      cases hs.symm.trans ht
      exact absurd hstate hatt

/-- What the push of a release says. -/
def resumePush (id : Uuid) (s : Session) : Push :=
  .resumeAttach id s.winsize.cols s.winsize.rows s.childPid s.shmName
    (s.terminalState.bind TerminalState.captureSnapshot)

/-- How a release ends: nobody is there to whom the session could go back; the push or the
descriptor does not go out; or the session goes back. -/
inductive Released (env : Env) (σ : Server) (id : Uuid) (p : Server × Response) : Prop
  | kept (hnone : ∀ s fd client, σ.sessions.lookup id = some s → s.previousOwnerFd = some fd →
      σ.clients.lookup fd = some client → env.dup = none) (h : p = σ.handleDetach id 0 0 none)
  | gone {s : Session} {fd : RawFd} (hs : σ.sessions.lookup id = some s)
      (hprevious : s.previousOwnerFd = some fd) (hclient : σ.clients.lookup fd = none)
      (h : p = (σ.putSession id s.clearPrevious).handleDetach id 0 0 none)
  | unsent {s : Session} {fd d : RawFd} {client : ClientState}
      (hs : σ.sessions.lookup id = some s) (hprevious : s.previousOwnerFd = some fd)
      (hclient : σ.clients.lookup fd = some client) (hdup : env.dup = some d)
      (hpush : env.pushWritten = false)
      (h : p = ((((σ.openFd d (.dup id)).emit
        (.cut client.stream (.push (resumePush id s)) env.cut)).closeFd d).putSession id
          s.clearPrevious).handleDetach id 0 0
            (s.terminalState.bind TerminalState.captureSnapshot))
  | refused {s : Session} {fd d : RawFd} {client : ClientState}
      (hs : σ.sessions.lookup id = some s) (hprevious : s.previousOwnerFd = some fd)
      (hclient : σ.clients.lookup fd = some client) (hdup : env.dup = some d)
      (hpush : env.pushWritten = true) (hsent : env.fdSent = false)
      (h : p = ((((σ.openFd d (.dup id)).emit
        (.sent client.stream (.push (resumePush id s)))).closeFd d).putSession id
          s.clearPrevious).handleDetach id 0 0
            (s.terminalState.bind TerminalState.captureSnapshot))
  | returned {s : Session} {fd d : RawFd} {client : ClientState}
      (hs : σ.sessions.lookup id = some s) (hprevious : s.previousOwnerFd = some fd)
      (hclient : σ.clients.lookup fd = some client) (hdup : env.dup = some d)
      (hpush : env.pushWritten = true) (hsent : env.fdSent = true)
      (h : p = ((((((((σ.openFd d (.dup id)).emit (.sent client.stream
        (.push (resumePush id s)))).emit (.sent client.stream (.fd id))).closeFd d).unregister
          s.masterFd).putSession id ((s.attach env.now fd).clearPrevious.markReleased env.now)).emit
            (.returned id client.stream)), .detached id))

theorem handleBatonRelease_cases (env : Env) (σ : Server) (id : Uuid) :
    Released env σ id (σ.handleBatonRelease env id) := by
  unfold handleBatonRelease
  cases hs : σ.sessions.lookup id with
  | none => exact .kept (fun s _ _ h => by cases hs.symm.trans h) (by simp [handleDetach, hs])
  | some s =>
    cases hprevious : s.previousOwnerFd with
    | none =>
      refine .kept (fun t fd _ ht hfd => ?_) (by simp [hprevious])
      cases hs.symm.trans ht
      cases hprevious.symm.trans hfd
    | some fd =>
      cases hclient : σ.clients.lookup fd with
      | none => exact .gone hs hprevious hclient (by simp [hprevious, hclient])
      | some client =>
        cases hdup : env.dup with
        | none => exact .kept (fun _ _ _ _ _ _ => hdup) (by simp [hprevious, hclient])
        | some d =>
          simp only [hprevious, hclient]
          cases hpush : env.pushWritten with
          | false => exact .unsent hs hprevious hclient hdup hpush rfl
          | true =>
            cases hsent : env.fdSent with
            | false => exact .refused hs hprevious hclient hdup hpush hsent rfl
            | true => exact .returned hs hprevious hclient hdup hpush hsent rfl

/-- How an Attach of a WebSocket client ends. Only a session that is there and whose child lives is
joined. -/
inductive WsAttached (J : Codec) (env : Env) (σ : Server) (id : Uuid) (p : Server × Response) :
    Prop
  | missing (hs : (σ.takeOverAttached J env id).sessions.lookup id = none)
      (h : p = (σ.takeOverAttached J env id, notFound id))
  | dead {s : Session} (hs : (σ.takeOverAttached J env id).sessions.lookup id = some s)
      (hdead : env.childAlive s.childPid = false)
      (h : p = (σ.takeOverAttached J env id, childDead id))
  | joined {s : Session} {ringData : List UInt8}
      (hs : (σ.takeOverAttached J env id).sessions.lookup id = some s)
      (halive : env.childAlive s.childPid = true) (hdump : s.sharedRing.dump = some ringData)
      (h : p =
        ((if s.isAttached then σ.takeOverAttached J env id
          else (σ.takeOverAttached J env id).register s.masterFd).putSession id
            (s.wsJoined ringData),
          .attachReady id s.winsize.cols s.winsize.rows s.childPid s.shmName
            (if ringData.isEmpty then (s.withSnapshot s.currentSnapshot).gridSnapshot.map .grid
              else some (.ring ringData))))

theorem handleWsAttach_cases {p : Server × Response} (h : σ.handleWsAttach J env id = .ok p) :
    WsAttached J env σ id p := by
  unfold handleWsAttach at h
  dsimp only at h
  split at h
  · rename_i hs
    cases h
    exact .missing hs rfl
  · rename_i s hs
    split at h
    · rename_i hdead
      cases h
      exact .dead hs (by simpa using hdead) rfl
    · rename_i halive
      split at h
      · cases h
      · rename_i ringData hdump
        cases h
        apply WsAttached.joined hs (by simpa using halive) hdump
        unfold Session.wsJoined
        cases hempty : ringData.isEmpty with
        | true => rfl
        | false => rfl

/-- How the exit of a child ends. -/
inductive ExitEnds (env : Env) (σ : Server) (pid : Pid) (σ' : Server) : Prop
  | unknown (hnone : σ.sessions.findByChildPid pid = none) (h : σ' = σ)
  | ended {id : Uuid} {s : Session} (hfound : σ.sessions.findByChildPid pid = some s)
      (hid : s.id = id) (hs : σ.sessions.lookup id = some s)
      (h : σ' = (((σ.unregister s.masterFd).notifySessionEnded id).removeSession id).dropSession
        env s)

theorem handleChildExit_ends (hkey : ∀ {id s}, σ.sessions.lookup id = some s → s.id = id)
    (env : Env) (pid : Pid) : ExitEnds env σ pid (σ.handleChildExit env pid) := by
  unfold handleChildExit
  cases hfound : σ.sessions.findByChildPid pid with
  | none => exact .unknown hfound rfl
  | some s =>
    obtain ⟨id, hs⟩ := Table.mem_values.mp (List.mem_of_find?_eq_some hfound)
    have hid : s.id = id := hkey hs
    have hs' : ((σ.unregister s.masterFd).notifySessionEnded id).sessions.lookup id = some s := hs
    dsimp only
    rw [hid]
    simp only [hs']
    exact .ended hfound hid hs rfl

/-- How an event of a master ends: with nothing for a session that is not there or attached, or
where nothing could be read; else with what was read, or with the end of the session. -/
inductive OutputEnds (env : Env) (σ : Server) (fd : RawFd) (read : PtyRead) (σ' : Server) : Prop
  | ignored (hnone : ∀ s, σ.sessions.findByMasterFd fd = some s →
      s.state = .attached ∨ read = .failed) (h : σ' = σ)
  | absorbed {id : Uuid} {s : Session} {bytes : List UInt8}
      (hfound : σ.sessions.findByMasterFd fd = some s) (hid : s.id = id)
      (hs : σ.sessions.lookup id = some s) (hfree : s.state ≠ .attached)
      (hread : read = .data bytes)
      (h : σ' = { (σ.putSession id (s.afterOutput env.now bytes)).emit (.ptyRead id bytes) with
        wsShared := σ.wsShared.broadcast id bytes })
  | ended {id : Uuid} {s : Session} (hfound : σ.sessions.findByMasterFd fd = some s)
      (hid : s.id = id) (hs : σ.sessions.lookup id = some s) (hfree : s.state ≠ .attached)
      (hread : read = .eof) (h : σ' = ((σ.unregister fd).removeSession id).dropSession env s)

theorem findByMasterFd_master {fd : RawFd} {s : Session}
    (h : σ.sessions.findByMasterFd fd = some s) : s.masterFd = fd := by
  simpa using List.find?_some h

theorem handleSessionOutput_ends (hkey : ∀ {id s}, σ.sessions.lookup id = some s → s.id = id)
    (env : Env) (fd : RawFd) (read : PtyRead) :
    OutputEnds env σ fd read (σ.handleSessionOutput env fd read) := by
  unfold handleSessionOutput
  cases hfound : σ.sessions.findByMasterFd fd with
  | none => exact .ignored (fun s h => by cases hfound.symm.trans h) rfl
  | some s =>
    have hsame : ∀ {t}, σ.sessions.findByMasterFd fd = some t → t = s := fun ht =>
      Option.some.inj (ht.symm.trans hfound)
    obtain ⟨id, hs⟩ := Table.mem_values.mp (List.mem_of_find?_eq_some hfound)
    have hid : s.id = id := hkey hs
    dsimp only
    rw [hid]
    simp only [hs]
    split
    · rename_i hatt
      exact .ignored (fun t ht => .inl (hsame ht ▸ hatt)) rfl
    · rename_i hfree
      cases read with
      | data bytes => exact .absorbed hfound hid hs hfree rfl rfl
      | eof => exact .ended hfound hid hs hfree rfl rfl
      | failed => exact .ignored (fun _ _ => .inr rfl) rfl

end Server

end PtyDaemon
