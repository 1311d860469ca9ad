import PtyDaemon.Wire.DecodeLoop

/-!
# What the daemon writes to its clients

An event writes at most one frame to a control connection: the response to a request, or the push
of a takeover or a release. Which frame that is, and to which connection, is settled before the
event; how much of it goes out is not.
-/

namespace PtyDaemon

/-- The frame an act writes to a control connection, with what of it was put where `write_all` has
failed; a descriptor goes in a message of its own. -/
def Act.write : Act → Option (Nat × Frame × Option Nat)
  | .sent conn (.response response) => some (conn, .response response, none)
  | .sent conn (.push push) => some (conn, .push push, none)
  | .cut conn frame put => some (conn, frame, some put)
  | _ => none

/-- How the write of a response ends: what has been put where it fails. -/
def Env.answered (env : Env) : Option Nat := if env.responseWritten then none else some env.cut

/-- The same for a push. -/
def Env.pushed (env : Env) : Option Nat := if env.pushWritten then none else some env.cut

def Event.put : Event → Option Nat
  | .command _ _ env => env.pushed
  | .request _ _ _ env => env.answered
  | _ => none

namespace Server

/-- What was written, newest first, each frame with its connection. -/
def sends (σ : Server) : List (Nat × Frame × Option Nat) := σ.trace.filterMap Act.write

/-- The push of a takeover. -/
def takeoverPush (σ : Server) (id : Uuid) : Option (Nat × Frame) :=
  (σ.sessions.lookup id).bind fun s =>
    if s.state ≠ .attached then none
    else s.ownerFd.bind fun fd =>
      (σ.clients.lookup fd).map fun client => (client.stream, .push (.forceDetach id))

/-- The push of a release. -/
def releasePush (env : Env) (σ : Server) (id : Uuid) : Option (Nat × Frame) :=
  (σ.sessions.lookup id).bind fun s =>
    s.previousOwnerFd.bind fun fd =>
      (σ.clients.lookup fd).bind fun client =>
        env.dup.map fun _ =>
          (client.stream, .push (.resumeAttach id s.winsize.cols s.winsize.rows s.childPid s.shmName
            (s.terminalState.bind TerminalState.captureSnapshot)))

def commandPush (env : Env) (σ : Server) : WsCommand → Option (Nat × Frame)
  | .request _ (.attach id) _ => σ.takeoverPush id
  | .request _ (.detach id _ _ _) _ =>
    (σ.sessions.lookup id).bind fun s =>
      if s.isAttached then if s.inCooldown env.now then none else σ.takeoverPush id
      else σ.releasePush env id
  | .disconnected c =>
    (σ.wsShared.clientSessions.lookup c).bind fun id =>
      (σ.sessions.lookup id).bind fun s =>
        if s.wsClientGone.wsClientCount = 0 then σ.releasePush env id else none
  | _ => none

/-- The frame an event writes, and the connection it writes it to. -/
def attempts (J : Codec) (σ : Server) : Event → Option (Nat × Frame)
  | .command shared cmd env => { σ with wsShared := shared }.commandPush env cmd
  | .request fd result _ env =>
    (σ.connOf fd).bind fun conn =>
      (σ.respond J env fd result).toOption.map fun p => (conn, .response p.2)
  | _ => none

variable {J : Codec} {env : Env} {σ σ' : Server} {id : Uuid} {e : Event}

/-! ## Handlers that write nothing -/

private theorem handleDetach_sends (σ : Server) (id : Uuid) (cols rows : UInt16)
    (snapshot : Option GridSnapshot) :
    (σ.handleDetach id cols rows snapshot).1.sends = σ.sends := by
  unfold handleDetach
  split
  · rfl
  · dsimp only
    split <;> rfl

private theorem writeSnapshot_sends (env : Env) (σ : Server) (id : Uuid)
    (snapshot : Option GridSnapshot) : (σ.writeSnapshot env id snapshot).sends = σ.sends := by
  unfold writeSnapshot
  split <;> rfl

private theorem handleAttach_sends (env : Env) (σ : Server) (fd : RawFd) (id : Uuid) :
    (σ.handleAttach env fd id).1.sends = σ.sends := by
  cases handleAttach_ends env σ fd id with
  | refused _ _ h => rw [h]
  | @granted s d _ _ _ _ h =>
    rw [h]
    exact writeSnapshot_sends env (σ.openFd d (.dup id)) id s.currentSnapshot

private theorem closePending_sends (σ : Server) (id : Uuid) :
    (σ.closePending id).sends = σ.sends := by
  unfold closePending
  split <;> rfl

private theorem revertAttach_sends (σ : Server) (id : Uuid) :
    (σ.revertAttach id).sends = σ.sends := by
  have hclosed := closePending_sends σ id
  unfold revertAttach
  dsimp only
  split <;> exact hclosed

private theorem sendAttachData_sends (env : Env) (σ : Server) (fd : RawFd) (id : Uuid) :
    (σ.sendAttachData env fd id).1.sends = σ.sends := by
  unfold sendAttachData
  split
  · rfl
  · dsimp only
    split
    · rfl
    · dsimp only
      split <;> rfl

private theorem passOn_sends (env : Env) (σ : Server) (fd : RawFd) (response : Response) :
    (σ.passOn env fd response).sends = σ.sends := by
  unfold passOn
  split
  · dsimp only
    split
    · exact sendAttachData_sends ..
    · exact (revertAttach_sends ..).trans (sendAttachData_sends ..)
  · rfl

private theorem forceCompleteTakeover_sends (σ : Server) (id : Uuid)
    (snapshot : Option GridSnapshot) :
    (σ.forceCompleteTakeover id snapshot).1.sends = σ.sends := by
  unfold forceCompleteTakeover
  split <;> rfl

private theorem waitForDetachAck_sends (J : Codec) (fd : RawFd) (id : Uuid) (reads : List AckRead)
    (σ : Server) : (waitForDetachAck J fd id reads σ).1.sends = σ.sends := by
  induction reads generalizing σ with
  | nil => rfl
  | cons read reads ih =>
    unfold waitForDetachAck
    split
    · dsimp only
      split
      · exact ih _
      · split
        · split <;> rfl
        · rfl
        · rfl
    · rfl

private theorem cleanupSession_sends (env : Env) (σ : Server) (s : Session) :
    (σ.cleanupSession env s).sends = σ.sends := by
  unfold cleanupSession
  dsimp only
  split <;> rfl

private theorem dropSession_sends (env : Env) (σ : Server) (s : Session) :
    (σ.dropSession env s).sends = σ.sends := by
  unfold dropSession
  split
  · exact cleanupSession_sends ..
  · rfl

private theorem handleKill_sends (env : Env) (σ : Server) (id : Uuid) :
    (σ.handleKill env id).1.sends = σ.sends := by
  unfold handleKill
  split
  · rfl
  · exact cleanupSession_sends ..

private theorem handleWinsizeUpdate_sends (σ : Server) (id : Uuid) (cols rows : UInt16) :
    (σ.handleWinsizeUpdate id cols rows).1.sends = σ.sends := by
  unfold handleWinsizeUpdate
  split
  · rfl
  · dsimp only
    split
    · rfl
    · split <;> rfl

private theorem handleWsInput_sends (env : Env) (σ : Server) (id : Uuid) (data : List UInt8) :
    (σ.handleWsInput env id data).sends = σ.sends := by
  unfold handleWsInput
  split <;> rfl

private theorem handleCreate_sends {shell : Option String} {cols rows : UInt16}
    {workingDir : Option String} {terminalId : Option UInt32}
    {envs : Option (List (String × String))} {p : Server × Response}
    (h : σ.handleCreate env shell cols rows workingDir terminalId envs = .ok p) :
    p.1.sends = σ.sends := by
  unfold handleCreate at h
  split at h
  · cases h
    rfl
  · dsimp only at h
    split at h
    · cases h
    · cases h
    · cases h
      rfl

private theorem handleRequest_sends {fd : RawFd} {request : Request} {p : Server × Response}
    (h : σ.handleRequest J env fd request = .ok p) : p.1.sends = σ.sends := by
  cases request with
  | create => exact handleCreate_sends h
  | attach id =>
    cases h
    exact handleAttach_sends ..
  | detach id cols rows snapshot =>
    cases h
    exact handleDetach_sends ..
  | kill id =>
    cases h
    exact handleKill_sends ..
  | winsizeUpdate id cols rows =>
    cases h
    exact handleWinsizeUpdate_sends ..
  | input id data =>
    cases h
    unfold handleRemoteInput
    split
    · rfl
    · exact handleWsInput_sends ..
  | _ =>
    cases h
    rfl

private theorem handleChildExit_sends (env : Env) (σ : Server) (pid : Pid) :
    (σ.handleChildExit env pid).sends = σ.sends := by
  unfold handleChildExit
  split
  · rfl
  · dsimp only
    split
    · rfl
    · exact dropSession_sends ..

private theorem handleSessionOutput_sends (env : Env) (σ : Server) (fd : RawFd) (read : PtyRead) :
    (σ.handleSessionOutput env fd read).sends = σ.sends := by
  unfold handleSessionOutput
  split
  · rfl
  · split
    · rfl
    · split
      · rfl
      · split
        · rfl
        · exact dropSession_sends ..
        · rfl

private theorem foldl_sends {α : Type} {f : Server → α → Server}
    (h : ∀ τ a, (f τ a).sends = τ.sends)
    (as : List α) (σ : Server) : (as.foldl f σ).sends = σ.sends := by
  induction as generalizing σ with
  | nil => rfl
  | cons a as ih => exact (ih (f σ a)).trans (h σ a)

private theorem reapDead_sends (env : Env) (σ : Server) : (σ.reapDead env).sends = σ.sends := by
  have hdropped : ∀ (τ : Server) (s : Session),
      ((τ.removeSession s.id).dropSession env s).sends = τ.sends := fun τ s =>
    dropSession_sends env (τ.removeSession s.id) s
  have htold : ∀ (τ : Server) (s : Session),
      ((τ.unregister s.masterFd).notifySessionEnded s.id).sends = τ.sends := fun _ _ => rfl
  exact (foldl_sends htold _ _).trans (foldl_sends hdropped _ σ)

private theorem crashDetach_sends {fd : RawFd} (h : σ.crashDetach id fd = .ok σ') :
    σ'.sends = σ.sends := by
  have hclosed := closePending_sends σ id
  unfold crashDetach at h
  dsimp only at h
  split at h
  · cases h
    exact hclosed
  · split at h
    · cases h
    · cases h
      exact hclosed

private theorem handleClientDisconnect_sends {fd : RawFd}
    (h : σ.handleClientDisconnect fd = .ok σ') :
    σ'.sends = σ.sends := by
  have hcrash : ∀ (ps : List (Uuid × RawFd)) (τ τ' : Server),
      ps.foldlM (fun σ p => σ.crashDetach p.1 p.2) τ = .ok τ' → τ'.sends = τ.sends := by
    intro ps
    induction ps with
    | nil =>
      intro τ τ' h
      cases h
      rfl
    | cons p ps ih =>
      intro τ τ' h
      obtain ⟨ρ, hρ, h⟩ := ok_of_bind h
      exact (ih ρ τ' h).trans (crashDetach_sends hρ)
  refine (hcrash _ _ _ h).trans ?_
  unfold removeClient
  split <;> rfl

/-! ## The three writes -/

/-- The write of a frame, if there is one. -/
def sending (put : Option Nat) (attempt : Option (Nat × Frame)) :
    List (Nat × Frame × Option Nat) :=
  attempt.toList.map fun p => (p.1, p.2, put)

@[simp] theorem sending_none (put : Option Nat) : sending put none = [] := rfl

private theorem handleBatonTakeover_sends (J : Codec) (env : Env) (σ : Server) (id : Uuid) :
    (σ.handleBatonTakeover J env id).1.sends =
      sending env.pushed (σ.takeoverPush id) ++ σ.sends := by
  unfold handleBatonTakeover takeoverPush
  cases hs : σ.sessions.lookup id with
  | none => simp
  | some s =>
    simp only [Option.bind_some]
    split
    · simpa using handleDetach_sends σ id 0 0 none
    · cases hfd : s.ownerFd with
      | none => simpa using handleDetach_sends σ id 0 0 none
      | some fd =>
        cases hclient : σ.clients.lookup fd with
        | none => simpa [hclient] using forceCompleteTakeover_sends σ id none
        | some client =>
          simp only [Option.bind_some, hclient, Option.map_some]
          cases hpush : env.pushWritten with
          | false =>
            refine (forceCompleteTakeover_sends ..).trans ?_
            simp [sending, Env.pushed, hpush, sends, emit, Act.write]
          | true =>
            refine ((forceCompleteTakeover_sends ..).trans (waitForDetachAck_sends ..)).trans ?_
            simp [sending, Env.pushed, hpush, sends, emit, Act.write]

private theorem handleBatonRelease_sends (env : Env) (σ : Server) (id : Uuid) :
    (σ.handleBatonRelease env id).1.sends =
      sending env.pushed (σ.releasePush env id) ++ σ.sends := by
  unfold handleBatonRelease releasePush
  cases hs : σ.sessions.lookup id with
  | none => simp
  | some s =>
    simp only [Option.bind_some]
    cases hfd : s.previousOwnerFd with
    | none => simpa using handleDetach_sends σ id 0 0 none
    | some fd =>
      simp only [Option.bind_some]
      cases hclient : σ.clients.lookup fd with
      | none =>
        rw [Option.bind_none, sending_none]
        exact handleDetach_sends (σ.putSession id s.clearPrevious) id 0 0 none
      | some client =>
        simp only [Option.bind_some]
        cases hdup : env.dup with
        | none => simpa using handleDetach_sends σ id 0 0 none
        | some d =>
          rw [Env.pushed]
          cases env.pushWritten with
          | false => exact handleDetach_sends ..
          | true =>
            cases env.fdSent with
            | false => exact handleDetach_sends ..
            | true => rfl

private theorem takeOverAttached_sends (J : Codec) (env : Env) (σ : Server) (id : Uuid) :
    (σ.takeOverAttached J env id).sends =
      sending env.pushed (σ.takeoverPush id) ++ σ.sends := by
  rcases takeOverAttached_cases J env σ id with ⟨_, _, _, htaken⟩ | ⟨hfree, hsame⟩
  · rw [htaken]
    exact handleBatonTakeover_sends J env σ id
  · rw [hsame]
    unfold takeoverPush
    cases hs : σ.sessions.lookup id with
    | none => simp
    | some s => simp [hfree s hs]

private theorem handleWsAttach_sends {p : Server × Response}
    (h : σ.handleWsAttach J env id = .ok p) :
    p.1.sends = sending env.pushed (σ.takeoverPush id) ++ σ.sends := by
  rw [← takeOverAttached_sends J]
  cases handleWsAttach_cases h with
  | missing hs h => rw [h]
  | dead hs hdead h => rw [h]
  | joined hs halive hdump h =>
    rw [h]
    dsimp only
    split <;> rfl

private theorem pushes_wsClientGone (env : Env) {s : Session} (hs : σ.sessions.lookup id = some s) :
    (σ.putSession id s.wsClientGone).takeoverPush id = σ.takeoverPush id ∧
      (σ.putSession id s.wsClientGone).releasePush env id = σ.releasePush env id := by
  have hself : (σ.putSession id s.wsClientGone).sessions.lookup id = some s.wsClientGone :=
    lookup_putSession_self σ id _
  rw [takeoverPush, takeoverPush, releasePush, releasePush, hself, hs]
  exact ⟨rfl, rfl⟩

private theorem handleWsDetach_sends (J : Codec) (env : Env) (σ : Server) (c : Nat) (id : Uuid)
    (cols rows : UInt16) (snapshot : Option String) (reply : Nat) :
    (σ.handleWsDetach J env id).1.sends =
      sending env.pushed
        (σ.commandPush env (.request c (.detach id cols rows snapshot) reply)) ++ σ.sends := by
  have hput : ∀ s, (σ.putSession id s).sends = σ.sends := fun _ => rfl
  cases handleWsDetach_cases J env σ id with
  | missing hs h =>
    rw [h, handleDetach_sends]
    simp [commandPush, hs]
  | taken hs hatt hcool h =>
    rw [h, handleBatonTakeover_sends, (pushes_wsClientGone env hs).1]
    simp [commandPush, hs, hatt, hcool, hput]
  | cooling hs hatt hcool h =>
    rw [h]
    simp [commandPush, hs, hatt, hcool, hput]
  | released hs hfree hprevious h =>
    rw [h, handleBatonRelease_sends, (pushes_wsClientGone env hs).2]
    simp [commandPush, hs, hfree, hput]
  | detached hs hfree hprevious h =>
    rw [h, handleDetach_sends]
    simp [commandPush, releasePush, hs, hfree, hprevious, hput]

private theorem handleWsClientDisconnect_sends (env : Env) (σ : Server) (c : Nat) :
    (σ.handleWsClientDisconnect env c).sends =
      sending env.pushed (σ.commandPush env (.disconnected c)) ++ σ.sends := by
  have hput : ∀ id s, (σ.putSession id s).sends = σ.sends := fun _ _ => rfl
  cases handleWsClientDisconnect_cases env σ c with
  | absent hnone h =>
    rw [h]
    cases hc : σ.wsShared.clientSessions.lookup c with
    | none => simp [commandPush, hc]
    | some id => simp [commandPush, hc, hnone id hc]
  | released hid hs hcount hprevious h =>
    rw [h, handleBatonRelease_sends, (pushes_wsClientGone env hs).2]
    simp [commandPush, hid, hs, hcount, hput]
  | @left id s hid hs hstays h =>
    rw [h]
    by_cases hlast : s.wsClientGone.wsClientCount = 0
    · have hnone : s.previousOwnerFd = none := by simpa [hlast] using hstays
      simp [commandPush, releasePush, hid, hs, hnone, hput]
    · simp [commandPush, hid, hs, hlast, hput]

private theorem handleWsCommand_sends {cmd : WsCommand} (h : σ.handleWsCommand J env cmd = .ok σ') :
    σ'.sends = sending env.pushed (σ.commandPush env cmd) ++ σ.sends := by
  cases cmd with
  | request c request reply =>
    obtain ⟨p, hp, rfl⟩ := ok_of_map h
    have hreplied : (p.1.emit (.replied reply p.2)).sends = p.1.sends := rfl
    rw [hreplied]
    cases request with
    | attach id => exact handleWsAttach_sends hp
    | detach id cols rows snapshot =>
      cases hp
      exact handleWsDetach_sends J env σ c id cols rows snapshot reply
    | _ => exact (handleRequest_sends hp).trans (by simp [commandPush])
  | disconnected c =>
    cases h
    exact handleWsClientDisconnect_sends env σ c
  | input id data =>
    cases h
    exact (handleWsInput_sends ..).trans (by simp [commandPush])

private theorem answer_sends {fd : RawFd} {client : ClientState}
    (hclient : σ.clients.lookup fd = some client) (env : Env) (response : Response)
    (consumed : Nat) :
    (σ.answer env fd response consumed).sends =
      sending env.answered (some (client.stream, .response response)) ++ σ.sends := by
  simp only [answer, hclient, Env.answered]
  cases env.responseWritten <;> rfl

private theorem serve_sends {fd : RawFd} {conn : Nat} {result : Except String Request}
    {consumed : Nat}
    (hconn : σ.connOf fd = some conn) (h : σ.serve J env fd result consumed = .ok σ') :
    σ'.sends = sending env.answered (σ.attempts J (.request fd result consumed env)) ++
      σ.sends := by
  rw [serve_eq] at h
  obtain ⟨p, hp, rfl⟩ := ok_of_map h
  obtain ⟨client, hclient, rfl⟩ := Option.map_eq_some_iff.mp hconn
  have hsame : p.1.sends = σ.sends := by
    cases result with
    | error message =>
      cases hp
      rfl
    | ok request => exact handleRequest_sends hp
  have hafter : p.1.clients.lookup fd = some client := by rw [(respond_unheard hp).clients, hclient]
  have hattempt : σ.attempts J (.request fd result consumed env) =
      some (client.stream, .response p.2) := by
    simp [attempts, hconn, hp, Except.toOption]
  rw [conclude, passOn_sends, answer_sends hafter, hattempt, hsame]

/-- An event writes the frame it attempts to write, as far as `write_all` gets, and no other. -/
theorem event_sends (h : σ.event J e = .ok σ') :
    σ'.sends = sending e.put (σ.attempts J e) ++ σ.sends := by
  cases event_runs h with
  | @reap env => simpa [attempts] using reapDead_sends env σ
  | command _ h => exact handleWsCommand_sends h
  | accept hfree =>
    simp [attempts]
    rfl
  | request hclient _ h =>
    obtain ⟨conn, hconn⟩ := Option.isSome_iff_exists.mp hclient
    exact serve_sends hconn h
  | disconnect _ h => simpa [attempts] using handleClientDisconnect_sends h
  | @childExit pid env => simpa [attempts] using handleChildExit_sends env σ pid
  | @output fd read env => simpa [attempts] using handleSessionOutput_sends env σ fd read

end Server

end PtyDaemon
