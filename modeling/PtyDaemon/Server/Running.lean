import PtyDaemon.Server.Cases
import PtyDaemon.Server.Dispatch
import PtyDaemon.Wire.DecodeLoop
import PtyDaemon.Ws.Idle

/-!
# The flag of the loop

What the handlers and a batch of events do to `running`: only a signal and a Shutdown take it back.
-/

namespace PtyDaemon

def Request.isShutdown : Request → Bool
  | .shutdown => true
  | _ => false

def WsCommand.isShutdown : WsCommand → Bool
  | .request _ asked _ => asked.isShutdown
  | _ => false

/-- A frame decoded to a Shutdown. -/
def asksShutdown : Except String Request → Bool
  | .ok request => request.isShutdown
  | .error _ => false

namespace Server

variable {J : Codec} {env : Env} {σ σ' : Server} {e : Event}

@[simp] theorem emit_running (σ : Server) (act : Act) : (σ.emit act).running = σ.running := rfl

@[simp] theorem putSession_running (σ : Server) (id : Uuid) (s : Session) :
    (σ.putSession id s).running = σ.running := rfl

@[simp] theorem putClient_running (σ : Server) (fd : RawFd) (c : ClientState) :
    (σ.putClient fd c).running = σ.running := rfl

@[simp] theorem register_running (σ : Server) (fd : RawFd) :
    (σ.register fd).running = σ.running := rfl

@[simp] theorem unregister_running (σ : Server) (fd : RawFd) :
    (σ.unregister fd).running = σ.running := rfl

@[simp] theorem openFd_running (σ : Server) (fd : RawFd) (object : FdObject) :
    (σ.openFd fd object).running = σ.running := rfl

@[simp] theorem closeFd_running (σ : Server) (fd : RawFd) :
    (σ.closeFd fd).running = σ.running := rfl

@[simp] theorem stashDup_running (σ : Server) (id : Uuid) (fd : RawFd) :
    (σ.stashDup id fd).running = σ.running := rfl

@[simp] theorem dropPending_running (σ : Server) (id : Uuid) :
    (σ.dropPending id).running = σ.running := rfl

@[simp] theorem removeSession_running (σ : Server) (id : Uuid) :
    (σ.removeSession id).running = σ.running := rfl

@[simp] theorem notifySessionEnded_running (σ : Server) (id : Uuid) :
    (σ.notifySessionEnded id).running = σ.running := rfl

@[simp] theorem cleanupSession_running (env : Env) (σ : Server) (s : Session) :
    (σ.cleanupSession env s).running = σ.running := by
  unfold cleanupSession
  split <;> rfl

@[simp] theorem dropSession_running (env : Env) (σ : Server) (s : Session) :
    (σ.dropSession env s).running = σ.running := by
  unfold dropSession
  split <;> simp

@[simp] theorem writeSnapshot_running (env : Env) (σ : Server) (id : Uuid)
    (snapshot : Option GridSnapshot) : (σ.writeSnapshot env id snapshot).running = σ.running := by
  unfold writeSnapshot
  split <;> rfl

@[simp] theorem closePending_running (σ : Server) (id : Uuid) :
    (σ.closePending id).running = σ.running := by
  unfold closePending
  split <;> simp

@[simp] theorem handleDetach_running (σ : Server) (id : Uuid) (cols rows : UInt16)
    (snapshot : Option GridSnapshot) :
    (σ.handleDetach id cols rows snapshot).1.running = σ.running := by
  unfold handleDetach
  split
  · rfl
  · dsimp only
    split <;> rfl

@[simp] theorem handleAttach_running (env : Env) (σ : Server) (fd : RawFd) (id : Uuid) :
    (σ.handleAttach env fd id).1.running = σ.running := by
  unfold handleAttach
  split
  · rfl
  · split
    · rfl
    · split
      · rfl
      · split <;> simp

@[simp] theorem sendAttachData_running (env : Env) (σ : Server) (fd : RawFd) (id : Uuid) :
    (σ.sendAttachData env fd id).1.running = σ.running := by
  unfold sendAttachData
  split
  · rfl
  · dsimp only
    split
    · rfl
    · split <;> rfl

@[simp] theorem revertAttach_running (σ : Server) (id : Uuid) :
    (σ.revertAttach id).running = σ.running := by
  unfold revertAttach
  dsimp only
  split <;> simp

@[simp] theorem forceCompleteTakeover_running (σ : Server) (id : Uuid)
    (snapshot : Option GridSnapshot) :
    (σ.forceCompleteTakeover id snapshot).1.running = σ.running := by
  unfold forceCompleteTakeover
  split <;> rfl

@[simp] theorem waitForDetachAck_running (J : Codec) (fd : RawFd) (id : Uuid)
    (reads : List AckRead) (σ : Server) :
    (waitForDetachAck J fd id reads σ).1.running = σ.running := by
  induction reads generalizing σ with
  | nil => rfl
  | cons read reads ih =>
    unfold waitForDetachAck
    split
    · dsimp only
      split
      · exact ih _
      · split
        · split <;> rfl
        · rfl
        · rfl
    · rfl

@[simp] theorem handleBatonTakeover_running (J : Codec) (env : Env) (σ : Server) (id : Uuid) :
    (σ.handleBatonTakeover J env id).1.running = σ.running := by
  unfold handleBatonTakeover
  split
  · rfl
  · split
    · simp
    · split
      · simp
      · split <;> simp

@[simp] theorem handleBatonRelease_running (env : Env) (σ : Server) (id : Uuid) :
    (σ.handleBatonRelease env id).1.running = σ.running := by
  unfold handleBatonRelease
  split
  · rfl
  · split
    · simp
    · split
      · simp
      · dsimp only
        split
        · simp
        · split
          · simp
            split <;> rfl
          · simp
            split <;> rfl

@[simp] theorem takeOverAttached_running (J : Codec) (env : Env) (σ : Server) (id : Uuid) :
    (σ.takeOverAttached J env id).running = σ.running := by
  unfold takeOverAttached
  split
  · rfl
  · split <;> simp

@[simp] theorem handleKill_running (env : Env) (σ : Server) (id : Uuid) :
    (σ.handleKill env id).1.running = σ.running := by
  unfold handleKill
  split <;> simp

@[simp] theorem handleWinsizeUpdate_running (σ : Server) (id : Uuid) (cols rows : UInt16) :
    (σ.handleWinsizeUpdate id cols rows).1.running = σ.running := by
  unfold handleWinsizeUpdate
  split
  · rfl
  · dsimp only
    split
    · rfl
    · split <;> rfl

@[simp] theorem handleWsInput_running (env : Env) (σ : Server) (id : Uuid) (data : List UInt8) :
    (σ.handleWsInput env id data).running = σ.running := by
  unfold handleWsInput
  split <;> rfl

@[simp] theorem handleRemoteInput_running (J : Codec) (env : Env) (σ : Server) (id : Uuid)
    (data : String) : (σ.handleRemoteInput J env id data).1.running = σ.running := by
  unfold handleRemoteInput
  split <;> simp

private theorem handleCreate_running {shell : Option String} {cols rows : UInt16}
    {workingDir : Option String} {terminalId : Option UInt32}
    {envs : Option (List (String × String))} {p : Server × Response}
    (h : σ.handleCreate env shell cols rows workingDir terminalId envs = .ok p) :
    p.1.running = σ.running := by
  unfold handleCreate at h
  split at h
  · cases h
    rfl
  · dsimp only at h
    split at h
    · cases h
    · cases h
    · cases h
      rfl

/-- Only a Shutdown takes the flag back. -/
theorem handleRequest_running {fd : RawFd} {request : Request} {p : Server × Response}
    (h : σ.handleRequest J env fd request = .ok p) :
    p.1.running = (σ.running && !request.isShutdown) := by
  cases request with
  | create => exact (handleCreate_running h).trans (Bool.and_true _).symm
  | shutdown =>
    cases h
    exact (Bool.and_false _).symm
  | _ =>
    cases h
    simp [Request.isShutdown]

@[simp] theorem handleWsDetach_running (J : Codec) (env : Env) (σ : Server) (id : Uuid) :
    (σ.handleWsDetach J env id).1.running = σ.running := by
  cases handleWsDetach_cases J env σ id with
  | missing hs h => simp [h]
  | taken hs hatt hcool h => simp [h]
  | cooling hs hatt hcool h => simp [h]
  | released hs hfree hprevious h => simp [h]
  | detached hs hfree hprevious h => simp [h]

private theorem handleWsAttach_running {id : Uuid} {p : Server × Response}
    (h : σ.handleWsAttach J env id = .ok p) : p.1.running = σ.running := by
  have htaken := takeOverAttached_running J env σ id
  cases handleWsAttach_cases h with
  | missing hs h =>
    rw [h]
    exact htaken
  | dead hs hdead h =>
    rw [h]
    exact htaken
  | joined hs halive hdump h =>
    rw [h]
    dsimp only
    split
    · exact htaken
    · exact htaken

@[simp] theorem handleWsClientDisconnect_running (env : Env) (σ : Server) (c : Nat) :
    (σ.handleWsClientDisconnect env c).running = σ.running := by
  cases handleWsClientDisconnect_cases env σ c with
  | absent hnone h => simp [h]
  | released hid hs hcount hprevious h => simp [h]
  | left hid hs hstays h => simp [h]

private theorem handleWsCommand_running {cmd : WsCommand}
    (h : σ.handleWsCommand J env cmd = .ok σ') :
    σ'.running = (σ.running && !cmd.isShutdown) := by
  cases cmd with
  | disconnected c =>
    cases h
    simp [WsCommand.isShutdown]
  | input id data =>
    cases h
    simp [WsCommand.isShutdown]
  | request c request reply =>
    obtain ⟨p, hp, rfl⟩ := ok_of_map h
    rw [emit_running]
    cases request with
    | attach id => exact (handleWsAttach_running hp).trans (Bool.and_true _).symm
    | detach id cols rows snapshot =>
      cases hp
      simp [WsCommand.isShutdown, Request.isShutdown]
    | _ => exact handleRequest_running hp

@[simp] theorem answer_running (env : Env) (σ : Server) (fd : RawFd) (response : Response)
    (consumed : Nat) : (σ.answer env fd response consumed).running = σ.running := by
  unfold answer
  split
  · rfl
  · dsimp only
    split <;> rfl

@[simp] theorem passOn_running (env : Env) (σ : Server) (fd : RawFd) (response : Response) :
    (σ.passOn env fd response).running = σ.running := by
  unfold passOn
  split
  · dsimp only
    split <;> simp
  · rfl

private theorem respond_running {fd : RawFd} {result : Except String Request}
    {p : Server × Response}
    (h : σ.respond J env fd result = .ok p) :
    p.1.running = (σ.running && !asksShutdown result) := by
  cases result with
  | ok request => exact handleRequest_running h
  | error message =>
    cases h
    exact (Bool.and_true _).symm

private theorem conclude_running (env : Env) (fd : RawFd) (consumed : Nat) (p : Server × Response) :
    (conclude env fd consumed p).running = p.1.running := by
  simp [conclude]

/-- The loop stops for the Shutdowns among the frames that are complete. -/
theorem decodeLoop_running {fd : RawFd} {client : ClientState} {envs : List Env}
    (hclient : σ.clients.lookup fd = some client) (h : decodeLoop J fd envs σ = .ok σ') :
    σ'.running =
      (σ.running && !(payloads client.readBuf).any fun json => asksShutdown (J.request json)) := by
  rw [decodeLoop_eq_log] at h
  obtain ⟨⟨τ, log⟩, hlog, rfl⟩ := ok_of_map h
  clear h
  revert client
  apply decodeLoopLog_induction (h := hlog)
  case stuck =>
    intro envs σ client' hclient' hframe client hclient
    cases hclient'.symm.trans hclient
    simp [payloads, (frames_stuck hframe).1]
  case more =>
    intro env envs σ σ' client' p q log hclient' hframe hq ih client hclient
    cases hclient'.symm.trans hclient
    have hclients := (conclude_clients (respond_unheard hq) hclient env p.2).1 fd
    rw [ih (hclients.trans (if_pos rfl)), conclude_running, respond_running hq]
    simp only [payloads, (frames_more hframe).1, List.map_cons, List.any_cons, Bool.not_or,
      Bool.and_assoc]

private theorem crashDetach_running {id : Uuid} {masterFd : RawFd}
    (h : σ.crashDetach id masterFd = .ok σ') : σ'.running = σ.running := by
  unfold crashDetach at h
  dsimp only at h
  split at h
  · cases h
    simp
  · split at h
    · cases h
    · cases h
      simp

private theorem handleClientDisconnect_running {fd : RawFd}
    (h : σ.handleClientDisconnect fd = .ok σ') : σ'.running = σ.running := by
  have hall : ∀ (l : List (Uuid × RawFd)) (τ : Server),
      l.foldlM (fun σ p => σ.crashDetach p.1 p.2) τ = .ok σ' → σ'.running = τ.running := by
    intro l
    induction l with
    | nil =>
      intro τ h
      cases h
      rfl
    | cons p l ih =>
      intro τ h
      rw [List.foldlM_cons] at h
      obtain ⟨ρ, hρ, h⟩ := ok_of_bind h
      exact (ih ρ h).trans (crashDetach_running hρ)
  refine (hall _ _ h).trans ?_
  change (removeClient (σ.unregister fd) fd).running = σ.running
  unfold removeClient
  split <;> rfl

@[simp] theorem handleChildExit_running (env : Env) (σ : Server) (pid : Pid) :
    (σ.handleChildExit env pid).running = σ.running := by
  unfold handleChildExit
  split
  · rfl
  · dsimp only
    split <;> simp

@[simp] theorem handleSessionOutput_running (env : Env) (σ : Server) (fd : RawFd)
    (read : PtyRead) : (σ.handleSessionOutput env fd read).running = σ.running := by
  unfold handleSessionOutput
  split
  · rfl
  · split
    · rfl
    · split
      · rfl
      · split <;> simp

private theorem foldl_running {α : Type} {f : Server → α → Server}
    (hf : ∀ σ a, (f σ a).running = σ.running) (as : List α) (σ : Server) :
    (as.foldl f σ).running = σ.running := by
  induction as generalizing σ with
  | nil => rfl
  | cons a as ih => exact (ih _).trans (hf σ a)

@[simp] theorem reapDead_running (env : Env) (σ : Server) :
    (σ.reapDead env).running = σ.running := by
  have hforget : ∀ (σ : Server) (s : Session),
      ((σ.unregister s.masterFd).notifySessionEnded s.id).running = σ.running := fun _ _ => rfl
  have hdrop : ∀ (σ : Server) (s : Session),
      ((σ.removeSession s.id).dropSession env s).running = σ.running := by simp
  exact (foldl_running hforget _ _).trans (foldl_running hdrop _ _)

/-- What is read makes a Shutdown of the connection complete. -/
def bringsShutdown (J : Codec) (σ : Server) (fd : RawFd) (read : ClientRead) : Bool :=
  match σ.clients.lookup fd, read with
  | some client, .data bytes =>
    (payloads (client.readBuf ++ bytes)).any fun json => asksShutdown (J.request json)
  | _, _ => false

/-- An event of a batch takes the flag back. -/
def stops (J : Codec) (ans : Answers) (σ : Server) (ev : KEvent) : Bool :=
  match σ.route ev with
  | .shutdown => true
  | .clientData fd => σ.bringsShutdown J fd ans.clientRead
  | _ => false

/-- The same for a batch, in which every event meets what the ones before it have left. -/
def stopsIn (J : Codec) : Server → List (KEvent × Answers) → Bool
  | _, [] => false
  | σ, (ev, ans) :: rest =>
    σ.stops J ans ev ||
      match σ.dispatch J ans ev with
      | .ok σ => stopsIn J σ rest
      | .error _ => false

private theorem handleClientData_running {fd : RawFd} {envs : List Env} {read : ClientRead}
    (h : σ.handleClientData J envs fd read = .ok σ') :
    σ'.running = (σ.running && !σ.bringsShutdown J fd read) := by
  unfold handleClientData at h
  unfold bringsShutdown
  cases hclient : σ.clients.lookup fd with
  | none =>
    rw [hclient] at h
    cases h
    simp
  | some client =>
    rw [hclient] at h
    cases read with
    | closed => simp [handleClientDisconnect_running h]
    | wouldBlock =>
      cases h
      simp
    | failed e => cases h
    | data bytes =>
      let received : ClientState := { client with readBuf := client.readBuf ++ bytes }
      have hreceived : (σ.putClient fd received).clients.lookup fd = some received :=
        (lookup_putClient σ fd fd received).trans (if_pos rfl)
      exact decodeLoop_running hreceived h

private theorem acceptClients_running {accepts : List AcceptResult}
    (h : σ.acceptClients accepts = .ok σ') : σ'.running = σ.running := by
  induction accepts generalizing σ with
  | nil =>
    cases h
    rfl
  | cons a rest ih =>
    cases a with
    | stream fd =>
      rw [acceptClients] at h
      split at h
      · exact (ih h).trans rfl
      · cases h
    | refused fd e => cases h
    | failed e => cases h

private theorem dispatch_running {ans : Answers} {ev : KEvent} (h : σ.dispatch J ans ev = .ok σ') :
    σ'.running = (σ.running && !σ.stops J ans ev) := by
  rw [dispatch_eq] at h
  unfold stops
  cases hroute : σ.route ev with
  | shutdown =>
    rw [hroute] at h
    cases h
    simp
  | wakeup =>
    rw [hroute] at h
    cases h
    simp
  | accept =>
    rw [hroute] at h
    simp [acceptClients_running h]
  | disconnect fd =>
    rw [hroute] at h
    simp [handleClientDisconnect_running h]
  | clientData fd =>
    rw [hroute] at h
    exact handleClientData_running h
  | childExit pid =>
    rw [hroute] at h
    cases h
    simp
  | output fd =>
    rw [hroute] at h
    cases h
    simp

theorem dispatchAll_running {batch : List (KEvent × Answers)}
    (h : σ.dispatchAll J batch = .ok σ') :
    σ'.running = (σ.running && !stopsIn J σ batch) := by
  induction batch generalizing σ with
  | nil =>
    cases h
    simp [stopsIn]
  | cons p batch ih =>
    obtain ⟨ev, ans⟩ := p
    rw [dispatchAll] at h
    cases hdispatch : σ.dispatch J ans ev with
    | error stop =>
      rw [hdispatch] at h
      cases h
    | ok τ =>
      rw [hdispatch] at h
      have hfirst := dispatch_running hdispatch
      dsimp only at h
      rw [stopsIn, hdispatch]
      split at h
      · rename_i hsignal
        cases h
        have hstops : σ.stops J ans ev = true := by simp [stops, route, hsignal]
        rw [hfirst, hstops]
        simp
      · rw [ih h, hfirst, Bool.not_or, Bool.and_assoc]

theorem drainWsCommands_running {commands : List (WsSharedState × WsCommand × Env)}
    (h : σ.drainWsCommands J commands = .ok σ') :
    σ'.running = (σ.running && !commands.any fun c => c.2.1.isShutdown) := by
  induction commands generalizing σ with
  | nil =>
    cases h
    simp
  | cons c commands ih =>
    obtain ⟨shared, cmd, env⟩ := c
    rw [drainWsCommands] at h
    split at h
    · cases hcmd : { σ with wsShared := shared }.handleWsCommand J env cmd with
      | error stop =>
        rw [hcmd] at h
        cases h
      | ok τ =>
        rw [hcmd] at h
        have hfirst := handleWsCommand_running hcmd
        rw [ih h, hfirst, List.any_cons, Bool.not_or, Bool.and_assoc]
    · cases h

end Server

end PtyDaemon
