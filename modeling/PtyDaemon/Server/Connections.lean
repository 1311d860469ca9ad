import PtyDaemon.Server.HandlerMoves

/-!
# The control connections

The handlers neither read from the control connections nor write responses to them: that is left to
the decode loop, and to the wait for an acknowledgement. One lemma for each handler says so.
-/

namespace PtyDaemon

/-- The response an act writes to a control connection. -/
def Act.answer : Act → Option (Nat × Response)
  | .sent conn (.response response) => some (conn, response)
  | _ => none

namespace Server

/-- The responses written so far, newest first, each with its connection. -/
def answers (σ : Server) : List (Nat × Response) := σ.trace.filterMap Act.answer

/-- Nothing has been read from a control connection, and no response written to one. -/
structure Unheard (σ σ' : Server) : Prop where
  clients : σ'.clients = σ.clients
  answers : σ'.answers = σ.answers
  accepted : σ'.accepted = σ.accepted

namespace Unheard

variable {σ σ' σ'' : Server}

theorem refl (σ : Server) : Unheard σ σ := ⟨rfl, rfl, rfl⟩

theorem trans (h : Unheard σ σ') (h' : Unheard σ' σ'') : Unheard σ σ'' :=
  ⟨h'.clients.trans h.clients, h'.answers.trans h.answers, h'.accepted.trans h.accepted⟩

/-- The same from a state that differs in nothing of interest. -/
theorem after (h : Unheard σ' σ'') (hclients : σ'.clients = σ.clients)
    (hanswers : σ'.answers = σ.answers) (haccepted : σ'.accepted = σ.accepted) : Unheard σ σ'' :=
  ⟨h.clients.trans hclients, h.answers.trans hanswers, h.accepted.trans haccepted⟩

theorem emit (h : Unheard σ σ') (act : Act) (hact : act.answer = none) :
    Unheard σ (σ'.emit act) where
  clients := h.clients
  answers := by rw [← h.answers, Server.answers, Server.emit, List.filterMap_cons, hact]; rfl
  accepted := h.accepted

private theorem openFd (h : Unheard σ σ') (fd : RawFd) (object : FdObject) :
    Unheard σ (σ'.openFd fd object) := ⟨h.clients, h.answers, h.accepted⟩

private theorem closeFd (h : Unheard σ σ') (fd : RawFd) : Unheard σ (σ'.closeFd fd) :=
  ⟨h.clients, h.answers, h.accepted⟩

private theorem unregister (h : Unheard σ σ') (fd : RawFd) : Unheard σ (σ'.unregister fd) :=
  ⟨h.clients, h.answers, h.accepted⟩

theorem putSession (h : Unheard σ σ') (id : Uuid) (s : Session) :
    Unheard σ (σ'.putSession id s) := ⟨h.clients, h.answers, h.accepted⟩

private theorem foldl {α : Type} {f : Server → α → Server} (hf : ∀ τ a, Unheard τ (f τ a))
    (as : List α)
    (σ : Server) : Unheard σ (as.foldl f σ) := by
  induction as generalizing σ with
  | nil => exact .refl σ
  | cons a as ih => exact (hf σ a).trans (ih (f σ a))

end Unheard

variable {J : Codec} {env : Env} {σ σ' : Server}

theorem handleDetach_unheard (σ : Server) (id : Uuid) (cols rows : UInt16)
    (snapshot : Option GridSnapshot) : Unheard σ (σ.handleDetach id cols rows snapshot).1 := by
  unfold handleDetach
  split
  · exact .refl σ
  · dsimp only
    split <;> exact ⟨rfl, rfl, rfl⟩

theorem writeSnapshot_unheard (env : Env) (σ : Server) (id : Uuid)
    (snapshot : Option GridSnapshot) : Unheard σ (σ.writeSnapshot env id snapshot) := by
  unfold writeSnapshot
  split <;> exact ⟨rfl, rfl, rfl⟩

private theorem handleAttach_unheard (env : Env) (σ : Server) (fd : RawFd) (id : Uuid) :
    Unheard σ (σ.handleAttach env fd id).1 := by
  cases handleAttach_ends env σ fd id with
  | refused _ _ h =>
    rw [h]
    exact .refl σ
  | @granted s d _ _ _ _ h =>
    have hopened : Unheard σ (σ.openFd d (.dup id)) := ⟨rfl, rfl, rfl⟩
    have hwritten := hopened.trans (writeSnapshot_unheard env _ id s.currentSnapshot)
    rw [h]
    exact ⟨hwritten.clients, hwritten.answers, hwritten.accepted⟩

private theorem closePending_unheard (σ : Server) (id : Uuid) : Unheard σ (σ.closePending id) := by
  unfold closePending
  split <;> exact ⟨rfl, rfl, rfl⟩

private theorem revertAttach_unheard (σ : Server) (id : Uuid) : Unheard σ (σ.revertAttach id) := by
  have hclosed := closePending_unheard σ id
  unfold revertAttach
  dsimp only
  split
  · exact hclosed
  · exact hclosed.trans ⟨rfl, rfl, rfl⟩

private theorem sendAttachData_unheard (env : Env) (σ : Server) (fd : RawFd) (id : Uuid) :
    Unheard σ (σ.sendAttachData env fd id).1 := by
  unfold sendAttachData
  split
  · exact .refl σ
  · dsimp only
    split
    · exact ⟨rfl, rfl, rfl⟩
    · dsimp only
      split <;> exact ⟨rfl, rfl, rfl⟩

theorem passOn_unheard (env : Env) (σ : Server) (fd : RawFd) (response : Response) :
    Unheard σ (σ.passOn env fd response) := by
  cases response with
  | attachReady id cols rows pid shm snapshot =>
    have hsent := sendAttachData_unheard env σ fd id
    simp only [passOn]
    split
    · exact hsent
    · exact hsent.trans (revertAttach_unheard _ id)
  | _ => exact .refl σ

theorem forceCompleteTakeover_unheard (σ : Server) (id : Uuid) (snapshot : Option GridSnapshot) :
    Unheard σ (σ.forceCompleteTakeover id snapshot).1 := by
  unfold forceCompleteTakeover
  split
  · exact .refl σ
  · exact ⟨rfl, rfl, rfl⟩

theorem handleBatonRelease_unheard (env : Env) (σ : Server) (id : Uuid) :
    Unheard σ (σ.handleBatonRelease env id).1 := by
  -- the push and the descriptor are no responses
  cases handleBatonRelease_cases env σ id with
  | kept hnone h =>
    rw [h]
    exact handleDetach_unheard ..
  | gone hs hprevious hclient h =>
    rw [h]
    exact (handleDetach_unheard ..).after rfl rfl rfl
  | @unsent s fd d client hs hprevious hclient hdup hpush h =>
    rw [h]
    have hopened := (Unheard.refl σ).openFd d (.dup id)
    have hcut := hopened.emit (.cut client.stream (.push (resumePush id s)) env.cut) rfl
    exact ((hcut.closeFd d).putSession id _).trans (handleDetach_unheard ..)
  | @refused s fd d client hs hprevious hclient hdup hpush hsent h =>
    rw [h]
    have hopened := (Unheard.refl σ).openFd d (.dup id)
    have hpushed := hopened.emit (.sent client.stream (.push (resumePush id s))) rfl
    exact ((hpushed.closeFd d).putSession id _).trans (handleDetach_unheard ..)
  | @returned s fd d client hs hprevious hclient hdup hpush hsent h =>
    rw [h]
    have hopened := (Unheard.refl σ).openFd d (.dup id)
    have hpushed := hopened.emit (.sent client.stream (.push (resumePush id s))) rfl
    have hpassed := hpushed.emit (.sent client.stream (.fd id)) rfl
    exact (((hpassed.closeFd d).unregister s.masterFd).putSession id _).emit _ rfl

private theorem cleanupSession_unheard (env : Env) (σ : Server) (s : Session) :
    Unheard σ (σ.cleanupSession env s) := by
  unfold cleanupSession
  dsimp only
  split <;> exact ⟨rfl, rfl, rfl⟩

theorem dropSession_unheard (env : Env) (σ : Server) (s : Session) :
    Unheard σ (σ.dropSession env s) := by
  unfold dropSession
  split
  · exact cleanupSession_unheard env σ s
  · exact .refl σ

theorem handleKill_unheard (env : Env) (σ : Server) (id : Uuid) :
    Unheard σ (σ.handleKill env id).1 := by
  unfold handleKill
  split
  · exact .refl σ
  · exact (cleanupSession_unheard ..).after rfl rfl rfl

private theorem handleWinsizeUpdate_unheard (σ : Server) (id : Uuid) (cols rows : UInt16) :
    Unheard σ (σ.handleWinsizeUpdate id cols rows).1 := by
  unfold handleWinsizeUpdate
  split
  · exact .refl σ
  · dsimp only
    split
    · exact ⟨rfl, rfl, rfl⟩
    · split <;> exact ⟨rfl, rfl, rfl⟩

theorem handleWsInput_unheard (env : Env) (σ : Server) (id : Uuid) (data : List UInt8) :
    Unheard σ (σ.handleWsInput env id data) := by
  unfold handleWsInput
  split <;> exact ⟨rfl, rfl, rfl⟩

private theorem handleRemoteInput_unheard (J : Codec) (env : Env) (σ : Server) (id : Uuid)
    (data : String) : Unheard σ (σ.handleRemoteInput J env id data).1 := by
  unfold handleRemoteInput
  split
  · exact .refl σ
  · exact handleWsInput_unheard env σ id _

private theorem handleCreate_unheard {shell : Option String} {cols rows : UInt16}
    {workingDir : Option String} {terminalId : Option UInt32}
    {envs : Option (List (String × String))} {p : Server × Response}
    (h : σ.handleCreate env shell cols rows workingDir terminalId envs = .ok p) :
    Unheard σ p.1 := by
  unfold handleCreate at h
  split at h
  · cases h
    exact .refl σ
  · dsimp only at h
    split at h
    · cases h
    · cases h
    · cases h
      exact ⟨rfl, rfl, rfl⟩

theorem handleRequest_unheard {fd : RawFd} {request : Request} {p : Server × Response}
    (h : σ.handleRequest J env fd request = .ok p) : Unheard σ p.1 := by
  cases request with
  | create => exact handleCreate_unheard h
  | attach id =>
    cases h
    exact handleAttach_unheard env σ fd id
  | detach id cols rows snapshot =>
    cases h
    exact handleDetach_unheard ..
  | list =>
    cases h
    exact .refl σ
  | kill id =>
    cases h
    exact handleKill_unheard env σ id
  | winsizeUpdate id cols rows =>
    cases h
    exact handleWinsizeUpdate_unheard σ id cols rows
  | ping =>
    cases h
    exact .refl σ
  | shutdown =>
    cases h
    exact ⟨rfl, rfl, rfl⟩
  | input id data =>
    cases h
    exact handleRemoteInput_unheard J env σ id data

theorem handleWsClientDisconnect_unheard (env : Env) (σ : Server) (c : Nat) :
    Unheard σ (σ.handleWsClientDisconnect env c) := by
  cases handleWsClientDisconnect_cases env σ c with
  | absent hnone h =>
    rw [h]
    exact .refl σ
  | released hid hs hcount hprevious h =>
    rw [h]
    exact (handleBatonRelease_unheard ..).after rfl rfl rfl
  | left hid hs hstays h =>
    rw [h]
    exact ⟨rfl, rfl, rfl⟩

theorem handleChildExit_unheard (env : Env) (σ : Server) (pid : Pid) :
    Unheard σ (σ.handleChildExit env pid) := by
  unfold handleChildExit
  split
  · exact .refl σ
  · rename_i s _
    dsimp only
    split
    · exact ⟨rfl, rfl, rfl⟩
    · exact (dropSession_unheard ..).after rfl rfl rfl

theorem handleSessionOutput_unheard (env : Env) (σ : Server) (fd : RawFd) (read : PtyRead) :
    Unheard σ (σ.handleSessionOutput env fd read) := by
  unfold handleSessionOutput
  split
  · exact .refl σ
  · rename_i found _
    split
    · exact .refl σ
    · split
      · exact .refl σ
      · split
        · exact ⟨rfl, rfl, rfl⟩
        · exact (dropSession_unheard ..).after rfl rfl rfl
        · exact .refl σ

theorem reapDead_unheard (env : Env) (σ : Server) : Unheard σ (σ.reapDead env) := by
  have hdropped : ∀ (τ : Server) (s : Session),
      Unheard τ ((τ.removeSession s.id).dropSession env s) := fun τ s =>
    (dropSession_unheard env (τ.removeSession s.id) s).after rfl rfl rfl
  have htold : ∀ (τ : Server) (s : Session),
      Unheard τ ((τ.unregister s.masterFd).notifySessionEnded s.id) := fun _ _ => ⟨rfl, rfl, rfl⟩
  exact (Unheard.foldl hdropped _ σ).trans (Unheard.foldl htold _ _)

/-- Only the connection that is lost goes out of the table. -/
theorem handleClientDisconnect_clients {fd : RawFd}
    (h : σ.handleClientDisconnect fd = .ok σ') :
    σ'.answers = σ.answers ∧ σ'.accepted = σ.accepted ∧
      ∀ x, σ'.clients.lookup x = if x = fd then none else σ.clients.lookup x := by
  have hcrash : ∀ (ps : List (Uuid × RawFd)) (τ τ' : Server),
      ps.foldlM (fun σ p => σ.crashDetach p.1 p.2) τ = .ok τ' → Unheard τ τ' := by
    intro ps
    induction ps with
    | nil =>
      intro τ τ' h
      cases h
      exact .refl τ
    | cons p ps ih =>
      intro τ τ' h
      rw [List.foldlM_cons] at h
      obtain ⟨ρ, hρ, h⟩ := ok_of_bind h
      apply Unheard.trans _ (ih ρ τ' h)
      have hclosed := closePending_unheard τ p.1
      unfold crashDetach at hρ
      dsimp only at hρ
      split at hρ
      · cases hρ
        exact hclosed.trans ⟨rfl, rfl, rfl⟩
      · split at hρ
        · cases hρ
        · cases hρ
          exact hclosed.trans ⟨rfl, rfl, rfl⟩
  have hend := hcrash _ _ _ h
  refine ⟨hend.answers.trans ?_, hend.accepted.trans ?_, fun x => ?_⟩
  · unfold removeClient
    split <;> rfl
  · unfold removeClient
    split <;> rfl
  · rw [hend.clients]
    unfold removeClient
    split
    · rename_i hnone
      have hnone : σ.clients.lookup fd = none := hnone
      split
      · rename_i hx
        exact hx ▸ hnone
      · rfl
    · exact Table.lookup_erase σ.clients fd x

end Server

end PtyDaemon
