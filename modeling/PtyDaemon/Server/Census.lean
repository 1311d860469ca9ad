import PtyDaemon.Server.Views

/-!
# The sessions there are, and the clients they count

Which sessions the manager has and how many WebSocket clients each of them counts, after every
handler. Sessions end in four handlers; three of them tell the subscribers.
-/

namespace PtyDaemon

namespace Server

variable {J : Codec} {env : Env} {σ σ' τ : Server} {id : Uuid} {s : Session}

/-- The clients a session counts, if it is there. -/
def countOf (σ : Server) (id : Uuid) : Option Nat :=
  (σ.sessions.lookup id).map Session.wsClientCount

theorem countOf_eq_some (hs : σ.sessions.lookup id = some s) :
    σ.countOf id = some s.wsClientCount := viewOf_eq_some _ hs

theorem countOf_eq_none : σ.countOf id = none ↔ σ.gone id := by
  rw [countOf, Server.gone, coreOf, Option.map_eq_none_iff, Option.map_eq_none_iff]

private theorem countOf_putSession (σ : Server) (id : Uuid) (s : Session) (i : Uuid) :
    (σ.putSession id s).countOf i = if i = id then some s.wsClientCount else σ.countOf i :=
  viewOf_putSession _ σ id s i

private theorem countOf_removeSession (σ : Server) (id i : Uuid) :
    (σ.removeSession id).countOf i = if i = id then none else σ.countOf i :=
  viewOf_removeSession _ σ id i

private theorem countOf_of_sessions (h : σ'.sessions = σ.sessions) : σ'.countOf = σ.countOf :=
  viewOf_of_sessions _ h

/-! ## Handlers that end no session and count none -/

private theorem handleDetach_countOf (σ : Server) (id : Uuid) (cols rows : UInt16)
    (snapshot : Option GridSnapshot) :
    (σ.handleDetach id cols rows snapshot).1.countOf = σ.countOf :=
  handleDetach_view Session.blind_wsClientCount ..

private theorem handleBatonTakeover_countOf (J : Codec) (env : Env) (σ : Server) (id : Uuid) :
    (σ.handleBatonTakeover J env id).1.countOf = σ.countOf :=
  handleBatonTakeover_view Session.blind_wsClientCount ..

private theorem handleBatonRelease_countOf (env : Env) (σ : Server) (id : Uuid) :
    (σ.handleBatonRelease env id).1.countOf = σ.countOf :=
  handleBatonRelease_view Session.blind_wsClientCount ..

private theorem handleWinsizeUpdate_countOf (σ : Server) (id : Uuid) (cols rows : UInt16) :
    (σ.handleWinsizeUpdate id cols rows).1.countOf = σ.countOf := by
  unfold handleWinsizeUpdate
  split
  · rfl
  · rename_i s hs
    have hcount : σ.countOf id = some s.wsClientCount := countOf_eq_some hs
    have hresized : (σ.putSession id ((s.resized cols rows).resizeParser cols rows)).countOf =
        σ.countOf := viewOf_replaced rfl hcount rfl
    dsimp only
    split
    · exact hresized
    · split <;> exact hresized

private theorem handleClientDisconnect_countOf (hinv : Inv σ) {fd : RawFd} {conn : Nat}
    (hconn : σ.connOf fd = some conn) (h : σ.handleClientDisconnect fd = .ok σ') :
    σ'.countOf = σ.countOf := by
  have hdisc := handleClientDisconnect_disconnected hinv hconn h
  have hforget : ∀ s : Session, (s.forget fd).wsClientCount = s.wsClientCount := by
    intro s
    unfold Session.forget
    split <;> rfl
  funext id
  cases hs : σ.sessions.lookup id with
  | none => rw [countOf, countOf, hs, hdisc.absent hs]
  | some s =>
    rw [countOf_eq_some hs]
    by_cases howner : s.ownerFd = some fd
    · obtain ⟨ringData, _, hs'⟩ := hdisc.owned hs howner
      exact (countOf_eq_some hs').trans (congrArg some (hforget s))
    · exact (countOf_eq_some (hdisc.others hs howner)).trans (congrArg some (hforget s))

/-! ## Handlers that end sessions -/

/-- The sessions `ended` have ended, and their subscribers have been told. -/
structure Ended (σ σ' : Server) (ended : List Uuid) : Prop where
  count : ∀ i, σ'.countOf i = if i ∈ ended then none else σ.countOf i
  told : σ'.wsShared = ended.foldl WsSharedState.notifySessionEnded σ.wsShared

private theorem cleanupSession_wsShared (env : Env) (σ : Server) (s : Session) :
    (σ.cleanupSession env s).wsShared = σ.wsShared := by
  unfold cleanupSession
  dsimp only
  split <;> rfl

private theorem dropSession_wsShared (env : Env) (σ : Server) (s : Session) :
    (σ.dropSession env s).wsShared = σ.wsShared := by
  unfold dropSession
  split
  · exact cleanupSession_wsShared ..
  · rfl

private theorem handleKill_ended (env : Env) (σ : Server) (id : Uuid) :
    Ended σ (σ.handleKill env id).1 [] ∨ Ended σ (σ.handleKill env id).1 [id] := by
  unfold handleKill
  split
  · exact .inl ⟨fun i => rfl, rfl⟩
  · right
    constructor
    · intro i
      have hremoved := countOf_removeSession σ id i
      simp only [List.mem_singleton]
      rw [← hremoved]
      exact congrFun (countOf_of_sessions (cleanup_sessions env _ _)) i
    · exact cleanupSession_wsShared ..

private theorem handleChildExit_ended (hinv : Inv σ) (env : Env) (pid : Pid) :
    Ended σ (σ.handleChildExit env pid) [] ∨ ∃ id, Ended σ (σ.handleChildExit env pid) [id] := by
  cases handleChildExit_ends hinv.sessionsOpen.key env pid with
  | unknown _ h =>
    rw [h]
    exact .inl ⟨fun i => rfl, rfl⟩
  | @ended id s _ _ _ h =>
    rw [h]
    right
    refine ⟨id, fun i => ?_, dropSession_wsShared ..⟩
    have hremoved := countOf_removeSession σ id i
    simp only [List.mem_singleton]
    rw [← hremoved]
    exact congrFun (countOf_of_sessions (drop_sessions env _ _)) i

private theorem dropAll_ended (env : Env) (dead : List Session) (σ : Server) :
    (∀ i, (dead.foldl (fun σ s => (σ.removeSession s.id).dropSession env s) σ).countOf i =
      if i ∈ dead.map Session.id then none else σ.countOf i) ∧
      (dead.foldl (fun σ s => (σ.removeSession s.id).dropSession env s) σ).wsShared =
        σ.wsShared := by
  induction dead generalizing σ with
  | nil => exact ⟨fun i => rfl, rfl⟩
  | cons s dead ih =>
    obtain ⟨hcount, hshared⟩ := ih ((σ.removeSession s.id).dropSession env s)
    refine ⟨fun i => (hcount i).trans ?_, hshared.trans (dropSession_wsShared ..)⟩
    rw [countOf_of_sessions (drop_sessions env (σ.removeSession s.id) s), countOf_removeSession]
    by_cases hi : i = s.id
    · simp [hi]
    · simp [hi]

private theorem tellAll_ended (dead : List Session) (σ : Server) :
    (dead.foldl (fun σ s => (σ.unregister s.masterFd).notifySessionEnded s.id) σ).sessions =
      σ.sessions ∧
      (dead.foldl (fun σ s => (σ.unregister s.masterFd).notifySessionEnded s.id) σ).wsShared =
        (dead.map Session.id).foldl WsSharedState.notifySessionEnded σ.wsShared := by
  induction dead generalizing σ with
  | nil => exact ⟨rfl, rfl⟩
  | cons s dead ih => exact ih ((σ.unregister s.masterFd).notifySessionEnded s.id)

private theorem reapDead_ended (env : Env) (σ : Server) :
    ∃ ended, Ended σ (σ.reapDead env) ended := by
  unfold reapDead
  dsimp only
  generalize σ.sessions.values.filter (fun s => !env.childAlive s.childPid) = dead
  obtain ⟨hcount, hshared⟩ := dropAll_ended env dead σ
  obtain ⟨hsessions, htold⟩ := tellAll_ended dead
    (dead.foldl (fun σ s => (σ.removeSession s.id).dropSession env s) σ)
  refine ⟨dead.map Session.id, fun i => ?_, htold.trans (by rw [hshared])⟩
  exact (congrFun (countOf_of_sessions hsessions) i).trans (hcount i)

/-! ## Requests and commands -/

private theorem handleCreate_countOf (hadmits : σ.admits env = true) {shell : Option String}
    {cols rows : UInt16} {workingDir : Option String} {terminalId : Option UInt32}
    {envs : Option (List (String × String))} {p : Server × Response}
    (h : σ.handleCreate env shell cols rows workingDir terminalId envs = .ok p) :
    p.1.countOf = σ.countOf ∨
      ∃ id, id ∉ σ.ids ∧ ∀ i, p.1.countOf i = if i = id then some 0 else σ.countOf i := by
  unfold handleCreate at h
  split at h
  · cases h
    exact .inl rfl
  · rename_i fd pid ptsname hpty
    dsimp only at h
    split at h
    · cases h
    · cases h
    · rename_i ring _ _
      cases h
      right
      refine ⟨env.uuid, ?_, fun i => countOf_putSession _ _ _ _⟩
      rw [admits, hpty, Bool.and_eq_true, Bool.and_eq_true] at hadmits
      simpa using hadmits.2.2

/-- What a request, of whomever, makes of the sessions. -/
inductive Counted (σ σ' : Server) : Prop
  | steady (h : σ'.countOf = σ.countOf)
  | born {id : Uuid} (hnew : id ∉ σ.ids)
      (h : ∀ i, σ'.countOf i = if i = id then some 0 else σ.countOf i)
  | ended {ended : List Uuid} (h : Ended σ σ' ended)

private theorem handleRequest_counted (hadmits : σ.admits env = true) {fd : RawFd}
    {request : Request}
    {p : Server × Response} (h : σ.handleRequest J env fd request = .ok p) : Counted σ p.1 := by
  cases request with
  | create shell cols rows workingDir terminalId envs =>
    rcases handleCreate_countOf hadmits h with hsteady | ⟨id, hnew, hborn⟩
    · exact .steady hsteady
    · exact .born hnew hborn
  | attach id =>
    cases h
    exact .steady (handleAttach_view Session.blind_wsClientCount ..)
  | detach id cols rows snapshot =>
    cases h
    exact .steady (handleDetach_countOf ..)
  | kill id =>
    cases h
    rcases handleKill_ended env σ id with hended | hended
    · exact .ended hended
    · exact .ended hended
  | winsizeUpdate id cols rows =>
    cases h
    exact .steady (handleWinsizeUpdate_countOf ..)
  | input id data =>
    cases h
    exact .steady (countOf_of_sessions (handleRemoteInput_sessions ..))
  | _ =>
    cases h
    exact .steady rfl

private theorem answer_wsShared (env : Env) (σ : Server) (fd : RawFd) (response : Response)
    (consumed : Nat) : (σ.answer env fd response consumed).wsShared = σ.wsShared := by
  unfold answer
  split
  · rfl
  · dsimp only
    split <;> rfl

private theorem sendAttachData_wsShared (env : Env) (σ : Server) (fd : RawFd) (id : Uuid) :
    (σ.sendAttachData env fd id).1.wsShared = σ.wsShared := by
  unfold sendAttachData
  split
  · rfl
  · dsimp only
    split
    · rfl
    · dsimp only
      split <;> rfl

private theorem revertAttach_wsShared (σ : Server) (id : Uuid) :
    (σ.revertAttach id).wsShared = σ.wsShared := by
  have hclosed : (σ.closePending id).wsShared = σ.wsShared := by
    unfold closePending
    split <;> rfl
  unfold revertAttach
  dsimp only
  split
  · exact hclosed
  · exact hclosed

private theorem passOn_wsShared (env : Env) (σ : Server) (fd : RawFd) (response : Response) :
    (σ.passOn env fd response).wsShared = σ.wsShared := by
  unfold passOn
  split
  · dsimp only
    split
    · exact sendAttachData_wsShared ..
    · exact (revertAttach_wsShared ..).trans (sendAttachData_wsShared ..)
  · rfl

private theorem Counted.after (h : Counted σ τ) (hcount : σ'.countOf = τ.countOf)
    (hshared : σ'.wsShared = τ.wsShared) : Counted σ σ' := by
  cases h with
  | steady h => exact .steady (hcount.trans h)
  | born hnew h => exact .born hnew fun i => hcount ▸ h i
  | ended h => exact .ended ⟨fun i => hcount ▸ h.count i, hshared.trans h.told⟩

private theorem serve_counted (hadmits : σ.admits env = true) {fd : RawFd}
    {result : Except String Request} {consumed : Nat}
    (h : σ.serve J env fd result consumed = .ok σ') : Counted σ σ' := by
  unfold serve at h
  dsimp only at h
  obtain ⟨p, hp, rfl⟩ := ok_of_map h
  have hhandled : Counted σ p.1 := by
    cases result with
    | error e =>
      cases hp
      exact .steady rfl
    | ok request => exact handleRequest_counted hadmits hp
  apply hhandled.after
  · exact (passOn_view Session.blind_wsClientCount ..).trans
      (countOf_of_sessions (answer_sessions ..))
  · exact (passOn_wsShared ..).trans (answer_wsShared ..)

private theorem forceCompleteTakeover_child {snapshot : Option GridSnapshot}
    (hs : σ.sessions.lookup id = some s) :
    ((σ.forceCompleteTakeover id snapshot).1.sessions.lookup id).map Session.childPid =
      some s.childPid := by
  unfold forceCompleteTakeover
  rw [hs]
  exact congrArg (Option.map Session.childPid) (lookup_putSession_self σ id _)

/-- A takeover leaves the child alone. -/
theorem takeOverAttached_child (J : Codec) (env : Env) (hs : σ.sessions.lookup id = some s) :
    ((σ.takeOverAttached J env id).sessions.lookup id).map Session.childPid =
      some s.childPid := by
  have hdetached : ((σ.handleDetach id 0 0 none).1.sessions.lookup id).map Session.childPid =
      some s.childPid := by
    unfold handleDetach
    rw [hs]
    exact congrArg (Option.map Session.childPid) (lookup_putSession_self σ id _)
  rcases takeOverAttached_cases J env σ id with ⟨_, _, _, htaken⟩ | ⟨_, hsame⟩
  · rw [htaken]
    cases handleBatonTakeover_cases J env σ id with
    | unowned hnone h =>
      rw [h]
      exact hdetached
    | unreached hs' hatt howner hnot h =>
      rw [h]
      exact forceCompleteTakeover_child hs
    | unwritten hs' hatt howner hclient hpush h =>
      rw [h]
      exact forceCompleteTakeover_child (show (σ.emit _).sessions.lookup id = some s from hs)
    | pushed hs' hatt howner hclient hpush h =>
      rw [h]
      apply forceCompleteTakeover_child
      rw [waitForDetachAck_sessions]
      exact hs
  · rw [hsame, hs, Option.map_some]

/-- A WebSocket client that gets access is counted. -/
theorem handleWsAttach_counts {p : Server × Response} (h : σ.handleWsAttach J env id = .ok p) :
    (∃ s cols rows pid shm snapshot, σ.sessions.lookup id = some s ∧
      env.childAlive s.childPid = true ∧ p.2 = .attachReady id cols rows pid shm snapshot ∧
      ∀ i, p.1.countOf i =
        if i = id then some ((s.wsClientCount + 1) % 2 ^ 32) else σ.countOf i) ∨
      (∀ sid cols rows pid shm snapshot, p.2 ≠ .attachReady sid cols rows pid shm snapshot) ∧
        p.1.countOf = σ.countOf := by
  have htaken : (σ.takeOverAttached J env id).countOf = σ.countOf :=
    takeOverAttached_view Session.blind_wsClientCount ..
  cases handleWsAttach_cases h with
  | missing hs h =>
    rw [h]
    exact .inr ⟨fun _ _ _ _ _ _ h => by (cases h), htaken⟩
  | dead hs hdead h =>
    rw [h]
    exact .inr ⟨fun _ _ _ _ _ _ h => by (cases h), htaken⟩
  | @joined s' ringData hs' halive hdump h =>
    rw [h]
    have hcount : σ.countOf id = some s'.wsClientCount := by
      rw [← htaken]
      exact countOf_eq_some hs'
    obtain ⟨s, hs, hsame⟩ := Option.map_eq_some_iff.mp hcount
    have hchild := takeOverAttached_child J env hs
    rw [hs', Option.map_some] at hchild
    left
    refine ⟨s, _, _, _, _, _, hs, ?_, rfl, fun i => ?_⟩
    · rw [← Option.some.inj hchild]
      exact halive
    · rw [countOf_putSession, s'.wsJoined_wsClientCount, hsame]
      split
      · rfl
      · rw [← htaken]
        split <;> rfl

/-- Access is given to sessions that are there. -/
theorem handleWsAttach_known (hinv : Inv σ) {p : Server × Response}
    (h : σ.handleWsAttach J env id = .ok p) {sid : Uuid} {cols rows : UInt16} {pid : Pid}
    {shm : String} {snapshot : Option AttachSnapshot}
    (hready : p.2 = .attachReady sid cols rows pid shm snapshot) : id ∈ σ.ids := by
  rcases handleWsAttach_counts h with ⟨s, _, _, _, _, _, hs, _⟩ | ⟨hnot, _⟩
  · exact (hinv.session (coreOf_eq_some hs)).known
  · exact absurd hready (hnot _ _ _ _ _ _)

/-- A Detach takes one from the count, whoever it comes from. -/
theorem handleWsDetach_counts (J : Codec) (env : Env) (σ : Server) (id i : Uuid) :
    (σ.handleWsDetach J env id).1.countOf i =
      if i = id then (σ.countOf id).map (· - 1) else σ.countOf i := by
  have hput : ∀ {s : Session}, σ.sessions.lookup id = some s →
      (σ.putSession id s.wsClientGone).countOf i =
        if i = id then (σ.countOf id).map (· - 1) else σ.countOf i := by
    intro s hs
    have hgone : s.wsClientGone.wsClientCount = s.wsClientCount - 1 := by
      change (if 0 < s.wsClientCount then s.wsClientCount - 1 else s.wsClientCount) = _
      split
      · rfl
      · omega
    rw [countOf_putSession, countOf_eq_some hs, hgone, Option.map_some]
  cases handleWsDetach_cases J env σ id with
  | missing hs h =>
    have hnone : σ.countOf id = none := by rw [countOf, hs, Option.map_none]
    rw [h, handleDetach_countOf, hnone]
    split
    · rename_i hi
      rw [hi, hnone, Option.map_none]
    · rfl
  | taken hs hatt hcool h =>
    rw [h, ← hput hs]
    exact congrFun (handleBatonTakeover_countOf ..) i
  | cooling hs hatt hcool h =>
    rw [h, ← hput hs]
  | released hs hfree hprevious h =>
    rw [h, ← hput hs]
    exact congrFun (handleBatonRelease_countOf ..) i
  | detached hs hfree hprevious h =>
    rw [h, ← hput hs]
    exact congrFun (handleDetach_countOf ..) i

/-- No session ends when a client goes. -/
theorem handleWsClientDisconnect_gone (env : Env) (σ : Server) (c : Nat) (i : Uuid) :
    (σ.handleWsClientDisconnect env c).countOf i = none → σ.countOf i = none := by
  have hput : ∀ {id : Uuid} {s : Session},
      (σ.putSession id s.wsClientGone).countOf i = none → σ.countOf i = none := by
    intro id s
    rw [countOf_putSession]
    split
    · intro h
      cases h
    · exact fun h => h
  cases handleWsClientDisconnect_cases env σ c with
  | absent hnone h =>
    rw [h]
    exact id
  | released hid hs hcount hprevious h =>
    rw [h, handleBatonRelease_countOf]
    exact hput
  | left hid hs hstays h =>
    rw [h]
    exact hput

/-! ## Events -/

/-- The daemon finds the end of the output of a session nobody has attached. -/
def endsSilently (σ : Server) : Event → Uuid → Prop
  | .output fd .eof _, id =>
    ∃ s, σ.sessions.findByMasterFd fd = some s ∧ s.id = id ∧ s.state ≠ .attached
  | _, _ => False

private theorem handleSessionOutput_counted (hinv : Inv σ) (env : Env) (fd : RawFd)
    (read : PtyRead) :
    (σ.handleSessionOutput env fd read).countOf = σ.countOf ∨
      ∃ id, σ.endsSilently (.output fd read env) id ∧
        ∀ i, (σ.handleSessionOutput env fd read).countOf i =
          if i = id then none else σ.countOf i := by
  cases handleSessionOutput_ends hinv.sessionsOpen.key env fd read with
  | ignored _ h =>
    rw [h]
    exact .inl rfl
  | absorbed _ _ hs _ _ h =>
    rw [h]
    exact .inl (viewOf_replaced rfl (countOf_eq_some hs) (Session.afterOutput_wsClientCount ..))
  | @ended id s hfound hid _ hfree hread h =>
    right
    subst hread
    rw [h]
    refine ⟨id, ⟨s, hfound, hid, hfree⟩, fun i => ?_⟩
    have hremoved := countOf_removeSession (σ.unregister fd) id i
    exact (congrFun (countOf_of_sessions (drop_sessions env _ _)) i).trans hremoved

end Server

/-- Commands after which a session may count differently. -/
def WsCommand.recounts : WsCommand → Bool
  | .request _ (.attach _) _ => true
  | .request _ (.detach _ _ _ _) _ => true
  | .disconnected _ => true
  | _ => false

def Event.recounts : Event → Bool
  | .command _ cmd _ => cmd.recounts
  | _ => false

namespace Server

variable {J : Codec} {σ σ' : Server} {e : Event}

/-- The other events count nobody. -/
theorem event_counted (hinv : Inv σ) (he : e.recounts = false) (h : σ.event J e = .ok σ') :
    Counted (σ.arrive e) σ' ∨ ∃ id, σ.endsSilently e id ∧
      ∀ i, σ'.countOf i = if i = id then none else σ.countOf i := by
  cases event_runs h with
  | @reap env =>
    obtain ⟨ended, hended⟩ := reapDead_ended env σ
    exact .inl (.ended hended)
  | @command shared cmd env _ hadmits h =>
    left
    cases cmd with
    | request c request reply =>
      obtain ⟨p, hp, rfl⟩ := ok_of_map h
      have hcounted : { σ with wsShared := shared }.handleRequest J env (-1) request = .ok p →
          Counted { σ with wsShared := shared } (p.1.emit (.replied reply p.2)) := fun hp =>
        (handleRequest_counted hadmits hp).after rfl rfl
      cases request with
      | attach _ => cases he
      | detach _ _ _ _ => cases he
      | _ => exact hcounted hp
    | disconnected _ => cases he
    | input sid data =>
      cases h
      exact .steady (countOf_of_sessions (handleWsInput_sessions ..))
  | accept hfree => exact .inl (.steady rfl)
  | request _ hadmits h => exact .inl (serve_counted hadmits h)
  | disconnect hconn h => exact .inl (.steady (handleClientDisconnect_countOf hinv hconn h))
  | @childExit pid env =>
    rcases handleChildExit_ended hinv env pid with hended | ⟨id, hended⟩
    · exact .inl (.ended hended)
    · exact .inl (.ended hended)
  | @output fd read env =>
    rcases handleSessionOutput_counted hinv env fd read with hsteady | hsilent
    · exact .inl (.steady hsteady)
    · exact .inr hsilent

/-- A session that is there afterwards counts as many as before, or it is new. -/
theorem event_counts (hinv : Inv σ) (he : e.recounts = false) (h : σ.event J e = .ok σ') {id : Uuid}
    {n : Nat} (hcount : σ'.countOf id = some n) :
    σ.countOf id = some n ∨ id ∉ σ.ids ∧ n = 0 := by
  have harrive : (σ.arrive e).countOf = σ.countOf := by cases e <;> rfl
  have hids : (σ.arrive e).ids = σ.ids := by cases e <;> rfl
  rcases event_counted hinv he h with hcounted | ⟨sid, _, hsilent⟩
  · cases hcounted with
    | steady hsame =>
      rw [hsame, harrive] at hcount
      exact .inl hcount
    | born hnew hborn =>
      rw [hborn, harrive] at hcount
      split at hcount
      · rename_i hid
        rw [hid]
        exact .inr ⟨hids ▸ hnew, (Option.some.inj hcount).symm⟩
      · exact .inl hcount
    | ended hended =>
      rw [hended.count, harrive] at hcount
      split at hcount
      · cases hcount
      · exact .inl hcount
  · rw [hsilent] at hcount
    split at hcount
    · cases hcount
    · exact .inl hcount

/-- Attaching, detaching and going away end no session. -/
theorem event_lasting (he : e.recounts = true) (h : σ.event J e = .ok σ') {id : Uuid}
    (hnone : σ'.countOf id = none) : σ.countOf id = none := by
  cases e with
  | command shared cmd env =>
    have h := event_command h
    cases cmd with
    | request c request reply =>
      obtain ⟨p, hp, rfl⟩ := ok_of_map h
      have hp1 : p.1.countOf id = none := hnone
      cases request with
      | attach sid =>
        rcases handleWsAttach_counts hp with ⟨_, _, _, _, _, _, _, _, _, hcount⟩ | ⟨_, hcount⟩
        · rw [hcount] at hp1
          split at hp1
          · cases hp1
          · exact hp1
        · rw [hcount] at hp1
          exact hp1
      | detach sid cols rows snapshot =>
        cases hp
        rw [handleWsDetach_counts] at hp1
        split at hp1
        · rename_i hid
          rw [hid]
          exact Option.map_eq_none_iff.mp hp1
        · exact hp1
      | _ => cases he
    | disconnected c =>
      cases h
      exact handleWsClientDisconnect_gone env { σ with wsShared := shared } c id hnone
    | input _ _ => cases he
  | _ => cases he

/-- Whenever a session ends, its subscribers are told, unless the end of its output comes first. -/
theorem event_ended (hinv : Inv σ) (h : σ.event J e = .ok σ') :
    (∃ ended, Told (σ.arrive e) σ' ended ∧
        ∀ id, ¬ σ.gone id → σ'.gone id → id ∈ ended ∨ σ.endsSilently e id) ∨
      ∃ id bytes, σ.arrive e = σ ∧ Read id bytes σ σ' := by
  have hshared : (∀ id, ¬ σ.gone id → σ'.gone id → σ.endsSilently e id) →
      (∃ ended, Told (σ.arrive e) σ' ended ∧
        ∀ id, ¬ σ.gone id → σ'.gone id → id ∈ ended ∨ σ.endsSilently e id) ∨
      ∃ id bytes, σ.arrive e = σ ∧ Read id bytes σ σ' := by
    intro hends
    rcases event_shared hinv h with ⟨⟨ended, htold⟩, _⟩ | hread
    · exact .inl ⟨ended, htold, fun id hlive hgone => .inr (hends id hlive hgone)⟩
    · exact .inr hread
  simp only [← countOf_eq_none] at hshared ⊢
  have harrive : (σ.arrive e).countOf = σ.countOf := by cases e <;> rfl
  cases he : e.recounts with
  | true => exact hshared fun id hlive hgone => absurd (event_lasting he h hgone) hlive
  | false =>
    rcases event_counted hinv he h with hcounted | ⟨sid, hsilent, hcount⟩
    · cases hcounted with
      | steady hcount =>
        apply hshared
        intro id hlive hgone
        rw [hcount, harrive] at hgone
        exact absurd hgone hlive
      | born _ hcount =>
        apply hshared
        intro id hlive hgone
        rw [hcount, harrive] at hgone
        split at hgone
        · cases hgone
        · exact absurd hgone hlive
      | @ended ended hended =>
        refine .inl ⟨ended, ⟨hended.told, fun id hid _ => ?_⟩, fun id hlive hgone => .inl ?_⟩
        · rw [← countOf_eq_none, hended.count, if_pos hid]
        · rw [hended.count, harrive] at hgone
          by_contra hnot
          rw [if_neg hnot] at hgone
          exact hlive hgone
    · apply hshared
      intro id hlive hgone
      rw [hcount] at hgone
      split at hgone
      · rename_i hid
        exact hid ▸ hsilent
      · exact absurd hgone hlive

end Server

end PtyDaemon
