import PtyDaemon.Server.Events
import PtyDaemon.Server.Views

/-!
# What the parser of a session has seen

The daemon feeds the parser of a session the output it reads itself, the history in the ring when an
owner is lost, and the sizes clients report. No other event reaches it.
-/

namespace PtyDaemon

namespace TerminalState

def after (ts : TerminalState) (calls : List ParserCall) : TerminalState :=
  { ts with calls := ts.calls ++ calls }

@[simp] theorem after_nil (ts : TerminalState) : ts.after [] = ts := by
  simp [after]

@[simp] theorem after_after (ts : TerminalState) (calls calls' : List ParserCall) :
    (ts.after calls).after calls' = ts.after (calls ++ calls') := by
  simp [after]

end TerminalState

/-- What replaying history does to the parser. -/
def replayCalls (data : List UInt8) : List ParserCall :=
  if data.isEmpty then [] else [.advance data]

private theorem TerminalState.replayHistory_eq (ts : TerminalState) (data : List UInt8) :
    ts.replayHistory data = ts.after (replayCalls data) := by
  unfold replayHistory replayCalls
  split
  · simp
  · rfl

def Request.parserCalls (id : Uuid) : Request → List ParserCall
  | .winsizeUpdate i cols rows => if i = id then [.resize cols rows] else []
  | _ => []

namespace Server

variable {J : Codec} {env : Env} {σ σ' σ'' : Server} {id : Uuid} {s : Session} {e : Event}
  {calls calls' : List ParserCall}

def parserOf (σ : Server) (id : Uuid) : Option (Option TerminalState) :=
  σ.viewOf Session.terminalState id

/-- The calls an event makes on the parser of session `id`. -/
def parserCalls (σ : Server) (id : Uuid) : Event → List ParserCall
  | .request _ (.ok request) _ _ => request.parserCalls id
  | .command _ (.request _ request _) _ => request.parserCalls id
  | .output fd (.data bytes) _ =>
    match σ.sessions.findByMasterFd fd with
    | some s => if s.id = id ∧ s.state ≠ .attached then [.advance bytes] else []
    | none => []
  | .disconnect fd =>
    match σ.sessions.lookup id with
    | some s =>
      if s.ownerFd = some fd then (s.sharedRing.dump.map replayCalls).getD [] else []
    | none => []
  | _ => []

/-- The parser of the session, if that is still there, has taken the calls. -/
def Fed (id : Uuid) (calls : List ParserCall) (σ σ' : Server) : Prop :=
  σ'.parserOf id = none ∨
    σ'.parserOf id = (σ.parserOf id).map (Option.map fun ts => ts.after calls)

namespace Fed

theorem of_eq (h : σ'.parserOf id = σ.parserOf id) : Fed id [] σ σ' := by
  right
  simp [h]

theorem of_sessions (h : σ'.sessions = σ.sessions) : Fed id [] σ σ' :=
  of_eq (congrFun (viewOf_of_sessions _ h) id)

private theorem of_view (h : σ'.viewOf Session.terminalState = σ.viewOf Session.terminalState) :
    Fed id [] σ σ' := of_eq (congrFun h id)

theorem trans (h : Fed id calls σ σ') (h' : Fed id calls' σ' σ'') :
    Fed id (calls ++ calls') σ σ'' := by
  rcases h' with h' | h'
  · exact .inl h'
  · rcases h with h | h
    · rw [h, Option.map_none] at h'
      exact .inl h'
    · right
      rw [h', h]
      cases σ.parserOf id with
      | none => rfl
      | some parser =>
        cases parser with
        | none => rfl
        | some ts => simp

/-- Nothing more reaches the parser. -/
theorem still (h : Fed id calls σ σ') (h' : Fed id [] σ' σ'') : Fed id calls σ σ'' := by
  have hboth := h.trans h'
  rwa [List.append_nil] at hboth

/-- Sessions are only removed. -/
theorem of_removed
    (h : ∀ i, σ'.sessions.lookup i = none ∨ σ'.sessions.lookup i = σ.sessions.lookup i) :
    Fed id [] σ σ' := by
  rcases h id with h | h
  · left
    rw [parserOf, viewOf, h, Option.map_none]
  · apply of_eq
    rw [parserOf, parserOf, viewOf, viewOf, h]

end Fed

/-! ## Handlers -/

private theorem handleDetach_fed (σ : Server) (i : Uuid) (cols rows : UInt16)
    (snapshot : Option GridSnapshot) : Fed id [] σ (σ.handleDetach i cols rows snapshot).1 :=
  .of_view (handleDetach_view Session.blind_terminalState ..)

private theorem handleWinsizeUpdate_fed (σ : Server) (i : Uuid) (cols rows : UInt16) :
    Fed id ((Request.winsizeUpdate i cols rows).parserCalls id) σ
      (σ.handleWinsizeUpdate i cols rows).1 := by
  change Fed id (if i = id then [.resize cols rows] else []) σ _
  unfold handleWinsizeUpdate
  cases hs : σ.sessions.lookup i with
  | none =>
    dsimp only
    by_cases hi : i = id
    · left
      rw [parserOf, viewOf, ← hi, hs, Option.map_none]
    · rw [if_neg hi]
      exact .of_eq rfl
  | some s =>
    have hput : Fed id (if i = id then [.resize cols rows] else []) σ
        (σ.putSession i ((s.resized cols rows).resizeParser cols rows)) := by
      right
      rw [parserOf, viewOf_putSession]
      by_cases hi : id = i
      · rw [if_pos hi, if_pos hi.symm, hi, parserOf, viewOf_eq_some _ hs]
        rfl
      · rw [if_neg hi, if_neg (Ne.symm hi)]
        simp [parserOf]
    dsimp only
    refine hput.still (.of_sessions ?_)
    split
    · rfl
    · split <;> rfl

theorem handleKill_removed (env : Env) (σ : Server) (id i : Uuid) :
    (σ.handleKill env id).1.sessions.lookup i = none ∨
      (σ.handleKill env id).1.sessions.lookup i = σ.sessions.lookup i := by
  unfold handleKill
  split
  · exact .inr rfl
  · dsimp only
    rw [cleanup_sessions]
    exact lookup_removeSession σ id i

theorem handleChildExit_removed (env : Env) (σ : Server) (pid : Pid) (i : Uuid) :
    (σ.handleChildExit env pid).sessions.lookup i = none ∨
      (σ.handleChildExit env pid).sessions.lookup i = σ.sessions.lookup i := by
  unfold handleChildExit
  split
  · exact .inr rfl
  · rename_i s _
    dsimp only
    split
    · exact .inr rfl
    · rw [drop_sessions]
      exact lookup_removeSession σ s.id i

private theorem lookup_dropAll (env : Env) (dead : List Session) (σ : Server) (i : Uuid) :
    (dead.foldl (fun σ s => (σ.removeSession s.id).dropSession env s) σ).sessions.lookup i =
      if i ∈ dead.map Session.id then none else σ.sessions.lookup i := by
  induction dead generalizing σ with
  | nil => rfl
  | cons s dead ih =>
    have herase : ((σ.removeSession s.id).dropSession env s).sessions.lookup i =
        if i = s.id then none else σ.sessions.lookup i := by
      rw [drop_sessions]
      exact Table.lookup_erase σ.sessions s.id i
    rw [List.foldl_cons, ih, herase]
    by_cases hi : i = s.id
    · simp [hi]
    · simp [hi]

/-- `reap_dead` ends the sessions whose child is found dead. -/
theorem lookup_reapDead (env : Env) (σ : Server) (i : Uuid) :
    (σ.reapDead env).sessions.lookup i =
      if i ∈ (σ.sessions.values.filter fun s => !env.childAlive s.childPid).map Session.id then none
      else σ.sessions.lookup i := by
  have htold : ∀ (dead : List Session) (τ : Server),
      (dead.foldl (fun σ s => (σ.unregister s.masterFd).notifySessionEnded s.id) τ).sessions =
        τ.sessions := by
    intro dead
    induction dead with
    | nil => exact fun τ => rfl
    | cons s dead ih => exact fun τ => ih ((τ.unregister s.masterFd).notifySessionEnded s.id)
  unfold reapDead
  dsimp only
  rw [htold]
  exact lookup_dropAll env _ σ i

theorem reapDead_removed (env : Env) (σ : Server) (i : Uuid) :
    (σ.reapDead env).sessions.lookup i = none ∨
      (σ.reapDead env).sessions.lookup i = σ.sessions.lookup i := by
  rw [lookup_reapDead]
  split
  · exact .inl rfl
  · exact .inr rfl

private theorem handleCreate_fed (hadmits : σ.admits env = true) (hid : id ∈ σ.ids)
    {shell : Option String}
    {cols rows : UInt16} {workingDir : Option String} {terminalId : Option UInt32}
    {envs : Option (List (String × String))} {p : Server × Response}
    (h : σ.handleCreate env shell cols rows workingDir terminalId envs = .ok p) :
    Fed id [] σ p.1 := by
  unfold handleCreate at h
  split at h
  · cases h
    exact .of_eq rfl
  · rename_i fd pid ptsname hpty
    dsimp only at h
    split at h
    · cases h
    · cases h
    · cases h
      rw [admits, hpty, Bool.and_eq_true, Bool.and_eq_true] at hadmits
      have hnew : env.uuid ∉ σ.ids := by simpa using hadmits.2.2
      have hne : id ≠ env.uuid := fun h => hnew (h ▸ hid)
      apply Fed.of_eq
      rw [parserOf, viewOf_putSession, if_neg hne]
      rfl

private theorem handleRequest_fed (hadmits : σ.admits env = true) (hid : id ∈ σ.ids) {fd : RawFd}
    {request : Request} {p : Server × Response} (h : σ.handleRequest J env fd request = .ok p) :
    Fed id (request.parserCalls id) σ p.1 := by
  cases request with
  | create shell cols rows workingDir terminalId envs => exact handleCreate_fed hadmits hid h
  | attach i =>
    cases h
    exact .of_view (handleAttach_view Session.blind_terminalState ..)
  | detach i cols rows snapshot =>
    cases h
    exact handleDetach_fed ..
  | kill i =>
    cases h
    exact .of_removed (handleKill_removed env σ i)
  | winsizeUpdate i cols rows =>
    cases h
    exact handleWinsizeUpdate_fed ..
  | input i data =>
    cases h
    exact .of_sessions (handleRemoteInput_sessions ..)
  | _ =>
    cases h
    exact .of_eq rfl

private theorem handleWsAttach_fed {i : Uuid} {p : Server × Response}
    (h : σ.handleWsAttach J env i = .ok p) : Fed id [] σ p.1 := by
  have htaken := takeOverAttached_view Session.blind_terminalState J env σ i
  cases handleWsAttach_cases h with
  | missing hs h =>
    rw [h]
    exact .of_view htaken
  | dead hs hdead h =>
    rw [h]
    exact .of_view htaken
  | @joined s ringData hs halive hdump h =>
    rw [h]
    have hparser := viewOf_eq_some Session.terminalState hs
    rw [htaken] at hparser
    apply Fed.of_view
    refine viewOf_replaced ?_ hparser (s.wsJoined_terminalState ringData)
    split <;> exact htaken

private theorem wsClientGone_fed (hs : σ.sessions.lookup id = some s) (i : Uuid) :
    Fed i [] σ (σ.putSession id s.wsClientGone) :=
  .of_view (viewOf_replaced rfl (viewOf_eq_some _ hs) rfl)

private theorem handleWsDetach_fed (J : Codec) (env : Env) (σ : Server) (i : Uuid) :
    Fed id [] σ (σ.handleWsDetach J env i).1 := by
  cases handleWsDetach_cases J env σ i with
  | missing hs h =>
    rw [h]
    exact handleDetach_fed ..
  | taken hs hatt hcool h =>
    rw [h]
    apply (wsClientGone_fed hs id).still
    exact .of_view (handleBatonTakeover_view Session.blind_terminalState ..)
  | cooling hs hatt hcool h =>
    rw [h]
    exact wsClientGone_fed hs id
  | released hs hfree hprevious h =>
    rw [h]
    apply (wsClientGone_fed hs id).still
    exact .of_view (handleBatonRelease_view Session.blind_terminalState ..)
  | detached hs hfree hprevious h =>
    rw [h]
    exact (wsClientGone_fed hs id).still (handleDetach_fed ..)

private theorem handleWsClientDisconnect_fed (env : Env) (σ : Server) (c : Nat) :
    Fed id [] σ (σ.handleWsClientDisconnect env c) := by
  cases handleWsClientDisconnect_cases env σ c with
  | absent hnone h =>
    rw [h]
    exact .of_eq rfl
  | released hid hs hcount hprevious h =>
    rw [h]
    apply (wsClientGone_fed hs id).still
    exact .of_view (handleBatonRelease_view Session.blind_terminalState ..)
  | left hid hs hstays h =>
    rw [h]
    exact wsClientGone_fed hs id

private theorem serve_fed (hadmits : σ.admits env = true) (hid : id ∈ σ.ids) {fd : RawFd}
    {result : Except String Request} {consumed : Nat}
    (h : σ.serve J env fd result consumed = .ok σ') :
    Fed id (σ.parserCalls id (.request fd result consumed env)) σ σ' := by
  unfold serve at h
  dsimp only at h
  obtain ⟨p, hp, rfl⟩ := ok_of_map h
  have hanswered : Fed id [] p.1 ((p.1.answer env fd p.2 consumed).passOn env fd p.2) :=
    .of_view ((passOn_view Session.blind_terminalState ..).trans
      (viewOf_of_sessions _ (answer_sessions ..)))
  cases result with
  | error message =>
    cases hp
    exact hanswered
  | ok request => exact (handleRequest_fed hadmits hid hp).still hanswered

/-! ## Events -/

private theorem handleSessionOutput_fed (hinv : Inv σ) (env : Env) (fd : RawFd) (read : PtyRead) :
    Fed id (σ.parserCalls id (.output fd read env)) σ (σ.handleSessionOutput env fd read) := by
  cases handleSessionOutput_ends hinv.sessionsOpen.key env fd read with
  | ignored hnone h =>
    have hcalls : σ.parserCalls id (.output fd read env) = [] := by
      cases hfound : σ.sessions.findByMasterFd fd with
      | none => cases read <;> simp [parserCalls, hfound]
      | some s =>
        rcases hnone s hfound with hatt | rfl
        · cases read <;> simp [parserCalls, hfound, hatt]
        · rfl
    rw [h, hcalls]
    exact .of_eq rfl
  | @absorbed i s bytes hfound hi hs hfree hread h =>
    subst hread
    have hlook := viewOf_putSession Session.terminalState σ i (s.afterOutput env.now bytes) id
    rw [h]
    right
    refine hlook.trans ?_
    by_cases hid : id = i
    · rw [if_pos hid, hid, parserOf, viewOf_eq_some _ hs]
      simp only [parserCalls, hfound, hi, hfree, ne_eq, not_false_eq_true, and_self, if_true]
      rw [Session.afterOutput_terminalState]
      rfl
    · rw [if_neg hid]
      have hne : i ≠ id := fun h => hid h.symm
      simp [parserCalls, hfound, hi, hne, parserOf]
  | @ended i s _ _ _ _ hread h =>
    subst hread
    rw [h]
    apply Fed.of_removed
    intro x
    rw [drop_sessions]
    exact lookup_removeSession σ i x

private theorem forget_terminalState (s : Session) (fd : RawFd) :
    (s.forget fd).terminalState = s.terminalState := by
  unfold Session.forget
  split <;> rfl

private theorem handleClientDisconnect_fed (hinv : Inv σ) {fd : RawFd} {conn : Nat}
    (hconn : σ.connOf fd = some conn) (h : σ.handleClientDisconnect fd = .ok σ') :
    Fed id (σ.parserCalls id (.disconnect fd)) σ σ' := by
  have hdisc := handleClientDisconnect_disconnected hinv hconn h
  right
  cases hs : σ.sessions.lookup id with
  | none => rw [parserOf, parserOf, viewOf, viewOf, hs, hdisc.absent hs, Option.map_none]; rfl
  | some s =>
    rw [parserOf, parserOf, viewOf_eq_some _ hs]
    by_cases howner : s.ownerFd = some fd
    · obtain ⟨ringData, hdump, hs'⟩ := hdisc.owned hs howner
      have hring : (s.forget fd).sharedRing = s.sharedRing :=
        congrArg Core.sharedRing (s.forget_core fd)
      rw [hring] at hdump
      rw [viewOf_eq_some _ hs']
      have hreplayed : ((s.forget fd).crashed ringData).terminalState =
          s.terminalState.map fun ts => ts.replayHistory ringData := by
        rw [← forget_terminalState s fd]
        rfl
      rw [hreplayed]
      simp [parserCalls, hs, howner, hdump, TerminalState.replayHistory_eq]
    · rw [viewOf_eq_some _ (hdisc.others hs howner), forget_terminalState]
      simp [parserCalls, hs, howner]

theorem event_fed (hinv : Inv σ) (h : σ.event J e = .ok σ') (hid : id ∈ σ.ids) :
    Fed id (σ.parserCalls id e) σ σ' := by
  cases event_runs h with
  | @reap env => exact .of_removed (reapDead_removed env σ)
  | @command shared cmd env _ hadmits h =>
    cases cmd with
    | request c request reply =>
      obtain ⟨p, hp, rfl⟩ := ok_of_map h
      cases request with
      | attach i => exact @handleWsAttach_fed J env { σ with wsShared := shared } id i p hp
      | detach i cols rows snapshot =>
        cases hp
        exact handleWsDetach_fed J env { σ with wsShared := shared } i
      | _ => exact handleRequest_fed hadmits hid hp
    | disconnected c =>
      cases h
      exact handleWsClientDisconnect_fed env { σ with wsShared := shared } c
    | input sid data =>
      cases h
      exact .of_sessions (handleWsInput_sessions env { σ with wsShared := shared } sid data)
  | accept hfree => exact .of_eq rfl
  | request _ hadmits h => exact serve_fed hadmits hid h
  | disconnect hconn h => exact handleClientDisconnect_fed hinv hconn h
  | @childExit pid env => exact .of_removed (handleChildExit_removed env σ pid)
  | @output fd read env => exact handleSessionOutput_fed hinv env fd read

end Server

end PtyDaemon
