import PtyDaemon.Server.Census

/-!
# Giving sessions away

What puts the PTY of a session into the hands of a local client: an Attach of that client, or the
Detach of a WebSocket client, upon which the session goes back to its previous owner. Nothing else
makes a session attached.
-/

namespace PtyDaemon

namespace Server

variable {J : Codec} {env : Env} {σ σ' : Server} {id : Uuid} {s : Session}

/-- An Attach of a local client is granted, and the descriptor goes out. -/
def passes (env : Env) (σ : Server) (id : Uuid) : Bool :=
  (σ.sessions.lookup id).any fun s =>
    !s.isAttached && env.childAlive s.childPid && env.dup.isSome && env.fdSent

/-- The previous owner is still connected and gets the session back. -/
def releases (env : Env) (σ : Server) (id : Uuid) : Bool :=
  (σ.sessions.lookup id).any fun s =>
    !s.isAttached && (s.previousOwnerFd.bind σ.clients.lookup).isSome && env.dup.isSome &&
      env.pushWritten && env.fdSent

/-- The session an event takes away from the daemon. -/
def givesAway (σ : Server) : Event → Option Uuid
  | .request _ (.ok (.attach id)) _ env => if σ.passes env id then some id else none
  | .command _ (.request _ (.detach id _ _ _) _) env =>
    if σ.releases env id then some id else none
  | _ => none

private theorem attachedAt_putSession (σ : Server) (id i : Uuid) (s : Session) :
    (σ.putSession id s).attachedAt i ↔
      if i = id then s.state = .attached else σ.attachedAt i := by
  rw [attachedAt, lookup_putSession]
  split
  · simp
  · rfl

private theorem attachedAt_of_sessions (h : σ'.sessions = σ.sessions) (id : Uuid) :
    σ'.attachedAt id ↔ σ.attachedAt id := by
  rw [attachedAt, attachedAt, h]

theorem free_of_none (h : σ.sessions.lookup id = none) : ¬ σ.attachedAt id := by
  simp [attachedAt, h]

private theorem free_of_some (hs : σ.sessions.lookup id = some s) :
    ¬ σ.attachedAt id ↔ s.isAttached = false := by
  simp [attachedAt, hs, Session.isAttached]

/-! ## Detaching and taking over -/

private theorem handleDetach_frees (σ : Server) (id : Uuid) (cols rows : UInt16)
    (snapshot : Option GridSnapshot) :
    ¬ (σ.handleDetach id cols rows snapshot).1.attachedAt id := by
  unfold handleDetach
  split
  · rename_i hs
    exact free_of_none hs
  · dsimp only
    split
    · apply mt (attachedAt_putSession ..).mp
      simp [Session.resized, Session.detach]
    · apply mt (attachedAt_putSession ..).mp
      simp [Session.detach]

private theorem forceCompleteTakeover_frees (σ : Server) (id : Uuid)
    (snapshot : Option GridSnapshot) :
    ¬ (σ.forceCompleteTakeover id snapshot).1.attachedAt id := by
  unfold forceCompleteTakeover
  split
  · rename_i hs
    exact free_of_none hs
  · apply mt (attachedAt_putSession ..).mp
    simp [Session.batonDetach, Session.detach]

private theorem handleBatonTakeover_frees (J : Codec) (env : Env) (σ : Server) (id : Uuid) :
    ¬ (σ.handleBatonTakeover J env id).1.attachedAt id := by
  cases handleBatonTakeover_cases J env σ id with
  | unowned hnone h =>
    rw [h]
    apply handleDetach_frees
  | unreached hs hatt howner hnot h =>
    rw [h]
    apply forceCompleteTakeover_frees
  | unwritten hs hatt howner hclient hpush h =>
    rw [h]
    apply forceCompleteTakeover_frees
  | pushed hs hatt howner hclient hpush h =>
    rw [h]
    apply forceCompleteTakeover_frees

private theorem takeOverAttached_frees (J : Codec) (env : Env) (σ : Server) (id : Uuid) :
    ¬ (σ.takeOverAttached J env id).attachedAt id := by
  rcases takeOverAttached_cases J env σ id with ⟨s, hs, hatt, htaken⟩ | ⟨hfree, hsame⟩
  · rw [htaken]
    apply handleBatonTakeover_frees
  · rw [hsame]
    rintro ⟨s, hs, hatt⟩
    exact hfree s hs hatt

/-- Whatever the answer, a session that a WebSocket client asks for is with the daemon. -/
theorem handleWsAttach_frees {p : Server × Response} (h : σ.handleWsAttach J env id = .ok p) :
    ¬ p.1.attachedAt id := by
  have htaken := takeOverAttached_frees J env σ id
  cases handleWsAttach_cases h with
  | missing hs h =>
    rw [h]
    exact htaken
  | dead hs hdead h =>
    rw [h]
    exact htaken
  | @joined s ringData hs halive hdump h =>
    rw [h]
    apply mt (attachedAt_putSession ..).mp
    rw [if_pos rfl]
    intro hstate
    exact htaken ⟨s, hs, (congrArg Core.state (s.wsJoined_core ringData)).symm.trans hstate⟩

/-! ## Attaching and releasing -/

private theorem revertAttach_frees (σ : Server) (id : Uuid) :
    ¬ (σ.revertAttach id).attachedAt id := by
  unfold revertAttach
  dsimp only
  split
  · rename_i hs
    exact free_of_none hs
  · apply mt (attachedAt_putSession ..).mp
    simp [Session.detach]

/-- Passing the descriptor on attaches nothing. Where it fails the attachment is undone. -/
theorem passOn_gives {fd : RawFd} {cols rows : UInt16} {pid : Pid} {shm : String}
    {snapshot : Option AttachSnapshot}
    (h : (σ.passOn env fd (.attachReady id cols rows pid shm snapshot)).attachedAt id) :
    env.fdSent = true ∧ σ.attachedAt id := by
  have hsessions := sendAttachData_sessions env σ fd id
  have hsent : (σ.sendAttachData env fd id).2 = true → env.fdSent = true := by
    unfold sendAttachData
    split
    · intro hsent
      cases hsent
    · dsimp only
      split
      · intro hsent
        cases hsent
      · exact fun hsent => hsent
  unfold passOn at h
  dsimp only at h
  split at h
  · rename_i hout
    exact ⟨hsent hout, (attachedAt_of_sessions hsessions id).mp h⟩
  · exact (revertAttach_frees _ _ h).elim

/-- Only an Attach with everything in place makes a session attached. -/
theorem serve_gives {fd : RawFd} {consumed : Nat} (hfree : ¬ σ.attachedAt id)
    (h : σ.serve J env fd (.ok (.attach id)) consumed = .ok σ') (hatt : σ'.attachedAt id) :
    σ.passes env id = true := by
  unfold serve at h
  obtain ⟨p, hp, rfl⟩ := ok_of_map h
  cases hp
  cases handleAttach_ends env σ fd id with
  | refused _ hresponse hp =>
    rw [hp, passOn_eq hresponse] at hatt
    exact absurd ((attachedAt_of_sessions (answer_sessions ..) id).mp hatt) hfree
  | granted hs _ halive hdup hp =>
    rw [hp] at hatt
    obtain ⟨hsent, _⟩ := passOn_gives hatt
    simp [passes, hs, (free_of_some hs).mp hfree, halive, hdup, hsent]

theorem serve_detach_frees {fd : RawFd} {consumed : Nat} {cols rows : UInt16}
    {snapshot : Option String}
    (h : σ.serve J env fd (.ok (.detach id cols rows snapshot)) consumed = .ok σ') :
    ¬ σ'.attachedAt id := by
  unfold serve at h
  obtain ⟨p, hp, rfl⟩ := ok_of_map h
  cases hp
  have hpass : ∀ (τ : Server) (snapshot : Option GridSnapshot),
      τ.passOn env fd (σ.handleDetach id cols rows snapshot).2 = τ := by
    intro τ snapshot
    unfold handleDetach
    split
    · rfl
    · dsimp only
      split <;> rfl
  rw [hpass, attachedAt_of_sessions (answer_sessions ..)]
  apply handleDetach_frees

/-- A release that does not succeed leaves the session with the daemon. -/
theorem handleBatonRelease_gives (hfree : ¬ σ.attachedAt id)
    (h : (σ.handleBatonRelease env id).1.attachedAt id) : σ.releases env id = true := by
  cases handleBatonRelease_cases env σ id with
  | kept hnone hp =>
    rw [hp] at h
    exact (handleDetach_frees _ _ _ _ _ h).elim
  | gone hs hprevious hclient hp =>
    rw [hp] at h
    exact (handleDetach_frees _ _ _ _ _ h).elim
  | unsent hs hprevious hclient hdup hpush hp =>
    rw [hp] at h
    exact (handleDetach_frees _ _ _ _ _ h).elim
  | refused hs hprevious hclient hdup hpush hsent hp =>
    rw [hp] at h
    exact (handleDetach_frees _ _ _ _ _ h).elim
  | returned hs hprevious hclient hdup hpush hsent hp =>
    simp [releases, hs, (free_of_some hs).mp hfree, hprevious, hclient, hdup, hpush, hsent]

private theorem handleWsDetach_gives (hfree : ¬ σ.attachedAt id)
    (h : (σ.handleWsDetach J env id).1.attachedAt id) : σ.releases env id = true := by
  cases handleWsDetach_cases J env σ id with
  | missing hs hp =>
    rw [hp] at h
    exact (handleDetach_frees _ _ _ _ _ h).elim
  | taken hs hatt hcool hp => exact absurd ⟨_, hs, of_decide_eq_true hatt⟩ hfree
  | cooling hs hatt hcool hp => exact absurd ⟨_, hs, of_decide_eq_true hatt⟩ hfree
  | @released s hs hatt hprevious hp =>
    rw [hp] at h
    have hstate := (free_of_some hs).mp hfree
    have hself := lookup_putSession_self σ id s.wsClientGone
    have hreleases := handleBatonRelease_gives ((free_of_some hself).mpr hstate) h
    -- the count of clients is not looked at
    rw [releases, hself] at hreleases
    rw [releases, hs]
    exact hreleases
  | detached hs hatt hprevious hp =>
    rw [hp] at h
    exact (handleDetach_frees _ _ _ _ _ h).elim

/-! ## Events -/

private theorem free_of_core (h : ∀ c, σ'.coreOf id = some c → c.state ≠ .attached) :
    ¬ σ'.attachedAt id := by
  rintro ⟨s, hs, hstate⟩
  exact h s.core (coreOf_eq_some hs) hstate

private theorem command_gives {shared : WsSharedState} {cmd : WsCommand}
    (h : σ.event J (.command shared cmd env) = .ok σ')
    (hleft : ∀ c, cmd = .disconnected c → shared.clientSessions.lookup c = none)
    (hmoves : σ.eventMoves (.command shared cmd env) id) (hfree : ¬ σ.attachedAt id)
    (hatt : σ'.attachedAt id) : σ.givesAway (.command shared cmd env) = some id := by
  have h := event_command h
  cases cmd with
  | request c request reply =>
    obtain ⟨p, hp, rfl⟩ := ok_of_map h
    have hp1 : p.1.attachedAt id := hatt
    cases request with
    | attach sid => exact absurd hmoves.2 hfree
    | detach sid cols rows snapshot =>
      cases hp
      obtain ⟨rfl, _⟩ := hmoves
      have hfree' : ¬ { σ with wsShared := shared }.attachedAt id := hfree
      have hreleases := handleWsDetach_gives hfree' hp1
      exact if_pos hreleases
    | _ => cases hmoves
  | disconnected c => cases hmoves.1.symm.trans (hleft c rfl)
  | input sid data => cases hmoves

private theorem request_gives {fd : RawFd} {result : Except String Request} {consumed : Nat}
    (h : σ.event J (.request fd result consumed env) = .ok σ')
    (hmoves : σ.eventMoves (.request fd result consumed env) id) (hfree : ¬ σ.attachedAt id)
    (hatt : σ'.attachedAt id) : σ.givesAway (.request fd result consumed env) = some id := by
  have h := event_request h
  cases result with
  | error e => cases hmoves
  | ok request =>
    cases request with
    | attach sid =>
      obtain ⟨rfl, _⟩ := hmoves
      rw [givesAway, if_pos (serve_gives hfree h hatt)]
    | detach sid cols rows snapshot =>
      cases hmoves
      exact absurd hatt (serve_detach_frees h)
    | _ => cases hmoves

/-- An event makes a session attached only by giving it away. -/
theorem event_gives {e : Event} (hinv : Inv σ) (h : σ.event J e = .ok σ') (hid : id ∈ σ.ids)
    (hleft : ∀ {shared c env}, e = .command shared (.disconnected c) env →
      shared.clientSessions.lookup c = none)
    (hfree : ¬ σ.attachedAt id) (hatt : σ'.attachedAt id) : σ.givesAway e = some id := by
  have hcore : ∀ {c}, σ.coreOf id = some c → c.state ≠ .attached := by
    intro c hc hstate
    obtain ⟨s, hs, rfl⟩ := Option.map_eq_some_iff.mp hc
    exact hfree ⟨s, hs, hstate⟩
  cases event_effect hinv h with
  | handled hout =>
    have hkept := hout.kept (hinv.arrive e)
    have hids : (σ.arrive e).ids = σ.ids := by cases e <;> rfl
    have hcores : (σ.arrive e).coreOf id = σ.coreOf id := by cases e <;> rfl
    by_cases hmoves : σ.eventMoves e id
    · cases e with
      | command shared cmd env =>
        exact command_gives h (fun c hc => hleft (congrArg (Event.command shared · env) hc)) hmoves
          hfree hatt
      | request fd result consumed env => exact request_gives h hmoves hfree hatt
      | _ => cases hmoves
    · refine absurd hatt (free_of_core fun c hc => hcore ?_)
      rw [← hcores]
      exact hkept.still (hids ▸ hid) hmoves hc
  | @lost fd conn _ _ hdisc =>
    cases hs : σ.sessions.lookup id with
    | none => exact absurd hatt (free_of_none (hdisc.absent hs))
    | some s =>
      refine absurd hatt (free_of_core fun c hc => ?_)
      by_cases howner : s.ownerFd = some fd
      · obtain ⟨ringData, _, hs'⟩ := hdisc.owned hs howner
        cases hc.symm.trans (coreOf_eq_some hs')
        intro hstate
        cases hstate
      · cases hc.symm.trans (coreOf_eq_some (hdisc.others hs howner))
        rw [Session.forget_core]
        have hstate := hcore (coreOf_eq_some hs)
        exact hstate
  | read _ hread =>
    obtain ⟨s, s', hs, _, hfree', _, hcores, _⟩ := hread.spec
    refine absurd hatt (free_of_core fun c hc => ?_)
    rw [hcores] at hc
    split at hc
    · cases hc
      exact hfree'
    · exact hcore hc

/-! ## A session the daemon keeps -/

/-- The daemon reads the PTY of the session and passes on what it gets. -/
structure Reads (σ : Server) (id : Uuid) (s : Session) : Prop where
  free : s.state ≠ .attached
  registered : s.masterFd ∈ σ.kq
  broadcasts : ∀ env bytes,
    (σ.handleSessionOutput env s.masterFd (.data bytes)).wsShared = σ.wsShared.broadcast id bytes

/-- The master of a session is its own. -/
theorem Inv.findByMasterFd (hinv : Inv σ) (hs : σ.sessions.lookup id = some s) :
    σ.sessions.findByMasterFd s.masterFd = some s := by
  have hmem : s ∈ σ.sessions.values := Table.mem_values.mpr ⟨id, hs⟩
  cases hfound : σ.sessions.findByMasterFd s.masterFd with
  | none =>
    have hnot := List.find?_eq_none.mp hfound s hmem
    simp at hnot
  | some s' =>
    obtain ⟨id', hs'⟩ := Table.mem_values.mp (List.mem_of_find?_eq_some hfound)
    have hmaster : s'.masterFd = s.masterFd := by simpa using List.find?_some hfound
    have hok := hinv.session (coreOf_eq_some hs)
    have hok' := hinv.session (coreOf_eq_some hs')
    by_cases hid : id' = id
    · rw [hid] at hs'
      exact hs'.symm.trans hs
    · exact absurd hmaster (hok'.master_ne hok hid)

/-- A session that is not attached is read by the daemon. -/
theorem Inv.reads (hinv : Inv σ) (hs : σ.sessions.lookup id = some s)
    (hfree : s.state ≠ .attached) : σ.Reads id s where
  free := hfree
  registered := (hinv.session (coreOf_eq_some hs)).registered.mpr hfree
  broadcasts env bytes := by
    have hkey := hinv.sessionsOpen.key hs
    have hs' : σ.sessions.lookup s.id = some s := hkey ▸ hs
    rw [handleSessionOutput, hinv.findByMasterFd hs]
    simp only [hs', if_neg hfree, ← hkey]
    rfl

end Server

end PtyDaemon
