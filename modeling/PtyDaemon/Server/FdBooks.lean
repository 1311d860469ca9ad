import PtyDaemon.Server.FdCalls

/-!
# The calls account for the table

Handler by handler, the table of open descriptors changes by exactly the calls listed for it; every
call finds the number it is made on as the handler takes it to be.
-/

namespace PtyDaemon

open Ledger (replay)

namespace Server

variable {J : Codec} {env : Env} {σ σ' σ'' : Server} {calls calls' : List FdCall}

/-- No descriptor is opened or closed, and no id is given out. -/
structure Still (σ σ' : Server) : Prop where
  fds : σ'.fds = σ.fds
  pending : σ'.pendingDupFds = σ.pendingDupFds
  ids : σ'.ids = σ.ids
  pipe : σ'.wsWakeupPipe = σ.wsWakeupPipe
  ops : σ'.fdOps = σ.fdOps
  listener : σ'.listener = σ.listener

theorem Still.refl (σ : Server) : Still σ σ := ⟨rfl, rfl, rfl, rfl, rfl, rfl⟩

private theorem Still.trans (h : Still σ σ') (h' : Still σ' σ'') : Still σ σ'' where
  fds := h'.fds.trans h.fds
  pending := h'.pending.trans h.pending
  ids := h'.ids.trans h.ids
  pipe := h'.pipe.trans h.pipe
  ops := h'.ops.trans h.ops
  listener := h'.listener.trans h.listener

/-- The calls made are `calls`, and the table changes by them; every id given out comes with its
master, every duplicate is closed as often as it is opened, and the listener and the pipe are left
alone. -/
structure Posts (calls : List FdCall) (σ σ' : Server) : Prop where
  ops : σ'.fdOps = (calls.map FdCall.op).reverse ++ σ.fdOps
  table : replay calls σ.fds = some σ'.fds
  pending : σ'.pendingDupFds = σ.pendingDupFds
  ids : ∀ id, σ'.ids.count id = σ.ids.count id + Ledger.opens (.master id) calls
  pipe : σ'.wsWakeupPipe = σ.wsWakeupPipe
  listener : σ'.listener = σ.listener
  dups : ∀ id, Ledger.opens (.dup id) calls = Ledger.closes (.dup id) calls
  listening : Ledger.opens .listener calls + Ledger.closes .listener calls = 0
  wakeup : Ledger.opens .wakeup calls + Ledger.closes .wakeup calls = 0

theorem Still.posts (h : Still σ σ') : Posts [] σ σ' where
  ops := h.ops
  table := by rw [Ledger.replay_nil, h.fds]
  pending := h.pending
  ids id := by rw [h.ids, Ledger.opens_nil, Nat.add_zero]
  pipe := h.pipe
  listener := h.listener
  dups _ := rfl
  listening := rfl
  wakeup := rfl

theorem Posts.trans (h : Posts calls σ σ') (h' : Posts calls' σ' σ'') :
    Posts (calls ++ calls') σ σ'' where
  ops := by rw [h'.ops, h.ops, List.map_append, List.reverse_append, List.append_assoc]
  table := Ledger.replay_trans h.table h'.table
  pending := h'.pending.trans h.pending
  ids id := by rw [h'.ids, h.ids, Ledger.opens_append, Nat.add_assoc]
  pipe := h'.pipe.trans h.pipe
  listener := h'.listener.trans h.listener
  dups id := by rw [Ledger.opens_append, Ledger.closes_append, h.dups, h'.dups]
  listening := by
    have hfirst := h.listening
    have hsecond := h'.listening
    rw [Ledger.opens_append, Ledger.closes_append]
    omega
  wakeup := by
    have hfirst := h.wakeup
    have hsecond := h'.wakeup
    rw [Ledger.opens_append, Ledger.closes_append]
    omega

private theorem Posts.still (h : Posts calls σ σ') (h' : Still σ' σ'') : Posts calls σ σ'' := by
  have hall := h.trans h'.posts
  rwa [List.append_nil] at hall

theorem Still.then (h : Still σ σ') (h' : Posts calls σ' σ'') : Posts calls σ σ'' :=
  h.posts.trans h'

theorem freeFd_lookup {fd : RawFd} (h : σ.freeFd fd = true) : σ.fds.lookup fd = none := by
  rw [freeFd, Bool.and_eq_true] at h
  exact Option.isNone_iff_eq_none.mp h.2

/-! ## Handlers that open and close nothing -/

private theorem handleDetach_still (σ : Server) (id : Uuid) (cols rows : UInt16)
    (snapshot : Option GridSnapshot) : Still σ (σ.handleDetach id cols rows snapshot).1 := by
  unfold handleDetach
  split
  · exact .refl σ
  · dsimp only
    split <;> exact ⟨rfl, rfl, rfl, rfl, rfl, rfl⟩

private theorem forceCompleteTakeover_still (σ : Server) (id : Uuid)
    (snapshot : Option GridSnapshot) :
    Still σ (σ.forceCompleteTakeover id snapshot).1 := by
  unfold forceCompleteTakeover
  split <;> exact ⟨rfl, rfl, rfl, rfl, rfl, rfl⟩

private theorem waitForDetachAck_still (J : Codec) (fd : RawFd) (id : Uuid) (reads : List AckRead)
    (σ : Server) : Still σ (waitForDetachAck J fd id reads σ).1 := by
  induction reads generalizing σ with
  | nil => exact .refl σ
  | cons read reads ih =>
    unfold waitForDetachAck
    split
    · rename_i client bytes _
      dsimp only
      split
      · have hput : Still σ (σ.putClient fd { client with readBuf := client.readBuf ++ bytes }) :=
          ⟨rfl, rfl, rfl, rfl, rfl, rfl⟩
        exact hput.trans (ih _)
      · split
        · split <;> exact ⟨rfl, rfl, rfl, rfl, rfl, rfl⟩
        · exact ⟨rfl, rfl, rfl, rfl, rfl, rfl⟩
        · exact ⟨rfl, rfl, rfl, rfl, rfl, rfl⟩
    · exact .refl σ

private theorem handleBatonTakeover_still (J : Codec) (env : Env) (σ : Server) (id : Uuid) :
    Still σ (σ.handleBatonTakeover J env id).1 := by
  cases handleBatonTakeover_cases J env σ id with
  | unowned hnone h =>
    rw [h]
    exact handleDetach_still ..
  | unreached hs hatt howner hnot h =>
    rw [h]
    exact forceCompleteTakeover_still ..
  | @unwritten s fd client hs hatt howner hclient hpush h =>
    rw [h]
    have hcut : Still σ (σ.emit (.cut client.stream (.push (.forceDetach id)) env.cut)) :=
      ⟨rfl, rfl, rfl, rfl, rfl, rfl⟩
    exact hcut.trans (forceCompleteTakeover_still ..)
  | @pushed s fd client hs hatt howner hclient hpush h =>
    rw [h]
    have hpushed : Still σ (σ.emit (.sent client.stream (.push (.forceDetach id)))) :=
      ⟨rfl, rfl, rfl, rfl, rfl, rfl⟩
    have hwaited := hpushed.trans (waitForDetachAck_still J fd id env.ackReads _)
    exact hwaited.trans (forceCompleteTakeover_still ..)

private theorem takeOverAttached_still (J : Codec) (env : Env) (σ : Server) (id : Uuid) :
    Still σ (σ.takeOverAttached J env id) := by
  rcases takeOverAttached_cases J env σ id with ⟨_, _, _, htaken⟩ | ⟨_, hsame⟩
  · rw [htaken]
    exact handleBatonTakeover_still ..
  · rw [hsame]
    exact .refl σ

private theorem handleWsAttach_still {id : Uuid} {p : Server × Response}
    (h : σ.handleWsAttach J env id = .ok p) : Still σ p.1 := by
  have htaken := takeOverAttached_still J env σ id
  cases handleWsAttach_cases h with
  | missing hs h =>
    rw [h]
    exact htaken
  | dead hs hdead h =>
    rw [h]
    exact htaken
  | joined hs halive hdump h =>
    rw [h]
    apply htaken.trans
    dsimp only
    split <;> exact ⟨rfl, rfl, rfl, rfl, rfl, rfl⟩

private theorem handleWinsizeUpdate_still (σ : Server) (id : Uuid) (cols rows : UInt16) :
    Still σ (σ.handleWinsizeUpdate id cols rows).1 := by
  unfold handleWinsizeUpdate
  split
  · exact .refl σ
  · dsimp only
    split
    · exact ⟨rfl, rfl, rfl, rfl, rfl, rfl⟩
    · split <;> exact ⟨rfl, rfl, rfl, rfl, rfl, rfl⟩

private theorem handleWsInput_still (env : Env) (σ : Server) (id : Uuid) (data : List UInt8) :
    Still σ (σ.handleWsInput env id data) := by
  unfold handleWsInput
  split <;> exact ⟨rfl, rfl, rfl, rfl, rfl, rfl⟩

private theorem handleRemoteInput_still (J : Codec) (env : Env) (σ : Server) (id : Uuid)
    (data : String) :
    Still σ (σ.handleRemoteInput J env id data).1 := by
  unfold handleRemoteInput
  split
  · exact .refl σ
  · exact handleWsInput_still env σ id _

private theorem answer_still (env : Env) (σ : Server) (fd : RawFd) (response : Response)
    (consumed : Nat) :
    Still σ (σ.answer env fd response consumed) := by
  unfold answer
  split
  · exact .refl σ
  · dsimp only
    split <;> exact ⟨rfl, rfl, rfl, rfl, rfl, rfl⟩

/-! ## Masters -/

theorem cleanupSession_fds (env : Env) (σ : Server) (s : Session) :
    (σ.cleanupSession env s).fds = σ.fds.erase s.masterFd ∧
      (σ.cleanupSession env s).pendingDupFds = σ.pendingDupFds ∧
      (σ.cleanupSession env s).ids = σ.ids ∧
      (σ.cleanupSession env s).wsWakeupPipe = σ.wsWakeupPipe ∧
      (σ.cleanupSession env s).fdOps = .closed s.masterFd :: σ.fdOps ∧
      (σ.cleanupSession env s).listener = σ.listener := by
  unfold cleanupSession
  cases env.childAlive s.childPid <;> exact ⟨rfl, rfl, rfl, rfl, rfl, rfl⟩

/-- A session that stands as it should is cleaned up by closing its master. -/
theorem cleanupSession_posts {s : Session} (env : Env)
    (hmaster : σ.fds.lookup s.masterFd = some (.master s.id)) :
    Posts [.closed s.masterFd (.master s.id)] σ (σ.cleanupSession env s) := by
  obtain ⟨hfds, hpending, hids, hpipe, hops, hlistener⟩ := cleanupSession_fds env σ s
  refine ⟨hops, ?_, hpending, fun id => ?_, hpipe, hlistener, fun _ => rfl, rfl, rfl⟩
  · rw [hfds]
    exact Ledger.replay_closed hmaster
  · rw [hids]
    rfl

private theorem dropSession_posts {s : Session} (env : Env) (hpos : 0 ≤ s.masterFd)
    (hmaster : σ.fds.lookup s.masterFd = some (.master s.id)) :
    Posts s.dropCalls σ (σ.dropSession env s) := by
  rw [Session.dropCalls_eq hpos, dropSession, if_pos hpos]
  exact cleanupSession_posts env hmaster

/-- The master of a session is open under the number the session has. -/
theorem Inv.masterOpen (h : Inv σ) {id : Uuid} {s : Session}
    (hs : σ.sessions.lookup id = some s) :
    s.id = id ∧ 0 ≤ s.masterFd ∧ σ.fds.lookup s.masterFd = some (.master s.id) := by
  have hok := h.session (coreOf_eq_some hs)
  have hkey : s.id = id := hok.key
  refine ⟨hkey, hok.nonneg, ?_⟩
  rw [hkey]
  exact hok.master

private theorem handleKill_posts (env : Env) (hinv : Inv σ) (id : Uuid) :
    Posts (σ.handleKillCalls id) σ (σ.handleKill env id).1 := by
  cases hs : σ.sessions.lookup id with
  | none =>
    simp only [handleKillCalls, handleKill, hs]
    exact (Still.refl σ).posts
  | some s =>
    obtain ⟨_, _, hmaster⟩ := hinv.masterOpen hs
    simp only [handleKillCalls, handleKill, hs, Session.endCalls_eq]
    have hremoved : Still σ
        (((σ.removeSession id).unregister s.masterFd).notifySessionEnded id) := ⟨rfl, rfl, rfl, rfl, rfl, rfl⟩
    exact hremoved.then (cleanupSession_posts env hmaster)

private theorem handleChildExit_posts (env : Env) (hinv : Inv σ) (pid : Pid) :
    Posts (σ.handleChildExitCalls pid) σ (σ.handleChildExit env pid) := by
  cases hfound : σ.sessions.findByChildPid pid with
  | none =>
    simp only [handleChildExitCalls, handleChildExit, hfound]
    exact (Still.refl σ).posts
  | some found =>
    have hgone : Still σ ((σ.unregister found.masterFd).notifySessionEnded found.id) :=
      ⟨rfl, rfl, rfl, rfl, rfl, rfl⟩
    have hlookup : ((σ.unregister found.masterFd).notifySessionEnded found.id).sessions.lookup
        found.id = σ.sessions.lookup found.id := rfl
    simp only [handleChildExitCalls, handleChildExit, hfound, hlookup]
    cases hs : σ.sessions.lookup found.id with
    | none => exact hgone.posts
    | some s =>
      obtain ⟨_, hpos, hmaster⟩ := hinv.masterOpen hs
      have hremoved : Still σ
          (((σ.unregister found.masterFd).notifySessionEnded found.id).removeSession found.id) :=
        ⟨rfl, rfl, rfl, rfl, rfl, rfl⟩
      exact hremoved.then (dropSession_posts env hpos hmaster)

private theorem handleSessionOutput_posts (env : Env) (hinv : Inv σ) (fd : RawFd) (read : PtyRead) :
    Posts (σ.handleSessionOutputCalls fd read) σ (σ.handleSessionOutput env fd read) := by
  cases hfound : σ.sessions.findByMasterFd fd with
  | none =>
    simp only [handleSessionOutputCalls, handleSessionOutput, hfound]
    exact (Still.refl σ).posts
  | some found =>
    cases hs : σ.sessions.lookup found.id with
    | none =>
      simp only [handleSessionOutputCalls, handleSessionOutput, hfound, hs]
      exact (Still.refl σ).posts
    | some s =>
      by_cases hatt : s.state = .attached
      · simp only [handleSessionOutputCalls, handleSessionOutput, hfound, hs, hatt, if_true]
        exact (Still.refl σ).posts
      · obtain ⟨_, hpos, hmaster⟩ := hinv.masterOpen hs
        simp only [handleSessionOutputCalls, handleSessionOutput, hfound, hs, hatt, if_false]
        cases read with
        | data bytes => exact Still.posts ⟨rfl, rfl, rfl, rfl, rfl, rfl⟩
        | failed => exact (Still.refl σ).posts
        | eof =>
          have hremoved : Still σ ((σ.unregister fd).removeSession found.id) := ⟨rfl, rfl, rfl, rfl, rfl, rfl⟩
          exact hremoved.then (dropSession_posts env hpos hmaster)

private theorem handleCreate_posts {shell : Option String} {cols rows : UInt16}
    {workingDir : Option String} {terminalId : Option UInt32}
    {envs : Option (List (String × String))} {p : Server × Response}
    (hadmits : σ.admits env = true)
    (h : σ.handleCreate env shell cols rows workingDir terminalId envs = .ok p) :
    Posts (handleCreateCalls env) σ p.1 := by
  unfold handleCreateCalls
  unfold handleCreate at h
  cases hpty : env.createPty with
  | error e =>
    rw [hpty] at h
    cases h
    exact (Still.refl σ).posts
  | ok pty =>
    obtain ⟨fd, pid, ptsname⟩ := pty
    rw [hpty] at h
    rw [admits, Bool.and_eq_true, hpty, Bool.and_eq_true] at hadmits
    have hfree := freeFd_lookup hadmits.2.1
    dsimp only at h ⊢
    cases hshm : env.shmError with
    | some e =>
      rw [hshm] at h
      cases h
    | none =>
      rw [hshm] at h
      cases hring : SharedRingBuffer.create env.page defaultRingSize with
      | none =>
        rw [hring] at h
        cases h
      | some ring =>
        rw [hring] at h
        cases h
        refine ⟨rfl, Ledger.replay_opened hfree, rfl, fun id => ?_, rfl, rfl, fun _ => rfl, rfl, rfl⟩
        change (env.uuid :: σ.ids).count id = _
        by_cases hid : env.uuid = id <;> simp [Ledger.opens, hid]

/-! ## Duplicates -/

/-- A duplicate is opened, nothing is opened or closed in between, and it is closed. -/
theorem flash_posts {fd : RawFd} {id : Uuid} (hfree : σ.freeFd fd = true)
    (h : Still (σ.openFd fd (.dup id)) σ') :
    Posts [.opened fd (.dup id), .closed fd (.dup id)] σ (σ'.closeFd fd) where
  ops := by
    change .closed fd :: σ'.fdOps = _
    rw [h.ops]
    rfl
  table := by
    have hopened : replay [.opened fd (.dup id)] σ.fds = some σ'.fds := by
      rw [h.fds]
      exact Ledger.replay_opened (freeFd_lookup hfree)
    have hlookup : σ'.fds.lookup fd = some (.dup id) := by
      rw [h.fds]
      exact AList.lookup_insert σ.fds
    exact Ledger.replay_trans hopened (Ledger.replay_closed hlookup)
  pending := h.pending
  ids _ := by
    change σ'.ids.count _ = _
    rw [h.ids]
    rfl
  pipe := h.pipe
  listener := h.listener
  dups _ := rfl
  listening := rfl
  wakeup := rfl

private theorem handleBatonRelease_posts (hadmits : σ.admits env = true) (id : Uuid) :
    Posts (σ.handleBatonReleaseCalls env id) σ (σ.handleBatonRelease env id).1 := by
  cases hs : σ.sessions.lookup id with
  | none =>
    simp only [handleBatonReleaseCalls, handleBatonRelease, hs]
    exact (Still.refl σ).posts
  | some s =>
    cases hprev : s.previousOwnerFd with
    | none =>
      simp only [handleBatonReleaseCalls, handleBatonRelease, hs, hprev]
      exact (handleDetach_still ..).posts
    | some prev =>
      cases hclient : σ.clients.lookup prev with
      | none =>
        simp only [handleBatonReleaseCalls, handleBatonRelease, hs, hprev, hclient]
        have hforget : Still σ (σ.putSession id s.clearPrevious) := ⟨rfl, rfl, rfl, rfl, rfl, rfl⟩
        exact (hforget.trans (handleDetach_still ..)).posts
      | some client =>
        cases hdup : env.dup with
        | none =>
          simp only [handleBatonReleaseCalls, handleBatonRelease, hs, hprev, hclient, hdup]
          exact (handleDetach_still ..).posts
        | some d =>
          have hfree := freeFd_dup hadmits hdup
          simp only [handleBatonReleaseCalls, handleBatonRelease, hs, hprev, hclient, hdup,
            ite_self]
          generalize hpushed : (if env.pushWritten = true then _ else
            (σ.openFd d (.dup id)).emit _) = τ
          have hτ : Still (σ.openFd d (.dup id)) τ := by
            rw [← hpushed]
            split <;> exact ⟨rfl, rfl, rfl, rfl, rfl, rfl⟩
          generalize hsent : (if (env.pushWritten && env.fdSent) = true then
            τ.emit (.sent client.stream (.fd id)) else τ) = ρ
          have hρ : Still (σ.openFd d (.dup id)) ρ := by
            rw [← hsent]
            split
            · exact hτ.trans ⟨rfl, rfl, rfl, rfl, rfl, rfl⟩
            · exact hτ
          have hflash := flash_posts hfree hρ
          split
          · exact hflash.still ⟨rfl, rfl, rfl, rfl, rfl, rfl⟩
          · have hforget : Still (ρ.closeFd d) ((ρ.closeFd d).putSession id s.clearPrevious) :=
              ⟨rfl, rfl, rfl, rfl, rfl, rfl⟩
            exact hflash.still (hforget.trans (handleDetach_still ..))

/-- An attachment leaves its duplicate to be passed on exactly when it is answered with
`AttachReady`. -/
inductive Stashed (calls : List FdCall) (σ : Server) (p : Server × Response) : Prop
  | none (h : Posts calls σ p.1) (hnot : ∀ i cols rows pid shm snap,
      p.2 ≠ .attachReady i cols rows pid shm snap)
  | some {id : Uuid} {d : RawFd} {cols rows : UInt16} {pid : Pid} {shm : String}
      {snap : Option AttachSnapshot} (hcalls : calls = [.opened d (.dup id)])
      (hfree : σ.freeFd d = true) (hfds : p.1.fds = σ.fds.insert d (.dup id))
      (hpending : p.1.pendingDupFds = σ.pendingDupFds.insert id d) (hids : p.1.ids = σ.ids)
      (hpipe : p.1.wsWakeupPipe = σ.wsWakeupPipe)
      (hops : p.1.fdOps = .opened d (.dup id) :: σ.fdOps) (hlistener : p.1.listener = σ.listener)
      (hready : p.2 = .attachReady id cols rows pid shm snap)

private theorem handleAttach_stashed (hadmits : σ.admits env = true) (fd : RawFd) (id : Uuid) :
    Stashed (σ.handleAttachCalls env id) σ (σ.handleAttach env fd id) := by
  cases hs : σ.sessions.lookup id with
  | none =>
    simp only [handleAttachCalls, handleAttach, hs]
    exact .none (Still.refl σ).posts (by simp [notFound])
  | some s =>
    by_cases hatt : s.state = .attached
    · simp only [handleAttachCalls, handleAttach, hs, hatt, if_true]
      exact .none (Still.refl σ).posts (by simp)
    · cases halive : env.childAlive s.childPid with
      | false =>
        simp only [handleAttachCalls, handleAttach, hs, hatt, if_false, halive, Bool.not_false,
          if_true]
        exact .none (Still.refl σ).posts (by simp [childDead])
      | true =>
        cases hdup : env.dup with
        | none =>
          simp only [handleAttachCalls, handleAttach, hs, hatt, if_false, halive, hdup,
            Bool.not_true, Bool.false_eq_true]
          exact .none (Still.refl σ).posts (by simp)
        | some d =>
          have hfree := freeFd_dup hadmits hdup
          simp only [handleAttachCalls, handleAttach, hs, hatt, if_false, halive, hdup,
            Bool.not_true, Bool.false_eq_true]
          have hwritten : Still (σ.openFd d (.dup id))
              ((σ.openFd d (.dup id)).writeSnapshot env id s.currentSnapshot) := by
            unfold writeSnapshot
            split <;> exact ⟨rfl, rfl, rfl, rfl, rfl, rfl⟩
          refine .some rfl hfree hwritten.fds ?_ hwritten.ids hwritten.pipe hwritten.ops
            hwritten.listener rfl
          exact congrArg (fun t : Table Uuid RawFd => t.insert id d) hwritten.pending

/-! ## Requests and events -/

private theorem handleRequest_stashed {fd : RawFd} {request : Request} {p : Server × Response}
    (hinv : Inv σ) (hadmits : σ.admits env = true)
    (h : σ.handleRequest J env fd request = .ok p) :
    Stashed (σ.handleRequestCalls env request) σ p := by
  have hnot : (∀ id, request ≠ .attach id) → ∀ i cols rows pid shm snap,
      p.2 ≠ .attachReady i cols rows pid shm snap := by
    intro hne i cols rows pid shm snap hready
    obtain ⟨id, hid⟩ := handleRequest_attachReady h hready
    exact hne id hid
  cases request with
  | attach id =>
    cases h
    exact handleAttach_stashed hadmits fd id
  | create shell cols rows workingDir terminalId envs =>
    exact .none (handleCreate_posts hadmits h) (hnot (by simp))
  | detach id cols rows snapshot =>
    cases h
    exact .none (handleDetach_still ..).posts (hnot (by simp))
  | list =>
    cases h
    exact .none (Still.refl σ).posts (hnot (by simp))
  | kill id =>
    cases h
    exact .none (handleKill_posts env hinv id) (hnot (by simp))
  | winsizeUpdate id cols rows =>
    cases h
    exact .none (handleWinsizeUpdate_still ..).posts (hnot (by simp))
  | ping =>
    cases h
    exact .none (Still.refl σ).posts (hnot (by simp))
  | shutdown =>
    cases h
    exact .none (Still.posts ⟨rfl, rfl, rfl, rfl, rfl, rfl⟩) (hnot (by simp))
  | input id data =>
    cases h
    exact .none (handleRemoteInput_still J env σ id data).posts (hnot (by simp))

/-- The duplicate waiting for its client is closed, whether or not it went out. -/
theorem passOn_closes {fd d : RawFd} {id : Uuid} {cols rows : UInt16} {pid : Pid} {shm : String}
    {snap : Option AttachSnapshot} (hd : σ.pendingDupFds.lookup id = some d) :
    σ.passOnCalls env fd (.attachReady id cols rows pid shm snap) = [.closed d (.dup id)] ∧
      Still ((σ.dropPending id).closeFd d)
        (σ.passOn env fd (.attachReady id cols rows pid shm snap)) := by
  have hreverted : ∀ τ, Still (σ.dropPending id) τ →
      (τ.closeFd d).revertAttachCalls id = [] ∧
        Still ((σ.dropPending id).closeFd d) ((τ.closeFd d).revertAttach id) := by
    intro τ hτ
    have hnone : (τ.closeFd d).pendingDupFds.lookup id = none := by
      change τ.pendingDupFds.lookup id = none
      rw [hτ.pending]
      exact AList.lookup_erase id _
    have hclosed : Still ((σ.dropPending id).closeFd d) (τ.closeFd d) :=
      ⟨congrArg (AList.erase d) hτ.fds, hτ.pending, hτ.ids, hτ.pipe,
        congrArg (List.cons (FdOp.closed d)) hτ.ops, hτ.listener⟩
    simp only [revertAttachCalls, closePendingCalls, revertAttach, closePending, hnone, true_and]
    refine hclosed.trans ?_
    split <;> exact ⟨rfl, rfl, rfl, rfl, rfl, rfl⟩
  cases hclient : σ.clients.lookup fd with
  | none =>
    have hclient' : (σ.dropPending id).clients.lookup fd = none := hclient
    obtain ⟨hcalls, hstill⟩ := hreverted _ (.refl _)
    simp only [passOnCalls, passOn, sendAttachDataCalls, sendAttachData, hd, hclient, hclient',
      Bool.false_eq_true, if_false, hcalls, List.append_nil, true_and]
    exact hstill
  | some client =>
    have hclient' : (σ.dropPending id).clients.lookup fd = some client := hclient
    simp only [passOnCalls, passOn, sendAttachDataCalls, sendAttachData, hd, hclient, hclient']
    cases env.fdSent with
    | true =>
      simp only [if_true, List.append_nil, true_and]
      exact ⟨rfl, rfl, rfl, rfl, rfl, rfl⟩
    | false =>
      obtain ⟨hcalls, hstill⟩ := hreverted _ (.refl _)
      simp only [Bool.false_eq_true, if_false, hcalls, List.append_nil, true_and]
      exact hstill

private theorem passOnCalls_eq {fd : RawFd} {response : Response}
    (hnot : ∀ i cols rows pid shm snap,
    response ≠ .attachReady i cols rows pid shm snap) : σ.passOnCalls env fd response = [] := by
  cases response with
  | attachReady => exact absurd rfl (hnot _ _ _ _ _ _)
  | _ => rfl

/-- One pass of the decode loop leaves no duplicate behind. -/
theorem serve_posts {fd : RawFd} {result : Except String Request} {consumed : Nat}
    (hinv : Inv σ) (hadmits : σ.admits env = true) (hpending : σ.pendingDupFds = ∅)
    (h : σ.serve J env fd result consumed = .ok σ') :
    Posts (σ.serveCalls J env fd result consumed) σ σ' := by
  obtain ⟨p, hp, rfl⟩ := ok_of_map h
  cases result with
  | error e =>
    cases hp
    exact (answer_still env σ fd _ consumed).posts
  | ok request =>
    have hp' : σ.handleRequest J env fd request = .ok p := hp
    have hanswer := answer_still env p.1 fd p.2 consumed
    simp only [serveCalls, hp']
    cases handleRequest_stashed hinv hadmits hp' with
    | none hposts hnot =>
      rw [passOn_eq hnot, passOnCalls_eq hnot]
      exact hposts.trans hanswer.posts
    | @some id d cols rows pid shm snap hcalls hfree hfds hstash hids hpipe hops
        hlistener hready =>
      rw [hcalls, hready]
      rw [hready] at hanswer
      generalize p.1.answer env fd (.attachReady id cols rows pid shm snap) consumed = τ
        at hanswer ⊢
      have hd : τ.pendingDupFds.lookup id = some d := by
        rw [hanswer.pending, hstash]
        exact AList.lookup_insert _
      have hnone : σ.pendingDupFds.lookup id = none := by
        rw [hpending]
        rfl
      obtain ⟨hclosed, hstill⟩ :=
        @passOn_closes env τ fd d id cols rows pid shm snap hd
      rw [hclosed]
      have hfds : τ.fds = σ.fds.insert d (.dup id) := hanswer.fds.trans hfds
      constructor
      case ops =>
        rw [hstill.ops]
        change .closed d :: τ.fdOps = _
        rw [hanswer.ops, hops]
        rfl
      case table =>
        have hopened : replay [.opened d (.dup id)] σ.fds = some τ.fds := by
          rw [hfds]
          exact Ledger.replay_opened (freeFd_lookup hfree)
        have hlookup : τ.fds.lookup d = some (.dup id) := by
          rw [hfds]
          exact AList.lookup_insert _
        rw [hstill.fds]
        exact Ledger.replay_trans hopened (Ledger.replay_closed hlookup)
      case pending =>
        rw [hstill.pending]
        change τ.pendingDupFds.erase id = _
        rw [hanswer.pending, hstash]
        exact Table.erase_insert hnone d
      case ids =>
        intro i
        rw [hstill.ids]
        change τ.ids.count i = _
        rw [hanswer.ids, hids]
        rfl
      case pipe =>
        rw [hstill.pipe]
        exact hanswer.pipe.trans hpipe
      case dups => exact fun _ => rfl
      case listener =>
        rw [hstill.listener]
        exact hanswer.listener.trans hlistener
      case listening => rfl
      case wakeup => rfl

private theorem handleWsDetach_posts (hadmits : σ.admits env = true) (id : Uuid) :
    Posts (σ.handleWsDetachCalls env id) σ (σ.handleWsDetach J env id).1 := by
  cases hs : σ.sessions.lookup id with
  | none =>
    simp only [handleWsDetachCalls, handleWsDetach, hs, Bool.false_and, Bool.false_eq_true,
      if_false]
    exact (handleDetach_still ..).posts
  | some s =>
    have hgone : Still σ (σ.putSession id s.wsClientGone) := ⟨rfl, rfl, rfl, rfl, rfl, rfl⟩
    have hself : (σ.putSession id s.wsClientGone).sessions.lookup id = some s.wsClientGone :=
      lookup_putSession_self σ id _
    simp only [handleWsDetachCalls, handleWsDetach, hs, hself]
    cases hatt : s.wsClientGone.isAttached with
    | true =>
      simp only [Bool.true_and, if_true]
      split
      · exact (hgone.trans (handleBatonTakeover_still ..)).posts
      · split
        · exact hgone.posts
        · rename_i hin hout
          cases hcooldown : s.wsClientGone.inCooldown env.now with
          | true => exact absurd hcooldown hout
          | false => exact absurd (by rw [hcooldown]; rfl) hin
    | false =>
      simp only [Bool.false_and, Bool.false_eq_true, if_false]
      have hadmits' : (σ.putSession id s.wsClientGone).admits env = true := hadmits
      split
      · exact hgone.then (handleBatonRelease_posts hadmits' id)
      · exact (hgone.trans (handleDetach_still ..)).posts

private theorem handleWsClientDisconnect_posts (hadmits : σ.admits env = true) (client : Nat) :
    Posts (σ.handleWsClientDisconnectCalls env client) σ
      (σ.handleWsClientDisconnect env client) := by
  cases hid : σ.wsShared.clientSessions.lookup client with
  | none =>
    simp only [handleWsClientDisconnectCalls, handleWsClientDisconnect, hid]
    exact (Still.refl σ).posts
  | some id =>
    cases hs : σ.sessions.lookup id with
    | none =>
      simp only [handleWsClientDisconnectCalls, handleWsClientDisconnect, hid, hs]
      exact (Still.refl σ).posts
    | some s =>
      have hgone : Still σ (σ.putSession id s.wsClientGone) := ⟨rfl, rfl, rfl, rfl, rfl, rfl⟩
      have hadmits' : (σ.putSession id s.wsClientGone).admits env = true := hadmits
      simp only [handleWsClientDisconnectCalls, handleWsClientDisconnect, hid, hs]
      split
      · exact hgone.then (handleBatonRelease_posts hadmits' id)
      · exact hgone.posts

private theorem handleWsCommand_posts (hinv : Inv σ) (hadmits : σ.admits env = true)
    {cmd : WsCommand}
    (h : σ.handleWsCommand J env cmd = .ok σ') :
    Posts (σ.handleWsCommandCalls env cmd) σ σ' := by
  cases cmd with
  | disconnected client =>
    cases h
    exact handleWsClientDisconnect_posts hadmits client
  | input id data =>
    cases h
    exact (handleWsInput_still env σ id data).posts
  | request client request reply =>
    obtain ⟨p, hp, rfl⟩ := ok_of_map h
    have hreply : Still p.1 (p.1.emit (.replied reply p.2)) := ⟨rfl, rfl, rfl, rfl, rfl, rfl⟩
    have hother : (∀ id, request ≠ .attach id) → σ.handleRequest J env (-1) request = .ok p →
        Posts (σ.handleRequestCalls env request) σ (p.1.emit (.replied reply p.2)) := by
      intro hne hp
      cases handleRequest_stashed hinv hadmits hp with
      | none hposts _ => exact hposts.still hreply
      | some _ _ _ _ _ _ _ _ hready =>
        obtain ⟨id, hid⟩ := handleRequest_attachReady hp hready
        exact absurd hid (hne id)
    cases request with
    | attach id => exact ((handleWsAttach_still hp).trans hreply).posts
    | detach id cols rows snapshot =>
      cases hp
      exact (handleWsDetach_posts hadmits id).still hreply
    | _ => exact hother (by simp) hp

private theorem removeClient_posts {fd : RawFd} {conn : Nat} (hconn : σ.connOf fd = some conn)
    (hfd : σ.fds.lookup fd = some (.client conn)) :
    σ.removeClientCalls fd = [.closed fd (.client conn)] ∧
      Posts [.closed fd (.client conn)] σ (σ.removeClient fd) := by
  obtain ⟨client, hclient, rfl⟩ := Option.map_eq_some_iff.mp hconn
  simp only [removeClientCalls, removeClient, hclient, true_and]
  exact ⟨rfl, Ledger.replay_closed hfd, rfl, fun _ => rfl, rfl, rfl, fun _ => rfl, rfl, rfl⟩

private theorem crashDetach_still {id : Uuid} {masterFd : RawFd} (hpending : σ.pendingDupFds = ∅)
    (h : σ.crashDetach id masterFd = .ok σ') : Still σ σ' := by
  have hnone : σ.pendingDupFds.lookup id = none := by
    rw [hpending]
    rfl
  simp only [crashDetach, closePending, hnone] at h
  split at h
  · cases h
    exact ⟨rfl, rfl, rfl, rfl, rfl, rfl⟩
  · split at h
    · cases h
    · cases h
      exact ⟨rfl, rfl, rfl, rfl, rfl, rfl⟩

private theorem crashAll_still {lost : List (Uuid × RawFd)} (hpending : σ.pendingDupFds = ∅)
    (h : lost.foldlM (fun σ p => σ.crashDetach p.1 p.2) σ = .ok σ') :
    σ.crashDetachCalls lost = [] ∧ Still σ σ' := by
  induction lost generalizing σ with
  | nil =>
    cases h
    exact ⟨rfl, .refl _⟩
  | cons p lost ih =>
    rw [List.foldlM_cons] at h
    obtain ⟨τ, hτ, h⟩ := ok_of_bind h
    have hstill := crashDetach_still hpending hτ
    have hnone : σ.pendingDupFds.lookup p.1 = none := by
      rw [hpending]
      rfl
    obtain ⟨hcalls, hrest⟩ := ih (hstill.pending.trans hpending) h
    simp only [crashDetachCalls, closePendingCalls, hnone, hτ, hcalls, List.nil_append, true_and]
    exact hstill.trans hrest

/-- A connection that goes away is closed, and nothing else. -/
theorem handleClientDisconnect_posts {fd : RawFd} {conn : Nat} (hinv : Inv σ)
    (hpending : σ.pendingDupFds = ∅) (hconn : σ.connOf fd = some conn)
    (h : σ.handleClientDisconnect fd = .ok σ') :
    σ.handleClientDisconnectCalls fd = [.closed fd (.client conn)] ∧
      Posts [.closed fd (.client conn)] σ σ' := by
  have hunregister : Still σ (σ.unregister fd) := ⟨rfl, rfl, rfl, rfl, rfl, rfl⟩
  have hforget : ∀ τ : Server, Still τ (τ.forgetPrevious fd) := fun _ => ⟨rfl, rfl, rfl, rfl, rfl, rfl⟩
  have hconn' : (σ.unregister fd).connOf fd = some conn := hconn
  obtain ⟨hcalls, hclosed⟩ := removeClient_posts hconn' (hinv.client hconn)
  have hremoved := (hunregister.then hclosed).still (hforget _)
  obtain ⟨hnone, hstill⟩ := crashAll_still (hremoved.pending.trans hpending) h
  refine ⟨?_, hremoved.still hstill⟩
  simp only [handleClientDisconnectCalls, hcalls]
  rw [hnone, List.append_nil]

private theorem dropAll_posts (env : Env) (dead : List Session)
    (hnodup : (dead.map Session.id).Nodup)
    (hlive : ∀ s ∈ dead, 0 ≤ s.masterFd ∧ σ.fds.lookup s.masterFd = some (.master s.id)) :
    Posts (dead.flatMap Session.dropCalls) σ
      (dead.foldl (fun σ s => (σ.removeSession s.id).dropSession env s) σ) := by
  induction dead generalizing σ with
  | nil => exact (Still.refl σ).posts
  | cons s dead ih =>
    obtain ⟨hpos, hmaster⟩ := hlive s List.mem_cons_self
    rw [List.map_cons, List.nodup_cons] at hnodup
    have hremoved : Still σ (σ.removeSession s.id) := ⟨rfl, rfl, rfl, rfl, rfl, rfl⟩
    have hdropped := hremoved.then (dropSession_posts env hpos hmaster)
    rw [List.flatMap_cons, List.foldl_cons]
    refine hdropped.trans (ih hnodup.2 fun t ht => ?_)
    obtain ⟨htpos, htmaster⟩ := hlive t (List.mem_cons_of_mem s ht)
    refine ⟨htpos, ?_⟩
    have hne : t.masterFd ≠ s.masterFd := by
      intro heq
      rw [heq, hmaster] at htmaster
      have hid := FdObject.master.inj (Option.some.inj htmaster)
      exact hnodup.1 (List.mem_map.mpr ⟨t, ht, hid.symm⟩)
    have hfds : ((σ.removeSession s.id).dropSession env s).fds = σ.fds.erase s.masterFd := by
      rw [dropSession, if_pos hpos]
      exact (cleanupSession_fds env (σ.removeSession s.id) s).1
    rw [hfds, Table.lookup_erase, if_neg hne]
    exact htmaster

private theorem reapDead_posts (env : Env) (hinv : Inv σ) :
    Posts (σ.reapDeadCalls env) σ (σ.reapDead env) := by
  have hlive : ∀ s ∈ σ.sessions.values.filter (fun s => !env.childAlive s.childPid),
      0 ≤ s.masterFd ∧ σ.fds.lookup s.masterFd = some (.master s.id) := by
    intro s hs
    obtain ⟨id, hid⟩ := Table.mem_values.mp (List.mem_filter.mp hs).1
    exact (hinv.masterOpen hid).2
  have hnodup : ((σ.sessions.values.filter fun s => !env.childAlive s.childPid).map
      Session.id).Nodup :=
    (Table.nodup_map_values fun id s hs => hinv.sessionsOpen.key hs).sublist
      (List.filter_sublist.map _)
  have hforgotten : ∀ (dead : List Session) (τ : Server), Still τ
      (dead.foldl (fun σ s => (σ.unregister s.masterFd).notifySessionEnded s.id) τ) := by
    intro dead
    induction dead with
    | nil => exact Still.refl
    | cons s dead ih =>
      intro τ
      have hone : Still τ ((τ.unregister s.masterFd).notifySessionEnded s.id) :=
        ⟨rfl, rfl, rfl, rfl, rfl, rfl⟩
      exact hone.trans (ih _)
  exact (dropAll_posts env _ hnodup hlive).still (hforgotten _ _)

/-- Every event changes the table by the calls listed for it. -/
theorem event_posts {e : Event} (hinv : Inv σ) (hpending : σ.pendingDupFds = ∅)
    (h : σ.event J e = .ok σ') : Posts (σ.eventCalls J e) σ σ' := by
  cases event_runs h with
  | @reap env => exact reapDead_posts env hinv
  | @command shared cmd env _ hadmits h =>
    have harrived : Still σ { σ with wsShared := shared } := ⟨rfl, rfl, rfl, rfl, rfl, rfl⟩
    exact harrived.then (handleWsCommand_posts (hinv.withShared shared) hadmits h)
  | @accept fd hfree =>
    have hopened : replay [.opened fd (.client σ.accepted)] σ.fds =
        some (σ.acceptClient fd).fds := Ledger.replay_opened (freeFd_lookup hfree)
    exact ⟨rfl, hopened, rfl, fun _ => rfl, rfl, rfl, fun _ => rfl, rfl, rfl⟩
  | request _ hadmits h => exact serve_posts hinv hadmits hpending h
  | disconnect hconn h =>
    obtain ⟨hcalls, hposts⟩ := handleClientDisconnect_posts hinv hpending hconn h
    rw [eventCalls, hcalls]
    exact hposts
  | @childExit pid env => exact handleChildExit_posts env hinv pid
  | @output fd read env => exact handleSessionOutput_posts env hinv fd read

end Server

end PtyDaemon
