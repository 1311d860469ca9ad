import PtyDaemon.Server.Views
import PtyDaemon.Server.Cases

/-!
# What a session keeps

A session gets its number, its child, its master and its shared-memory name when it is created, and
keeps them until it ends. Of the rest, this follows the recorded size, the size of the parser and
the time of the last release; and with them the calls that make and unlink shared-memory objects,
and how the session changes hands. Most handlers leave all of it as it is.
-/

namespace PtyDaemon

/-- The size last given to the parser. -/
def TerminalState.size (ts : TerminalState) : WinSize :=
  ts.calls.foldl (fun size call =>
    match call with
    | .resize cols rows => ⟨cols, rows⟩
    | .advance _ => size) ⟨ts.cols, ts.rows⟩

@[simp] theorem TerminalState.size_new (cols rows : UInt16) :
    (TerminalState.new cols rows).size = ⟨cols, rows⟩ := rfl

@[simp] theorem TerminalState.size_feed (ts : TerminalState) (data : List UInt8) :
    (ts.feed data).size = ts.size := by
  simp [size, feed]

@[simp] theorem TerminalState.size_replayHistory (ts : TerminalState) (data : List UInt8) :
    (ts.replayHistory data).size = ts.size := by
  unfold replayHistory
  split
  · rfl
  · exact ts.size_feed data

@[simp] theorem TerminalState.size_resize (ts : TerminalState) (cols rows : UInt16) :
    (ts.resize cols rows).size = ⟨cols, rows⟩ := by
  simp [size, resize]

/-- What a session keeps while it lives, its two sizes and its last release. -/
structure Fixture where
  id : Uuid
  masterFd : RawFd
  childPid : Pid
  shmName : String
  winsize : WinSize
  parserSize : Option WinSize
  batonReleaseAt : Option Nat

def Session.fixture (s : Session) : Fixture where
  id := s.id
  masterFd := s.masterFd
  childPid := s.childPid
  shmName := s.shmName
  winsize := s.winsize
  parserSize := s.terminalState.map TerminalState.size
  batonReleaseAt := s.batonReleaseAt

@[simp] theorem Session.wsJoined_fixture (s : Session) (ringData : List UInt8) :
    (s.wsJoined ringData).fixture = s.fixture := by
  unfold Session.wsJoined
  split <;> rfl

@[simp] theorem Session.replay_fixture (s : Session) (data : List UInt8) :
    (s.replay data).fixture = s.fixture := by
  simp [fixture, replay, Function.comp_def]

@[simp] theorem Session.absorb_fixture (s : Session) (now : Nat) (data : List UInt8) :
    (s.absorb now data).fixture = s.fixture := by
  simp [fixture, absorb, Function.comp_def]

@[simp] theorem Session.afterOutput_fixture (s : Session) (now : Nat) (data : List UInt8) :
    (s.afterOutput now data).fixture = s.fixture := by
  unfold afterOutput
  split
  · exact s.absorb_fixture now data
  · exact s.absorb_fixture now data

/-- A call on the names of shared-memory objects. -/
inductive ShmCall
  /-- `SharedRingBuffer::create` for a new session -/
  | create (id : Uuid)
  | unlink (shmName : String)
  deriving DecidableEq

def Act.shmCall : Act → Option ShmCall
  | .spawned id _ _ _ _ => some (.create id)
  | .unlinked shmName => some (.unlink shmName)
  | _ => none

/-- How a session changes hands between a local owner and a WebSocket client. -/
inductive BatonNote
  | forced (id : Uuid)
  | taken (id : Uuid)
  | returned (id : Uuid)
  deriving DecidableEq

def Act.batonNote : Act → Option BatonNote
  | .sent _ (.push (.forceDetach id)) => some (.forced id)
  | .takenOver id _ => some (.taken id)
  | .returned id _ => some (.returned id)
  | _ => none

namespace Server

variable {J : Codec} {env : Env} {σ σ' σ'' τ : Server} {id : Uuid} {s : Session} {e : Event}

/-- What one session is looked up as has changed. -/
theorem changed_cases {β : Type} {view view' : Uuid → Option β} {b : Option β}
    (hview : ∀ i, view' i = if i = id then b else view i) {i : Uuid} {k : β}
    (hk : view' i = some k) : (i = id ∧ b = some k) ∨ i ≠ id ∧ view i = some k := by
  rw [hview] at hk
  split at hk
  · rename_i hi
    exact .inl ⟨hi, hk⟩
  · rename_i hi
    exact .inr ⟨hi, hk⟩

/-- The calls on shared-memory names so far, newest first. -/
def shmCalls (σ : Server) : List ShmCall := σ.trace.filterMap Act.shmCall

/-- The notes on changing hands so far, newest first. -/
def batonNotes (σ : Server) : List BatonNote := σ.trace.filterMap Act.batonNote

/-- No session comes, goes, changes its size or changes hands with a WebSocket client, and the loop
counts its idle time as before. -/
structure Stays (σ σ' : Server) : Prop where
  fixtures : σ'.viewOf Session.fixture = σ.viewOf Session.fixture
  shm : σ'.shmCalls = σ.shmCalls
  baton : σ'.batonNotes = σ.batonNotes
  idle : σ'.idleSince = σ.idleSince

namespace Stays

theorem refl (σ : Server) : Stays σ σ := ⟨rfl, rfl, rfl, rfl⟩

theorem trans (h : Stays σ σ') (h' : Stays σ' σ'') : Stays σ σ'' :=
  ⟨h'.fixtures.trans h.fixtures, h'.shm.trans h.shm, h'.baton.trans h.baton, h'.idle.trans h.idle⟩

/-- Where the sessions are the same. -/
theorem same (h : Stays σ τ) (hsessions : σ'.sessions = τ.sessions)
    (hshm : σ'.shmCalls = τ.shmCalls) (hbaton : σ'.batonNotes = τ.batonNotes)
    (hidle : σ'.idleSince = τ.idleSince) : Stays σ σ' :=
  ⟨(viewOf_of_sessions _ hsessions).trans h.fixtures, hshm.trans h.shm, hbaton.trans h.baton,
    hidle.trans h.idle⟩

theorem emit (h : Stays σ τ) (act : Act) (hshm : act.shmCall = none)
    (hbaton : act.batonNote = none) : Stays σ (τ.emit act) :=
  h.same rfl (List.filterMap_cons_none hshm) (List.filterMap_cons_none hbaton) rfl

/-- One session is replaced. -/
theorem put (h : Stays σ τ) (hs : σ.sessions.lookup id = some s) (s' : Session)
    (hfixture : s'.fixture = s.fixture) (hsessions : σ'.sessions = τ.sessions.insert id s')
    (hshm : σ'.shmCalls = τ.shmCalls) (hbaton : σ'.batonNotes = τ.batonNotes)
    (hidle : σ'.idleSince = τ.idleSince) : Stays σ σ' where
  fixtures := by
    have hput : σ'.viewOf Session.fixture = (τ.putSession id s').viewOf Session.fixture :=
      viewOf_of_sessions _ hsessions
    exact hput.trans (viewOf_replaced h.fixtures (viewOf_eq_some _ hs) hfixture)
  shm := hshm.trans h.shm
  baton := hbaton.trans h.baton
  idle := hidle.trans h.idle

theorem putSession (h : Stays σ τ) (hs : σ.sessions.lookup id = some s) (s' : Session)
    (hfixture : s'.fixture = s.fixture) : Stays σ (τ.putSession id s') :=
  h.put hs s' hfixture rfl rfl rfl rfl

end Stays

/-! ## Handlers under which everything stays -/

private theorem writeSnapshot_stays (env : Env) (σ : Server) (id : Uuid)
    (snapshot : Option GridSnapshot) : Stays σ (σ.writeSnapshot env id snapshot) := by
  unfold writeSnapshot
  split <;> exact ⟨rfl, rfl, rfl, rfl⟩

theorem handleAttach_stays (env : Env) (σ : Server) (fd : RawFd) (id : Uuid) :
    Stays σ (σ.handleAttach env fd id).1 := by
  cases handleAttach_ends env σ fd id with
  | refused _ _ h =>
    rw [h]
    exact .refl σ
  | @granted s d hs _ _ _ h =>
    have hopened : Stays σ (σ.openFd d (.dup id)) := ⟨rfl, rfl, rfl, rfl⟩
    have hwritten := hopened.trans (writeSnapshot_stays env _ id s.currentSnapshot)
    rw [h]
    exact hwritten.put hs (s.clearSnapshot.attach env.now fd) rfl rfl rfl rfl rfl

private theorem closePending_stays (σ : Server) (id : Uuid) : Stays σ (σ.closePending id) := by
  unfold closePending
  split <;> exact ⟨rfl, rfl, rfl, rfl⟩

private theorem sendAttachData_stays (env : Env) (σ : Server) (fd : RawFd) (id : Uuid) :
    Stays σ (σ.sendAttachData env fd id).1 := by
  unfold sendAttachData
  split
  · exact .refl σ
  · dsimp only
    split
    · exact ⟨rfl, rfl, rfl, rfl⟩
    · dsimp only
      split <;> exact ⟨rfl, rfl, rfl, rfl⟩

private theorem revertAttach_stays (σ : Server) (id : Uuid) : Stays σ (σ.revertAttach id) := by
  have hclosed := closePending_stays σ id
  unfold revertAttach
  dsimp only
  split
  · exact hclosed
  · rename_i s hs
    rw [closePending_sessions] at hs
    exact hclosed.put hs (s.detach none) rfl rfl rfl rfl rfl

theorem passOn_stays (env : Env) (σ : Server) (fd : RawFd) (response : Response) :
    Stays σ (σ.passOn env fd response) := by
  cases response with
  | attachReady i cols rows pid shm snapshot =>
    have hsent := sendAttachData_stays env σ fd i
    simp only [passOn]
    split
    · exact hsent
    · exact hsent.trans (revertAttach_stays _ i)
  | _ => exact .refl σ

theorem answer_stays (env : Env) (σ : Server) (fd : RawFd) (response : Response) (consumed : Nat) :
    Stays σ (σ.answer env fd response consumed) := by
  unfold answer
  split
  · exact .refl σ
  · dsimp only
    split <;> exact ⟨rfl, rfl, rfl, rfl⟩

/-- A Detach without a size. -/
theorem handleDetach_stays (σ : Server) (id : Uuid) (snapshot : Option GridSnapshot) :
    Stays σ (σ.handleDetach id 0 0 snapshot).1 := by
  unfold handleDetach
  split
  · exact .refl σ
  · rename_i s hs
    exact (Stays.refl σ).put hs (s.detach snapshot) rfl rfl rfl rfl rfl

theorem waitForDetachAck_stays (J : Codec) (fd : RawFd) (id : Uuid) (reads : List AckRead)
    (σ : Server) : Stays σ (waitForDetachAck J fd id reads σ).1 := by
  induction reads generalizing σ with
  | nil => exact .refl σ
  | cons read reads ih =>
    unfold waitForDetachAck
    split
    · rename_i client bytes _
      dsimp only
      split
      · have hput : Stays σ (σ.putClient fd { client with readBuf := client.readBuf ++ bytes }) :=
          ⟨rfl, rfl, rfl, rfl⟩
        exact hput.trans (ih _)
      · split
        · split <;> exact ⟨rfl, rfl, rfl, rfl⟩
        · exact ⟨rfl, rfl, rfl, rfl⟩
        · exact ⟨rfl, rfl, rfl, rfl⟩
    · exact .refl σ

theorem handleWsInput_stays (env : Env) (σ : Server) (id : Uuid) (data : List UInt8) :
    Stays σ (σ.handleWsInput env id data) := by
  unfold handleWsInput
  split <;> exact ⟨rfl, rfl, rfl, rfl⟩

theorem handleRemoteInput_stays (J : Codec) (env : Env) (σ : Server) (id : Uuid) (data : String) :
    Stays σ (σ.handleRemoteInput J env id data).1 := by
  unfold handleRemoteInput
  split
  · exact .refl σ
  · exact handleWsInput_stays ..

theorem wsClientGone_stays (hs : σ.sessions.lookup id = some s) :
    Stays σ (σ.putSession id s.wsClientGone) := (Stays.refl σ).putSession hs s.wsClientGone rfl

private theorem crashDetach_stays {fd : RawFd} (h : σ.crashDetach id fd = .ok σ') : Stays σ σ' := by
  have hclosed := closePending_stays σ id
  unfold crashDetach at h
  dsimp only at h
  split at h
  · cases h
    exact hclosed.same rfl rfl rfl rfl
  · rename_i s hs
    rw [closePending_sessions] at hs
    split at h
    · cases h
    · rename_i ringData _
      cases h
      exact hclosed.put hs ((s.replay ringData).detach none) (s.replay_fixture ringData)
        rfl rfl rfl rfl

private theorem forgetPrevious_stays (σ : Server) (fd : RawFd) : Stays σ (σ.forgetPrevious fd) := by
  refine ⟨funext fun id => ?_, rfl, rfl, rfl⟩
  rw [viewOf, forgetPrevious, Table.lookup_mapVals, Option.map_map, viewOf]
  congr 1
  funext s
  dsimp only [Function.comp]
  split <;> rfl

theorem handleClientDisconnect_stays {fd : RawFd} (h : σ.handleClientDisconnect fd = .ok σ') :
    Stays σ σ' := by
  have hcrash : ∀ (ps : List (Uuid × RawFd)) (τ τ' : Server),
      ps.foldlM (fun σ p => σ.crashDetach p.1 p.2) τ = .ok τ' → Stays τ τ' := by
    intro ps
    induction ps with
    | nil =>
      intro τ τ' h
      cases h
      exact .refl τ
    | cons p ps ih =>
      intro τ τ' h
      rw [List.foldlM_cons] at h
      obtain ⟨ρ, hρ, h⟩ := ok_of_bind h
      exact (crashDetach_stays hρ).trans (ih ρ τ' h)
  have hremoved : Stays σ ((σ.unregister fd).removeClient fd) := by
    unfold removeClient
    split <;> exact ⟨rfl, rfl, rfl, rfl⟩
  exact (hremoved.trans (forgetPrevious_stays _ fd)).trans (hcrash _ _ _ h)

end Server

end PtyDaemon
