import PtyDaemon.Server.GiveAway
import PtyDaemon.Server.Tenure
import PtyDaemon.Wire.Occurrences

/-!
# The descriptors that go out

A PTY is handed to a local client in two messages: a frame that announces the session, and a byte
that carries the descriptor. The client takes the descriptor for that of the session announced last.
-/

namespace PtyDaemon

/-- The frame says that the descriptor of the session comes next. -/
def Frame.announces (id : Uuid) : Frame → Bool
  | .response (.attachReady i ..) => i = id
  | .push (.resumeAttach i ..) => i = id
  | _ => false

/-- Newest first: every descriptor comes right behind a frame that announces its session. -/
def announced : List Frame → Bool
  | [] => true
  | .fd id :: rest => (rest.head?.any (Frame.announces id)) && announced rest
  | _ :: rest => announced rest

def Frame.isFd : Frame → Bool
  | .fd _ => true
  | _ => false

def Act.delivery : Act → Option (Nat × Frame)
  | .sent conn frame => some (conn, frame)
  | _ => none

/-- The frames of one connection. -/
def framesOn (conn : Nat) (log : List (Nat × Frame)) : List Frame :=
  log.filterMap fun p => if p.1 = conn then some p.2 else none

/-- The connection that was sent a descriptor of the session last. -/
def lastPassed (id : Uuid) (log : List (Nat × Frame)) : Option Nat :=
  (log.find? fun p => p.2 = .fd id).map Prod.fst

namespace Server

variable {J : Codec} {env : Env} {P : Uuid → Prop} {σ σ' τ : Server} {id : Uuid} {s : Session}
  {e : Event}

/-- Everything put on control connections, newest first. -/
def deliveries (σ : Server) : List (Nat × Frame) := σ.trace.filterMap Act.delivery

/-- Whoever has a session attached had it before. -/
def Recedes (σ σ' : Server) : Prop :=
  ∀ id t, σ'.sessions.lookup id = some t → t.state = .attached →
    ∃ s, σ.sessions.lookup id = some s ∧ s.state = .attached ∧ t.ownerFd = s.ownerFd

/-- No descriptor goes out, and nobody gets a session. -/
structure Hushed (σ σ' : Server) : Prop where
  deliveries : ∃ log, σ'.deliveries = log ++ σ.deliveries ∧ ∀ p ∈ log, p.2.isFd = false
  recedes : Recedes σ σ'
  conns : ∀ {fd conn}, σ'.connOf fd = some conn → σ.connOf fd = some conn

private theorem Recedes.trans (h : Recedes σ τ) (h' : Recedes τ σ') : Recedes σ σ' := by
  intro id t ht hstate
  obtain ⟨s, hs, hstate, howner⟩ := h' id t ht hstate
  obtain ⟨r, hr, hstate, howner'⟩ := h id s hs hstate
  exact ⟨r, hr, hstate, howner.trans howner'⟩

private theorem Lapses.recedes (h : Lapses σ σ') : Recedes σ σ' := by
  intro id t ht hstate
  rcases h.sessions ht with hbare | ⟨s, hs, hlapsed⟩
  · exact absurd hstate hbare.1
  · obtain ⟨hstate, howner⟩ := hlapsed.state hstate
    exact ⟨s, hs, hstate, howner⟩

/-- One session is replaced by one that nobody has. -/
theorem Recedes.put {s' : Session} (hfree : s'.state ≠ .attached)
    (hsessions : σ'.sessions = σ.sessions.insert id s') : Recedes σ σ' := by
  intro i t ht hstate
  rw [hsessions, Table.lookup_insert] at ht
  split at ht
  · cases ht
    exact absurd hstate hfree
  · exact ⟨t, ht, hstate, rfl⟩

namespace Hushed

private theorem refl (σ : Server) : Hushed σ σ :=
  ⟨⟨[], rfl, fun _ h => nomatch h⟩, (Lapses.refl σ).recedes, fun h => h⟩

private theorem trans (h : Hushed σ τ) (h' : Hushed τ σ') : Hushed σ σ' := by
  refine ⟨?_, h.recedes.trans h'.recedes, fun hconn => h.conns (h'.conns hconn)⟩
  obtain ⟨log, hlog, hnone⟩ := h.deliveries
  obtain ⟨log', hlog', hnone'⟩ := h'.deliveries
  refine ⟨log' ++ log, ?_, ?_⟩
  · rw [hlog', hlog, List.append_assoc]
  · intro p hp
    rcases List.mem_append.mp hp with hp | hp
    · exact hnone' p hp
    · exact hnone p hp

/-- Among acts that pass nothing on there is no descriptor. -/
theorem of_acts (acts : List Act) (htrace : σ'.trace = acts ++ σ.trace)
    (hquiet : ∀ conn i, .sent conn (.fd i) ∉ acts) (hrecedes : Recedes σ σ')
    (hconns : ∀ {fd conn}, σ'.connOf fd = some conn → σ.connOf fd = some conn) : Hushed σ σ' := by
  refine ⟨⟨acts.filterMap Act.delivery, ?_, ?_⟩, hrecedes, hconns⟩
  · rw [Server.deliveries, htrace, List.filterMap_append]
    rfl
  · intro p hp
    obtain ⟨a, ha, hap⟩ := List.mem_filterMap.mp hp
    cases a with
    | sent conn frame =>
      cases hap
      cases frame with
      | fd i => exact absurd ha (hquiet conn i)
      | _ => rfl
    | _ => cases hap

private theorem of_moves (hmoves : Moves P σ σ') (hrecedes : Recedes σ σ')
    (hconns : ∀ {fd conn}, σ'.connOf fd = some conn → σ.connOf fd = some conn) : Hushed σ σ' := by
  obtain ⟨acts, htrace, hquiet⟩ := hmoves.quiet
  refine of_acts acts htrace ?_ hrecedes hconns
  intro conn i hmem
  cases hquiet _ hmem

private theorem of_lapses (h : Lapses σ σ') (hmoves : Moves P σ σ') : Hushed σ σ' :=
  .of_moves hmoves h.recedes h.conns

/-- The owner of one session stays what it was. -/
theorem put (acts : List Act) (s' : Session) (hs : σ.sessions.lookup id = some s)
    (hstate : s'.state = s.state) (howner : s'.ownerFd = s.ownerFd)
    (hsessions : σ'.sessions = σ.sessions.insert id s') (hclients : σ'.clients = σ.clients)
    (htrace : σ'.trace = acts ++ σ.trace) (hquiet : ∀ conn i, .sent conn (.fd i) ∉ acts) :
    Hushed σ σ' := by
  refine .of_acts acts htrace hquiet ?_ ?_
  · intro i t ht htaken
    rw [hsessions, Table.lookup_insert] at ht
    split at ht
    · rename_i hi
      cases ht
      exact ⟨s, hi ▸ hs, hstate ▸ htaken, howner⟩
    · exact ⟨t, ht, htaken, rfl⟩
  · intro fd conn hconn
    rwa [connOf, hclients] at hconn

end Hushed

/-! ## Handlers that hand nothing over -/

private theorem handleDetach_hushed (σ : Server) (id : Uuid) (cols rows : UInt16)
    (snapshot : Option GridSnapshot) : Hushed σ (σ.handleDetach id cols rows snapshot).1 := by
  have hmoves : Moves (fun _ => True) σ (σ.handleDetach id cols rows snapshot).1 :=
    handleDetach_moves σ trivial ..
  exact .of_lapses (handleDetach_lapses ..) hmoves

private theorem forceCompleteTakeover_hushed (σ : Server) (id : Uuid)
    (snapshot : Option GridSnapshot) :
    Hushed σ (σ.forceCompleteTakeover id snapshot).1 := by
  unfold forceCompleteTakeover
  split
  · exact .refl σ
  · rename_i s hs
    have hfree : (s.batonDetach snapshot).state ≠ .attached := fun h => by cases h
    exact .of_acts [.takenOver id (s.ownerFd.bind σ.connOf)] rfl (by simp) (.put hfree rfl)
      fun h => h

private theorem handleBatonTakeover_hushed (J : Codec) (env : Env) (σ : Server) (id : Uuid) :
    Hushed σ (σ.handleBatonTakeover J env id).1 := by
  cases handleBatonTakeover_cases J env σ id with
  | unowned hnone h =>
    rw [h]
    exact handleDetach_hushed ..
  | unreached hs hatt howner hnot h =>
    rw [h]
    exact forceCompleteTakeover_hushed ..
  | @unwritten s fd client hs hatt howner hclient hpush h =>
    rw [h]
    let cut := σ.emit (.cut client.stream (.push (.forceDetach id)) env.cut)
    have hcut : Lapses σ cut := (Lapses.refl σ).emit rfl
    have hmoves : Moves (fun _ => True) σ cut := (Aside.emit σ rfl).moves
    exact (Hushed.of_lapses hcut hmoves).trans (forceCompleteTakeover_hushed ..)
  | @pushed s fd client hs hatt howner hclient hpush h =>
    rw [h]
    let pushed := σ.emit (.sent client.stream (.push (.forceDetach id)))
    have hpushed : Lapses σ pushed := (Lapses.refl σ).emit rfl
    have haside : Aside σ pushed := .emit σ rfl
    have hwaited := hpushed.trans (waitForDetachAck_lapses J fd id env.ackReads pushed)
    have hmoves : Moves (fun _ => True) σ _ :=
      (haside.trans (waitForDetachAck_aside J fd id env.ackReads pushed)).moves
    exact (Hushed.of_lapses hwaited hmoves).trans (forceCompleteTakeover_hushed ..)

private theorem takeOverAttached_hushed (J : Codec) (env : Env) (σ : Server) (id : Uuid) :
    Hushed σ (σ.takeOverAttached J env id) := by
  rcases takeOverAttached_cases J env σ id with ⟨_, _, _, htaken⟩ | ⟨_, hsame⟩
  · rw [htaken]
    exact handleBatonTakeover_hushed ..
  · rw [hsame]
    exact .refl σ

private theorem wsJoined_lapses (hs : σ.sessions.lookup id = some s) (ringData : List UInt8) :
    Lapses σ ((if s.isAttached then σ else σ.register s.masterFd).putSession id
      (s.wsJoined ringData)) := by
  have hregistered : Lapses σ (if s.isAttached then σ else σ.register s.masterFd) := by
    split
    · exact .refl _
    · exact .same rfl rfl rfl
  have hcore := s.wsJoined_core ringData
  exact hregistered.put hs _ (.of_eq (congrArg Core.state hcore) (congrArg Core.ownerFd hcore)
    (congrArg Core.previousOwnerFd hcore)) (by split <;> rfl) (by split <;> rfl) (by split <;> rfl)

private theorem handleWsAttach_hushed {p : Server × Response}
    (h : σ.handleWsAttach J env id = .ok p) :
    Hushed σ p.1 := by
  have htaken := takeOverAttached_hushed J env σ id
  have hmoves := handleWsAttach_moves h
  cases handleWsAttach_cases h with
  | missing hs h =>
    rw [h]
    exact htaken
  | dead hs hdead h =>
    rw [h]
    exact htaken
  | @joined s ringData hs halive hdump h =>
    have hjoined := wsJoined_lapses hs ringData
    rw [h] at hmoves ⊢
    exact .of_moves hmoves (htaken.recedes.trans hjoined.recedes)
      fun hconn => htaken.conns (hjoined.conns hconn)

/-- Of the requests only Attach gives anybody a session. -/
theorem handleRequest_hushed {fd : RawFd} {request : Request} {p : Server × Response}
    (hadmits : σ.admits env = true) (hattach : ∀ id, request ≠ .attach id)
    (h : σ.handleRequest J env fd request = .ok p) : Hushed σ p.1 := by
  have hclient : (∃ id, request = .attach id) → (σ.connOf fd).isSome = true :=
    fun ⟨id, hid⟩ => absurd hid (hattach id)
  have hlapses : Lapses σ p.1 := by
    cases request with
    | attach id => exact absurd rfl (hattach id)
    | create shell cols rows workingDir terminalId envs => exact handleCreate_lapses h
    | detach id cols rows snapshot =>
      cases h
      exact handleDetach_lapses ..
    | kill id =>
      cases h
      exact handleKill_lapses ..
    | winsizeUpdate id cols rows =>
      cases h
      exact handleWinsizeUpdate_lapses ..
    | input id data =>
      cases h
      exact handleRemoteInput_lapses ..
    | list =>
      cases h
      exact .refl σ
    | ping =>
      cases h
      exact .refl σ
    | shutdown =>
      cases h
      exact .same rfl rfl rfl
  exact .of_lapses hlapses (handleRequest_moves hadmits hclient h)

/-! ## Handlers that hand a session over -/

/-- Nothing is handed over, or one session is: its descriptor goes to a connection, right behind the
frame that announces it unless that is a response that could not be written, and if anybody has the
session then it is this connection. -/
inductive Passage (answers : Bool) (σ σ' : Server) : Prop
  | hushed (h : Hushed σ σ')
  | passed {id : Uuid} {fd : RawFd} {conn : Nat} {front : List (Nat × Frame)}
      (hdeliveries : σ'.deliveries = (conn, .fd id) :: front ++ σ.deliveries)
      (hfront : (∃ frame : Frame, frame.announces id = true ∧ front = [(conn, frame)]) ∨
        answers = false ∧ front = [])
      (howner : ∀ t, σ'.sessions.lookup id = some t → t.state = .attached → t.ownerFd = some fd)
      (hconn : σ.connOf fd = some conn)
      (hothers : ∀ i t, i ≠ id → σ'.sessions.lookup i = some t → t.state = .attached →
        ∃ s, σ.sessions.lookup i = some s ∧ s.state = .attached ∧ t.ownerFd = s.ownerFd)
      (hconns : ∀ {fd conn}, σ'.connOf fd = some conn → σ.connOf fd = some conn)

private theorem emit_deliveries (σ : Server) {act : Act} (hact : act.delivery = none) :
    (σ.emit act).deliveries = σ.deliveries := by
  rw [deliveries, emit, List.filterMap_cons_none hact]
  rfl

/-- What is noted at the end puts nothing on a connection. -/
theorem Passage.emit {answers : Bool} (h : Passage answers σ τ) {act : Act}
    (hact : act.delivery = none) : Passage answers σ (τ.emit act) := by
  cases h with
  | hushed h =>
    obtain ⟨log, hlog, hnone⟩ := h.deliveries
    exact .hushed ⟨⟨log, (emit_deliveries τ hact).trans hlog, hnone⟩, h.recedes, h.conns⟩
  | passed hdeliveries hfront howner hconn hothers hconns =>
    exact .passed ((emit_deliveries τ hact).trans hdeliveries) hfront howner hconn hothers hconns

/-- One session is replaced by one the connection has. -/
theorem Passage.put {answers : Bool} {fd : RawFd} {conn : Nat} {front : List (Nat × Frame)}
    (s' : Session) (hdeliveries : σ'.deliveries = (conn, .fd id) :: front ++ σ.deliveries)
    (hfront : (∃ frame : Frame, frame.announces id = true ∧ front = [(conn, frame)]) ∨
      answers = false ∧ front = []) (hsessions : σ'.sessions = σ.sessions.insert id s')
    (howner : s'.ownerFd = some fd) (hconn : σ.connOf fd = some conn)
    (hclients : σ'.clients = σ.clients) : Passage answers σ σ' := by
  refine .passed hdeliveries hfront ?_ hconn ?_ ?_
  · intro t ht _
    rw [hsessions, Table.lookup_insert, if_pos rfl] at ht
    cases ht
    exact howner
  · intro i t hi ht hstate
    rw [hsessions, Table.lookup_insert, if_neg hi] at ht
    exact ⟨t, ht, hstate, rfl⟩
  · intro x c hx
    rwa [connOf, hclients] at hx

private theorem Passage.after {answers : Bool} (h' : Passage answers τ σ') (h : Hushed σ τ)
    (hsilent : τ.deliveries = σ.deliveries) : Passage answers σ σ' := by
  cases h' with
  | hushed h' => exact .hushed (h.trans h')
  | passed hdeliveries hfront howner hconn hothers hconns =>
    refine .passed (hsilent ▸ hdeliveries) hfront howner (h.conns hconn) ?_
      fun hconn => h.conns (hconns hconn)
    intro i t hi ht hstate
    obtain ⟨s, hs, hstate, howner⟩ := hothers i t hi ht hstate
    obtain ⟨r, hr, hstate, howner'⟩ := h.recedes i s hs hstate
    exact ⟨r, hr, hstate, howner.trans howner'⟩

private theorem handleBatonRelease_passage {answers : Bool} (env : Env) (σ : Server) (id : Uuid) :
    Passage answers σ (σ.handleBatonRelease env id).1 := by
  cases handleBatonRelease_cases env σ id with
  | kept hnone h =>
    rw [h]
    exact .hushed (handleDetach_hushed ..)
  | @gone s fd hs hprevious hclient h =>
    rw [h]
    have hput : Hushed σ (σ.putSession id s.clearPrevious) :=
      .put [] s.clearPrevious hs rfl rfl rfl rfl rfl (by simp)
    exact .hushed (hput.trans (handleDetach_hushed ..))
  | @unsent s fd d client hs hprevious hclient hdup hpush h =>
    rw [h]
    have hput : Hushed σ ((((σ.openFd d (.dup id)).emit
        (.cut client.stream (.push (resumePush id s)) env.cut)).closeFd d).putSession id
          s.clearPrevious) :=
      .put [.cut client.stream (.push (resumePush id s)) env.cut] s.clearPrevious hs rfl rfl rfl
        rfl rfl (by simp)
    exact .hushed (hput.trans (handleDetach_hushed ..))
  | @refused s fd d client hs hprevious hclient hdup hpush hsent h =>
    rw [h]
    have hput : Hushed σ ((((σ.openFd d (.dup id)).emit
        (.sent client.stream (.push (resumePush id s)))).closeFd d).putSession id
          s.clearPrevious) :=
      .put [.sent client.stream (.push (resumePush id s))] s.clearPrevious hs rfl rfl rfl rfl rfl
        (by simp)
    exact .hushed (hput.trans (handleDetach_hushed ..))
  | @returned s fd d client hs hprevious hclient hdup hpush hsent h =>
    rw [h]
    have hconn : σ.connOf fd = some client.stream := by rw [connOf, hclient, Option.map_some]
    have hannounces : (Frame.push (resumePush id s)).announces id = true := decide_eq_true rfl
    refine .put ((s.attach env.now fd).clearPrevious.markReleased env.now) ?_
      (.inl ⟨_, hannounces, rfl⟩) ?_ ?_ hconn ?_
    · simp only [deliveries, emit, putSession, unregister, closeFd, openFd]
      rfl
    · simp only [emit, putSession, unregister, closeFd, openFd]
    · rfl
    · simp only [emit, putSession, unregister, closeFd, openFd]

/-- An answer puts at most the response on the connection. -/
theorem answer_deliveries {fd : RawFd} {conn : Nat} (hconn : σ.connOf fd = some conn)
    (response : Response) (consumed : Nat) :
    (σ.answer env fd response consumed).deliveries =
      (if env.responseWritten then [(conn, .response response)] else []) ++ σ.deliveries := by
  obtain ⟨client, hclient, rfl⟩ := Option.map_eq_some_iff.mp hconn
  unfold answer
  rw [hclient]
  dsimp only
  cases env.responseWritten <;> rfl

private theorem answer_hushed (env : Env) (σ : Server) (fd : RawFd) (response : Response)
    (consumed : Nat) : Hushed σ (σ.answer env fd response consumed) := by
  have hmoves : Moves (fun _ => True) σ (σ.answer env fd response consumed) :=
    (answer_aside ..).moves
  exact .of_lapses (answer_lapses ..) hmoves

private theorem writeSnapshot_deliveries (env : Env) (σ : Server) (id : Uuid)
    (snapshot : Option GridSnapshot) :
    (σ.writeSnapshot env id snapshot).deliveries = σ.deliveries := by
  unfold writeSnapshot
  split <;> rfl

private theorem closePending_deliveries (σ : Server) (id : Uuid) :
    (σ.closePending id).deliveries = σ.deliveries := by
  unfold closePending
  split <;> rfl

private theorem revertAttach_deliveries (σ : Server) (id : Uuid) :
    (σ.revertAttach id).deliveries = σ.deliveries := by
  have hclosed := closePending_deliveries σ id
  unfold revertAttach
  dsimp only
  split <;> exact hclosed

/-- The descriptor follows, if it can be sent. -/
theorem passOn_deliveries {fd d : RawFd} {conn : Nat} {cols rows : UInt16} {pid : Pid}
    {shm : String} {snapshot : Option AttachSnapshot} (hd : σ.pendingDupFds.lookup id = some d)
    (hconn : σ.connOf fd = some conn) :
    (σ.passOn env fd (.attachReady id cols rows pid shm snapshot)).deliveries =
      (if env.fdSent then [(conn, .fd id)] else []) ++ σ.deliveries := by
  obtain ⟨client, hclient, rfl⟩ := Option.map_eq_some_iff.mp hconn
  have hclient : (σ.dropPending id).clients.lookup fd = some client := hclient
  simp only [passOn, sendAttachData, hd, hclient]
  cases env.fdSent with
  | true => rfl
  | false => exact revertAttach_deliveries ..

/-- Where a session goes to somebody, nobody else gets one. -/
theorem Passes.recedes {Q : Session → Prop} {entries : List TenureNote}
    (h : Passes id Q entries σ σ') (i : Uuid) (t : Session) (hi : i ≠ id)
    (ht : σ'.sessions.lookup i = some t) (hstate : t.state = .attached) :
    ∃ s, σ.sessions.lookup i = some s ∧ s.state = .attached ∧ t.ownerFd = s.ownerFd := by
  rcases h.others hi ht with hbare | ⟨s, hs, hlapsed⟩
  · exact absurd hstate hbare.1
  · obtain ⟨hstate, howner⟩ := hlapsed.state hstate
    exact ⟨s, hs, hstate, howner⟩

private theorem serve_attach_passage {fd : RawFd} {consumed : Nat}
    (hclient : (σ.connOf fd).isSome = true)
    (h : σ.serve J env fd (.ok (.attach id)) consumed = .ok σ') :
    Passage env.responseWritten σ σ' := by
  obtain ⟨conn, hconn⟩ := Option.isSome_iff_exists.mp hclient
  unfold serve at h
  obtain ⟨p, hp, rfl⟩ := ok_of_map h
  cases hp
  cases handleAttach_ends env σ fd id with
  | refused hnot hresponse h =>
    rw [h, passOn_eq hresponse]
    exact .hushed (answer_hushed ..)
  | @granted s d hs hfree halive hdup h =>
    rw [h]
    let opened := σ.openFd d (.dup id)
    let noted := opened.writeSnapshot env id s.currentSnapshot
    let taken := (((noted.unregister s.masterFd).putSession id
      (s.clearSnapshot.attach env.now fd)).stashDup id d).emit (.attached id (σ.connOf fd))
    let response := Response.attachReady id s.winsize.cols s.winsize.rows s.childPid s.shmName none
    let answered := taken.answer env fd response consumed
    have hnoted : Lapses σ noted :=
      .same (writeSnapshot_sessions ..) (writeSnapshot_unheard ..).clients
        (writeSnapshot_tenures ..)
    have htaken : Passes id (AttachedOn σ id fd) [.held id conn] σ taken := by
      refine Passes.put hnoted (s.clearSnapshot.attach env.now fd) ?_ rfl rfl ?_
      · exact ⟨fun _ => rfl, fun x hx => ⟨s, hs, hx⟩⟩
      · change (Act.attached id (σ.connOf fd) :: noted.trace).filterMap Act.tenureNote = _
        rw [hconn]
        rfl
    have hpassed := htaken.then (attachedOn_lasting σ id fd)
      ((answer_lapses env taken fd response consumed).trans
        (passOn_lapses env answered fd response))
    have hanswered : Aside taken answered := answer_aside ..
    have hclients : taken.clients = σ.clients :=
      (writeSnapshot_unheard env opened id s.currentSnapshot).clients
    have hconn' : taken.connOf fd = some conn := by rw [connOf, hclients]; exact hconn
    have hd : answered.pendingDupFds.lookup id = some d := by
      rw [hanswered.pending]
      exact AList.lookup_insert _
    have hsilent : taken.deliveries = σ.deliveries := writeSnapshot_deliveries ..
    have hannounces : (Frame.response response).announces id = true := decide_eq_true rfl
    have hdeliveries : (answered.passOn env fd response).deliveries =
        (if env.fdSent then [(conn, .fd id)] else []) ++
          ((if env.responseWritten then [(conn, .response response)] else []) ++
            σ.deliveries) := by
      rw [← hsilent, ← answer_deliveries hconn' response consumed]
      exact passOn_deliveries hd ((hanswered.clients fd).trans hconn')
    cases hsent : env.fdSent with
    | true =>
      rw [hsent, if_pos rfl] at hdeliveries
      refine .passed hdeliveries ?_ (fun t ht => (hpassed.target ht).1) hconn hpassed.recedes
        hpassed.conns
      cases env.responseWritten with
      | true => exact .inl ⟨_, hannounces, rfl⟩
      | false => exact .inr ⟨rfl, rfl⟩
    | false =>
      rw [hsent, if_neg Bool.false_ne_true] at hdeliveries
      refine .hushed ⟨⟨_, hdeliveries, ?_⟩, ?_, hpassed.conns⟩
      · intro p hp
        split at hp
        · cases List.mem_singleton.mp hp
          rfl
        · cases hp
      · intro i t ht hstate
        by_cases hi : i = id
        · subst hi
          have hgiven := (passOn_gives ⟨t, ht, hstate⟩).1
          rw [hsent] at hgiven
          cases hgiven
        · exact hpassed.recedes i t hi ht hstate

/-- One pass of the decode loop. -/
theorem serve_passage {fd : RawFd} {result : Except String Request} {consumed : Nat}
    (hadmits : σ.admits env = true) (hclient : (σ.connOf fd).isSome = true)
    (h : σ.serve J env fd result consumed = .ok σ') : Passage env.responseWritten σ σ' := by
  by_cases hattach : ∃ id, result = .ok (.attach id)
  · obtain ⟨id, rfl⟩ := hattach
    exact serve_attach_passage hclient h
  · unfold serve at h
    obtain ⟨p, hp, rfl⟩ := ok_of_map h
    have hhushed : Hushed σ p.1 ∧ ∀ i cols rows pid shm snap,
        p.2 ≠ .attachReady i cols rows pid shm snap := by
      cases result with
      | error e =>
        cases hp
        exact ⟨.refl σ, fun _ _ _ _ _ _ h => by cases h⟩
      | ok request =>
        have hother : ∀ id, request ≠ .attach id := fun id hid => hattach ⟨id, hid ▸ rfl⟩
        refine ⟨handleRequest_hushed hadmits hother hp, fun i cols rows pid shm snap hready => ?_⟩
        obtain ⟨id, hid⟩ := handleRequest_attachReady hp hready
        exact hother id hid
    rw [passOn_eq hhushed.2]
    exact .hushed (hhushed.1.trans (answer_hushed ..))

/-! ## Events -/

private theorem wsClientGone_hushed (hs : σ.sessions.lookup id = some s) :
    Hushed σ (σ.putSession id s.wsClientGone) :=
  .put [] s.wsClientGone hs rfl rfl rfl rfl rfl (by simp)

private theorem handleWsDetach_passage {answers : Bool} (J : Codec) (env : Env) (σ : Server)
    (id : Uuid) :
    Passage answers σ (σ.handleWsDetach J env id).1 := by
  cases handleWsDetach_cases J env σ id with
  | missing hs h =>
    rw [h]
    exact .hushed (handleDetach_hushed ..)
  | taken hs hatt hcool h =>
    rw [h]
    exact .hushed ((wsClientGone_hushed hs).trans (handleBatonTakeover_hushed ..))
  | cooling hs hatt hcool h =>
    rw [h]
    exact .hushed (wsClientGone_hushed hs)
  | released hs hfree hprevious h =>
    rw [h]
    exact (handleBatonRelease_passage ..).after (wsClientGone_hushed hs) rfl
  | detached hs hfree hprevious h =>
    rw [h]
    exact .hushed ((wsClientGone_hushed hs).trans (handleDetach_hushed ..))

private theorem handleWsClientDisconnect_passage {answers : Bool} (env : Env) (σ : Server)
    (c : Nat) :
    Passage answers σ (σ.handleWsClientDisconnect env c) := by
  cases handleWsClientDisconnect_cases env σ c with
  | absent hnone h =>
    rw [h]
    exact .hushed (.refl σ)
  | released hid hs hcount hprevious h =>
    rw [h]
    exact (handleBatonRelease_passage ..).after (wsClientGone_hushed hs) rfl
  | left hid hs hstays h =>
    rw [h]
    exact .hushed (wsClientGone_hushed hs)

private theorem handleWsCommand_passage {answers : Bool} (hadmits : σ.admits env = true)
    {cmd : WsCommand}
    (h : σ.handleWsCommand J env cmd = .ok σ') : Passage answers σ σ' := by
  cases cmd with
  | request c request reply =>
    obtain ⟨p, hp, rfl⟩ := ok_of_map h
    refine Passage.emit ?_ rfl
    cases request with
    | attach id => exact .hushed (handleWsAttach_hushed hp)
    | detach id cols rows snapshot =>
      cases hp
      exact handleWsDetach_passage ..
    | _ => exact .hushed (handleRequest_hushed hadmits (fun id h => by cases h) hp)
  | disconnected c =>
    cases h
    exact handleWsClientDisconnect_passage ..
  | input id data =>
    cases h
    have hmoves : Moves (fun _ => True) σ (σ.handleWsInput env id data) :=
      (handleWsInput_aside ..).moves
    exact .hushed (.of_lapses (handleWsInput_lapses ..) hmoves)

end Server

/-- Whether the response of the event, if it has one, is written. -/
def Event.answers : Event → Bool
  | .request _ _ _ env => env.responseWritten
  | _ => true

namespace Server

variable {J : Codec} {P : Uuid → Prop} {σ σ' : Server} {id : Uuid} {e : Event} {m : Occurrence}

/-- Every event but the arrival of a connection. -/
theorem event_passage (hinv : Inv σ) (haccept : ∀ fd, e ≠ .accept fd)
    (h : σ.event J e = .ok σ') : Passage e.answers σ σ' := by
  cases event_runs h with
  | @reap env =>
    have hmoves : Moves (fun _ => True) σ (σ.reapDead env) := reapDead_moves hinv.sessionsOpen env
    exact .hushed (.of_lapses (reapDead_lapses env σ) hmoves)
  | @command shared cmd env _ hadmits h =>
    have hshared : Hushed σ { σ with wsShared := shared } :=
      .of_acts [] rfl (by simp) (Lapses.recedes (.same rfl rfl rfl)) fun h => h
    exact (handleWsCommand_passage hadmits h).after hshared rfl
  | @accept fd hfree => exact absurd rfl (haccept fd)
  | request hclient hadmits h => exact serve_passage hadmits hclient h
  | disconnect hconn h =>
    have hlapses := handleClientDisconnect_lapses hinv hconn h
    have htrace := (handleClientDisconnect_disconnected hinv hconn h).trace
    exact .hushed (.of_acts [] htrace (by simp) hlapses.recedes hlapses.conns)
  | @childExit pid env =>
    have hmoves : Moves (fun _ => True) σ (σ.handleChildExit env pid) :=
      handleChildExit_moves hinv.sessionsOpen env pid
    exact .hushed (.of_lapses (handleChildExit_lapses env σ pid) hmoves)
  | @output fd read env =>
    have hlapses := handleSessionOutput_lapses hinv env fd read
    have hcases : Moves (fun _ => True) σ (σ.handleSessionOutput env fd read) ∨ _ :=
      handleSessionOutput_cases hinv env fd read
    rcases hcases with hmoves | ⟨id, bytes, _, hread⟩
    · exact .hushed (.of_lapses hlapses hmoves)
    · obtain ⟨_, _, _, _, _, _, _, _, _, htrace⟩ := hread.spec
      exact .hushed (.of_acts _ htrace (by simp) hlapses.recedes hlapses.conns)

/-! ## Runs -/

/-- Whoever has a session attached is the connection that was sent its descriptor last. -/
def HandedLast (σ : Server) : Prop :=
  ∀ id s fd conn, σ.sessions.lookup id = some s → s.state = .attached → s.ownerFd = some fd →
    σ.connOf fd = some conn → lastPassed id σ.deliveries = some conn

/-- On every connection each descriptor comes right behind the frame that announces its session. -/
def AllAnnounced (σ : Server) : Prop := ∀ conn, announced (framesOn conn σ.deliveries) = true

private theorem lastPassed_append {log : List (Nat × Frame)} (hnone : ∀ p ∈ log, p.2.isFd = false)
    (rest : List (Nat × Frame)) : lastPassed id (log ++ rest) = lastPassed id rest := by
  have hlog : log.find? (fun p => p.2 = .fd id) = none := by
    rw [List.find?_eq_none]
    intro p hp hfd
    have hisFd := hnone p hp
    rw [of_decide_eq_true hfd] at hisFd
    cases hisFd
  rw [lastPassed, List.find?_append, hlog, Option.none_or, lastPassed]

private theorem lastPassed_fd (conn : Nat) (i : Uuid) (log : List (Nat × Frame)) :
    lastPassed i ((conn, .fd id) :: log) = if id = i then some conn else lastPassed i log := by
  by_cases hi : id = i
  · simp [lastPassed, hi]
  · simp [lastPassed, hi]

/-- The frame in front of a descriptor is none itself. -/
theorem front_isFd {conn : Nat} {front : List (Nat × Frame)} {answers : Bool}
    (hfront : (∃ frame : Frame, frame.announces id = true ∧ front = [(conn, frame)]) ∨
      answers = false ∧ front = []) : ∀ p ∈ front, p.2.isFd = false := by
  rcases hfront with ⟨frame, hannounces, rfl⟩ | ⟨_, rfl⟩
  · intro p hp
    cases List.mem_singleton.mp hp
    cases frame with
    | fd => cases hannounces
    | _ => rfl
  · exact fun _ hp => nomatch hp

private theorem Passage.handedLast {answers : Bool} (hlast : HandedLast σ)
    (h : Passage answers σ σ') :
    HandedLast σ' := by
  cases h with
  | hushed h =>
    intro id t fd conn ht hstate howner hconn
    obtain ⟨s, hs, hstate, hsame⟩ := h.recedes id t ht hstate
    obtain ⟨log, hlog, hnone⟩ := h.deliveries
    rw [hlog, lastPassed_append hnone]
    exact hlast _ _ _ _ hs hstate (hsame ▸ howner) (h.conns hconn)
  | @passed id fd conn front hdeliveries hfront howner hconn hothers hconns =>
    intro i t fd' conn' ht hstate howner' hconn'
    rw [hdeliveries, List.cons_append, lastPassed_fd, lastPassed_append (front_isFd hfront)]
    split
    · rename_i hi
      subst hi
      cases (howner t ht hstate).symm.trans howner'
      exact hconn.symm.trans (hconns hconn')
    · rename_i hi
      obtain ⟨s, hs, hstate, hsame⟩ := hothers i t (Ne.symm hi) ht hstate
      exact hlast _ _ _ _ hs hstate (hsame ▸ howner') (hconns hconn')

private theorem announced_append (conn : Nat) {log : List (Nat × Frame)}
    (hnone : ∀ p ∈ log, p.2.isFd = false) (rest : List (Nat × Frame)) :
    announced (framesOn conn (log ++ rest)) = announced (framesOn conn rest) := by
  induction log with
  | nil => rfl
  | cons p log ih =>
    have ih := ih fun q hq => hnone q (List.mem_cons_of_mem p hq)
    have hp := hnone p List.mem_cons_self
    rw [framesOn, List.cons_append, List.filterMap_cons]
    split
    · exact ih
    · rename_i frame hframe
      split at hframe
      · cases hframe
        revert hp
        cases p.2 with
        | fd => exact fun hp => nomatch hp
        | _ => exact fun _ => ih
      · cases hframe

private theorem Passage.allAnnounced (hbefore : AllAnnounced σ) (h : Passage true σ σ') :
    AllAnnounced σ' := by
  intro conn
  cases h with
  | hushed h =>
    obtain ⟨log, hlog, hnone⟩ := h.deliveries
    rw [hlog, announced_append conn hnone]
    exact hbefore conn
  | @passed id fd conn' front hdeliveries hfront howner hconn hothers hconns =>
    have hnone := front_isFd hfront
    rcases hfront with ⟨frame, hannounces, rfl⟩ | ⟨hnot, _⟩
    · rw [hdeliveries]
      by_cases heq : conn' = conn
      · have hframes : framesOn conn ((conn', .fd id) :: [(conn', frame)] ++ σ.deliveries) =
            .fd id :: frame :: framesOn conn σ.deliveries := by simp [framesOn, heq]
        have hframe := announced_append conn hnone σ.deliveries
        have hone : framesOn conn ([(conn', frame)] ++ σ.deliveries) =
            frame :: framesOn conn σ.deliveries := by simp [framesOn, heq]
        rw [hone] at hframe
        rw [hframes, announced, List.head?_cons, Option.any_some, hannounces, hframe]
        exact hbefore conn
      · have hframes : framesOn conn ((conn', .fd id) :: [(conn', frame)] ++ σ.deliveries) =
            framesOn conn σ.deliveries := by simp [framesOn, heq]
        rw [hframes]
        exact hbefore conn
    · cases hnot

/-- A connection that arrives changes nothing for the others. -/
theorem acceptClient_handedLast {fd : RawFd} (hinv : Inv σ) (hfree : σ.freeFd fd = true)
    (hlast : HandedLast σ) :
    HandedLast (σ.acceptClient fd) := by
  intro id s x conn hs hstate howner hconn
  obtain ⟨conn', hconn', _⟩ := (hinv.session (coreOf_eq_some hs)).owner x howner
  have hx : x ≠ fd := ne_of_free (hinv.client hconn') (freeFd_iff.mp hfree).2
  rw [connOf_acceptClient, if_neg hx] at hconn
  exact hlast _ _ _ _ hs hstate howner hconn

private theorem occur_handedLast (hinv : Inv σ) (hlast : HandedLast σ) (h : σ.occur J m = some σ') :
    HandedLast σ' := by
  rcases occur_cases h with ⟨e, _, h⟩ | ⟨_, haside, hsessions, htrace⟩
  · by_cases haccept : ∃ fd, e = .accept fd
    · obtain ⟨fd, rfl⟩ := haccept
      obtain ⟨rfl, hfree⟩ := event_accept h
      exact acceptClient_handedLast hinv hfree hlast
    · exact (event_passage hinv (fun fd he => haccept ⟨fd, he⟩) h).handedLast hlast
  · intro id s fd conn hs hstate howner hconn
    rw [deliveries, htrace]
    exact hlast _ _ _ _ (hsessions ▸ hs) hstate howner ((haside.clients fd).symm.trans hconn)

/-- In every state that is reached, an attached session belongs to the connection to which its
descriptor went last. -/
theorem owner_handed (h : (occurrences J).Reachable σ) {s : Session}
    (hs : σ.sessions.lookup id = some s) (hstate : s.state = .attached) :
    ∃ fd conn, s.ownerFd = some fd ∧ σ.connOf fd = some conn ∧
      lastPassed id σ.deliveries = some conn := by
  have hlast : HandedLast σ := by
    refine h.invariant_with (fun _ => occurrences_inv) ?_ ?_
    · rintro _ ⟨listener, wakeup, now, rfl⟩ id s fd conn hs
      cases hs
    · intro σ m σ' hinv hlast _ hstep
      exact occur_handedLast hinv hlast hstep
  have hok := (occurrences_inv h).session (coreOf_eq_some hs)
  obtain ⟨fd, howner⟩ := Option.isSome_iff_exists.mp (hok.owned.mp hstate)
  obtain ⟨conn, hconn, _⟩ := hok.owner fd howner
  exact ⟨fd, conn, howner, hconn, hlast _ _ _ _ hs hstate howner hconn⟩

/-- A client creates session 7 and attaches it; a WebSocket client takes it and gives it back. -/
private def takenAndBack : List Occurrence :=
  [.event (.accept 5), .event (.request 5 (.ok (.create none 80 24 none none none)) 0 calm),
    .event (.request 5 (.ok (.attach 7)) 0 calmLater), .event (.accept 6),
    .event (.command .new (.request 0 (.attach 7) 0) calmLater),
    .event (.command .new (.request 0 (.detach 7 0 0 none) 0) calmLater)]

/-- The descriptor went to the first of two connections, once and again. -/
theorem owner_handed_back : ∃ σ s fd conn, (occurrences silent).Reachable σ ∧
    σ.sessions.lookup 7 = some s ∧ s.ownerFd = some fd ∧ σ.connOf fd = some conn ∧
    lastPassed 7 σ.deliveries = some conn ∧
    (σ.deliveries.map fun p => (p.1, p.2.isFd)) =
      [(0, true), (0, false), (0, false), (0, true), (0, false), (0, false)] := by
  have hrun : ((occurrences silent).exec (Server.new 3 none 0) takenAndBack).map (fun σ =>
      ((σ.sessions.lookup 7).map Session.state, σ.deliveries.map fun p => (p.1, p.2.isFd))) =
      some (some .attached,
        [(0, true), (0, false), (0, false), (0, true), (0, false), (0, false)]) := by
    decide +kernel
  obtain ⟨σ, hexec, hfacts⟩ := Option.map_eq_some_iff.mp hrun
  obtain ⟨hstate, hdeliveries⟩ := Prod.mk.inj hfacts
  obtain ⟨s, hs, hstate⟩ := Option.map_eq_some_iff.mp hstate
  have hstart : (occurrences silent).Reachable (Server.new 3 none 0) := .start ⟨3, none, 0, rfl⟩
  obtain ⟨fd, conn, howner, hconn, hlast⟩ := owner_handed (hstart.exec hexec) hs hstate
  exact ⟨σ, s, fd, conn, hstart.exec hexec, hs, howner, hconn, hlast, hdeliveries⟩

end Server

def Occurrence.answers : Occurrence → Bool
  | .event e => e.answers
  | _ => true

namespace Server

variable {J : Codec} {σ : Server}

theorem reachable_announced (h : (occurrences J).Reach (fun _ m => m.answers = true) σ) :
    AllAnnounced σ := by
  refine h.invariant_with (fun _ h => occurrences_inv h.reachable) ?_ ?_
  · rintro _ ⟨listener, wakeup, now, rfl⟩ conn
    rfl
  · intro σ m σ' hinv hbefore hanswers hstep
    rcases occur_cases hstep with ⟨e, rfl, h⟩ | ⟨_, _, _, htrace⟩
    · by_cases haccept : ∃ fd, e = .accept fd
      · obtain ⟨fd, rfl⟩ := haccept
        obtain ⟨rfl, _⟩ := event_accept h
        exact hbefore
      · have hpassage := event_passage hinv (fun fd he => haccept ⟨fd, he⟩) h
        have hanswers : e.answers = true := hanswers
        rw [hanswers] at hpassage
        exact hpassage.allAnnounced hbefore
    · intro conn
      rw [deliveries, htrace]
      exact hbefore conn

/-- What is sent on a connection before a descriptor. -/
theorem announced_before {id : Uuid} {later earlier : List Frame}
    (h : announced (later ++ .fd id :: earlier) = true) :
    ∃ frame rest, earlier = frame :: rest ∧ frame.announces id = true := by
  induction later with
  | nil =>
    rw [List.nil_append, announced, Bool.and_eq_true] at h
    cases earlier with
    | nil => cases h.1
    | cons frame rest => exact ⟨frame, rest, rfl, h.1⟩
  | cons frame later ih =>
    apply ih
    cases frame with
    | fd _ => exact (Bool.and_eq_true_iff.mp h).2
    | _ => exact h

/-- As long as the responses can be written, no descriptor can be taken for that of another session:
what has been sent before it on its connection is the frame that announces its session. -/
theorem descriptors_announced (h : (occurrences J).Reach (fun _ m => m.answers = true) σ)
    {conn : Nat} {id : Uuid} {later earlier : List Frame}
    (hframes : framesOn conn σ.deliveries = later ++ .fd id :: earlier) :
    ∃ frame rest, earlier = frame :: rest ∧ frame.announces id = true :=
  announced_before (hframes ▸ reachable_announced h conn)

/-- The same client is sent two descriptors, and three frames behind the first of them. -/
theorem descriptors_announced_back : ∃ σ later frame earlier,
    (occurrences silent).Reachable σ ∧
    framesOn 0 σ.deliveries = later ++ .fd 7 :: frame :: earlier ∧ later.map Frame.isFd =
      [true, false, false] ∧ frame.announces 7 = true := by
  have hrun : ((occurrences silent).exec (Server.new 3 none 0) takenAndBack).map (fun σ =>
      (((framesOn 0 σ.deliveries).drop 3).head?,
        ((framesOn 0 σ.deliveries).take 3).map Frame.isFd)) =
      some (some (.fd 7), [true, false, false]) := by decide +kernel
  obtain ⟨σ, hexec, hfacts⟩ := Option.map_eq_some_iff.mp hrun
  obtain ⟨hhead, hlater⟩ := Prod.mk.inj hfacts
  obtain ⟨earlier, hearlier⟩ := List.head?_eq_some_iff.mp hhead
  have hframes : framesOn 0 σ.deliveries =
      (framesOn 0 σ.deliveries).take 3 ++ .fd 7 :: earlier := by
    rw [← hearlier, List.take_append_drop]
  have hstart : (occurrences silent).Reach (fun _ m => m.answers = true) (Server.new 3 none 0) :=
    .start ⟨3, none, 0, rfl⟩
  have hanswers : ∀ m ∈ takenAndBack, ∀ _ : Server, m.answers = true := by
    intro m hm _
    revert m
    decide
  have hreach := hstart.exec hanswers hexec
  obtain ⟨frame, rest, rfl, hannounces⟩ := descriptors_announced hreach hframes
  exact ⟨σ, _, frame, rest, hreach.reachable, hframes, hlater, hannounces⟩

end Server

end PtyDaemon
